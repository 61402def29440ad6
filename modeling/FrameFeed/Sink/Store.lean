import FrameFeed.Sink.Basic
/-!
# Sinks that keep what they take

A store holds the bytes it has taken, together with a behaviour that decides its answers and may
look at what is held. Keeping bytes is the store's work and deciding is the behaviour's, so any
behaviour at all makes a store.

Main statement: `Behaviour.toList_held_write`, what a write adds.
-/

namespace FrameFeed

/-- How a store answers its calls, given the bytes it holds. -/
structure Behaviour (β : Type) where
  /-- Answers an offer. -/
  write : (held : Array UInt8) → (offer : List UInt8) → β → WriteAnswer × β
  /-- Answers a flush. -/
  flush : (held : Array UInt8) → β → FlushAnswer × β
  /-- How many answers that ask for the same call again a caller should sit through. -/
  patience : β → Nat

/-- A sink that keeps the bytes it takes. -/
structure Store (β : Type) where
  held : Array UInt8
  behaviour : β

namespace Store

variable {β : Type}

/-- Adds bytes to a store from outside. -/
def push (bytes : List UInt8) (s : Store β) : Store β := { s with held := s.held ++ bytes }

/-- Drops the bytes held. -/
def clear (s : Store β) : Store β := { s with held := #[] }

end Store

variable {β : Type}

/-- The sink in which a store with a given behaviour takes bytes: it keeps exactly those that the
answer says were taken. -/
def Behaviour.sink (b : Behaviour β) : Sink (Store β) where
  write offer s :=
    let (answer, behaviour) := b.write s.held offer s.behaviour
    (answer, ⟨s.held ++ (Call.write offer answer).taken, behaviour⟩)
  flush s :=
    let (answer, behaviour) := b.flush s.held s.behaviour
    (answer, ⟨s.held, behaviour⟩)
  patience s := b.patience s.behaviour

/-- **A write adds the bytes taken to the bytes held.** -/
@[simp] theorem Behaviour.toList_held_write (b : Behaviour β) (offer : List UInt8) (s : Store β) :
    (b.sink.write offer s).2.held.toList =
      s.held.toList ++ (Call.write offer (b.sink.write offer s).1).taken :=
  Array.toList_appendList

@[simp] theorem Behaviour.held_flush (b : Behaviour β) (s : Store β) :
    (b.sink.flush s).2.held = s.held := rfl

@[simp] theorem Store.toList_held_push (bytes : List UInt8) (s : Store β) :
    (s.push bytes).held.toList = s.held.toList ++ bytes :=
  Array.toList_appendList

@[simp] theorem Store.held_clear (s : Store β) : s.clear.held = #[] := rfl

end FrameFeed
