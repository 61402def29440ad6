import FrameFeed.Fault
/-!
# Sinks

Where messages go: something that is called with the bytes on offer and answers how many it took,
that it failed, or that it is not ready. A sink is a step function over a state, so nothing is
assumed about one answer following from another.

A sink may ask for the same call again any number of times, by an interrupted call or by not
being ready; `patience` says how many such answers a caller should sit through before it gives up.
-/

namespace FrameFeed

/-- The answer to a write call. -/
inductive WriteAnswer
  /-- The first `n` bytes of the offer were taken. -/
  | took (n : Nat)
  /-- Nothing was taken; the caller is to offer the same bytes again. -/
  | notReady
  /-- The call failed; nothing was taken. -/
  | failed (fault : Fault)
  deriving DecidableEq, Repr

/-- The answer to a flush call. -/
inductive FlushAnswer
  /-- Everything taken so far has been passed on. -/
  | done
  /-- The caller is to flush again. -/
  | notReady
  /-- The call failed. -/
  | failed (fault : Fault)
  deriving DecidableEq, Repr

/-- Whether an answer asks for the same call again. -/
def WriteAnswer.again : WriteAnswer → Bool
  | took _ => false
  | notReady => true
  | failed fault => fault.isInterrupted

/-- Whether an answer asks for the same call again. -/
def FlushAnswer.again : FlushAnswer → Bool
  | done => false
  | notReady => true
  | failed fault => fault.isInterrupted

/-- One call to a sink and its answer. -/
inductive Call
  | write (offer : List UInt8) (answer : WriteAnswer)
  | flush (answer : FlushAnswer)
  deriving DecidableEq, Repr

/-- The bytes that a call handed over. -/
def Call.taken : Call → List UInt8
  | write offer (.took n) => offer.take n
  | _ => []

/-- The bytes that a run of calls handed over, in order. -/
def taken (calls : List Call) : List UInt8 := calls.flatMap Call.taken

/-- A destination for bytes, as a step function over its state. -/
structure Sink (σ : Type) where
  /-- Answers one write call. -/
  write : List UInt8 → σ → WriteAnswer × σ
  /-- Answers one flush call. -/
  flush : σ → FlushAnswer × σ
  /-- How many answers that ask for the same call again a caller should sit through. -/
  patience : σ → Nat

@[simp] theorem taken_nil : taken [] = [] := rfl

@[simp] theorem taken_cons (c : Call) (cs : List Call) :
    taken (c :: cs) = c.taken ++ taken cs := rfl

@[simp] theorem taken_append (cs ds : List Call) : taken (cs ++ ds) = taken cs ++ taken ds := by
  simp [taken]

end FrameFeed
