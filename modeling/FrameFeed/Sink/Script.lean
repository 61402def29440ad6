import FrameFeed.Sink.Store
/-!
# Scripted sinks

A store whose answers are laid down in advance. Listed answers are used up first, one for each
call. After them a write takes as much as a chunk size and a limit on the bytes held allow, and a
flush succeeds; with no room left under the limit, a write gets the answer kept for that.
-/

namespace FrameFeed

/-- A planned answer to a write, before the size of the offer is known. -/
inductive Action
  /-- Take the whole offer. -/
  | all
  /-- Take up to `n` bytes. -/
  | upTo (n : Nat)
  /-- Ask for the same call again. -/
  | notReady
  /-- Fail. -/
  | fail (fault : Fault)
  deriving DecidableEq, Repr

/-- The answer that an action gives to an offer. What is taken is counted on the bytes themselves,
so a small bite out of a long offer costs little. -/
def Action.answer (offer : List UInt8) : Action → WriteAnswer
  | all => .took offer.length
  | upTo n => .took (offer.take n).length
  | notReady => .notReady
  | fail fault => .failed fault

/-- The answers that a sink will give. -/
structure Script where
  /-- Answers to the next writes, one used up by each. -/
  writes : List Action := []
  /-- Answers to the next flushes, one used up by each. -/
  flushes : List FlushAnswer := []
  /-- The most bytes that one later write takes. -/
  chunk : Option Nat := none
  /-- The most bytes that later writes let the sink hold. -/
  limit : Option Nat := none
  /-- The answer to a later write that finds no room under the limit. -/
  whenFull : Action := .upTo 0
  /-- Flushes that succeeded so far. -/
  flushed : Nat := 0
  deriving DecidableEq

namespace Script

/-- The most that a write takes while the limit leaves room. -/
def bite (script : Script) : Action :=
  match script.chunk with
  | none => .all
  | some n => .upTo n

/-- The answer to an offer once the listed answers are used up. -/
def later (script : Script) (held : Array UInt8) (offer : List UInt8) : WriteAnswer :=
  match script.limit with
  | none => script.bite.answer offer
  | some limit =>
    match limit - held.size with
    | 0 => script.whenFull.answer offer
    | room + 1 => script.bite.answer (offer.take (room + 1))

/-- Answers an offer. -/
def write (held : Array UInt8) (offer : List UInt8) (script : Script) : WriteAnswer × Script :=
  match script.writes with
  | [] => (script.later held offer, script)
  | action :: writes => (action.answer offer, { script with writes })

/-- Answers a flush, and counts those that succeed. -/
def flush (script : Script) : FlushAnswer × Script :=
  let (answer, script) :=
    match script.flushes with
    | [] => (FlushAnswer.done, script)
    | answer :: flushes => (answer, { script with flushes })
  (answer, if answer = .done then { script with flushed := script.flushed + 1 } else script)

/-- The behaviour that follows a script. A script asks for the same call again no more often than
it has answers listed, unless it does so for ever. -/
def behaviour : Behaviour Script where
  write := write
  flush _ script := script.flush
  patience script := script.writes.length + script.flushes.length

/-- The sink that follows a script. -/
def sink : Sink (Store Script) := behaviour.sink

end Script

end FrameFeed
