import FrameFeed.Sink.Basic
import FrameFeed.Wire.Message
/-!
# Delivery

The loop that hands pieces to a sink: each piece is offered, what the sink leaves is offered
again, and when nothing is left the sink is flushed. An answer that asks for the same call again
gets it; an answer that takes nothing, or any other fault, ends the delivery.

A sink may ask for the same call for ever, so a delivery is given the number of calls it may make,
and answers nothing when they run out.

Main statements: `deliver_succ`, one call at a time, and `deliver_mono`, more calls never change
an answer.
-/

namespace FrameFeed

open Wire

/-- How a delivery ends. -/
inductive Ending
  /-- Every byte was taken and flushed. -/
  | delivered
  /-- The sink stopped taking bytes; `left` is what it was last offered. -/
  | cutOff (left : Piece) (fault : Fault)
  /-- Every byte was taken and flushing failed. -/
  | unflushed (fault : Fault)
  deriving DecidableEq

/-- A finished delivery: its ending, the sink after it and the calls that were made. -/
structure Delivered (σ : Type) where
  ending : Ending
  sink : σ
  calls : List Call

/-- The pieces left once the sink took the first `n` bytes of the piece in front. -/
def advance (n : Nat) (p : Piece) (ps : List Piece) : List Piece :=
  match p.bytes.drop n with
  | [] => ps
  | b :: bs => ⟨p.phase, b :: bs⟩ :: ps

/-- What a delivery does after an answer: it ends, or goes on with the pieces left. -/
inductive Reaction
  | goOn (left : List Piece)
  | stop (ending : Ending)

/-- The effect of an answer to the offer of the piece `p`, with `ps` behind it. -/
def afterWrite (p : Piece) (ps : List Piece) : WriteAnswer → Reaction
  | .took 0 => .stop (.cutOff p (.ofKind .writeZero))
  | .took (n + 1) => .goOn (advance (n + 1) p ps)
  | .notReady => .goOn (p :: ps)
  | .failed fault => if fault.isInterrupted then .goOn (p :: ps) else .stop (.cutOff p fault)

/-- The effect of an answer to a flush, when no piece is left. -/
def afterFlush : FlushAnswer → Reaction
  | .done => .stop .delivered
  | .notReady => .goOn []
  | .failed fault => if fault.isInterrupted then .goOn [] else .stop (.unflushed fault)

variable {σ : Type}

/-- The next call of a delivery: the reaction to its answer, the sink after it, and the call
itself. -/
def nextCall (sink : Sink σ) (s : σ) : List Piece → Reaction × σ × Call
  | [] =>
    let (answer, s) := sink.flush s
    (afterFlush answer, s, .flush answer)
  | p :: ps =>
    let (answer, s) := sink.write p.bytes s
    (afterWrite p ps answer, s, .write p.bytes answer)

/-- Delivers pieces that all hold bytes with at most `calls` calls, and flushes; none when the
calls run out. -/
def deliver (sink : Sink σ) : (calls : Nat) → List Piece → σ → Option (Delivered σ)
  | 0, _, _ => none
  | calls + 1, ps, s =>
    match nextCall sink s ps with
    | (.stop ending, s, call) => some ⟨ending, s, [call]⟩
    | (.goOn left, s, call) =>
      (deliver sink calls left s).map fun d => { d with calls := call :: d.calls }

/-- Delivers pieces and flushes. Pieces without bytes are not offered. The calls allowed are one
for each byte, one to flush, and as many more as the sink asks patience for. -/
def deliverAll (sink : Sink σ) (ps : List Piece) (s : σ) : Option (Delivered σ) :=
  deliver sink ((bytesOf ps).length + 1 + sink.patience s) (ps.filter (·.bytes ≠ [])) s

/-! ## One call at a time -/

theorem deliver_succ (sink : Sink σ) (calls : Nat) (ps : List Piece) (s : σ) :
    deliver sink (calls + 1) ps s =
      match nextCall sink s ps with
      | (.stop ending, s, call) => some ⟨ending, s, [call]⟩
      | (.goOn left, s, call) =>
        (deliver sink calls left s).map fun d => { d with calls := call :: d.calls } := rfl

/-- **More calls never change an answer.** -/
theorem deliver_mono {sink : Sink σ} {calls more : Nat} {ps : List Piece} {s : σ}
    {d : Delivered σ} (h : deliver sink calls ps s = some d) (le : calls ≤ more) :
    deliver sink more ps s = some d := by
  induction calls generalizing more ps s d with
  | zero => simp [deliver] at h
  | succ calls ih =>
    obtain ⟨more, rfl⟩ : ∃ m, more = m + 1 := ⟨more - 1, by omega⟩
    rw [deliver_succ] at h ⊢
    split at h
    · exact h
    · obtain ⟨d', hd, rfl⟩ := Option.map_eq_some_iff.mp h
      rw [ih hd (by omega)]
      rfl

end FrameFeed
