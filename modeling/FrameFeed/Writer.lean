import FrameFeed.Delivery
import FrameFeed.Wire.Layout
/-!
# Writers

A writer owns a sink, sends frames to it one after another under a size limit, and counts those
that arrived. A message is offered either piece by piece or as one whole; the two differ in the
calls they make and not in what they deliver.

A frame that is too large is refused before the sink is called. A failed delivery names the phase
of the first byte that the sink did not take: a piece knows its phase, and for a whole message the
layout is asked.

Main statements: `send_frameTooLarge`, a refused frame costs no call, and
`Writer.framesWritten_writeFrame`, what the count counts.
-/

namespace FrameFeed

open Wire

/-- How a message is put before a sink. -/
inductive Offering
  /-- Each piece on its own. -/
  | byPiece
  /-- The rest of the message, all at once. -/
  | whole
  deriving DecidableEq, Repr

namespace Offering

/-- The pieces in which the message for a frame is offered. A whole message is labelled with the
phase of its first byte. -/
def pieces : Offering → Frame → List Piece
  | byPiece, f => Wire.pieces f
  | whole, f => [⟨.framing, message f⟩]

/-- The phase of the first byte of `left`, which ends a piece of the message for a frame. -/
def phase : Offering → Frame → Piece → Phase
  | byPiece, _, left => left.phase
  | whole, f, left =>
    ((Layout.ofSize f.jpegSize).toOption.bind
      (·.phaseAt ((message f).length - left.bytes.length))).getD left.phase

end Offering

/-- The result of an ending, given the phase of what was left. -/
def Ending.result (phase : Piece → Phase) : Ending → Except EncodeError Unit
  | delivered => .ok ()
  | cutOff left fault => .error (.sinkWrite (phase left) fault)
  | unflushed fault => .error (.sinkFlush fault)

/-- What came of sending: the result, the sink after it and the calls that were made. -/
structure Sent (σ : Type) where
  result : Except EncodeError Unit
  sink : σ
  calls : List Call

variable {σ : Type}

/-- Sends one frame: checks its size, delivers its message and flushes. It answers nothing only
when the sink outlasts its own patience. -/
def send (offering : Offering) (limit : Nat) (sink : Sink σ) (f : Frame) (s : σ) :
    Option (Sent σ) :=
  match documentLength limit f.jpegSize with
  | .error e => some ⟨.error e, s, []⟩
  | .ok _ =>
    (deliverAll sink (offering.pieces f) s).map fun d =>
      ⟨d.ending.result (offering.phase f), d.sink, d.calls⟩

/-- Flushes the sink. -/
def flush (sink : Sink σ) (s : σ) : Option (Sent σ) :=
  (deliverAll sink [] s).map fun d => ⟨d.ending.result (·.phase), d.sink, d.calls⟩

/-- A sink with a size limit and the count of frames that arrived in it. -/
structure Writer (σ : Type) where
  /-- The longest document that may be sent, as it was asked for. -/
  limit : Nat
  sink : σ
  /-- Frames that were taken and flushed in full. -/
  framesWritten : Nat

namespace Writer

/-- A writer that has sent nothing yet. -/
def new (sink : σ) (limit : Nat) : Writer σ := ⟨limit, sink, 0⟩

/-- One thing done with a writer. -/
inductive Step (σ : Type)
  /-- Send a frame, and count it if it arrives. -/
  | writeFrame (f : Frame)
  /-- Flush the sink. -/
  | flush
  /-- Send a frame to the same sink under another limit, piece by piece and without counting. -/
  | sendApart (limit : Nat) (f : Frame)
  /-- Reach into the sink. -/
  | adjust (change : σ → σ)

/-- What came of a step: its result, the writer after it and the calls that were made. -/
structure Stepped (σ : Type) where
  result : Except EncodeError Unit
  writer : Writer σ
  calls : List Call

/-- Sends a frame, and counts it if it arrives. -/
def writeFrame (offering : Offering) (sink : Sink σ) (w : Writer σ) (f : Frame) :
    Option (Stepped σ) :=
  (send offering w.limit sink f w.sink).map fun sent =>
    let arrived := if sent.result.isOk then 1 else 0
    ⟨sent.result, ⟨w.limit, sent.sink, w.framesWritten + arrived⟩, sent.calls⟩

/-- Does one step. -/
def step (offering : Offering) (sink : Sink σ) (w : Writer σ) : Step σ → Option (Stepped σ)
  | .writeFrame f => w.writeFrame offering sink f
  | .flush =>
    (FrameFeed.flush sink w.sink).map fun sent =>
      ⟨sent.result, { w with sink := sent.sink }, sent.calls⟩
  | .sendApart limit f =>
    (send .byPiece limit sink f w.sink).map fun sent =>
      ⟨sent.result, { w with sink := sent.sink }, sent.calls⟩
  | .adjust change => some ⟨.ok (), { w with sink := change w.sink }, []⟩

/-- Does steps one after another, whatever came of those before; nothing once one of them does
not return. -/
def run (offering : Offering) (sink : Sink σ) (w : Writer σ) :
    List (Step σ) → Option (List (Stepped σ))
  | [] => some []
  | step :: steps => do
    let here ← w.step offering sink step
    let later ← run offering sink here.writer steps
    return here :: later

end Writer

/-! ## Refusals and the count -/

/-- **A frame that is too large is refused without a call.** -/
theorem send_frameTooLarge {offering : Offering} {limit : Nat} {sink : Sink σ} {f : Frame} {s : σ}
    (h : cap limit < 34 + f.jpegSize) :
    send offering limit sink f s =
      some ⟨.error (.frameTooLarge f.jpegSize (cap limit)), s, []⟩ := by
  rw [send, documentLength_eq_error_iff.mpr ⟨rfl, h⟩]

/-- **The count grows by one with a frame that arrives, and not otherwise.** -/
theorem Writer.framesWritten_writeFrame {offering : Offering} {sink : Sink σ} {w : Writer σ}
    {f : Frame} {o : Stepped σ} (h : w.writeFrame offering sink f = some o) :
    o.writer.framesWritten = w.framesWritten + if o.result.isOk then 1 else 0 := by
  obtain ⟨sent, -, rfl⟩ := Option.map_eq_some_iff.mp h
  rfl

end FrameFeed
