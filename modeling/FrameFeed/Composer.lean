import FrameFeed.Writer
/-!
# Composers

A composer is a writer that puts the message for a frame together in a buffer of its own and offers
what is left of it all at once. The buffer outlives the frame: a message that was cut off stays in
it, and it is cleared before the next one goes in.

A buffer has no phases. Where the sink stops, the layout is asked for the phase of the first byte
that it did not take; should the layout know none, the framing is named.
-/

namespace FrameFeed

open Wire

/-- The phase of the byte at `offset` of the message for a frame, if a layout knows it. -/
def Frame.phaseAt? (f : Frame) (offset : Nat) : Option Phase :=
  (Layout.ofSize f.jpegSize).toOption.bind (·.phaseAt offset)

/-- A writer that composes its messages in a buffer. -/
structure Composer (σ : Type) extends Writer σ where
  /-- The message that was composed last. -/
  buffer : Array UInt8

namespace Composer

variable {σ : Type}

/-- A composer that has sent nothing yet. -/
def new (sink : σ) (limit : Nat) : Composer σ := ⟨Writer.new sink limit, #[]⟩

/-- Drops what the buffer holds. -/
def clear (c : Composer σ) : Composer σ := { c with buffer := #[] }

/-- Puts the message for a frame behind what the buffer holds, unless the frame is too large. -/
def compose (c : Composer σ) (f : Frame) : Except EncodeError Unit × Composer σ :=
  let (result, buffer) := append c.limit f c.buffer
  (result, { c with buffer })

/-- What is offered of a buffer: all that it holds. -/
def pieces (buffer : Array UInt8) : List Piece := [⟨.framing, buffer.toList⟩]

/-- The phase in which the sink stopped, with `left` of the buffer not taken. -/
def phase (f : Frame) (buffer : Array UInt8) (left : Piece) : Phase :=
  (f.phaseAt? (buffer.size - left.bytes.length)).getD .framing

/-- What came of a step: its result, the composer after it and the calls that were made. -/
structure Stepped (σ : Type) where
  result : Except EncodeError Unit
  composer : Composer σ
  calls : List Call

/-- Sends a frame, and counts it if it arrives. -/
def writeFrame (sink : Sink σ) (c : Composer σ) (f : Frame) : Option (Stepped σ) :=
  match c.clear.compose f with
  | (.error e, c) => some ⟨.error e, c, []⟩
  | (.ok (), ⟨⟨limit, s, framesWritten⟩, buffer⟩) =>
    (deliverAll sink (pieces buffer) s).map fun d =>
      let result := d.ending.result (phase f buffer)
      let arrived := if result.isOk then 1 else 0
      ⟨result, ⟨⟨limit, d.sink, framesWritten + arrived⟩, buffer⟩, d.calls⟩

/-- Does one step. Only a frame that is sent through the composer goes through its buffer. -/
def step (sink : Sink σ) (c : Composer σ) : Writer.Step σ → Option (Stepped σ)
  | .writeFrame f => c.writeFrame sink f
  | other =>
    (c.toWriter.step .whole sink other).map fun o =>
      ⟨o.result, { c with toWriter := o.writer }, o.calls⟩

/-- Does steps one after another, whatever came of those before; nothing once one of them does
not return. -/
def run (sink : Sink σ) (c : Composer σ) : List (Writer.Step σ) → Option (List (Stepped σ))
  | [] => some []
  | step :: steps => do
    let here ← c.step sink step
    let later ← run sink here.composer steps
    return here :: later

/-- A step as it looks to those who do not see the buffer. -/
def Stepped.forget (o : Stepped σ) : Writer.Stepped σ := ⟨o.result, o.composer.toWriter, o.calls⟩

end Composer

end FrameFeed
