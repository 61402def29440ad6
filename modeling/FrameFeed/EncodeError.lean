import FrameFeed.Fault
import FrameFeed.Wire.Phase
/-!
# Failures of encoding and delivery

The three ways in which a frame does not reach the reader: it does not fit in a message, the sink
stopped taking bytes, or the sink took them all and could not pass them on.
-/

namespace FrameFeed

/-- Why a frame was not delivered. -/
inductive EncodeError
  /-- The document would be longer than `max` bytes. Nothing was offered to the sink. -/
  | frameTooLarge (jpegSize max : Nat)
  /-- The sink stopped taking bytes in the given phase. -/
  | sinkWrite (phase : Phase) (fault : Fault)
  /-- The sink took every byte and failed to flush them. -/
  | sinkFlush (fault : Fault)
  deriving DecidableEq, Repr

namespace EncodeError

/-- The failure in words. -/
def message : EncodeError → String
  | frameTooLarge jpegSize max =>
    "frame too large (" ++ toString jpegSize ++ " byte image, document max " ++ toString max ++ ")"
  | sinkWrite phase fault => "sink write failed during " ++ phase.name ++ ": " ++ fault.text
  | sinkFlush fault => "sink flush failed: " ++ fault.text

/-- The phase in which a write stopped; only a failed write has one. -/
def phase? : EncodeError → Option Phase
  | sinkWrite phase _ => some phase
  | _ => none

/-- The sink's own fault; a frame that is too large never met the sink. -/
def fault? : EncodeError → Option Fault
  | frameTooLarge .. => none
  | sinkWrite _ fault => some fault
  | sinkFlush fault => some fault

/-- Whether the reader at the other end of the sink has gone away. -/
def isBrokenPipe (e : EncodeError) : Bool := e.fault?.any (·.kind = .brokenPipe)

end EncodeError

end FrameFeed
