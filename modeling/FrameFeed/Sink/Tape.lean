import FrameFeed.Sink.Buffered
/-!
# Tapes

A device that lists what it is given, write by write, and may break after so many writes. Sending
to a tape shows which writes a real device would see; sending to one that breaks shows what comes
of it when the real device fails at that write.
-/

namespace FrameFeed

/-- The writes that a device has seen, and when and how it will break. -/
structure Tape where
  written : Array (List UInt8) := #[]
  breaksAfter : Option (Nat × Fault) := none

namespace Tape

/-- The bytes that a device has seen. -/
def bytes (t : Tape) : List UInt8 := t.written.toList.flatten

/-- The fault of the next write, where the tape breaks there. -/
def fault? (t : Tape) : Option Fault :=
  t.breaksAfter.bind fun (n, fault) => if n ≤ t.written.size then some fault else none

/-- The tape as a device. -/
def device : Device Tape where
  append bytes t :=
    match t.fault? with
    | some fault => (some fault, t)
    | none => (none, { t with written := t.written.push bytes })

end Tape

end FrameFeed
