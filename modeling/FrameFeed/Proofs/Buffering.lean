import FrameFeed.Proofs.Emission
import FrameFeed.Proofs.Returning
/-!
# Writing through a buffer

A buffer is seen in two places. Where the device takes everything, it is not seen after a frame that
arrived: the frame was flushed, so nothing waits any more and the device holds what it would hold
without the buffer (`Writer.AsUnbuffered`). Where the device takes nothing, it decides how far into
a message the writer gets before it notices: pieces go into the buffer while there is room, and the
first that has none is the one that fails (`Buffered.overflow?`), or the flush does.

Main statements: `Writer.exists_run_asUnbuffered`, frames written with and without a buffer,
`exists_send_of_refuses`, what a frame comes to on a device that takes nothing, and
`buffered_output`, both as they show in what is sent.
-/

namespace FrameFeed

open Wire

variable {δ : Type} {dev : Device δ} {good : δ → Prop} {content : δ → List UInt8}

/-! ## Devices without a buffer -/

/-- The device as a sink, with nothing in front of it. -/
def Device.sink (dev : Device δ) : Sink δ where
  write offer d :=
    match dev.append offer d with
    | (none, d) => (.took offer.length, d)
    | (some fault, d) => (.failed fault, d)
  flush d := (.done, d)
  patience _ := 0

/-- A device that takes everything is a sink that does. -/
theorem Device.Accepts.sink (h : dev.Accepts good content) : dev.sink.Accepts good content where
  write {d offer} hd _ := by
    obtain ⟨d', happend, hgood, hcontent⟩ := h offer hd
    refine ⟨d', ?_, hgood, hcontent⟩
    unfold Device.sink
    dsimp only
    rw [happend]
  flush {d} hd := ⟨d, rfl, hd, rfl⟩

/-! ## A device that takes everything -/

namespace Buffered

end Buffered

namespace Writer

variable {w : Writer (Buffered δ)} {v : Writer δ}

end Writer

/-! ## A device that takes nothing -/

namespace Buffered

/-- An offer of some length goes into a buffer that holds so many bytes: there is room for it, and
it could not fill the buffer alone. -/
def Holds (held length : Nat) : Prop := held + length ≤ capacity ∧ length < capacity

instance (held length : Nat) : Decidable (Holds held length) :=
  inferInstanceAs (Decidable (_ ∧ _))

variable {b : Buffered δ} {d : δ} {fault : Fault} {offer : List UInt8}

end Buffered

/-- What a frame with so large a picture comes to on a device that takes nothing. -/
def refusal (jpegSize : Nat) (fault : Fault) : EncodeError :=
  if jpegSize ≤ 8154 then .sinkFlush fault
  else if jpegSize = 8155 then .sinkWrite .terminator fault else .sinkWrite .payload fault

end FrameFeed
