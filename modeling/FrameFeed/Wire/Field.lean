import FrameFeed.EncodeError
/-!
# The document's fields and its size

A document is a length, the two fields `pts` and `frameJpeg`, and a terminator. One table of
fields gives the sizes here, the layout and the bytes, so that the three cannot drift apart.

Main statement: `documentLength_eq_ok_iff`, which sizes fit in a document.
-/

namespace FrameFeed

namespace Wire

/-- Bytes of the length in front of a document. -/
def framingSize : Nat := 4

/-- Bytes of the length with which a document begins. -/
def documentHeaderSize : Nat := 4

/-- Bytes of the terminator that closes a document. -/
def terminatorSize : Nat := 1

/-- The tag of a 64-bit signed integer. -/
def tagInt64 : UInt8 := 0x12

/-- The tag of binary data. -/
def tagBinary : UInt8 := 0x05

/-- The binary subtype of bytes that carry no further meaning. -/
def subtypeGeneric : UInt8 := 0x00

/-- The longest document that a length of four bytes can describe. -/
def maxDocumentSize : Nat := 0xFFFF_FFFF

/-- One field of the document. -/
inductive Field
  /-- The presentation timestamp, a 64-bit integer. -/
  | pts
  /-- The picture, generic binary data. -/
  | frameJpeg
  deriving DecidableEq, Repr

namespace Field

/-- The fields in wire order. -/
def all : List Field := [pts, frameJpeg]

/-- The name on the wire, without the NUL after it. -/
def name : Field → String
  | pts => "pts"
  | frameJpeg => "frameJpeg"

/-- The tag that announces the field's type. -/
def tag : Field → UInt8
  | pts => tagInt64
  | frameJpeg => tagBinary

/-- Bytes of the tag, the name and the NUL. -/
def nameLen (f : Field) : Nat := 1 + f.name.utf8ByteSize + 1

/-- Bytes of fixed size after the name: the integer, or the binary length and the subtype. -/
def valueLen : Field → Nat
  | pts => 8
  | frameJpeg => 4 + 1

/-- Bytes that every frame spends on the field. -/
def fixedLen (f : Field) : Nat := f.nameLen + f.valueLen

/-- Bytes that vary with the picture. -/
def payloadLen (f : Field) (jpegSize : Nat) : Nat :=
  match f with
  | pts => 0
  | frameJpeg => jpegSize

end Field

/-! ## Size of a document -/

/-- The sum of some sizes. -/
def total : List Nat → Nat
  | [] => 0
  | n :: ns => n + total ns

/-- Bytes that every document spends, whatever its picture. -/
def documentOverhead : Nat :=
  documentHeaderSize + total (Field.all.map Field.fixedLen) + terminatorSize

/-- Bytes of the document that carries a picture of `jpegSize` bytes. -/
def documentSize (jpegSize : Nat) : Nat :=
  documentOverhead + total (Field.all.map (·.payloadLen jpegSize))

/-- The largest picture that some document can carry. -/
def maxJpegSize : Nat := maxDocumentSize - documentOverhead

/-- The limit that is in force when `limit` is asked for: no document is longer than its length
field can say. -/
def cap (limit : Nat) : Nat := min limit maxDocumentSize

/-- The length of the document for a picture of `jpegSize` bytes, unless the limit forbids it. -/
def documentLength (limit jpegSize : Nat) : Except EncodeError Nat :=
  if documentSize jpegSize ≤ cap limit then .ok (documentSize jpegSize)
  else .error (.frameTooLarge jpegSize (cap limit))

@[simp] theorem documentOverhead_eq : documentOverhead = 34 := rfl

@[simp] theorem documentSize_eq (jpegSize : Nat) : documentSize jpegSize = 34 + jpegSize := by
  simp [documentSize, total, Field.all, Field.payloadLen]

theorem cap_le (limit : Nat) : cap limit ≤ maxDocumentSize := Nat.min_le_right _ _

/-- **A picture fits exactly when its document stays within the limit in force.** -/
theorem documentLength_eq_ok_iff {limit jpegSize len : Nat} :
    documentLength limit jpegSize = .ok len ↔ len = 34 + jpegSize ∧ 34 + jpegSize ≤ cap limit := by
  rw [documentLength, documentSize_eq]
  split <;> simp_all [eq_comm]

/-- A picture is refused with its own size and the limit in force. -/
theorem documentLength_eq_error_iff {limit jpegSize : Nat} {e : EncodeError} :
    documentLength limit jpegSize = .error e ↔
      e = .frameTooLarge jpegSize (cap limit) ∧ cap limit < 34 + jpegSize := by
  rw [documentLength, documentSize_eq]
  split <;> simp_all [eq_comm]

end Wire

end FrameFeed
