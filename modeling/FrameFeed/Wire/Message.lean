import FrameFeed.Frame
import FrameFeed.Wire.Field
import FrameFeed.Wire.Word
/-!
# The bytes of a message

A message is written as a list of pieces, each with the phase it belongs to: the framing length,
the document's own length, for each field its tag, name, NUL and value, and the terminator. The
message itself is the pieces' bytes, one after another.

Main statements: `length_message`, the number of bytes on the wire, and `toList_append`, what a
buffer holds after a frame.
-/

namespace FrameFeed

namespace Wire

/-- Bytes that are written together, and the phase they belong to. -/
structure Piece where
  phase : Phase
  bytes : List UInt8
  deriving DecidableEq

/-- The bytes of pieces, one piece after another. -/
def bytesOf (ps : List Piece) : List UInt8 := ps.flatMap Piece.bytes

/-- The pieces of a field: its tag, its name, a NUL and its value. Picture lengths have four
bytes; timestamps have eight, in two's complement. -/
def Field.pieces (field : Field) (f : Frame) : List Piece :=
  ⟨.fieldName, [field.tag]⟩ ::
  ⟨.fieldName, field.name.toUTF8.data.toList⟩ ::
  ⟨.fieldName, [0]⟩ ::
  match field with
  | .pts => [⟨.fieldValue, littleEndian 8 f.pts.toUInt64.toNat⟩]
  | .frameJpeg =>
    [⟨.fieldValue, littleEndian 4 f.jpegSize⟩,
     ⟨.fieldValue, [subtypeGeneric]⟩,
     ⟨.payload, f.jpeg⟩]

/-- The pieces of the message for a frame, in wire order. Both lengths have four bytes, so the
message means the frame only where `documentLength` accepts the picture's size. -/
def pieces (f : Frame) : List Piece :=
  ⟨.framing, bigEndian framingSize (documentSize f.jpegSize)⟩ ::
  ⟨.documentHeader, littleEndian documentHeaderSize (documentSize f.jpegSize)⟩ ::
  Field.all.flatMap (·.pieces f) ++
  [⟨.terminator, List.replicate terminatorSize 0⟩]

/-- The message for a frame. -/
def message (f : Frame) : List UInt8 := bytesOf (pieces f)

/-- Appends the message for a frame to `buffer`. A frame that is refused leaves no trace. -/
def append (limit : Nat) (f : Frame) (buffer : Array UInt8) :
    Except EncodeError Unit × Array UInt8 :=
  match documentLength limit f.jpegSize with
  | .error e => (.error e, buffer)
  | .ok _ => (.ok (), buffer ++ message f)

/-! ## Sizes -/

@[simp] theorem bytesOf_nil : bytesOf [] = [] := rfl

@[simp] theorem bytesOf_cons (p : Piece) (ps : List Piece) :
    bytesOf (p :: ps) = p.bytes ++ bytesOf ps := rfl

@[simp] theorem bytesOf_append (ps qs : List Piece) :
    bytesOf (ps ++ qs) = bytesOf ps ++ bytesOf qs := by
  simp [bytesOf]

/-- The pieces one by one, with the sizes filled in. -/
theorem pieces_eq (f : Frame) :
    pieces f =
      [⟨.framing, bigEndian 4 (34 + f.jpegSize)⟩,
       ⟨.documentHeader, littleEndian 4 (34 + f.jpegSize)⟩,
       ⟨.fieldName, [0x12]⟩, ⟨.fieldName, [0x70, 0x74, 0x73]⟩, ⟨.fieldName, [0]⟩,
       ⟨.fieldValue, littleEndian 8 f.pts.toUInt64.toNat⟩,
       ⟨.fieldName, [0x05]⟩,
       ⟨.fieldName, [0x66, 0x72, 0x61, 0x6d, 0x65, 0x4a, 0x70, 0x65, 0x67]⟩,
       ⟨.fieldName, [0]⟩,
       ⟨.fieldValue, littleEndian 4 f.jpegSize⟩, ⟨.fieldValue, [0]⟩,
       ⟨.payload, f.jpeg⟩,
       ⟨.terminator, [0]⟩] := by
  simp only [pieces, documentSize_eq, framingSize, documentHeaderSize, terminatorSize]
  rfl

/-- **A buffer grows by the message of a frame that is accepted, and not otherwise.** -/
theorem toList_append (limit : Nat) (f : Frame) (buffer : Array UInt8) :
    (append limit f buffer).2.toList =
      buffer.toList ++ if (append limit f buffer).1.isOk then message f else [] := by
  rw [append]
  split
  · exact (List.append_nil _).symm
  · exact Array.toList_appendList

/-- **A message is thirty-eight bytes and the picture.** -/
@[simp] theorem length_message (f : Frame) : (message f).length = 38 + f.jpegSize := by
  simp [message, pieces_eq, Frame.jpegSize]
  omega

end Wire

end FrameFeed
