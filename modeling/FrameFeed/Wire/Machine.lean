import FrameFeed.Wire.Layout
import FrameFeed.Wire.Message
/-!
# Sizes in machine words

The sizes of a message as they are computed: in words of 64 bits, with the lengths on the wire in
words of 32. A picture's size is checked once, when its document is measured; the sums and casts
behind that check are not checked, and would wrap around. Each definition computes what the one of
the same name outside `Machine` means.
-/

namespace FrameFeed

namespace Wire

namespace Machine

/-- The sum of two words, if there is a word for it. One that wraps around is less than either. -/
def add? (a b : UInt64) : Option UInt64 := if a + b < a then none else some (a + b)

/-- The sum of a word and those behind it, if there is a word for every sum on the way. -/
def sum? (first : UInt64) (ns : List UInt64) : Option UInt64 := ns.foldlM add? first

/-- The same number in 32 bits, if they are enough. -/
def narrow? (n : UInt64) : Option UInt32 :=
  if n.toUInt32.toUInt64 = n then some n.toUInt32 else none

/-- The limit that is in force when `limit` is asked for. -/
def cap (limit : UInt64) : UInt64 := min limit (.ofNat maxDocumentSize)

/-- The length of the document for a picture of `jpegSize` bytes, unless the limit forbids it. -/
def documentLength (limit jpegSize : UInt64) : Except EncodeError UInt32 :=
  let tooLarge := EncodeError.frameTooLarge jpegSize.toNat (cap limit).toNat
  let sizes := Field.all.map fun field => UInt64.ofNat (field.payloadLen jpegSize.toNat)
  match sum? (.ofNat documentOverhead) sizes with
  | none => .error tooLarge
  | some len =>
    if cap limit < len then .error tooLarge
    else
      match narrow? len with
      | none => .error tooLarge
      | some len => .ok len

/-! ## Layouts -/

/-- A contiguous run of bytes within one message. -/
structure Span where
  phase : Phase
  label : String
  offset : UInt64
  len : UInt64

namespace Span

/-- The offset one past the last byte. -/
def stop (s : Span) : UInt64 := s.offset + s.len

/-- Whether the byte at `offset` lies in the span. -/
def covers (s : Span) (offset : UInt64) : Bool := s.offset ≤ offset && offset < s.stop

end Span

/-- The spans of parts that lie one after another, the first at `offset`. -/
def place (offset : UInt64) : List Part → List Span
  | [] => []
  | p :: ps =>
    let len := UInt64.ofNat p.len
    ⟨p.phase, p.label, offset, len⟩ :: place (offset + len) ps

/-- The layout of one message, framing included. -/
structure Layout where
  jpegSize : UInt64
  /-- The value of both length fields. -/
  documentLen : UInt32
  /-- Bytes on the wire. -/
  messageLen : UInt64
  /-- Spans that cover the message, in wire order. -/
  spans : List Span

namespace Layout

/-- The layout of the message for a picture of `jpegSize` bytes, if a document can carry it and
there is a word for the message's length. -/
def ofSize (jpegSize : UInt64) : Except EncodeError Layout :=
  match documentLength (.ofNat maxDocumentSize) jpegSize with
  | .error e => .error e
  | .ok documentLen =>
    match add? documentLen.toUInt64 (.ofNat framingSize) with
    | none => .error (.frameTooLarge jpegSize.toNat maxDocumentSize)
    | some messageLen =>
      .ok { jpegSize, documentLen, messageLen, spans := place 0 (parts jpegSize.toNat) }

/-- The offset of the picture's first byte. -/
def payloadOffset (l : Layout) : UInt64 :=
  ((l.spans.find? (·.phase = .payload)).map Span.offset).getD 0

/-- The phase that writes the byte at `offset`; none past the end of the message. -/
def phaseAt (l : Layout) (offset : UInt64) : Option Phase :=
  (l.spans.find? (·.covers offset)).map (·.phase)

end Layout

/-! ## Messages -/

/-- The pieces of a field. The picture's size is cut down to 32 bits. -/
def fieldPieces (field : Field) (f : Frame) : List Piece :=
  ⟨.fieldName, [field.tag]⟩ ::
  ⟨.fieldName, field.name.toUTF8.data.toList⟩ ::
  ⟨.fieldName, [0]⟩ ::
  match field with
  | .pts => [⟨.fieldValue, littleEndian 8 f.pts.toUInt64.toNat⟩]
  | .frameJpeg =>
    [⟨.fieldValue, littleEndian 4 (UInt64.ofNat f.jpegSize).toUInt32.toNat⟩,
     ⟨.fieldValue, [subtypeGeneric]⟩,
     ⟨.payload, f.jpeg⟩]

/-- The pieces of the message for a frame, once its document was measured. -/
def pieces (documentLen : UInt32) (f : Frame) : List Piece :=
  ⟨.framing, bigEndian framingSize documentLen.toNat⟩ ::
  ⟨.documentHeader, littleEndian documentHeaderSize documentLen.toNat⟩ ::
  Field.all.flatMap (fieldPieces · f) ++
  [⟨.terminator, List.replicate terminatorSize 0⟩]

/-- Appends the message for a frame to `buffer`. A frame that is refused leaves no trace. -/
def append (limit : UInt64) (f : Frame) (buffer : Array UInt8) :
    Except EncodeError Unit × Array UInt8 :=
  match documentLength limit (.ofNat f.jpegSize) with
  | .error e => (.error e, buffer)
  | .ok documentLen => (.ok (), buffer ++ bytesOf (pieces documentLen f))

end Machine

end Wire

end FrameFeed
