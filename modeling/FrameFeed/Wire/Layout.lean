import FrameFeed.Wire.Field
/-!
# Layout of a message

Which byte of a message belongs to which part, computed from the size of the picture alone. A
message is cut into parts with a phase, a label and a length; a part becomes a span once it is
given its offset.

Main statement: `Layout.ofSize_eq_ok_iff`, which pictures have a layout.
-/

namespace FrameFeed

namespace Wire

/-- A part of a message before it has a place. -/
structure Part where
  phase : Phase
  label : String
  len : Nat
  deriving DecidableEq, Repr

/-- A contiguous run of bytes within one message. -/
structure Span extends Part where
  /-- Bytes of the message in front of the span. -/
  offset : Nat
  deriving DecidableEq, Repr

namespace Span

/-- The offset one past the last byte. -/
def stop (s : Span) : Nat := s.offset + s.len

/-- Whether the byte at `offset` lies in the span. -/
def covers (s : Span) (offset : Nat) : Bool := s.offset ≤ offset && offset < s.stop

end Span

/-- The parts of a field: its name, its value of fixed size, and the picture where there is one. -/
def Field.parts (f : Field) (jpegSize : Nat) : List Part :=
  match f with
  | .pts =>
    [⟨.fieldName, "pts name", f.nameLen⟩,
     ⟨.fieldValue, "pts value", f.valueLen⟩]
  | .frameJpeg =>
    [⟨.fieldName, "frameJpeg name", f.nameLen⟩,
     ⟨.fieldValue, "frameJpeg length + subtype", f.valueLen⟩,
     ⟨.payload, "frameJpeg data", f.payloadLen jpegSize⟩]

/-- The parts of a message in wire order. -/
def parts (jpegSize : Nat) : List Part :=
  ⟨.framing, "frame length", framingSize⟩ ::
  ⟨.documentHeader, "document length", documentHeaderSize⟩ ::
  Field.all.flatMap (·.parts jpegSize) ++
  [⟨.terminator, "terminator", terminatorSize⟩]

/-- The spans of parts that lie one after another, the first at `offset`. -/
def place (offset : Nat) : List Part → List Span
  | [] => []
  | p :: ps => ⟨p, offset⟩ :: place (offset + p.len) ps

/-- The layout of one message, framing included. -/
structure Layout where
  /-- Bytes in the picture. -/
  jpegSize : Nat
  /-- The value of both length fields. -/
  documentLen : Nat
  /-- Spans that cover the message, in wire order. -/
  spans : List Span
  deriving DecidableEq, Repr

namespace Layout

/-- The layout of the message for a picture of `jpegSize` bytes, if a document can carry it. -/
def ofSize (jpegSize : Nat) : Except EncodeError Layout :=
  (documentLength maxDocumentSize jpegSize).map fun documentLen =>
    { jpegSize, documentLen, spans := place 0 (parts jpegSize) }

/-- Bytes on the wire: the framing and the document. -/
def messageLen (l : Layout) : Nat := framingSize + l.documentLen

/-- The offset of the picture's first byte. -/
def payloadOffset (l : Layout) : Nat :=
  ((l.spans.find? (·.phase = .payload)).map Span.offset).getD 0

/-- The phase that writes the byte at `offset`; none past the end of the message. -/
def phaseAt (l : Layout) (offset : Nat) : Option Phase :=
  (l.spans.find? (·.covers offset)).map (·.phase)

end Layout

/-! ## Which pictures have a layout -/

@[simp] theorem map_toPart_place (offset : Nat) (ps : List Part) :
    (place offset ps).map Span.toPart = ps := by
  induction ps generalizing offset with
  | nil => rfl
  | cons p ps ih => simp [place, ih]

/-- **A picture has a layout exactly when some document can carry it.** -/
theorem Layout.ofSize_eq_ok_iff {jpegSize : Nat} {l : Layout} :
    Layout.ofSize jpegSize = .ok l ↔
      34 + jpegSize ≤ maxDocumentSize ∧
        l = ⟨jpegSize, 34 + jpegSize, place 0 (parts jpegSize)⟩ := by
  rw [Layout.ofSize, documentLength, documentSize_eq, cap, Nat.min_self]
  split
  next h => simp [Except.map, h, eq_comm]
  next h => simp [Except.map, h]

end Wire

end FrameFeed
