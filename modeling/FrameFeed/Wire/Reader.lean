import FrameFeed.Frame
import FrameFeed.Wire.Word
/-!
# Reading a stream of messages

The reader's side of the wire. A stream is split on the framing lengths; each document that is
there in full is then read strictly: any byte that the format does not allow, or any length that
does not agree with the others, refuses the stream. Bytes after the last full message are handed
back unread.
-/

namespace FrameFeed

namespace Wire

namespace Reader

/-- The first `n` bytes and what follows them, if there are that many. -/
def take? (n : Nat) (bs : List UInt8) : Option (List UInt8 × List UInt8) :=
  if n ≤ bs.length then some (bs.take n, bs.drop n) else none

/-- What follows the bytes `want`, if the input begins with them. -/
def expect? (want bs : List UInt8) : Option (List UInt8) :=
  (take? want.length bs).bind fun (got, rest) => if got = want then some rest else none

/-- A number of four bytes, least significant first. -/
def length? (bs : List UInt8) : Option (Nat × List UInt8) :=
  (take? 4 bs).map fun (word, rest) => (ofLittleEndian word, rest)

/-- A timestamp: eight bytes in two's complement, least significant first. -/
def timestamp? (bs : List UInt8) : Option (Int64 × List UInt8) :=
  (take? 8 bs).map fun (word, rest) => ((UInt64.ofNat (ofLittleEndian word)).toInt64, rest)

/-- What stands in front of the timestamp: the tag of a 64-bit integer, the name `pts` and a NUL. -/
def ptsName : List UInt8 := [0x12, 0x70, 0x74, 0x73, 0x00]

/-- What stands in front of the picture's length: the tag of binary data, the name `frameJpeg` and a
NUL. -/
def frameJpegName : List UInt8 :=
  [0x05, 0x66, 0x72, 0x61, 0x6D, 0x65, 0x4A, 0x70, 0x65, 0x67, 0x00]

/-- The frame of a document of `size` bytes, all of which must be used: 33 stand in front of the
picture, the last of them its subtype, which is zero, and one terminator behind it. -/
def document? (size : Nat) (bs : List UInt8) : Option Frame := do
  let (len, bs) ← length? bs
  if len ≠ size then none
  let bs ← expect? ptsName bs
  let (pts, bs) ← timestamp? bs
  let bs ← expect? frameJpegName bs
  let (jpegSize, bs) ← length? bs
  let bs ← expect? [0x00] bs
  let (jpeg, bs) ← take? jpegSize bs
  let bs ← expect? [0x00] bs
  if bs = [] ∧ 33 + jpegSize + 1 = size then some { jpeg, pts } else none

/-- The size and bytes of the first document of a stream and what follows it, once all of it is
there. -/
def split? (bs : List UInt8) : Option (Nat × List UInt8 × List UInt8) :=
  (take? 4 bs).bind fun (word, rest) =>
    (take? (ofBigEndian word) rest).map fun (doc, rest) => (ofBigEndian word, doc, rest)

theorem length_lt_of_split? {bs doc rest : List UInt8} {size : Nat}
    (h : split? bs = some (size, doc, rest)) : rest.length < bs.length := by
  simp only [split?, take?, Option.bind_eq_some_iff, Option.map_eq_some_iff,
    Option.ite_none_right_eq_some, Option.some.injEq, Prod.mk.injEq] at h
  obtain ⟨⟨word, tail⟩, ⟨h4, _, rfl⟩, ⟨doc', rest'⟩, ⟨-, -, rfl⟩, -, -, rfl⟩ := h
  simp only [List.length_drop]
  omega

/-- The frames of a stream and the bytes after the last message that is there in full; none if
some full message is not one the format allows. -/
def read (bs : List UInt8) : Option (List Frame × List UInt8) :=
  match _h : split? bs with
  | none => some ([], bs)
  | some (size, doc, rest) =>
    (document? size doc).bind fun f => (read rest).map fun (fs, tail) => (f :: fs, tail)
termination_by bs.length
decreasing_by exact length_lt_of_split? _h

/-- The frames of a stream that holds full messages and nothing else. -/
def frames? (bs : List UInt8) : Option (List Frame) :=
  (read bs).bind fun (fs, tail) => if tail = [] then some fs else none

end Reader

end Wire

end FrameFeed
