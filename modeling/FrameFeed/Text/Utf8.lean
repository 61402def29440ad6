/-!
# UTF-8

Texts as bytes, and bytes as text. A decoder goes byte by byte and stands either between two
characters or inside one. Bytes that are no character are shown as U+FFFD, one for each longest
start of a character that does not go on, and one for each byte that starts none.
-/

namespace FrameFeed

namespace Utf8

/-- The bytes of a text. -/
def encode (text : String) : List UInt8 := text.toUTF8.data.toList

/-- Where a decoder stands. -/
inductive Stand
  | between
  /-- Inside a character: the bytes it still wants, the range of the next one, and the value of the
  bits read so far. -/
  | inside (wanted : Nat) (low high : UInt8) (value : Nat)

/-- What is shown for bytes that are no character. -/
def replacement : Char := '\uFFFD'

namespace Stand

/-- The stand after the first byte of a character, and the character if it is complete. Values that
have a shorter form, surrogates and values past the last character are ruled out by the range of
the second byte. -/
def start (b : UInt8) : List Char × Stand :=
  if b < 0x80 then ([Char.ofNat b.toNat], between)
  else if b < 0xC2 then ([replacement], between)
  else if b < 0xE0 then ([], inside 1 0x80 0xBF (b.toNat - 0xC0))
  else if b = 0xE0 then ([], inside 2 0xA0 0xBF 0)
  else if b = 0xED then ([], inside 2 0x80 0x9F 0xD)
  else if b < 0xF0 then ([], inside 2 0x80 0xBF (b.toNat - 0xE0))
  else if b = 0xF0 then ([], inside 3 0x90 0xBF 0)
  else if b < 0xF4 then ([], inside 3 0x80 0xBF (b.toNat - 0xF0))
  else if b = 0xF4 then ([], inside 3 0x80 0x8F 4)
  else ([replacement], between)

/-- The stand after a byte that goes on with a character, and the character if it is complete. -/
def goOn (wanted value : Nat) (b : UInt8) : List Char × Stand :=
  let value := value * 64 + (b.toNat - 0x80)
  if wanted ≤ 1 then ([Char.ofNat value], between)
  else ([], inside (wanted - 1) 0x80 0xBF value)

/-- What a byte shows, and the stand after it. -/
def step (b : UInt8) : Stand → List Char × Stand
  | between => start b
  | inside wanted low high value =>
    if low ≤ b ∧ b ≤ high then goOn wanted value b
    else (replacement :: (start b).1, (start b).2)

/-- What is shown when the bytes are over. -/
def finish : Stand → List Char
  | between => []
  | inside .. => [replacement]

end Stand

/-- The characters that bytes show from a stand on. -/
def decodeFrom (stand : Stand) : List UInt8 → List Char
  | [] => stand.finish
  | b :: bs => (stand.step b).1 ++ decodeFrom (stand.step b).2 bs

/-- The text that bytes show. -/
def decode (bytes : List UInt8) : String := String.ofList (decodeFrom .between bytes)

end Utf8

end FrameFeed
