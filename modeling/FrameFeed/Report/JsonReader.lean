import FrameFeed.Report.Json
import FrameFeed.Text.Decimal
/-!
# Reading JSON

A text read back as a value. Blanks may stand between the parts of a value. In a string every
character stands for itself but for quotes, backslashes and control characters, which have to be
escaped. Numbers are whole numbers, without a zero in front of other digits.

Reading takes steps from a supply, one for each value, item or member; the length of the text is
always enough (`Json.read?_render`).
-/

namespace FrameFeed

namespace Json

/-- Whether a character may stand between the parts of a value. -/
def isGap (c : Char) : Bool := c = ' ' ∨ c = '\t' ∨ c = '\n' ∨ c = '\r'

/-- A text without the gap in front of it. -/
def skip (cs : List Char) : List Char := cs.dropWhile isGap

/-- What follows a character that has to come next. -/
def expect? (c : Char) (cs : List Char) : Option (List Char) :=
  match skip cs with
  | [] => none
  | d :: rest => if d = c then some rest else none

/-! ## Strings -/

/-- The value of a hexadecimal digit. -/
def hexDigit? (c : Char) : Option Nat :=
  if c.isDigit then some (c.toNat - 0x30)
  else if 'a' ≤ c ∧ c ≤ 'f' then some (c.toNat - 0x57)
  else if 'A' ≤ c ∧ c ≤ 'F' then some (c.toNat - 0x37)
  else none

/-- The character with a number in hexadecimal digits. Half of a surrogate pair is none. -/
def ofHex? (digits : List Char) : Option Char :=
  match digits.foldlM (fun n c => (hexDigit? c).map (16 * n + ·)) 0 with
  | none => none
  | some n => if n.isValidChar then some (Char.ofNat n) else none

/-- The character that a letter behind a backslash stands for. -/
def ofEscape? : Char → Option Char
  | '"' => some '"'
  | '\\' => some '\\'
  | '/' => some '/'
  | 'b' => some '\x08'
  | 'f' => some '\x0c'
  | 'n' => some '\n'
  | 'r' => some '\r'
  | 't' => some '\t'
  | _ => none

/-- Puts a character that was read in front of what was read behind it. -/
def withFront (c : Option Char) (read : Option (List Char × List Char)) :
    Option (List Char × List Char) :=
  match c, read with
  | some c, some (cs, rest) => some (c :: cs, rest)
  | _, _ => none

/-- The characters up to the closing quote, and what follows it. -/
def string? : List Char → Option (List Char × List Char)
  | [] => none
  | '"' :: rest => some ([], rest)
  | '\\' :: 'u' :: a :: b :: c :: d :: rest => withFront (ofHex? [a, b, c, d]) (string? rest)
  | '\\' :: c :: rest => withFront (ofEscape? c) (string? rest)
  | c :: rest => if c = '\\' ∨ c.toNat < 0x20 then none else withFront (some c) (string? rest)

/-! ## Numbers -/

/-- A number from its digits. -/
def natural? (digits : List Char) : Option Nat :=
  if digits.head? = some '0' ∧ digits ≠ ['0'] then none else Decimal.digits? digits

/-- A number in front of a text, and what follows it. -/
def number? (cs : List Char) : Option (Int × List Char) :=
  match cs with
  | '-' :: cs =>
    match natural? (cs.takeWhile Char.isDigit) with
    | none => none
    | some n => some (-(n : Int), cs.dropWhile Char.isDigit)
  | cs =>
    match natural? (cs.takeWhile Char.isDigit) with
    | none => none
    | some n => some ((n : Int), cs.dropWhile Char.isDigit)

/-! ## Values -/

section

variable {α : Type} (close : Char) (item? : List Char → Option (α × List Char))

/-- Items with a comma between each two of them, and a bracket behind the last. -/
def items? : Nat → List Char → Option (List α × List Char)
  | 0, _ => none
  | steps + 1, cs =>
    match item? cs with
    | none => none
    | some (item, rest) =>
      match skip rest with
      | [] => none
      | c :: rest =>
        if c = ',' then (items? steps rest).map fun (items, rest) => (item :: items, rest)
        else if c = close then some ([item], rest)
        else none

/-- What stands between brackets, which may be nothing. -/
def bracketed? (steps : Nat) (cs : List Char) : Option (List α × List Char) :=
  match items? close item? steps cs with
  | some read => some read
  | none => (expect? close cs).map fun rest => ([], rest)

end

/-- A member of an object: its name, a colon and its value. -/
def member? (value? : List Char → Option (Json × List Char)) (cs : List Char) :
    Option ((String × Json) × List Char) := do
  let (name, rest) ← string? (← expect? '"' cs)
  let (value, rest) ← value? (← expect? ':' rest)
  return ((String.ofList name, value), rest)

/-- A value in front of a text, and what follows it. -/
def value? : Nat → List Char → Option (Json × List Char)
  | 0, _ => none
  | steps + 1, cs =>
    match skip cs with
    | '"' :: cs => (string? cs).map fun (s, rest) => (.str (String.ofList s), rest)
    | '[' :: cs =>
      (bracketed? ']' (value? steps) steps cs).map fun (items, rest) => (.arr items, rest)
    | '\x7b' :: cs =>
      (bracketed? '\x7d' (member? (value? steps)) steps cs).map fun (members, rest) =>
        (.obj members, rest)
    | cs => (number? cs).map fun (n, rest) => (.num n, rest)

/-- The value that a text says. -/
def read? (text : String) : Option Json :=
  match value? text.length text.toList with
  | none => none
  | some (value, rest) => if skip rest = [] then some value else none

/-! ## What a value holds -/

/-- The value of a member. -/
def get? (name : String) : Json → Option Json
  | obj members => members.lookup name
  | _ => none

/-- A value that is a natural number. -/
def toNat? : Json → Option Nat
  | num (.ofNat n) => some n
  | _ => none

/-- A value that is a string. -/
def toText? : Json → Option String
  | str s => some s
  | _ => none

/-- A value that is an array. -/
def toItems? : Json → Option (List Json)
  | arr items => some items
  | _ => none

end Json

end FrameFeed
