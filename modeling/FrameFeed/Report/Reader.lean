import FrameFeed.Report.JsonReader
import FrameFeed.Report.Layout
import FrameFeed.Text.Blank
import FrameFeed.Text.Decimal
import FrameFeed.Text.Lines
/-!
# Reading reports

What a report on a layout says, read back from its text. JSON is read by the names of its members.
A line in columns is cut at fixed places, and a row of a table at its bars; what comes of it are
cells, of which the blanks at their ends do not count. The totals stand in a line of their own.
-/

namespace FrameFeed

namespace Report

/-- What a report says of one span. -/
structure Entry where
  offset : Nat
  len : Nat
  phase : String
  label : String
  deriving DecidableEq, Repr

/-- What a report says of the whole message. -/
structure Totals where
  documentLen : Nat
  messageLen : Nat
  payloadOffset : Nat
  deriving DecidableEq, Repr

/-! ## JSON -/

/-- An entry from its object. -/
def Entry.ofJson? (value : Json) : Option Entry := do
  return {
    offset := ← (← value.get? "offset").toNat?
    len := ← (← value.get? "len").toNat?
    phase := ← (← value.get? "phase").toText?
    label := ← (← value.get? "label").toText? }

/-- The totals that stand in an object. -/
def Totals.ofJson? (value : Json) : Option Totals := do
  return {
    documentLen := ← (← value.get? "document_len").toNat?
    messageLen := ← (← value.get? "message_len").toNat?
    payloadOffset := ← (← value.get? "payload_offset").toNat? }

/-- The picture's size, the totals and the entries from a report in JSON. -/
def readJson? (text : String) : Option (Nat × Totals × List Entry) := do
  let value ← Json.read? text
  let jpegSize ← (← value.get? "jpeg_size").toNat?
  let totals ← Totals.ofJson? value
  let entries ← (← (← value.get? "spans").toItems?).mapM Entry.ofJson?
  return (jpegSize, totals, entries)

/-! ## Lines of text -/

/-- A text without the blanks at its ends. -/
def trim (cs : List Char) : String := String.ofList (trimBlanks cs)

/-- A line cut into pieces of given widths; what is left over is the last piece. -/
def cutAt : List Nat → List Char → List (List Char)
  | [], line => [line]
  | width :: widths, line => line.take width :: cutAt widths (line.drop width)

/-- An entry from a line in columns. The offset has blanks in front of it only. -/
def Entry.ofColumns? (line : String) : Option Entry :=
  match cutAt [10, 2, 10, 1, 16, 1] line.toList with
  | [offset, [' ', '+'], len, [' '], phase, [' '], label] => do
    return {
      offset := ← Decimal.digits? (offset.dropWhile isBlank)
      len := ← Decimal.digits? (trimBlanks len)
      phase := trim phase
      label := trim label }
  | _ => none

/-- The cells of a row; none if the line is not a row. -/
def row? (line : String) : Option (List String) :=
  match line.toList with
  | '│' :: cs =>
    if cs.getLast? = some '│' then some ((cs.dropLast.splitOn '┆').map trim) else none
  | _ => none

/-- An entry from the cells of its row. -/
def Entry.ofRow? : List String → Option Entry
  | [offset, len, phase, label] => do
    return {
      offset := ← Decimal.digits? offset.toList
      len := ← Decimal.digits? len.toList
      phase := phase
      label := label }
  | _ => none

/-- The number behind an equals sign, where the name in front of it is the one that is asked for. -/
def valueOf? (name : String) (word : List Char) : Option Nat :=
  if String.ofList (word.takeWhile (· ≠ '=')) = name then
    Decimal.digits? ((word.dropWhile (· ≠ '=')).drop 1)
  else none

/-- The number with a name in a line, among words with blanks between them. -/
def number? (line : String) (name : String) : Option Nat :=
  (line.toList.splitOn ' ').findSome? (valueOf? name)

/-- The totals from their line. -/
def Totals.ofLine? (line : String) : Option Totals := do
  return {
    documentLen := ← number? line "document_len"
    messageLen := ← number? line "message_len"
    payloadOffset := ← number? line "payload_offset" }

end Report

end FrameFeed
