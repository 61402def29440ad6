import FrameFeed.Text.Blank
import FrameFeed.Text.Decimal
/-!
# Durations

The pause between two frames, as it is written on a command line: an unsigned number and a unit,
`ms` for milliseconds, `s` or nothing for seconds, with blanks allowed around the whole. A pause
of no length is refused.
-/

namespace FrameFeed

/-- A span of time. -/
structure Duration where
  seconds : Nat
  /-- The part of a second beyond that. -/
  nanos : Nat
  deriving DecidableEq, Repr

/-- Why a text is no duration. -/
inductive DurationError
  /-- There is nothing but blanks. -/
  | empty
  /-- The number is missing, malformed or out of range. -/
  | malformed (text : String)
  /-- The duration has no length. -/
  | zero
  /-- The unit is not one of those in which durations are written. -/
  | unsupported (unit : String)
  deriving DecidableEq, Repr

/-- The refusal in words. -/
def DurationError.message : DurationError → String
  | empty => "duration must not be empty"
  | malformed text => "invalid duration value: " ++ text
  | zero => "duration must be greater than zero"
  | unsupported unit => "unsupported duration unit: " ++ unit

namespace Duration

/-- The units in which durations are written. -/
inductive Scale
  | seconds
  | milliseconds
  deriving DecidableEq, Repr

/-- The unit with a given name. -/
def Scale.ofName? : String → Option Scale
  | "ms" => some .milliseconds
  | "s" => some .seconds
  | _ => none

/-- So many of a unit. -/
def of (n : Nat) : Scale → Duration
  | .seconds => ⟨n, 0⟩
  | .milliseconds => ⟨n / 1000, n % 1000 * 1_000_000⟩

/-- A text cut into a number and the name of a unit. -/
def splitUnit (cs : List Char) : List Char × String :=
  match cs.reverse with
  | 's' :: 'm' :: number => (number.reverse, "ms")
  | 's' :: number => (number.reverse, "s")
  | _ => (cs, "s")

/-- The duration that a text without blanks around it stands for. -/
def ofTrimmed (cs : List Char) : Except DurationError Duration :=
  if cs = [] then .error .empty
  else
    let (number, unit) := splitUnit cs
    match Decimal.unsigned? Decimal.maxWord number with
    | none => .error (.malformed (String.ofList cs))
    | some 0 => .error .zero
    | some n =>
      match Scale.ofName? unit with
      | none => .error (.unsupported unit)
      | some scale => .ok (of n scale)

/-- The duration that a text stands for. -/
def parse (s : String) : Except DurationError Duration := ofTrimmed (trimBlanks s.toList)

end Duration

end FrameFeed
