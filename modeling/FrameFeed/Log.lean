import FrameFeed.Report.Json
import FrameFeed.Text.Pad
/-!
# Log records

What the program says about its work: a level, a message and named values. A record is written
either as text or as JSON; in JSON the members of each object are sorted by name. Text shows its
values as they are, line feeds among them; JSON escapes them and is always one line.
-/

namespace FrameFeed

namespace Log

/-- How important a record is, the most important first. -/
inductive Level
  | error
  | warn
  | info
  | debug
  | trace
  deriving DecidableEq, Repr

namespace Level

/-- The position of a level, from the most important. -/
def rank : Level → Nat
  | error => 0
  | warn => 1
  | info => 2
  | debug => 3
  | trace => 4

/-- The level as records show it. -/
def label : Level → String
  | error => "ERROR"
  | warn => "WARN"
  | info => "INFO"
  | debug => "DEBUG"
  | trace => "TRACE"

/-- Whether records of a level are shown when `least` is the least important level wanted. -/
def shownAt (level least : Level) : Bool := level.rank ≤ least.rank

end Level

/-- The forms of a record. -/
inductive Form
  | text
  | json
  deriving DecidableEq, Repr

/-- A named value of a record. -/
inductive Value
  | text (s : String)
  | number (n : Int)
  deriving DecidableEq, Repr

/-- A value in a text record. -/
def Value.render : Value → String
  | text s => s
  | number n => toString n

/-- A value in a JSON record. -/
def Value.toJson : Value → Json
  | text s => .str s
  | number n => .num n

/-- One thing said. -/
structure Record where
  level : Level
  message : String
  /-- Named values, in the order in which they are told. -/
  fields : List (String × Value)
  deriving DecidableEq, Repr

namespace Record

/-- Inserts a member before the first whose name is greater. -/
def insertMember (member : String × Json) : List (String × Json) → List (String × Json)
  | [] => [member]
  | m :: ms => if member.1 < m.1 then member :: m :: ms else m :: insertMember member ms

/-- Members sorted by name. -/
def sortMembers (members : List (String × Json)) : List (String × Json) :=
  members.foldr insertMember []

/-- The message and the named values as text. -/
def body (r : Record) : String :=
  String.intercalate " "
    (r.message :: r.fields.map fun (name, value) => name ++ "=" ++ value.render)

/-- The members of the record as a JSON object. -/
def members (r : Record) : List (String × Json) :=
  let values := ("message", Json.str r.message) :: r.fields.map fun (name, v) => (name, v.toJson)
  [("fields", .obj (sortMembers values)), ("level", .str r.level.label)]

/-- The record in one of the forms. -/
def render (r : Record) : Form → String
  | .text => r.level.label ++ " " ++ r.body
  | .json => (Json.obj r.members).render

/-- The record in a form that tells the time; in text, levels end in the same column. -/
def stamped (r : Record) (time : String) : Form → String
  | .text => time ++ " " ++ padLeft 5 r.level.label ++ " " ++ r.body
  | .json => (Json.obj (r.members ++ [("timestamp", .str time)])).render

end Record

end Log

end FrameFeed
