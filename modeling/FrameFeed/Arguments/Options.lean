import FrameFeed.Request
import FrameFeed.Text.Decimal
/-!
# Declared options

The commands, the options that each of them takes, and how the value of an option is read. Three
options about reports and logs are taken by the program and by every command; all others belong
to one command.
-/

namespace FrameFeed

namespace Arguments

/-- Why arguments do not make a request. Asking for help or for the version is one of the
reasons. -/
inductive Refusal
  | displayHelp
  | displayVersion
  /-- There is no argument at all. -/
  | displayHelpOnMissing
  | invalidSubcommand
  | missingSubcommand
  | missingRequiredArgument
  | unknownArgument
  /-- A value is missing, is not one of a fixed set, or is an empty path. -/
  | invalidValue
  /-- A value is not a number in range. -/
  | valueValidation
  /-- An option is given twice. -/
  | argumentConflict
  /-- An option that takes no value is given one. -/
  | tooManyValues
  deriving DecidableEq, Repr

/-- Options that take no value. -/
inductive Flag
  | loop
  | extended
  | help
  | version
  deriving DecidableEq, Repr

/-- Options that take a value. -/
inductive Key
  | format
  | logFormat
  | logLevel
  | ptsStart
  | ptsStep
  | interval
  | output
  | maxDocumentSize
  | jpegSize
  deriving DecidableEq, Repr

/-- An option of either sort. -/
inductive Slot
  | flag (f : Flag)
  | key (k : Key)
  deriving DecidableEq, Repr

/-- The long name of an option. -/
def Slot.long : Slot → String
  | flag .loop => "loop"
  | flag .extended => "extended"
  | flag .help => "help"
  | flag .version => "version"
  | key .format => "format"
  | key .logFormat => "log-format"
  | key .logLevel => "log-level"
  | key .ptsStart => "pts-start"
  | key .ptsStep => "pts-step"
  | key .interval => "interval"
  | key .output => "output"
  | key .maxDocumentSize => "max-document-size"
  | key .jpegSize => "jpeg-size"

/-- The letter of an option, where it has one. -/
def Slot.short? : Slot → Option Char
  | flag .help => some 'h'
  | flag .version => some 'V'
  | key .output => some 'o'
  | _ => none

/-- Whether a negative number may stand as the value in an argument of its own. -/
def Key.takesNegative : Key → Bool
  | ptsStart | ptsStep => true
  | _ => false

/-! ## Where options belong -/

/-- A part of the command line with options of its own: in front of the command, or after it. -/
inductive Scope
  | program
  | emit
  | layout
  | version
  deriving DecidableEq, Repr

/-- The options that belong everywhere. -/
def globalSlots : List Slot :=
  [.key .format, .key .logFormat, .key .logLevel, .flag .help]

/-- The options that are taken in a scope. -/
def Scope.slots : Scope → List Slot
  | program => .flag .version :: globalSlots
  | emit =>
    [.key .ptsStart, .key .ptsStep, .key .interval, .flag .loop, .key .output,
      .key .maxDocumentSize] ++ globalSlots
  | layout => .key .jpegSize :: globalSlots
  | version => .flag .extended :: globalSlots

/-- The option with a given long name. -/
def Scope.long? (scope : Scope) (name : String) : Option Slot :=
  scope.slots.find? (·.long = name)

/-- The option with a given letter. -/
def Scope.short? (scope : Scope) (letter : Char) : Option Slot :=
  scope.slots.find? (·.short? = some letter)

/-- The command that a word names. -/
def command? : String → Option Scope
  | "emit" => some .emit
  | "layout" => some .layout
  | "version" => some .version
  | _ => none

/-- The word that asks for help with a command. -/
def helpWord : String := "help"

/-- Whether a word stands for a command or asks for help. -/
def isCommandWord (w : String) : Bool := (command? w).isSome || w = helpWord

/-! ## Values -/

/-- An option with its value. -/
inductive Setting
  | format (f : Format)
  | logFormat (f : Log.Form)
  | logLevel (l : Log.Level)
  | ptsStart (n : Int64)
  | ptsStep (n : Int64)
  | interval (text : String)
  | loop
  | output (path : String)
  | maxDocumentSize (n : Nat)
  | jpegSize (n : Nat)
  | extended
  deriving DecidableEq

/-- The option that a setting sets. -/
def Setting.slot : Setting → Slot
  | format _ => .key .format
  | logFormat _ => .key .logFormat
  | logLevel _ => .key .logLevel
  | ptsStart _ => .key .ptsStart
  | ptsStep _ => .key .ptsStep
  | interval _ => .key .interval
  | loop => .flag .loop
  | output _ => .key .output
  | maxDocumentSize _ => .key .maxDocumentSize
  | jpegSize _ => .key .jpegSize
  | extended => .flag .extended

/-- The word for a form of reports. -/
def formatWord : Format → String
  | .json => "json"
  | .table => "table"
  | .pretty => "pretty"

/-- The word for a form of log records. -/
def logFormWord : Log.Form → String
  | .text => "text"
  | .json => "json"

/-- The word for a log level. -/
def logLevelWord : Log.Level → String
  | .error => "error"
  | .warn => "warn"
  | .info => "info"
  | .debug => "debug"
  | .trace => "trace"

/-- The choice that a word stands for. -/
def choose {α : Type} (word : α → String) (choices : List α) (s : String) : Except Refusal α :=
  match choices.find? (word · = s) with
  | none => .error .invalidValue
  | some choice => .ok choice

/-- A number that was read, if there was one. -/
def number {α : Type} (n : Option α) : Except Refusal α :=
  match n with
  | none => .error .valueValidation
  | some n => .ok n

/-- A path; an empty one is none. -/
def path (s : String) : Except Refusal String :=
  if s = "" then .error .invalidValue else .ok s

/-- The setting that a value makes. -/
def Key.read (key : Key) (s : String) : Except Refusal Setting :=
  match key with
  | format => (choose formatWord [.json, .table, .pretty] s).map .format
  | logFormat => (choose logFormWord [.text, .json] s).map .logFormat
  | logLevel => (choose logLevelWord [.error, .warn, .info, .debug, .trace] s).map .logLevel
  | ptsStart => (number (Decimal.signed? s.toList)).map .ptsStart
  | ptsStep => (number (Decimal.signed? s.toList)).map .ptsStep
  | interval => .ok (.interval s)
  | output => (path s).map .output
  | maxDocumentSize =>
    (number (Decimal.unsigned? Decimal.maxWord s.toList)).map .maxDocumentSize
  | jpegSize => (number (Decimal.unsigned? Decimal.maxWord s.toList)).map .jpegSize

/-- The setting that a flag makes; asking for help or the version ends the reading. -/
def Flag.read : Flag → Except Refusal Setting
  | loop => .ok .loop
  | extended => .ok .extended
  | help => .error .displayHelp
  | version => .error .displayVersion

end Arguments

end FrameFeed
