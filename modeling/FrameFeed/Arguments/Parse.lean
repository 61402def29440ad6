import FrameFeed.Arguments.Options
import FrameFeed.Arguments.Token
/-!
# From arguments to a request

Arguments are read from left to right, first those in front of the command and then those after
it. An option or a run of words stays open until the next one begins or its part of the command
line ends, and only then is it checked; so an argument that nothing can be made of is refused
before the value in front of it is looked at. What stands open in front of the command is checked
last of all.

Options after the command win over the same options in front of it.
-/

namespace FrameFeed

namespace Arguments

/-- What was begun and is not yet checked. -/
inductive Pending
  /-- An option that takes a value, and its value once there is one. -/
  | option (key : Key) (value : Option String)
  /-- A run of words. -/
  | words (ws : List String)
  deriving DecidableEq

/-- What has been read of one part of the command line. -/
structure State where
  /-- Settings made, in order. -/
  settings : List Setting := []
  /-- Words taken as paths of images, in order. -/
  words : List String := []
  pending : Option Pending := none
  /-- Whether all that follows is words. -/
  escaped : Bool := false

namespace State

/-- Whether an option has been set. -/
def has (st : State) (slot : Slot) : Bool := st.settings.any (·.slot = slot)

/-- Adds a setting, unless its option has been set. -/
def add (st : State) (slot : Slot) (setting : Except Refusal Setting) : Except Refusal State :=
  if st.has slot then .error .argumentConflict
  else setting.map fun s => { st with settings := st.settings ++ [s] }

/-- Checks what stands open. -/
def close (st : State) : Except Refusal State :=
  let closed := { st with pending := none }
  match st.pending with
  | none => .ok st
  | some (.option _ none) => .error .invalidValue
  | some (.option key (some value)) => closed.add (.key key) (key.read value)
  | some (.words ws) =>
    if ws.any (· = "") then .error .invalidValue
    else .ok { closed with words := st.words ++ ws }

/-- Begins an option, with its value where that stands in the same argument; such a value is
checked at once. -/
def begin (st : State) (key : Key) (value : Option String) : Except Refusal State := do
  let st ← st.close
  match value with
  | none => return { st with pending := some (.option key none) }
  | some value => st.add (.key key) (key.read value)

/-- Takes a flag. -/
def flag (st : State) (f : Flag) : Except Refusal State := do
  let st ← st.close
  st.add (.flag f) f.read

/-- Takes a long option. -/
def long (st : State) (scope : Scope) (name : String) (value : Option String) :
    Except Refusal State :=
  match scope.long? name with
  | none => .error .unknownArgument
  | some (.key key) => st.begin key value
  | some (.flag f) =>
    match value with
    | some _ => .error .tooManyValues
    | none => st.flag f

/-- The value that stands in the same argument as a letter: all that follows it, without an
equals sign in front. -/
def attached : List Char → Option String
  | [] => none
  | '=' :: cs => some (String.ofList cs)
  | cs => some (String.ofList cs)

/-- Takes a run of short options. The first that takes a value takes all the letters behind it. -/
def short (st : State) (scope : Scope) : List Char → Except Refusal State
  | [] => .ok st
  | letter :: letters =>
    match scope.short? letter with
    | none => .error .unknownArgument
    | some (.key key) => st.begin key (attached letters)
    | some (.flag f) => do
      let st ← st.flag f
      short st scope letters

/-- The option that waits for its value. -/
def waiting (st : State) : Option Key :=
  match st.pending with
  | some (.option key none) => some key
  | _ => none

/-- Gives the waiting option its value. -/
def give (st : State) (key : Key) (value : String) : State :=
  { st with pending := some (.option key (some value)) }

/-- Takes an argument as an option or as the value of one; none if it is a word of its own. -/
def offer (st : State) (scope : Scope) (arg : String) : Except Refusal (Option State) :=
  if st.escaped then .ok none
  else
    match Token.of arg with
    | .escape => .ok (some { st with escaped := true })
    | .long name value => (st.long scope name value).map some
    | .short letters =>
      match st.waiting with
      | some key =>
        if key.takesNegative && numberLike letters then .ok (some (st.give key arg))
        else (st.short scope letters).map some
      | none => (st.short scope letters).map some
    | .word => .ok (st.waiting.map (st.give · arg))

/-- Takes a word. Only images are words of their own. -/
def word (st : State) (scope : Scope) (w : String) : Except Refusal State :=
  match scope with
  | .emit =>
    match st.pending with
    | some (.words ws) => .ok { st with pending := some (.words (ws ++ [w])) }
    | _ => st.close.map fun st => { st with pending := some (.words [w]) }
  | _ => .error .unknownArgument

/-- Reads the arguments after the command. -/
def scan (st : State) (scope : Scope) : List String → Except Refusal State
  | [] => st.close
  | arg :: args => do
    match ← st.offer scope arg with
    | some st => scan st scope args
    | none => scan (← st.word scope arg) scope args

end State

/-! ## Requests -/

/-- An emit request with one more setting. -/
def applyEmit (req : EmitRequest) : Setting → EmitRequest
  | .ptsStart n => { req with ptsStart := n }
  | .ptsStep n => { req with ptsStep := n }
  | .interval text => { req with interval := some text }
  | .loop => { req with loop := true }
  | .output path => { req with output := some path }
  | .maxDocumentSize n => { req with maxDocumentSize := some n }
  | _ => req

/-- The command that settings and words make. An emit command needs an image. -/
def commandOf (scope : Scope) (st : State) : Except Refusal Command :=
  match scope with
  | .program => .error .missingSubcommand
  | .emit =>
    if st.words = [] then .error .missingRequiredArgument
    else .ok (.emit (st.settings.foldl applyEmit { inputs := st.words }))
  | .layout =>
    .ok (.layout ((st.settings.findSome? fun
      | .jpegSize n => some n
      | _ => none).getD 0))
  | .version => .ok (.version (st.has (.flag .extended)))

/-- A request with one more setting about reports or logs. -/
def applyGlobal (req : Request) : Setting → Request
  | .format f => { req with format := some f }
  | .logFormat f => { req with logForm := f }
  | .logLevel l => { req with logLevel := l }
  | _ => req

/-- What asking for help with words is answered by: help, if they name at most one command. -/
def helpOn : List String → Refusal
  | [] => .displayHelp
  | [w] => if isCommandWord w then .displayHelp else .invalidSubcommand
  | _ => .invalidSubcommand

/-- Why a word that follows the mark in front of any command is refused. -/
def escapedWord (w : String) : Refusal :=
  if isCommandWord w then .unknownArgument else .invalidSubcommand

/-- Reads arguments from the front of the command on, with what has been read so far. -/
def parseFrom (st : State) : List String → Except Refusal Request
  | [] => do
    let st ← st.close
    .error (if st.settings = [] then .displayHelpOnMissing else .missingSubcommand)
  | arg :: args => do
    match ← st.offer .program arg with
    | some st => parseFrom st args
    | none =>
      if st.escaped then .error (escapedWord arg)
      else if arg = helpWord then .error (helpOn args)
      else
        match command? arg with
        | none => .error .invalidSubcommand
        | some scope =>
          let after ← ({} : State).scan scope args
          let command ← commandOf scope after
          let front ← st.close
          return (front.settings ++ after.settings).foldl applyGlobal { command }

/-- The request that arguments make. -/
def parse (args : List String) : Except Refusal Request := parseFrom {} args

end Arguments

end FrameFeed
