import FrameFeed.Arguments.Options
/-!
# How a request is written

An emit request in the terms of its writer: paths, and options that may be left out. `Given.request`
is the request that is meant, with the defaults for all that was left out. `Given.WrittenAs` says
which argument lists write it down: options about reports and logs may stand in front of the command
or behind it, all others stand behind it, anywhere among the paths and in any order, and the value
of an option is an argument of its own or follows an equals sign.

Nothing here speaks of the reading of arguments; the names of the options and the words among which
some of them choose are spelled out as the program's help gives them.
-/

namespace FrameFeed

/-- The form of a report as its option asks for it. -/
def Format.written : Format → String
  | json => "json"
  | table => "table"
  | pretty => "pretty"

/-- The form of log records as its option asks for it. -/
def Log.Form.written : Log.Form → String
  | text => "text"
  | json => "json"

/-- A level of log records as its option asks for it. -/
def Log.Level.written : Log.Level → String
  | error => "error"
  | warn => "warn"
  | info => "info"
  | debug => "debug"
  | trace => "trace"

namespace Arguments

/-! ## What is given -/

/-- The paths and options of an emit request, as far as they are given. -/
structure Given where
  inputs : List String
  ptsStart : Option Int64 := none
  ptsStep : Option Int64 := none
  interval : Option String := none
  loop : Bool := false
  output : Option String := none
  maxDocumentSize : Option UInt64 := none
  format : Option Format := none
  logForm : Option Log.Form := none
  logLevel : Option Log.Level := none

/-- Text that is there and cannot be taken for an option. -/
def Plain (w : String) : Prop := w ≠ "" ∧ w.toList.head? ≠ some '-'

instance (w : String) : Decidable (Plain w) := inferInstanceAs (Decidable (_ ∧ _))

namespace Given

/-- What can be written down: there is an image, and no text looks like an option. -/
structure Valid (g : Given) : Prop where
  inputs_ne_nil : g.inputs ≠ []
  plain_inputs : ∀ w ∈ g.inputs, Plain w
  plain_interval : ∀ w ∈ g.interval, Plain w
  plain_output : ∀ w ∈ g.output, Plain w

/-- The request that is meant. Without a word about them, timestamps count from 0 by 1, the images
are sent once, and log records are text from the level `info` up. -/
def request (g : Given) : Request where
  format := g.format
  logForm := g.logForm.getD .text
  logLevel := g.logLevel.getD .info
  command := .emit {
    inputs := g.inputs
    ptsStart := g.ptsStart.getD 0
    ptsStep := g.ptsStep.getD 1
    interval := g.interval
    loop := g.loop
    output := g.output
    maxDocumentSize := g.maxDocumentSize.map UInt64.toNat }

/-- The options of the command that are given, with their values. -/
def emitSettings (g : Given) : List Setting :=
  List.filterMap id [
    g.ptsStart.map .ptsStart,
    g.ptsStep.map .ptsStep,
    g.interval.map .interval,
    if g.loop then some .loop else none,
    g.output.map .output,
    g.maxDocumentSize.map fun n => .maxDocumentSize n.toNat]

/-- The options about reports and logs that are given, with their values. -/
def globalSettings (g : Given) : List Setting :=
  List.filterMap id [
    g.format.map .format,
    g.logForm.map .logFormat,
    g.logLevel.map .logLevel]

/-- The options that are given, with their values. -/
def settings (g : Given) : List Setting := g.emitSettings ++ g.globalSettings

end Given

/-! ## How it is written -/

namespace Setting

/-- The name of the option, dashes and all. -/
def option : Setting → String
  | format _ => "--format"
  | logFormat _ => "--log-format"
  | logLevel _ => "--log-level"
  | ptsStart _ => "--pts-start"
  | ptsStep _ => "--pts-step"
  | interval _ => "--interval"
  | loop => "--loop"
  | output _ => "--output"
  | maxDocumentSize _ => "--max-document-size"
  | jpegSize _ => "--jpeg-size"
  | extended => "--extended"

/-- The text of the value, where the option takes one. -/
def value? : Setting → Option String
  | format f => some f.written
  | logFormat f => some f.written
  | logLevel l => some l.written
  | ptsStart n => some (toString n.toInt)
  | ptsStep n => some (toString n.toInt)
  | interval text => some text
  | loop => none
  | output path => some path
  | maxDocumentSize n => some (toString n)
  | jpegSize n => some (toString n)
  | extended => none

/-- Whether the option is about reports or logs, and so belongs on either side of the command. -/
def isGlobal : Setting → Bool
  | format _ | logFormat _ | logLevel _ => true
  | _ => false

end Setting

/-- The arguments that write down one option. Only the output has a letter. -/
inductive Spells : Setting → List String → Prop
  /-- `--name`. -/
  | flag {s : Setting} (h : s.value? = none) : Spells s [s.option]
  /-- `--name value`. -/
  | apart {s : Setting} {value : String} (h : s.value? = some value) : Spells s [s.option, value]
  /-- `--name=value`. -/
  | joined {s : Setting} {value : String} (h : s.value? = some value) :
    Spells s [s.option ++ "=" ++ value]
  /-- `-o path`. -/
  | letter (path : String) : Spells (.output path) ["-o", path]

/-- One thing behind the command. -/
inductive Item
  | image (path : String)
  | setting (s : Setting)

/-- The paths among items, in order. -/
def imagesOf (items : List Item) : List String :=
  items.filterMap fun
    | .image path => some path
    | .setting _ => none

/-- The options among items, in order. -/
def settingsOf (items : List Item) : List Setting :=
  items.filterMap fun
    | .image _ => none
    | .setting s => some s

/-- The arguments that write down items one after another. -/
inductive Writes : List Item → List String → Prop
  | nil : Writes [] []
  | image (path : String) {items : List Item} {args : List String} (h : Writes items args) :
    Writes (.image path :: items) (path :: args)
  | setting {s : Setting} {own : List String} {items : List Item} {args : List String}
    (hs : Spells s own) (h : Writes items args) : Writes (.setting s :: items) (own ++ args)

/-- **The argument lists that write down an emit request**: each option once, the paths in their
order. -/
def Given.WrittenAs (g : Given) (args : List String) : Prop :=
  ∃ (front : List Setting) (items : List Item) (before after : List String),
    args = before ++ "emit" :: after ∧
    Writes (front.map .setting) before ∧ Writes items after ∧
    (∀ s ∈ front, s.isGlobal = true) ∧
    imagesOf items = g.inputs ∧ (front ++ settingsOf items).Perm g.settings

end Arguments

end FrameFeed
