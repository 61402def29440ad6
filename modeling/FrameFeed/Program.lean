import FrameFeed.Arguments.Parse
import FrameFeed.Emit
import FrameFeed.Text.Lines
/-!
# The program

A whole run from arguments to exit code. A request is read from the arguments; a layout or a
version is written to standard output; a feed is sent. Log records go to standard error in the
form and down to the level that were asked for, and a failure comes last. What is written there may
hold any bytes, by a path with line feeds in it or a feed that is sent there; it is read as text
and cut into lines afterwards.
-/

namespace FrameFeed

/-- How the program ended: its exit code and the world after it. -/
structure Finished (F : Type) where
  code : Nat
  world : World F

variable {F : Type}

namespace Finished

/-- Standard output as text. -/
def stdoutText (finished : Finished F) : String := Utf8.decode finished.world.stdout

/-- The lines on standard error. -/
def stderrLines (finished : Finished F) : List String := linesOf (Utf8.decode finished.world.stderr)

end Finished

/-- The program's name and version. -/
def versionLine : String := "bsonframe 0.1.0"

/-- The lines that tell how the program was built. -/
def buildLines : List String :=
  ["name: bsonframe", "version: 0.1.0", "build_target: x86_64-unknown-linux-gnu",
   "target_os: linux", "target_arch: x86_64", "target_endian: little", "git_hash: unknown",
   "features: async=true, cli=true"]

/-- How the program is used. -/
def usageLines : List String :=
  ["JPEG frame feed encoder", "",
   "Usage: bsonframe [OPTIONS] emit [EMIT OPTIONS] <JPEG>...",
   "       bsonframe [OPTIONS] layout [--jpeg-size <BYTES>]",
   "       bsonframe [OPTIONS] version [--extended]", "",
   "Options:",
   "  --format <json|table|pretty>              form of reports",
   "  --log-format <text|json>                  form of log records",
   "  --log-level <error|warn|info|debug|trace> least important records shown",
   "  -h, --help                                this text",
   "  -V, --version                             the version", "",
   "Emit options:",
   "  --pts-start <N>          timestamp of the first frame",
   "  --pts-step <N>           difference between timestamps",
   "  --interval <DURATION>    pause between frames, such as 40ms or 1s",
   "  --loop                   send the images over and over",
   "  -o, --output <PATH>      file to write instead of standard output",
   "  --max-document-size <N>  longest document to send"]

/-- The line in which a failure is reported. -/
def Failure.report (f : Failure) : String := "error: " ++ f.message

namespace World

/-- The world with a line added to standard output. -/
def print (world : World F) (line : String) : World F :=
  { world with stdout := world.stdout ++ Utf8.encode (line ++ "\n") }

/-- The world with a line added to standard error. -/
def complain (world : World F) (line : String) : World F :=
  { world with stderr := world.stderr ++ Utf8.encode (line ++ "\n") }

/-- The world with what was said added to standard error. -/
def hear (world : World F) (form : Log.Form) (least : Log.Level) (said : List Saying) : World F :=
  { world with stderr := world.stderr ++ said.flatMap (Saying.bytes form least) }

end World

/-- Ends with a failure. -/
def Failure.finish (f : Failure) (world : World F) : Finished F :=
  ⟨f.code.number, world.complain f.report⟩

namespace Arguments.Refusal

/-- The exit code: asking is no mistake. -/
def exitCode : Refusal → Nat
  | displayHelp | displayVersion => 0
  | _ => 2

/-- A refusal in words, for those that are mistakes. -/
def message : Refusal → String
  | displayHelp | displayVersion => ""
  | displayHelpOnMissing | missingSubcommand => "a command is required"
  | invalidSubcommand => "unrecognized command"
  | missingRequiredArgument => "at least one image is required"
  | unknownArgument => "unexpected argument"
  | invalidValue => "a value is missing or not allowed"
  | valueValidation => "a value is not a number in range"
  | argumentConflict => "an option is given more than once"
  | tooManyValues => "an option that takes no value was given one"

/-- What the program does about arguments that make no request. -/
def finish (r : Refusal) (world : World F) : Finished F :=
  match r with
  | displayHelp => ⟨r.exitCode, usageLines.foldl World.print world⟩
  | displayVersion => ⟨r.exitCode, world.print versionLine⟩
  | _ => ⟨r.exitCode, (("error: " ++ r.message) :: usageLines).foldl World.complain world⟩

end Arguments.Refusal

/-- What a report on the layout for a picture of a given size says. -/
def layoutReport (format : Format) (jpegSize : Nat) : Except Failure String :=
  match Wire.Layout.ofSize jpegSize with
  | .error e => .error (.ofEncodeError "invalid size" e)
  | .ok layout => .ok (layout.render format)

/-- Does what a request asks for. It answers nothing only when a feed has no end. -/
def Request.run [Files F] (req : Request) (world : World F) : Option (Finished F) :=
  match req.command with
  | .layout jpegSize =>
    match layoutReport (req.format.getD .json) jpegSize with
    | .error f => some (f.finish world)
    | .ok report => some ⟨ExitCode.success.number, world.print report⟩
  | .version extended =>
    let lines := if extended then buildLines else [versionLine]
    some ⟨ExitCode.success.number, lines.foldl World.print world⟩
  | .emit emit =>
    (emit.run world).map fun emitted =>
      let world := emitted.world.hear req.logForm req.logLevel emitted.said
      match emitted.result with
      | .error e => e.failure.finish world
      | .ok _ => ⟨ExitCode.success.number, world⟩

/-- Runs the program with arguments. -/
def runProgram [Files F] (args : List String) (world : World F) : Option (Finished F) :=
  match Arguments.parse args with
  | .error refusal => some (refusal.finish world)
  | .ok req => req.run world

end FrameFeed
