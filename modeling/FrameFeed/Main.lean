import FrameFeed.FileSystem.Standard
import FrameFeed.Log.Stamp
import FrameFeed.Program
import Std.Time.DateTime.Timestamp
/-!
# The command line

The thin layer between the program and the system: it reads files, writes bytes, sleeps and tells
the time. What is sent, what is said and how a fault is reported is decided elsewhere; here the
writes of each frame are carried out one by one, and a fault is reported as what it means at that
write.
-/

namespace FrameFeed

namespace CommandLine

/-- The number and wording of a failed system call. -/
def errno? : IO.Error → Option (UInt32 × String)
  | .alreadyExists _ n s | .invalidArgument _ n s | .permissionDenied _ n s
  | .resourceExhausted _ n s | .inappropriateType _ n s | .noSuchThing _ n s
  | .otherError n s | .resourceBusy n s | .resourceVanished n s | .unsupportedOperation n s
  | .hardwareFault n s | .unsatisfiedConstraints n s | .illegalOperation n s
  | .protocolError n s | .timeExpired n s | .interrupted _ n s | .noFileOrDirectory _ n s =>
    some (n, s)
  | .unexpectedEof | .userError _ => none

/-- A failed system call as a fault. -/
def faultOf (e : IO.Error) : Fault :=
  match errno? e with
  | some (n, _) => .ofErrno n.toNat
  | none => ⟨.other, toString e⟩

/-- Writes a text and a line end to standard error. -/
def complain (text : String) : IO Unit := do
  let err ← IO.getStderr
  err.putStr (text ++ "\n")
  err.flush

/-- Writes a log record, if it is to be shown. -/
def say (req : Request) (record : Log.Record) : IO Unit := do
  if record.level.shownAt req.logLevel then
    let now ← Std.Time.Timestamp.now
    let micros := now.toNanosecondsSinceUnixEpoch.toInt.toNat / 1000
    complain (record.stamped (Log.stamp micros) req.logForm)

/-- Reads an image. -/
def readImage (limit : Nat) (path : String) : IO (Except EmitError Image) := do
  let content ←
    try
      pure (.ok (← (← IO.FS.Handle.mk path .read).readBinToEnd).data.toList)
    catch e => pure (.error (faultOf e))
  return Image.admit limit path content

/-- Reads all images, up to the first that is not admitted. -/
def readImages (req : Request) (limit : Nat) : List String → IO (Except EmitError (List Image))
  | [] => return .ok []
  | path :: paths => do
    match ← readImage limit path with
    | .error e => return .error e
    | .ok image =>
      say req image.loadedRecord
      return (← readImages req limit paths).map (image :: ·)

/-- Opens the output. -/
def openOutput : Option String → IO (Except EmitError IO.FS.Stream)
  | none => return .ok (← IO.getStdout)
  | some path =>
    try
      return .ok (IO.FS.Stream.ofHandle (← IO.FS.Handle.mk path .write))
    catch e => return .error (.uncreatable path (faultOf e))

/-- What sending a frame through a fresh buffer does to a tape. -/
def rehearse (limit : Nat) (f : Frame) (tape : Tape) : Option (Sent (Buffered Tape)) :=
  send .byPiece limit (Buffered.sink Tape.device) f (.of tape)

/-- Carries out writes in order; tells which one failed, and how. -/
def carryOut (out : IO.FS.Stream) (writes : Array (List UInt8)) : IO (Option (Nat × Fault)) := do
  let mut done := 0
  for bytes in writes do
    try
      out.write ⟨bytes.toArray⟩
      out.flush
    catch e => return some (done, faultOf e)
    done := done + 1
  return none

/-- Sends one frame. -/
def sendFrame (out : IO.FS.Stream) (limit : Nat) (f : Frame) : IO (Except EncodeError Unit) := do
  match rehearse limit f {} with
  | none => return .ok ()
  | some ⟨.error e, _, _⟩ => return .error e
  | some ⟨.ok (), sink, _⟩ =>
    match ← carryOut out sink.device.written with
    | none => return .ok ()
    | some broken =>
      match rehearse limit f { breaksAfter := some broken } with
      | none => return .error (.sinkFlush broken.2)
      | some sent => return sent.result

/-- Sleeps between two frames. -/
def pause (schedule : Schedule) (made : Nat) : IO Unit := do
  if let some interval := schedule.interval then
    if made ≠ 0 then
      IO.sleep (UInt32.ofNat (interval.seconds * 1000 + interval.nanos / 1_000_000))

/-- Sends a feed from a place on; the frames sent so far are those counted. -/
partial def sendFeed (req : Request) (feed : Feed) (limit : Nat) (out : IO.FS.Stream)
    (place : Feed.Place) : IO (Except FeedError Nat) := do
  match feed.turn place true with
  | .over => return .ok place.made
  | .overflow => return .error .timestampOverflow
  | .send image pts rest =>
    pause feed.schedule place.made
    match ← sendFrame out limit (image.frame pts) with
    | .error e => return .error (.write e)
    | .ok () =>
      for record in image.sentRecords pts do
        say req record
      sendFeed req feed limit out rest

/-- Runs an emit request. -/
def emit (req : Request) (emit : EmitRequest) : IO (Except EmitError Unit) := do
  match emit.schedule with
  | .error e => return .error e
  | .ok schedule =>
    match ← readImages req emit.limit emit.inputs with
    | .error e => return .error e
    | .ok images =>
      match ← openOutput emit.output with
      | .error e => return .error e
      | .ok out =>
        let feed : Feed := ⟨images, schedule⟩
        say req (feed.startRecord emit.limit)
        match ← sendFeed req feed emit.limit out feed.start with
        | .error e => return .error (.feed e)
        | .ok frames =>
          say req (Feed.finishRecord frames)
          return .ok ()

/-- Passes on what a run that touches no file has written. -/
def passOn {F : Type} (finished : Finished F) : IO UInt32 := do
  let out ← IO.getStdout
  out.write ⟨finished.world.stdout.toArray⟩
  out.flush
  let err ← IO.getStderr
  err.write ⟨finished.world.stderr.toArray⟩
  err.flush
  return UInt32.ofNat finished.code

/-- Runs the program. -/
def run (args : List String) : IO UInt32 := do
  let world : World FileSystem := ⟨.standard, [], []⟩
  match Arguments.parse args with
  | .error refusal => passOn (refusal.finish world)
  | .ok req =>
    match req.command with
    | .emit request =>
      match ← emit req request with
      | .ok () => return UInt32.ofNat ExitCode.success.number
      | .error e =>
        complain e.failure.report
        return UInt32.ofNat e.failure.code.number
    | _ =>
      match req.run world with
      | none => return UInt32.ofNat ExitCode.internal.number
      | some finished => passOn finished

end CommandLine

end FrameFeed

/-- Runs the program with the arguments it was started with. -/
def main (args : List String) : IO UInt32 := FrameFeed.CommandLine.run args
