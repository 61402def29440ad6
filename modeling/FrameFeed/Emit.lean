import FrameFeed.Feed
import FrameFeed.Files
import FrameFeed.Log
import FrameFeed.Request
import FrameFeed.Sink.Tape
import FrameFeed.Text.Utf8
/-!
# Sending files as a feed

The whole of one run: the pause is read, every image is loaded and its size checked, the output is
made, and the feed is sent through a buffer. Nothing is made before every image has been admitted,
so a run that cannot start leaves the files as they were, and the images are those that were there
before the run even when the output is one of them.
-/

namespace FrameFeed

/-- The files around the program and what it has written to its streams. -/
structure World (F : Type) where
  files : F
  stdout : List UInt8
  stderr : List UInt8

/-- The tape for an output, before anything is written. It breaks where the output would. -/
def Output.tape : Output → Tape
  | full => { breaksAfter := some (0, .deviceFull) }
  | stdout | stderr | file _ | drop => {}

/-- Why a run failed. -/
inductive EmitError
  /-- The pause is no duration. -/
  | interval (e : DurationError)
  /-- An image could not be read. -/
  | unreadable (path : String) (fault : Fault)
  /-- An image does not fit in a message. -/
  | oversized (path : String) (e : EncodeError)
  /-- The output could not be made. -/
  | uncreatable (path : String) (fault : Fault)
  /-- The feed broke off. -/
  | feed (e : FeedError)
  deriving DecidableEq

/-- The report of a run that failed. -/
def EmitError.failure : EmitError → Failure
  | interval e => ⟨.usage, e.message⟩
  | unreadable path fault => .ofFault ("failed reading " ++ path) fault
  | oversized path e => .ofEncodeError path e
  | uncreatable path fault => .ofFault ("failed creating " ++ path) fault
  | feed e => e.failure

namespace EmitRequest

/-- The schedule that a request asks for. -/
def schedule (req : EmitRequest) : Except EmitError Schedule :=
  match req.interval.mapM Duration.parse with
  | .error e => .error (.interval e)
  | .ok interval => .ok ⟨req.ptsStart, req.ptsStep, interval, req.loop⟩

/-- The size limit that a request asks for. -/
def limit (req : EmitRequest) : Nat := req.maxDocumentSize.getD Wire.maxDocumentSize

end EmitRequest

/-! ## Loading images -/

/-- The image that was read at a path, if it could be read and fits in a message. -/
def Image.admit (limit : Nat) (path : String) (content : Except Fault (List UInt8)) :
    Except EmitError Image :=
  match content with
  | .error fault => .error (.unreadable path fault)
  | .ok jpeg =>
    match Wire.documentLength limit jpeg.length with
    | .error e => .error (.oversized path e)
    | .ok _ => .ok ⟨path, jpeg⟩

namespace Files

variable {F : Type} [Files F]

/-- The images at the leading paths that are admitted, and why the next one is not. -/
def images (files : F) (limit : Nat) : List String → List Image × Option EmitError
  | [] => ([], none)
  | path :: paths =>
    match Image.admit limit path (read files path) with
    | .error e => ([], some e)
    | .ok image =>
      let (images, refusal) := images files limit paths
      (image :: images, refusal)

/-- The images at all paths, or why the first that is not admitted is not. -/
def load (files : F) (limit : Nat) (paths : List String) : Except EmitError (List Image) :=
  match images files limit paths with
  | (images, none) => .ok images
  | (_, some e) => .error e

end Files

/-! ## Log records -/

/-- Tells that an image was loaded. -/
def Image.loadedRecord (image : Image) : Log.Record :=
  ⟨.debug, "loaded image", [("path", .text image.path), ("size", .number image.jpeg.length)]⟩

/-- Tells that a feed starts. -/
def Feed.startRecord (feed : Feed) (limit : Nat) : Log.Record :=
  ⟨.debug, "emit starting",
    [("inputs", .number feed.images.length), ("max_document_size", .number limit)]⟩

/-- Tells that a frame arrived: as a message, and as an image of the feed. -/
def Image.sentRecords (image : Image) (pts : Int64) : List Log.Record :=
  [⟨.trace, "frame written",
    [("pts", .number pts.toInt), ("document_len", .number (Wire.documentSize image.jpeg.length))]⟩,
   ⟨.debug, "frame written",
    [("path", .text image.path), ("pts", .number pts.toInt), ("size", .number image.jpeg.length)]⟩]

/-- Tells that a feed is over. -/
def Feed.finishRecord (frames : Nat) : Log.Record :=
  ⟨.info, "emit finished", [("frames", .number frames)]⟩

/-! ## A run -/

/-- One thing that a run puts on standard error. -/
inductive Saying
  /-- A log record, where records of its level are wanted. -/
  | record (r : Log.Record)
  /-- A message of the feed, where the feed goes there. -/
  | message (bytes : List UInt8)

/-- The bytes of what is said, with records in a given form and down to a given level. -/
def Saying.bytes (form : Log.Form) (least : Log.Level) : Saying → List UInt8
  | record r => if r.level.shownAt least then Utf8.encode (r.render form ++ "\n") else []
  | message bytes => bytes

/-- A finished run: the frames that were sent or why it failed, the world after it but for standard
error, and what was said there. -/
structure Emitted (F : Type) where
  result : Except EmitError Nat
  world : World F
  said : List Saying

variable {F : Type} [Files F]

namespace World

/-- Makes the output that is asked for. -/
def openOutput (world : World F) (output : Option String) : Except EmitError (Output × World F) :=
  match output with
  | none => .ok (.stdout, world)
  | some path =>
    match Files.create world.files path with
    | .error fault => .error (.uncreatable path fault)
    | .ok (output, files) => .ok (output, { world with files })

/-- The world once bytes have gone to an output. Those on standard error are told with what is
said. -/
def receive (output : Output) (bytes : List UInt8) (world : World F) : World F :=
  match output with
  | .stdout => { world with stdout := world.stdout ++ bytes }
  | .file loc => { world with files := Files.append world.files loc bytes }
  | .stderr | .drop | .full => world

end World

/-- What is said when a frame has arrived. -/
def Output.arrival (output : Output) (image : Image) (pts : Int64) : List Saying :=
  (if output = .stderr then [.message (Wire.message (image.frame pts))] else []) ++
    (image.sentRecords pts).map .record

/-- Sends a feed to an output through a buffer, which is written out at the end. -/
def Feed.emit (feed : Feed) (limit : Nat) (output : Output) (world : World F) :
    Option (Emitted F) :=
  (feed.run (Buffered.sink Tape.device) (fun _ _ => true) feed.turns feed.start
      (Writer.new (Buffered.of output.tape) limit)).map fun ended =>
    { result := ended.result.mapError .feed
      world := world.receive output (ended.writer.sink.close Tape.device).bytes
      said :=
        .record (feed.startRecord limit) ::
          ended.sent.flatMap (fun (image, pts) => output.arrival image pts) ++
          match ended.result with
          | .ok frames => [.record (Feed.finishRecord frames)]
          | .error _ => [] }

/-- Runs a request. It answers nothing only when the feed has no end. -/
def EmitRequest.run (req : EmitRequest) (world : World F) : Option (Emitted F) :=
  match req.schedule with
  | .error e => some ⟨.error e, world, []⟩
  | .ok schedule =>
    let (images, refusal) := Files.images world.files req.limit req.inputs
    let loaded := images.map fun image => Saying.record image.loadedRecord
    match refusal with
    | some e => some ⟨.error e, world, loaded⟩
    | none =>
      match world.openOutput req.output with
      | .error e => some ⟨.error e, world, loaded⟩
      | .ok (output, world) =>
        (Feed.emit ⟨images, schedule⟩ req.limit output world).map fun emitted =>
          { emitted with said := loaded ++ emitted.said }

end FrameFeed
