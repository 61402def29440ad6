/-!
# Faults

What an operating system call, or a sink standing for one, reports when it fails: a kind, by
which callers decide, and a text, which they only pass on. A fault is made from a kind alone
(then the text is the kind's own), from a kind and a text, or from an error number.
-/

namespace FrameFeed

/-- The kinds of failure that callers can tell apart. -/
inductive FaultKind
  | notFound | permissionDenied | connectionRefused | connectionReset | hostUnreachable
  | networkUnreachable | connectionAborted | notConnected | addrInUse | addrNotAvailable
  | networkDown | brokenPipe | alreadyExists | wouldBlock | notADirectory | isADirectory
  | directoryNotEmpty | readOnlyFilesystem | staleNetworkFileHandle | invalidInput | invalidData
  | timedOut | writeZero | storageFull | notSeekable | quotaExceeded | fileTooLarge | resourceBusy
  | executableFileBusy | deadlock | tooManyLinks | invalidFilename | argumentListTooLong
  | filesystemLoop | interrupted | unsupported | unexpectedEof | outOfMemory | other
  deriving DecidableEq, Repr

namespace FaultKind

/-- The wording of a failure of which only the kind is known. -/
def text : FaultKind → String
  | notFound => "entity not found"
  | permissionDenied => "permission denied"
  | connectionRefused => "connection refused"
  | connectionReset => "connection reset"
  | hostUnreachable => "host unreachable"
  | networkUnreachable => "network unreachable"
  | connectionAborted => "connection aborted"
  | notConnected => "not connected"
  | addrInUse => "address in use"
  | addrNotAvailable => "address not available"
  | networkDown => "network down"
  | brokenPipe => "broken pipe"
  | alreadyExists => "entity already exists"
  | wouldBlock => "operation would block"
  | notADirectory => "not a directory"
  | isADirectory => "is a directory"
  | directoryNotEmpty => "directory not empty"
  | readOnlyFilesystem => "read-only filesystem or storage medium"
  | staleNetworkFileHandle => "stale network file handle"
  | invalidInput => "invalid input parameter"
  | invalidData => "invalid data"
  | timedOut => "timed out"
  | writeZero => "write zero"
  | storageFull => "no storage space"
  | notSeekable => "seek on unseekable file"
  | quotaExceeded => "quota exceeded"
  | fileTooLarge => "file too large"
  | resourceBusy => "resource busy"
  | executableFileBusy => "executable file busy"
  | deadlock => "deadlock"
  | tooManyLinks => "too many links"
  | invalidFilename => "invalid filename"
  | argumentListTooLong => "argument list too long"
  | filesystemLoop => "filesystem loop or indirection limit (e.g. symlink loop)"
  | interrupted => "operation interrupted"
  | unsupported => "unsupported"
  | unexpectedEof => "unexpected end of file"
  | outOfMemory => "out of memory"
  | other => "other error"

end FaultKind

/-- A failed call: its kind, and the text that explains it. -/
structure Fault where
  kind : FaultKind
  text : String
  deriving DecidableEq, Repr

namespace Fault

/-- The fault of which only the kind is known. -/
def ofKind (kind : FaultKind) : Fault := ⟨kind, kind.text⟩

/-- The kind and wording that go with a system error number. -/
def errnoTable : List (Nat × FaultKind × String) :=
  [(1, .permissionDenied, "Operation not permitted"),
   (2, .notFound, "No such file or directory"),
   (4, .interrupted, "Interrupted system call"),
   (6, .other, "No such device or address"),
   (11, .wouldBlock, "Resource temporarily unavailable"),
   (13, .permissionDenied, "Permission denied"),
   (20, .notADirectory, "Not a directory"),
   (21, .isADirectory, "Is a directory"),
   (27, .fileTooLarge, "File too large"),
   (28, .storageFull, "No space left on device"),
   (30, .readOnlyFilesystem, "Read-only file system"),
   (32, .brokenPipe, "Broken pipe"),
   (36, .invalidFilename, "File name too long"),
   (40, .filesystemLoop, "Too many levels of symbolic links"),
   (104, .connectionReset, "Connection reset by peer"),
   (110, .timedOut, "Connection timed out")]

/-- The fault with a given system error number. Its text ends in that number; a number outside
the table has no kind of its own. -/
def ofErrno (errno : Nat) : Fault :=
  let (kind, wording) := (errnoTable.lookup errno).getD (.other, "Unknown error " ++ toString errno)
  ⟨kind, wording ++ " (os error " ++ toString errno ++ ")"⟩

/-- Whether the call was merely interrupted, so that it may be made again. -/
def isInterrupted (f : Fault) : Bool := f.kind = .interrupted

/-- No such file or directory. -/
def noEntry : Fault := ofErrno 2

/-- Nothing is behind a device. -/
def noDevice : Fault := ofErrno 6

/-- It is not allowed. -/
def denied : Fault := ofErrno 13

/-- A path leads through something that is not a directory. -/
def notDirectory : Fault := ofErrno 20

/-- A directory stands where a file is wanted. -/
def isDirectory : Fault := ofErrno 21

/-- The device has no room left. -/
def deviceFull : Fault := ofErrno 28

/-- A path, or one name on it, is longer than the system allows. -/
def nameTooLong : Fault := ofErrno 36

/-- A path leads through more links than the system follows. -/
def linkLoop : Fault := ofErrno 40

end Fault

end FrameFeed
