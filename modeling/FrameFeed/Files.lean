import FrameFeed.Fault
/-!
# Files as the program sees them

What a program asks of the files around it: to read the file at a path, to make one, and to append
to one it has made. How paths lead to files, who may do what and when a call fails is the system's
affair, so everything that speaks of a run is stated over any `Files`; a call that fails leaves the
files as they were. `LawfulFiles` is what a program relies on: a file that was made is empty, bytes
go to the end of it, no other file is touched, and what is read where it was made is what it holds.
-/

namespace FrameFeed

/-- The names from the root down to an entry. -/
abbrev Location := List String

/-- Where a feed is written. -/
inductive Output
  | stdout
  | stderr
  | file (loc : Location)
  /-- What takes everything and keeps nothing. -/
  | drop
  /-- What has room for nothing. -/
  | full
  deriving DecidableEq

/-- The files around a program, in a state of type `F`. -/
class Files (F : Type) where
  /-- What is read at a path. -/
  read (files : F) (path : String) : Except Fault (List UInt8)
  /-- Makes the file at a path, or empties the one that is there, and tells where writes go. -/
  create (files : F) (path : String) : Except Fault (Output × F)
  /-- Appends bytes to the file at a location. -/
  append (files : F) (loc : Location) (bytes : List UInt8) : F
  /-- What the regular file at a location holds, whether or not it may be read. -/
  content? (files : F) (loc : Location) : Option (List UInt8)

/-- **What a program relies on.** -/
class LawfulFiles (F : Type) [Files F] : Prop where
  /-- A file that was made is empty, and the others hold what they held. -/
  content?_create {files made : F} {path : String} {loc : Location}
    (h : Files.create files path = .ok (.file loc, made)) (other : Location) :
    Files.content? made other = if other = loc then some [] else Files.content? files other
  /-- Bytes go to the end of a file, and the others hold what they held. -/
  content?_append {files : F} {loc : Location} {old : List UInt8}
    (h : Files.content? files loc = some old) (bytes : List UInt8) (other : Location) :
    Files.content? (Files.append files loc bytes) other =
      if other = loc then some (old ++ bytes) else Files.content? files other
  /-- The path at which a file was made leads to it still when bytes have been appended. -/
  content?_of_read {files made : F} {path : String} {loc : Location} {bytes content : List UInt8}
    (h : Files.create files path = .ok (.file loc, made))
    (hread : Files.read (Files.append made loc bytes) path = .ok content) :
    Files.content? (Files.append made loc bytes) loc = some content

namespace Files

variable {F : Type} [Files F]

/-- A path leads to a regular file once one is made there, and not to a device or a stream. -/
def MakesFile (files : F) (path : String) : Prop :=
  ∀ output made, create files path = .ok (output, made) → ∃ loc, output = .file loc

/-- **A file that was made and appended to holds what was appended**, and the others hold what they
held. -/
theorem content?_append_create [LawfulFiles F] {files made : F} {path : String} {loc : Location}
    (h : create files path = .ok (.file loc, made)) (bytes : List UInt8) (other : Location) :
    content? (append made loc bytes) other =
      if other = loc then some bytes else content? files other := by
  have hmade : content? made loc = some [] := by
    rw [LawfulFiles.content?_create h, if_pos rfl]
  rw [LawfulFiles.content?_append hmade, LawfulFiles.content?_create h, List.nil_append]
  split <;> rfl

end Files

end FrameFeed
