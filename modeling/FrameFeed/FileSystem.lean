import FrameFeed.Files
import FrameFeed.FileSystem.Path
/-!
# A tree of files

A tree of directories, files and devices, with a current directory from which relative paths
lead. Each entry is kept under its location. A path is walked name by name: what it leads through
must be a directory in which names may be looked up, and what it leads to may be missing. A link
sends a walk on to another place, from where it follows the names of the link and then its own; a
walk follows so many links and no more. What may not be done at a location is listed with how it
fails.

Main statement: `FileSystem.find?_put`, an entry is found where it was put and nothing else
moves.
-/

namespace FrameFeed

/-- What can stand at a location. -/
inductive Entry
  | file (content : List UInt8)
  | directory
  /-- A device that takes everything and gives nothing. -/
  | null
  /-- A device that takes everything and gives without end. -/
  | endless
  /-- A device that has room for nothing and gives without end. -/
  | full
  /-- A terminal where there is none, which cannot be opened. -/
  | terminal
  /-- The standard output of the program. -/
  | stdout
  /-- The standard error of the program. -/
  | stderr
  deriving DecidableEq

/-- What an entry gives. Reading what gives without end uses up the memory. -/
def Entry.read : Entry → Except Fault (List UInt8)
  | file content => .ok content
  | directory => .error .isDirectory
  | terminal => .error .noDevice
  | null | stdout | stderr => .ok []
  | endless | full => .error (.ofKind .outOfMemory)

/-- Names to be followed from a location. -/
structure Way where
  origin : Location
  names : List String

/-- What can be done at a location, if it is allowed. -/
inductive Use
  /-- To look up a name in a directory. -/
  | search
  /-- To make a file in a directory. -/
  | make
  | read
  | write
  deriving DecidableEq

/-- A tree of files and the directory in which the program runs. -/
structure FileSystem where
  entries : List (Location × Entry)
  /-- Links, each with the way on which it sends a walk. -/
  links : List (Location × Way)
  /-- What is not allowed, and how it fails. -/
  refusals : List ((Location × Use) × Fault)
  current : Location

namespace FileSystem

/-- What stands at a location. The root is always there. -/
def find? (fs : FileSystem) (loc : Location) : Option Entry :=
  if loc = [] then some .directory else fs.entries.lookup loc

/-- Puts an entry at a location, in place of what stood there. -/
def put (loc : Location) (entry : Entry) (fs : FileSystem) : FileSystem :=
  { fs with entries := (loc, entry) :: fs.entries.filter (·.1 ≠ loc) }

/-- Whether something is allowed at a location. -/
def allow (fs : FileSystem) (loc : Location) (use : Use) : Except Fault Unit :=
  match fs.refusals.lookup (loc, use) with
  | some fault => .error fault
  | none => .ok ()

/-! ## Ways -/

/-- Whether a name can be looked up at a location: only in a directory, if that is allowed. An empty
name stays where it is and is not looked up. -/
def checkLookup (fs : FileSystem) (loc : Location) (name : String) : Except Fault Unit :=
  match fs.find? loc with
  | none => .error .noEntry
  | some .directory => if name = "" then .ok () else fs.allow loc .search
  | some _ => .error .notDirectory

/-- Whether a file is to be made and only slashes come behind its name, which then can only be the
name of a directory. -/
def isBarred (making : Bool) (names : List String) : Bool :=
  making && !names.isEmpty && names.all (· = "")

/-- Where names lead from a location, up to the first link, from where `follow` goes on. -/
def through (fs : FileSystem) (making : Bool) (follow : Way → Except Fault Location) :
    Location → List String → Except Fault Location
  | loc, [] => .ok loc
  | loc, name :: names =>
    (fs.checkLookup loc name).bind fun _ =>
      if isBarred making names then .error .isDirectory
      else if Path.maxName < name.utf8ByteSize then .error .nameTooLong
      else
        match fs.links.lookup (Path.enter loc name) with
        | some way => follow ⟨way.origin, way.names ++ names⟩
        | none => fs.through making follow (Path.enter loc name) names

/-- Where a way leads if no more links than a number have to be followed on it. -/
def walk (fs : FileSystem) (making : Bool) (budget : Nat) (way : Way) : Except Fault Location :=
  match budget with
  | 0 => fs.through making (fun _ => .error .linkLoop) way.origin way.names
  | budget + 1 => fs.through making (fs.walk making budget) way.origin way.names

/-- The way of a path: from the root, or from the current directory. -/
def way (fs : FileSystem) (path : List Char) : Way :=
  ⟨if Path.isAbsolute path then [] else fs.current, Path.names path⟩

/-- Whether something can be asked of a path at all. -/
def checkPath (path : List Char) : Except Fault Unit :=
  if path.any (· = '\x00') then
    .error ⟨.invalidInput, "file name contained an unexpected NUL byte"⟩
  else if path = [] then .error .noEntry
  else if Path.maxPath < (String.ofList path).utf8ByteSize then .error .nameTooLong
  else .ok ()

/-- Where a path leads, if there is a way; the last name on it may be missing. -/
def locate (fs : FileSystem) (making : Bool) (path : List Char) : Except Fault Location :=
  (checkPath path).bind fun _ => fs.walk making Path.maxLinks (fs.way path)

/-! ## Files -/

/-- The content of the file at the end of a path. -/
def read (fs : FileSystem) (path : String) : Except Fault (List UInt8) :=
  (fs.locate false path.toList).bind fun loc =>
    match fs.find? loc with
    | none => .error .noEntry
    | some entry => (fs.allow loc .read).bind fun _ => entry.read

/-- Makes an empty file at a location where nothing stands. -/
def makeAt (fs : FileSystem) (loc : Location) : Except Fault (Output × FileSystem) :=
  match fs.find? loc.dropLast with
  | none => .error .noEntry
  | some .directory =>
    (fs.allow loc.dropLast .make).map fun _ => (.file loc, fs.put loc (.file []))
  | some _ => .error .notDirectory

/-- Makes an empty file at a location, or empties the one that is there. -/
def createAt (fs : FileSystem) (loc : Location) : Except Fault (Output × FileSystem) :=
  match fs.find? loc with
  | none => fs.makeAt loc
  | some .directory => .error .isDirectory
  | some .terminal => (fs.allow loc .write).bind fun _ => .error .noDevice
  | some (.file _) => (fs.allow loc .write).map fun _ => (.file loc, fs.put loc (.file []))
  | some .stdout => (fs.allow loc .write).map fun _ => (.stdout, fs)
  | some .stderr => (fs.allow loc .write).map fun _ => (.stderr, fs)
  | some .full => (fs.allow loc .write).map fun _ => (.full, fs)
  | some .null | some .endless => (fs.allow loc .write).map fun _ => (.drop, fs)

/-- Makes an empty file at the end of a path, or empties the one that is there. -/
def create (fs : FileSystem) (path : String) : Except Fault (Output × FileSystem) :=
  (fs.locate true path.toList).bind fs.createAt

/-- Appends bytes to the file at a location; where there is no file, nothing changes. -/
def append (loc : Location) (bytes : List UInt8) (fs : FileSystem) : FileSystem :=
  match fs.find? loc with
  | some (.file content) => fs.put loc (.file (content ++ bytes))
  | _ => fs

/-- What the file at a location holds. -/
def content? (fs : FileSystem) (loc : Location) : Option (List UInt8) :=
  match fs.find? loc with
  | some (.file content) => some content
  | _ => none

instance : Files FileSystem where
  read := read
  create := create
  append fs loc bytes := fs.append loc bytes
  content? := content?

/-! ## Making a tree -/

/-- A tree in which names lead on from a location, with a directory wherever there was nothing. -/
def pave (loc : Location) : List String → FileSystem → FileSystem
  | [], fs => fs
  | name :: names, fs =>
    let next := Path.enter loc name
    pave next names (if (fs.find? next).isNone then fs.put next .directory else fs)

/-- Makes a directory at the end of a path, and those that lead to it. -/
def makeDirectory (path : String) (fs : FileSystem) : FileSystem :=
  pave (fs.way path.toList).origin (Path.names path.toList) fs

/-- Puts a file at the end of a path, where the path leads somewhere. -/
def putFile (path : String) (content : List UInt8) (fs : FileSystem) : FileSystem :=
  match fs.locate false path.toList with
  | .ok loc => fs.put loc (.file content)
  | .error _ => fs

/-- The tree with given directories and then given files added to it. -/
def withFiles (directories : List String) (files : List (String × List UInt8))
    (fs : FileSystem) : FileSystem :=
  files.foldl (fun fs (path, content) => fs.putFile path content)
    (directories.foldl (fun fs path => fs.makeDirectory path) fs)

/-! ## Finding what was put -/

theorem lookup_filter_ne {loc other : Location} (h : other ≠ loc)
    (entries : List (Location × Entry)) :
    (entries.filter (·.1 ≠ loc)).lookup other = entries.lookup other := by
  induction entries with
  | nil => rfl
  | cons e entries ih =>
    obtain ⟨name, entry⟩ := e
    rw [List.filter_cons, List.lookup_cons]
    split
    next => rw [List.lookup_cons, ih]
    next he =>
      have hname : name = loc := by simpa using he
      rw [ih, beq_eq_false_iff_ne.mpr (hname ▸ h)]

/-- **An entry is found where it was put, and nothing else moves.** -/
theorem find?_put {loc other : Location} {entry : Entry} {fs : FileSystem} (h : loc ≠ []) :
    (fs.put loc entry).find? other = if other = loc then some entry else fs.find? other := by
  by_cases ho : other = loc
  · subst ho
    simp [find?, put, h]
  · rw [if_neg ho, find?, find?, put, List.lookup_cons, beq_eq_false_iff_ne.mpr ho,
      lookup_filter_ne ho]

end FileSystem

end FrameFeed
