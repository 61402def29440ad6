import FrameFeed.FileSystem
/-!
# The standard tree

The directories, devices and links that a program finds around it, and an empty directory in which
it runs. That directory has a name with a slash in it, which no path can spell: it is reached only
as the current directory. Standard input is empty, and there is no terminal.
-/

namespace FrameFeed

namespace FileSystem

/-- The directory in which the program runs. -/
def workplace : Location := ["tmp", "/"]

/-- The usual directories. -/
def standardDirectories : List Location :=
  [["boot"], ["dev"], ["dev", "mqueue"], ["dev", "pts"], ["dev", "shm"], ["etc"], ["home"],
   ["media"], ["mnt"], ["opt"], ["proc"], ["proc", "self"], ["proc", "self", "fd"], ["root"],
   ["run"], ["srv"], ["sys"], ["tmp"], ["usr"], ["usr", "bin"], ["usr", "lib"], ["usr", "lib64"],
   ["usr", "local"], ["usr", "sbin"], ["usr", "share"], ["var"], ["var", "cache"], ["var", "lib"],
   ["var", "log"], ["var", "tmp"], workplace]

/-- The files that are always there, as far as it matters that they are files. -/
def standardFiles : List Location := [["etc", "hosts"], ["etc", "passwd"]]

/-- The devices. -/
def standardDevices : List (Location × Entry) :=
  [(["dev", "null"], .null), (["dev", "zero"], .endless), (["dev", "full"], .full),
   (["dev", "random"], .endless), (["dev", "urandom"], .endless), (["dev", "tty"], .terminal),
   (["proc", "self", "fd", "0"], .null), (["proc", "self", "fd", "1"], .stdout),
   (["proc", "self", "fd", "2"], .stderr)]

/-- The links: programs and libraries have one place each, the program's own streams are numbered,
and it can ask where it runs. -/
def standardLinks : List (Location × Way) :=
  [(["bin"], ⟨[], ["usr", "bin"]⟩), (["lib"], ⟨[], ["usr", "lib"]⟩),
   (["lib64"], ⟨[], ["usr", "lib64"]⟩), (["sbin"], ⟨[], ["usr", "sbin"]⟩),
   (["dev", "fd"], ⟨[], ["proc", "self", "fd"]⟩),
   (["dev", "stdin"], ⟨[], ["proc", "self", "fd", "0"]⟩),
   (["dev", "stdout"], ⟨[], ["proc", "self", "fd", "1"]⟩),
   (["dev", "stderr"], ⟨[], ["proc", "self", "fd", "2"]⟩),
   (["proc", "self", "cwd"], ⟨workplace, []⟩), (["proc", "self", "root"], ⟨[], []⟩)]

/-- In the directories that the system itself fills nothing can be made. -/
def standardRefusals : List ((Location × Use) × Fault) :=
  [((["dev", "pts"], .make), .denied), ((["proc"], .make), .noEntry),
   ((["proc", "self"], .make), .noEntry), ((["proc", "self", "fd"], .make), .noEntry),
   ((["sys"], .make), .denied)]

/-- The standard tree. -/
def standard : FileSystem where
  entries :=
    standardDirectories.map (·, .directory) ++ standardFiles.map (·, .file []) ++ standardDevices
  links := standardLinks
  refusals := standardRefusals
  current := workplace

end FileSystem

end FrameFeed
