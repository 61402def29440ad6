import FrameFeed.Files
/-!
# Paths

A path is a text whose names stand between slashes. It leads from the root or from a current
directory, name by name, to a location. Slashes in front of a name or behind it stand next to empty
names.
-/

namespace FrameFeed

namespace Path

/-- The longest name that one entry can have, in bytes. -/
def maxName : Nat := 255

/-- The longest path that can be asked for, in bytes. -/
def maxPath : Nat := 4095

/-- The most links that are followed on one path. -/
def maxLinks : Nat := 40

/-- A text cut at its slashes. -/
def segments : List Char → List (List Char)
  | [] => [[]]
  | c :: cs =>
    if c = '/' then [] :: segments cs
    else
      match segments cs with
      | [] => [[c]]
      | segment :: rest => (c :: segment) :: rest

/-- The names on a path. -/
def names (path : List Char) : List String := (segments path).map String.ofList

/-- Whether a path leads from the root. -/
def isAbsolute (path : List Char) : Bool := path.head? = some '/'

/-- Where one name leads from a directory: an empty name stays there, as a single dot does, and two
dots lead back. -/
def enter (loc : Location) (name : String) : Location :=
  if name = "" ∨ name = "." then loc
  else if name = ".." then loc.dropLast
  else loc ++ [name]

end Path

end FrameFeed
