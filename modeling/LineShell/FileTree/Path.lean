import LineShell.Text.Basic

/-!
# Paths and locations

A path is a list of bytes, in whatever encoding. A location is a place in a file tree, free of
links and of `.` and `..`.

* `Path.join`: a path relative to a base, joined byte by byte and not simplified.
* `Path.names`: what stands between the slashes, empty names included.
* `Path.steps`: the names that lead on, so without the empty ones and `.`.
* `Location.path`: the one path of a location that is absolute and has no needless part.
-/

namespace LineShell

abbrev Path := Bytes

/-- Names from the innermost to the outermost, so that the tail is the parent and the
parent of the root is the root. -/
abbrev Location := List Bytes

namespace Path

def slash : UInt8 := 0x2F

/-- The name `.`, by which a directory holds itself. -/
def here : Bytes := [0x2E]

/-- The name `..`, by which a directory holds its parent. -/
def up : Bytes := [0x2E, 0x2E]

end Path

namespace Location

def root : Location := []

def parent (location : Location) : Location := location.tail

def path : Location → Path
  | [] => [Path.slash]
  | name :: outer => (name :: outer).reverse.flatMap (fun name => Path.slash :: name)

end Location

namespace Path

def isAbsolute (path : Path) : Bool := path.head? == some slash

/-- An absolute path stays as it is; any other follows the base after one slash. -/
def join (base path : Path) : Path :=
  if isAbsolute path then path
  else if base = [] ∨ base.getLast? = some slash then base ++ path
  else base ++ slash :: path

def names (path : Path) : List Bytes := path.splitOnP (· == slash)

def steps (path : Path) : List Bytes :=
  (names path).filter (fun name => name != [] && name != here)

/-- The location of a path that passes through no link and has no `..`. -/
def location (path : Path) : Location := (steps path).reverse

end Path

end LineShell
