import LineShell.FileTree.Basic

/-!
# Looking a path up

A path is followed name by name. An empty name and `.` stay, `..` goes to the parent, and
each of them, like any further name, demands that a directory has been reached; so a slash
at the end of a path demands a directory. A link is replaced by its target, read from the
directory that holds the link, at most `maxLinks` times in one lookup.

* `FileTree.advance`: follow names up to the next link.
* `FileTree.walk`: follow names through links; structural on the number of links left.
* `FileTree.locate?`: the location of a path.
* `FileTree.stat?`: the same for whole paths given to the system, which limits their length.
* `FileTree.canonicalize?`: the canonical path of what a path leads to, which is followed name by
  name and may be of any length. `FileTree.canonicalDirectory?`: the same for directories.
-/

namespace LineShell

/-- Why a path leads nowhere. -/
inductive LookupError where
  | missing
  | notDirectory
  | tooManyLinks
  | tooLong
  | holdsNul
deriving DecidableEq, Repr

/-- The reason why a path leads nowhere, as the system words it. -/
def LookupError.reason : LookupError → Text
  | missing => "No such file or directory (os error 2)".toList
  | notDirectory => "Not a directory (os error 20)".toList
  | tooManyLinks => "Too many levels of symbolic links (os error 40)".toList
  | tooLong => "File name too long (os error 36)".toList
  | holdsNul => "file name contained an unexpected NUL byte".toList

/-- How far names can be followed without a link. -/
inductive Advance where
  | arrived (location : Location)
  /-- A link in the directory `here`, with the names that are still to follow. -/
  | atLink (here : Location) (target : Path) (rest : List Bytes)
  | failed (error : LookupError)
deriving DecidableEq, Repr

namespace FileTree

/-- The most links that one lookup follows. -/
def maxLinks : Nat := 40

/-- The most bytes of one name. -/
def maxName : Nat := 255

/-- The bytes that a whole path stays below. -/
def pathLimit : Nat := 4096

def advance (tree : FileTree) : Location → List Bytes → Advance
  | here, [] => .arrived here
  | here, name :: rest =>
    match tree.node? here with
    | none => .failed .missing
    | some .directory =>
      if name = [] ∨ name = Path.here then tree.advance here rest
      else if name = Path.up then tree.advance here.parent rest
      else if maxName < name.length then .failed .tooLong
      else
        match tree.node? (name :: here) with
        | none => .failed .missing
        | some (.link target) => .atLink here target rest
        | some _ => tree.advance (name :: here) rest
    | some _ => .failed .notDirectory

/-- Where the names of a path are followed from. -/
def startOf (here : Location) (path : Path) : Location :=
  if Path.isAbsolute path then .root else here

def walk (tree : FileTree) : Nat → Location → List Bytes → Except LookupError Location
  | links, here, names =>
    match tree.advance here names with
    | .arrived location => .ok location
    | .failed error => .error error
    | .atLink here target rest =>
      match links with
      | 0 => .error .tooManyLinks
      | links + 1 => tree.walk links (startOf here target) (Path.names target ++ rest)

/-- The location of a path that is followed from `here`. -/
def locate? (tree : FileTree) (here : Location) (path : Path) : Except LookupError Location :=
  if path = [] then .error .missing
  else if path.contains 0 then .error .holdsNul
  else tree.walk maxLinks (startOf here path) (Path.names path)

/-- The location of a path that is handed to the system as a whole. -/
def stat? (tree : FileTree) (here : Location) (path : Path) : Except LookupError Location :=
  if pathLimit ≤ path.length then .error .tooLong else tree.locate? here path

/-- What a path handed to the system leads to. -/
def nodeOf? (tree : FileTree) (path : Path) : Option Node :=
  match tree.stat? .root path with
  | .ok location => tree.node? location
  | .error _ => none

/-- The canonical path of what a path leads to. -/
def canonicalize? (tree : FileTree) (path : Path) : Option Path :=
  match tree.locate? .root path with
  | .ok location => if (tree.node? location).isSome then some location.path else none
  | .error _ => none

/-- The canonical path of a directory. The system is asked about the canonical path whether it is
one, so there is none for a directory whose canonical path is too long. -/
def canonicalDirectory? (tree : FileTree) (path : Path) : Option Path :=
  (tree.canonicalize? path).filter (fun canonical =>
    (tree.nodeOf? canonical).any Node.isDirectory)

end FileTree

end LineShell
