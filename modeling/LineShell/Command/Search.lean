import LineShell.FileTree.Lookup
import LineShell.Session

/-!
# Searching a command

A name with a slash is a path from the current directory. Any other name is tried in each
entry of the search path: the first executable file wins, and a regular file that cannot be
executed is only remembered, for the case that nothing executable follows.

* `Search.candidates`: the paths to try; an empty entry is the current directory.
* `Search.select`: the choice among them.
* `Search.find`, `Session.findCommand`: the search with a given search path, and with the
  `PATH` of a session. Without `PATH` only names with a slash are found.
-/

namespace LineShell

/-- The outcome of a search. -/
inductive Resolution where
  | executable (path : Path)
  /-- Something is there and cannot be executed. -/
  | notExecutable (path : Path)
  | notFound
deriving DecidableEq, Repr

namespace Search

def candidates (searchPath : Text) (directory : Path) (name : Text) : List Path :=
  (searchPath.splitOnP (· == ':')).map (fun entry =>
    Path.join (if entry = [] then directory else Path.join directory (Utf8.encode entry))
      (Utf8.encode name))

def isExecutable (tree : FileTree) (path : Path) : Bool :=
  (tree.nodeOf? path).any Node.isExecutable

def isRegular (tree : FileTree) (path : Path) : Bool :=
  (tree.nodeOf? path).any Node.isRegular

/-- The choice among paths when a regular file may already have been seen. -/
def select (tree : FileTree) : Option Path → List Path → Resolution
  | none, [] => .notFound
  | some seen, [] => .notExecutable seen
  | seen, path :: rest =>
    if isExecutable tree path then .executable path
    else select tree (seen.or (if isRegular tree path then some path else none)) rest

def find (tree : FileTree) (searchPath : Text) (directory : Path) (name : Text) : Resolution :=
  if name = [] then .notFound
  else if '/' ∈ name then
    let path := Path.join directory (Utf8.encode name)
    if isExecutable tree path then .executable path
    else if (tree.nodeOf? path).isSome then .notExecutable path
    else .notFound
  else select tree none (candidates searchPath directory name)

/-- The name of the variable that holds the search path. -/
def pathName : Text := "PATH".toList

end Search

def Session.findCommand (s : Session) (tree : FileTree) (name : Text) : Resolution :=
  match s.environment.get? Search.pathName with
  | some searchPath => Search.find tree searchPath s.directory name
  | none => if '/' ∈ name then Search.find tree [] s.directory name else .notFound

end LineShell
