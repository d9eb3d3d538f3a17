import LineShell.FileTree.Lookup

/-!
# Changing a file tree

A path that is to be made or taken away is followed from the root. Links on the way are
passed through, and missing directories are made as the path goes along. An edit that the
system refuses leaves an `EditError`.

* `FileTree.reach`: follow names and make each directory that is missing.
* `FileTree.landing`: where a file comes to stand that is written to a location.
* `FileTree.makeDirectories`, `FileTree.add`: a directory is only made where nothing is, a
  file is written through a link at its own place, and a link takes a place that is free.
* `FileTree.remove`: a link at the end of the path is taken away itself, and not what it
  leads to.
-/

namespace LineShell

/-- Why a tree cannot be changed as asked. -/
inductive EditError where
  | lookup (error : LookupError)
  /-- Something else is there. -/
  | occupied
  | isDirectory
  /-- The owner may not write. -/
  | denied
deriving DecidableEq, Repr

/-- The reason why an edit is refused, as the system words it. -/
def EditError.reason : EditError → Text
  | lookup error => error.reason
  | occupied => "File exists (os error 17)".toList
  | isDirectory => "Is a directory (os error 21)".toList
  | denied => "Permission denied (os error 13)".toList

namespace FileTree

/-- The location of a name in a directory, made a directory if nothing is there, with links
followed. What is no directory is in the way: it exists, if the path ends here, and else it
cannot be passed. -/
def enter (tree : FileTree) (here : Location) (name : Bytes) (isLast : Bool) :
    Except EditError (FileTree × Location) :=
  let blocked (error : LookupError) : Except EditError (FileTree × Location) :=
    .error (if isLast then .occupied else .lookup error)
  if maxName < name.length then .error (.lookup .tooLong)
  else
    match tree.node? (name :: here) with
    | none => .ok (tree.put (name :: here) .directory, name :: here)
    | some _ =>
      match tree.walk maxLinks here [name] with
      | .ok location =>
        if tree.isDirectory location then .ok (tree, location) else blocked .notDirectory
      | .error .missing => .error .occupied
      | .error error => blocked error

def reach (tree : FileTree) : Location → List Bytes → Except EditError (FileTree × Location)
  | here, [] => .ok (tree, here)
  | here, name :: rest =>
    if name = Path.up then tree.reach here.parent rest
    else
      match tree.enter here name rest.isEmpty with
      | .ok (grown, location) => grown.reach location rest
      | .error error => .error error

/-- The location that a file written to a location gets: a link there is followed, also to a
place where nothing stands yet. -/
def landing (tree : FileTree) : Nat → Location → Except EditError Location
  | links, location =>
    match tree.node? location with
    | some (.link target) =>
      match links with
      | 0 => .error (.lookup .tooManyLinks)
      | links + 1 =>
        let names := Path.names target
        match tree.walk maxLinks (startOf location.parent target) names.dropLast with
        | .ok directory =>
          let name := names.getLast?.getD []
          if tree.isDirectory directory then
            if name = [] ∨ name = Path.here ∨ name = Path.up then .error .isDirectory
            else tree.landing links (name :: directory)
          else .error (.lookup .notDirectory)
        | .error error => .error (.lookup error)
    | _ => .ok location

/-- Make each directory of a path that is missing. -/
def makeDirectories (tree : FileTree) (path : Path) : Except EditError FileTree :=
  if path.contains 0 then .error (.lookup .holdsNul)
  else (tree.reach .root (Path.steps path)).map Prod.fst

/-- Write a file or a program to a location. What is there must let its owner write. -/
def write (tree : FileTree) (location : Location) (node : Node) : Except EditError FileTree :=
  match tree.landing maxLinks location with
  | .error error => .error error
  | .ok place =>
    match tree.node? place with
    | none => .ok (tree.put place node)
    | some old =>
      if old.isDirectory then .error .isDirectory
      else if old.ownerWrites then .ok (tree.put place node)
      else .error .denied

/-- Put a link at a location. -/
def putLink (tree : FileTree) (location : Location) (target : Path) : Except EditError FileTree :=
  if (tree.node? location).isSome then .error .occupied
  else if target = [] then .error (.lookup .missing)
  else if target.contains 0 then .error (.lookup .holdsNul)
  else if pathLimit ≤ target.length then .error (.lookup .tooLong)
  else .ok (tree.put location (.link target))

/-- Put a node at the end of a path. A path without a name is the root. -/
def add (tree : FileTree) (path : Path) (node : Node) : Except EditError FileTree :=
  match node, (Path.steps path).getLast? with
  | .directory, _ => tree.makeDirectories path
  | .link _, none => .error .occupied
  | _, none => .error .isDirectory
  | node, some name =>
    if path.contains 0 then .error (.lookup .holdsNul)
    else
      match tree.reach .root (Path.steps path).dropLast with
      | .error error => .error error
      | .ok (grown, directory) =>
        if maxName < name.length then .error (.lookup .tooLong)
        else
          match node with
          | .link target => grown.putLink (name :: directory) target
          | node => grown.write (name :: directory) node

/-- Put nodes one after another, up to the first error. -/
def addAll (tree : FileTree) : List (Path × Node) → Except EditError FileTree
  | [] => .ok tree
  | (path, node) :: rest =>
    match tree.add path node with
    | .ok tree => tree.addAll rest
    | .error error => .error error

/-- Take away what stands at the end of a path, with all below it. -/
def remove (tree : FileTree) (path : Path) : FileTree :=
  match (Path.steps path).getLast? with
  | none => tree.prune .root
  | some name =>
    match tree.walk maxLinks .root (Path.steps path).dropLast with
    | .ok directory => tree.prune (name :: directory)
    | .error _ => tree

end FileTree

end LineShell
