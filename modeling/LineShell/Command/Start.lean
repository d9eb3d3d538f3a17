import LineShell.Command.Search
import LineShell.Text.Utf8

/-!
# Starting a program

The system starts a program for a session, or refuses. It looks at the execute bit of the
owner only, so a file that a search finds for another execute bit can still be refused.

* `FileTree.executed?`: the program that a path runs, with the arguments it gets. A file
  that begins with `#!` names another file in its first line, which is run in its place.
* `StartSize`: the room for what is handed to a program.
* `Session.start?`: the launch. It is refused if the current directory is no directory, if
  an argument or a variable holds NUL, if the path runs no program, or if there is no room.
-/

namespace LineShell

/-! ## Interpreter lines -/

/-- The first line of a file that another file is to run. -/
structure InterpreterLine where
  /-- The path of the other file. -/
  path : Path
  /-- What follows it, as one argument. -/
  argument : Option Bytes := none
deriving DecidableEq, Repr

namespace InterpreterLine

/-- The bytes of a file that are looked at. -/
def window : Nat := 256

def isGap (byte : UInt8) : Bool := byte == ' '.toUInt8 || byte == '\t'.toUInt8

/-- Blanks and NUL end the path. -/
def endsPath (byte : UInt8) : Bool := isGap byte || byte == 0

/-- The bytes of the line behind `#!`. Without a newline in the window the path must end in
it, and the last byte of the window does not count. -/
def body? (bytes : Bytes) : Option Bytes :=
  let seen := (bytes ++ List.replicate window 0).take window
  match seen with
  | 0x23 :: 0x21 :: rest =>
    if rest.contains '\n'.toUInt8 then some (rest.takeWhile (· != '\n'.toUInt8))
    else if (rest.dropWhile isGap).any endsPath then some rest.dropLast
    else none
  | _ => none

/-- The line at the start of a file, if there is one that names a path. -/
def read? (bytes : Bytes) : Option InterpreterLine :=
  match body? bytes with
  | none => none
  | some body =>
    let trimmed := ((body.reverse.dropWhile isGap).reverse).dropWhile isGap
    let path := trimmed.takeWhile (fun byte => !endsPath byte)
    match trimmed, trimmed.dropWhile (fun byte => !endsPath byte) with
    | [], _ => none
    | _, gap :: rest =>
      if gap = 0 then some { path := path }
      else
        let argument := (rest.dropWhile isGap).takeWhile (· != 0)
        some { path := path, argument := some argument }
    | _, [] => some { path := path }

end InterpreterLine

/-! ## Room -/

namespace StartSize

/-- The bytes that one argument or variable stays below. -/
def textLimit : Nat := 131072

/-- The bytes that all of them may take together, with the places where they are noted. -/
def limit : Nat := 2097152

/-- The bytes that one such place takes. -/
def place : Nat := 8

/-- The size of strings that are each ended by NUL. -/
def ofStrings (strings : List Bytes) : Nat :=
  strings.foldl (fun size bytes => size + bytes.length + 1) 0

/-- Whether there is room for so many places, the path, the arguments and the variables. -/
def fits (places : Nat) (path : Path) (arguments block : List Bytes) : Bool :=
  (arguments ++ block).all (fun bytes => bytes.length < textLimit) &&
    ofStrings (path :: (block ++ arguments)) + place * places ≤ limit

end StartSize

/-! ## Running a file -/

namespace FileTree

/-- The node that a path leads to, if its owner may execute it. -/
def startableAt? (tree : FileTree) (here : Location) (path : Path) : Option (Location × Node) :=
  match tree.stat? here path with
  | .ok location =>
    ((tree.node? location).filter Node.ownerExecutes).map (fun node => (location, node))
  | .error _ => none

/-- The most files that are run in the place of the first one. -/
def maxInterpreters : Nat := 5

/-- A program runs itself. A file with an interpreter line runs what the line names, which
gets the path of the file in place of the first argument and its own name and argument in
front. `fits` tells whether there is room for a list of arguments. -/
def run? (tree : FileTree) (here : Location) (fits : List Bytes → Bool) :
    Nat → Path → List Bytes → Option (Location × Program × List Bytes)
  | others, path, arguments =>
    if !fits arguments then none
    else
      match tree.startableAt? here path with
      | some (location, .program _ program) => some (location, program, arguments)
      | some (_, .file _ content) =>
        match others, InterpreterLine.read? content with
        | others + 1, some line =>
          tree.run? here fits others line.path
            (line.path :: (line.argument.toList ++ path :: arguments.tail))
        | _, _ => none
      | _ => none

/-- What the path runs for an environment. -/
def executed? (tree : FileTree) (here : Location) (path : Path) (arguments block : List Bytes) :
    Option (Location × Program × List Bytes) :=
  let places := arguments.length + block.length
  tree.run? here (fun arguments => StartSize.fits places path arguments block) maxInterpreters
    path arguments

end FileTree

namespace Session

/-- The variables that a child receives: each variable of the session is set, in order, in
an environment that was empty. -/
def childBlock (s : Session) : List Text :=
  (Environment.ofPairs s.environment.entries).block

/-- The launch of the program at a path, with the outcome of its run. -/
def start? (s : Session) (tree : FileTree) (path : Path) (arguments : List Text) :
    Option (Launch × Outcome) :=
  match tree.stat? .root s.directory with
  | .error _ => none
  | .ok directory =>
    if !tree.isDirectory directory then none
    else if (arguments ++ s.childBlock).any (fun text => text.contains '\x00') then none
    else
      (tree.executed? directory path (arguments.map Utf8.encode)
          (s.childBlock.map Utf8.encode)).map (fun found =>
        let launch : Launch :=
          { program := found.1
            arguments := found.2.2
            block := s.childBlock
            directory := directory }
        (launch, found.2.1 launch))

end Session

end LineShell
