import LineShell.CommandLine.Frontend
import LineShell.FileTree.Edit

/-!
# The program

The outer layer: it gathers what the program is started with, runs it, and passes on what
came of it. The run sees a file tree that holds the working directory, the home directory
and the script; no program of the host is started.
-/

namespace LineShell.Process

/-- All that is left of a stream. -/
partial def readAll (stream : IO.FS.Stream) (read : ByteArray) : IO ByteArray := do
  let chunk ← stream.read 65536
  if chunk.isEmpty then return read else readAll stream (read ++ chunk)

/-- The `NAME=VALUE` strings of the process. -/
def block : IO (List Bytes) := do
  let block ← IO.FS.readBinFile "/proc/self/environ"
  return block.toList.splitOnP (· == 0)

def processId : IO Text := do
  return (← IO.FS.readFile "/proc/self/stat").toList.takeWhile Char.isDigit

def bytes (text : String) : Bytes := Utf8.encode text.toList

/-- The tree with the file that a path names, if it can be read. -/
def withScript (tree : FileTree) (path : Text) : IO FileTree := do
  try
    let script := String.ofList path
    let content := (← IO.FS.readBinFile script).toList
    let place := bytes (← IO.FS.realPath script).toString
    return (tree.add place (.file 0o644 content)).toOption.getD tree
  catch _ =>
    return tree

def fileTree (directory : Path) (block : List Bytes) (script : Option Text) : IO FileTree := do
  let home := (Environment.blockValue? block Directory.homeName).getD directory
  let withDirectory (tree : FileTree) (path : Path) : FileTree :=
    (tree.makeDirectories path).toOption.getD tree
  let tree := withDirectory (withDirectory {} directory) home
  match script with
  | some path => withScript tree path
  | none => return tree

/-- Whether the standard input is the source of the lines. -/
def readsInput (options : Options) : Bool :=
  options.command.isNone && options.script.isNone && !options.wantsHelp

end LineShell.Process

open LineShell in
def main (args : List String) : IO UInt32 := do
  let args := args.map String.toList
  let options := (Options.read args).toOption.getD { wantsHelp := true }
  let block ← Process.block
  let directory := Process.bytes (← IO.currentDir).toString
  let input ←
    if Process.readsInput options then Process.readAll (← IO.getStdin) .empty else pure .empty
  let invocation : Invocation := {
    name := (← IO.appPath).toString.toList
    args := args
    block := block
    directory := directory
    input := input.toList
    processId := ← Process.processId }
  let tree ← Process.fileTree directory block options.script
  let host : Host := { brokenText := fun bytes => bytes ++ Utf8.encode ['\n'] }
  let exit := invocation.main .standard host tree
  (← IO.getStdout).write ⟨exit.out.toArray⟩
  (← IO.getStderr).write ⟨exit.err.toArray⟩
  return UInt32.ofNat (exit.status % 256).toNat
