import LineShell.FileTree.Path
import LineShell.Status

/-!
# Programs

A program is a function: what it is started with decides what it writes and how it ends. It
reads no input and leaves the file tree as it is.

* `Launch`: all that a program is given when it is started.
* `Outcome`: all that can be seen of its run.
-/

namespace LineShell

structure Launch where
  /-- The file that was started. -/
  program : Location
  /-- The arguments, the name of the program first. -/
  arguments : List Bytes
  /-- The variables as `NAME=VALUE` texts. -/
  block : List Text
  /-- The directory it runs in. -/
  directory : Location
deriving DecidableEq, Repr

structure Outcome where
  out : Bytes := []
  err : Bytes := []
  ending : Ending := .exited 0
deriving DecidableEq, Repr

abbrev Program := Launch → Outcome

end LineShell
