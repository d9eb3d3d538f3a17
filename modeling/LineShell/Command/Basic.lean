import LineShell.FileTree.Lookup
import LineShell.Session
import LineShell.OutStream

/-!
# Commands

A command acts on a session and may print. It sees the file tree and the stream it prints
to, and nothing else.

* `Completion`: what a command leaves behind.
* `Handler`: makes a command of the arguments that follow its name, or refuses them.
* `Completion.printing`: the completion of a command that prints texts as its last act.
-/

namespace LineShell

structure Completion where
  result : Except ShellError Status
  session : Session
  /-- The bytes that reached the output stream. -/
  printed : Bytes
  /-- The output stream afterwards. -/
  out : OutStream

abbrev Command := FileTree → Session → OutStream → Completion

abbrev Handler := List Text → Except ShellError Command

namespace Completion

/-- A command that prints nothing. -/
def silent (result : Except ShellError Status) (s : Session) (out : OutStream) : Completion :=
  ⟨result, s, [], out⟩

/-- A command that prints texts in order and fails if they are not written as a whole. -/
def printing (texts : List Text) (result : Except ShellError Status) (s : Session)
    (out : OutStream) : Completion :=
  let written := out.writeTexts texts
  ⟨written.check result, s, written.accepted, written.stream⟩

end Completion

end LineShell
