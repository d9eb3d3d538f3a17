import LineShell.Environment
import LineShell.Error
import LineShell.FileTree.Path
import LineShell.Line.Reference
import LineShell.Text.Utf8

/-!
# Sessions

A session is what one line leaves behind for the next.

* `Session.directoryText`: the directory, as variables and messages name it; `Session.pathOf` goes
  the other way, from a text to a path.
* `Session.valueOf`: what a reference stands for; an unset variable stands for nothing.
* `Session.expand`: a line with its references replaced.
* `Session.reportOf`: a failure with the name and the line number of the session.
-/

namespace LineShell

structure Session where
  environment : Environment := {}
  /-- The current directory, as it was given or as `cd` found it. -/
  directory : Path := [Path.slash]
  /-- The status of the last command that ran. -/
  lastStatus : Status := 0
  processId : Text
  /-- The number of the input line, a word that wraps. -/
  counter : UInt64 := 1
  programName : Text
  /-- The status to exit with, once `exit` has run. -/
  exitRequest : Option Status := none
deriving DecidableEq

namespace Session

/-- What is not UTF-8 in the directory is replaced. -/
def directoryText (s : Session) : Text := Utf8.decode s.directory

/-- The path that a text stands for in the directory. -/
def pathOf (s : Session) (text : Text) : Path := s.directory.join (Utf8.encode text)

def shouldExit (s : Session) : Bool := s.exitRequest.isSome

def valueOf (s : Session) : Reference → Text
  | .status => Text.signed s.lastStatus
  | .processId => s.processId
  | .programName => s.programName
  | .named name => (s.environment.get? name).getD []

def expand (s : Session) (line : Text) : Text := substitute s.valueOf line

def reportOf (s : Session) (error : ShellError) : Report := ⟨s.programName, s.counter, error⟩

/-- The session with a status recorded. -/
def record (s : Session) (status : Status) : Session := { s with lastStatus := status }

/-- The session with one more line counted. -/
def countLine (s : Session) : Session := { s with counter := s.counter + 1 }

end Session

end LineShell
