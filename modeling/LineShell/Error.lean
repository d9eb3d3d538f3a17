import LineShell.Status
import LineShell.Text.Basic

/-!
# What can go wrong

Each failure of a line or a command is a cause with its data. The text shown to the user
and the status that is recorded are functions of the cause.

* `ShellError.message`, `ShellError.status`.
* `Report`: a failure as it is written to the error stream, with the name the program was
  started under and the number of the input line.
-/

namespace LineShell

inductive ShellError where
  /-- An operator stands where a command is expected. -/
  | unexpectedToken (token : Text)
  /-- No command of this name is registered or found in the search path. -/
  | commandNotFound (name : Text)
  /-- The command was found and cannot be started. -/
  | permissionDenied (name : Text)
  /-- A command cannot work with its arguments. -/
  | usage (command problem : Text) (status : Status)
  /-- Reading, writing or flushing failed. -/
  | io (problem : Text)
deriving DecidableEq, Repr

namespace ShellError

def message : ShellError → Text
  | unexpectedToken token => "Syntax error near unexpected token ".toList ++ token.quoted
  | commandNotFound name => name ++ ": command not found".toList
  | permissionDenied name => name ++ ": Permission denied".toList
  | usage command problem _ => command ++ ": ".toList ++ problem
  | io problem => problem

def status : ShellError → Status
  | unexpectedToken _ => 2
  | commandNotFound _ => 127
  | permissionDenied _ => 126
  | usage _ _ status => status
  | io _ => 1

end ShellError

structure Report where
  program : Text
  line : UInt64
  error : ShellError
deriving DecidableEq, Repr

namespace Report

/-- The pieces in which a report is written. -/
def pieces (report : Report) : List Text :=
  [report.program, ": ".toList, Text.decimal report.line.toNat, ": ".toList,
    report.error.message, ['\n']]

def text (report : Report) : Text := report.pieces.flatten

end Report

end LineShell
