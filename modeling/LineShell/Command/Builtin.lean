import LineShell.Command.Directory
import LineShell.Command.Topic

/-!
# Builtin commands

* `Builtin`: the commands that act on the session itself.
* `Builtin.task?`: the arguments of a command are checked before it does anything.
* `Task.perform`: what each task does to the session and what it prints.
* `Builtin.handler`: the two together.

A task that the arguments do not fit changes nothing, because no task is made of them.
-/

namespace LineShell

inductive Builtin where
  | cd
  | env
  | setenv
  | unsetenv
  | exit
  | help
deriving DecidableEq, Repr

inductive Task where
  | changeDirectory (target : Option Text)
  | printVariables
  | setVariable (name value : Text)
  | unsetVariable (name : Text)
  /-- Ask for the end of the session, with this status or with the last one. -/
  | leave (status : Option Status)
  | showHelp (topic : Option Text)
deriving DecidableEq, Repr

namespace Builtin

/-- All of them, in the order of the help overview. -/
def all : List Builtin := [cd, env, setenv, unsetenv, exit, help]

def name : Builtin → Text
  | cd => Directory.name
  | env => "env".toList
  | setenv => "setenv".toList
  | unsetenv => "unsetenv".toList
  | exit => "exit".toList
  | help => "help".toList

def ofName? (name : Text) : Option Builtin := all.find? (fun builtin => builtin.name = name)

theorem ofName?_name (builtin : Builtin) : ofName? builtin.name = some builtin := by
  cases builtin <;> decide

def topic : Builtin → Topic
  | cd =>
    { name := cd.name
      summary := "Change the shell working directory".toList
      usage := "cd [DIRECTORY]".toList
      details :=
        ["Without DIRECTORY, or with `~` or `--`, change to $HOME.".toList,
          "`cd -` returns to $OLDPWD and prints the new directory.".toList,
          "PWD and OLDPWD are updated on success.".toList] }
  | env =>
    { name := env.name
      summary := "Print the environment".toList
      usage := "env".toList
      details := ["Each variable is printed as NAME=VALUE on its own line.".toList] }
  | setenv =>
    { name := setenv.name
      summary := "Set an environment variable".toList
      usage := "setenv VARIABLE VALUE".toList
      details := ["Creates VARIABLE or overwrites its current value.".toList] }
  | unsetenv =>
    { name := unsetenv.name
      summary := "Remove an environment variable".toList
      usage := "unsetenv VARIABLE".toList }
  | exit =>
    { name := exit.name
      summary := "Exit the shell".toList
      usage := "exit [N]".toList
      details :=
        ["Exits with status N modulo 256.".toList,
          "Without N the status of the last command is used.".toList] }
  | help =>
    { name := help.name
      summary := "Display information about builtin commands".toList
      usage := "help [COMMAND]".toList }

/-! ## Arguments -/

/-- The greatest number that `exit` takes. -/
def maxExit : Nat := 2147483647

/-- The status that an argument of `exit` asks for. -/
def exitStatus? (arg : Text) : Option Status :=
  match Text.number? arg with
  | some n => if n ≤ maxExit then some (n % 256 : Nat) else none
  | none => none

/-- The refusal of arguments by a usage line. -/
def misused (builtin : Builtin) : ShellError :=
  .usage builtin.name ("usage: ".toList ++ builtin.topic.usage) 1

def task? : Builtin → List Text → Except ShellError Task
  | cd, args => (Directory.target args).map .changeDirectory
  | env, _ => .ok .printVariables
  | setenv, [name, value] =>
    if name ≠ [] ∧ '=' ∉ name then .ok (.setVariable name value) else .error setenv.misused
  | setenv, _ => .error setenv.misused
  | unsetenv, [name] => .ok (.unsetVariable name)
  | unsetenv, _ => .error unsetenv.misused
  | exit, [] => .ok (.leave none)
  | exit, arg :: _ =>
    match exitStatus? arg with
    | some status => .ok (.leave (some status))
    | none => .error (.usage exit.name ("Illegal number: ".toList ++ arg) 2)
  | help, args => .ok (.showHelp args.head?)

end Builtin

/-! ## Performance -/

namespace Task

/-- The pieces in which a variable is printed. -/
def variablePieces (entry : Text × Text) : List Text := [entry.1, ['='], entry.2, ['\n']]

/-- The help on a topic, or the overview. -/
def helpText? : Option Text → Except ShellError Text
  | none => .ok (Topic.overview (Builtin.all.map Builtin.topic))
  | some topic =>
    match Builtin.ofName? topic with
    | some builtin => .ok builtin.topic.text
    | none =>
      .error (.usage Builtin.help.name ("no help topics match ".toList ++ topic.quoted) 1)

def perform : Task → Command
  | changeDirectory target => Directory.change target
  | printVariables => fun _ s out =>
    .printing (s.environment.entries.flatMap variablePieces) (.ok 0) s out
  | setVariable name value => fun _ s out =>
    .silent (.ok 0) { s with environment := s.environment.set name value } out
  | unsetVariable name => fun _ s out =>
    .silent (.ok 0) { s with environment := s.environment.erase name } out
  | leave status => fun _ s out =>
    let status := status.getD s.lastStatus
    .silent (.ok status) { s with exitRequest := some status } out
  | showHelp topic => fun _ s out =>
    match helpText? topic with
    | .ok text => .printing [text] (.ok 0) s out
    | .error error => .silent (.error error) s out

end Task

def Builtin.handler (builtin : Builtin) : Handler := fun args =>
  (builtin.task? args).map Task.perform

end LineShell
