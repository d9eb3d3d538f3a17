import LineShell.Command.Registry
import LineShell.Interpreter.Effect

/-!
# Executing an argument vector

* `Machine`: what a session runs on, the registered commands and the file tree. No command changes
  the tree, and no program does while a line or a loop runs; another tree is another machine.
* `Machine.runRegistered`: a registered command; its failure is reported.
* `Machine.runProgram`: any other command is searched, then all printed output is flushed,
  then the program is started. Each step that fails is reported and ends the matter.
* `Machine.execute`: the one or the other; an empty vector does nothing.
-/

namespace LineShell

structure Machine where
  registry : Registry := .builtins
  tree : FileTree := {}

namespace Machine

def runRegistered (m : Machine) (handler : Handler) (args : List Text) (s : Session)
    (io : Streams) : Run :=
  match handler args with
  | .error error => .failed error s io
  | .ok command =>
    let done := command m.tree s io.out
    let io := { io with out := done.out }
    match done.result with
    | .ok status => ⟨status, done.session, io, [.printed done.printed]⟩
    | .error error => (Run.failed error done.session io).after [.printed done.printed]

def runProgram (m : Machine) (name : Text) (args : List Text) (s : Session) (io : Streams) :
    Run :=
  match s.findCommand m.tree name with
  | .notFound => .failed (.commandNotFound name) s io
  | .notExecutable _ => .failed (.permissionDenied name) s io
  | .executable path =>
    match io.out.flushFailure? with
    | some problem => .failed (.io problem) s io.flushed
    | none =>
      match s.start? m.tree path (name :: args) with
      | none => (Run.failed (.permissionDenied name) s io.flushed).after [.flushed]
      | some (launch, outcome) =>
        ⟨outcome.ending.status, s, io.flushed, [.flushed, .started launch outcome]⟩

def execute (m : Machine) (argv : List Text) (s : Session) (io : Streams) : Run :=
  match argv with
  | [] => .idle s io
  | name :: args =>
    match m.registry.get? name with
    | some handler => m.runRegistered handler args s io
    | none => m.runProgram name args s io

end Machine

end LineShell
