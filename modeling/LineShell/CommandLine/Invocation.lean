import LineShell.Interpreter.Trace

/-!
# Running the command line

* `Invocation`: what the program is started with.
* `Arguments`: what its arguments come to. `Invocation.session` is the session of a fresh run, and
  `Invocation.events` the source of its lines. A text of commands comes before a script, and a
  script before the standard input.
* `Host`: what is around a run and goes into the error stream.
* `Invocation.run`: the run, from the arguments to the exit.
* `Frontend`, `Invocation.main`: the whole program, for any way to read arguments and to set up a
  log.
-/

namespace LineShell

structure Invocation where
  /-- The name the program is started under. -/
  name : Text
  args : List Text := []
  /-- The variables as `NAME=VALUE` strings. -/
  block : List Bytes := []
  directory : Path := [Path.slash]
  /-- The standard input, which is no terminal. -/
  input : Bytes := []
  processId : Text := []
deriving DecidableEq, Repr

structure Arguments where
  /-- A text of commands to run. -/
  command : Option Text := none
  /-- What is logged, if no variable says otherwise. -/
  logLevel : Text := "warn".toList
  /-- A file of commands to run. -/
  script : Option Text := none
deriving DecidableEq, Repr

/-- What a run of the program leaves behind. -/
structure Exit where
  status : Status
  out : Bytes := []
  err : Bytes := []
deriving DecidableEq, Repr

structure Host where
  subscriber : Subscriber := .silent
  /-- Why interrupts cannot be handled, if they cannot. -/
  interruptProblem : Option Text := none
  /-- What is said when the run breaks off because these bytes are no text. -/
  brokenText : Bytes → Bytes := fun _ => []

namespace Invocation

/-! ## Fresh runs -/

/-- The directory the program runs in, links resolved. -/
def currentDirectory (inv : Invocation) (tree : FileTree) : Path :=
  (tree.canonicalize? inv.directory).getD inv.directory

/-- The session of a fresh run that has these variables. `PWD` names the directory. -/
def fresh (inv : Invocation) (tree : FileTree) (environment : Environment) : Session :=
  let directory := inv.currentDirectory tree
  { environment := environment.set Directory.currentName (Utf8.decode directory)
    directory := directory
    processId := inv.processId
    programName := inv.name }

/-- The session of a fresh run. There is none if a variable is no text. -/
def session (inv : Invocation) (tree : FileTree) : Except Bytes Session :=
  (Environment.ofBlock inv.block).map (inv.fresh tree)

theorem session_of_ok {inv : Invocation} {environment : Environment}
    (h : Environment.ofBlock inv.block = .ok environment) (tree : FileTree) :
    inv.session tree = .ok (inv.fresh tree environment) := by
  rw [session, h, Except.map]

theorem session_of_error {inv : Invocation} {bytes : Bytes}
    (h : Environment.ofBlock inv.block = .error bytes) (tree : FileTree) :
    inv.session tree = .error bytes := by
  rw [session, h, Except.map]

/-- Why a script cannot be opened. -/
def unopened (path reason : Text) : Text :=
  "can't open ".toList ++ path ++ ": ".toList ++ reason

/-- The events of a script, which its owner must be allowed to read. A directory can be
opened, and fails when it is read. -/
def scriptEvents (inv : Invocation) (tree : FileTree) (path : Text) : Except Text (List Event) :=
  let here := Path.location (inv.currentDirectory tree)
  match tree.stat? here (Utf8.encode path) with
  | .error error => .error (unopened path error.reason)
  | .ok location =>
    match tree.node? location with
    | none => .error (unopened path LookupError.missing.reason)
    | some .directory =>
      .ok [.failure "failed to read input: Is a directory (os error 21)".toList]
    | some node =>
      if node.ownerReads then .ok (inputEvents node.content)
      else .error (unopened path "Permission denied (os error 13)".toList)

def events (inv : Invocation) (tree : FileTree) (arguments : Arguments) :
    Except Text (List Event) :=
  match arguments.command, arguments.script with
  | some command, _ => .ok (inputEvents (Utf8.encode command))
  | none, some path => inv.scriptEvents tree path
  | none, none => .ok (inputEvents inv.input)

end Invocation

/-! ## Runs -/

namespace Host

/-- What is logged before anything else. -/
def opening (host : Host) : List Act :=
  (host.interruptProblem.map (fun problem => .logged (.interruptsUnhandled problem))).toList

/-- The exit with a status, after a trace. -/
def exit (host : Host) (status : Status) (acts : List Act) : Exit :=
  { status := status
    out := output (effectsOf acts)
    err := errorTrace host.subscriber [] acts }

/-- The exit after a failure that is not one of a line. -/
def aborted (host : Host) (problem : Text) (acts : List Act) : Exit :=
  let exit := host.exit 1 acts
  { exit with err := exit.err ++ Utf8.encode (Text.ofLines [problem]) }

end Host

namespace Invocation

/-- The status of a run that breaks off. -/
def brokenStatus : Status := 101

/-- Run the commands that the arguments choose. -/
def run (inv : Invocation) (host : Host) (tree : FileTree) (arguments : Arguments) : Exit :=
  match inv.session tree with
  | .error bytes => { status := brokenStatus, err := host.brokenText bytes }
  | .ok s =>
    match inv.events tree arguments with
    | .error problem => host.aborted problem host.opening
    | .ok events =>
      let m : Machine := { tree := tree }
      let acts := host.opening ++ .logged (.starting false) :: m.loopActs false events s {}
      match (m.loop false events s {}).result with
      | .ok status => host.exit status acts
      | .error problem => host.aborted problem acts

end Invocation

/-! ## The whole program -/

/-- What becomes of the log when the program begins. -/
inductive LogSetup where
  /-- Something is said about the filter, and the log is written from here on. -/
  | ready (notices : Bytes) (subscriber : Subscriber)
  /-- The program breaks off. -/
  | broken (notices : Bytes)

structure Frontend where
  /-- What the arguments come to under a name, or the exit that they lead to. -/
  read : Text → List Text → Except Exit Arguments
  /-- The log for these variables and this level. -/
  setUp : List Bytes → Text → LogSetup

def Invocation.main (inv : Invocation) (frontend : Frontend) (host : Host) (tree : FileTree) :
    Exit :=
  match frontend.read inv.name inv.args with
  | .error exit => exit
  | .ok arguments =>
    match frontend.setUp inv.block arguments.logLevel with
    | .broken notices => { status := brokenStatus, err := notices }
    | .ready notices subscriber =>
      let exit := inv.run { host with subscriber := subscriber } tree arguments
      { exit with err := notices ++ exit.err }

end LineShell
