import LineShell.Interpreter.Loop

/-!
# The trace of a run

Beside its effects a run logs what it is about to do. What becomes of a logged event is up to a
subscriber, which may write to the same place as the reports of the run. So the trace of a run
holds its effects and its events in one list, in the order in which they come.

* `LogEvent`: what is logged, with its level and its message.
* `Act`, `effectsOf`: an effect or an event, and the effects of a trace.
* `Subscriber`, `errorTrace`: what is written of each event, and what is written of a whole trace.
* `Machine.executeActs`, `chainActs`, `lineActs`, `loopActs`: the traces of `Machine.execute`,
  `runChain`, `processLine` and `loop`. Their effects are those of the runs, and their events are
  seen nowhere else.
-/

namespace LineShell

/-! ## Events -/

/-- How much an event matters. -/
inductive LogLevel where
  | error
  | warn
  | info
  | debug
  | trace
deriving DecidableEq, Repr

/-- Something that is logged, with the fields that go with it. -/
inductive LogEvent where
  | interruptsUnhandled (problem : Text)
  | starting (interactive : Bool)
  | interruptReceived
  | lineAbandoned
  | processingLine (counter : UInt64) (line : Text) (links : Nat)
  | skipped (separator : Separator) (text : Text)
  | resolved (command : Text) (program : Path)
  | notExecutable (command : Text) (path : Path)
  /-- Why the system refuses is for the subscriber to say. -/
  | spawnFailed (command : Text)
  | childFinished (command : Text) (code : Status)
deriving DecidableEq, Repr

namespace LogEvent

def level : LogEvent → LogLevel
  | interruptsUnhandled _ => .warn
  | interruptReceived => .info
  | skipped _ _ => .trace
  | _ => .debug

def message : LogEvent → Text
  | interruptsUnhandled problem => "interrupts will not be handled: ".toList ++ problem
  | starting _ => "starting".toList
  | interruptReceived => "interrupt received, continuing with the next line".toList
  | lineAbandoned => "line abandoned".toList
  | processingLine _ _ _ => "processing line".toList
  | skipped _ _ => "skipped".toList
  | resolved _ _ => "resolved".toList
  | notExecutable _ _ => "not executable".toList
  | spawnFailed _ => "spawn failed".toList
  | childFinished _ _ => "child finished".toList

end LogEvent

inductive Act where
  | effect (effect : Effect)
  | logged (event : LogEvent)
deriving DecidableEq, Repr

def Act.effect? : Act → Option Effect
  | .effect act => some act
  | .logged _ => none

/-- The effects of a trace, without the events. -/
def effectsOf (acts : List Act) : List Effect := acts.filterMap Act.effect?

/-- What is written of an event, after these other events. It stands for a filter, for a format,
and for whatever else goes into a line of the log, like the time. -/
abbrev Subscriber := List LogEvent → LogEvent → Bytes

/-- Nothing is written of any event. -/
def Subscriber.silent : Subscriber := fun _ _ => []

/-- What is written to the error stream, when these events have been logged before. -/
def errorTrace (subscriber : Subscriber) : List LogEvent → List Act → Bytes
  | _, [] => []
  | past, .effect effect :: rest => effect.err ++ errorTrace subscriber past rest
  | past, .logged event :: rest =>
    subscriber past event ++ errorTrace subscriber (past ++ [event]) rest

/-! ## Traces -/

/-- A run that logs nothing. -/
def Run.acts (run : Run) : List Act := run.effects.map .effect

namespace Machine

/-- What the search finds is logged at once, and what comes of the start right behind it. -/
def programActs (m : Machine) (name : Text) (args : List Text) (s : Session) (io : Streams) :
    List Act :=
  let run := m.runProgram name args s io
  match s.findCommand m.tree name with
  | .notFound => run.acts
  | .notExecutable path => .logged (.notExecutable name path) :: run.acts
  | .executable path =>
    .logged (.resolved name path) ::
      match io.out.flushFailure? with
      | some _ => run.acts
      | none =>
        match s.start? m.tree path (name :: args) with
        | none =>
          .effect .flushed :: .logged (.spawnFailed name) ::
            (Run.failed (.permissionDenied name) s io.flushed).acts
        | some (_, outcome) =>
          run.acts ++ [.logged (.childFinished name outcome.ending.status)]

def executeActs (m : Machine) (argv : List Text) (s : Session) (io : Streams) : List Act :=
  match argv with
  | [] => []
  | name :: args =>
    match m.registry.get? name with
    | some handler => (m.runRegistered handler args s io).acts
    | none => m.programActs name args s io

def chainActs (m : Machine) : List Link → Session → Streams → List Act
  | [], _, _ => []
  | link :: rest, s, io =>
    if link.separator.admits s.lastStatus then
      let run := m.runLink link s io
      m.executeActs (words link.text) s io ++
        if run.session.shouldExit then [] else m.chainActs rest run.session run.streams
    else
      .logged (.skipped link.separator link.text) :: m.chainActs rest s io

/-- A line that is refused is not processed, and neither is one that is all comment. -/
def lineActs (m : Machine) (line : Text) (s : Session) (io : Streams) : List Act :=
  match stripComment line with
  | none => []
  | some text =>
    match syntaxError? text with
    | some error => (Run.failed error s io).acts
    | none =>
      let chain := splitChain (s.expand text)
      .logged (.processingLine s.counter (s.expand text) chain.length) :: m.chainActs chain s io

/-- Each turn looks at the interrupt flag first, also the turn that finds the end. -/
def loopActs (m : Machine) (interrupted : Bool) : List Event → Session → Streams → List Act
  | [], s, _ =>
    if s.shouldExit then [] else turnActs
  | event :: rest, s, io =>
    if s.shouldExit then []
    else
      turnActs ++
        match event with
        | .line text =>
          let run := m.processLine text s io
          m.lineActs text s io ++ m.loopActs false rest run.session run.streams
        | .interrupt => .logged .lineAbandoned :: m.loopActs false rest s io
        | .endOfInput => []
        | .failure _ => []
where
  turnActs : List Act := if interrupted then [.logged .interruptReceived] else []

end Machine

end LineShell
