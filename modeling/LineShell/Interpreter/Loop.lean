import LineShell.Interpreter.Line
import LineShell.Text.Lines

/-!
# The loop

Events are taken one by one until the session asks to exit, the input ends, or the source
fails. An interrupted line is dropped and nothing else comes of it.

* `Event`: what reading a line can give.
* `Machine.loop`: the fold over the events. A request to exit is looked at before each turn;
  every turn begins by clearing the interrupt flag, also the turn that finds the end.
* `inputEvents`: the events of a byte input.
-/

namespace LineShell

inductive Event where
  | line (text : Text)
  | interrupt
  | endOfInput
  | failure (problem : Text)
deriving DecidableEq, Repr

structure LoopRun where
  /-- The status to exit with, or why the source failed. -/
  result : Except Text Status
  session : Session
  streams : Streams
  /-- Whether the interrupt flag is raised afterwards. -/
  interrupted : Bool
  effects : List Effect

namespace Session

/-- The requested status, or the last one. -/
def exitStatus (s : Session) : Status := s.exitRequest.getD s.lastStatus

end Session

namespace LoopRun

def stopped (s : Session) (io : Streams) (interrupted : Bool) : LoopRun :=
  ⟨.ok s.exitStatus, s, io, interrupted, []⟩

def after (run : LoopRun) (earlier : List Effect) : LoopRun :=
  { run with effects := earlier ++ run.effects }

end LoopRun

namespace Machine

def loop (m : Machine) (interrupted : Bool) : List Event → Session → Streams → LoopRun
  | [], s, io => .stopped s io (interrupted && s.shouldExit)
  | event :: rest, s, io =>
    if s.shouldExit then .stopped s io interrupted
    else
      match event with
      | .line text =>
        let run := m.processLine text s io
        (m.loop false rest run.session run.streams).after run.effects
      | .interrupt => m.loop false rest s io
      | .endOfInput => .stopped s io false
      | .failure problem => ⟨.error problem, s, io, false, []⟩

end Machine

def inputEvents (input : Bytes) : List Event := (readLines input).map .line

end LineShell
