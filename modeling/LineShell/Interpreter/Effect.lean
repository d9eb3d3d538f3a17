import LineShell.Command.Start
import LineShell.OutStream

/-!
# Effects

What an interpreter does to the world, in order. Output, error output, reports and started
programs are read off one list of effects, so that their order is never lost.

* `Effect`: one act. A program writes to the same streams as the interpreter, but past the
  limits of the interpreter's own writes.
* `output`, `errorOutput`, `reports`, `launches`: the views of a list of effects.
* `Run`: what a part of a run leaves behind; `Run.after` puts earlier effects in front.
-/

namespace LineShell

inductive Effect where
  /-- A command printed, and these bytes reached the output stream. -/
  | printed (bytes : Bytes)
  /-- All that was printed before is passed on. -/
  | flushed
  /-- A program was started and ran to its end. -/
  | started (launch : Launch) (outcome : Outcome)
  /-- A failure was reported, and these bytes reached the error stream. -/
  | reported (report : Report) (bytes : Bytes)
deriving DecidableEq, Repr

namespace Effect

def out : Effect → Bytes
  | printed bytes => bytes
  | started _ outcome => outcome.out
  | _ => []

def err : Effect → Bytes
  | reported _ bytes => bytes
  | started _ outcome => outcome.err
  | _ => []

def report? : Effect → Option Report
  | reported report _ => some report
  | _ => none

def launch? : Effect → Option Launch
  | started launch _ => some launch
  | _ => none

end Effect

def output (effects : List Effect) : Bytes := effects.flatMap Effect.out

def errorOutput (effects : List Effect) : Bytes := effects.flatMap Effect.err

def reports (effects : List Effect) : List Report := effects.filterMap Effect.report?

def launches (effects : List Effect) : List Launch := effects.filterMap Effect.launch?

@[simp] theorem output_append (a b : List Effect) : output (a ++ b) = output a ++ output b := by
  simp [output]

@[simp] theorem errorOutput_append (a b : List Effect) :
    errorOutput (a ++ b) = errorOutput a ++ errorOutput b := by
  simp [errorOutput]

@[simp] theorem reports_append (a b : List Effect) :
    reports (a ++ b) = reports a ++ reports b := by
  simp [reports]

@[simp] theorem launches_append (a b : List Effect) :
    launches (a ++ b) = launches a ++ launches b := by
  simp [launches]

/-- The two streams of an interpreter. -/
structure Streams where
  out : OutStream := {}
  err : OutStream := {}
deriving DecidableEq, Repr

/-- The streams behind a flush of the output. -/
def Streams.flushed (io : Streams) : Streams := { io with out := io.out.flushed }

structure Run where
  status : Status
  session : Session
  streams : Streams
  effects : List Effect
deriving DecidableEq

namespace Run

/-- Nothing happens. -/
def idle (s : Session) (io : Streams) : Run := ⟨s.lastStatus, s, io, []⟩

/-- The same run after earlier effects. -/
def after (run : Run) (earlier : List Effect) : Run :=
  { run with effects := earlier ++ run.effects }

/-- A failure is reported and its status is the result. What the error stream does not take is
lost, and nothing else comes of that. -/
def failed (error : ShellError) (s : Session) (io : Streams) : Run :=
  let report := s.reportOf error
  let written := io.err.writeTexts report.pieces
  ⟨error.status, s, { io with err := written.stream }, [.reported report written.accepted]⟩

end Run

end LineShell
