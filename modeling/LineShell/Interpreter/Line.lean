import LineShell.Interpreter.Execute
import LineShell.Line.Chain
import LineShell.Line.Comment
import LineShell.Line.Operator

/-!
# Processing a line

A line loses its comment, its operators are checked as they were typed, its references are
replaced, and what comes of that is cut into links, which run in order.

* `Machine.runChain`: each link whose condition holds is executed and its status recorded;
  a request to exit ends the chain.
* `Machine.processLine`: a line of nothing but a comment does nothing at all, and any other
  line is counted once, whatever becomes of it.
-/

namespace LineShell

/-- The refusal of a line whose operators are out of place. -/
def syntaxError? (line : Text) : Option ShellError :=
  (misplaced line).map (fun op => .unexpectedToken op.text)

namespace Run

/-- The status of a run is the last status of its session. -/
def recorded (run : Run) : Run := { run with session := run.session.record run.status }

/-- The line is counted, after all reports of the run have been written. -/
def counted (run : Run) : Run := { run with session := run.session.countLine }

end Run

namespace Machine

/-- Execute the words of a link and record the status. -/
def runLink (m : Machine) (link : Link) (s : Session) (io : Streams) : Run :=
  (m.execute (words link.text) s io).recorded

def runChain (m : Machine) : List Link → Session → Streams → Run
  | [], s, io => .idle s io
  | link :: rest, s, io =>
    if link.separator.admits s.lastStatus then
      let run := m.runLink link s io
      if run.session.shouldExit then run
      else (m.runChain rest run.session run.streams).after run.effects
    else
      m.runChain rest s io

def processLine (m : Machine) (line : Text) (s : Session) (io : Streams) : Run :=
  match stripComment line with
  | none => .idle s io
  | some text =>
    match syntaxError? text with
    | some error => (Run.failed error s io).recorded.counted
    | none => (m.runChain (splitChain (s.expand text)) s io).counted

end Machine

end LineShell
