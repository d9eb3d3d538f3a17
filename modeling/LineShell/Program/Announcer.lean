import LineShell.Program
import LineShell.Text.Utf8

/-!
# Programs that announce how they were started

* `Announcer`: a program given by fixed texts, by what it shows of its launch, and by the way
  it ends.
* `Announcer.program`: it writes the fixed texts, then one line for each argument, one for
  each variable in the order of the whole texts, and one for its directory.
-/

namespace LineShell

structure Announcer where
  out : Text := []
  err : Text := []
  showsArguments : Bool := false
  showsVariables : Bool := false
  showsDirectory : Bool := false
  ending : Ending := .exited 0
deriving DecidableEq, Repr

namespace Announcer

/-- A line that names what it shows. -/
def line (label : Text) (shown : Bytes) : Bytes :=
  Utf8.encode (label ++ [' ']) ++ shown ++ Utf8.encode ['\n']

def argumentLines (launch : Launch) : Bytes :=
  launch.arguments.flatMap (line "arg".toList)

def variableLines (launch : Launch) : Bytes :=
  (launch.block.mergeSort Text.precedes).flatMap (fun entry =>
    line "env".toList (Utf8.encode entry))

def directoryLine (launch : Launch) : Bytes := line "cwd".toList launch.directory.path

def announcement (a : Announcer) (launch : Launch) : Bytes :=
  Utf8.encode a.out ++ (if a.showsArguments then argumentLines launch else [])
    ++ (if a.showsVariables then variableLines launch else [])
    ++ (if a.showsDirectory then directoryLine launch else [])

def program (a : Announcer) : Program := fun launch =>
  { out := a.announcement launch, err := Utf8.encode a.err, ending := a.ending }

end Announcer

end LineShell
