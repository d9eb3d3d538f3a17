import LineShell.CommandLine.Directive

/-!
# Log filters

A log filter is a list of directives between commas. A variable of the process holds one,
and an option gives another.

* `LogFilter.opening`: what becomes of the two when a run begins. The variable goes before
  the option, unless one of its directives is to be ignored; the option is then read
  directive by directive, with a notice about each one that is ignored.
* `LogFilter.Opening`: the notices, and whether the run breaks off at a directive that
  cannot be cut into its parts.
-/

namespace LineShell

namespace LogFilter

def directives (filter : Text) : List Text :=
  (filter.splitOnP (· == ',')).filter (fun directive => !directive.isEmpty)

/-- The first fault of a filter. -/
def fault? (filter : Text) : Option Directive.Fault :=
  (directives filter).findSome? Directive.fault?

structure Opening where
  notices : List Text := []
  broken : Bool := false
deriving DecidableEq, Repr

def notice (directive : Text) (problem : Directive.Problem) : Text :=
  "ignoring `".toList ++ directive ++ "`: ".toList ++ problem.message

/-- Read directives one after another, up to the first that cannot be cut. -/
def readAll : List Text → Opening
  | [] => {}
  | directive :: rest =>
    match Directive.fault? directive with
    | none => readAll rest
    | some .uncut => { broken := true }
    | some (.ignored problem) =>
      let opening := readAll rest
      { opening with notices := notice directive problem :: opening.notices }

/-- The name of the variable that holds a filter. -/
def variableName : Text := "RUST_LOG".toList

def opening (held : Option Text) (level : Text) : Opening :=
  match held.map fault? with
  | some none => {}
  | some (some .uncut) => { broken := true }
  | _ => readAll (directives level)

end LogFilter

end LineShell
