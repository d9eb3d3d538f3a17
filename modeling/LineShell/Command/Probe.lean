import LineShell.Command.Basic

/-!
# Probes

A probe is a command that leaves the session alone: it prints its name and its arguments on
one line and ends with a fixed status, or fails in a fixed way before or after it has
printed. Registered beside or instead of the builtin commands, it shows which commands of a
chain ran and with what arguments.
-/

namespace LineShell

/-- When a failing probe fails. -/
inductive Probe.Moment where
  /-- While its arguments are taken, so that it prints nothing. -/
  | create
  /-- After it has printed. -/
  | execute
deriving DecidableEq, Repr

structure Probe where
  name : Text
  status : Status := 0
  failure : Option (Probe.Moment × ShellError) := none
deriving DecidableEq, Repr

namespace Probe

def announcement (probe : Probe) (args : List Text) : Text :=
  probe.name ++ args.flatMap (fun arg => ' ' :: '<' :: arg ++ ['>']) ++ ['\n']

def run (probe : Probe) (args : List Text) (result : Except ShellError Status) : Command :=
  fun _ s out => .printing [probe.announcement args] result s out

def handler (probe : Probe) : Handler := fun args =>
  match probe.failure with
  | some (.create, error) => .error error
  | some (.execute, error) => .ok (probe.run args (.error error))
  | none => .ok (probe.run args (.ok probe.status))

end Probe

end LineShell
