import LineShell.CommandLine.Invocation
import LineShell.Proofs.Command
import LineShell.Proofs.Steps

/-!
# The directory and its variable

The directory of a session stands in the session and, for the programs it starts, in the
variable `PWD`. Only `cd` writes the first, and it writes the second in the same breath or not
at all. So the two agree until a line sets or removes the variable by its name.

* `Session.NamesDirectory`: the two agree, as they do at the start of a run of the program.
* `Step.assigned?`: the variable that a step sets or removes.
* `Machine.namesDirectory_runStep`: what a step keeps.
* `namesDirectory_of_steps`: lines and loops.
-/

namespace LineShell

/-- `PWD` is set to the text of the directory. -/
def Session.NamesDirectory (s : Session) : Prop :=
  s.environment.get? Directory.currentName = some s.directoryText

instance (s : Session) : Decidable s.NamesDirectory :=
  inferInstanceAs (Decidable (s.environment.get? Directory.currentName = some s.directoryText))

theorem Invocation.fresh_namesDirectory (inv : Invocation) (tree : FileTree)
    (environment : Environment) : (inv.fresh tree environment).NamesDirectory := by
  rw [Session.NamesDirectory, fresh, Environment.get?_set, if_pos rfl]
  rfl

/-- The variable that the words of a step set by `setenv` or remove by `unsetenv`. -/
def Step.assigned? (step : Step) : Option Text :=
  match step.argv with
  | [command, name, _] => if command = Builtin.setenv.name then some name else none
  | [command, name] => if command = Builtin.unsetenv.name then some name else none
  | _ => none

/-! ## Steps -/

theorem Directory.namesDirectory_sessionAfter {s : Session} (hs : s.NamesDirectory)
    (target : Option Text) (tree : FileTree) : (sessionAfter target tree s).NamesDirectory := by
  refine sessionAfter_cases hs ?_ ?_ target
  · have hne : currentName ≠ previousName := by decide
    rw [Session.NamesDirectory, remember, Environment.get?_set, if_neg hne]
    exact hs
  · intro _ path _
    rw [Session.NamesDirectory, moveTo, Environment.get?_set, if_pos rfl]
    rfl

namespace Machine

variable {m : Machine}

theorem namesDirectory_runStep (hm : m.registry.IsDefault) {step : Step}
    (h : step.assigned? ≠ some Directory.currentName) (hs : step.session.NamesDirectory) :
    (m.runStep step).session.NamesDirectory := by
  obtain ⟨argv, s, io⟩ := step
  change (m.execute argv s io).session.NamesDirectory
  rcases execute_session hm argv s io with hsame | ⟨builtin, args, task, rfl, htask, hsession⟩
  · rw [hsame]
    exact hs
  rw [hsession]
  cases Builtin.makes_of_task? htask with
  | cd _ => exact Directory.namesDirectory_sessionAfter hs _ m.tree
  | env _ => exact hs
  | @setenv name value _ =>
    have hne : Directory.currentName ≠ name := by
      rintro rfl
      exact h rfl
    rw [Task.sessionAfter, Session.NamesDirectory, Environment.get?_set, if_neg hne]
    exact hs
  | unsetenv name =>
    have hne : Directory.currentName ≠ name := by
      rintro rfl
      exact h rfl
    rw [Task.sessionAfter, Session.NamesDirectory, Environment.get?_erase, if_neg hne]
    exact hs
  | exitLast => exact hs
  | exitWith _ _ => exact hs
  | help _ => exact hs

/-- **The variable agrees with the directory.** If `PWD` is set to the directory and no step
of a line, or of a loop, sets or removes `PWD` itself, then `PWD` is set to the directory
afterwards, whatever became of the changes of directory and of what was printed. -/
theorem namesDirectory_of_steps (hm : m.registry.IsDefault) {s : Session}
    (hs : s.NamesDirectory) (io : Streams) :
    (∀ line,
      (∀ step ∈ m.lineSteps line s io, step.assigned? ≠ some Directory.currentName) →
        (m.processLine line s io).session.NamesDirectory) ∧
    ∀ interrupted events,
      (∀ step ∈ m.loopSteps events s io, step.assigned? ≠ some Directory.currentName) →
        (m.loop interrupted events s io).session.NamesDirectory := by
  constructor
  · intro line hsteps
    refine processLine_keeps_of_steps (fun _ ht => ht) (fun _ ht => ht) ?_ hs
    intro step hstep
    exact namesDirectory_runStep hm (hsteps step hstep)
  · intro interrupted events hsteps
    refine loop_keeps_of_steps (fun _ ht => ht) (fun _ ht => ht) interrupted ?_ hs
    intro step hstep
    exact namesDirectory_runStep hm (hsteps step hstep)

/-- A change that succeeds, two that cannot be announced, two that are refused, one without a home
directory, and one through a link to a directory that is not UTF-8. -/
theorem namesDirectory_of_steps_refused :
    let m : Machine :=
      { tree := ⟨[([Utf8.encode "d".toList], .directory), ([[0xFF]], .directory),
          ([Utf8.encode "f".toList], .file 0o644 []), ([Utf8.encode "l".toList], .link [0xFF])]⟩ }
    let s : Session :=
      { environment := .ofPairs [("PWD".toList, "/".toList)]
        processId := "7".toList
        programName := "sh".toList }
    let io : Streams := { out := { room := some 0 } }
    let line := "cd d; cd - || cd -; cd f; cd -x; cd; cd /l".toList
    let run := m.processLine line s io
    s.NamesDirectory ∧ run.session.NamesDirectory ∧ run.session.directory = [0x2F, 0xFF] ∧
      (reports run.effects).map (fun report => report.error.message) =
        ["disk full".toList, "disk full".toList, "cd: can't cd to f".toList,
          "cd: Illegal option -x".toList] := by
  intro m s io line run
  have hs : s.NamesDirectory := by decide
  have hsteps : ∀ step ∈ m.lineSteps line s io,
      step.assigned? ≠ some Directory.currentName := by decide +kernel
  exact ⟨hs, (namesDirectory_of_steps ⟨[], rfl⟩ hs io).1 line hsteps, by decide +kernel⟩

end Machine

end LineShell
