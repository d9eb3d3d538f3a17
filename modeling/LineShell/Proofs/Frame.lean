import LineShell.Proofs.Command
import LineShell.Proofs.Environment
import LineShell.Proofs.Steps

/-!
# What a line leaves alone

A step changes a session by the task that it performs, and each task writes a few variables by
name. All else is left as it is: the other variables with their values and in their order, the
directory unless it is changed by `cd`, and the request to exit unless one is made.

* `Task.written`: the variables that a task sets or removes.
* `Machine.performed?`: the task that a step performs, unless it is refused.
* `Task.restrict_sessionAfter`, `Task.directory_sessionAfter`: what one task leaves alone.
* `Machine.runStep_session`: a step leaves the session alone or performs its task.
* `Machine.processLine_frame`: what a line leaves alone.
-/

namespace LineShell

/-! ## What a step does -/

/-- The variables that a task sets or removes. -/
def Task.written : Task → List Text
  | changeDirectory _ => [Directory.previousName, Directory.currentName]
  | printVariables => []
  | setVariable name _ => [name]
  | unsetVariable name => [name]
  | leave _ => []
  | showHelp _ => []

/-- The task that a builtin command makes of the words of a step. -/
def Step.task? (step : Step) : Option Task :=
  match step.argv with
  | [] => none
  | name :: args => (Builtin.ofName? name).bind (fun builtin => (builtin.task? args).toOption)

/-- A command cannot work with its arguments. -/
def ShellError.isUsage : ShellError → Bool
  | usage _ _ _ => true
  | _ => false

/-- Texts that are not written as a whole are no misuse. -/
theorem Completion.isUsage_of_printing {texts : List Text} {status : Status} {s : Session}
    {out : OutStream} {error : ShellError}
    (h : (printing texts (.ok status) s out).result = .error error) : error.isUsage = false := by
  rw [printing] at h
  dsimp only at h
  cases hfailure : (out.writeTexts texts).failure with
  | none =>
    rw [Written.check_of_complete hfailure] at h
    cases h
  | some problem =>
    rw [Written.check_of_failure hfailure] at h
    cases h
    rfl

namespace Machine

/-- The command of a step refuses its arguments, before or while it works with them. -/
def refuses (m : Machine) (step : Step) : Bool :=
  (reports (m.runStep step).effects).any (fun report => report.error.isUsage)

/-- The task that a step performs. -/
def performed? (m : Machine) (step : Step) : Option Task :=
  if m.refuses step then none else step.task?

end Machine

/-! ## Tasks -/

namespace Task

variable {task : Task}

theorem names_sessionAfter (task : Task) (tree : FileTree) (s : Session) :
    (task.sessionAfter tree s).programName = s.programName ∧
      (task.sessionAfter tree s).processId = s.processId := by
  cases task with
  | changeDirectory target =>
    exact Directory.sessionAfter_cases
      (P := fun t => t.programName = s.programName ∧ t.processId = s.processId) ⟨rfl, rfl⟩
      ⟨rfl, rfl⟩ (fun _ _ _ => ⟨rfl, rfl⟩) target
  | printVariables => exact ⟨rfl, rfl⟩
  | setVariable name value => exact ⟨rfl, rfl⟩
  | unsetVariable name => exact ⟨rfl, rfl⟩
  | leave status => exact ⟨rfl, rfl⟩
  | showHelp topic => exact ⟨rfl, rfl⟩

/-- A task leaves the variables alone that it does not write, each in its place. -/
theorem restrict_sessionAfter {kept : Text → Bool}
    (h : ∀ name ∈ task.written, kept name = false) (tree : FileTree) (s : Session) :
    (task.sessionAfter tree s).environment.restrict kept = s.environment.restrict kept := by
  cases task with
  | changeDirectory target =>
    have hprevious : kept Directory.previousName = false := h _ List.mem_cons_self
    have hcurrent : kept Directory.currentName = false :=
      h _ (List.mem_cons_of_mem _ List.mem_cons_self)
    have hremember : (Directory.remember s).environment.restrict kept =
        s.environment.restrict kept :=
      Environment.restrict_set hprevious s.environment s.directoryText
    refine Directory.sessionAfter_cases
      (P := fun t => t.environment.restrict kept = s.environment.restrict kept) rfl hremember ?_
      target
    intro _ path _
    rw [Directory.moveTo, Environment.restrict_set hcurrent, hremember]
  | printVariables => rfl
  | setVariable name value =>
    exact Environment.restrict_set (h name List.mem_cons_self) s.environment value
  | unsetVariable name =>
    exact Environment.restrict_erase (h name List.mem_cons_self) s.environment
  | leave status => rfl
  | showHelp topic => rfl

theorem directory_sessionAfter (h : ∀ target, task ≠ changeDirectory target) (tree : FileTree)
    (s : Session) : (task.sessionAfter tree s).directory = s.directory := by
  cases task with
  | changeDirectory target => exact absurd rfl (h target)
  | printVariables => rfl
  | setVariable name value => rfl
  | unsetVariable name => rfl
  | leave status => rfl
  | showHelp topic => rfl

/-- A task that turns out not to fit has changed nothing. A stream that is full is no such
reason: `cd` has moved by the time it prints. -/
theorem sessionAfter_of_isUsage {tree : FileTree} {s : Session} {out : OutStream}
    {error : ShellError} (h : (task.perform tree s out).result = .error error)
    (husage : error.isUsage = true) : task.sessionAfter tree s = s := by
  cases task with
  | changeDirectory target =>
    rw [sessionAfter, Directory.sessionAfter]
    rw [perform, Directory.change] at h
    cases hdestination : Directory.destination s target with
    | none =>
      rw [hdestination] at h
      cases h
    | some destination =>
      rw [hdestination] at h
      dsimp only at h ⊢
      cases hpath : tree.canonicalDirectory? (s.pathOf destination.path) with
      | none => rfl
      | some path =>
        rw [hpath] at h
        dsimp only at h
        split at h
        · rw [Completion.isUsage_of_printing h] at husage
          cases husage
        · cases h
  | printVariables => rfl
  | setVariable name value => cases h
  | unsetVariable name => cases h
  | leave status => cases h
  | showHelp topic => rfl

end Task

/-! ## Steps -/

theorem Step.task?_cons {builtin : Builtin} {args : List Text} {task : Task}
    (h : builtin.task? args = .ok task) (s : Session) (io : Streams) :
    Step.task? ⟨builtin.name :: args, s, io⟩ = some task := by
  rw [task?]
  dsimp only
  rw [Builtin.ofName?_name, Option.bind_some, h]
  rfl

namespace Machine

variable {m : Machine}

/-- The report of a registered command is that of its own failure. -/
theorem exists_result_of_isUsage {handler : Handler} {args : List Text} {command : Command}
    (hcommand : handler args = .ok command) {s : Session} {io : Streams}
    (h : (reports (m.runRegistered handler args s io).effects).any
      (fun report => report.error.isUsage) = true) :
    ∃ error, (command m.tree s io.out).result = .error error ∧ error.isUsage = true := by
  rw [runRegistered, hcommand] at h
  dsimp only at h
  cases hresult : (command m.tree s io.out).result with
  | ok status =>
    rw [hresult] at h
    cases h
  | error error =>
    rw [hresult] at h
    refine ⟨error, rfl, ?_⟩
    simpa [Run.after, Run.failed, reports, Effect.report?, Session.reportOf] using h

theorem runStep_session_of_execute {step : Step} {t : Session}
    (h : (m.execute step.argv step.session step.streams).session = t) :
    (m.runStep step).session = t.record (m.runStep step).status := by
  rw [← h]
  rfl

theorem runStep_session (hm : m.registry.IsDefault) (step : Step) :
    (m.runStep step).session = step.session.record (m.runStep step).status ∨
      ∃ task, m.performed? step = some task ∧
        (m.runStep step).session =
          (task.sessionAfter m.tree step.session).record (m.runStep step).status := by
  obtain ⟨probes, hprobes⟩ := hm
  obtain ⟨argv, s, io⟩ := step
  cases dispatch hprobes argv with
  | nothing => exact Or.inl rfl
  | @builtin builtin hget args =>
    have hexecute := execute_registered hget args
    cases htask : builtin.task? args with
    | error error =>
      refine Or.inl (runStep_session_of_execute ?_)
      rw [hexecute, m.runBuiltin_of_error htask, Run.failed]
    | ok task =>
      have hsession := (m.runBuiltin_of_ok htask s io).1
      cases hrefuses : m.refuses ⟨builtin.name :: args, s, io⟩ with
      | true =>
        have hhandler : builtin.handler args = .ok task.perform := by
          rw [Builtin.handler, htask, Except.map]
        have hreported : (reports (m.runRegistered builtin.handler args s io).effects).any
            (fun report => report.error.isUsage) = true := by
          rw [← hexecute]
          exact hrefuses
        obtain ⟨error, hresult, husage⟩ := exists_result_of_isUsage hhandler hreported
        refine Or.inl (runStep_session_of_execute ?_)
        rw [hexecute, hsession, Task.sessionAfter_of_isUsage hresult husage]
      | false =>
        refine Or.inr ⟨task, ?_, runStep_session_of_execute ?_⟩
        · rw [performed?, hrefuses, if_neg Bool.false_ne_true, Step.task?_cons htask]
        · rw [hexecute, hsession]
  | @probe probe _ hget args =>
    refine Or.inl (runStep_session_of_execute ?_)
    rw [execute_registered hget, m.runProbe_session]
  | @program name hget args =>
    refine Or.inl (runStep_session_of_execute ?_)
    rw [execute_unregistered hget, runProgram_session]

theorem runStep_session_of_refuses (hm : m.registry.IsDefault) {step : Step}
    (h : m.refuses step = true) :
    (m.runStep step).session = step.session.record (m.runStep step).status := by
  rcases runStep_session hm step with hsame | ⟨task, htask, -⟩
  · exact hsame
  · rw [performed?, if_pos h] at htask
    cases htask

/-- A step leaves the session alone if its task would. -/
theorem runStep_session_of_task? (hm : m.registry.IsDefault) {step : Step} {task : Task}
    (htask : step.task? = some task)
    (hsame : task.sessionAfter m.tree step.session = step.session) :
    (m.runStep step).session = step.session.record (m.runStep step).status := by
  rcases runStep_session hm step with hrun | ⟨found, hfound, hrun⟩
  · exact hrun
  · rw [performed?, htask] at hfound
    split at hfound
    · cases hfound
    · cases hfound
      rwa [hsame] at hrun

/-- Programs, `env`, `help` and links without words do nothing to a session. -/
theorem runStep_session_of_head? (hm : m.registry.IsDefault) {step : Step}
    (h : ∀ name ∈ step.argv.head?, m.registry.get? name = none ∨ name = Builtin.env.name ∨
      name = Builtin.help.name) :
    (m.runStep step).session = step.session.record (m.runStep step).status := by
  obtain ⟨argv, s, io⟩ := step
  cases argv with
  | nil => rfl
  | cons name args =>
    rcases h name rfl with hnone | rfl | rfl
    · refine runStep_session_of_execute ?_
      rw [execute_unregistered hnone, runProgram_session]
    · have htask : Builtin.env.task? args = .ok .printVariables := rfl
      exact runStep_session_of_task? hm (Step.task?_cons htask s io) rfl
    · have htask : Builtin.help.task? args = .ok (.showHelp args.head?) := rfl
      exact runStep_session_of_task? hm (Step.task?_cons htask s io) rfl

/-! ## Lines -/

/-- A view of the session that neither the count nor a task of the line changes. -/
theorem view_processLine (hm : m.registry.IsDefault) {β : Type} (view : Session → β)
    (hview : ∀ t status number,
      view { t with lastStatus := status, counter := number } = view t)
    {line : Text} {s : Session} {io : Streams}
    (htasks : ∀ step ∈ m.lineSteps line s io, ∀ task ∈ m.performed? step, ∀ t,
      view (task.sessionAfter m.tree t) = view t) :
    view (m.processLine line s io).session = view s := by
  refine processLine_keeps_of_steps (P := fun t => view t = view s)
    (fun t ht => (hview t 2 t.counter).trans ht)
    (fun t ht => (hview t t.lastStatus (t.counter + 1)).trans ht) ?_ rfl
  intro step hstep hbefore
  rcases runStep_session hm step with hsame | ⟨task, htask, hafter⟩
  · rw [hsame]
    exact (hview _ _ _).trans hbefore
  · rw [hafter]
    exact (hview _ _ _).trans ((htasks step hstep task htask _).trans hbefore)

/-- **The frame of a line.** From one step to the next, and from the last one to the end of the
line, nothing changes but the last status and the number of the line. The name of the program and
the process id are never changed. The variables that no performed task writes keep their values
and their order; those that are written are the names given to `setenv` and `unsetenv`, and `PWD`
and `OLDPWD` where `cd` is performed. Without `cd` the directory is as before, and without `exit`
the request to exit is. A step that is refused, and one that starts a program or runs `env` or
`help`, leaves all of the session as it was but its last status. -/
theorem processLine_frame (hm : m.registry.IsDefault) (line : Text) (s : Session)
    (io : Streams) :
    let steps := m.lineSteps line s io
    let t := (m.processLine line s io).session
    m.Linked s steps t ∧ t.programName = s.programName ∧ t.processId = s.processId ∧
    (∀ kept : Text → Bool,
      (∀ step ∈ steps, ∀ task ∈ m.performed? step, ∀ name ∈ task.written, kept name = false) →
        t.environment.restrict kept = s.environment.restrict kept ∧
        ∀ name, kept name = true → t.environment.get? name = s.environment.get? name) ∧
    ((∀ step ∈ steps, ∀ target, m.performed? step ≠ some (.changeDirectory target)) →
      t.directory = s.directory) ∧
    ((∀ step ∈ steps, ∀ status, m.performed? step ≠ some (.leave status)) →
      t.exitRequest = s.exitRequest) ∧
    ∀ step : Step,
      m.refuses step = true ∨ (∀ name ∈ step.argv.head?,
        m.registry.get? name = none ∨ name = Builtin.env.name ∨ name = Builtin.help.name) →
      (m.runStep step).session = step.session.record (m.runStep step).status := by
  intro steps t
  refine ⟨lineSteps_linked line s io, ?_, ?_, fun kept hkept => ?_, fun hcd => ?_,
    fun hexit => ?_, fun step hstep => ?_⟩
  · exact view_processLine hm Session.programName (fun _ _ _ => rfl)
      fun _ _ task _ u => (task.names_sessionAfter m.tree u).1
  · exact view_processLine hm Session.processId (fun _ _ _ => rfl)
      fun _ _ task _ u => (task.names_sessionAfter m.tree u).2
  · have hrestrict : t.environment.restrict kept = s.environment.restrict kept := by
      refine view_processLine hm (fun u => u.environment.restrict kept) (fun _ _ _ => rfl) ?_
      intro step hstep task htask u
      exact Task.restrict_sessionAfter (hkept step hstep task htask) m.tree u
    exact ⟨hrestrict, fun name hname => Environment.get?_eq_of_restrict_eq hrestrict hname⟩
  · refine view_processLine hm Session.directory (fun _ _ _ => rfl) ?_
    intro step hstep task htask u
    refine Task.directory_sessionAfter ?_ m.tree u
    rintro target rfl
    exact hcd step hstep target htask
  · refine view_processLine hm Session.exitRequest (fun _ _ _ => rfl) ?_
    intro step hstep task htask u
    refine Task.exitRequest_sessionAfter ?_ m.tree u
    rintro status rfl
    exact hexit step hstep status htask
  · rcases hstep with hrefuses | hhead
    · exact runStep_session_of_refuses hm hrefuses
    · exact runStep_session_of_head? hm hhead

/-- Variables are removed, set and refused around a `cd` that finds no directory, so the directory
is as before, and what is not written is as it was listed. -/
theorem processLine_frame_refused :
    let m : Machine := { registry := Registry.builtins.addProbes [⟨"a".toList, 1, none⟩] }
    let s : Session :=
      { environment := .ofPairs
          [("A".toList, "1".toList), ("PWD".toList, "2".toList), ("B".toList, "3".toList)]
        processId := "7".toList
        programName := "sh".toList }
    let line := "unsetenv A; setenv B x y || cd d || setenv C $B; x; env && exit z".toList
    let kept : Text → Bool := fun name => name != "A".toList && name != "C".toList
    let t := (m.processLine line s {}).session
    m.registry.IsDefault ∧
      (m.lineSteps line s {}).map m.performed? =
        [some (.unsetVariable "A".toList), none, none,
          some (.setVariable "C".toList "3".toList), none, some .printVariables, none] ∧
      t.environment.restrict kept = s.environment.restrict kept ∧ t.directory = s.directory ∧
      t.exitRequest = s.exitRequest ∧
      t.environment.names = ["PWD".toList, "B".toList, "C".toList] := by
  intro m s line kept t
  have hm : m.registry.IsDefault := ⟨_, rfl⟩
  have hperformed : (m.lineSteps line s {}).map m.performed? =
      [some (.unsetVariable "A".toList), none, none,
        some (.setVariable "C".toList "3".toList), none, some .printVariables, none] := by
    decide +kernel
  have hmem : ∀ step ∈ m.lineSteps line s {}, ∀ task, m.performed? step = some task →
      task = .unsetVariable "A".toList ∨ task = .setVariable "C".toList "3".toList ∨
        task = .printVariables := by
    intro step hstep task htask
    have hfound : some task ∈ (m.lineSteps line s {}).map m.performed? :=
      htask ▸ List.mem_map_of_mem hstep
    rw [hperformed] at hfound
    simpa using hfound
  obtain ⟨-, -, -, hkept, hdirectory, hexit, -⟩ := processLine_frame hm line s {}
  refine ⟨hm, hperformed, (hkept kept ?_).1, hdirectory ?_, hexit ?_, by decide +kernel⟩
  · intro step hstep task htask
    rcases hmem step hstep task htask with rfl | rfl | rfl
    · decide
    · decide
    · exact List.forall_mem_nil _
  · intro step hstep target htask
    simpa using hmem step hstep _ htask
  · intro step hstep status htask
    simpa using hmem step hstep _ htask

end Machine

end LineShell
