import LineShell.Interpreter.Execute

/-!
# What commands do to a session

Only a builtin command changes a session, and it changes it in the same way whatever becomes
of its output.

* `Completion.status`: the status that a command ends with.
* `Task.sessionAfter`: the session after a task, with `Directory.sessionAfter` for a change of
  the directory. `Task.perform_session` says that performing a task leaves this session, and
  `Directory.sessionAfter_cases` what a change of the directory comes to.
* `Builtin.Makes`: the arguments that a builtin command takes, with the tasks it makes of them.
  All others are refused by usage (`Builtin.usage_of_task?`).
* `Registry.get?_addProbes`: a name stands for a probe or for the builtin command of that name.
* `Registry.IsDefault`, `Registry.IsStandard`: nothing but builtin commands and probes.
* `Machine.runProgram_cases`: the five ways in which a program that is searched can end.
* `Machine.Dispatch`: what an argument vector stands for, of which there are four kinds.
* `Machine.runBuiltin_of_error`, `Machine.runBuiltin_of_ok`: what comes of a builtin command.
* `Builtin.complete`: the same without a machine around it; `Machine.runBuiltin_complete` says how
  the machine passes it on.
* `Machine.execute_session`: an argument vector leaves a session alone or performs the task
  that its arguments make of a builtin command.
-/

namespace LineShell

/-- A failure has a status too. -/
def Completion.status (done : Completion) : Status :=
  match done.result with
  | .ok status => status
  | .error error => error.status

/-! ## Tasks -/

/-- The session after a change of the directory. -/
def Directory.sessionAfter (target : Option Text) (tree : FileTree) (s : Session) : Session :=
  match destination s target with
  | none => remember s
  | some destination =>
    match tree.canonicalDirectory? (s.pathOf destination.path) with
    | none => s
    | some path => moveTo s path

theorem Directory.change_session (target : Option Text) (tree : FileTree) (s : Session)
    (out : OutStream) : (change target tree s out).session = sessionAfter target tree s := by
  unfold change sessionAfter
  cases destination s target with
  | none => rfl
  | some destination =>
    dsimp only
    cases tree.canonicalDirectory? (s.pathOf destination.path) with
    | none => rfl
    | some path =>
      dsimp only
      split
      · rfl
      · rfl

/-- What holds of a session, after it has remembered its directory, and after it has moved to any
canonical path, holds after a change of the directory. -/
theorem Directory.sessionAfter_cases {P : Session → Prop} {tree : FileTree} {s : Session}
    (hsame : P s) (hremember : P (remember s))
    (hmove : ∀ path canonical, tree.canonicalDirectory? path = some canonical →
      P (moveTo s canonical)) (target : Option Text) : P (sessionAfter target tree s) := by
  unfold sessionAfter
  split
  · exact hremember
  · split
    · exact hsame
    · rename_i canonical hcanonical
      exact hmove _ canonical hcanonical

namespace Task

/-- The session after a task. -/
def sessionAfter (task : Task) (tree : FileTree) (s : Session) : Session :=
  match task with
  | changeDirectory target => Directory.sessionAfter target tree s
  | printVariables => s
  | setVariable name value => { s with environment := s.environment.set name value }
  | unsetVariable name => { s with environment := s.environment.erase name }
  | leave status => { s with exitRequest := some (status.getD s.lastStatus) }
  | showHelp _ => s

theorem perform_session (task : Task) (tree : FileTree) (s : Session) (out : OutStream) :
    (task.perform tree s out).session = task.sessionAfter tree s := by
  cases task with
  | changeDirectory target => exact Directory.change_session target tree s out
  | printVariables => rfl
  | setVariable name value => rfl
  | unsetVariable name => rfl
  | leave status => rfl
  | showHelp topic =>
    rw [perform]
    cases helpText? topic with
    | ok text => rfl
    | error error => rfl

/-- Only `exit` makes a request. -/
theorem exitRequest_sessionAfter {task : Task} (h : ∀ status, task ≠ leave status)
    (tree : FileTree) (s : Session) :
    (task.sessionAfter tree s).exitRequest = s.exitRequest := by
  cases task with
  | changeDirectory target =>
    exact Directory.sessionAfter_cases (P := fun t => t.exitRequest = s.exitRequest) rfl rfl
      (fun _ _ _ => rfl) target
  | printVariables => rfl
  | setVariable name value => rfl
  | unsetVariable name => rfl
  | leave status => exact absurd rfl (h status)
  | showHelp topic => rfl

end Task

/-- The task that a builtin command makes of arguments it takes. -/
inductive Builtin.Makes : Builtin → List Text → Task → Prop
  | cd {args : List Text} {target : Option Text} (h : Directory.target args = .ok target) :
      Makes .cd args (.changeDirectory target)
  | env (args : List Text) : Makes .env args .printVariables
  | setenv {name value : Text} (h : name ≠ [] ∧ '=' ∉ name) :
      Makes .setenv [name, value] (.setVariable name value)
  | unsetenv (name : Text) : Makes .unsetenv [name] (.unsetVariable name)
  | exitLast : Makes .exit [] (.leave none)
  | exitWith {arg : Text} {status : Status} (h : exitStatus? arg = some status)
      (others : List Text) : Makes .exit (arg :: others) (.leave (some status))
  | help (args : List Text) : Makes .help args (.showHelp args.head?)

theorem Builtin.makes_of_task? {builtin : Builtin} {args : List Text} {task : Task}
    (h : builtin.task? args = .ok task) : builtin.Makes args task := by
  unfold task? at h
  split at h
  · cases htarget : Directory.target args with
    | error error => rw [htarget] at h; cases h
    | ok target =>
      rw [htarget] at h
      cases h
      exact .cd htarget
  · cases h
    exact .env _
  · split at h
    · rename_i hname
      cases h
      exact .setenv hname
    · cases h
  · cases h
  · cases h
    exact .unsetenv _
  · cases h
  · cases h
    exact .exitLast
  · split at h
    · rename_i hstatus
      cases h
      exact .exitWith hstatus _
    · cases h
  · cases h
    exact .help _

/-- Arguments are refused by usage, with the status 1 or 2. -/
theorem Builtin.usage_of_task? {builtin : Builtin} {args : List Text} {error : ShellError}
    (h : builtin.task? args = .error error) :
    ∃ problem status, error = .usage builtin.name problem status ∧ (status = 1 ∨ status = 2) := by
  -- The cases are the lines of `task?`, in its order.
  unfold task? at h
  split at h
  · cases htarget : Directory.target args with
    | error refusal =>
      rw [htarget] at h
      cases h
      unfold Directory.target at htarget
      split at htarget
      · cases htarget
      · split at htarget
        · cases htarget
          exact ⟨_, _, rfl, Or.inr rfl⟩
        · cases htarget
    | ok target =>
      rw [htarget] at h
      cases h
  · cases h
  · split at h
    · cases h
    · cases h
      exact ⟨_, _, rfl, Or.inl rfl⟩
  · cases h
    exact ⟨_, _, rfl, Or.inl rfl⟩
  · cases h
  · cases h
    exact ⟨_, _, rfl, Or.inl rfl⟩
  · cases h
  · split at h
    · cases h
    · cases h
      exact ⟨_, _, rfl, Or.inr rfl⟩
  · cases h

/-- Only `setenv` with a name and a value sets a variable. -/
theorem Builtin.task?_eq_setVariable {builtin : Builtin} {args : List Text} {name value : Text}
    (h : builtin.task? args = .ok (.setVariable name value)) :
    builtin = .setenv ∧ args = [name, value] ∧ name ≠ [] ∧ '=' ∉ name := by
  cases makes_of_task? h with
  | setenv hname => exact ⟨rfl, rfl, hname⟩

/-- What comes of a builtin command with arguments. If it refuses them, nothing but the failure. -/
def Builtin.complete (builtin : Builtin) (args : List Text) : Command := fun tree s out =>
  match builtin.handler args with
  | .error error => .silent (.error error) s out
  | .ok command => command tree s out

/-! ## Names -/

namespace Registry

theorem get?_builtins {name : Text} {handler : Handler} (h : builtins.get? name = some handler) :
    ∃ builtin : Builtin, name = builtin.name ∧ handler = builtin.handler := by
  obtain ⟨before, behind, heq, -⟩ := List.lookup_eq_some_iff.mp h
  have hmem : (name, handler) ∈ builtins.entries :=
    heq ▸ List.mem_append_right before List.mem_cons_self
  obtain ⟨builtin, -, hentry⟩ := List.mem_map.mp hmem
  cases hentry
  exact ⟨builtin, rfl, rfl⟩

theorem get?_addProbes {registry : Registry} {probes : List Probe} {name : Text}
    {handler : Handler} (h : (registry.addProbes probes).get? name = some handler) :
    (∃ probe ∈ probes, name = probe.name ∧ handler = probe.handler) ∨
      registry.get? name = some handler := by
  induction probes generalizing registry with
  | nil => exact Or.inr h
  | cons probe probes ih =>
    rcases ih h with ⟨found, hfound, hname, hhandler⟩ | h
    · exact Or.inl ⟨found, List.mem_cons_of_mem probe hfound, hname, hhandler⟩
    · rw [get?_insert] at h
      split at h
      · rename_i hname
        cases h
        exact Or.inl ⟨probe, List.mem_cons_self, hname, rfl⟩
      · exact Or.inr h

/-- All builtin commands, possibly with probes beside or instead of them. -/
def IsDefault (registry : Registry) : Prop :=
  ∃ probes, registry = builtins.addProbes probes

/-- Every registered command is a builtin command or a probe, under whatever name. -/
def IsStandard (registry : Registry) : Prop :=
  ∀ name handler, registry.get? name = some handler →
    (∃ builtin : Builtin, handler = builtin.handler) ∨ ∃ probe : Probe, handler = probe.handler

theorem IsDefault.isStandard {registry : Registry} (h : registry.IsDefault) :
    registry.IsStandard := by
  obtain ⟨probes, rfl⟩ := h
  intro name handler hget
  rcases get?_addProbes hget with ⟨probe, -, -, rfl⟩ | hbuiltin
  · exact Or.inr ⟨probe, rfl⟩
  · obtain ⟨builtin, -, rfl⟩ := get?_builtins hbuiltin
    exact Or.inl ⟨builtin, rfl⟩

end Registry

/-! ## Argument vectors -/

namespace Machine

theorem runRegistered_of_error (m : Machine) {handler : Handler} {args : List Text}
    {error : ShellError} (h : handler args = .error error) (s : Session) (io : Streams) :
    m.runRegistered handler args s io = .failed error s io := by
  rw [runRegistered, h]

theorem runRegistered_of_ok (m : Machine) {handler : Handler} {args : List Text}
    {command : Command} (h : handler args = .ok command) (s : Session) (io : Streams) :
    (m.runRegistered handler args s io).session = (command m.tree s io.out).session ∧
      (m.runRegistered handler args s io).status = (command m.tree s io.out).status := by
  rw [runRegistered, h, Completion.status]
  dsimp only
  cases (command m.tree s io.out).result with
  | ok status => exact ⟨rfl, rfl⟩
  | error error => exact ⟨rfl, rfl⟩

/-- A builtin command refuses its arguments, and the session is as before. -/
theorem runBuiltin_of_error (m : Machine) {builtin : Builtin} {args : List Text}
    {error : ShellError} (h : builtin.task? args = .error error) (s : Session) (io : Streams) :
    m.runRegistered builtin.handler args s io = .failed error s io :=
  m.runRegistered_of_error (by rw [Builtin.handler, h, Except.map]) s io

/-- A builtin command performs the task that it makes of its arguments. -/
theorem runBuiltin_of_ok (m : Machine) {builtin : Builtin} {args : List Text} {task : Task}
    (h : builtin.task? args = .ok task) (s : Session) (io : Streams) :
    (m.runRegistered builtin.handler args s io).session = task.sessionAfter m.tree s ∧
      (m.runRegistered builtin.handler args s io).status =
        (task.perform m.tree s io.out).status := by
  have hhandler : builtin.handler args = .ok task.perform := by
    rw [Builtin.handler, h, Except.map]
  obtain ⟨hsession, hstatus⟩ := m.runRegistered_of_ok hhandler s io
  exact ⟨hsession.trans (task.perform_session m.tree s io.out), hstatus⟩

theorem runBuiltin_complete (m : Machine) (builtin : Builtin) (args : List Text) (s : Session)
    (io : Streams) :
    let done := builtin.complete args m.tree s io.out
    let run := m.runRegistered builtin.handler args s io
    run.status = done.status ∧ run.session = done.session ∧ output run.effects = done.printed ∧
      reports run.effects = match done.result with
        | .ok _ => []
        | .error error => [done.session.reportOf error] := by
  dsimp only
  rw [runRegistered, Builtin.complete, Completion.status]
  cases builtin.handler args with
  | error error => exact ⟨rfl, rfl, rfl, rfl⟩
  | ok command =>
    dsimp only
    have hprinted : (command m.tree s io.out).printed ++ [] = (command m.tree s io.out).printed :=
      List.append_nil _
    cases (command m.tree s io.out).result with
    | ok status => exact ⟨rfl, rfl, hprinted, rfl⟩
    | error error => exact ⟨rfl, rfl, hprinted, rfl⟩

theorem runProbe_session (m : Machine) (probe : Probe) (args : List Text) (s : Session)
    (io : Streams) : (m.runRegistered probe.handler args s io).session = s := by
  cases hhandler : probe.handler args with
  | error error => rw [m.runRegistered_of_error hhandler s io, Run.failed]
  | ok command =>
    rw [(m.runRegistered_of_ok hhandler s io).1]
    unfold Probe.handler at hhandler
    split at hhandler
    · cases hhandler
    · cases hhandler
      rfl
    · cases hhandler
      rfl

/-- What holds of each way in which a program that is searched can end holds of its run. -/
theorem runProgram_cases (m : Machine) {P : Run → Prop} {name : Text} {args : List Text}
    {s : Session} {io : Streams}
    (notFound : s.findCommand m.tree name = .notFound → P (.failed (.commandNotFound name) s io))
    (notExecutable : ∀ path, s.findCommand m.tree name = .notExecutable path →
      P (.failed (.permissionDenied name) s io))
    (stuck : ∀ path problem, s.findCommand m.tree name = .executable path →
      io.out.flushFailure? = some problem → P (.failed (.io problem) s io.flushed))
    (refused : ∀ path, s.findCommand m.tree name = .executable path →
      io.out.flushFailure? = none → s.start? m.tree path (name :: args) = none →
      P ((Run.failed (.permissionDenied name) s io.flushed).after [.flushed]))
    (started : ∀ path launch outcome, s.findCommand m.tree name = .executable path →
      io.out.flushFailure? = none → s.start? m.tree path (name :: args) = some (launch, outcome) →
      P ⟨outcome.ending.status, s, io.flushed, [.flushed, .started launch outcome]⟩) :
    P (m.runProgram name args s io) := by
  rw [runProgram]
  cases hfound : s.findCommand m.tree name with
  | notFound => exact notFound hfound
  | notExecutable path => exact notExecutable path hfound
  | executable path =>
    dsimp only
    cases hflush : io.out.flushFailure? with
    | some problem => exact stuck path problem hfound hflush
    | none =>
      dsimp only
      cases hstart : s.start? m.tree path (name :: args) with
      | none => exact refused path hfound hflush hstart
      | some found => exact started path found.1 found.2 hfound hflush hstart

theorem runProgram_session (m : Machine) (name : Text) (args : List Text) (s : Session)
    (io : Streams) : (m.runProgram name args s io).session = s := by
  apply m.runProgram_cases (P := fun run => run.session = s)
  all_goals
    intros
    rfl

/-- What an argument vector stands for, where these probes are registered. -/
inductive Dispatch (m : Machine) (probes : List Probe) : List Text → Prop
  | nothing : Dispatch m probes []
  | builtin {builtin : Builtin} (h : m.registry.get? builtin.name = some builtin.handler)
      (args : List Text) : Dispatch m probes (builtin.name :: args)
  | probe {probe : Probe} (hprobe : probe ∈ probes)
      (h : m.registry.get? probe.name = some probe.handler) (args : List Text) :
      Dispatch m probes (probe.name :: args)
  | program {name : Text} (h : m.registry.get? name = none) (args : List Text) :
      Dispatch m probes (name :: args)

theorem dispatch {m : Machine} {probes : List Probe}
    (h : m.registry = Registry.builtins.addProbes probes) (argv : List Text) :
    m.Dispatch probes argv := by
  cases argv with
  | nil => exact .nothing
  | cons name args =>
    cases hget : m.registry.get? name with
    | none => exact .program hget args
    | some handler =>
      have hfound : (Registry.builtins.addProbes probes).get? name = some handler := h ▸ hget
      rcases Registry.get?_addProbes hfound with ⟨probe, hprobe, rfl, rfl⟩ | hbuiltin
      · exact .probe hprobe hget args
      · obtain ⟨builtin, rfl, rfl⟩ := Registry.get?_builtins hbuiltin
        exact .builtin hget args

theorem execute_registered {m : Machine} {name : Text} {handler : Handler}
    (h : m.registry.get? name = some handler) (args : List Text) :
    m.execute (name :: args) = m.runRegistered handler args := by
  funext s io
  rw [execute, h]

theorem execute_unregistered {m : Machine} {name : Text} (h : m.registry.get? name = none)
    (args : List Text) : m.execute (name :: args) = m.runProgram name args := by
  funext s io
  rw [execute, h]

theorem execute_session {m : Machine} (h : m.registry.IsDefault) (argv : List Text) (s : Session)
    (io : Streams) :
    (m.execute argv s io).session = s ∨
      ∃ builtin args task, argv = Builtin.name builtin :: args ∧ builtin.task? args = .ok task ∧
        (m.execute argv s io).session = task.sessionAfter m.tree s := by
  obtain ⟨probes, hprobes⟩ := h
  cases dispatch hprobes argv with
  | nothing => exact Or.inl rfl
  | @builtin builtin hget args =>
    rw [execute_registered hget]
    cases htask : builtin.task? args with
    | error error => exact Or.inl (by rw [m.runBuiltin_of_error htask, Run.failed])
    | ok task =>
      exact Or.inr ⟨builtin, args, task, rfl, htask, (m.runBuiltin_of_ok htask s io).1⟩
  | @probe probe _ hget args =>
    rw [execute_registered hget]
    exact Or.inl (m.runProbe_session probe args s io)
  | @program name hget args =>
    rw [execute_unregistered hget]
    exact Or.inl (runProgram_session m name args s io)

end Machine

end LineShell
