import LineShell.Proofs.Frame

/-!
# Output that is cut off

A builtin command prints as its last act, so a stream that is full cuts its output off and turns
its result into a failure, and nothing else comes of it. A run on a stream without a limit and a
run on a stream with room for some bytes are compared here, task by task.

* `Completion.CutTo`: what the second of two completions keeps of the first one.
* `Task.perform_cutTo`, `Builtin.complete_cutTo`: this holds of tasks and of builtin commands.
* `Machine.execute_builtin_cut`: what a limit comes to for an argument vector.
-/

namespace LineShell

/-- The stream, when it takes whatever is written to it. -/
def OutStream.unlimited (out : OutStream) : OutStream := { out with room := none }

/-- The stream, when it has room for so many bytes up to its first failure. -/
def OutStream.limited (out : OutStream) (room : Nat) : OutStream := { out with room := some room }

/-- The first completion is one without a limit, and the second is what room for `k` bytes leaves
of it, on a stream that fails with `problem`. A command that fails without a limit has been misused
and prints nothing. -/
structure Completion.CutTo (k : Nat) (problem : Text) (whole cut : Completion) : Prop where
  session : cut.session = whole.session
  printed : cut.printed = whole.printed.take k
  fits : whole.printed.length ≤ k → cut.result = whole.result
  full : k < whole.printed.length → cut.result = .error (.io problem)
  misused : ∀ error, whole.result = .error error → error.isUsage = true ∧ whole.printed = []

/-! ## Completions -/

namespace Completion

/-- The cut may fall into any of the texts, also between the bytes of a character. -/
theorem printing_cutTo (texts : List Text) (status : Status) (s : Session) (k : Nat)
    (out : OutStream) :
    CutTo k out.problem (printing texts (.ok status) s out.unlimited)
      (printing texts (.ok status) s (out.limited k)) := by
  have hroom : out.unlimited.room = none := rfl
  have hlimit : (out.limited k).room = some k := rfl
  rw [printing, printing, OutStream.writeTexts_of_unlimited hroom, OutStream.writeTexts_eq_write]
  refine ⟨rfl, OutStream.accepted_write_of_limited hlimit _, ?_, ?_, ?_⟩
  · intro hfits
    dsimp only at hfits ⊢
    rw [OutStream.write_of_le hlimit hfits]
    rfl
  · intro hfull
    dsimp only at hfull ⊢
    rw [OutStream.write_of_lt hlimit hfull]
    rfl
  · intro error herror
    cases herror

/-- A command that prints nothing is not cut. -/
theorem silent_cutTo {result : Except ShellError Status}
    (h : ∀ error, result = .error error → error.isUsage = true) (s : Session) (k : Nat)
    (problem : Text) (out out' : OutStream) :
    CutTo k problem (silent result s out) (silent result s out') where
  session := rfl
  printed := List.take_nil.symm
  fits := fun _ => rfl
  full := fun hfull => absurd hfull (Nat.not_lt_zero k)
  misused := fun error herror => ⟨h error herror, rfl⟩

theorem silent_ok_cutTo (status : Status) (s : Session) (k : Nat) (problem : Text)
    (out out' : OutStream) :
    CutTo k problem (silent (.ok status) s out) (silent (.ok status) s out') := by
  refine silent_cutTo ?_ s k problem out out'
  intro error herror
  cases herror

theorem silent_usage_cutTo {error : ShellError} (h : error.isUsage = true) (s : Session) (k : Nat)
    (problem : Text) (out out' : OutStream) :
    CutTo k problem (silent (.error error) s out) (silent (.error error) s out') := by
  refine silent_cutTo ?_ s k problem out out'
  rintro _ ⟨⟩
  exact h

end Completion

/-! ## Builtin commands -/

section

variable (tree : FileTree) (s : Session) (k : Nat) (out : OutStream)

/-- `cd` has moved by the time it prints. -/
theorem Directory.change_cutTo (target : Option Text) :
    (change target tree s out.unlimited).CutTo k out.problem
      (change target tree s (out.limited k)) := by
  rw [change, change]
  cases destination s target with
  | none => exact Completion.silent_ok_cutTo 0 _ k _ _ _
  | some destination =>
    dsimp only
    cases tree.canonicalDirectory? (s.pathOf destination.path) with
    | none => exact Completion.silent_usage_cutTo rfl s k _ _ _
    | some path =>
      dsimp only
      cases destination.announced with
      | true => exact Completion.printing_cutTo _ 0 _ k out
      | false => exact Completion.silent_ok_cutTo 0 _ k _ _ _

theorem Task.perform_cutTo (task : Task) :
    (task.perform tree s out.unlimited).CutTo k out.problem
      (task.perform tree s (out.limited k)) := by
  cases task with
  | changeDirectory target => exact Directory.change_cutTo tree s k out target
  | printVariables => exact Completion.printing_cutTo _ 0 s k out
  | setVariable name value => exact Completion.silent_ok_cutTo 0 _ k _ _ _
  | unsetVariable name => exact Completion.silent_ok_cutTo 0 _ k _ _ _
  | leave status => exact Completion.silent_ok_cutTo _ _ k _ _ _
  | showHelp topic =>
    rw [perform]
    cases htext : helpText? topic with
    | ok text => exact Completion.printing_cutTo _ 0 s k out
    | error error =>
      refine Completion.silent_usage_cutTo ?_ s k _ _ _
      unfold helpText? at htext
      split at htext
      · cases htext
      · split at htext
        · cases htext
        · cases htext
          rfl

theorem Builtin.complete_cutTo (builtin : Builtin) (args : List Text) :
    (builtin.complete args tree s out.unlimited).CutTo k out.problem
      (builtin.complete args tree s (out.limited k)) := by
  rw [complete, complete, handler]
  cases htask : builtin.task? args with
  | ok task => exact Task.perform_cutTo tree s k out task
  | error error =>
    obtain ⟨problem, status, rfl, -⟩ := usage_of_task? htask
    exact Completion.silent_usage_cutTo rfl s k _ _ _

end

/-! ## Argument vectors -/

/-- Nothing but the output stream tells the runs apart. -/
structure Run.SameButOut (run other : Run) : Prop where
  status : run.status = other.status
  session : run.session = other.session
  err : run.streams.err = other.streams.err
  effects : run.effects = other.effects

namespace Machine

variable (m : Machine)

section

variable {builtin : Builtin} {args : List Text} {s : Session} (io : Streams)

theorem runBuiltin_of_result_ok {status : Status}
    (h : (builtin.complete args m.tree s io.out).result = .ok status) :
    (m.runRegistered builtin.handler args s io).status = status ∧
      reports (m.runRegistered builtin.handler args s io).effects = [] := by
  obtain ⟨hstatus, -, -, hreports⟩ := m.runBuiltin_complete builtin args s io
  rw [Completion.status, h] at hstatus
  rw [h] at hreports
  exact ⟨hstatus, hreports⟩

/-- The report is that of the session that the command leaves. -/
theorem runBuiltin_of_result_error {error : ShellError}
    (h : (builtin.complete args m.tree s io.out).result = .error error) :
    (m.runRegistered builtin.handler args s io).status = error.status ∧
      reports (m.runRegistered builtin.handler args s io).effects =
        [(m.runRegistered builtin.handler args s io).session.reportOf error] := by
  obtain ⟨hstatus, hsession, -, hreports⟩ := m.runBuiltin_complete builtin args s io
  rw [Completion.status, h] at hstatus
  rw [h] at hreports
  rw [hsession]
  exact ⟨hstatus, hreports⟩

end

/-- A builtin command that comes to the same on two streams comes to the same run. -/
theorem runBuiltin_sameButOut {builtin : Builtin} {args : List Text} {s : Session}
    {io io' : Streams} (herr : io.err = io'.err)
    (hresult : (builtin.complete args m.tree s io.out).result =
      (builtin.complete args m.tree s io'.out).result)
    (hsession : (builtin.complete args m.tree s io.out).session =
      (builtin.complete args m.tree s io'.out).session)
    (hprinted : (builtin.complete args m.tree s io.out).printed =
      (builtin.complete args m.tree s io'.out).printed) :
    (m.runRegistered builtin.handler args s io).SameButOut
      (m.runRegistered builtin.handler args s io') := by
  rw [Builtin.complete, Builtin.complete] at hresult hsession hprinted
  rw [runRegistered, runRegistered]
  cases hhandler : builtin.handler args with
  | error error =>
    dsimp only
    rw [Run.failed, Run.failed, herr]
    exact ⟨rfl, rfl, rfl, rfl⟩
  | ok command =>
    rw [hhandler] at hresult hsession hprinted
    dsimp only at hresult hsession hprinted ⊢
    rw [hresult, hsession, hprinted]
    cases (command m.tree s io'.out).result with
    | ok status => exact ⟨rfl, rfl, herr, rfl⟩
    | error error =>
      dsimp only
      rw [Run.failed, Run.failed, herr]
      exact ⟨rfl, rfl, rfl, rfl⟩

/-- **A full stream cuts the output of a builtin command off.** What reaches a stream with room
for `k` bytes is the first `k` bytes of what the command prints without a limit, and the session is
left the same. If all of it fits, the status is the same and nothing is reported; if not, the
status is 1 and what the stream failed with is reported, once. A command that does not succeed
without a limit has been misused, and the limit makes no difference to it. -/
theorem execute_builtin_cut {builtin : Builtin}
    (h : m.registry.get? builtin.name = some builtin.handler) (args : List Text) (s : Session)
    (out err : OutStream) (k : Nat) :
    let whole := builtin.complete args m.tree s out.unlimited
    let unlimited := m.execute (builtin.name :: args) s ⟨out.unlimited, err⟩
    let limited := m.execute (builtin.name :: args) s ⟨out.limited k, err⟩
    output unlimited.effects = whole.printed ∧ unlimited.session = whole.session ∧
    (∀ status, whole.result = .ok status →
      output limited.effects = whole.printed.take k ∧
      limited.session = unlimited.session ∧
      (whole.printed.length ≤ k → limited.status = status ∧ reports limited.effects = []) ∧
      (k < whole.printed.length → limited.status = 1 ∧
        reports limited.effects = [limited.session.reportOf (.io out.problem)])) ∧
    ∀ error, whole.result = .error error →
      error.isUsage = true ∧ limited.SameButOut unlimited := by
  intro whole unlimited limited
  have hcut : whole.CutTo k out.problem (builtin.complete args m.tree s (out.limited k)) :=
    builtin.complete_cutTo m.tree s k out args
  have hunlimited : unlimited =
      m.runRegistered builtin.handler args s ⟨out.unlimited, err⟩ := by
    rw [← execute_registered h args]
  have hlimited : limited = m.runRegistered builtin.handler args s ⟨out.limited k, err⟩ := by
    rw [← execute_registered h args]
  obtain ⟨-, hsession, houtput, -⟩ :=
    m.runBuiltin_complete builtin args s ⟨out.unlimited, err⟩
  obtain ⟨-, hsession', houtput', -⟩ :=
    m.runBuiltin_complete builtin args s ⟨out.limited k, err⟩
  rw [hunlimited, hlimited]
  refine ⟨houtput, hsession, ?_, ?_⟩
  · intro status hresult
    refine ⟨houtput'.trans hcut.printed, ?_, ?_, ?_⟩
    · exact hsession'.trans (hcut.session.trans hsession.symm)
    · intro hfits
      exact m.runBuiltin_of_result_ok ⟨out.limited k, err⟩ ((hcut.fits hfits).trans hresult)
    · intro hfull
      exact m.runBuiltin_of_result_error ⟨out.limited k, err⟩ (hcut.full hfull)
  · intro error hresult
    obtain ⟨husage, hnothing⟩ := hcut.misused error hresult
    have hfits : whole.printed.length ≤ k := by
      rw [hnothing]
      exact Nat.zero_le k
    have hprinted := hcut.printed.trans (List.take_of_length_le hfits)
    exact ⟨husage, m.runBuiltin_sameButOut rfl (hcut.fits hfits) hcut.session hprinted⟩

/-- The announcement of `cd -` is cut inside of a character, behind the change of the directory. -/
theorem execute_builtin_cut_announcement :
    let m : Machine := { tree := ⟨[([Utf8.encode "é".toList], .directory)]⟩ }
    let s : Session :=
      { environment := .ofPairs [("OLDPWD".toList, "/é".toList)]
        processId := "7".toList
        programName := "sh".toList }
    let out : OutStream := { problem := "broken pipe".toList, later := [(none, [])] }
    let whole := Builtin.cd.complete ["-".toList] m.tree s out.unlimited
    let run := m.execute ["cd".toList, "-".toList] s ⟨out.limited 2, {}⟩
    m.registry.get? Builtin.cd.name = some Builtin.cd.handler ∧
      whole.result = .ok 0 ∧ whole.printed = [0x2F, 0xC3, 0xA9, 0x0A] ∧
      output run.effects = [0x2F, 0xC3] ∧ run.status = 1 ∧
      run.session.directory = Utf8.encode "/é".toList ∧
      reports run.effects = [⟨"sh".toList, 1, .io "broken pipe".toList⟩] := by
  intro m s out whole run
  have hresult : whole.result = .ok 0 := by decide +kernel
  have hprinted : whole.printed = [0x2F, 0xC3, 0xA9, 0x0A] := by decide +kernel
  have hcd : m.registry.get? Builtin.cd.name = some Builtin.cd.handler := rfl
  obtain ⟨-, -, hok, -⟩ := m.execute_builtin_cut hcd ["-".toList] s out {} 2
  obtain ⟨houtput, -, -, hfull⟩ := hok 0 hresult
  have hlonger : 2 < whole.printed.length := by
    rw [hprinted]
    decide
  obtain ⟨hstatus, hreports⟩ := hfull hlonger
  refine ⟨hcd, hresult, hprinted, ?_, hstatus, by decide +kernel, ?_⟩
  · exact houtput.trans (congrArg (List.take 2) hprinted)
  · exact hreports.trans (by decide +kernel)

end Machine

end LineShell
