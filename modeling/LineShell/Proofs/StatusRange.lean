import LineShell.Proofs.Command
import LineShell.Proofs.Invariant
import LineShell.Proofs.Loop

/-!
# The range of statuses

A status fits into a byte. A builtin command ends with 0, 1 or 2, or with the status that
`exit` is asked for. A search and a start fail with 126 and 127, a stream with 1, and a program
ends with a code or with 128 and the number of a signal. So a session that begins in range
stays there, whatever it is used for.

* `Status.InRange`, `Session.InRange`, `Run.InRange`.
* `Builtin.refused_inRange`, `Builtin.Makes.perform_inRange`: the builtin commands.
* `Machine.execute_inRange`, `Machine.keeps_inRange`: argument vectors, and from them lines and
  loops.
* `Uses`: the sessions that argument vectors, lines and loops lead to.
* `statuses_inRange`: what is returned, recorded and requested is in range.
-/

namespace LineShell

/-- A status that a process can end with. -/
def Status.InRange (status : Status) : Prop := 0 ≤ status ∧ status ≤ 255

instance (status : Status) : Decidable status.InRange :=
  inferInstanceAs (Decidable (0 ≤ status ∧ status ≤ 255))

/-- The last status is in range, and so is the status to exit with, if there is one. -/
structure Session.InRange (s : Session) : Prop where
  lastStatus : s.lastStatus.InRange
  exitRequest : ∀ status, s.exitRequest = some status → status.InRange

structure Run.InRange (run : Run) : Prop where
  status : run.status.InRange
  session : run.session.InRange

theorem Ending.status_inRange (ending : Ending) : ending.status.InRange :=
  ⟨ending.status_nonneg, ending.status_le⟩

theorem Session.InRange.record {s : Session} (hs : s.InRange) {status : Status}
    (h : status.InRange) : (s.record status).InRange where
  lastStatus := h
  exitRequest := hs.exitRequest

theorem Session.InRange.exitStatus {s : Session} (hs : s.InRange) : s.exitStatus.InRange := by
  rw [Session.exitStatus]
  cases hexit : s.exitRequest with
  | none => exact hs.lastStatus
  | some status => exact hs.exitRequest status hexit

/-! ## Builtin commands -/

theorem Builtin.exitStatus?_inRange {arg : Text} {status : Status}
    (h : exitStatus? arg = some status) : status.InRange := by
  unfold exitStatus? at h
  split at h
  · rename_i n _
    split at h
    · cases h
      have hlt : n % 256 < 256 := Nat.mod_lt n (by decide)
      exact ⟨Int.natCast_nonneg _, Int.ofNat_le.mpr (Nat.le_of_lt_succ hlt)⟩
    · cases h
  · cases h

theorem Builtin.refused_inRange {builtin : Builtin} {args : List Text} {error : ShellError}
    (h : builtin.task? args = .error error) : error.status.InRange := by
  obtain ⟨problem, status, rfl, hstatus⟩ := usage_of_task? h
  rw [ShellError.status]
  rcases hstatus with rfl | rfl <;> decide

/-- What is printed is printed, or the stream fails. -/
theorem Completion.printing_inRange (texts : List Text) (s : Session) (out : OutStream) :
    (printing texts (.ok 0) s out).status.InRange := by
  have hdone : Status.InRange 0 := by decide
  have hfailed : Status.InRange 1 := by decide
  rw [printing, status]
  dsimp only
  cases hfailure : (out.writeTexts texts).failure with
  | none =>
    rw [Written.check_of_complete hfailure]
    exact hdone
  | some problem =>
    rw [Written.check_of_failure hfailure]
    exact hfailed

theorem Directory.change_inRange (target : Option Text) (tree : FileTree) (s : Session)
    (out : OutStream) : (change target tree s out).status.InRange := by
  have hdone : Status.InRange 0 := by decide
  have hrefused : Status.InRange 2 := by decide
  unfold change
  cases destination s target with
  | none => exact hdone
  | some destination =>
    dsimp only
    cases tree.canonicalDirectory? (s.pathOf destination.path) with
    | none => exact hrefused
    | some path =>
      dsimp only
      split
      · exact Completion.printing_inRange _ _ out
      · exact hdone

theorem Task.showHelp_inRange (topic : Option Text) (tree : FileTree) (s : Session)
    (out : OutStream) : ((showHelp topic).perform tree s out).status.InRange := by
  have hrefused : Status.InRange 1 := by decide
  rw [perform]
  cases topic with
  | none => exact Completion.printing_inRange _ s out
  | some name =>
    rw [helpText?]
    cases Builtin.ofName? name with
    | none => exact hrefused
    | some builtin => exact Completion.printing_inRange _ s out

/-- `exit` without an argument passes the last status on, so the range of that one counts. -/
theorem Builtin.Makes.perform_inRange {builtin : Builtin} {args : List Text} {task : Task}
    (h : builtin.Makes args task) {s : Session} (hs : s.InRange) (tree : FileTree)
    (out : OutStream) : (task.perform tree s out).status.InRange := by
  have hdone : Status.InRange 0 := by decide
  cases h with
  | cd _ => exact Directory.change_inRange _ tree s out
  | env _ => exact Completion.printing_inRange _ s out
  | setenv _ => exact hdone
  | unsetenv _ => exact hdone
  | exitLast => exact hs.lastStatus
  | exitWith hstatus _ => exact exitStatus?_inRange hstatus
  | help _ => exact Task.showHelp_inRange _ tree s out

/-- Only `exit` requests anything, and it requests the status that it ends with. -/
theorem Builtin.Makes.sessionAfter_inRange {builtin : Builtin} {args : List Text} {task : Task}
    (h : builtin.Makes args task) {s : Session} (hs : s.InRange) (tree : FileTree) :
    (task.sessionAfter tree s).InRange := by
  cases h with
  | @cd _ target _ =>
    exact Directory.sessionAfter_cases (P := Session.InRange) hs
      ⟨hs.lastStatus, hs.exitRequest⟩ (fun _ _ _ => ⟨hs.lastStatus, hs.exitRequest⟩) target
  | env _ => exact hs
  | setenv _ => exact ⟨hs.lastStatus, hs.exitRequest⟩
  | unsetenv _ => exact ⟨hs.lastStatus, hs.exitRequest⟩
  | exitLast =>
    refine ⟨hs.lastStatus, ?_⟩
    rintro _ ⟨⟩
    exact hs.lastStatus
  | exitWith hstatus _ =>
    refine ⟨hs.lastStatus, ?_⟩
    rintro _ ⟨⟩
    exact exitStatus?_inRange hstatus
  | help _ => exact hs

/-! ## Argument vectors -/

namespace Machine

theorem runProgram_inRange (m : Machine) (name : Text) (args : List Text) (s : Session)
    (io : Streams) : (m.runProgram name args s io).status.InRange := by
  have hdenied : Status.InRange 126 := by decide
  apply m.runProgram_cases (P := fun run => run.status.InRange)
  case notFound => exact fun _ => (by decide : Status.InRange 127)
  case notExecutable => exact fun _ _ => hdenied
  case stuck => exact fun _ _ _ _ => (by decide : Status.InRange 1)
  case refused => exact fun _ _ _ _ => hdenied
  case started => exact fun _ _ outcome _ _ _ => outcome.ending.status_inRange

theorem execute_inRange {m : Machine} (hm : m.registry = .builtins) (argv : List Text)
    {s : Session} (hs : s.InRange) (io : Streams) : (m.execute argv s io).InRange := by
  have hprobes : m.registry = Registry.builtins.addProbes [] := hm
  cases dispatch hprobes argv with
  | nothing => exact ⟨hs.lastStatus, hs⟩
  | @builtin builtin hget args =>
    rw [execute_registered hget]
    cases htask : builtin.task? args with
    | error error =>
      rw [m.runBuiltin_of_error htask]
      exact ⟨Builtin.refused_inRange htask, hs⟩
    | ok task =>
      have hmakes := Builtin.makes_of_task? htask
      obtain ⟨hsession, hstatus⟩ := m.runBuiltin_of_ok htask s io
      exact ⟨hstatus ▸ hmakes.perform_inRange hs m.tree io.out,
        hsession ▸ hmakes.sessionAfter_inRange hs m.tree⟩
  | probe hprobe _ _ => exact absurd hprobe List.not_mem_nil
  | @program name hget args =>
    rw [execute_unregistered hget]
    exact ⟨m.runProgram_inRange name args s io, (m.runProgram_session name args s io).symm ▸ hs⟩

theorem keeps_inRange {m : Machine} (hm : m.registry = .builtins) : m.Keeps Session.InRange where
  refused _ hs := hs.record (by decide)
  counted _ hs := ⟨hs.lastStatus, hs.exitRequest⟩
  link _ _ _ _ link _ t io ht := by
    have hrun := execute_inRange hm (words link.text) ht io
    exact hrun.session.record hrun.status

end Machine

/-! ## Lines and loops -/

/-- Argument vectors are executed, and lines and loops are run, in any order and number. -/
inductive Uses (machines : Machine → Prop) (s : Session) : Session → Prop
  | start : Uses machines s s
  | execute {m : Machine} {t : Session} (hm : machines m) (h : Uses machines s t)
      (argv : List Text) (io : Streams) : Uses machines s (m.execute argv t io).session
  | run {t u : Session} (h : Uses machines s t) (hrun : Reaches machines t u) : Uses machines s u

theorem Uses.keeps {machines : Machine → Prop} {P : Session → Prop}
    (hexecute : ∀ m, machines m → ∀ argv t io, P t → P (m.execute argv t io).session)
    (hkeeps : ∀ m, machines m → m.Keeps P) {s t : Session} (h : Uses machines s t) (hs : P s) :
    P t := by
  induction h with
  | start => exact hs
  | execute hm _ argv io ih => exact hexecute _ hm argv _ io ih
  | run _ hrun ih => exact hrun.keeps hkeeps ih

namespace Machine

theorem runChain_status (m : Machine) (chain : List Link) (s : Session) (io : Streams) :
    (m.runChain chain s io).status = (m.runChain chain s io).session.lastStatus := by
  refine m.runChain_of_links (P := fun _ _ run => run.status = run.session.lastStatus)
    ?_ ?_ ?_ s io
  · intro s io
    rfl
  · intro link _ s io
    rfl
  · intro s io run rest _ hrest
    exact hrest

/-- The status of a line is the last status of the session that it leaves. -/
theorem processLine_status (m : Machine) (line : Text) (s : Session) (io : Streams) :
    (m.processLine line s io).status = (m.processLine line s io).session.lastStatus := by
  apply m.processLine_cases (P := fun run => run.status = run.session.lastStatus)
  case comment => rfl
  case refused => exact fun _ => rfl
  case chain => exact fun text _ => m.runChain_status (splitChain (s.expand text)) s io

end Machine

/-- **Statuses stay in range.** With the builtin commands alone, what an argument vector, a line
or a loop returns, records and requests is in range if the session is, whatever becomes of what
is written. So a session that is in range stays so, however it is used. -/
theorem statuses_inRange {s : Session} (hs : s.InRange) :
    (∀ m : Machine, m.registry = .builtins → ∀ io,
      (∀ argv, (m.execute argv s io).InRange) ∧
      (∀ line, (m.processLine line s io).InRange) ∧
      ∀ interrupted events,
        (∀ status, (m.loop interrupted events s io).result = .ok status → status.InRange) ∧
        (m.loop interrupted events s io).session.InRange) ∧
    ∀ t, Uses (fun m => m.registry = .builtins) s t → t.InRange := by
  constructor
  · intro m hm io
    refine ⟨fun argv => Machine.execute_inRange hm argv hs io, ?_, ?_⟩
    · intro line
      have hsession := (Machine.keeps_inRange hm).processLine line io hs
      exact ⟨m.processLine_status line s io ▸ hsession.lastStatus, hsession⟩
    · intro interrupted events
      have hsession := (Machine.keeps_inRange hm).loop interrupted events io hs
      refine ⟨?_, hsession⟩
      intro status hresult
      exact Machine.loop_result interrupted events s io hresult ▸ hsession.exitStatus
  · intro t ht
    exact ht.keeps (fun m hm argv _ io hs => (Machine.execute_inRange hm argv hs io).session)
      (fun m hm => Machine.keeps_inRange hm) hs

/-- The last signal there is, passed on by `exit`, on streams that take nothing. -/
theorem statuses_inRange_killed :
    let s : Session := { processId := "7".toList, programName := "sh".toList }
    let killed : Program := fun _ => { ending := .killed { number := 127 } }
    let m : Machine := { tree := ⟨[([Utf8.encode "p".toList], .program 0o755 killed)]⟩ }
    let io : Streams := { out := { room := some 0 }, err := { room := some 0 } }
    let events : List Event := ["env; x", "/p", "exit; x"].map fun line => .line line.toList
    let run := m.loop true events s io
    s.InRange ∧ run.session.InRange ∧ run.session.exitRequest = some 255 ∧
      ∃ status, run.result = .ok status ∧ status.InRange := by
  intro s killed m io events run
  have hs : s.InRange := ⟨by decide, by simp [s]⟩
  obtain ⟨hresult, hsession⟩ := ((statuses_inRange hs).1 m rfl io).2.2 true events
  have hrun : run.session.exitRequest = some 255 ∧ run.result = .ok 255 := by decide +kernel
  exact ⟨hs, hsession, hrun.1, 255, hrun.2, hresult 255 hrun.2⟩

end LineShell
