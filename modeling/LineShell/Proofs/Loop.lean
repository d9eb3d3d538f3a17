import LineShell.Interpreter.Loop
import LineShell.Proofs.Lines

/-!
# Loops over inputs

A loop takes one line after another, so what it does can be cut between any two lines.

* `Machine.loop_result`: the status of a loop is the requested one, or else the last one.
* `Machine.loop_append_of_shouldExit`: a loop that has ended in a request to exit is not changed
  by further events.
* `Machine.loop_append_goesOn`: a loop over lines and interrupts, and further events, is a loop
  over the former and, unless that has ended in a request to exit, a loop over the latter.
* `Machine.loop_congr`: lines that are processed alike can stand for each other.
* `Machine.loop_append`: the same cut in a byte input, at the end of a line.
-/

namespace LineShell

namespace LoopRun

theorem after_nil (run : LoopRun) : run.after [] = run := rfl

theorem after_after (run : LoopRun) (earlier later : List Effect) :
    (run.after later).after earlier = run.after (earlier ++ later) := by
  rw [after, after, after, List.append_assoc]

end LoopRun

theorem Session.shouldExit_eq_true_iff {s : Session} :
    s.shouldExit = true ↔ s.exitRequest ≠ none := Option.isSome_iff_ne_none

theorem Session.shouldExit_eq_false_iff {s : Session} :
    s.shouldExit = false ↔ s.exitRequest = none := by
  rw [← Bool.not_eq_true, shouldExit_eq_true_iff, not_not]

/-- The loop takes further events after this one, unless an exit is requested. -/
def Event.GoesOn : Event → Prop
  | line _ => True
  | interrupt => True
  | endOfInput => False
  | failure _ => False

namespace Machine

variable {m : Machine}

/-! ## Turns -/

theorem loop_of_shouldExit {s : Session} (h : s.shouldExit = true) (interrupted : Bool)
    (events : List Event) (io : Streams) :
    m.loop interrupted events s io = .stopped s io interrupted := by
  cases events with
  | nil => rw [loop, h, Bool.and_true]
  | cons event later => cases event <;> rw [loop, if_pos h]

theorem loop_line {s : Session} (h : s.shouldExit = false) (interrupted : Bool) (text : Text)
    (later : List Event) (io : Streams) :
    m.loop interrupted (.line text :: later) s io =
      (m.loop false later (m.processLine text s io).session (m.processLine text s io).streams).after
        (m.processLine text s io).effects := by
  rw [loop, h, if_neg Bool.false_ne_true]

theorem loop_interrupt {s : Session} (h : s.shouldExit = false) (interrupted : Bool)
    (later : List Event) (io : Streams) :
    m.loop interrupted (.interrupt :: later) s io = m.loop false later s io := by
  rw [loop, h, if_neg Bool.false_ne_true]

theorem loop_endOfInput {s : Session} (h : s.shouldExit = false) (interrupted : Bool)
    (later : List Event) (io : Streams) :
    m.loop interrupted (.endOfInput :: later) s io = .stopped s io false := by
  rw [loop, h, if_neg Bool.false_ne_true]

theorem loop_failure {s : Session} (h : s.shouldExit = false) (interrupted : Bool)
    (problem : Text) (later : List Event) (io : Streams) :
    m.loop interrupted (.failure problem :: later) s io =
      ⟨.error problem, s, io, false, []⟩ := by
  rw [loop, h, if_neg Bool.false_ne_true]

/-- The status of a loop that its source has not failed. -/
theorem loop_result (interrupted : Bool) (events : List Event) (s : Session) (io : Streams)
    {status : Status} (h : (m.loop interrupted events s io).result = .ok status) :
    status = (m.loop interrupted events s io).session.exitStatus := by
  induction events generalizing interrupted s io with
  | nil =>
    cases h
    rfl
  | cons event later ih =>
    cases hexit : s.shouldExit with
    | true =>
      rw [loop_of_shouldExit hexit] at h ⊢
      cases h
      rfl
    | false =>
      cases event with
      | line text =>
        rw [loop_line hexit] at h ⊢
        exact ih false _ _ h
      | interrupt =>
        rw [loop_interrupt hexit] at h ⊢
        exact ih false s io h
      | endOfInput =>
        rw [loop_endOfInput hexit] at h ⊢
        cases h
        rfl
      | failure problem =>
        rw [loop_failure hexit] at h
        cases h

/-- The flag is cleared at the beginning of a turn, so only a loop without a turn sees it. -/
theorem loop_interrupted {s : Session} (h : s.shouldExit = false) (interrupted : Bool)
    (events : List Event) (io : Streams) :
    m.loop interrupted events s io = m.loop false events s io := by
  cases events with
  | nil => rw [loop, loop, h, Bool.and_false, Bool.and_false]
  | cons event later =>
    have hrun : ¬ s.shouldExit = true := Bool.eq_false_iff.mp h
    cases event <;> rw [loop, loop, if_neg hrun, if_neg hrun]

/-! ## One list of events after another -/

/-- Go on with further events from where a loop has ended, unless it has ended for good. -/
def resume (m : Machine) (run : LoopRun) (later : List Event) : LoopRun :=
  if run.session.shouldExit then run
  else (m.loop run.interrupted later run.session run.streams).after run.effects

theorem resume_of_shouldExit {run : LoopRun} (h : run.session.shouldExit = true)
    (later : List Event) : m.resume run later = run := by
  rw [resume, if_pos h]

theorem resume_of_running {run : LoopRun} (h : run.session.shouldExit = false)
    (later : List Event) :
    m.resume run later =
      (m.loop run.interrupted later run.session run.streams).after run.effects := by
  rw [resume, h, if_neg Bool.false_ne_true]

theorem resume_after (run : LoopRun) (earlier : List Effect) (later : List Event) :
    m.resume (run.after earlier) later = (m.resume run later).after earlier := by
  cases h : run.session.shouldExit with
  | true =>
    have hafter : (run.after earlier).session.shouldExit = true := h
    rw [resume_of_shouldExit hafter, resume_of_shouldExit h]
  | false =>
    have hafter : (run.after earlier).session.shouldExit = false := h
    rw [resume_of_running hafter, resume_of_running h, LoopRun.after_after]
    rfl

theorem resume_stopped (s : Session) (io : Streams) (interrupted : Bool) (later : List Event) :
    m.resume (.stopped s io interrupted) later = m.loop interrupted later s io := by
  cases h : s.shouldExit with
  | true =>
    have hstopped : (LoopRun.stopped s io interrupted).session.shouldExit = true := h
    rw [resume_of_shouldExit hstopped, loop_of_shouldExit h]
  | false =>
    have hstopped : (LoopRun.stopped s io interrupted).session.shouldExit = false := h
    rw [resume_of_running hstopped]
    exact LoopRun.after_nil _

/-- A loop that has ended in a request to exit takes no further events. -/
theorem loop_append_of_shouldExit {interrupted : Bool} {events : List Event} {s : Session}
    {io : Streams} (h : (m.loop interrupted events s io).session.shouldExit = true)
    (later : List Event) :
    m.loop interrupted (events ++ later) s io = m.loop interrupted events s io := by
  induction events generalizing interrupted s io with
  | nil =>
    have hexit : s.shouldExit = true := h
    rw [loop_of_shouldExit hexit, loop_of_shouldExit hexit]
  | cons event events ih =>
    rw [List.cons_append]
    cases hexit : s.shouldExit with
    | true => rw [loop_of_shouldExit hexit, loop_of_shouldExit hexit]
    | false =>
      cases event with
      | line text =>
        rw [loop_line hexit] at h
        rw [loop_line hexit, loop_line hexit, ih h]
      | interrupt =>
        rw [loop_interrupt hexit] at h
        rw [loop_interrupt hexit, loop_interrupt hexit, ih h]
      | endOfInput => rw [loop_endOfInput hexit, loop_endOfInput hexit]
      | failure problem => rw [loop_failure hexit, loop_failure hexit]

theorem loop_append_goesOn (interrupted : Bool) {events : List Event}
    (h : ∀ event ∈ events, event.GoesOn) (later : List Event) (s : Session) (io : Streams) :
    m.loop interrupted (events ++ later) s io =
      m.resume (m.loop interrupted events s io) later := by
  induction events generalizing interrupted s io with
  | nil =>
    rw [List.nil_append, loop, resume_stopped]
    cases hexit : s.shouldExit with
    | true => rw [Bool.and_true]
    | false => rw [Bool.and_false, loop_interrupted hexit]
  | cons event events ih =>
    obtain ⟨hevent, hevents⟩ := List.forall_mem_cons.mp h
    rw [List.cons_append]
    cases hexit : s.shouldExit with
    | true =>
      rw [loop_of_shouldExit hexit, loop_of_shouldExit hexit, resume_stopped,
        loop_of_shouldExit hexit]
    | false =>
      cases event with
      | line text => rw [loop_line hexit, loop_line hexit, ih false hevents, resume_after]
      | interrupt => rw [loop_interrupt hexit, loop_interrupt hexit, ih false hevents]
      | endOfInput => exact hevent.elim
      | failure problem => exact hevent.elim

theorem loop_append_lines (interrupted : Bool) (lines : List Text) (later : List Event)
    (s : Session) (io : Streams) :
    m.loop interrupted (lines.map .line ++ later) s io =
      m.resume (m.loop interrupted (lines.map .line) s io) later := by
  refine loop_append_goesOn interrupted ?_ later s io
  intro event hevent
  obtain ⟨text, -, rfl⟩ := List.mem_map.mp hevent
  exact trivial

theorem loop_congr {lines others : List Text}
    (h : List.Forall₂ (fun a b => ∀ s io, m.processLine a s io = m.processLine b s io) lines others)
    (interrupted : Bool) (s : Session) (io : Streams) :
    m.loop interrupted (lines.map .line) s io = m.loop interrupted (others.map .line) s io := by
  induction h generalizing interrupted s io with
  | nil => rfl
  | @cons line other lines others hline _ ih =>
    rw [List.map_cons, List.map_cons]
    cases hexit : s.shouldExit with
    | true => rw [loop_of_shouldExit hexit, loop_of_shouldExit hexit]
    | false => rw [loop_line hexit, loop_line hexit, hline s io, ih]

/-! ## One input after another -/

theorem inputEvents_append {x : Bytes} (hx : EndsLine 0x0A x) (y : Bytes) :
    inputEvents (x ++ y) = (readLines x).map .line ++ inputEvents y := by
  rw [inputEvents, readLines, cutLines_append hx, List.map_append, List.map_append]
  rfl

/-- **A loop can be cut at the end of a line.** If the input up to there leads to a request to
exit, the rest of it has no effect. Otherwise the loop over the rest goes on from the session and
the streams that the first part left, with its effects behind those of the first part and its
own result. -/
theorem loop_append (m : Machine) {x : Bytes} (hx : EndsLine 0x0A x) (y : Bytes)
    (interrupted : Bool) (s : Session) (io : Streams) :
    let first := m.loop interrupted (inputEvents x) s io
    let whole := m.loop interrupted (inputEvents (x ++ y)) s io
    (first.session.exitRequest = none →
      whole = (m.loop first.interrupted (inputEvents y) first.session first.streams).after
        first.effects) ∧
    (first.session.exitRequest ≠ none → whole = first) := by
  intro first whole
  have hwhole : whole = m.resume first (inputEvents y) := by
    show m.loop interrupted (inputEvents (x ++ y)) s io = _
    rw [inputEvents_append hx, loop_append_lines]
    rfl
  constructor
  · intro hnone
    have hexit : first.session.shouldExit = false := by rw [Session.shouldExit, hnone]; rfl
    rw [hwhole, resume_of_running hexit]
  · intro hsome
    have hexit : first.session.shouldExit = true := Option.isSome_iff_ne_none.mpr hsome
    rw [hwhole, resume_of_shouldExit hexit]

/-- A carriage return, a comment and a byte that is no text before the first cut, and a request to
exit before the second. -/
theorem loop_append_exit :
    let m : Machine := { registry := Registry.builtins.addProbes [⟨"a".toList, 1, none⟩] }
    let s : Session := { processId := "7".toList, programName := "sh".toList }
    let x : Bytes := Utf8.encode "setenv A b\r\n# c\na $A".toList ++ [0xFF, 0x0A]
    let y : Bytes := Utf8.encode "a && a; exit\n".toList
    let z : Bytes := Utf8.encode "a z".toList
    let first := m.loop true (inputEvents x) s {}
    let second := m.loop first.interrupted (inputEvents y) first.session first.streams
    let whole := m.loop true (inputEvents (x ++ y ++ z)) s {}
    first.session.exitRequest = none ∧ second.session.exitRequest = some 1 ∧
      whole = second.after first.effects ∧
      output whole.effects = Utf8.encode "a <b\uFFFD>\na\n".toList := by
  intro m s x y z first second whole
  have hx : EndsLine 0x0A x := by decide +kernel
  have hxy : EndsLine 0x0A (x ++ y) := by decide +kernel
  have hnone : first.session.exitRequest = none := by decide +kernel
  have hexit : second.session.exitRequest = some 1 := by decide +kernel
  have hfirst : m.loop true (inputEvents (x ++ y)) s {} = second.after first.effects :=
    (m.loop_append hx y true s {}).1 hnone
  have hsome : (m.loop true (inputEvents (x ++ y)) s {}).session.exitRequest ≠ none := by
    rw [hfirst]
    exact fun h => Option.some_ne_none _ (hexit.symm.trans h)
  have hwhole : whole = m.loop true (inputEvents (x ++ y)) s {} :=
    (m.loop_append hxy z true s {}).2 hsome
  exact ⟨hnone, hexit, hwhole.trans hfirst, by decide +kernel⟩

end Machine

end LineShell
