import LineShell.Proofs.LineNumber

/-!
# The loop as a fold

What a loop comes to is read off its source without taking events one by one: it processes the
lines that the source gives before it ends, up to the first one that leaves a request to exit.

* `sourceLines`, `sourceFailure?`: the lines of a source, and the failure it ends in, if any.
* `Machine.processAll`: lines processed one after another.
* `LoopRun.Takes`: what a loop comes to that takes the first lines of a source, as many as it can.
  `Takes.zero` and `Takes.line` are the loop that takes none and one turn, and
  `Machine.exists_takes` the induction over the source.
* `Machine.loop_lowered`: but for the flag, a loop depends neither on interrupts nor on the flag.
* `Machine.loop_fold`: all of this.
-/

namespace LineShell

/-! ## Sources -/

instance : DecidablePred Event.GoesOn
  | .line _ => isTrue trivial
  | .interrupt => isTrue trivial
  | .endOfInput => isFalse id
  | .failure _ => isFalse id

def Event.failure? : Event → Option Text
  | failure problem => some problem
  | line _ => none
  | interrupt => none
  | endOfInput => none

/-- The lines in front of the first end of input or failure. -/
def sourceLines (events : List Event) : List Text :=
  (events.takeWhile (fun event => event.GoesOn)).filterMap Event.line?

/-- The failure, if it comes in front of the first end of input. -/
def sourceFailure? (events : List Event) : Option Text :=
  (events.find? (fun event => ¬ event.GoesOn)).bind Event.failure?

@[simp] theorem sourceLines_line (text : Text) (later : List Event) :
    sourceLines (.line text :: later) = text :: sourceLines later := rfl

@[simp] theorem sourceLines_interrupt (later : List Event) :
    sourceLines (.interrupt :: later) = sourceLines later := rfl

@[simp] theorem sourceFailure?_line (text : Text) (later : List Event) :
    sourceFailure? (.line text :: later) = sourceFailure? later := rfl

@[simp] theorem sourceFailure?_interrupt (later : List Event) :
    sourceFailure? (.interrupt :: later) = sourceFailure? later := rfl

/-! ## Runs of lines -/

/-- Lines are processed one after another, whether or not an exit is requested. -/
def Machine.processAll (m : Machine) : List Text → Session → Streams → Run
  | [], s, io => .idle s io
  | line :: later, s, io =>
    let run := m.processLine line s io
    (m.processAll later run.session run.streams).after run.effects

/-- The result of a loop that ends in this session, where its source may have failed. -/
def Session.loopResult (s : Session) (failure : Option Text) : Except Text Status :=
  match s.exitRequest, failure with
  | none, some problem => .error problem
  | none, none => .ok s.lastStatus
  | some status, _ => .ok status

theorem Session.loopResult_none (s : Session) : s.loopResult none = .ok s.exitStatus := by
  unfold loopResult exitStatus
  cases s.exitRequest with
  | none => rfl
  | some status => rfl

theorem Session.loopResult_of_shouldExit {s : Session} (h : s.shouldExit = true)
    (failure : Option Text) : s.loopResult failure = .ok s.exitStatus := by
  obtain ⟨status, hstatus⟩ := Option.isSome_iff_exists.mp h
  unfold loopResult exitStatus
  rw [hstatus]
  rfl

theorem Session.loopResult_of_running {s : Session} (h : s.exitRequest = none)
    (problem : Text) : s.loopResult (some problem) = .error problem := by
  unfold loopResult
  rw [h]

/-- What a loop comes to that takes so many of the lines. They are all of them, or else the last
one that is taken is the first to leave a request to exit. -/
structure LoopRun.Takes (run : LoopRun) (m : Machine) (lines : List Text) (failure : Option Text)
    (s : Session) (io : Streams) (count : Nat) : Prop where
  count_le : count ≤ lines.length
  running : ∀ fewer < count,
    (m.processAll (lines.take fewer) s io).session.exitRequest = none
  stopped : count < lines.length →
    (m.processAll (lines.take count) s io).session.exitRequest ≠ none
  session : run.session = (m.processAll (lines.take count) s io).session
  streams : run.streams = (m.processAll (lines.take count) s io).streams
  effects : run.effects = (m.processAll (lines.take count) s io).effects
  result : run.result = (m.processAll (lines.take count) s io).session.loopResult failure

namespace LoopRun.Takes

variable {m : Machine} {lines : List Text} {failure : Option Text} {s : Session} {io : Streams}

theorem zero (h : lines ≠ [] → s.exitRequest ≠ none) (interrupted : Bool) :
    Takes ⟨s.loopResult failure, s, io, interrupted, []⟩ m lines failure s io 0 where
  count_le := Nat.zero_le _
  running fewer hfewer := absurd hfewer (Nat.not_lt_zero fewer)
  stopped hlines := h (List.ne_nil_of_length_pos hlines)
  session := rfl
  streams := rfl
  effects := rfl
  result := rfl

theorem line {text : Text} {run : LoopRun} {count : Nat} (hs : s.exitRequest = none)
    (h : run.Takes m lines failure (m.processLine text s io).session
      (m.processLine text s io).streams count) :
    (run.after (m.processLine text s io).effects).Takes m (text :: lines) failure s io
      (count + 1) where
  count_le := Nat.succ_le_succ h.count_le
  running fewer hfewer := by
    cases fewer with
    | zero => exact hs
    | succ fewer => exact h.running fewer (Nat.lt_of_succ_lt_succ hfewer)
  stopped hlines := h.stopped (Nat.lt_of_succ_lt_succ hlines)
  session := h.session
  streams := h.streams
  effects := congrArg ((m.processLine text s io).effects ++ ·) h.effects
  result := h.result

end LoopRun.Takes

namespace Machine

variable {m : Machine}

theorem exists_takes (interrupted : Bool) (events : List Event) (s : Session) (io : Streams) :
    ∃ count, (m.loop interrupted events s io).Takes m (sourceLines events)
      (sourceFailure? events) s io count := by
  induction events generalizing interrupted s io with
  | nil =>
    refine ⟨0, ?_⟩
    rw [loop, LoopRun.stopped, ← s.loopResult_none]
    exact .zero (fun hlines => absurd rfl hlines) _
  | cons event later ih =>
    cases hexit : s.shouldExit with
    | true =>
      have hrequest : s.exitRequest ≠ none := Session.shouldExit_eq_true_iff.mp hexit
      refine ⟨0, ?_⟩
      rw [loop_of_shouldExit hexit, LoopRun.stopped, ← Session.loopResult_of_shouldExit hexit]
      exact .zero (fun _ => hrequest) _
    | false =>
      have hrequest : s.exitRequest = none := Session.shouldExit_eq_false_iff.mp hexit
      cases event with
      | line text =>
        obtain ⟨count, htakes⟩ :=
          ih false (m.processLine text s io).session (m.processLine text s io).streams
        rw [loop_line hexit, sourceLines_line, sourceFailure?_line]
        exact ⟨count + 1, htakes.line hrequest⟩
      | interrupt =>
        rw [loop_interrupt hexit, sourceLines_interrupt, sourceFailure?_interrupt]
        exact ih false s io
      | endOfInput =>
        refine ⟨0, ?_⟩
        rw [loop_endOfInput hexit, LoopRun.stopped, ← s.loopResult_none]
        exact .zero (fun hlines => absurd rfl hlines) _
      | failure problem =>
        refine ⟨0, ?_⟩
        rw [loop_failure hexit, ← Session.loopResult_of_running hrequest]
        exact .zero (fun hlines => absurd rfl hlines) _

end Machine

/-! ## The flag and the interrupts -/

/-- A run without what it left of the flag. -/
def LoopRun.lowered (run : LoopRun) : LoopRun := { run with interrupted := false }

theorem LoopRun.lowered_after (run : LoopRun) (earlier : List Effect) :
    (run.after earlier).lowered = run.lowered.after earlier := rfl

namespace Machine

variable {m : Machine}

theorem loop_lowered (interrupted flag : Bool) (events : List Event) (s : Session)
    (io : Streams) :
    (m.loop flag events s io).lowered = (m.loop interrupted events s io).lowered := by
  cases hexit : s.shouldExit with
  | true =>
    rw [loop_of_shouldExit hexit, loop_of_shouldExit hexit]
    rfl
  | false => rw [loop_interrupted hexit, ← loop_interrupted hexit interrupted]

theorem loop_filter_lowered (interrupted : Bool) (events : List Event) (s : Session)
    (io : Streams) :
    (m.loop interrupted (events.filter (· ≠ .interrupt)) s io).lowered =
      (m.loop interrupted events s io).lowered := by
  induction events generalizing interrupted s io with
  | nil => rfl
  | cons event later ih =>
    cases hexit : s.shouldExit with
    | true => rw [loop_of_shouldExit hexit, loop_of_shouldExit hexit]
    | false =>
      cases event with
      | line text =>
        rw [List.filter_cons_of_pos rfl, loop_line hexit, loop_line hexit,
          LoopRun.lowered_after, LoopRun.lowered_after, ih]
      | interrupt =>
        have hdropped : (Event.interrupt :: later).filter (· ≠ .interrupt) =
            later.filter (· ≠ .interrupt) := rfl
        rw [hdropped, loop_interrupt hexit, ih]
        exact loop_lowered false interrupted later s io
      | endOfInput => rw [List.filter_cons_of_pos rfl, loop_endOfInput hexit, loop_endOfInput hexit]
      | failure problem => rw [List.filter_cons_of_pos rfl, loop_failure hexit, loop_failure hexit]

/-- The flag is left raised only by a loop without a turn. -/
theorem interrupted_loop (interrupted : Bool) (events : List Event) (s : Session)
    (io : Streams) :
    (m.loop interrupted events s io).interrupted = (interrupted && s.shouldExit) := by
  induction events generalizing interrupted s io with
  | nil => rfl
  | cons event later ih =>
    cases hexit : s.shouldExit with
    | true => rw [loop_of_shouldExit hexit, LoopRun.stopped, Bool.and_true]
    | false =>
      rw [Bool.and_false]
      cases event with
      | line text =>
        rw [loop_line hexit, LoopRun.after, ih, Bool.false_and]
      | interrupt => rw [loop_interrupt hexit, ih, Bool.false_and]
      | endOfInput => rw [loop_endOfInput hexit, LoopRun.stopped]
      | failure problem => rw [loop_failure hexit]

/-- **A loop is a fold over its source.** It processes, in order and each once, the lines in front
of the first end of input or failure, up to the first one that leaves a request to exit, and none
if there is a request already. The result is the requested status, or else the failure that the
source ended in, or else the last status. Interrupts and a raised flag change nothing of this, and
the flag is clear after any turn. -/
theorem loop_fold (m : Machine) (interrupted : Bool) (events : List Event) (s : Session)
    (io : Streams) :
    let run := m.loop interrupted events s io
    (∃ count, run.Takes m (sourceLines events) (sourceFailure? events) s io count) ∧
    (∀ flag, (m.loop flag events s io).lowered = run.lowered ∧
      (m.loop flag (events.filter (· ≠ .interrupt)) s io).lowered = run.lowered) ∧
    (s.exitRequest = none → run.interrupted = false) ∧
    (s.exitRequest ≠ none → run.interrupted = interrupted) := by
  intro run
  have hflag : run.interrupted = (interrupted && s.shouldExit) :=
    interrupted_loop interrupted events s io
  refine ⟨exists_takes interrupted events s io, fun flag => ⟨?_, ?_⟩, fun hnone => ?_,
    fun hsome => ?_⟩
  · exact loop_lowered interrupted flag events s io
  · rw [loop_filter_lowered]
    exact loop_lowered interrupted flag events s io
  · rw [hflag, Session.shouldExit_eq_false_iff.mpr hnone, Bool.and_false]
  · rw [hflag, Session.shouldExit_eq_true_iff.mpr hsome, Bool.and_true]

-- The failure counts where it comes before the request, and not where it comes after it.
example :
    let m : Machine := {}
    let s : Session := { processId := "7".toList, programName := "sh".toList }
    let exit := Event.line "exit 3".toList
    let failure := Event.failure "gone".toList
    (m.loop true [.line [], failure, exit] s {}).result = .error "gone".toList ∧
      (m.loop true [.interrupt, exit, failure, .line []] s {}).result = .ok 3 := by
  decide +kernel

end Machine

end LineShell
