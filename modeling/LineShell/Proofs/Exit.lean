import LineShell.Proofs.Command
import LineShell.Proofs.Steps

/-!
# Requests to exit

A request to exit comes from a step that runs the builtin command `exit` with arguments that it
takes, and from nothing else. Such a step is the last one: the request is looked at before the
next link and before the next turn of the loop. The status it asks for is recorded as its own
status, so the two agree when the loop ends.

* `Machine.Exits`: the steps that request an exit.
* `Machine.Exits.exitRequest`, `Machine.exitRequest_runStep`: what a step does to the request.
* `Machine.runChain_of_exits`, `Machine.lineSteps_of_exits`, `Machine.loopSteps_of_exits`:
  nothing comes after such a step in a chain, in a line or in a loop.
* `LoopRun.EndsIn`: a loop has ended in a step.
* `exit_final`: what a request to exit and the lack of one mean for a line and for a source.
-/

namespace LineShell

/-- The step runs the builtin command `exit`, which does not refuse its arguments. -/
def Machine.Exits (m : Machine) (step : Step) : Prop :=
  ∃ args task, step.argv = Builtin.exit.name :: args ∧
    m.registry.get? Builtin.exit.name = some Builtin.exit.handler ∧
    Builtin.exit.task? args = .ok task

/-! ## Steps -/

/-- No other builtin command requests an exit. -/
theorem Builtin.Makes.exitRequest_sessionAfter {builtin : Builtin} {args : List Text}
    {task : Task} (h : builtin.Makes args task) (hne : builtin ≠ .exit) (tree : FileTree)
    (s : Session) : (task.sessionAfter tree s).exitRequest = s.exitRequest := by
  refine Task.exitRequest_sessionAfter ?_ tree s
  rintro status rfl
  cases h with
  | exitLast => exact hne rfl
  | exitWith _ _ => exact hne rfl

namespace Machine

variable {m : Machine}

/-- The step requests the status that it ends with. -/
theorem Exits.exitRequest {step : Step} (h : m.Exits step) :
    (m.runStep step).session.exitRequest = some (m.runStep step).status := by
  obtain ⟨args, task, hargv, hget, htask⟩ := h
  obtain ⟨hsession, hstatus⟩ := m.runBuiltin_of_ok htask step.session step.streams
  rw [runStep, hargv, execute_registered hget]
  change (m.runRegistered _ args step.session step.streams).session.exitRequest =
    some (m.runRegistered _ args step.session step.streams).status
  rw [hsession, hstatus]
  cases Builtin.makes_of_task? htask with
  | exitLast => rfl
  | exitWith _ _ => rfl

theorem Exits.shouldExit {step : Step} (h : m.Exits step) :
    (m.runStep step).session.shouldExit = true := by
  rw [Session.shouldExit, h.exitRequest]
  rfl

theorem exitRequest_runStep (hm : m.registry.IsDefault) {step : Step} (h : ¬ m.Exits step) :
    (m.runStep step).session.exitRequest = step.session.exitRequest := by
  obtain ⟨probes, hprobes⟩ := hm
  obtain ⟨argv, s, io⟩ := step
  change (m.execute argv s io).session.exitRequest = s.exitRequest
  cases dispatch hprobes argv with
  | nothing => rfl
  | @builtin builtin hget args =>
    rw [execute_registered hget]
    cases htask : builtin.task? args with
    | error error => rw [m.runBuiltin_of_error htask, Run.failed]
    | ok task =>
      have hne : builtin ≠ .exit := by
        rintro rfl
        exact h ⟨args, task, rfl, hget, htask⟩
      rw [(m.runBuiltin_of_ok htask s io).1]
      exact (Builtin.makes_of_task? htask).exitRequest_sessionAfter hne m.tree s
  | @probe probe _ hget args => rw [execute_registered hget, m.runProbe_session]
  | @program name hget args => rw [execute_unregistered hget, runProgram_session]

/-! ## Nothing comes after an exit -/

theorem chainSteps_of_exits {chain : List Link} {s : Session} {io : Streams}
    {earlier later : List Step} {step : Step}
    (h : m.chainSteps chain s io = earlier ++ step :: later) (hexits : m.Exits step) :
    later = [] := by
  induction chain generalizing s io earlier with
  | nil => cases earlier <;> cases h
  | cons link rest ih =>
    cases hadmits : link.separator.admits s.lastStatus with
    | false => exact ih ((chainSteps_skip hadmits rest io).symm.trans h)
    | true =>
      cases hexit : (m.runLink link s io).session.shouldExit with
      | true =>
        rw [chainSteps_of_shouldExit hadmits hexit] at h
        cases earlier with
        | nil => exact (List.cons.inj h).2.symm
        | cons first earlier => cases earlier <;> cases h
      | false =>
        rw [chainSteps_cons hadmits hexit] at h
        cases earlier with
        | nil =>
          obtain ⟨rfl, -⟩ := List.cons.inj h
          exact absurd hexits.shouldExit (Bool.eq_false_iff.mp hexit)
        | cons first earlier => exact ih (List.cons.inj h).2

/-- A chain with such a step comes to the step, after the effects of the earlier ones. -/
theorem runChain_of_exits {chain : List Link} {s : Session} {io : Streams}
    {earlier later : List Step} {step : Step}
    (h : m.chainSteps chain s io = earlier ++ step :: later) (hexits : m.Exits step) :
    later = [] ∧ m.runChain chain s io =
      (m.runStep step).after (earlier.flatMap fun step => (m.runStep step).effects) := by
  obtain rfl := chainSteps_of_exits h hexits
  have hlast : (m.chainSteps chain s io).getLast? = some step := by
    rw [h, List.getLast?_concat]
  refine ⟨rfl, ?_⟩
  rw [runChain_of_getLast? hlast, h, List.flatMap_append, List.flatMap_singleton]
  rfl

theorem lineSteps_of_exits {line : Text} {s : Session} {io : Streams}
    {earlier later : List Step} {step : Step}
    (h : m.lineSteps line s io = earlier ++ step :: later) (hexits : m.Exits step) :
    later = [] ∧ (m.processLine line s io).session = (m.runStep step).session.countLine ∧
      (m.processLine line s io).streams = (m.runStep step).streams ∧
      (m.runStep step).effects <:+ (m.processLine line s io).effects := by
  have hne : m.lineSteps line s io ≠ [] := by
    rw [h]
    exact List.append_ne_nil_of_right_ne_nil earlier (List.cons_ne_nil step later)
  obtain ⟨chain, hsteps, hrun⟩ := exists_chain_of_lineSteps hne
  obtain ⟨hnil, hchain⟩ := runChain_of_exits (hsteps ▸ h) hexits
  rw [hrun, hchain]
  exact ⟨hnil, rfl, rfl, List.suffix_append _ _⟩

end Machine

/-- The loop ends when a line ends in this step. -/
structure LoopRun.EndsIn (run : LoopRun) (last : Run) : Prop where
  result : run.result = .ok last.status
  session : run.session = last.session.countLine
  streams : run.streams = last.streams
  /-- Nothing happens after the effects of the step. -/
  effects : last.effects <:+ run.effects

theorem LoopRun.EndsIn.after {run : LoopRun} {last : Run} (h : run.EndsIn last)
    (earlier : List Effect) : (run.after earlier).EndsIn last where
  result := h.result
  session := h.session
  streams := h.streams
  effects := h.effects.trans (List.suffix_append earlier run.effects)

namespace Machine

variable {m : Machine}

theorem loopSteps_of_exits (interrupted : Bool) {events : List Event} {s : Session}
    {io : Streams} {earlier later : List Step} {step : Step}
    (h : m.loopSteps events s io = earlier ++ step :: later) (hexits : m.Exits step) :
    later = [] ∧ (m.loop interrupted events s io).EndsIn (m.runStep step) := by
  induction events generalizing interrupted s io earlier with
  | nil => cases earlier <;> cases h
  | cons event events ih =>
    cases hexit : s.shouldExit with
    | true =>
      rw [loopSteps_of_shouldExit hexit] at h
      cases earlier <;> cases h
    | false =>
      cases event with
      | line text =>
        rw [loopSteps_line hexit] at h
        rw [loop_line hexit]
        rcases List.append_eq_append_iff.mp h with ⟨between, -, hlater⟩ | ⟨between, hline, hlater⟩
        · obtain ⟨hnil, hends⟩ := ih false hlater
          exact ⟨hnil, hends.after _⟩
        cases between with
        | nil =>
          have hfirst : m.loopSteps events _ _ = [] ++ step :: later := hlater.symm
          obtain ⟨hnil, hends⟩ := ih false hfirst
          exact ⟨hnil, hends.after _⟩
        | cons first between =>
          -- The step is one of this line, so the line ends in it and the loop stops there.
          obtain ⟨rfl, rfl⟩ := List.cons.inj hlater
          obtain ⟨rfl, hsession, hstreams, heffects⟩ := lineSteps_of_exits hline hexits
          have hstop : (m.processLine text s io).session.shouldExit = true := by
            rw [hsession]
            exact hexits.shouldExit
          rw [loopSteps_of_shouldExit hstop, loop_of_shouldExit hstop]
          refine ⟨rfl, ?_, hsession, hstreams, ?_⟩
          · change Except.ok (m.processLine text s io).session.exitStatus = _
            rw [hsession, Session.exitStatus]
            change Except.ok ((m.runStep step).session.exitRequest.getD _) = _
            rw [hexits.exitRequest, Option.getD_some]
          · change _ <:+ (m.processLine text s io).effects ++ []
            rw [List.append_nil]
            exact heffects
      | interrupt =>
        rw [loopSteps_interrupt hexit] at h
        rw [loop_interrupt hexit]
        exact ih false h
      | endOfInput =>
        rw [loopSteps_endOfInput hexit] at h
        cases earlier <;> cases h
      | failure problem =>
        rw [loopSteps_failure hexit] at h
        cases earlier <;> cases h

/-! ## A request is final -/

theorem exitRequest_runChain (hm : m.registry.IsDefault) {chain : List Link} {s : Session}
    {io : Streams} (h : ∀ step ∈ m.chainSteps chain s io, ¬ m.Exits step) :
    (m.runChain chain s io).session.exitRequest = s.exitRequest := by
  refine runChain_keeps_of_steps (P := fun t => t.exitRequest = s.exitRequest) ?_ rfl
  intro step hstep hsame
  exact (exitRequest_runStep hm (h step hstep)).trans hsame

theorem exitRequest_loop (hm : m.registry.IsDefault) (interrupted : Bool) {events : List Event}
    {s : Session} {io : Streams} (h : ∀ step ∈ m.loopSteps events s io, ¬ m.Exits step) :
    (m.loop interrupted events s io).session.exitRequest = s.exitRequest := by
  refine loop_keeps_of_steps (P := fun t => t.exitRequest = s.exitRequest) (fun _ ht => ht)
    (fun _ ht => ht) interrupted ?_ rfl
  intro step hstep hsame
  exact (exitRequest_runStep hm (h step hstep)).trans hsame

theorem runChain_append_of_exits {first : List Link} {s : Session} (hs : s.shouldExit = false)
    {io : Streams} {step : Step} (hstep : step ∈ m.chainSteps first s io)
    (hexits : m.Exits step) (later : List Link) :
    m.runChain (first ++ later) s io = m.runChain first s io := by
  obtain ⟨earlier, rest, hsteps⟩ := List.append_of_mem hstep
  have hexit : (m.runChain first s io).session.shouldExit = true := by
    rw [(runChain_of_exits hsteps hexits).2]
    exact hexits.shouldExit
  rw [runChain_append m hs, Run.thenIf_of_shouldExit hexit]

/-- The status that a loop returns is the last status of the session, and the one that is
requested, if any is. -/
theorem loop_consistent (hm : m.registry.IsDefault) {s : Session} (hs : s.exitRequest = none)
    (interrupted : Bool) (events : List Event) (io : Streams) {status : Status}
    (h : (m.loop interrupted events s io).result = .ok status) :
    status = (m.loop interrupted events s io).session.lastStatus ∧
      ((m.loop interrupted events s io).session.exitRequest = none ∨
        (m.loop interrupted events s io).session.exitRequest = some status) := by
  by_cases hexits : ∃ step ∈ m.loopSteps events s io, m.Exits step
  · obtain ⟨step, hstep, hexits⟩ := hexits
    obtain ⟨earlier, later, hsteps⟩ := List.append_of_mem hstep
    have hends := (loopSteps_of_exits interrupted hsteps hexits).2
    rw [hends.result] at h
    cases h
    rw [hends.session]
    exact ⟨rfl, Or.inr hexits.exitRequest⟩
  · have hnone : (m.loop interrupted events s io).session.exitRequest = none :=
      (exitRequest_loop hm interrupted fun step hstep he => hexits ⟨step, hstep, he⟩).trans hs
    have hstatus := loop_result interrupted events s io h
    rw [Session.exitStatus, hnone] at hstatus
    exact ⟨hstatus, Or.inl hnone⟩

/-- **A request to exit is final.** Within a line: if a link among the first ones exits, the
links behind them do nothing; if none does, there is no request and the chain goes on with those
links. Over a source: a step that exits is the last one, the loop ends in it, and no further
event has an effect; if no step exits, there is no request, and after lines and interrupts the
loop goes on. The status that the loop returns is the last one, and the requested one if any. -/
theorem exit_final (hm : m.registry.IsDefault) {s : Session} (hs : s.exitRequest = none)
    (io : Streams) :
    (∀ first later : List Link,
      let run := m.runChain first s io
      ((∃ step ∈ m.chainSteps first s io, m.Exits step) →
        m.runChain (first ++ later) s io = run) ∧
      ((∀ step ∈ m.chainSteps first s io, ¬ m.Exits step) →
        run.session.exitRequest = none ∧
        m.runChain (first ++ later) s io =
          (m.runChain later run.session run.streams).after run.effects)) ∧
    ∀ (interrupted : Bool) (events : List Event),
      let run := m.loop interrupted events s io
      (∀ earlier step later, m.loopSteps events s io = earlier ++ step :: later →
        m.Exits step →
        later = [] ∧ run.EndsIn (m.runStep step) ∧
          (m.runStep step).session.exitRequest = some (m.runStep step).status ∧
          ∀ more, m.loop interrupted (events ++ more) s io = run) ∧
      ((∀ step ∈ m.loopSteps events s io, ¬ m.Exits step) →
        run.session.exitRequest = none ∧
        ((∀ event ∈ events, event.GoesOn) → ∀ more,
          m.loop interrupted (events ++ more) s io =
            (m.loop run.interrupted more run.session run.streams).after run.effects)) ∧
      ∀ status, run.result = .ok status →
        status = run.session.lastStatus ∧
          (run.session.exitRequest = none ∨ run.session.exitRequest = some status) := by
  have hrunning : ∀ t : Session, t.exitRequest = none → t.shouldExit = false := by
    intro t ht
    rw [Session.shouldExit, ht]
    rfl
  constructor
  · intro first later run
    refine ⟨?_, fun hnone => ?_⟩
    · rintro ⟨step, hstep, hexits⟩
      exact runChain_append_of_exits (hrunning s hs) hstep hexits later
    · have hrequest := (exitRequest_runChain hm hnone).trans hs
      refine ⟨hrequest, ?_⟩
      rw [runChain_append m (hrunning s hs), Run.thenIf_true (hrunning _ hrequest)]
  · intro interrupted events run
    refine ⟨?_, fun hnone => ?_, fun status => loop_consistent hm hs interrupted events io⟩
    · intro earlier step later hsteps hexits
      obtain ⟨hnil, hends⟩ := loopSteps_of_exits interrupted hsteps hexits
      refine ⟨hnil, hends, hexits.exitRequest, fun more => loop_append_of_shouldExit ?_ more⟩
      rw [hends.session]
      exact hexits.shouldExit
    · have hrequest := (exitRequest_loop hm interrupted hnone).trans hs
      refine ⟨hrequest, fun hgoes more => ?_⟩
      rw [loop_append_goesOn interrupted hgoes, resume_of_running (hrunning _ hrequest)]

/-- An exit that is refused, one that is skipped, and one that is final. -/
theorem exit_final_after_refusal :
    let m : Machine := { registry := Registry.builtins.addProbes [⟨"a".toList, 1, none⟩] }
    let s : Session := { processId := "7".toList, programName := "sh".toList }
    let events : List Event :=
      [.line "exit x; a && exit 3".toList, .interrupt, .line "a || exit; a".toList,
        .line "a".toList]
    let run := m.loop true events s {}
    m.registry.IsDefault ∧ s.exitRequest = none ∧
      (m.loopSteps events s {}).map Step.argv =
        [["exit".toList, "x".toList], ["a".toList], ["a".toList], ["exit".toList]] ∧
      (∃ step, m.Exits step ∧ run.EndsIn (m.runStep step)) ∧
      run.result = .ok 1 ∧ run.session.exitRequest = some 1 := by
  intro m s events run
  have hm : m.registry.IsDefault := ⟨_, rfl⟩
  have hlast : (m.loopSteps events s {}).getLast?.map Step.argv = some ["exit".toList] := by
    decide +kernel
  obtain ⟨step, hstep, hargv⟩ := Option.map_eq_some_iff.mp hlast
  obtain ⟨earlier, hsteps⟩ := List.getLast?_eq_some_iff.mp hstep
  have hexits : m.Exits step := ⟨[], .leave none, hargv, rfl, rfl⟩
  have hresult : run.result = .ok 1 := by decide +kernel
  obtain ⟨hends, -, hstatus⟩ := (exit_final hm (s := s) rfl {}).2 true events
  have hrequest : run.session.exitRequest = some 1 := by
    rcases (hstatus 1 hresult).2 with h | h
    · exact absurd h (by decide +kernel)
    · exact h
  exact ⟨hm, rfl, by decide +kernel, ⟨step, hexits, (hends earlier step [] hsteps hexits).2.1⟩,
    hresult, hrequest⟩

end Machine

end LineShell
