import LineShell.Interpreter.Trace

/-!
# Traces and effects

To log an event changes nothing. A trace without its events is the list of effects of the run, so
what is printed does not depend on the log, and neither does the error stream if nothing is
written of any event.

* `effectsOf_append`, `Run.effectsOf_acts`: traces are put together like effects.
* `Machine.effectsOf_executeActs`, `effectsOf_chainActs`, `effectsOf_lineActs`,
  `effectsOf_loopActs`: the effects in the traces of the interpreter, from an argument vector to a
  whole loop.
* `errorTrace_of_silent`: the error stream of a run that is logged nowhere.
-/

namespace LineShell

theorem effectsOf_append (a b : List Act) : effectsOf (a ++ b) = effectsOf a ++ effectsOf b :=
  List.filterMap_append

theorem effectsOf_logged (event : LogEvent) (acts : List Act) :
    effectsOf (.logged event :: acts) = effectsOf acts := rfl

theorem effectsOf_effect (effect : Effect) (acts : List Act) :
    effectsOf (.effect effect :: acts) = effect :: effectsOf acts := rfl

theorem Run.effectsOf_acts (run : Run) : effectsOf run.acts = run.effects := by
  rw [acts, effectsOf, List.filterMap_map]
  exact List.filterMap_some

namespace Machine

variable (m : Machine)

theorem effectsOf_programActs (name : Text) (args : List Text) (s : Session) (io : Streams) :
    effectsOf (m.programActs name args s io) = (m.runProgram name args s io).effects := by
  have hrun := Run.effectsOf_acts (m.runProgram name args s io)
  rw [programActs]
  cases hfound : s.findCommand m.tree name with
  | notFound => exact hrun
  | notExecutable path => exact hrun
  | executable path =>
    dsimp only
    rw [effectsOf_logged]
    cases hflush : io.out.flushFailure? with
    | some problem => exact hrun
    | none =>
      dsimp only
      cases hstart : s.start? m.tree path (name :: args) with
      | none =>
        rw [runProgram, hfound]
        dsimp only
        rw [hflush, hstart]
        rfl
      | some started =>
        rw [effectsOf_append, hrun]
        exact List.append_nil _

theorem effectsOf_executeActs (argv : List Text) (s : Session) (io : Streams) :
    effectsOf (m.executeActs argv s io) = (m.execute argv s io).effects := by
  cases argv with
  | nil => rfl
  | cons name args =>
    rw [executeActs, execute]
    cases m.registry.get? name with
    | none => exact m.effectsOf_programActs name args s io
    | some handler => exact Run.effectsOf_acts _

theorem effectsOf_chainActs (chain : List Link) (s : Session) (io : Streams) :
    effectsOf (m.chainActs chain s io) = (m.runChain chain s io).effects := by
  induction chain generalizing s io with
  | nil => rfl
  | cons link rest ih =>
    rw [chainActs, runChain]
    split
    · dsimp only
      rw [effectsOf_append, effectsOf_executeActs]
      split
      · exact List.append_nil _
      · rw [ih]
        rfl
    · rw [effectsOf_logged, ih]

theorem effectsOf_lineActs (line : Text) (s : Session) (io : Streams) :
    effectsOf (m.lineActs line s io) = (m.processLine line s io).effects := by
  rw [lineActs, processLine]
  cases stripComment line with
  | none => rfl
  | some text =>
    dsimp only
    cases syntaxError? text with
    | some error => exact Run.effectsOf_acts _
    | none => exact m.effectsOf_chainActs (splitChain (s.expand text)) s io

theorem effectsOf_turnActs (interrupted : Bool) :
    effectsOf (loopActs.turnActs interrupted) = [] := by
  cases interrupted <;> rfl

/-- The effects in the trace of a loop are those of the loop. -/
theorem effectsOf_loopActs (interrupted : Bool) (events : List Event) (s : Session)
    (io : Streams) :
    effectsOf (m.loopActs interrupted events s io) = (m.loop interrupted events s io).effects := by
  induction events generalizing interrupted s io with
  | nil =>
    rw [loopActs]
    split
    · rfl
    · exact effectsOf_turnActs interrupted
  | cons event rest ih =>
    unfold loopActs loop
    split
    · rfl
    · rw [effectsOf_append, effectsOf_turnActs, List.nil_append]
      cases event with
      | line text =>
        dsimp only
        rw [effectsOf_append, effectsOf_lineActs, ih]
        rfl
      | interrupt => exact ih false s io
      | endOfInput => rfl
      | failure problem => rfl

end Machine

theorem errorTrace_of_silent {subscriber : Subscriber}
    (h : ∀ past event, subscriber past event = []) (past : List LogEvent) (acts : List Act) :
    errorTrace subscriber past acts = errorOutput (effectsOf acts) := by
  induction acts generalizing past with
  | nil => rfl
  | cons act rest ih =>
    cases act with
    | effect effect =>
      rw [errorTrace, effectsOf_effect, ih]
      rfl
    | logged event => rw [errorTrace, h, effectsOf_logged, ih, List.nil_append]

end LineShell
