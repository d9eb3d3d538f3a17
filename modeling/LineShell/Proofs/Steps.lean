import LineShell.Proofs.Loop
import LineShell.Proofs.ShortCircuit

/-!
# The steps of a run

A step is an argument vector that is executed, with the session and the streams it starts from.
The steps of a chain are those of the links that run, in order. A line has the steps of its
chain, and a loop has those of its lines.

* `Step`, `Machine.runStep`.
* `Machine.chainSteps`, `Machine.lineSteps`, `Machine.loopSteps`.
* `Machine.ShortCircuit.steps_eq`: the steps of a chain are the links that the rule of short
  circuits lists.
* `Machine.runChain_of_getLast?`: a chain leaves what its last step leaves, and its effects are
  those of all steps.
* `Machine.loop_keeps_of_steps`: a property that every step keeps is kept by the loop.
* `Machine.Linked`: each step starts from the session that the one before it left, but for the
  last status and the number of the line. `Machine.lineSteps_linked` and
  `Machine.loopSteps_linked`: the steps of a line and of a loop are such steps.
-/

namespace LineShell

structure Step where
  argv : List Text
  session : Session
  streams : Streams
deriving DecidableEq

namespace Machine

/-- A step is executed, and its status recorded. -/
def runStep (m : Machine) (step : Step) : Run :=
  (m.execute step.argv step.session step.streams).recorded

def chainSteps (m : Machine) : List Link → Session → Streams → List Step
  | [], _, _ => []
  | link :: later, s, io =>
    if link.separator.admits s.lastStatus then
      let run := m.runLink link s io
      ⟨words link.text, s, io⟩ ::
        (if run.session.shouldExit then [] else m.chainSteps later run.session run.streams)
    else
      m.chainSteps later s io

def lineSteps (m : Machine) (line : Text) (s : Session) (io : Streams) : List Step :=
  match stripComment line with
  | none => []
  | some text =>
    match syntaxError? text with
    | some _ => []
    | none => m.chainSteps (splitChain (s.expand text)) s io

def loopSteps (m : Machine) : List Event → Session → Streams → List Step
  | [], _, _ => []
  | event :: later, s, io =>
    if s.shouldExit then []
    else
      match event with
      | .line text =>
        let run := m.processLine text s io
        m.lineSteps text s io ++ m.loopSteps later run.session run.streams
      | .interrupt => m.loopSteps later s io
      | .endOfInput => []
      | .failure _ => []

variable {m : Machine}

/-! ## Chains -/

theorem chainSteps_skip {link : Link} {s : Session}
    (h : link.separator.admits s.lastStatus = false) (later : List Link) (io : Streams) :
    m.chainSteps (link :: later) s io = m.chainSteps later s io := by
  rw [chainSteps, h, if_neg Bool.false_ne_true]

theorem chainSteps_of_shouldExit {link : Link} {s : Session} {io : Streams}
    (h : link.separator.admits s.lastStatus = true)
    (hexit : (m.runLink link s io).session.shouldExit = true) (later : List Link) :
    m.chainSteps (link :: later) s io = [⟨words link.text, s, io⟩] := by
  rw [chainSteps, if_pos h]
  dsimp only
  rw [if_pos hexit]

theorem chainSteps_cons {link : Link} {s : Session} {io : Streams}
    (h : link.separator.admits s.lastStatus = true)
    (hexit : (m.runLink link s io).session.shouldExit = false) (later : List Link) :
    m.chainSteps (link :: later) s io =
      ⟨words link.text, s, io⟩ ::
        m.chainSteps later (m.runLink link s io).session (m.runLink link s io).streams := by
  rw [chainSteps, if_pos h]
  dsimp only
  rw [hexit, if_neg Bool.false_ne_true]

theorem chainSteps_append_of_not_met {skipped : List Link} {s : Session}
    (hfirst : ∀ link ∈ skipped, link.separator ≠ .first)
    (hskipped : ∀ link ∈ skipped, ¬ link.separator.Met s.lastStatus) (later : List Link)
    (io : Streams) : m.chainSteps (skipped ++ later) s io = m.chainSteps later s io := by
  induction skipped with
  | nil => rfl
  | cons link skipped ih =>
    obtain ⟨hlink, hfirst⟩ := List.forall_mem_cons.mp hfirst
    obtain ⟨hmet, hskipped⟩ := List.forall_mem_cons.mp hskipped
    rw [← Separator.admits_iff_met hlink, Bool.not_eq_true] at hmet
    rw [List.cons_append, chainSteps_skip hmet, ih hfirst hskipped]

/-- The links that run by the rule of short circuits are the steps of the chain. -/
theorem ShortCircuit.steps_eq {chain : List Link} {s : Session} {io : Streams}
    {ran : List (Link × Run)} (h : m.ShortCircuit chain s io ran)
    (hhead : ∀ link ∈ chain.head?, link.separator.admits s.lastStatus = true)
    (htail : ∀ link ∈ chain.tail, link.separator ≠ .first) :
    (m.chainSteps chain s io).map (fun step => (step.argv, m.runStep step)) =
      ran.map (fun step => (words step.1.text, step.2)) := by
  induction h with
  | @exit link later s io hexit =>
    rw [chainSteps_of_shouldExit (hhead link rfl) hexit]
    rfl
  | @last link later s io hexit hlater =>
    have hrest :=
      chainSteps_append_of_not_met (m := m) htail hlater [] (m.runLink link s io).streams
    rw [List.append_nil, List.tail_cons] at hrest
    rw [chainSteps_cons (hhead link rfl) hexit, hrest]
    rfl
  | @next link next skipped later s io ran hexit hskipped hnext hrest ih =>
    obtain ⟨hfirst, hlater⟩ := List.forall_mem_append.mp htail
    obtain ⟨hseparator, hlater⟩ := List.forall_mem_cons.mp hlater
    have hadmits : ∀ other ∈ (next :: later).head?,
        other.separator.admits (m.runLink link s io).session.lastStatus = true := by
      rintro other ⟨⟩
      exact (Separator.admits_iff_met hseparator _).mpr hnext
    rw [chainSteps_cons (hhead link rfl) hexit, chainSteps_append_of_not_met hfirst hskipped,
      List.map_cons, ih hadmits hlater, List.map_cons]
    rfl

theorem runChain_of_chainSteps_nil {chain : List Link} {s : Session} {io : Streams}
    (h : m.chainSteps chain s io = []) : m.runChain chain s io = .idle s io := by
  induction chain with
  | nil => rfl
  | cons link later ih =>
    cases hadmits : link.separator.admits s.lastStatus with
    | true =>
      rw [chainSteps, if_pos hadmits] at h
      cases h
    | false =>
      rw [chainSteps_skip hadmits] at h
      rw [runChain_skip m hadmits, ih h]

/-- What a chain comes to: its last step, with the effects of all steps. -/
theorem runChain_of_getLast? {chain : List Link} {s : Session} {io : Streams} {last : Step}
    (h : (m.chainSteps chain s io).getLast? = some last) :
    m.runChain chain s io =
      { m.runStep last with
        effects := (m.chainSteps chain s io).flatMap (fun step => (m.runStep step).effects) } := by
  induction chain generalizing s io with
  | nil => cases h
  | cons link later ih =>
    cases hadmits : link.separator.admits s.lastStatus with
    | false =>
      rw [chainSteps_skip hadmits] at h ⊢
      rw [runChain_skip m hadmits, ih h]
    | true =>
      rw [runChain_cons m hadmits]
      cases hexit : (m.runLink link s io).session.shouldExit with
      | true =>
        rw [chainSteps_of_shouldExit hadmits hexit] at h ⊢
        cases h
        rw [Run.thenIf_of_shouldExit hexit, List.flatMap_singleton]
        rfl
      | false =>
        rw [chainSteps_cons hadmits hexit] at h ⊢
        rw [Run.thenIf_true hexit, List.flatMap_cons]
        -- This step is the last one exactly if all later links are skipped.
        cases hlater : m.chainSteps later (m.runLink link s io).session
            (m.runLink link s io).streams with
        | nil =>
          rw [hlater] at h
          cases h
          rw [runChain_of_chainSteps_nil hlater]
          rfl
        | cons step steps =>
          rw [hlater, List.getLast?_cons_cons] at h
          rw [ih (hlater ▸ h), hlater]
          rfl

theorem runChain_effects (chain : List Link) (s : Session) (io : Streams) :
    (m.runChain chain s io).effects =
      (m.chainSteps chain s io).flatMap (fun step => (m.runStep step).effects) := by
  cases hlast : (m.chainSteps chain s io).getLast? with
  | none =>
    have hnil := List.getLast?_eq_none_iff.mp hlast
    rw [runChain_of_chainSteps_nil hnil, hnil]
    rfl
  | some last => rw [runChain_of_getLast? hlast]

/-! ## Lines and loops -/

/-- Only a line with a chain has steps, and they are those of the chain. -/
theorem lineSteps_cases (m : Machine) {P : List Step → Run → Prop} {line : Text} {s : Session}
    {io : Streams} (comment : P [] (.idle s io))
    (refused : ∀ token, P [] (Run.failed (.unexpectedToken token) s io).recorded.counted)
    (chain : ∀ chain, P (m.chainSteps chain s io) (m.runChain chain s io).counted) :
    P (m.lineSteps line s io) (m.processLine line s io) := by
  rw [lineSteps, processLine]
  cases stripComment line with
  | none => exact comment
  | some text =>
    dsimp only
    cases herror : syntaxError? text with
    | some error =>
      obtain ⟨op, -, rfl⟩ := Option.map_eq_some_iff.mp herror
      exact refused op.text
    | none => exact chain (splitChain (s.expand text))

/-- A line with steps is a line with a chain. -/
theorem exists_chain_of_lineSteps {line : Text} {s : Session} {io : Streams} :
    m.lineSteps line s io ≠ [] →
      ∃ chain, m.lineSteps line s io = m.chainSteps chain s io ∧
        m.processLine line s io = (m.runChain chain s io).counted := by
  apply m.lineSteps_cases (P := fun steps run => steps ≠ [] →
    ∃ chain, steps = m.chainSteps chain s io ∧ run = (m.runChain chain s io).counted)
  case comment => exact fun h => absurd rfl h
  case refused => exact fun _ h => absurd rfl h
  case chain => exact fun chain _ => ⟨chain, rfl, rfl⟩

theorem loopSteps_of_shouldExit {s : Session} (h : s.shouldExit = true) (events : List Event)
    (io : Streams) : m.loopSteps events s io = [] := by
  cases events with
  | nil => rfl
  | cons event later => cases event <;> rw [loopSteps, if_pos h]

theorem loopSteps_line {s : Session} (h : s.shouldExit = false) (text : Text)
    (later : List Event) (io : Streams) :
    m.loopSteps (.line text :: later) s io =
      m.lineSteps text s io ++
        m.loopSteps later (m.processLine text s io).session (m.processLine text s io).streams := by
  rw [loopSteps, h, if_neg Bool.false_ne_true]

theorem loopSteps_interrupt {s : Session} (h : s.shouldExit = false) (later : List Event)
    (io : Streams) : m.loopSteps (.interrupt :: later) s io = m.loopSteps later s io := by
  rw [loopSteps, h, if_neg Bool.false_ne_true]

theorem loopSteps_endOfInput {s : Session} (h : s.shouldExit = false) (later : List Event)
    (io : Streams) : m.loopSteps (.endOfInput :: later) s io = [] := by
  rw [loopSteps, h, if_neg Bool.false_ne_true]

theorem loopSteps_failure {s : Session} (h : s.shouldExit = false) (problem : Text)
    (later : List Event) (io : Streams) :
    m.loopSteps (.failure problem :: later) s io = [] := by
  rw [loopSteps, h, if_neg Bool.false_ne_true]

/-- What holds of a loop that takes no line, and of one that takes a line and then goes on, holds
of every loop. Interrupts make no difference to it. -/
theorem loop_of_lines (m : Machine) {P : Session → Streams → List Step → LoopRun → Prop}
    (stopped : ∀ s io result interrupted, P s io [] ⟨result, s, io, interrupted, []⟩)
    (line : ∀ text s io steps rest,
      P (m.processLine text s io).session (m.processLine text s io).streams steps rest →
      P s io (m.lineSteps text s io ++ steps) (rest.after (m.processLine text s io).effects))
    (interrupted : Bool) (events : List Event) (s : Session) (io : Streams) :
    P s io (m.loopSteps events s io) (m.loop interrupted events s io) := by
  induction events generalizing interrupted s io with
  | nil => exact stopped s io _ _
  | cons event later ih =>
    cases hexit : s.shouldExit with
    | true =>
      rw [loopSteps_of_shouldExit hexit, loop_of_shouldExit hexit]
      exact stopped s io _ interrupted
    | false =>
      cases event with
      | line text =>
        rw [loopSteps_line hexit, loop_line hexit]
        exact line text s io _ _ (ih false _ _)
      | interrupt =>
        rw [loopSteps_interrupt hexit, loop_interrupt hexit]
        exact ih false s io
      | endOfInput =>
        rw [loopSteps_endOfInput hexit, loop_endOfInput hexit]
        exact stopped s io _ false
      | failure problem =>
        rw [loopSteps_failure hexit, loop_failure hexit]
        exact stopped s io _ false

/-! ## Properties that every step keeps -/

section

variable {P : Session → Prop} {s : Session} {io : Streams}

theorem runChain_keeps_of_steps {chain : List Link}
    (hsteps : ∀ step ∈ m.chainSteps chain s io, P step.session → P (m.runStep step).session)
    (hs : P s) : P (m.runChain chain s io).session := by
  induction chain generalizing s io with
  | nil => exact hs
  | cons link later ih =>
    cases hadmits : link.separator.admits s.lastStatus with
    | false =>
      rw [chainSteps_skip hadmits] at hsteps
      rw [runChain_skip m hadmits]
      exact ih hsteps hs
    | true =>
      rw [runChain_cons m hadmits]
      cases hexit : (m.runLink link s io).session.shouldExit with
      | true =>
        rw [chainSteps_of_shouldExit hadmits hexit] at hsteps
        rw [Run.thenIf_of_shouldExit hexit]
        exact hsteps _ List.mem_cons_self hs
      | false =>
        rw [chainSteps_cons hadmits hexit] at hsteps
        obtain ⟨hfirst, hlater⟩ := List.forall_mem_cons.mp hsteps
        rw [Run.thenIf_true hexit]
        exact ih hlater (hfirst hs)

variable (hrecord : ∀ t, P t → P (t.record 2)) (hcount : ∀ t, P t → P t.countLine)

include hrecord hcount

theorem processLine_keeps_of_steps {line : Text}
    (hsteps : ∀ step ∈ m.lineSteps line s io, P step.session → P (m.runStep step).session)
    (hs : P s) : P (m.processLine line s io).session := by
  revert hsteps
  apply m.lineSteps_cases (P := fun steps run =>
    (∀ step ∈ steps, P step.session → P (m.runStep step).session) → P run.session)
  case comment => exact fun _ => hs
  case refused => exact fun _ _ => hcount _ (hrecord s hs)
  case chain => exact fun _ hsteps => hcount _ (runChain_keeps_of_steps hsteps hs)

theorem loop_keeps_of_steps (interrupted : Bool) {events : List Event}
    (hsteps : ∀ step ∈ m.loopSteps events s io, P step.session → P (m.runStep step).session)
    (hs : P s) : P (m.loop interrupted events s io).session := by
  revert hsteps hs
  apply m.loop_of_lines (P := fun s _ steps run =>
    (∀ step ∈ steps, P step.session → P (m.runStep step).session) → P s → P run.session)
  case stopped => exact fun _ _ _ _ _ hs => hs
  case line =>
    intro text s io steps rest ih hsteps hs
    obtain ⟨hline, hlater⟩ := List.forall_mem_append.mp hsteps
    exact ih hlater (processLine_keeps_of_steps hrecord hcount hline hs)

end

end Machine

/-! ## Between the steps -/

/-- The same session, but for the last status and the number of the line. -/
def Session.Like (s t : Session) : Prop :=
  t = { s with lastStatus := t.lastStatus, counter := t.counter }

theorem Session.Like.refl (s : Session) : s.Like s := rfl

theorem Session.Like.trans {s t u : Session} (h : s.Like t) (h' : t.Like u) : s.Like u := by
  rw [Like] at h h' ⊢
  rw [h', h]

theorem Session.like_record (s : Session) (status : Status) : s.Like (s.record status) := rfl

theorem Session.like_countLine (s : Session) : s.Like s.countLine := rfl

/-- The steps are taken one after another, from the first session to the second. -/
inductive Machine.Linked (m : Machine) : Session → List Step → Session → Prop
  | nil {s t : Session} (h : s.Like t) : Linked m s [] t
  | cons {s t : Session} {step : Step} {later : List Step} (h : s.Like step.session)
      (hlater : Linked m (m.runStep step).session later t) : Linked m s (step :: later) t

namespace Machine

variable {m : Machine}

namespace Linked

variable {s t u : Session} {steps later : List Step}

theorem like_left (h : s.Like t) (hsteps : m.Linked t steps u) : m.Linked s steps u := by
  cases hsteps with
  | nil hend => exact .nil (h.trans hend)
  | cons hstart hlater => exact .cons (h.trans hstart) hlater

theorem append (h : m.Linked s steps t) (hlater : m.Linked t later u) :
    m.Linked s (steps ++ later) u := by
  induction h with
  | nil hend => exact hlater.like_left hend
  | cons hstart _ ih => exact .cons hstart (ih hlater)

theorem like_right (h : m.Linked s steps t) (hend : t.Like u) : m.Linked s steps u := by
  rw [← List.append_nil steps]
  exact h.append (.nil hend)

end Linked

theorem chainSteps_linked (chain : List Link) (s : Session) (io : Streams) :
    m.Linked s (m.chainSteps chain s io) (m.runChain chain s io).session := by
  induction chain generalizing s io with
  | nil => exact .nil (Session.Like.refl s)
  | cons link later ih =>
    cases hadmits : link.separator.admits s.lastStatus with
    | false =>
      rw [chainSteps_skip hadmits, runChain_skip m hadmits]
      exact ih s io
    | true =>
      rw [runChain_cons m hadmits]
      cases hexit : (m.runLink link s io).session.shouldExit with
      | true =>
        rw [chainSteps_of_shouldExit hadmits hexit, Run.thenIf_of_shouldExit hexit]
        exact .cons (Session.Like.refl s) (.nil (Session.Like.refl _))
      | false =>
        rw [chainSteps_cons hadmits hexit, Run.thenIf_true hexit]
        exact .cons (Session.Like.refl s) (ih _ _)

theorem lineSteps_linked (line : Text) (s : Session) (io : Streams) :
    m.Linked s (m.lineSteps line s io) (m.processLine line s io).session := by
  apply m.lineSteps_cases (P := fun steps run => m.Linked s steps run.session)
  case comment => exact .nil (Session.Like.refl s)
  case refused => exact fun _ => .nil ((s.like_record 2).trans (Session.like_countLine _))
  case chain =>
    intro chain
    exact (chainSteps_linked chain s io).like_right (Session.like_countLine _)

theorem loopSteps_linked (interrupted : Bool) (events : List Event) (s : Session)
    (io : Streams) :
    m.Linked s (m.loopSteps events s io) (m.loop interrupted events s io).session := by
  apply m.loop_of_lines (P := fun s _ steps run => m.Linked s steps run.session)
  case stopped => exact fun s _ _ _ => .nil (Session.Like.refl s)
  case line => exact fun text s io _ _ ih => (lineSteps_linked text s io).append ih

end Machine

end LineShell
