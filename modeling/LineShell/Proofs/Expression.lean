import LineShell.Interpreter.Line

/-!
# Lines as trees

The links of a chain are the operands of `;`, `&&` and `||`, which are all of equal precedence
and lean to the left. Every operand has a value here, the run it comes to, and so every
operand has a status of its own: that of an operand which is passed over is the status of
what stands to the left of it.

* `Expression`, `Expression.ofChain`: the tree of a chain.
* `Machine.evaluate`: the run that a tree comes to, up to the first request to exit.
* `runChain_of_links`: what is shown of a chain link by link, and `processLine_cases` what is
  shown of a line.
* `evaluate_foldl`: putting further links to the right of a tree is running them after it.
* `runChain_eq_evaluate`: a chain comes to the value of its tree.
-/

namespace LineShell

/-! ## Trees -/

inductive Expression where
  | command (text : Text)
  | sequence (left right : Expression)
  | andThen (left right : Expression)
  | orElse (left right : Expression)
deriving DecidableEq, Repr

namespace Expression

/-- The tree with one more link to the right of it. -/
def extend (left : Expression) (link : Link) : Expression :=
  match link.separator with
  | .first | .sequential => sequence left (command link.text)
  | .and => andThen left (command link.text)
  | .or => orElse left (command link.text)

/-- The tree of a chain leans to the left throughout. -/
def ofChain : List Link → Expression
  | [] => command []
  | link :: later => later.foldl extend (command link.text)

end Expression

/-! ## Values -/

namespace Run

/-- Go on from where a run has ended, if a condition holds and no exit is requested. -/
def thenIf (run : Run) (holds : Bool) (next : Session → Streams → Run) : Run :=
  if run.session.shouldExit || !holds then run
  else (next run.session run.streams).after run.effects

theorem thenIf_of_shouldExit {run : Run} (h : run.session.shouldExit = true) (holds : Bool)
    (next : Session → Streams → Run) : run.thenIf holds next = run := by
  rw [thenIf, h, Bool.true_or, if_pos rfl]

theorem thenIf_false (run : Run) (next : Session → Streams → Run) :
    run.thenIf false next = run := by
  rw [thenIf, Bool.not_false, Bool.or_true, if_pos rfl]

theorem thenIf_true {run : Run} (h : run.session.shouldExit = false)
    (next : Session → Streams → Run) :
    run.thenIf true next = (next run.session run.streams).after run.effects := by
  rw [thenIf, h, Bool.not_true, Bool.or_false, if_neg Bool.false_ne_true]

theorem after_after (run : Run) (earlier later : List Effect) :
    (run.after later).after earlier = run.after (earlier ++ later) := by
  rw [after, after, after, List.append_assoc]

theorem after_thenIf (run : Run) (earlier : List Effect) (holds : Bool)
    (next : Session → Streams → Run) :
    (run.after earlier).thenIf holds next = (run.thenIf holds next).after earlier := by
  by_cases hstop : (run.session.shouldExit || !holds) = true
  · rw [thenIf, if_pos (by exact hstop), thenIf, if_pos hstop]
  · rw [thenIf, if_neg (by exact hstop), thenIf, if_neg hstop, after_after]
    rfl

theorem idle_after {run : Run} (h : run.status = run.session.lastStatus) :
    (idle run.session run.streams).after run.effects = run := by
  rw [idle, after, List.append_nil, ← h]

theorem thenIf_status {run : Run} (h : run.status = run.session.lastStatus) (holds : Bool)
    {next : Session → Streams → Run}
    (hnext : ∀ s io, (next s io).status = (next s io).session.lastStatus) :
    (run.thenIf holds next).status = (run.thenIf holds next).session.lastStatus := by
  unfold thenIf
  split
  · exact h
  · exact hnext _ _

end Run

namespace Machine

/-- The run that a tree comes to. A command without words does nothing. -/
def evaluate (m : Machine) : Expression → Session → Streams → Run
  | .command text, s, io =>
    if words text = [] then .idle s io else (m.execute (words text) s io).recorded
  | .sequence left right, s, io => (m.evaluate left s io).thenIf true (m.evaluate right)
  | .andThen left right, s, io =>
    let run := m.evaluate left s io
    run.thenIf (run.status == 0) (m.evaluate right)
  | .orElse left right, s, io =>
    let run := m.evaluate left s io
    run.thenIf (run.status != 0) (m.evaluate right)

theorem evaluate_command (m : Machine) (link : Link) :
    m.evaluate (.command link.text) = m.runLink link := by
  funext s io
  rw [evaluate, runLink]
  split
  · rename_i hwords
    rw [hwords]
    rfl
  · rfl

theorem evaluate_status (m : Machine) (expression : Expression) (s : Session) (io : Streams) :
    (m.evaluate expression s io).status = (m.evaluate expression s io).session.lastStatus := by
  induction expression generalizing s io with
  | command text =>
    rw [evaluate]
    split
    · rfl
    · rfl
  | sequence left right ihleft ihright => exact Run.thenIf_status (ihleft s io) _ ihright
  | andThen left right ihleft ihright => exact Run.thenIf_status (ihleft s io) _ ihright
  | orElse left right ihleft ihright => exact Run.thenIf_status (ihleft s io) _ ihright

theorem evaluate_extend (m : Machine) (left : Expression) (link : Link) (s : Session)
    (io : Streams) :
    m.evaluate (left.extend link) s io =
      (m.evaluate left s io).thenIf (link.separator.admits (m.evaluate left s io).status)
        (m.runLink link) := by
  rw [← evaluate_command, Expression.extend]
  cases link.separator with
  | first => rfl
  | sequential => rfl
  | and => rfl
  | or => rfl

/-! ## Chains -/

theorem runChain_cons (m : Machine) {link : Link} {s : Session}
    (h : link.separator.admits s.lastStatus = true) (later : List Link) (io : Streams) :
    m.runChain (link :: later) s io = (m.runLink link s io).thenIf true (m.runChain later) := by
  rw [runChain, if_pos h, Run.thenIf, Bool.not_true, Bool.or_false]

theorem runChain_skip (m : Machine) {link : Link} {s : Session}
    (h : link.separator.admits s.lastStatus = false) (later : List Link) (io : Streams) :
    m.runChain (link :: later) s io = m.runChain later s io := by
  rw [runChain, h, if_neg Bool.false_ne_true]

/-- A chain goes on with further links, unless it has ended in a request to exit. -/
theorem runChain_append (m : Machine) {s : Session} (h : s.shouldExit = false)
    (first later : List Link) (io : Streams) :
    m.runChain (first ++ later) s io = (m.runChain first s io).thenIf true (m.runChain later) := by
  induction first generalizing s io with
  | nil =>
    have hidle : (Run.idle s io).session.shouldExit = false := h
    rw [List.nil_append, runChain, Run.thenIf_true hidle]
    rfl
  | cons link first ih =>
    rw [List.cons_append]
    cases hadmits : link.separator.admits s.lastStatus with
    | false => rw [runChain_skip m hadmits, runChain_skip m hadmits, ih h]
    | true =>
      rw [runChain_cons m hadmits, runChain_cons m hadmits]
      cases hexit : (m.runLink link s io).session.shouldExit with
      | true => simp only [Run.thenIf_of_shouldExit hexit]
      | false =>
        rw [Run.thenIf_true hexit, Run.thenIf_true hexit, Run.after_thenIf, ih hexit]

/-- What holds of every link, and of one run after another, holds of the whole chain. -/
theorem runChain_of_links (m : Machine) {P : Session → Streams → Run → Prop} {chain : List Link}
    (hidle : ∀ s io, P s io (.idle s io))
    (hlinks : ∀ link ∈ chain, ∀ s io, P s io (m.runLink link s io))
    (hafter : ∀ s io run rest, P s io run → P run.session run.streams rest →
      P s io (rest.after run.effects)) (s : Session) (io : Streams) :
    P s io (m.runChain chain s io) := by
  induction chain generalizing s io with
  | nil => exact hidle s io
  | cons link later ih =>
    obtain ⟨hlink, hlater⟩ := List.forall_mem_cons.mp hlinks
    cases hadmits : link.separator.admits s.lastStatus with
    | false =>
      rw [runChain_skip m hadmits]
      exact ih hlater s io
    | true =>
      rw [runChain_cons m hadmits]
      cases hexit : (m.runLink link s io).session.shouldExit with
      | true =>
        rw [Run.thenIf_of_shouldExit hexit]
        exact hlink s io
      | false =>
        rw [Run.thenIf_true hexit]
        exact hafter s io _ _ (hlink s io) (ih hlater _ _)

/-- What holds of a line without a chain, whether it is a comment or refused, and of a line with
one, holds of every line. -/
theorem processLine_cases (m : Machine) {P : Run → Prop} {line : Text} {s : Session} {io : Streams}
    (comment : P (.idle s io))
    (refused : ∀ token, P (Run.failed (.unexpectedToken token) s io).recorded.counted)
    (chain : ∀ text, syntaxError? text = none →
      P (m.runChain (splitChain (s.expand text)) s io).counted) : P (m.processLine line s io) := by
  rw [processLine]
  cases stripComment line with
  | none => exact comment
  | some text =>
    dsimp only
    cases herror : syntaxError? text with
    | some error =>
      obtain ⟨op, -, rfl⟩ := Option.map_eq_some_iff.mp herror
      exact refused op.text
    | none => exact chain text herror

theorem evaluate_foldl (m : Machine) (left : Expression) (later : List Link) (s : Session)
    (io : Streams) :
    m.evaluate (later.foldl Expression.extend left) s io =
      (m.evaluate left s io).thenIf true (m.runChain later) := by
  induction later generalizing left with
  | nil =>
    cases hexit : (m.evaluate left s io).session.shouldExit with
    | true => rw [List.foldl_nil, Run.thenIf_of_shouldExit hexit]
    | false =>
      rw [List.foldl_nil, Run.thenIf_true hexit]
      exact (Run.idle_after (m.evaluate_status left s io)).symm
  | cons link later ih =>
    rw [List.foldl_cons, ih, evaluate_extend, m.evaluate_status left s io]
    generalize m.evaluate left s io = run
    cases hexit : run.session.shouldExit with
    | true => simp only [Run.thenIf_of_shouldExit hexit]
    | false =>
      rw [Run.thenIf_true hexit (m.runChain (link :: later))]
      cases hadmits : link.separator.admits run.session.lastStatus with
      | false => rw [Run.thenIf_false, Run.thenIf_true hexit, runChain_skip m hadmits]
      | true =>
        rw [Run.thenIf_true hexit, runChain_cons m hadmits, Run.after_thenIf]

theorem runChain_eq_evaluate (m : Machine) (text : Text) (later : List Link) (s : Session)
    (io : Streams) :
    m.runChain (⟨.first, text⟩ :: later) s io =
      m.evaluate (.ofChain (⟨.first, text⟩ :: later)) s io := by
  have hfirst : m.evaluate (.command text) = m.runLink ⟨.first, text⟩ :=
    m.evaluate_command ⟨.first, text⟩
  rw [Expression.ofChain, evaluate_foldl, hfirst]
  exact runChain_cons m rfl later io

end Machine

end LineShell
