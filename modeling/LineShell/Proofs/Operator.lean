import LineShell.Line.Operator

/-!
# Reading operators

The check of a line goes from one operator to the next. Which operator stands at a place is a
matter of the text from there on, and whether it is refused is a matter of what stands in front of
it.

* `Operator.read?`: the operator at the start of a text, read greedily.
* `misplacedFrom_cons`, `misplacedFrom_operator`: the check of a text that begins with a character
  that is no mark, or with an operator. `operator_induction` is the induction over these cases.
* `commandAfter`: what the check knows of the text that it has passed.
-/

namespace LineShell

/-! ## Greedy operators -/

namespace Operator

/-- The operator that a text begins with. Two equal marks are one operator. -/
def read? : Text → Option Operator
  | [] => none
  | c :: rest => (Mark.ofChar? c).map (fun mark => ⟨mark, rest.head? == some c⟩)

variable {op : Operator}

theorem read?_eq_some_iff {text : Text} :
    read? text = some op ↔
      ∃ tail, text = op.text ++ tail ∧ (op.doubled = false → tail.head? ≠ some op.mark.char) := by
  obtain ⟨mark, doubled⟩ := op
  constructor
  · intro h
    cases text with
    | nil => cases h
    | cons c rest =>
      obtain ⟨found, hfound, hop⟩ := Option.map_eq_some_iff.mp h
      obtain rfl := Mark.ofChar?_eq_some_iff.mp hfound
      cases hop
      cases hdoubled : rest.head? == some mark.char with
      | true =>
        obtain ⟨tail, rfl⟩ := List.head?_eq_some_iff.mp (beq_iff_eq.mp hdoubled)
        exact ⟨tail, rfl, fun hfalse => by cases hfalse⟩
      | false => exact ⟨rest, rfl, fun _ => by simpa using hdoubled⟩
  · rintro ⟨tail, rfl, hlone⟩
    cases doubled with
    | true => simp [text, read?]
    | false => simpa [text, read?] using hlone rfl

/-- A lone mark is read alone if the rest does not begin with its equal. -/
theorem read?_text_append_iff {tail : Text} :
    read? (op.text ++ tail) = some op ↔ (op.doubled = false → tail.head? ≠ some op.mark.char) := by
  rw [read?_eq_some_iff]
  constructor
  · rintro ⟨found, heq, hlone⟩
    rwa [List.append_cancel_left heq]
  · intro hlone
    exact ⟨tail, rfl, hlone⟩

/-- What does not begin with the mark makes no difference behind the operator. -/
theorem read?_append {tail more : Text} (h : read? (op.text ++ tail) = some op)
    (hmore : more.head? ≠ some op.mark.char) : read? (op.text ++ (tail ++ more)) = some op := by
  rw [read?_text_append_iff] at h ⊢
  intro hdoubled
  cases tail with
  | nil => exact hmore
  | cons c tail => exact h hdoubled

theorem refused?_eq_none_iff {hasCommand : Bool} :
    op.refused? hasCommand = none ↔ hasCommand = true ∧ op.separates = true := by
  rw [refused?]
  split <;> simp_all

theorem refused?_eq_some_iff {hasCommand : Bool} :
    op.refused? hasCommand = some op ↔ op.separates = false ∨ hasCommand = false := by
  rw [refused?]
  cases hasCommand <;> cases op.separates <;> simp

/-- These three are never accepted. -/
theorem separates_eq_false_iff :
    op.separates = false ↔ op.text ∈ [";;".toList, "&".toList, "|".toList] := by
  obtain ⟨mark, doubled⟩ := op
  cases mark <;> cases doubled <;> decide

end Operator

/-! ## Checking -/

theorem misplacedFrom_cons (hasCommand : Bool) (rest : Text) {c : Char}
    (h : Mark.ofChar? c = none) :
    misplacedFrom hasCommand (c :: rest) = misplacedFrom (hasCommand || !isBlank c) rest := by
  cases rest with
  | nil => rw [misplacedFrom, misplacedFrom, h]
  | cons d rest => rw [misplacedFrom, h]

theorem misplacedFrom_operator (hasCommand : Bool) {op : Operator} {tail : Text}
    (h : Operator.read? (op.text ++ tail) = some op) :
    misplacedFrom hasCommand (op.text ++ tail) =
      (op.refused? hasCommand).or (misplacedFrom false tail) := by
  have hlone := Operator.read?_text_append_iff.mp h
  obtain ⟨mark, doubled⟩ := op
  cases doubled with
  | true =>
    rw [Operator.text, if_pos rfl, List.cons_append, List.singleton_append, misplacedFrom,
      Mark.ofChar?_char]
    exact if_pos rfl
  | false =>
    rw [Operator.text, if_neg Bool.false_ne_true, List.singleton_append]
    cases tail with
    | nil => simp only [misplacedFrom, Mark.ofChar?_char, Option.or_none]
    | cons c tail =>
      have hne : mark.char ≠ c := fun hc => hlone rfl (congrArg some hc.symm)
      rw [misplacedFrom, Mark.ofChar?_char]
      exact if_neg hne

/-- A text is empty, begins with an operator, or begins with a character that is no mark. -/
theorem operator_induction {P : Bool → Text → Prop} (nil : ∀ hasCommand, P hasCommand [])
    (plain : ∀ hasCommand c rest, Mark.ofChar? c = none →
      P (hasCommand || !isBlank c) rest → P hasCommand (c :: rest))
    (operator : ∀ hasCommand (op : Operator) tail, Operator.read? (op.text ++ tail) = some op →
      P false tail → P hasCommand (op.text ++ tail))
    (hasCommand : Bool) (text : Text) : P hasCommand text := by
  fun_induction misplacedFrom hasCommand text with
  | case1 hasCommand => exact nil hasCommand
  | case2 hasCommand c hc => exact plain hasCommand c [] hc (nil _)
  | case3 hasCommand c mark hc =>
    obtain rfl := Mark.ofChar?_eq_some_iff.mp hc
    exact operator hasCommand ⟨mark, false⟩ [] (by simp [Operator.text, Operator.read?]) (nil _)
  | case4 hasCommand c d rest hc ih => exact plain hasCommand c (d :: rest) hc ih
  | case5 hasCommand c rest mark hc ih =>
    obtain rfl := Mark.ofChar?_eq_some_iff.mp hc
    exact operator hasCommand ⟨mark, true⟩ rest (by simp [Operator.text, Operator.read?]) ih
  | case6 hasCommand c d rest mark hc hne ih =>
    obtain rfl := Mark.ofChar?_eq_some_iff.mp hc
    refine operator hasCommand ⟨mark, false⟩ (d :: rest) ?_ ih
    simpa [Operator.text, Operator.read?] using Ne.symm hne

/-! ## What has been passed -/

/-- Whether a word stands behind the last mark of a text. If the text has no mark, `hasCommand`
tells of what stands in front of it. -/
def commandAfter (hasCommand : Bool) (text : Text) : Bool :=
  text.foldl (fun hasCommand c => (Mark.ofChar? c).isNone && (hasCommand || !isBlank c)) hasCommand

theorem commandAfter_cons (hasCommand : Bool) (rest : Text) {c : Char}
    (h : Mark.ofChar? c = none) :
    commandAfter hasCommand (c :: rest) = commandAfter (hasCommand || !isBlank c) rest := by
  rw [commandAfter, List.foldl_cons, h, Option.isNone_none, Bool.true_and]
  rfl

theorem commandAfter_cons_mark (hasCommand : Bool) (rest : Text) {c : Char} {mark : Mark}
    (h : Mark.ofChar? c = some mark) :
    commandAfter hasCommand (c :: rest) = commandAfter false rest := by
  rw [commandAfter, List.foldl_cons, h, Option.isNone_some, Bool.false_and]
  rfl

theorem commandAfter_append (hasCommand : Bool) (a b : Text) :
    commandAfter hasCommand (a ++ b) = commandAfter (commandAfter hasCommand a) b :=
  List.foldl_append

theorem commandAfter_operator (hasCommand : Bool) (op : Operator) (tail : Text) :
    commandAfter hasCommand (op.text ++ tail) = commandAfter false tail := by
  obtain ⟨mark, doubled⟩ := op
  have hmark := Mark.ofChar?_char mark
  cases doubled with
  | true =>
    rw [Operator.text, if_pos rfl, List.cons_append, List.singleton_append,
      commandAfter_cons_mark hasCommand _ hmark, commandAfter_cons_mark false _ hmark]
  | false =>
    rw [Operator.text, if_neg Bool.false_ne_true, List.singleton_append,
      commandAfter_cons_mark hasCommand _ hmark]

end LineShell
