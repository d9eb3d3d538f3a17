import LineShell.Interpreter.Line
import LineShell.Proofs.Chain
import LineShell.Proofs.Operator
import LineShell.Proofs.Word

/-!
# Accepted lines

The check of a line reads its operators on its own and never cuts it. What it accepts is
nevertheless a matter of the chain that the line is cut into.

* `WellFormed`: a chain whose links hold no marks, and a word each unless they are last.
* `misplacedFrom_eq_none_iff`: nothing is out of place in a line if and only if its chain is
  well formed. The check and the cut take an operator at the same time, so the proof follows
  the recursion of the check.
* `syntaxError?_append_semicolon`: accepted lines with a `;` between them are accepted.
* `syntaxError?_eq_none_iff`: the check of a whole line, in terms of its links and words.
-/

namespace LineShell

/-- Every link is free of marks, and every link but the last holds a word. `hasCommand` says
that a word stands in front of the first link already. -/
def WellFormed (hasCommand : Bool) : List Link → Prop
  | [] => True
  | link :: later =>
    (later ≠ [] → hasCommand = true ∨ words link.text ≠ []) ∧ Unmarked link.text ∧
      WellFormed false later

theorem wellFormed_iff {chain : List Link} :
    WellFormed false chain ↔
      (∀ link ∈ chain.dropLast, words link.text ≠ []) ∧ ∀ link ∈ chain, Unmarked link.text := by
  induction chain with
  | nil => simp [WellFormed]
  | cons link later ih =>
    rw [WellFormed, ih]
    cases later with
    | nil => simp
    | cons next later =>
      constructor
      · rintro ⟨hword, hmark, hwords, hmarks⟩
        refine ⟨List.forall_mem_cons.mpr ⟨?_, hwords⟩, List.forall_mem_cons.mpr ⟨hmark, hmarks⟩⟩
        rcases hword (List.cons_ne_nil next later) with h | h
        · cases h
        · exact h
      · rintro ⟨hwords, hmarks⟩
        obtain ⟨hword, hwords⟩ := List.forall_mem_cons.mp hwords
        obtain ⟨hmark, hmarks⟩ := List.forall_mem_cons.mp hmarks
        exact ⟨fun _ => Or.inr hword, hmark, hwords, hmarks⟩

theorem wellFormed_cons_splitAfter (hasCommand : Bool) (separator next : Separator) (rest : Text) :
    WellFormed hasCommand (⟨separator, []⟩ :: splitAfter next rest) ↔
      hasCommand = true ∧ WellFormed false (splitAfter next rest) := by
  obtain ⟨text, later, heq, -⟩ := splitAfter_eq_cons next rest
  rw [WellFormed, heq, words_nil]
  simp

theorem wellFormed_prependChar (hasCommand : Bool) (link : Link) (later : List Link) {c : Char}
    (h : Mark.ofChar? c = none) :
    WellFormed hasCommand (prependChar c (link :: later)) ↔
      WellFormed (hasCommand || !isBlank c) (link :: later) := by
  rw [prependChar, WellFormed, WellFormed, unmarked_cons]
  cases hblank : isBlank c with
  | true => simp [h, words_cons_blank link.text hblank]
  | false => simp [h, words_cons_ne_nil link.text hblank]

theorem not_wellFormed_prependChar (hasCommand : Bool) (link : Link) (later : List Link) {c : Char}
    {mark : Mark} (h : Mark.ofChar? c = some mark) :
    ¬ WellFormed hasCommand (prependChar c (link :: later)) := by
  rintro ⟨-, hmark, -⟩
  rw [(unmarked_cons.mp hmark).1] at h
  cases h

theorem Operator.exists_separator {op : Operator} (h : op.separates = true) :
    ∃ next : Separator, next ≠ .first ∧ op.text = next.text := by
  obtain ⟨mark, doubled⟩ := op
  cases mark with
  | semicolon =>
    cases doubled with
    | true => cases h
    | false => exact ⟨.sequential, by decide, rfl⟩
  | ampersand =>
    cases doubled with
    | true => exact ⟨.and, by decide, rfl⟩
    | false => cases h
  | bar =>
    cases doubled with
    | true => exact ⟨.or, by decide, rfl⟩
    | false => cases h

/-- A lone `&` or `|` is never accepted, and it is never cut at. -/
theorem not_wellFormed_lone (hasCommand : Bool) (separator : Separator) {mark : Mark}
    {rest : Text} (hmark : mark.char ≠ ';') (hrest : rest.head? ≠ some mark.char) :
    ¬ WellFormed hasCommand (splitAfter separator (mark.char :: rest)) := by
  obtain ⟨text, later, heq, -⟩ := splitAfter_eq_cons separator rest
  have hliteral : Literal mark.char rest :=
    ⟨hmark, fun hc => hc ▸ hrest, fun hc => hc ▸ hrest⟩
  rw [splitAfter_literal separator hliteral, heq]
  exact not_wellFormed_prependChar hasCommand _ later (Mark.ofChar?_char mark)

/-- `;;` is cut twice, and nothing stands between the two cuts. -/
theorem not_wellFormed_doubled (hasCommand : Bool) (separator : Separator) (rest : Text) :
    ¬ WellFormed hasCommand (splitAfter separator (';' :: ';' :: rest)) := by
  intro h
  have hsecond := ((wellFormed_cons_splitAfter _ _ .sequential (';' :: rest)).mp h).2
  cases ((wellFormed_cons_splitAfter _ _ .sequential rest).mp hsecond).1

/-- An operator that separates nothing is not cut off, or cut in two. -/
theorem not_wellFormed_operator (hasCommand : Bool) (separator : Separator) {op : Operator}
    {tail : Text} (hop : op.separates = false) (hread : Operator.read? (op.text ++ tail) = some op) :
    ¬ WellFormed hasCommand (splitAfter separator (op.text ++ tail)) := by
  have hlone := Operator.read?_text_append_iff.mp hread
  obtain ⟨mark, doubled⟩ := op
  cases doubled with
  | true =>
    cases mark with
    | semicolon => exact not_wellFormed_doubled hasCommand separator tail
    | ampersand | bar => cases hop
  | false =>
    cases mark with
    | semicolon => cases hop
    | ampersand | bar => exact not_wellFormed_lone hasCommand separator (by decide) (hlone rfl)

theorem misplacedFrom_eq_none_iff (hasCommand : Bool) (separator : Separator) (line : Text) :
    misplacedFrom hasCommand line = none ↔ WellFormed hasCommand (splitAfter separator line) := by
  induction hasCommand, line using operator_induction generalizing separator with
  | nil hasCommand => simp [misplacedFrom, splitAfter, WellFormed]
  | plain hasCommand c rest hc ih =>
    obtain ⟨text, later, heq, -⟩ := splitAfter_eq_cons separator rest
    rw [misplacedFrom_cons hasCommand rest hc, ih separator, splitAfter_cons separator rest hc, heq,
      wellFormed_prependChar _ _ _ hc]
  | operator hasCommand op tail hread ih =>
    rw [misplacedFrom_operator hasCommand hread]
    cases hop : op.separates with
    | true =>
      obtain ⟨next, hnext, htext⟩ := Operator.exists_separator hop
      -- What stands before the operator is cut off by it.
      rw [Option.or_eq_none_iff, Operator.refused?_eq_none_iff, and_iff_left hop, ih next, htext,
        splitAfter_separator separator hnext, wellFormed_cons_splitAfter]
    | false =>
      refine iff_of_false ?_ (not_wellFormed_operator hasCommand separator hop hread)
      rw [Operator.refused?_eq_some_iff.mpr (Or.inl hop), Option.some_or]
      exact Option.some_ne_none op

theorem wellFormed_splitChain {line : Text} :
    syntaxError? line = none ↔ WellFormed false (splitChain line) := by
  rw [syntaxError?, Option.map_eq_none_iff]
  exact misplacedFrom_eq_none_iff false .first line

/-- A chain whose last link has a word can be followed by another one. -/
theorem WellFormed.append {first later : List Link} (hfirst : WellFormed false first)
    {last : Link} (hlast : first.getLast? = some last) (hwords : words last.text ≠ [])
    (hlater : WellFormed false later) : WellFormed false (first ++ later) := by
  obtain ⟨earlier, rfl⟩ := List.getLast?_eq_some_iff.mp hlast
  rw [wellFormed_iff] at hfirst hlater ⊢
  rw [List.dropLast_concat] at hfirst
  have hall : ∀ link ∈ earlier ++ [last], words link.text ≠ [] :=
    List.forall_mem_append.mpr ⟨hfirst.1, by simpa using hwords⟩
  refine ⟨?_, List.forall_mem_append.mpr ⟨hfirst.2, hlater.2⟩⟩
  rw [List.dropLast_append]
  split
  · exact fun link hlink => hall link (List.dropLast_subset _ hlink)
  · exact List.forall_mem_append.mpr ⟨hall, hlater.1⟩

/-- Two accepted lines may be written on one line, with a `;` between them. -/
theorem syntaxError?_append_semicolon {a b : Text} (ha : syntaxError? a = none)
    (hb : syntaxError? b = none) {last : Link} (hlast : (splitChain a).getLast? = some last)
    (hwords : words last.text ≠ []) : syntaxError? (a ++ ';' :: b) = none := by
  obtain ⟨text, later, hfirst, hsequential⟩ := splitAfter_separators .first .sequential b
  have hcut : splitChain (a ++ ';' :: b) = splitChain a ++ ⟨.sequential, text⟩ :: later := by
    rw [splitChain, splitAfter_append_semicolon, hsequential]
    rfl
  rw [wellFormed_splitChain] at ha hb ⊢
  rw [splitChain, hfirst] at hb
  -- Well-formed chains are a matter of texts, whatever the first separator.
  have hlater : WellFormed false (⟨.sequential, text⟩ :: later) := hb
  rw [hcut]
  exact ha.append hlast hwords hlater

/-- **The check, the cut and the words agree.** A line is accepted if and only if every link
of its chain but the last has a word and no link holds `&` or `|`. -/
theorem syntaxError?_eq_none_iff (line : Text) :
    syntaxError? line = none ↔
      (∀ link ∈ (splitChain line).dropLast, words link.text ≠ []) ∧
      ∀ link ∈ splitChain line, '&' ∉ link.text ∧ '|' ∉ link.text := by
  rw [wellFormed_splitChain, wellFormed_iff]
  refine and_congr_right fun _ => forall₂_congr fun link hlink => ?_
  exact and_iff_right (semicolon_not_mem_splitAfter link hlink)

end LineShell
