import LineShell.Proofs.Call
import LineShell.Proofs.Comment
import LineShell.Proofs.Expansion
import LineShell.Proofs.Operator

/-!
# Lines that differ in their spacing

Each stage of a line is cut in two by a blank: the check of its operators, the expansion of its
references, and the cut into links. So a line without a comment is processed by its words, and
how it is spaced makes no difference.

* `misplaced_cutByBlanks`, `words_substitute_cutByBlanks`: the check and the expansion, beside
  `callsAfter_cutByBlanks` for the links.
* `Machine.processLine_congr`: lines whose words are the same, comments apart, are processed
  alike.
* `Machine.processLine_squeeze`: so a line may be squeezed.
* `Machine.processLine_concat_blank`: and a blank at its end makes no difference, with a comment
  or without.
-/

namespace LineShell

/-! ## The check -/

theorem misplacedFrom_blank (hasCommand : Bool) (rest : Text) {c : Char} (hc : isBlank c = true) :
    misplacedFrom hasCommand (c :: rest) = misplacedFrom hasCommand rest := by
  rw [misplacedFrom_cons hasCommand rest (ofChar?_eq_none_of_isBlank hc), hc, Bool.not_true,
    Bool.or_false]

theorem misplacedFrom_append_blank (hasCommand : Bool) (a b : Text) {c : Char}
    (hc : isBlank c = true) :
    misplacedFrom hasCommand (a ++ c :: b) =
      (misplacedFrom hasCommand a).or (misplacedFrom (commandAfter hasCommand a) b) := by
  induction hasCommand, a using operator_induction with
  | nil hasCommand => exact misplacedFrom_blank hasCommand b hc
  | plain hasCommand d rest hd ih =>
    rw [List.cons_append, misplacedFrom_cons hasCommand _ hd, ih,
      misplacedFrom_cons hasCommand rest hd, commandAfter_cons hasCommand rest hd]
  | operator hasCommand op tail hread ih =>
    have hmark : (c :: b).head? ≠ some op.mark.char := by
      intro hhead
      have hnone := ofChar?_eq_none_of_isBlank hc
      rw [Option.some.inj hhead, Mark.ofChar?_char] at hnone
      cases hnone
    rw [List.append_assoc, misplacedFrom_operator hasCommand (Operator.read?_append hread hmark),
      ih, misplacedFrom_operator hasCommand hread, Option.or_assoc, commandAfter_operator]

/-- The check with the state it ends in. The first operator found is kept, and the second part
is checked from the state that the first part ends in. -/
theorem misplaced_cutByBlanks :
    CutByBlanks
      (fun text hasCommand => (misplacedFrom hasCommand text, commandAfter hasCommand text))
      (fun left right hasCommand =>
        ((left hasCommand).1.or (right (left hasCommand).2).1, (right (left hasCommand).2).2)) where
  blank a b c hc := by
    funext hasCommand
    have hmark := ofChar?_eq_none_of_isBlank hc
    have hstate : commandAfter hasCommand (a ++ c :: b) =
        commandAfter (commandAfter hasCommand a) b := by
      rw [commandAfter_append, commandAfter_cons _ b hmark, hc, Bool.not_true, Bool.or_false]
    rw [misplacedFrom_append_blank hasCommand a b hc, hstate]
  nil_join right := rfl
  join_nil left := by
    funext hasCommand
    dsimp only
    rw [misplacedFrom, Option.or_none]
    rfl

theorem syntaxError?_eq_of_words_eq {a b : Text} (h : words a = words b) :
    syntaxError? a = syntaxError? b := by
  have hcheck := congrFun (misplaced_cutByBlanks.eq_of_words_eq h) false
  have hmisplaced : misplaced a = misplaced b := congrArg Prod.fst hcheck
  rw [syntaxError?, syntaxError?, hmisplaced]

/-! ## The expansion -/

theorem endsReference_of_isBlank {c : Char} (hc : isBlank c = true) : EndsReference c := by
  simp only [isBlank, Bool.or_eq_true, beq_iff_eq] at hc
  rcases hc with (((rfl | rfl) | rfl) | rfl) | rfl <;>
    exact ⟨by decide, by decide, by decide⟩

/-- No reference reaches over a blank, and a blank keeps the words of two values apart. -/
theorem words_substitute_cutByBlanks (valueOf : Reference → Text) :
    CutByBlanks (fun text => words (substitute valueOf text)) (· ++ ·) where
  blank a b c hc := by
    rw [substitute_append_cons a b (endsReference_of_isBlank hc), words_append_blank _ _ hc]
  nil_join right := rfl
  join_nil left := List.append_nil left

/-! ## Comments -/

theorem ne_hash_of_isBlank {c : Char} (hc : isBlank c = true) : c ≠ '#' := by
  rintro rfl
  cases hc

/-- A blank at the end of a line stands behind its last word or belongs to its comment. -/
theorem words_stripComment_concat (line : Text) {c : Char} (hc : isBlank c = true) :
    (stripComment (line ++ [c])).map words = (stripComment line).map words := by
  have hhash := ne_hash_of_isBlank hc
  cases line with
  | nil =>
    have hstrip : stripComment ([] ++ [c]) = some ([] ++ [c]) :=
      stripComment_eq_self (by simpa using Ne.symm hhash)
    rw [hstrip, Option.map_some, words_concat_blank [] hc]
    rfl
  | cons d rest =>
    by_cases hd : d = '#'
    · rw [hd, List.cons_append, stripComment_hash, stripComment_hash]
    · rw [List.cons_append, stripComment_cons hd, stripComment_cons hd, Option.map_some,
        Option.map_some]
      rcases beforeComment_concat hhash false (d :: rest) with h | h
      · rw [← List.cons_append, h]
      · rw [← List.cons_append, h, words_concat_blank _ hc]

/-! ## Lines -/

namespace Machine

/-- A line is processed by the words in front of its comment. -/
theorem processLine_congr (m : Machine) {a b : Text}
    (h : (stripComment a).map words = (stripComment b).map words) (s : Session) (io : Streams) :
    m.processLine a s io = m.processLine b s io := by
  rw [processLine, processLine]
  cases ha : stripComment a with
  | none =>
    rw [ha, Option.map_none] at h
    rw [Option.map_eq_none_iff.mp h.symm]
  | some text =>
    rw [ha, Option.map_some] at h
    obtain ⟨other, hb, hwords⟩ := Option.map_eq_some_iff.mp h.symm
    have hcheck : syntaxError? other = syntaxError? text := syntaxError?_eq_of_words_eq hwords
    have hexpand : words (s.expand other) = words (s.expand text) :=
      (words_substitute_cutByBlanks s.valueOf).eq_of_words_eq hwords
    have hchain := m.runChain_congr (calls_eq_of_words_eq hexpand) s io
    rw [hb]
    dsimp only
    rw [hcheck, splitChain, splitChain, hchain]

theorem processLine_concat_blank (m : Machine) (line : Text) {c : Char} (hc : isBlank c = true)
    (s : Session) (io : Streams) : m.processLine (line ++ [c]) s io = m.processLine line s io :=
  m.processLine_congr (words_stripComment_concat line hc) s io

/-- **Blanks only separate words.** A line without `#` and the same line squeezed come to one
run: the same status and session, and the same effects in the same order, with the token of a
refused line among them. -/
theorem processLine_squeeze (m : Machine) {line : Text} (h : '#' ∉ line) (s : Session)
    (io : Streams) : m.processLine (squeeze line) s io = m.processLine line s io := by
  have hsqueezed : '#' ∉ squeeze line := by
    rw [squeeze_eq_unwords]
    intro hmem
    rcases mem_unwords hmem with hspace | ⟨word, hword, hmem⟩
    · cases hspace
    · exact h ((sublist_of_mem_words hword).subset hmem)
  apply m.processLine_congr
  rw [stripComment_eq_self h, stripComment_eq_self hsqueezed, Option.map_some, Option.map_some,
    words_squeeze]

/-- Blanks of all five kinds around an operator, a bare `$` and a value that holds an operator
and blanks. -/
theorem processLine_squeeze_mixed :
    let m : Machine := { registry := Registry.builtins.addProbes [⟨"a".toList, 1, none⟩] }
    let s : Session :=
      { environment := .ofPairs [("X".toList, "|| \t a".toList)]
        processId := "7".toList
        programName := "sh".toList }
    let line := "\t a $ \r\x07&& env ; a\n\n $X b  ".toList
    '#' ∉ line ∧ squeeze line = "a $ && env ; a $X b".toList ∧
      m.processLine (squeeze line) s {} = m.processLine line s {} ∧
      output (m.processLine line s {}).effects = Utf8.encode "a <$>\na\na <b>\n".toList := by
  intro m s line
  have hline : '#' ∉ line := by decide
  exact ⟨hline, by decide, m.processLine_squeeze hline s {}, by decide +kernel⟩

end Machine

end LineShell
