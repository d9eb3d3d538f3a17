import LineShell.Text.Word

/-!
# Characters of words

* `words_eq_nil_iff`: only a text of blanks has no words.
* `sublist_of_mem_words`: a word is made of characters of the text, in their order.
-/

namespace LineShell

theorem sublist_of_mem_splitOnP {p : Char → Bool} {text piece : Text}
    (h : piece ∈ text.splitOnP p) : piece.Sublist text := by
  induction text generalizing piece with
  | nil =>
    rw [List.splitOnP_nil, List.mem_singleton] at h
    exact h ▸ List.Sublist.refl _
  | cons c rest ih =>
    rw [List.splitOnP_cons_eq_if_modifyHead] at h
    cases hsplit : rest.splitOnP p with
    | nil => exact absurd hsplit (List.splitOnP_ne_nil p rest)
    | cons first others =>
      rw [hsplit] at h ih
      split at h
      · rcases List.mem_cons.mp h with rfl | h
        · exact List.nil_sublist _
        · exact (ih h).cons c
      · rw [List.modifyHead_cons] at h
        rcases List.mem_cons.mp h with rfl | h
        · exact (ih List.mem_cons_self).cons_cons c
        · exact (ih (List.mem_cons_of_mem _ h)).cons c

theorem sublist_of_mem_words {text word : Text} (h : word ∈ words text) : word.Sublist text :=
  sublist_of_mem_splitOnP (List.mem_filter.mp h).1

theorem words_cons_ne_nil (text : Text) {c : Char} (h : isBlank c = false) :
    words (c :: text) ≠ [] := by
  cases hsplit : text.splitOnP isBlank with
  | nil => exact absurd hsplit (List.splitOnP_ne_nil isBlank text)
  | cons first others =>
    rw [words, List.splitOnP_cons_eq_if_modifyHead, if_neg (by simp [h]), hsplit,
      List.modifyHead_cons, List.filter_cons_of_pos (by simp)]
    exact List.cons_ne_nil _ _

theorem words_eq_nil_iff {text : Text} : words text = [] ↔ ∀ c ∈ text, isBlank c = true := by
  induction text with
  | nil => simp
  | cons c rest ih =>
    cases h : isBlank c with
    | true => simp only [words_cons_blank rest h, ih, List.forall_mem_cons, h, true_and]
    | false =>
      refine iff_of_false (words_cons_ne_nil rest h) fun hall => ?_
      rw [hall c List.mem_cons_self] at h
      cases h

end LineShell
