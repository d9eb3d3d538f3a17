import LineShell.Proofs.Respacing

/-!
# Arguments from expanded text

A command line is cut into arguments after its references have been replaced, so a value can
bring blanks of its own. It can cut the word that it stands in, and it can make the word go away,
but it does not reach into another word.

* `CutByBlanks.eq_flatMap_words`: a reading into lists that blanks cut in two goes word by word.
* `two_le_length_words_iff`: there are several words where a blank stands between two.
* `words_expand_reference`: what a reference that stands alone contributes.
* `words_expand`: the arguments of an expanded text are those of its words.
-/

namespace LineShell

/-! ## Words -/

theorem CutByBlanks.eq_flatMap_words {α : Type} {read : Text → List α}
    (h : CutByBlanks read (· ++ ·)) (text : Text) : read text = (words text).flatMap read := by
  have hnil : read [] = [] := (List.append_nil _).symm.trans (h.nil_join [])
  rw [h.eq_foldr_words]
  induction words text with
  | nil => exact hnil
  | cons word later ih => rw [List.foldr_cons, List.flatMap_cons, ih]

theorem two_le_length_words_iff {text : Text} :
    2 ≤ (words text).length ↔
      ∃ a c b, text = a ++ c :: b ∧ isBlank c = true ∧ words a ≠ [] ∧ words b ≠ [] := by
  constructor
  · intro h
    induction text using word_induction with
    | nil => simp at h
    | blank c rest hc ih =>
      rw [words_cons_blank rest hc] at h
      obtain ⟨a, d, b, rfl, hd, ha, hb⟩ := ih h
      refine ⟨c :: a, d, b, rfl, hd, ?_, hb⟩
      rwa [words_cons_blank a hc]
    | last word hword =>
      rw [hword.words_eq, List.length_singleton] at h
      omega
    | word word c rest hword hc =>
      rw [hword.words_append rest hc, List.length_cons] at h
      refine ⟨word, c, rest, rfl, hc, ?_, List.ne_nil_of_length_pos (by omega)⟩
      rw [hword.words_eq]
      exact List.cons_ne_nil word []
  · rintro ⟨a, c, b, rfl, hc, ha, hb⟩
    have hfirst := List.length_pos_iff.mpr ha
    have hlast := List.length_pos_iff.mpr hb
    rw [words_append_blank a b hc, List.length_append]
    omega

/-! ## Arguments -/

namespace Session

variable (s : Session)

theorem words_expand_append_blank (a b : Text) {c : Char} (hc : isBlank c = true) :
    words (s.expand (a ++ c :: b)) = words (s.expand a) ++ words (s.expand b) :=
  (words_substitute_cutByBlanks s.valueOf).blank a b c hc

/-- Its value is all there is to cut. -/
theorem words_expand_reference {r : Reference} (hr : r.StandsBefore []) :
    words (s.expand ('$' :: r.label)) = words (s.valueOf r) := by
  have hexpand : substitute s.valueOf ('$' :: (r.label ++ [])) = s.valueOf r ++ [] :=
    substitute_reference hr
  rw [List.append_nil, List.append_nil] at hexpand
  rw [expand, hexpand]

/-- **Arguments are made word by word.** Each typed word is expanded and cut on its own. So a
reference that stands alone contributes the words of its value: none if there are only blanks in
it, and several if a blank stands between two of them. And whatever the values are, no argument is
made of two words that were typed apart. -/
theorem words_expand (text : Text) :
    words (s.expand text) = (words text).flatMap (fun word => words (s.expand word)) ∧
    (∀ r : Reference, r.StandsBefore [] →
      words (s.expand ('$' :: r.label)) = words (s.valueOf r) ∧
      (words (s.expand ('$' :: r.label)) = [] ↔ ∀ c ∈ s.valueOf r, isBlank c = true) ∧
      (2 ≤ (words (s.expand ('$' :: r.label))).length ↔
        ∃ a c b, s.valueOf r = a ++ c :: b ∧ isBlank c = true ∧ words a ≠ [] ∧ words b ≠ [])) ∧
    ∀ a c b, text = a ++ c :: b → isBlank c = true →
      words (s.expand text) = words (s.expand a) ++ words (s.expand b) := by
  refine ⟨(words_substitute_cutByBlanks s.valueOf).eq_flatMap_words text, ?_, ?_⟩
  · intro r hr
    have hwords := s.words_expand_reference hr
    refine ⟨hwords, ?_, ?_⟩
    · rw [hwords, words_eq_nil_iff]
    · rw [hwords, two_le_length_words_iff]
  · rintro a c b rfl hc
    exact s.words_expand_append_blank a b hc

/-- An unset variable and one of blanks, beside a value with blanks at its front and inside it
that has text on both sides. -/
theorem words_expand_blanks :
    let s : Session :=
      { environment := .ofPairs [("B".toList, " \t".toList), ("V".toList, " a $B b".toList)]
        processId := "7".toList
        programName := "sh".toList }
    let text := "x$V$ $U\t$B y$$".toList
    (words text).map (fun word => words (s.expand word)) =
        [["x".toList, "a".toList, "$B".toList, "b$".toList], [], [], ["y7".toList]] ∧
      words (s.expand text) = ["x".toList, "a".toList, "$B".toList, "b$".toList, "y7".toList] ∧
      words (s.expand "$U".toList) = [] ∧ words (s.expand "$B".toList) = [] ∧
      2 ≤ (words (s.expand "$V".toList)).length ∧
      words (s.expand text) =
        words (s.expand "x$V$ $U".toList) ++ words (s.expand "$B y$$".toList) := by
  intro s text
  have hnamed : ∀ name : Text, name ≠ [] → name.all isNameChar = true → name ≠ ['0'] →
      (Reference.named name).StandsBefore [] := fun name hempty hname hzero =>
    .named hempty (List.all_eq_true.mp hname) hzero (by simp [EndsName])
  obtain ⟨hwords, halone, hapart⟩ := s.words_expand text
  have hunset := (halone _ (hnamed "U".toList (by decide) (by decide) (by decide))).2.1
  have hblanks := (halone _ (hnamed "B".toList (by decide) (by decide) (by decide))).2.1
  have hseveral := (halone _ (hnamed "V".toList (by decide) (by decide) (by decide))).2.2
  refine ⟨by decide, hwords.trans (by decide), hunset.mpr (List.all_eq_true.mp rfl),
    hblanks.mpr (List.all_eq_true.mp rfl), hseveral.mpr ?_, hapart _ '\t' _ rfl rfl⟩
  exact ⟨" a".toList, ' ', "$B b".toList, by decide, by decide, by decide, by decide⟩

end Session

end LineShell
