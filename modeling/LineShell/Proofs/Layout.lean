import LineShell.Proofs.Spacing

/-!
# Layouts of words

A text can be laid out as words and the gaps around them in one way only, if nothing but blanks
stands in a gap and no two words touch.

* `Layout`, `Layout.Valid`: the gap in front of the first word, and each word with the gap behind
  it. Only the last of these may be empty.
* `Layout.Valid.words_text`: the words of a text that has been laid out.
* `exists_layout`: every text has a layout.
* `words_exact`: the words of a text are those of its layout.
-/

namespace LineShell

structure Layout where
  /-- The gap in front of the first word. -/
  lead : Text
  /-- The words, each with the gap behind it. -/
  spaced : List (Text × Text)
deriving DecidableEq, Repr

namespace Layout

def text (layout : Layout) : Text :=
  layout.lead ++ layout.spaced.flatMap (fun pair => pair.1 ++ pair.2)

def words (layout : Layout) : List Text := layout.spaced.map Prod.fst

structure Valid (layout : Layout) : Prop where
  lead : ∀ c ∈ layout.lead, isBlank c = true
  word : ∀ pair ∈ layout.spaced, IsWord pair.1
  gap : ∀ pair ∈ layout.spaced, ∀ c ∈ pair.2, isBlank c = true
  /-- No two words touch. -/
  between : ∀ pair ∈ layout.spaced.dropLast, pair.2 ≠ []

theorem valid_nil {lead : Text} (h : ∀ c ∈ lead, isBlank c = true) : Valid ⟨lead, []⟩ where
  lead := h
  word := by simp
  gap := by simp
  between := by simp

theorem valid_singleton {word : Text} (h : IsWord word) : Valid ⟨[], [(word, [])]⟩ where
  lead := by simp
  word := List.forall_mem_singleton.mpr h
  gap := by simp
  between := by simp

/-- A word may come first if at least one blank is behind it. -/
theorem valid_cons {word gap : Text} {c : Char} {later : List (Text × Text)} :
    Valid ⟨[], (word, c :: gap) :: later⟩ ↔
      IsWord word ∧ isBlank c = true ∧ Valid ⟨gap, later⟩ := by
  constructor
  · rintro ⟨-, hword, hgap, hbetween⟩
    obtain ⟨hfirst, hwords⟩ := List.forall_mem_cons.mp hword
    obtain ⟨hblanks, hgaps⟩ := List.forall_mem_cons.mp hgap
    obtain ⟨hc, hrest⟩ := List.forall_mem_cons.mp hblanks
    refine ⟨hfirst, hc, hrest, hwords, hgaps, fun pair hpair => hbetween pair ?_⟩
    cases later with
    | nil => cases hpair
    | cons next later => exact List.mem_cons_of_mem _ hpair
  · rintro ⟨hfirst, hc, hrest, hwords, hgaps, hbetween⟩
    refine ⟨by simp, List.forall_mem_cons.mpr ⟨hfirst, hwords⟩,
      List.forall_mem_cons.mpr ⟨List.forall_mem_cons.mpr ⟨hc, hrest⟩, hgaps⟩, ?_⟩
    cases later with
    | nil => simp
    | cons next later =>
      exact List.forall_mem_cons.mpr ⟨List.cons_ne_nil c gap, hbetween⟩

end Layout

theorem words_append_of_blanks {lead : Text} (h : ∀ c ∈ lead, isBlank c = true) (rest : Text) :
    words (lead ++ rest) = words rest := by
  induction lead with
  | nil => rfl
  | cons c lead ih =>
    obtain ⟨hc, hlead⟩ := List.forall_mem_cons.mp h
    rw [List.cons_append, words_cons_blank _ hc, ih hlead]

/-- The induction is on the words. The gap behind a word leads the rest of the text, once its first
blank has ended the word. -/
theorem Layout.Valid.words_text {layout : Layout} (h : layout.Valid) :
    LineShell.words layout.text = layout.words := by
  obtain ⟨lead, spaced⟩ := layout
  have hlead : ∀ c ∈ lead, isBlank c = true := h.lead
  rw [text, words_append_of_blanks hlead]
  induction spaced generalizing lead with
  | nil => exact words_nil
  | cons pair later ih =>
    obtain ⟨word, gap⟩ := pair
    obtain ⟨hword, -⟩ := List.forall_mem_cons.mp h.word
    cases gap with
    | nil =>
      have hlast : later = [] := by
        cases later with
        | nil => rfl
        | cons next later => exact absurd rfl (h.between (word, []) List.mem_cons_self)
      subst hlast
      rw [List.flatMap_singleton, List.append_nil, hword.words_eq]
      rfl
    | cons c gap =>
      have hcons : Valid ⟨[], (word, c :: gap) :: later⟩ := { h with lead := by simp }
      obtain ⟨-, hc, hrest⟩ := valid_cons.mp hcons
      rw [List.flatMap_cons, List.append_assoc, List.cons_append, hword.words_append _ hc,
        words_append_of_blanks hrest.lead, ih gap hrest hrest.lead]
      rfl

theorem exists_layout (text : Text) : ∃ layout : Layout, layout.Valid ∧ layout.text = text := by
  induction text using word_induction with
  | nil => exact ⟨⟨[], []⟩, Layout.valid_nil (by simp), rfl⟩
  | blank c rest hc ih =>
    obtain ⟨⟨lead, spaced⟩, hvalid, rfl⟩ := ih
    exact ⟨⟨c :: lead, spaced⟩,
      { hvalid with lead := List.forall_mem_cons.mpr ⟨hc, hvalid.lead⟩ }, rfl⟩
  | last word hword =>
    exact ⟨⟨[], [(word, [])]⟩, Layout.valid_singleton hword, by simp [Layout.text]⟩
  | word word c rest hword hc ih =>
    obtain ⟨⟨lead, spaced⟩, hvalid, rfl⟩ := ih
    refine ⟨⟨[], (word, c :: lead) :: spaced⟩, Layout.valid_cons.mpr ⟨hword, hc, hvalid⟩, ?_⟩
    simp [Layout.text]

/-- **The words of a text are those of its layout.** There is a layout of every text, and all of
them have the same words, so the words of a text are the only ones with which it can be laid out.
Any blank therefore separates what is in front of it from what is behind it. -/
theorem words_exact (text : Text) :
    (∀ found, words text = found ↔
      ∃ layout : Layout, layout.Valid ∧ layout.text = text ∧ layout.words = found) ∧
    ∀ (later : Text) (c : Char), isBlank c = true →
      words (text ++ c :: later) = words text ++ words later := by
  refine ⟨fun found => ⟨?_, ?_⟩, fun later c hc => words_append_blank text later hc⟩
  · rintro rfl
    obtain ⟨layout, hvalid, rfl⟩ := exists_layout text
    exact ⟨layout, hvalid, rfl, hvalid.words_text.symm⟩
  · rintro ⟨layout, hvalid, rfl, rfl⟩
    exact hvalid.words_text

/-- All five blanks, a run of them inside of the text, and a form feed, which is none. -/
theorem words_exact_mixed :
    let text := " a\t\rb\x0cé".toList
    let layout : Layout :=
      ⟨" ".toList, [("a".toList, "\t\r".toList), ("b\x0cé".toList, [])]⟩
    isBlank '\x07' = true ∧ layout.text = text ∧ words text = layout.words ∧
      words (text ++ '\x07' :: "c\n".toList) = layout.words ++ ["c".toList] := by
  intro text layout
  have hwords : ∀ pair ∈ layout.spaced, IsWord pair.1 := by
    refine List.forall_mem_cons.mpr ⟨⟨by decide, by decide⟩, ?_⟩
    exact List.forall_mem_singleton.mpr ⟨by decide, by decide⟩
  have hlead : ∀ c ∈ layout.lead, isBlank c = true := List.all_eq_true.mp rfl
  have hgaps : ∀ pair ∈ layout.spaced, ∀ c ∈ pair.2, isBlank c = true := by
    refine List.forall_mem_cons.mpr ⟨List.all_eq_true.mp rfl, ?_⟩
    exact List.forall_mem_singleton.mpr (List.all_eq_true.mp rfl)
  have hvalid : layout.Valid := ⟨hlead, hwords, hgaps, by decide⟩
  obtain ⟨hexact, hseparates⟩ := words_exact text
  have hfound : words text = layout.words := (hexact _).mpr ⟨layout, hvalid, rfl, rfl⟩
  refine ⟨by decide, rfl, hfound, ?_⟩
  rw [hseparates "c\n".toList '\x07' (by decide), hfound]
  decide

end LineShell
