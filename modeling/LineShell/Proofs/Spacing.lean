import LineShell.Proofs.Word

/-!
# Spacing

A text is its words and the blanks around them. This module separates the two.

* `IsWord`, `word_induction`: what a word is, and the induction over the words and blanks of a
  text.
* `unwords`: words with one space between any two of them, which `words_unwords` reads back.
* `squeeze`: a text with each run of blanks made one space and none left at its ends;
  `squeeze_eq_unwords` says that nothing is left of it but its words.
* `CutByBlanks`: a reading of texts that any blank cuts in two. By `CutByBlanks.eq_of_words_eq`
  such a reading sees the words and nothing else.
-/

namespace LineShell

/-! ## Unbroken texts -/

/-- No blank stands in the text. -/
def Unbroken (text : Text) : Prop := ∀ c ∈ text, isBlank c = false

instance (text : Text) : Decidable (Unbroken text) :=
  List.decidableBAll (fun c => isBlank c = false) text

theorem unbroken_nil : Unbroken [] := by simp [Unbroken]

theorem Unbroken.concat {word : Text} (h : Unbroken word) {c : Char} (hc : isBlank c = false) :
    Unbroken (word ++ [c]) := by
  intro d hd
  rcases List.mem_append.mp hd with hd | hd
  · exact h d hd
  · rw [List.mem_singleton.mp hd]
    exact hc

structure IsWord (word : Text) : Prop where
  nonempty : word ≠ []
  unbroken : Unbroken word

/-- A text is empty, begins with a blank, or begins with a word, which is the whole text or ends
at a blank. -/
theorem word_induction {P : Text → Prop} (nil : P [])
    (blank : ∀ c rest, isBlank c = true → P rest → P (c :: rest))
    (last : ∀ word, IsWord word → P word)
    (word : ∀ word c rest, IsWord word → isBlank c = true → P rest → P (word ++ c :: rest))
    (text : Text) : P text := by
  -- The induction is on what is left to read, behind a part of a word that has been read.
  suffices h : ∀ part, Unbroken part → P (part ++ text) from h [] unbroken_nil
  induction text with
  | nil =>
    intro part hpart
    rw [List.append_nil]
    by_cases hempty : part = []
    · exact hempty ▸ nil
    · exact last part ⟨hempty, hpart⟩
  | cons c rest ih =>
    intro part hpart
    cases hc : isBlank c with
    | true =>
      have hrest : P rest := ih [] unbroken_nil
      by_cases hempty : part = []
      · rw [hempty]
        exact blank c rest hc hrest
      · exact word part c rest ⟨hempty, hpart⟩ hc hrest
    | false =>
      have hlonger := ih (part ++ [c]) (hpart.concat hc)
      rwa [List.append_assoc] at hlonger

/-! ## Words -/

theorem words_concat_blank (text : Text) {c : Char} (hc : isBlank c = true) :
    words (text ++ [c]) = words text := by
  rw [words_append_blank text [] hc, words_nil, List.append_nil]

theorem IsWord.words_eq {word : Text} (h : IsWord word) : words word = [word] :=
  words_eq_singleton h.nonempty h.unbroken

theorem IsWord.words_append {word : Text} (h : IsWord word) (rest : Text) {c : Char}
    (hc : isBlank c = true) : words (word ++ c :: rest) = word :: words rest := by
  rw [words_append_blank word rest hc, h.words_eq, List.singleton_append]

theorem isWord_of_mem_words {text word : Text} (h : word ∈ words text) : IsWord word := by
  induction text using word_induction with
  | nil =>
    rw [words_nil] at h
    cases h
  | blank c rest hc ih =>
    rw [words_cons_blank rest hc] at h
    exact ih h
  | last found hfound =>
    rw [hfound.words_eq, List.mem_singleton] at h
    exact h ▸ hfound
  | word found c rest hfound hc ih =>
    rw [hfound.words_append rest hc] at h
    rcases List.mem_cons.mp h with rfl | h
    · exact hfound
    · exact ih h

theorem exists_word_of_mem {text : Text} {c : Char} (h : c ∈ text) (hc : isBlank c = false) :
    ∃ word ∈ words text, c ∈ word := by
  induction text using word_induction with
  | nil => cases h
  | blank blank rest hblank ih =>
    rw [words_cons_blank rest hblank]
    rcases List.mem_cons.mp h with rfl | h
    · rw [hc] at hblank
      cases hblank
    · exact ih h
  | last word hword =>
    rw [hword.words_eq]
    exact ⟨word, List.mem_cons_self, h⟩
  | word word blank rest hword hblank ih =>
    rw [hword.words_append rest hblank]
    rcases List.mem_append.mp h with h | h
    · exact ⟨word, List.mem_cons_self, h⟩
    · rcases List.mem_cons.mp h with rfl | h
      · rw [hc] at hblank
        cases hblank
      · obtain ⟨found, hfound, h⟩ := ih h
        exact ⟨found, List.mem_cons_of_mem word hfound, h⟩

/-- Words with one space between any two of them. -/
def unwords (ws : List Text) : Text := [' '].intercalate ws

@[simp] theorem unwords_nil : unwords [] = [] := List.intercalate_nil

@[simp] theorem unwords_singleton (word : Text) : unwords [word] = word :=
  List.intercalate_singleton

theorem unwords_cons_cons (word next : Text) (later : List Text) :
    unwords (word :: next :: later) = word ++ ' ' :: unwords (next :: later) := by
  rw [unwords, List.intercalate_cons_cons, List.append_assoc]
  rfl

theorem unwords_cons (word : Text) (later : List Text) :
    unwords (word :: later) = word ++ later.flatMap (fun next => ' ' :: next) := by
  induction later generalizing word with
  | nil => simp
  | cons next later ih => rw [unwords_cons_cons, ih next, List.flatMap_cons, List.cons_append]

theorem mem_unwords {ws : List Text} {c : Char} (h : c ∈ unwords ws) :
    c = ' ' ∨ ∃ word ∈ ws, c ∈ word := by
  cases ws with
  | nil => cases h
  | cons word later =>
    rw [unwords_cons] at h
    rcases List.mem_append.mp h with h | h
    · exact Or.inr ⟨word, List.mem_cons_self, h⟩
    · obtain ⟨next, hnext, h⟩ := List.mem_flatMap.mp h
      rcases List.mem_cons.mp h with h | h
      · exact Or.inl h
      · exact Or.inr ⟨next, List.mem_cons_of_mem word hnext, h⟩

theorem words_unwords {ws : List Text} (h : ∀ word ∈ ws, IsWord word) :
    words (unwords ws) = ws := by
  induction ws with
  | nil => exact words_nil
  | cons word later ih =>
    obtain ⟨hword, hlater⟩ := List.forall_mem_cons.mp h
    cases later with
    | nil => rw [unwords_singleton, hword.words_eq]
    | cons next later =>
      rw [unwords_cons_cons, hword.words_append _ rfl, ih hlater]

/-! ## Readings that blanks cut in two -/

/-- Any blank cuts the reading of a text in two, whichever blank it is, and the reading of the
empty text is neutral. -/
structure CutByBlanks {α : Type} (read : Text → α) (join : α → α → α) : Prop where
  blank : ∀ a b c, isBlank c = true → read (a ++ c :: b) = join (read a) (read b)
  nil_join : ∀ right, join (read []) right = right
  join_nil : ∀ left, join left (read []) = left

namespace CutByBlanks

variable {α : Type} {read : Text → α} {join : α → α → α}

theorem eq_foldr_words (h : CutByBlanks read join) (text : Text) :
    read text = (words text).foldr (fun word later => join (read word) later) (read []) := by
  induction text using word_induction with
  | nil => rw [words_nil, List.foldr_nil]
  | blank c rest hc ih =>
    have hcut : read (c :: rest) = join (read []) (read rest) := h.blank [] rest c hc
    rw [hcut, h.nil_join, words_cons_blank rest hc, ih]
  | last word hword => rw [hword.words_eq, List.foldr_cons, List.foldr_nil, h.join_nil]
  | word word c rest hword hc ih =>
    rw [h.blank word rest c hc, hword.words_append rest hc, List.foldr_cons, ih]

/-- Such a reading depends on the words of a text only. -/
theorem eq_of_words_eq (h : CutByBlanks read join) {a b : Text} (hwords : words a = words b) :
    read a = read b := by
  rw [h.eq_foldr_words a, h.eq_foldr_words b, hwords]

end CutByBlanks

/-! ## Squeezing -/

/-- Each run of blanks becomes one space in front of the word that follows it, and nothing if
none follows; `pending` says that a run has been read. -/
def squeezeAfter (pending : Bool) : Text → Text
  | [] => []
  | c :: rest =>
    if isBlank c then squeezeAfter true rest
    else if pending then ' ' :: c :: squeezeAfter false rest
    else c :: squeezeAfter false rest

/-- The text with no blanks at its ends and one space in place of each other run of blanks. -/
def squeeze (text : Text) : Text := squeezeAfter false (text.dropWhile isBlank)

theorem squeezeAfter_blank (pending : Bool) (rest : Text) {c : Char} (hc : isBlank c = true) :
    squeezeAfter pending (c :: rest) = squeezeAfter true rest := by
  rw [squeezeAfter, if_pos hc]

theorem squeezeAfter_unbroken {word : Text} (h : Unbroken word) (rest : Text) :
    squeezeAfter false (word ++ rest) = word ++ squeezeAfter false rest := by
  induction word with
  | nil => rfl
  | cons c word ih =>
    obtain ⟨hc, hword⟩ := List.forall_mem_cons.mp h
    rw [List.cons_append, squeezeAfter, hc, if_neg Bool.false_ne_true,
      if_neg Bool.false_ne_true, ih hword, List.cons_append]

theorem squeezeAfter_word {word : Text} (h : IsWord word) (rest : Text) :
    squeezeAfter true (word ++ rest) = ' ' :: word ++ squeezeAfter false rest := by
  cases word with
  | nil => exact absurd rfl h.nonempty
  | cons c word =>
    obtain ⟨hc, hword⟩ := List.forall_mem_cons.mp h.unbroken
    rw [List.cons_append, squeezeAfter, hc, if_neg Bool.false_ne_true, if_pos rfl,
      squeezeAfter_unbroken hword]
    rfl

/-- Behind a blank, a space stands in front of each word. -/
theorem squeezeAfter_true (text : Text) :
    squeezeAfter true text = (words text).flatMap (fun word => ' ' :: word) := by
  induction text using word_induction with
  | nil => rw [words_nil, squeezeAfter, List.flatMap_nil]
  | blank c rest hc ih => rw [squeezeAfter_blank true rest hc, words_cons_blank rest hc, ih]
  | last word hword =>
    have hsqueeze := squeezeAfter_word hword []
    rw [List.append_nil, squeezeAfter, List.append_nil] at hsqueeze
    rw [hsqueeze, hword.words_eq, List.flatMap_singleton]
  | word word c rest hword hc ih =>
    rw [squeezeAfter_word hword, squeezeAfter_blank false rest hc, hword.words_append rest hc,
      List.flatMap_cons, ih]

theorem dropWhile_word {word : Text} (h : IsWord word) (rest : Text) :
    (word ++ rest).dropWhile isBlank = word ++ rest := by
  cases word with
  | nil => exact absurd rfl h.nonempty
  | cons c word =>
    have hc : isBlank c = false := h.unbroken c List.mem_cons_self
    rw [List.cons_append, List.dropWhile_cons_of_neg (by simp [hc])]

/-- A squeezed text is its words with one space between any two of them. -/
theorem squeeze_eq_unwords (text : Text) : squeeze text = unwords (words text) := by
  induction text using word_induction with
  | nil =>
    rw [words_nil]
    rfl
  | blank c rest hc ih =>
    rw [squeeze, List.dropWhile_cons_of_pos hc, words_cons_blank rest hc]
    exact ih
  | last word hword =>
    have hdrop := dropWhile_word hword []
    have hsqueeze := squeezeAfter_unbroken hword.unbroken []
    rw [List.append_nil] at hdrop hsqueeze
    rw [squeezeAfter, List.append_nil] at hsqueeze
    rw [squeeze, hdrop, hsqueeze, hword.words_eq, unwords_singleton]
  | word word c rest hword hc ih =>
    rw [squeeze, dropWhile_word hword, squeezeAfter_unbroken hword.unbroken,
      squeezeAfter_blank false rest hc, squeezeAfter_true, hword.words_append rest hc,
      unwords_cons]

theorem words_squeeze (text : Text) : words (squeeze text) = words text := by
  rw [squeeze_eq_unwords]
  exact words_unwords fun word hword => isWord_of_mem_words hword

end LineShell
