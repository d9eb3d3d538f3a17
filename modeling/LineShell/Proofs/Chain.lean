import LineShell.Line.Chain
import LineShell.Line.Operator

/-!
# Splitting and joining

A text in which no mark stands is never cut, so a chain of such texts is cut exactly where
it was joined.

* `Unmarked`: none of the marks `;`, `&` and `|` stands in a text.
* `Literal`, `line_induction`: a character that belongs to the text of its link, and the induction
  over the operators and such characters of a line.
* `splitAfter_eq_cons`: a line has at least one link, and only its first link has no operator.
* `splitAfter_append_semicolon`: a line is cut at each `;`.
* `joinChain_splitAfter`: writing the links with their operators gives the line back.
* `splitAfter_joinChain`: cutting the line of a chain whose texts are literal gives the chain back.
-/

namespace LineShell

/-! ## Marks -/

theorem Mark.ofChar?_eq_none_iff {c : Char} :
    ofChar? c = none ↔ c ≠ ';' ∧ c ≠ '&' ∧ c ≠ '|' := by
  constructor
  · intro h
    refine ⟨?_, ?_, ?_⟩ <;> rintro rfl <;> cases h
  · rintro ⟨hsemicolon, hampersand, hbar⟩
    rw [ofChar?, if_neg hsemicolon, if_neg hampersand, if_neg hbar]

/-- None of the marks `;`, `&` and `|` stands in the text. -/
def Unmarked (text : Text) : Prop := ';' ∉ text ∧ '&' ∉ text ∧ '|' ∉ text

instance (text : Text) : Decidable (Unmarked text) :=
  inferInstanceAs (Decidable (_ ∧ _ ∧ _))

theorem unmarked_iff {text : Text} : Unmarked text ↔ ∀ c ∈ text, Mark.ofChar? c = none := by
  constructor
  · rintro ⟨hsemicolon, hampersand, hbar⟩ c hc
    refine Mark.ofChar?_eq_none_iff.mpr ⟨?_, ?_, ?_⟩ <;> rintro rfl
    · exact hsemicolon hc
    · exact hampersand hc
    · exact hbar hc
  · intro h
    refine ⟨?_, ?_, ?_⟩ <;> intro hc <;> cases h _ hc

@[simp] theorem unmarked_nil : Unmarked [] := by decide

@[simp] theorem unmarked_cons {c : Char} {text : Text} :
    Unmarked (c :: text) ↔ Mark.ofChar? c = none ∧ Unmarked text := by
  rw [unmarked_iff, unmarked_iff, List.forall_mem_cons]

@[simp] theorem unmarked_append {a b : Text} : Unmarked (a ++ b) ↔ Unmarked a ∧ Unmarked b := by
  rw [unmarked_iff, unmarked_iff, unmarked_iff, List.forall_mem_append]

theorem Unmarked.of_subset {a b : Text} (h : Unmarked b) (hsub : a ⊆ b) : Unmarked a :=
  unmarked_iff.mpr fun c hc => unmarked_iff.mp h c (hsub hc)

/-! ## Splitting -/

/-- The character belongs to the text of a link: in front of this text no operator begins with
it. -/
def Literal (c : Char) (rest : Text) : Prop :=
  c ≠ ';' ∧ (c = '&' → rest.head? ≠ some '&') ∧ (c = '|' → rest.head? ≠ some '|')

theorem literal_of_ofChar?_eq_none {c : Char} (h : Mark.ofChar? c = none) (rest : Text) :
    Literal c rest := by
  obtain ⟨hsemicolon, hampersand, hbar⟩ := Mark.ofChar?_eq_none_iff.mp h
  exact ⟨hsemicolon, fun hc => absurd hc hampersand, fun hc => absurd hc hbar⟩

/-- More text makes no operator of it, unless a mark comes first that could double a lone one. -/
theorem Literal.append {c d : Char} {rest : Text} (h : Literal c rest) (hampersand : d ≠ '&')
    (hbar : d ≠ '|') (tail : Text) : Literal c (rest ++ d :: tail) := by
  obtain ⟨hsemicolon, hand, hor⟩ := h
  cases rest with
  | nil =>
    refine ⟨hsemicolon, fun _ hd => ?_, fun _ hd => ?_⟩
    · exact hampersand (Option.some.inj hd)
    · exact hbar (Option.some.inj hd)
  | cons e rest => exact ⟨hsemicolon, hand, hor⟩

/-- A line is empty, begins with an operator, or begins with a character of its first link. -/
theorem line_induction {P : Text → Prop} (nil : P [])
    (operator : ∀ (next : Separator) rest, next ≠ .first → P rest → P (next.text ++ rest))
    (literal : ∀ c rest, Literal c rest → P rest → P (c :: rest)) (line : Text) : P line := by
  generalize Separator.first = separator
  fun_induction splitAfter separator line with
  | case1 => exact nil
  | case2 _ rest ih => exact operator .and rest (by decide) ih
  | case3 _ rest ih => exact operator .or rest (by decide) ih
  | case4 _ rest ih => exact operator .sequential rest (by decide) ih
  | case5 _ c rest hand hor hsemicolon ih =>
    refine literal c rest ⟨hsemicolon, fun hc hhead => ?_, fun hc hhead => ?_⟩ ih
    · obtain ⟨tail, rfl⟩ := List.head?_eq_some_iff.mp hhead
      exact hand tail hc rfl
    · obtain ⟨tail, rfl⟩ := List.head?_eq_some_iff.mp hhead
      exact hor tail hc rfl

theorem splitAfter_literal (separator : Separator) {c : Char} {rest : Text}
    (h : Literal c rest) :
    splitAfter separator (c :: rest) = prependChar c (splitAfter separator rest) := by
  obtain ⟨hsemicolon, hand, hor⟩ := h
  rw [splitAfter]
  · rintro tail hc rfl
    exact hand hc rfl
  · rintro tail hc rfl
    exact hor hc rfl
  · exact hsemicolon

theorem splitAfter_cons (separator : Separator) (rest : Text) {c : Char}
    (h : Mark.ofChar? c = none) :
    splitAfter separator (c :: rest) = prependChar c (splitAfter separator rest) :=
  splitAfter_literal separator (literal_of_ofChar?_eq_none h rest)

theorem splitAfter_separator (separator : Separator) {next : Separator} (h : next ≠ .first)
    (rest : Text) :
    splitAfter separator (next.text ++ rest) = ⟨separator, []⟩ :: splitAfter next rest := by
  cases next with
  | first => exact absurd rfl h
  | sequential => rfl
  | and => rfl
  | or => rfl

theorem foldr_prependChar (text : Text) (link : Link) (later : List Link) :
    text.foldr prependChar (link :: later) =
      { link with text := text ++ link.text } :: later := by
  induction text with
  | nil => rfl
  | cons c rest ih => rw [List.foldr_cons, ih]; rfl

/-- Each character of a text that a tail follows belongs to a link. -/
def LiteralBefore (tail : Text) : Text → Prop
  | [] => True
  | c :: rest => Literal c (rest ++ tail) ∧ LiteralBefore tail rest

theorem Unmarked.literalBefore {text : Text} (h : Unmarked text) (tail : Text) :
    LiteralBefore tail text := by
  induction text with
  | nil => exact trivial
  | cons c rest ih =>
    obtain ⟨hc, hrest⟩ := unmarked_cons.mp h
    exact ⟨literal_of_ofChar?_eq_none hc (rest ++ tail), ih hrest⟩

theorem splitAfter_append (separator : Separator) {text tail : Text}
    (h : LiteralBefore tail text) :
    splitAfter separator (text ++ tail) = text.foldr prependChar (splitAfter separator tail) := by
  induction text with
  | nil => rfl
  | cons c rest ih =>
    obtain ⟨hc, hrest⟩ := h
    rw [List.cons_append, splitAfter_literal separator hc, ih hrest, List.foldr_cons]

theorem splitAfter_eq_cons (separator : Separator) (line : Text) :
    ∃ text later, splitAfter separator line = ⟨separator, text⟩ :: later ∧
      ∀ link ∈ later, link.separator ≠ .first := by
  induction line using line_induction generalizing separator with
  | nil => exact ⟨[], [], rfl, by simp⟩
  | operator next rest hnext ih =>
    obtain ⟨text, later, heq, hlater⟩ := ih next
    refine ⟨[], _, splitAfter_separator separator hnext rest, ?_⟩
    rw [heq]
    exact List.forall_mem_cons.mpr ⟨hnext, hlater⟩
  | literal c rest hc ih =>
    obtain ⟨text, later, heq, hlater⟩ := ih separator
    exact ⟨c :: text, later, by rw [splitAfter_literal separator hc, heq]; rfl, hlater⟩

/-- The text of the first link does not depend on the separator that it is given. -/
theorem splitAfter_separators (separator other : Separator) (line : Text) :
    ∃ text later, splitAfter separator line = ⟨separator, text⟩ :: later ∧
      splitAfter other line = ⟨other, text⟩ :: later := by
  induction line using line_induction with
  | nil => exact ⟨[], [], rfl, rfl⟩
  | operator next rest hnext _ =>
    exact ⟨[], _, splitAfter_separator separator hnext rest,
      splitAfter_separator other hnext rest⟩
  | literal c rest hc ih =>
    obtain ⟨text, later, heq, hother⟩ := ih
    refine ⟨c :: text, later, ?_, ?_⟩
    · rw [splitAfter_literal separator hc, heq]
      rfl
    · rw [splitAfter_literal other hc, hother]
      rfl

/-- A `;` is always cut at, whatever stands in front of it. -/
theorem splitAfter_append_semicolon (separator : Separator) (a b : Text) :
    splitAfter separator (a ++ ';' :: b) =
      splitAfter separator a ++ splitAfter .sequential b := by
  induction a using line_induction generalizing separator with
  | nil => rfl
  | operator next rest hnext ih =>
    rw [List.append_assoc, splitAfter_separator separator hnext,
      splitAfter_separator separator hnext, ih, List.cons_append]
  | literal c rest hc ih =>
    obtain ⟨text, later, heq, -⟩ := splitAfter_eq_cons separator rest
    rw [List.cons_append, splitAfter_literal separator (hc.append (by decide) (by decide) b),
      splitAfter_literal separator hc, ih, heq]
    rfl

theorem semicolon_not_mem_splitAfter {separator : Separator} {line : Text} :
    ∀ link ∈ splitAfter separator line, ';' ∉ link.text := by
  induction line using line_induction generalizing separator with
  | nil => simp [splitAfter]
  | operator next rest hnext ih =>
    rw [splitAfter_separator separator hnext]
    exact List.forall_mem_cons.mpr ⟨List.not_mem_nil, ih⟩
  | literal c rest hc ih =>
    obtain ⟨text, later, heq, -⟩ := splitAfter_eq_cons separator rest
    have hrest : ∀ link ∈ splitAfter separator rest, ';' ∉ link.text := ih
    rw [heq] at hrest
    obtain ⟨hfirst, hlater⟩ := List.forall_mem_cons.mp hrest
    rw [splitAfter_literal separator hc, heq]
    refine List.forall_mem_cons.mpr ⟨fun h => ?_, hlater⟩
    rcases List.mem_cons.mp h with h | h
    · exact hc.1 h.symm
    · exact hfirst h

/-! ## Joining -/

theorem joinChain_cons (link : Link) (later : List Link) :
    joinChain (link :: later) = link.separator.text ++ link.text ++ joinChain later := by
  rw [joinChain, List.flatMap_cons, joinChain]

theorem joinChain_splitAfter (separator : Separator) (line : Text) :
    joinChain (splitAfter separator line) = separator.text ++ line := by
  induction line using line_induction generalizing separator with
  | nil => rw [splitAfter, joinChain_cons]; simp [joinChain]
  | operator next rest hnext ih =>
    rw [splitAfter_separator separator hnext, joinChain_cons, ih, List.append_nil]
  | literal c rest hc ih =>
    have hrest := ih separator
    obtain ⟨text, later, heq, -⟩ := splitAfter_eq_cons separator rest
    rw [heq, joinChain_cons, List.append_assoc, List.append_cancel_left_eq] at hrest
    rw [splitAfter_literal separator hc, heq, prependChar, joinChain_cons, ← hrest]
    simp

theorem joinChain_splitChain (line : Text) : joinChain (splitChain line) = line :=
  joinChain_splitAfter .first line

/-- No character of a link begins an operator in the line that the chain is joined to. -/
def LiteralChain : List Link → Prop
  | [] => True
  | link :: later => LiteralBefore (joinChain later) link.text ∧ LiteralChain later

theorem literalChain_of_unmarked {chain : List Link} (h : ∀ link ∈ chain, Unmarked link.text) :
    LiteralChain chain := by
  induction chain with
  | nil => exact trivial
  | cons link later ih =>
    obtain ⟨hlink, hlater⟩ := List.forall_mem_cons.mp h
    exact ⟨hlink.literalBefore (joinChain later), ih hlater⟩

theorem splitAfter_joinChain (separator : Separator) {text : Text} {later : List Link}
    (h : LiteralChain (⟨separator, text⟩ :: later))
    (hlater : ∀ link ∈ later, link.separator ≠ .first) :
    splitAfter separator (text ++ joinChain later) = ⟨separator, text⟩ :: later := by
  induction later generalizing separator text with
  | nil =>
    rw [splitAfter_append separator h.1, joinChain, List.flatMap_nil, splitAfter,
      foldr_prependChar, List.append_nil]
  | cons link later ih =>
    obtain ⟨hseparator, hlater⟩ := List.forall_mem_cons.mp hlater
    rw [splitAfter_append separator h.1, joinChain_cons, List.append_assoc,
      splitAfter_separator separator hseparator, ih link.separator h.2 hlater,
      foldr_prependChar, List.append_nil]

end LineShell
