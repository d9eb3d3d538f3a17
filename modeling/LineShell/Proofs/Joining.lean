import LineShell.Proofs.Chain
import Mathlib.Data.List.Chain

/-!
# The chains of lines

A line is cut into one chain, and joining the chain gives the line back. The chains that come of
lines can be told by their texts: no operator stands in a text, and none stands behind a mark that
it would take with it.

* `Uncut`: a text in which no operator stands.
* `Separator.MayFollow`: where an operator may stand behind a text.
* `IsCut`: the chains that come of lines.
* `literalChain_iff`: these are the chains whose characters are literal in the line that they are
  joined to. The proof follows a text from its end, because only its last character can become part
  of the operator behind it.
* `splitChain_eq_iff`: cutting is the inverse of joining.
-/

namespace LineShell

/-! ## Texts that are not cut -/

/-- No operator that separates commands stands in the text. -/
structure Uncut (text : Text) : Prop where
  semicolon : ';' ∉ text
  and : ¬ ['&', '&'] <:+: text
  or : ¬ ['|', '|'] <:+: text

theorem uncut_nil : Uncut [] := by
  constructor <;> simp

theorem pair_prefix_cons {a c : Char} {text : Text} :
    [a, a] <+: c :: text ↔ c = a ∧ text.head? = some a := by
  rw [List.cons_prefix_cons, eq_comm]
  refine and_congr_right fun _ => ?_
  cases text with
  | nil => simp
  | cons d rest => simp [eq_comm]

theorem uncut_cons {c : Char} {text : Text} : Uncut (c :: text) ↔ Literal c text ∧ Uncut text := by
  have hpair : ∀ a : Char, ¬ [a, a] <:+: c :: text ↔
      (c = a → text.head? ≠ some a) ∧ ¬ [a, a] <:+: text := by
    intro a
    rw [List.infix_cons_iff, pair_prefix_cons, not_or, not_and]
  constructor
  · rintro ⟨hsemicolon, hand, hor⟩
    rw [hpair] at hand hor
    exact ⟨⟨(List.ne_of_not_mem_cons hsemicolon).symm, hand.1, hor.1⟩,
      ⟨List.not_mem_of_not_mem_cons hsemicolon, hand.2, hor.2⟩⟩
  · rintro ⟨⟨hsemicolon, hand, hor⟩, huncut⟩
    exact ⟨List.not_mem_cons_of_ne_of_not_mem hsemicolon.symm huncut.semicolon,
      (hpair '&').mpr ⟨hand, huncut.and⟩, (hpair '|').mpr ⟨hor, huncut.or⟩⟩

/-! ## Seams -/

/-- The text does not end in a mark of the operator, so the operator can stand behind it. -/
def Separator.MayFollow (next : Separator) (text : Text) : Prop :=
  (next = .and → text.getLast? ≠ some '&') ∧ (next = .or → text.getLast? ≠ some '|')

theorem Separator.mayFollow_nil (next : Separator) : next.MayFollow [] := by
  simp [MayFollow]

theorem Separator.mayFollow_cons_cons (next : Separator) (c d : Char) (rest : Text) :
    next.MayFollow (c :: d :: rest) ↔ next.MayFollow (d :: rest) := by
  rw [MayFollow, MayFollow, List.getLast?_cons_cons]

/-- A chain that is cut from a line: only its first link has no operator, no operator stands in a
text, and no operator could have taken a mark from the text before it. -/
structure IsCut (chain : List Link) : Prop where
  separators : ∃ text later, chain = ⟨.first, text⟩ :: later ∧
    ∀ link ∈ later, link.separator ≠ .first
  uncut : ∀ link ∈ chain, Uncut link.text
  seams : chain.IsChain fun link next => next.separator.MayFollow link.text

section

variable {later : List Link} (hlater : ∀ link ∈ later, link.separator ≠ .first)

include hlater

theorem literal_joinChain {c : Char} :
    Literal c (joinChain later) ↔
      Literal c [] ∧ ∀ next ∈ later.head?, next.separator.MayFollow [c] := by
  cases later with
  | nil => simp [joinChain]
  | cons next later =>
    obtain ⟨hnext, -⟩ := List.forall_mem_cons.mp hlater
    rw [joinChain_cons]
    cases hseparator : next.separator with
    | first => exact absurd hseparator hnext
    | sequential | and | or => simp [Literal, Separator.MayFollow, Separator.text, hseparator]

theorem literalBefore_joinChain {text : Text} :
    LiteralBefore (joinChain later) text ↔
      Uncut text ∧ ∀ next ∈ later.head?, next.separator.MayFollow text := by
  induction text with
  | nil => simp [LiteralBefore, uncut_nil, Separator.mayFollow_nil]
  | cons c rest ih =>
    rw [LiteralBefore, ih, uncut_cons]
    cases rest with
    | nil =>
      rw [List.nil_append, literal_joinChain hlater]
      simp [uncut_nil, Separator.mayFollow_nil]
    | cons d rest =>
      -- The next character is one of the text, whatever comes behind the text.
      have hliteral : Literal c ((d :: rest) ++ joinChain later) ↔ Literal c (d :: rest) := Iff.rfl
      simp only [Separator.mayFollow_cons_cons, hliteral, and_assoc]

end

theorem literalChain_iff {link : Link} {later : List Link}
    (hlater : ∀ link ∈ later, link.separator ≠ .first) :
    LiteralChain (link :: later) ↔
      (∀ part ∈ link :: later, Uncut part.text) ∧
        (link :: later).IsChain fun link next => next.separator.MayFollow link.text := by
  induction later generalizing link with
  | nil => simp [LiteralChain, literalBefore_joinChain]
  | cons next later ih =>
    obtain ⟨-, hrest⟩ := List.forall_mem_cons.mp hlater
    have huncut : (∀ part ∈ link :: next :: later, Uncut part.text) ↔
        Uncut link.text ∧ ∀ part ∈ next :: later, Uncut part.text := List.forall_mem_cons
    rw [LiteralChain, literalBefore_joinChain hlater, ih hrest, huncut,
      List.isChain_cons (x := link)]
    exact and_and_and_comm

/-! ## Cutting and joining -/

theorem literalChain_splitAfter (separator : Separator) (line : Text) :
    LiteralChain (splitAfter separator line) := by
  induction line using line_induction generalizing separator with
  | nil => exact ⟨trivial, trivial⟩
  | operator next rest hnext ih =>
    rw [splitAfter_separator separator hnext]
    exact ⟨trivial, ih next⟩
  | literal c rest hc ih =>
    have hrest := ih separator
    have hjoin := joinChain_splitAfter separator rest
    obtain ⟨text, later, heq, -⟩ := splitAfter_eq_cons separator rest
    rw [splitAfter_literal separator hc, heq]
    rw [heq] at hrest
    rw [heq, joinChain_cons, List.append_assoc, List.append_cancel_left_eq] at hjoin
    rw [← hjoin] at hc
    exact ⟨⟨hc, hrest.1⟩, hrest.2⟩

theorem isCut_splitChain (line : Text) : IsCut (splitChain line) := by
  have hliteral := literalChain_splitAfter .first line
  obtain ⟨text, later, heq, hlater⟩ := splitAfter_eq_cons .first line
  rw [heq, literalChain_iff hlater] at hliteral
  rw [splitChain, heq]
  exact ⟨⟨text, later, rfl, hlater⟩, hliteral.1, hliteral.2⟩

theorem IsCut.splitChain_joinChain {chain : List Link} (h : IsCut chain) :
    splitChain (joinChain chain) = chain := by
  obtain ⟨⟨text, later, rfl, hlater⟩, huncut, hseams⟩ := h
  have hliteral : LiteralChain (⟨.first, text⟩ :: later) :=
    (literalChain_iff hlater).mpr ⟨huncut, hseams⟩
  rw [joinChain_cons]
  exact splitAfter_joinChain .first hliteral hlater

/-- **Cutting and joining are inverse.** The chain that a line is cut into is the one chain of
this form that is joined to the line. So every chain that is cut from a line is of this form and
gives the line back, and every chain of this form comes back when the line that it is joined to is
cut. -/
theorem splitChain_eq_iff (line : Text) (chain : List Link) :
    splitChain line = chain ↔ IsCut chain ∧ joinChain chain = line := by
  constructor
  · rintro rfl
    exact ⟨isCut_splitChain line, joinChain_splitChain line⟩
  · rintro ⟨hcut, rfl⟩
    exact hcut.splitChain_joinChain

-- Of three marks in a row, the first two are an operator and the third one is text.
example : splitChain "a&||b|&&&".toList =
    [⟨.first, "a&".toList⟩, ⟨.or, "b|".toList⟩, ⟨.and, "&".toList⟩] := by
  decide

end LineShell
