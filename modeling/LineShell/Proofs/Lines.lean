import LineShell.Text.Lines
import Mathlib.Data.List.Forall2

/-!
# Inputs and their lines

* `cutLines_append`: an input that ends at a line end and a further input are cut one after the
  other.
* `EqOrReturn`: a line is another one, or has a carriage return more at its end.
* `cutLines_withReturns`, `cutLines_concat`: no more than that becomes of the lines if a carriage
  return is put in front of every newline, or if a newline is put behind a line that has none.
-/

namespace LineShell

/-! ## Ends of inputs and of lines -/

section

variable {α : Type} {newline carriageReturn : α}

/-- The input is empty or ends at the end of a line. -/
def EndsLine (newline : α) (input : List α) : Prop := ∀ last ∈ input.getLast?, last = newline

instance [DecidableEq α] (input : List α) : Decidable (EndsLine newline input) :=
  inferInstanceAs (Decidable (∀ last ∈ input.getLast?, last = newline))

theorem EndsLine.tail {a : α} {rest : List α} (h : EndsLine newline (a :: rest)) :
    EndsLine newline rest := by
  intro last hlast
  apply h last
  rw [List.getLast?_cons, hlast]
  rfl

/-- The first line is the second, or the second with a carriage return at its end. -/
def EqOrReturn (carriageReturn : α) (a b : List α) : Prop := a = b ∨ a = b ++ [carriageReturn]

theorem EqOrReturn.cons {a b : List α} (h : EqOrReturn carriageReturn a b) (c : α) :
    EqOrReturn carriageReturn (c :: a) (c :: b) := by
  rcases h with rfl | rfl
  · exact Or.inl rfl
  · exact Or.inr rfl

theorem forall₂_consFirst (c : α) {first second : List (List α)}
    (h : List.Forall₂ (EqOrReturn carriageReturn) first second) :
    List.Forall₂ (EqOrReturn carriageReturn) (consFirst c first) (consFirst c second) := by
  cases h with
  | nil => exact .cons (Or.inl rfl) .nil
  | cons hline hlater => exact .cons (hline.cons c) hlater

theorem consFirst_append (a : α) {first : List (List α)} (h : first ≠ [])
    (later : List (List α)) : consFirst a (first ++ later) = consFirst a first ++ later := by
  cases first with
  | nil => exact absurd rfl h
  | cons line first => rfl

end

variable {α : Type} [DecidableEq α] {newline carriageReturn : α}

/-! ## One input after another -/

theorem cutLines_ne_nil {input : List α} (h : input ≠ []) :
    cutLines newline carriageReturn input ≠ [] := by
  fun_induction cutLines newline carriageReturn input with
  | case1 => exact absurd rfl h
  | case2 => exact List.cons_ne_nil _ _
  | case3 => exact List.cons_ne_nil _ _
  | case4 => exact List.cons_ne_nil _ _
  | case5 => exact List.cons_ne_nil _ _
  | case6 a b rest _ _ ih =>
    cases hcut : cutLines newline carriageReturn (b :: rest) with
    | nil => exact absurd hcut (ih (List.cons_ne_nil b rest))
    | cons line later => exact List.cons_ne_nil _ _

theorem cutLines_newline (newline carriageReturn : α) (rest : List α) :
    cutLines newline carriageReturn (newline :: rest) =
      [] :: cutLines newline carriageReturn rest := by
  cases rest with
  | nil => simp [cutLines]
  | cons b rest => rw [cutLines, if_pos rfl]

theorem cutLines_return_newline (hne : carriageReturn ≠ newline) (rest : List α) :
    cutLines newline carriageReturn (carriageReturn :: newline :: rest) =
      [] :: cutLines newline carriageReturn rest := by
  rw [cutLines, if_neg hne, if_pos ⟨rfl, rfl⟩]

theorem cutLines_cons_cons {a b : α} (ha : a ≠ newline)
    (hreturn : ¬ (a = carriageReturn ∧ b = newline)) (rest : List α) :
    cutLines newline carriageReturn (a :: b :: rest) =
      consFirst a (cutLines newline carriageReturn (b :: rest)) := by
  rw [cutLines, if_neg ha, if_neg hreturn]

theorem cutLines_append {first : List α} (h : EndsLine newline first) (later : List α) :
    cutLines newline carriageReturn (first ++ later) =
      cutLines newline carriageReturn first ++ cutLines newline carriageReturn later := by
  fun_induction cutLines newline carriageReturn first with
  | case1 => rfl
  | case2 => exact cutLines_newline newline carriageReturn later
  | case3 a hne => exact absurd (h a rfl) hne
  | case4 b rest ih =>
    have hrest := ih h.tail
    rw [List.cons_append, cutLines_newline, hrest, List.cons_append]
  | case5 a b rest hne hreturn ih =>
    obtain ⟨rfl, rfl⟩ := hreturn
    have hrest := ih h.tail.tail
    rw [List.cons_append, List.cons_append, cutLines_return_newline hne, hrest, List.cons_append]
  | case6 a b rest hne hreturn ih =>
    have hrest := ih h.tail
    rw [List.cons_append] at hrest
    rw [List.cons_append, List.cons_append, cutLines_cons_cons hne hreturn, hrest]
    exact consFirst_append a (cutLines_ne_nil (List.cons_ne_nil b rest)) _

/-! ## Carriage returns -/

/-- The input with a carriage return in front of every newline. -/
def withReturns (newline carriageReturn : α) (input : List α) : List α :=
  input.flatMap (fun a => if a = newline then [carriageReturn, newline] else [a])

theorem withReturns_newline (newline carriageReturn : α) (rest : List α) :
    withReturns newline carriageReturn (newline :: rest) =
      carriageReturn :: newline :: withReturns newline carriageReturn rest := by
  rw [withReturns, List.flatMap_cons, if_pos rfl]
  rfl

theorem withReturns_cons {a : α} (h : a ≠ newline) (rest : List α) :
    withReturns newline carriageReturn (a :: rest) =
      a :: withReturns newline carriageReturn rest := by
  rw [withReturns, List.flatMap_cons, if_neg h]
  rfl

theorem cutLines_withReturns (hne : carriageReturn ≠ newline) (input : List α) :
    List.Forall₂ (EqOrReturn carriageReturn)
      (cutLines newline carriageReturn (withReturns newline carriageReturn input))
      (cutLines newline carriageReturn input) := by
  fun_induction cutLines newline carriageReturn input with
  | case1 => exact .nil
  | case2 =>
    rw [withReturns_newline, cutLines_return_newline hne]
    exact .cons (Or.inl rfl) .nil
  | case3 a ha =>
    rw [withReturns_cons ha, withReturns, List.flatMap_nil, cutLines, if_neg ha]
    exact .cons (Or.inl rfl) .nil
  | case4 b rest ih =>
    rw [withReturns_newline, cutLines_return_newline hne]
    exact .cons (Or.inl rfl) ih
  | case5 a b rest ha hreturn ih =>
    obtain ⟨rfl, rfl⟩ := hreturn
    -- The line ends in a carriage return of its own, and this one is left.
    have hleft : ¬ (a = a ∧ a = b) := fun h => hne h.2
    rw [withReturns_cons hne, withReturns_newline, cutLines_cons_cons hne hleft,
      cutLines_return_newline hne]
    exact .cons (Or.inr rfl) ih
  | case6 a b rest ha hreturn ih =>
    rw [withReturns_cons ha]
    by_cases hb : b = newline
    · rw [hb, withReturns_newline] at ih ⊢
      have hleft : ¬ (a = carriageReturn ∧ carriageReturn = newline) := fun h => hne h.2
      rw [cutLines_cons_cons ha hleft]
      exact forall₂_consFirst a ih
    · rw [withReturns_cons hb] at ih ⊢
      rw [cutLines_cons_cons ha hreturn]
      exact forall₂_consFirst a ih

/-- A newline behind the last line takes at most a carriage return from it. -/
theorem cutLines_concat {input : List α} (hempty : input ≠ [])
    (hlast : input.getLast? ≠ some newline) :
    List.Forall₂ (EqOrReturn carriageReturn) (cutLines newline carriageReturn input)
      (cutLines newline carriageReturn (input ++ [newline])) := by
  fun_induction cutLines newline carriageReturn input with
  | case1 => exact absurd rfl hempty
  | case2 => exact absurd rfl hlast
  | case3 a ha =>
    rw [List.singleton_append]
    by_cases hreturn : a = carriageReturn
    · rw [hreturn, cutLines_return_newline (hreturn ▸ ha)]
      exact .cons (Or.inr rfl) .nil
    · rw [cutLines_cons_cons ha (fun h => hreturn h.1), cutLines_newline]
      exact .cons (Or.inl rfl) .nil
  | case4 b rest ih =>
    rw [List.getLast?_cons_cons] at hlast
    have hrest := ih (List.cons_ne_nil b rest) hlast
    rw [List.cons_append, cutLines_newline]
    exact .cons (Or.inl rfl) hrest
  | case5 a b rest ha hreturn ih =>
    obtain ⟨rfl, rfl⟩ := hreturn
    cases rest with
    | nil => exact absurd rfl hlast
    | cons c rest =>
      rw [List.getLast?_cons_cons, List.getLast?_cons_cons] at hlast
      have hrest := ih (List.cons_ne_nil c rest) hlast
      rw [List.cons_append, List.cons_append, cutLines_return_newline ha]
      exact .cons (Or.inl rfl) hrest
  | case6 a b rest ha hreturn ih =>
    rw [List.getLast?_cons_cons] at hlast
    have hrest := ih (List.cons_ne_nil b rest) hlast
    rw [List.cons_append] at hrest
    rw [List.cons_append, List.cons_append, cutLines_cons_cons ha hreturn]
    exact forall₂_consFirst a hrest

/-! ## A last line -/

theorem cutLines_of_not_mem {line : List α} (hempty : line ≠ []) (h : newline ∉ line) :
    cutLines newline carriageReturn line = [line] := by
  induction line with
  | nil => exact absurd rfl hempty
  | cons a rest ih =>
    rw [List.mem_cons, not_or] at h
    obtain ⟨ha, hrest⟩ := h
    cases rest with
    | nil => rw [cutLines, if_neg (Ne.symm ha)]
    | cons b rest =>
      have hb : b ≠ newline := fun hb => hrest (hb ▸ List.mem_cons_self)
      rw [cutLines_cons_cons (Ne.symm ha) (fun hreturn => hb hreturn.2),
        ih (List.cons_ne_nil b rest) hrest, consFirst]

end LineShell
