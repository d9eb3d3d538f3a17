import LineShell.Text.Word

/-!
# Operators and where they may stand

The marks `;`, `&` and `|` are read greedily: two equal marks side by side are one
operator. Only `;`, `&&` and `||` separate commands, and each of them must follow the text
of a command, which is anything that is not blank.

* `Operator.separates`: whether an operator may stand between two commands.
* `misplaced`: the first operator of a line that separates nothing or follows no command.
-/

namespace LineShell

inductive Mark where
  | semicolon
  | ampersand
  | bar
deriving DecidableEq, Repr

namespace Mark

def char : Mark → Char
  | semicolon => ';'
  | ampersand => '&'
  | bar => '|'

def ofChar? (c : Char) : Option Mark :=
  if c = ';' then some semicolon
  else if c = '&' then some ampersand
  else if c = '|' then some bar
  else none

@[simp] theorem ofChar?_char (m : Mark) : ofChar? m.char = some m := by
  cases m <;> rfl

theorem ofChar?_eq_some_iff {c : Char} {m : Mark} : ofChar? c = some m ↔ c = m.char := by
  constructor
  · intro h
    unfold ofChar? at h
    split at h
    · cases h; assumption
    · split at h
      · cases h; assumption
      · split at h
        · cases h; assumption
        · cases h
  · rintro rfl
    exact ofChar?_char m

end Mark

structure Operator where
  mark : Mark
  doubled : Bool
deriving DecidableEq, Repr

namespace Operator

def text (op : Operator) : Text :=
  if op.doubled then [op.mark.char, op.mark.char] else [op.mark.char]

/-- `;`, `&&` and `||` separate commands; `;;` and a lone `&` or `|` do not. -/
def separates (op : Operator) : Bool := op.doubled != (op.mark == .semicolon)

/-- The operator itself, unless it separates commands and follows one. -/
def refused? (op : Operator) (hasCommand : Bool) : Option Operator :=
  if hasCommand && op.separates then none else some op

end Operator

/-- The first operator that is out of place; `hasCommand` says whether the text since the
last operator holds anything but blanks. -/
def misplacedFrom (hasCommand : Bool) : Text → Option Operator
  | [] => none
  | [c] =>
    match Mark.ofChar? c with
    | none => none
    | some mark => (Operator.mk mark false).refused? hasCommand
  | c :: d :: rest =>
    match Mark.ofChar? c with
    | none => misplacedFrom (hasCommand || !isBlank c) (d :: rest)
    | some mark =>
      if c = d then
        ((Operator.mk mark true).refused? hasCommand).or (misplacedFrom false rest)
      else
        ((Operator.mk mark false).refused? hasCommand).or (misplacedFrom false (d :: rest))

def misplaced (line : Text) : Option Operator := misplacedFrom false line

end LineShell
