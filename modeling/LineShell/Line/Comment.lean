import LineShell.Text.Basic

/-!
# Comments

A `#` begins a comment at the very start of a line and right after a space, a tab or `;`.
Anywhere else it is an ordinary character, so a word may hold one.

* `stripComment`: the line before its comment, or nothing when the line is a comment as a
  whole. The two are told apart because a whole comment is not counted as a line of input.
-/

namespace LineShell

/-- A comment may begin after this character. -/
def opensComment (c : Char) : Bool := c == ' ' || c == '\t' || c == ';'

/-- The text before its first comment, where `mayBegin` says whether one may begin here. -/
def beforeComment (mayBegin : Bool) : Text → Text
  | [] => []
  | c :: rest =>
    if c == '#' && mayBegin then [] else c :: beforeComment (opensComment c) rest

def stripComment : Text → Option Text
  | '#' :: _ => none
  | line => some (beforeComment false line)

@[simp] theorem stripComment_hash (rest : Text) : stripComment ('#' :: rest) = none := rfl

end LineShell
