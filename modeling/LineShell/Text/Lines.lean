import LineShell.Text.Utf8

/-!
# Lines of an input

* `cutLines`: the pieces of a list that end at a newline. One carriage return directly
  before the newline belongs to the line end; a last piece without a newline is kept as it
  is, and no piece follows a final newline.
* `readLines`: the lines of a byte input, each decoded on its own.

`cutLines` takes the two marks as arguments, so bytes and characters are cut by one rule.
-/

namespace LineShell

/-- Put an element in front of the first list. -/
def consFirst {α : Type} (a : α) : List (List α) → List (List α)
  | [] => [[a]]
  | first :: others => (a :: first) :: others

def cutLines {α : Type} [DecidableEq α] (newline carriageReturn : α) : List α → List (List α)
  | [] => []
  | [a] => if a = newline then [[]] else [[a]]
  | a :: b :: rest =>
    if a = newline then
      [] :: cutLines newline carriageReturn (b :: rest)
    else if a = carriageReturn ∧ b = newline then
      [] :: cutLines newline carriageReturn rest
    else
      consFirst a (cutLines newline carriageReturn (b :: rest))

/-- The lines of an input, in order. -/
def readLines (input : Bytes) : List Text := (cutLines 0x0A 0x0D input).map Utf8.decode

end LineShell
