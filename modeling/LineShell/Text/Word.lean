import LineShell.Text.Basic

/-!
# Words

A word is a longest run of characters that are not blank. There is no quoting: blanks
always end a word.

* `isBlank`: space, tab, carriage return, newline and bell separate words; no other
  character does, form feed and the blanks outside ASCII included.
* `words`: the words of a text, in order. `words_append_blank` says that a blank always
  separates, and `words_eq_singleton` that nothing else does.
-/

namespace LineShell

def isBlank (c : Char) : Bool :=
  c == ' ' || c == '\t' || c == '\r' || c == '\n' || c == '\x07'

def words (text : Text) : List Text :=
  (text.splitOnP isBlank).filter (fun piece => !piece.isEmpty)

@[simp] theorem words_nil : words [] = [] := by
  simp [words]

theorem words_append_blank (a b : Text) {blank : Char} (h : isBlank blank = true) :
    words (a ++ blank :: b) = words a ++ words b := by
  simp only [words, List.splitOnP_append_cons a b h, List.filter_append]

theorem words_cons_blank (text : Text) {blank : Char} (h : isBlank blank = true) :
    words (blank :: text) = words text := by
  simpa using words_append_blank [] text h

theorem words_eq_singleton {word : Text} (hne : word ≠ [])
    (h : ∀ c, c ∈ word → isBlank c = false) : words word = [word] := by
  simp [words, List.splitOnP_eq_singleton h, hne]

end LineShell
