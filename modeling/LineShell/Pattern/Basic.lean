import LineShell.Text.Numeric

/-!
# Patterns

A pattern is a regular expression that a log filter compares the value of a field with.
Nothing is ever matched here: a pattern is only read, to see whether it can be used.

* `Pattern.Mode`: the two settings of a pattern that decide what may stand in it.
* `Pattern.Atom`: a part of a pattern without parts of its own. `Atom.isAllowed` and
  `Atom.isAllowedInSet` say where it may stand.
* `Pattern.Problem`: why a pattern cannot be used.
* `Pattern.skip`: the blanks and comments that the mode passes over.

The text of a pattern holds no `\x7d` after a `\x7b`, because that ends the field it belongs to.
So whatever opens a brace is refused, and only properties of one letter can be named.
-/

namespace LineShell.Pattern

structure Mode where
  /-- Characters are those of Unicode. Otherwise bytes are meant, and those of ASCII only. -/
  unicode : Bool := true
  /-- White space and comments are passed over. -/
  loose : Bool := false
deriving DecidableEq, Repr

inductive Problem where
  | malformed
  /-- The edge of a word is asked for, in the sense of Unicode. -/
  | unicodeBoundary
deriving DecidableEq, Repr

def Problem.message : Problem → Text
  | malformed => "error building NFA".toList
  | unicodeBoundary =>
    "unsupported regex feature for DFAs: cannot build DFAs for regexes with Unicode ".toList
      ++ "word boundaries; switch to ASCII word boundaries, or heuristically enable ".toList
      ++ "Unicode word boundaries or use a different regex engine".toList

inductive Atom where
  /-- A character. `asByte` tells that it is written with two hexadecimal digits. -/
  | char (c : Char) (asByte : Bool)
  /-- The digits, the blanks or the characters of words, or all others if negated. -/
  | shorthand (negated : Bool)
  /-- The characters with a property that is named by one letter. -/
  | property (letter : Char)
  /-- Any character. -/
  | any
  /-- The start or the end of a line or of the whole text. -/
  | anchor
  /-- The edge of a word, or no edge of a word. -/
  | boundary
deriving DecidableEq, Repr

namespace Atom

/-- The general categories of characters that have a name of one letter, in either case. -/
def isProperty (letter : Char) : Bool := "clmnpszCLMNPSZ".toList.contains letter

def isAscii (c : Char) : Bool := c.toNat ≤ 0x7F

/-- Bytes beyond ASCII would match what is no text. -/
def isAllowed (mode : Mode) : Atom → Bool
  | char c asByte => mode.unicode || !asByte || isAscii c
  | shorthand negated => mode.unicode || !negated
  | property letter => mode.unicode && isProperty letter
  | any => mode.unicode
  | anchor => true
  | boundary => true

/-- In a set of characters there are no places, and a set of bytes holds no characters. -/
def isAllowedInSet (mode : Mode) : Atom → Bool
  | char c _ => mode.unicode || isAscii c
  | shorthand negated => mode.unicode || !negated
  | property letter => mode.unicode && isProperty letter
  | any => false
  | anchor => false
  | boundary => false

end Atom

/-! ## Blanks and comments -/

/-- Drop white space and comments. A comment begins with `#` and ends with its line. -/
def dropLoose : (inComment : Bool) → Text → Text
  | _, [] => []
  | true, c :: rest => dropLoose (c != '\n') rest
  | false, c :: rest =>
    if c = '#' then dropLoose true rest
    else if CharClass.whitespace.has c then dropLoose false rest
    else c :: rest

def skip (mode : Mode) (text : Text) : Text :=
  if mode.loose then dropLoose false text else text

/-- The next character that counts when a set looks ahead. Of a comment it sees the first
character, and of a rest that holds nothing else the blank. -/
def glance (mode : Mode) (text : Text) : Option Char :=
  if mode.loose then
    let seen :=
      match text.dropWhile CharClass.whitespace.has with
      | '#' :: rest => rest.dropWhile CharClass.whitespace.has
      | rest => rest
    seen.head?.or text.head?
  else text.head?

end LineShell.Pattern
