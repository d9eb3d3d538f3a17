import LineShell.Text.Basic

/-!
# Classes of characters

A class of characters is a list of closed ranges of code points, ascending and apart.

* `CharClass.has`: membership.
* `CharClass.whitespace`: the white space of Unicode.
* `Text.trimmed`: a text without the white space at its two ends.
-/

namespace LineShell

structure CharClass where
  ranges : List (Nat × Nat)
deriving DecidableEq, Repr

namespace CharClass

def has (cls : CharClass) (c : Char) : Bool :=
  cls.ranges.any (fun range => range.1 ≤ c.toNat && c.toNat ≤ range.2)

def whitespace : CharClass :=
  ⟨[(0x09, 0x0D), (0x20, 0x20), (0x85, 0x85), (0xA0, 0xA0), (0x1680, 0x1680),
    (0x2000, 0x200A), (0x2028, 0x2029), (0x202F, 0x202F), (0x205F, 0x205F), (0x3000, 0x3000)]⟩

end CharClass

namespace Text

def trimmed (text : Text) : Text :=
  ((text.dropWhile CharClass.whitespace.has).reverse.dropWhile
    CharClass.whitespace.has).reverse

end Text

end LineShell
