/-!
# Text and bytes

A text is the list of its characters, so that every scanner below is a structural
recursion. Input and output are byte lists.

* `Text.byteSize`: the length of a text in UTF-8 bytes.
* `Text.precedes`: the order in which names and variables are sorted.
* `Text.decimal`, `Text.signed`: numbers as they are written in messages and expansions.
* `Text.number?`: the value of a text of decimal digits.
* `Text.quoted`: a text between single quotes, the way messages name an argument.
-/

namespace LineShell

abbrev Text := List Char

abbrev Bytes := List UInt8

namespace Text

/-- Length in UTF-8 bytes. -/
def byteSize : Text → Nat
  | [] => 0
  | c :: rest => c.utf8Size + byteSize rest

@[simp] theorem byteSize_nil : byteSize [] = 0 := rfl

@[simp] theorem byteSize_cons (c : Char) (text : Text) :
    byteSize (c :: text) = c.utf8Size + byteSize text := rfl

@[simp] theorem byteSize_append (a b : Text) : byteSize (a ++ b) = byteSize a + byteSize b := by
  induction a with
  | nil => simp
  | cons c rest ih => simp [ih, Nat.add_assoc]

/-- The order by code points, which is also the order of the UTF-8 forms by bytes. -/
def precedes : Text → Text → Bool
  | [], _ => true
  | _ :: _, [] => false
  | c :: a, d :: b => if c = d then precedes a b else decide (c.toNat < d.toNat)

/-! ## Numbers -/

/-- Decimal digits without leading zeros. -/
def decimal (n : Nat) : Text := Nat.toDigits 10 n

/-- A minus sign for a negative number, then the digits of its size. -/
def signed (n : Int) : Text :=
  if n < 0 then '-' :: decimal n.natAbs else decimal n.natAbs

/-- The number written by a list of digits; any other character counts by its distance
from `0`, so this is only read where every character is a digit. -/
def digitsValue (text : Text) : Nat :=
  text.foldl (fun value c => 10 * value + (c.toNat - '0'.toNat)) 0

/-- The value of a non-empty text of ASCII digits; leading zeros are allowed. -/
def number? (text : Text) : Option Nat :=
  if text ≠ [] ∧ text.all Char.isDigit then some (digitsValue text) else none

/-! ## Pieces of messages -/

/-- The text between single quotes. -/
def quoted (text : Text) : Text := '\'' :: text ++ ['\'']

/-- The lines of a fixed text, each ended by a newline. -/
def ofLines (lines : List Text) : Text := lines.flatMap (· ++ ['\n'])

end Text

end LineShell
