import LineShell.Pattern.Basic

/-!
# Escapes

What a backslash in a pattern stands for, with the text behind it.

* `Pattern.readEscape?`: read what follows the backslash.
-/

namespace LineShell.Pattern

def hexDigit? (c : Char) : Option Nat :=
  if c.isDigit then some (c.toNat - '0'.toNat)
  else if 'a' ≤ c ∧ c ≤ 'f' then some (c.toNat - 'a'.toNat + 10)
  else if 'A' ≤ c ∧ c ≤ 'F' then some (c.toNat - 'A'.toNat + 10)
  else none

/-- Read so many hexadecimal digits, continuing a value. -/
def readHex? (mode : Mode) : Nat → Nat → Text → Option (Nat × Text)
  | 0, value, text => some (value, text)
  | _ + 1, _, [] => none
  | count + 1, value, c :: rest =>
    match hexDigit? c with
    | some digit => readHex? mode count (16 * value + digit) (skip mode rest)
    | none => none

/-- The character whose code has so many hexadecimal digits. -/
def readCode? (mode : Mode) (count : Nat) (text : Text) : Option (Atom × Text) :=
  match readHex? mode count 0 (skip mode text) with
  | some (value, rest) =>
    if value.isValidChar then some (.char (Char.ofNat value) (count = 2), rest) else none
  | none => none

/-- The property whose letter follows. -/
def readProperty? (mode : Mode) (text : Text) : Option (Atom × Text) :=
  match skip mode text with
  | [] => none
  | letter :: rest => some (.property letter, skip mode rest)

/-- Letters and digits have meanings of their own behind a backslash, and so have `<` and
`>`; all else in ASCII stands for itself. -/
def isPlainEscape (c : Char) : Bool :=
  Atom.isAscii c && !c.isAlphanum && c != '<' && c != '>'

def readEscape? (mode : Mode) : Text → Option (Atom × Text)
  | [] => none
  | c :: rest =>
    if c = 'x' then readCode? mode 2 rest
    else if c = 'u' then readCode? mode 4 rest
    else if c = 'U' then readCode? mode 8 rest
    else if c = 'p' ∨ c = 'P' then readProperty? mode rest
    else if "dsw".toList.contains c then some (.shorthand false, rest)
    else if "DSW".toList.contains c then some (.shorthand true, rest)
    else if isPlainEscape c then some (.char c false, rest)
    else if c = 'a' then some (.char '\x07' false, rest)
    else if c = 'f' then some (.char '\x0c' false, rest)
    else if c = 't' then some (.char '\t' false, rest)
    else if c = 'n' then some (.char '\n' false, rest)
    else if c = 'r' then some (.char '\r' false, rest)
    else if c = 'v' then some (.char '\x0b' false, rest)
    else if c = 'A' ∨ c = 'z' then some (.anchor, rest)
    else if "bB<>".toList.contains c then some (.boundary, rest)
    else none

end LineShell.Pattern
