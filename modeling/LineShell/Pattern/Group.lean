import LineShell.Pattern.Basic

/-!
# Groups

What can stand behind an opening parenthesis.

* `Pattern.Opening`: the start of a group, with the name it may have, or a change of the mode.
* `Pattern.readOpening?`: read it.
-/

namespace LineShell.Pattern

inductive Opening where
  /-- A group, with the mode inside it. -/
  | group (mode : Mode)
  /-- A group with a name. -/
  | named (name : Text)
  /-- A change of the mode for the rest of the group around it. -/
  | change (mode : Mode)
deriving DecidableEq, Repr

/-! ## Names -/

def isNameStart (c : Char) : Bool := c = '_' || isAlphabetic c

def isNameRest (c : Char) : Bool :=
  c = '_' || c = '.' || c = '[' || c = ']' || isAlphanumeric c

def isName : Text → Bool
  | [] => false
  | c :: rest => isNameStart c && rest.all isNameRest

/-- The name up to `>`. -/
def readName? (text : Text) : Option (Opening × Text) :=
  match text.dropWhile (· != '>') with
  | _ :: rest =>
    let name := text.takeWhile (· != '>')
    if isName name then some (.named name, rest) else none
  | [] => none

/-! ## Flags -/

/-- The mode after a flag. Flags other than these two do not matter here. -/
def Mode.set (mode : Mode) (flag : Char) (value : Bool) : Mode :=
  if flag = 'u' then { mode with unicode := value }
  else if flag = 'x' then { mode with loose := value }
  else mode

/-- Read flags up to `:` or `)`. Those behind a dash are switched off. No flag comes twice,
none is missing behind the dash, and a bare change needs one. -/
def readFlags? : (seen : List Char) → Mode → Text → Option (Opening × Text)
  | _, _, [] => none
  | seen, mode, c :: rest =>
    if c = ':' ∨ c = ')' then
      if seen.head? = some '-' then none
      else if c = ':' then some (.group mode, rest)
      else if seen = [] then none
      else some (.change mode, rest)
    else if seen.contains c then none
    else if "-imsUuRx".toList.contains c then
      readFlags? (c :: seen) (mode.set c (!seen.contains '-')) rest
    else none

/-- Read what follows the parenthesis. Looking around is refused. -/
def readOpening? (mode : Mode) (text : Text) : Option (Opening × Text) :=
  match skip mode text with
  | '?' :: '=' :: _ => none
  | '?' :: '!' :: _ => none
  | '?' :: '<' :: '=' :: _ => none
  | '?' :: '<' :: '!' :: _ => none
  | '?' :: 'P' :: '<' :: rest => readName? rest
  | '?' :: '<' :: rest => readName? rest
  | '?' :: rest => readFlags? [] mode rest
  | rest => some (.group mode, rest)

end LineShell.Pattern
