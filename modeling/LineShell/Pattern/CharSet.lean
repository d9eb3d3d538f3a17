import LineShell.Pattern.Escape

/-!
# Sets of characters

A set stands between brackets. It is negated by `^` at its start, holds characters, ranges,
sets of its own and named sets such as `[:alpha:]`, and joins what stands left and right of
`&&`, `--` or `~~`.

* `Pattern.CharSet`: what has been read of a set, as far as its nesting goes.
* `Pattern.readSet?`: read a set behind its bracket; the result is how deep it nests.
-/

namespace LineShell.Pattern

/-- The part of a set that has been read. -/
structure CharSet where
  /-- How deep the operands before the last operator nest, if there was one. -/
  left : Option Nat := none
  /-- How many members have been read since. -/
  count : Nat := 0
  /-- How deep the deepest of them nests. -/
  deepest : Nat := 0
deriving DecidableEq, Repr

namespace CharSet

/-- The set with one more member. -/
def add (set : CharSet) (depth : Nat) : CharSet :=
  { set with count := set.count + 1, deepest := max set.deepest depth }

/-- How deep the set nests inside its brackets. Several members make a union, which is a
level of its own, and so is each operator. -/
def depth (set : CharSet) : Nat :=
  let right := if set.count ≤ 1 then set.deepest else set.deepest + 1
  match set.left with
  | some left => max left right + 1
  | none => right

/-- The set after an operator. -/
def operate (set : CharSet) : CharSet := { left := some set.depth }

end CharSet

def setNames : List Text :=
  ["alnum".toList, "alpha".toList, "ascii".toList, "blank".toList, "cntrl".toList,
    "digit".toList, "graph".toList, "lower".toList, "print".toList, "punct".toList,
    "space".toList, "upper".toList, "word".toList, "xdigit".toList]

/-- The rest behind a named set, and whether it is negated. The text begins behind its
bracket. -/
def readNamedSet? : Text → Option (Bool × Text)
  | ':' :: rest =>
    let negated := rest.head? = some '^'
    let named := if negated then rest.tail else rest
    match named.dropWhile (· != ':') with
    | ':' :: ']' :: after =>
      if setNames.contains (named.takeWhile (· != ':')) then some (negated, after) else none
    | _ => none
  | _ => none

/-- The dashes at the start of a set are members of it. -/
def readDashes (mode : Mode) : Nat → CharSet → Text → CharSet × Text
  | fuel + 1, set, '-' :: rest => readDashes mode fuel (set.add 0) (skip mode rest)
  | _, set, text => (set, text)

/-- Read the start of a set, behind its bracket. A closing bracket that comes first is a
member. A set of bytes cannot be negated. -/
def openSet? (mode : Mode) (text : Text) : Option (CharSet × Text) :=
  let text := skip mode text
  let negated := text.head? = some '^'
  let text := if negated then skip mode text.tail else text
  if negated && !mode.unicode then none
  else
    match readDashes mode text.length {} text with
    | (set, ']' :: rest) =>
      some (if set.count = 0 then (set.add 0, skip mode rest) else (set, ']' :: rest))
    | opened => some opened

/-- Read a character, or what an escape stands for. -/
def readMember? (mode : Mode) : Text → Option (Atom × Text)
  | [] => none
  | '\\' :: rest => readEscape? mode rest
  | c :: rest => some (.char c false, rest)

/-- Whether two atoms are the ends of a range. -/
def isRange (mode : Mode) (first last : Atom) : Bool :=
  match first, last with
  | .char low _, .char high _ =>
    first.isAllowedInSet mode && last.isAllowedInSet mode && low.toNat ≤ high.toNat
  | _, _ => false

/-- The rest behind a member or a range. A dash before the closing bracket or before
another dash makes no range. -/
def readRange? (mode : Mode) (text : Text) : Option Text :=
  match readMember? mode text with
  | none => none
  | some (first, rest) =>
    match skip mode rest with
    | '-' :: behind =>
      if glance mode behind = some ']' ∨ glance mode behind = some '-' then
        if first.isAllowedInSet mode then some ('-' :: behind) else none
      else
        match readMember? mode (skip mode behind) with
        | some (last, after) => if isRange mode first last then some after else none
        | none => none
    | after => if first.isAllowedInSet mode then some after else none

/-- Read on in a set that stands in other sets, the innermost first, and return how deep the
outermost one nests. Each turn takes at least one character. -/
def readMembers? (mode : Mode) : Nat → List CharSet → CharSet → Text → Option (Nat × Text)
  | 0, _, _, _ => none
  | fuel + 1, outer, set, text =>
    match skip mode text with
    | [] => none
    | '[' :: rest =>
      match readNamedSet? rest with
      | some (negated, after) =>
        if negated && !mode.unicode then none
        else readMembers? mode fuel outer (set.add 0) after
      | none =>
        match openSet? mode rest with
        | some (inner, after) => readMembers? mode fuel (set :: outer) inner after
        | none => none
    | ']' :: rest =>
      match outer with
      | [] => some (set.depth + 1, rest)
      | parent :: outer => readMembers? mode fuel outer (parent.add (set.depth + 1)) rest
    | '&' :: '&' :: rest => readMembers? mode fuel outer set.operate rest
    | '-' :: '-' :: rest => readMembers? mode fuel outer set.operate rest
    | '~' :: '~' :: rest => readMembers? mode fuel outer set.operate rest
    | text =>
      match readRange? mode text with
      | some rest => readMembers? mode fuel outer (set.add 0) rest
      | none => none

def readSet? (mode : Mode) (text : Text) : Option (Nat × Text) :=
  match openSet? mode text with
  | some (set, rest) => readMembers? mode (rest.length + 1) [] set rest
  | none => none

end LineShell.Pattern
