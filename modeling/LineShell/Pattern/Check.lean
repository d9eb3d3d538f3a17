import LineShell.Pattern.CharSet
import LineShell.Pattern.Group

/-!
# Checking a pattern

A pattern is read once, from left to right, with a stack of the groups that are open.

* `Pattern.Level`: a group that is open, as far as its nesting goes.
* `Pattern.Reading`: what has been read.
* `Pattern.problem?`: why a pattern cannot be used, if it cannot. A pattern that is not
  well formed or nests too deep is malformed; only then the edges of words count.
-/

namespace LineShell.Pattern

/-- The deepest that the parts of a pattern may nest. -/
def maxDepth : Nat := 250

/-! ## Open groups -/

/-- What has been read of a group, or of the whole pattern. -/
structure Level where
  /-- The mode that holds at the moment. -/
  mode : Mode
  /-- How deep the finished alternatives nest, if there are any. -/
  branches : Option Nat := none
  /-- The parts of the present alternative, the last one first: how deep they nest, or
  nothing for a change of the mode. -/
  parts : List (Option Nat) := []
deriving DecidableEq, Repr

namespace Level

/-- How deep the present alternative nests. Several parts make a level of their own. -/
def branch (level : Level) : Nat :=
  match level.parts with
  | [] => 0
  | [part] => part.getD 0
  | parts => parts.foldl (fun depth part => max depth (part.getD 0)) 0 + 1

/-- How deep the whole nests. Alternatives make a level of their own. -/
def depth (level : Level) : Nat :=
  match level.branches with
  | some branches => max branches level.branch + 1
  | none => level.branch

def add (level : Level) (part : Option Nat) : Level :=
  { level with parts := part :: level.parts }

/-- The level after a bar. -/
def alternate (level : Level) : Level :=
  { level with branches := some (max (level.branches.getD 0) level.branch), parts := [] }

/-- The level with its last part repeated. -/
def repeat? (level : Level) : Option Level :=
  match level.parts with
  | some depth :: parts => some { level with parts := some (depth + 1) :: parts }
  | _ => none

end Level

/-! ## Reading -/

structure Reading where
  level : Level
  /-- The groups around it, the innermost first. -/
  outer : List Level := []
  /-- The names that groups have. -/
  names : List Text := []
  /-- Whether an edge of a word has been asked for, in the sense of Unicode. -/
  boundary : Bool := false
deriving DecidableEq, Repr

namespace Reading

def add (r : Reading) (part : Option Nat) : Reading := { r with level := r.level.add part }

/-- Start a group. -/
def enter (r : Reading) (mode : Mode) : Reading :=
  { r with level := { mode := mode }, outer := r.level :: r.outer }

/-- End a group. The mode is again the one around it. -/
def leave? (r : Reading) : Option Reading :=
  match r.outer with
  | [] => none
  | parent :: outer =>
    some { r with level := parent.add (some (r.level.depth + 1)), outer := outer }

def open? (r : Reading) : Opening → Option Reading
  | .group mode => some (r.enter mode)
  | .named name =>
    if r.names.contains name then none
    else some { r.enter r.level.mode with names := name :: r.names }
  | .change mode => some { r with level := { r.level.add none with mode := mode } }

def atom? (r : Reading) (atom : Atom) : Option Reading :=
  if atom.isAllowed r.level.mode then
    let boundary := r.boundary || (atom = .boundary && r.level.mode.unicode)
    some { r.add (some 0) with boundary := boundary }
  else none

/-- Read one part or sign; the text is not empty and does not begin with what is skipped. -/
def step? (r : Reading) : Text → Option (Reading × Text)
  | [] => none
  | '(' :: rest =>
    match readOpening? r.level.mode rest with
    | some (opening, after) => (r.open? opening).map (fun r => (r, after))
    | none => none
  | ')' :: rest => r.leave?.map (fun r => (r, rest))
  | '|' :: rest => some ({ r with level := r.level.alternate }, rest)
  | '[' :: rest =>
    (readSet? r.level.mode rest).map (fun read => (r.add (some read.1), read.2))
  | '\x7b' :: _ => none
  | '\\' :: rest =>
    match readEscape? r.level.mode rest with
    | some (atom, after) => (r.atom? atom).map (fun r => (r, after))
    | none => none
  | c :: rest =>
    if c = '?' ∨ c = '*' ∨ c = '+' then
      let after := if rest.head? = some '?' then rest.tail else rest
      r.level.repeat?.map (fun level => ({ r with level := level }, after))
    else
      let atom : Atom :=
        if c = '.' then .any else if c = '^' ∨ c = '$' then .anchor else .char c false
      (r.atom? atom).map (fun r => (r, rest))

/-- Read to the end. Each turn takes at least one character. -/
def all? : Nat → Reading → Text → Option Reading
  | 0, _, _ => none
  | fuel + 1, r, text =>
    match skip r.level.mode text with
    | [] => if r.outer = [] then some r else none
    | rest =>
      match r.step? rest with
      | some (r, rest) => all? fuel r rest
      | none => none

end Reading

def problem? (text : Text) : Option Problem :=
  match Reading.all? (text.length + 1) { level := { mode := {} } } text with
  | none => some .malformed
  | some r =>
    if maxDepth < r.level.depth then some .malformed
    else if r.boundary then some .unicodeBoundary
    else none

end LineShell.Pattern
