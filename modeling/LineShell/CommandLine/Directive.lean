import LineShell.Pattern.Check
import LineShell.Text.Cut

/-!
# Log directives

A directive says up to which level the messages of a target, or of a span in brackets with a
field in braces, are logged: `target[span{field=value}]=level`, where each part may be
missing. The value of a field is a number or a pattern.

A directive is read without the white space around it, but its parts are cut out of the
text as it was written, at the byte positions that were found. So white space in front
shifts every part, and may let a cut fall inside a character.

* `Directive.Problem`: why a directive is ignored.
* `Directive.Fault`: a directive is ignored, or cannot be cut.
* `Directive.fault?`: the first fault of a directive.
-/

namespace LineShell.Directive

inductive Problem where
  /-- It does not have the shape of a directive. -/
  | malformed
  /-- What follows `=` is no level. -/
  | unknownLevel
  /-- The pattern of a field cannot be used. -/
  | unusable (problem : Pattern.Problem)
deriving DecidableEq, Repr

def Problem.message : Problem → Text
  | malformed => "invalid filter directive".toList
  | unknownLevel =>
    "error parsing level filter: expected one of \"off\", \"error\", \"warn\", ".toList
      ++ "\"info\", \"debug\", \"trace\", or a number 0-5".toList
  | unusable problem => "invalid field filter: ".toList ++ problem.message

inductive Fault where
  | ignored (problem : Problem)
  /-- A part would have to be cut inside a character. -/
  | uncut
deriving DecidableEq, Repr

/-! ## Levels -/

def levelNames : List Text :=
  ["off".toList, "error".toList, "warn".toList, "info".toList, "debug".toList, "trace".toList]

/-- The text without one plus sign in front. -/
def unsigned (text : Text) : Text := if text.head? = some '+' then text.tail else text

/-- A level is named in any case of letters, or counted from zero. Nothing stands for every
level. -/
def isLevel (text : Text) : Bool :=
  text.isEmpty || levelNames.contains (text.map Char.toLower) ||
    (Text.number? (unsigned text)).any (· < levelNames.length)

/-! ## Fields -/

/-- An exponent, or nothing. -/
def isExponent : Text → Bool
  | [] => true
  | c :: rest =>
    let digits := if rest.head? = some '-' then rest.tail else unsigned rest
    (c = 'e' || c = 'E') && !digits.isEmpty && digits.all Char.isDigit

/-- Digits, perhaps with a point, and perhaps an exponent. -/
def isDecimal (text : Text) : Bool :=
  let rest := text.dropWhile Char.isDigit
  let fraction := if rest.head? = some '.' then rest.tail else []
  let scale := if rest.head? = some '.' then fraction.dropWhile Char.isDigit else rest
  !(text.takeWhile Char.isDigit ++ fraction.takeWhile Char.isDigit).isEmpty && isExponent scale

/-- A number, infinite ones and the one that is no number included. -/
def isNumber (text : Text) : Bool :=
  let size := if text.head? = some '-' then text.tail else unsigned text
  isDecimal size ||
    ["inf".toList, "infinity".toList, "nan".toList].contains (size.map Char.toLower)

/-- The value of a field stands between its first and its second `=`. -/
def valueOf? (field : Text) : Option Text :=
  match field.dropWhile (· != '=') with
  | [] => none
  | _ :: rest => some (rest.takeWhile (· != '='))

/-- Why a field cannot be used, if it cannot. -/
def fieldProblem? (field : Text) : Option Problem :=
  if field = [] then some .malformed
  else
    match valueOf? field with
    | none => none
    | some value => if isNumber value then none else (Pattern.problem? value).map .unusable

/-! ## Reading -/

/-- The part of a directive that is being read, with the position where it begins. -/
inductive Part where
  | start
  | target
  | span (first : Nat)
  | field (first : Nat)
  | afterField
  | afterSpan
deriving DecidableEq, Repr

/-- What a step of the reading comes to. -/
inductive Step where
  | next (part : Part)
  /-- The level follows. -/
  | level
  | fault (fault : Fault)
deriving DecidableEq, Repr

/-- Go on to a part, if the part before it can be cut out. -/
def Step.ofCut (text : Text) (first last : Nat) (part : Part) : Step :=
  if (text.cut? first last).isSome then next part else fault .uncut

/-- Go on behind a field, if it can be cut out and used. -/
def Step.ofField (text : Text) (first last : Nat) : Step :=
  match text.cut? first last with
  | none => fault .uncut
  | some field =>
    match fieldProblem? field with
    | some problem => fault (.ignored problem)
    | none => next .afterField

/-- Read a character at a position; the text is the whole directive. -/
def Part.step (text : Text) (position : Nat) : Part → Char → Step
  | start, c =>
    if c = '[' then .next (.span (position + 1))
    else if c = '-' ∨ c = ':' ∨ c = '_' ∨ isAlphanumeric c then .next target
    else .fault (.ignored .malformed)
  | target, c =>
    if c = '=' then if (text.cut? 0 position).isSome then .level else .fault .uncut
    else if c = '[' then .ofCut text 0 position (span (position + 1))
    else .next target
  | span first, c =>
    if c = ']' then .ofCut text first position afterSpan
    else if c = '\x7b' then .ofCut text first position (field (position + 1))
    else .next (span first)
  | field first, c =>
    if c = '\x7d' then .ofField text first position else .next (field first)
  | afterField, c => if c = ']' then .next afterSpan else .fault (.ignored .malformed)
  | afterSpan, c => if c = '=' then .level else .fault (.ignored .malformed)

/-- Whether a directive may end in a part. -/
def Part.isWhole : Part → Bool
  | target | afterSpan => true
  | _ => false

/-- The fault of the level that begins at a position. -/
def levelFault? (text : Text) (first : Nat) : Option Fault :=
  match text.dropBytes? first with
  | none => some .uncut
  | some level => if isLevel level then none else some (.ignored .unknownLevel)

/-- The first fault in what is still to be read. -/
def restFault? (text : Text) : Part → Nat → Text → Option Fault
  | part, _, [] => if part.isWhole then none else some (.ignored .malformed)
  | part, position, c :: rest =>
    match part.step text position c with
    | .next part => restFault? text part (position + c.utf8Size) rest
    | .level => levelFault? text (position + 1)
    | .fault fault => some fault

def fault? (text : Text) : Option Fault := restFault? text .start 0 text.trimmed

end LineShell.Directive
