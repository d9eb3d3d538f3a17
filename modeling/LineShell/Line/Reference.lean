import LineShell.Text.Basic

/-!
# References to variables

A `$` begins a reference when it is followed by `?`, by another `$`, or by ASCII letters,
digits and underscores, of which as many as possible belong to the name. Any other `$`
stands for itself.

* `Piece`, `pieces`: a line as a list of plain characters and references.
* `substitute`: the line with each reference replaced by its value. Values are copied and
  never read again.
* `substitutions`: where the references stand, in UTF-8 bytes, with their values.
-/

namespace LineShell

inductive Reference where
  /-- `$?`, the last status. -/
  | status
  /-- `$$`, the process id. -/
  | processId
  /-- `$0`, the name the program was started under. -/
  | programName
  /-- Any other name. -/
  | named (name : Text)
deriving DecidableEq, Repr

def isNameChar (c : Char) : Bool := c.isAlphanum || c == '_'

namespace Reference

def ofName (name : Text) : Reference := if name = ['0'] then programName else named name

/-- What follows the `$`. -/
def label : Reference → Text
  | status => ['?']
  | processId => ['$']
  | programName => ['0']
  | named name => name

/-- The reference that a `$` in front of this text begins. -/
def read? : Text → Option Reference
  | '?' :: _ => some status
  | '$' :: _ => some processId
  | rest =>
    match rest.takeWhile isNameChar with
    | [] => none
    | name => some (ofName name)

end Reference

inductive Piece where
  | plain (c : Char)
  | reference (r : Reference)
deriving DecidableEq, Repr

namespace Piece

/-- The piece as it stands in the line. -/
def source : Piece → Text
  | plain c => [c]
  | reference r => '$' :: r.label

def value (valueOf : Reference → Text) : Piece → Text
  | plain c => [c]
  | reference r => valueOf r

end Piece

/-- The pieces of a text of which the first `skip` characters already belong to a reference. -/
def piecesAfter : Nat → Text → List Piece
  | _, [] => []
  | skip + 1, _ :: rest => piecesAfter skip rest
  | 0, c :: rest =>
    if c = '$' then
      match Reference.read? rest with
      | some r => .reference r :: piecesAfter r.label.length rest
      | none => .plain c :: piecesAfter 0 rest
    else
      .plain c :: piecesAfter 0 rest

def pieces (line : Text) : List Piece := piecesAfter 0 line

def substitute (valueOf : Reference → Text) (line : Text) : Text :=
  (pieces line).flatMap (Piece.value valueOf)

/-- A reference in a line: the bytes from `start` to `stop` are replaced by `value`. -/
structure Substitution where
  start : Nat
  stop : Nat
  value : Text
deriving DecidableEq, Repr

/-- The references among pieces that begin at the given byte. -/
def substitutionsFrom (valueOf : Reference → Text) : Nat → List Piece → List Substitution
  | _, [] => []
  | start, piece :: rest =>
    let stop := start + piece.source.byteSize
    match piece with
    | .plain _ => substitutionsFrom valueOf stop rest
    | .reference r => ⟨start, stop, valueOf r⟩ :: substitutionsFrom valueOf stop rest

def substitutions (valueOf : Reference → Text) (line : Text) : List Substitution :=
  substitutionsFrom valueOf 0 (pieces line)

end LineShell
