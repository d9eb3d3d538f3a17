import LineShell.Line.Chain
import LineShell.Line.Comment
import LineShell.Line.Operator
import LineShell.Line.Reference
import LineShell.Text.Slice

/-!
# Scanning bytes

The scanners of a line over its UTF-8 form, with positions in bytes. Operators and blanks are looked
for byte by byte, and every byte is read as a character of its own. Links, and the parts of a line
that are kept, are cut out of the line at the positions that have been found. What cannot be cut out
of the line is no text, and then there is no result.

* `Bytewise.misplaced`: the first operator of a line that is out of place.
* `Bytewise.links`, `Bytewise.splitChain?`: the links of a line as slices, and with their texts.
* `Bytewise.findComment`, `Bytewise.stripComment?`: where a comment begins, and the line before it.
* `Bytewise.kept`, `Bytewise.substitute?`: the slices of a line around its references, and the line
  with the values between them.
-/

namespace LineShell.Bytewise

/-- The byte as a character of its own. -/
def latin1 (byte : UInt8) : Char := Char.ofNat byte.toNat

def charAt? (bytes : Bytes) (position : Nat) : Option Char := bytes[position]?.map latin1

/-! ## Operators -/

/-- The operator at a position. Two equal bytes are one operator. -/
def operatorAt? (bytes : Bytes) (position : Nat) : Option Operator :=
  ((charAt? bytes position).bind Mark.ofChar?).map fun mark =>
    ⟨mark, bytes[position + 1]? == bytes[position]?⟩

theorem length_text_pos (op : Operator) : 0 < op.text.length := by
  rw [Operator.text]
  split
  · exact Nat.zero_lt_two
  · exact Nat.one_pos

/-- The first operator from a position on that is out of place; `hasCommand` says whether any byte
since the last operator is no blank. -/
def misplacedFrom (bytes : Bytes) (hasCommand : Bool) (position : Nat) : Option Operator :=
  if h : position < bytes.length then
    match operatorAt? bytes position with
    | none => misplacedFrom bytes (hasCommand || !isBlank (latin1 bytes[position])) (position + 1)
    | some op => (op.refused? hasCommand).or (misplacedFrom bytes false (position + op.text.length))
  else none
termination_by bytes.length - position
decreasing_by
  · omega
  · have := length_text_pos op
    omega

def misplaced (bytes : Bytes) : Option Operator := misplacedFrom bytes false 0

/-! ## Links -/

/-- The separator that two characters begin with, and how many of them it takes. -/
def separatorOf? : Option Char → Option Char → Option (Separator × Nat)
  | some '&', some '&' => some (.and, 2)
  | some '|', some '|' => some (.or, 2)
  | some ';', _ => some (.sequential, 1)
  | _, _ => none

theorem width_pos {first second : Option Char} {separator : Separator} {width : Nat}
    (h : separatorOf? first second = some (separator, width)) : 0 < width := by
  unfold separatorOf? at h
  split at h <;> cases h <;> decide

def separatorAt? (bytes : Bytes) (position : Nat) : Option (Separator × Nat) :=
  separatorOf? (charAt? bytes position) (charAt? bytes (position + 1))

/-- The links from a position on. The first of them has the given separator and begins at
`start`. -/
def linksFrom (bytes : Bytes) (separator : Separator) (start position : Nat) :
    List (Separator × Slice) :=
  if position < bytes.length then
    match h : separatorAt? bytes position with
    | none => linksFrom bytes separator start (position + 1)
    | some (next, width) =>
      (separator, ⟨start, position⟩) ::
        linksFrom bytes next (position + width) (position + width)
  else [(separator, ⟨start, bytes.length⟩)]
termination_by bytes.length - position
decreasing_by
  · omega
  · have := width_pos h
    omega

def links (bytes : Bytes) : List (Separator × Slice) := linksFrom bytes .first 0 0

/-- The links with their texts. -/
def splitChain? (bytes : Bytes) : Option (List (Separator × Bytes)) :=
  (Slice.cutAll? bytes ((links bytes).map Prod.snd)).map ((links bytes).map Prod.fst).zip

/-! ## Comments -/

/-- Where the comment of a line begins. -/
inductive CommentStart where
  | nowhere
  /-- The line is a comment as a whole. -/
  | line
  | byte (position : Nat)
deriving DecidableEq, Repr

/-- Look for a comment from a position on, behind the given character. -/
def findCommentFrom (previous : Option Char) (position : Nat) : Text → CommentStart
  | [] => .nowhere
  | c :: rest =>
    if c = '#' ∧ previous = none then .line
    else if c = '#' ∧ previous.any opensComment then .byte position
    else findCommentFrom (some c) (position + c.utf8Size) rest

def findComment (line : Text) : CommentStart := findCommentFrom none 0 line

/-- The line before its comment, or nothing when the line is a comment as a whole. -/
def stripComment? (line : Text) : Option (Option Bytes) :=
  match findComment line with
  | .nowhere => some (some (Utf8.encode line))
  | .line => some none
  | .byte position => (Slice.cut? (Utf8.encode line) ⟨0, position⟩).map some

/-! ## References -/

/-- The slices in front of each reference and behind the last one, from a position on. -/
def keptFrom (length last : Nat) : List Substitution → List Slice
  | [] => [⟨last, length⟩]
  | sub :: later => ⟨last, sub.start⟩ :: keptFrom length sub.stop later

/-- What is cut out of a line in which these references have been found. -/
def kept (length : Nat) : List Substitution → List Slice
  | [] => []
  | subs => keptFrom length 0 subs

/-- Pieces with values between them. -/
def fill : List Bytes → List Text → Bytes
  | piece :: pieces, value :: values => piece ++ Utf8.encode value ++ fill pieces values
  | pieces, _ => pieces.flatten

/-- The line with its references replaced. -/
def substitute? (valueOf : Reference → Text) (line : Text) : Option Bytes :=
  let bytes := Utf8.encode line
  match substitutions valueOf line with
  | [] => some bytes
  | subs => (Slice.cutAll? bytes (kept bytes.length subs)).map (fill · (subs.map (·.value)))

end LineShell.Bytewise
