import LineShell.Text.Utf8

/-!
# Slices

A text that is held in UTF-8 can be cut between two characters and nowhere else. The bytes tell
where that is, because no character begins with a byte that continues one.

* `Utf8.isBoundary`: whether bytes can be cut at a position.
* `Slice.cut?`: the bytes of a slice. There are none if its ends are in the wrong order, or if the
  bytes cannot be cut at one of them.
* `Slice.cutAll?`: the bytes of several slices, if all of them can be cut out.
-/

namespace LineShell

namespace Utf8

/-- The byte is not the first one of a character. -/
def continues (byte : UInt8) : Bool := 0x80 ≤ byte && byte < 0xC0

def isBoundary (bytes : Bytes) (position : Nat) : Bool :=
  position == 0 ||
    match bytes[position]? with
    | some byte => !continues byte
    | none => position == bytes.length

end Utf8

/-- The bytes from one position up to another one. -/
structure Slice where
  start : Nat
  stop : Nat
deriving DecidableEq, Repr

namespace Slice

def cut? (bytes : Bytes) (slice : Slice) : Option Bytes :=
  if slice.start ≤ slice.stop ∧ Utf8.isBoundary bytes slice.start ∧
      Utf8.isBoundary bytes slice.stop then
    some ((bytes.drop slice.start).take (slice.stop - slice.start))
  else none

def cutAll? (bytes : Bytes) : List Slice → Option (List Bytes)
  | [] => some []
  | slice :: later =>
    (cut? bytes slice).bind fun piece => (cutAll? bytes later).map (piece :: ·)

end Slice

end LineShell
