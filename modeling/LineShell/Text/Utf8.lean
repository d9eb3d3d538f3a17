import LineShell.Text.Basic

/-!
# UTF-8

* `Utf8.encode`: the bytes of a text.
* `Utf8.decode`: the text of any byte list. What is not UTF-8 becomes the replacement
  character, one for each longest run of bytes that begins a character and cannot be
  finished, and one for each byte that begins none.
* `Utf8.IsText`: whether bytes are UTF-8. `Utf8.text?`: the text of such bytes, and of no others.

Decoding is a machine that reads one byte at a time. Between two bytes it stands either
between characters or inside an `Unfinished` one, which knows the range of the next byte:
the second byte of a character is restricted so that overlong forms, surrogates and values
above the last code point are never begun.
-/

namespace LineShell.Utf8

def encode (text : Text) : Bytes := text.flatMap String.utf8EncodeChar

@[simp] theorem encode_nil : encode [] = [] := rfl

@[simp] theorem encode_cons (c : Char) (text : Text) :
    encode (c :: text) = String.utf8EncodeChar c ++ encode text := rfl

@[simp] theorem encode_append (a b : Text) : encode (a ++ b) = encode a ++ encode b := by
  simp [encode]

theorem encode_flatten (texts : List Text) :
    encode texts.flatten = (texts.map encode).flatten := by
  induction texts with
  | nil => rfl
  | cons text texts ih =>
    rw [List.flatten_cons, encode_append, ih, List.map_cons, List.flatten_cons]

/-- Stands for bytes that are no character. -/
def replacement : Char := '\uFFFD'

/-- A character of which some bytes have been read. -/
structure Unfinished where
  /-- The bits read so far. -/
  bits : Nat
  /-- How many bytes follow after the next one. -/
  later : Nat
  /-- The least next byte. -/
  low : UInt8 := 0x80
  /-- The greatest next byte. -/
  high : UInt8 := 0xBF
deriving DecidableEq, Repr

/-- Read a byte between two characters: the text it completes and the character it begins. -/
def start (byte : UInt8) : Text × Option Unfinished :=
  let n := byte.toNat
  if byte ≤ 0x7F then ([Char.ofNat n], none)
  else if byte < 0xC2 then ([replacement], none)
  else if byte ≤ 0xDF then ([], some { bits := n % 32, later := 0 })
  else if byte = 0xE0 then ([], some { bits := 0, later := 1, low := 0xA0 })
  else if byte = 0xED then ([], some { bits := 13, later := 1, high := 0x9F })
  else if byte ≤ 0xEF then ([], some { bits := n % 16, later := 1 })
  else if byte = 0xF0 then ([], some { bits := 0, later := 2, low := 0x90 })
  else if byte ≤ 0xF3 then ([], some { bits := n % 8, later := 2 })
  else if byte = 0xF4 then ([], some { bits := 4, later := 2, high := 0x8F })
  else ([replacement], none)

/-- Read a byte in any state. A byte that cannot continue the character begins anew, and
the bytes read before it are replaced. -/
def step : Option Unfinished → UInt8 → Text × Option Unfinished
  | none, byte => start byte
  | some u, byte =>
    if u.low ≤ byte ∧ byte ≤ u.high then
      let bits := u.bits * 64 + byte.toNat % 64
      match u.later with
      | 0 => ([Char.ofNat bits], none)
      | later + 1 => ([], some { bits := bits, later := later })
    else
      (replacement :: (start byte).1, (start byte).2)

/-- Decode from a state; a character left unfinished at the end is replaced. -/
def decodeFrom : Option Unfinished → Bytes → Text
  | none, [] => []
  | some _, [] => [replacement]
  | state, byte :: rest => (step state byte).1 ++ decodeFrom (step state byte).2 rest

def decode (bytes : Bytes) : Text := decodeFrom none bytes

/-- The bytes are UTF-8. -/
def IsText (bytes : Bytes) : Prop := encode (decode bytes) = bytes

instance (bytes : Bytes) : Decidable (IsText bytes) :=
  inferInstanceAs (Decidable (encode (decode bytes) = bytes))

/-- The text of which these are the bytes. -/
def text? (bytes : Bytes) : Option Text := if IsText bytes then some (decode bytes) else none

end LineShell.Utf8
