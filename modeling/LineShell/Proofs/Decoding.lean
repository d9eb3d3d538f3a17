import LineShell.Text.Utf8

/-!
# Decoding around ASCII

A byte of ASCII is a character of its own. It is no part of any other character, so it ends a
character that is unfinished, and what is on either side of it is decoded on its own.

* `low_of_step`: no byte of ASCII continues a character that has been begun.
* `decode_append_ascii`: decoding goes through a byte of ASCII.
* `Unfinished.Finishes`, `Spells`: the bytes in which the decoder reads a character, from inside the
  character and from its start. `spells_encodeChar` says that the bytes of a character are such.
* `decode_encode`: the bytes of a text are decoded to the text, by `decodeFrom_encodeChar` one
  character after another.
-/

namespace LineShell.Utf8

/-- No byte of ASCII can come next. -/
def BeyondAscii (state : Option Unfinished) : Prop := ∀ u ∈ state, 0x80 ≤ u.low

theorem beyondAscii_none : BeyondAscii none := by simp [BeyondAscii]

theorem low_of_start (byte : UInt8) : BeyondAscii (start byte).2 := by
  rw [start]
  repeat' split
  all_goals rintro u ⟨⟩
  all_goals first | exact UInt8.le_refl 0x80 | decide

theorem low_of_step (state : Option Unfinished) (byte : UInt8) :
    BeyondAscii (step state byte).2 := by
  cases state with
  | none => exact low_of_start byte
  | some u =>
    rw [step]
    split
    · dsimp only
      split
      · exact beyondAscii_none
      · rintro v ⟨⟩
        exact UInt8.le_refl 0x80
    · exact low_of_start byte

theorem start_ascii {byte : UInt8} (h : byte ≤ 0x7F) :
    start byte = ([Char.ofNat byte.toNat], none) := by
  rw [start, if_pos h]

theorem decodeFrom_cons (state : Option Unfinished) (byte : UInt8) (rest : Bytes) :
    decodeFrom state (byte :: rest) =
      (step state byte).1 ++ decodeFrom (step state byte).2 rest := by
  cases state <;> rfl

/-- The byte begins anew in every state that can be reached. -/
theorem decodeFrom_ascii {state : Option Unfinished} (hstate : BeyondAscii state) {byte : UInt8}
    (h : byte ≤ 0x7F) (rest : Bytes) :
    decodeFrom state (byte :: rest) =
      decodeFrom state [] ++ Char.ofNat byte.toNat :: decodeFrom none rest := by
  rw [decodeFrom_cons]
  cases state with
  | none =>
    rw [step, start_ascii h]
    rfl
  | some u =>
    have hlow : 0x80 ≤ u.low := hstate u rfl
    have hbyte : ¬ (u.low ≤ byte ∧ byte ≤ u.high) := by
      rintro ⟨hle, -⟩
      have hascii : (0x80 : UInt8) ≤ 0x7F := UInt8.le_trans hlow (UInt8.le_trans hle h)
      exact absurd hascii (by decide)
    rw [step, if_neg hbyte, start_ascii h]
    rfl

theorem decodeFrom_append_ascii {state : Option Unfinished} (hstate : BeyondAscii state)
    {byte : UInt8} (h : byte ≤ 0x7F) (a b : Bytes) :
    decodeFrom state (a ++ byte :: b) =
      decodeFrom state a ++ Char.ofNat byte.toNat :: decodeFrom none b := by
  induction a generalizing state with
  | nil => exact decodeFrom_ascii hstate h b
  | cons first a ih =>
    rw [List.cons_append, decodeFrom_cons, decodeFrom_cons, ih (low_of_step state first),
      List.append_assoc]

theorem decode_append_ascii {byte : UInt8} (h : byte ≤ 0x7F) (a b : Bytes) :
    decode (a ++ byte :: b) = decode a ++ Char.ofNat byte.toNat :: decode b :=
  decodeFrom_append_ascii beyondAscii_none h a b

theorem decode_concat_return (line : Bytes) :
    decode (line ++ [0x0D]) = decode line ++ ['\r'] :=
  decode_append_ascii (by decide) line []

/-! ## The bytes of a text -/

theorem start_two : ∀ n < 32, 2 ≤ n →
    start (UInt8.ofNat (n + 192)) = ([], some { bits := n, later := 0 }) := by
  decide

theorem start_three : ∀ n < 16,
    start (UInt8.ofNat (n + 224)) =
      ([], some { bits := n, later := 1, low := if n = 0 then 0xA0 else 0x80,
                  high := if n = 13 then 0x9F else 0xBF }) := by
  decide

theorem start_four : ∀ n < 5,
    start (UInt8.ofNat (n + 240)) =
      ([], some { bits := n, later := 2, low := if n = 0 then 0x90 else 0x80,
                  high := if n = 4 then 0x8F else 0xBF }) := by
  decide

/-- The bytes that finish a character that has been begun, and the character. -/
inductive Unfinished.Finishes : Unfinished → Bytes → Char → Prop
  | last {u : Unfinished} {byte : UInt8} (hlater : u.later = 0)
      (hrange : u.low ≤ byte ∧ byte ≤ u.high) :
      Finishes u [byte] (Char.ofNat (u.bits * 64 + byte.toNat % 64))
  | more {u : Unfinished} {byte : UInt8} {later : Nat} {bytes : Bytes} {c : Char}
      (hlater : u.later = later + 1) (hrange : u.low ≤ byte ∧ byte ≤ u.high)
      (h : Finishes { bits := u.bits * 64 + byte.toNat % 64, later := later } bytes c) :
      Finishes u (byte :: bytes) c

theorem decodeFrom_begun {byte : UInt8} {u : Unfinished} (h : start byte = ([], some u))
    (rest : Bytes) : decodeFrom none (byte :: rest) = decodeFrom (some u) rest := by
  rw [decodeFrom_cons, step, h, List.nil_append]

theorem decodeFrom_more {u : Unfinished} {byte : UInt8} {later : Nat} (hlater : u.later = later + 1)
    (hrange : u.low ≤ byte ∧ byte ≤ u.high) (rest : Bytes) :
    decodeFrom (some u) (byte :: rest) =
      decodeFrom (some { bits := u.bits * 64 + byte.toNat % 64, later := later }) rest := by
  rw [decodeFrom_cons, step, if_pos hrange, hlater]
  rfl

theorem Unfinished.Finishes.decodeFrom_append {u : Unfinished} {bytes : Bytes} {c : Char}
    (h : u.Finishes bytes c) (rest : Bytes) :
    decodeFrom (some u) (bytes ++ rest) = c :: decodeFrom none rest := by
  induction h with
  | last hlater hrange =>
    rw [List.singleton_append, decodeFrom_cons, step, if_pos hrange, hlater]
    rfl
  | more hlater hrange _ ih => rw [List.cons_append, decodeFrom_more hlater hrange, ih]

section

variable {u : Unfinished} {n : Nat}

/-- A further byte is in range and holds six bits. -/
theorem byte_within (hn : n < 64) (hlow : u.low.toNat ≤ n + 128)
    (hhigh : n + 128 ≤ u.high.toNat) :
    (u.low ≤ UInt8.ofNat (n + 128) ∧ UInt8.ofNat (n + 128) ≤ u.high) ∧
      (UInt8.ofNat (n + 128)).toNat % 64 = n := by
  have hsmall : n + 128 < UInt8.size := by
    change n + 128 < 256
    omega
  have hbyte : (UInt8.ofNat (n + 128)).toNat = n + 128 := UInt8.toNat_ofNat_of_lt' hsmall
  rw [UInt8.le_iff_toNat_le, UInt8.le_iff_toNat_le, hbyte]
  exact ⟨⟨hlow, hhigh⟩, by omega⟩

theorem finishes_more {later : Nat} (hlater : u.later = later + 1) (hn : n < 64)
    (hlow : u.low.toNat ≤ n + 128) (hhigh : n + 128 ≤ u.high.toNat) {bytes : Bytes} {c : Char}
    (h : Unfinished.Finishes { bits := u.bits * 64 + n, later := later } bytes c) :
    u.Finishes (UInt8.ofNat (n + 128) :: bytes) c := by
  obtain ⟨hrange, hbits⟩ := byte_within hn hlow hhigh
  refine .more hlater hrange ?_
  rwa [hbits]

theorem finishes_last (hlater : u.later = 0) (hn : n < 64) (hlow : u.low.toNat ≤ n + 128)
    (hhigh : n + 128 ≤ u.high.toNat) {c : Char} (hc : Char.ofNat (u.bits * 64 + n) = c) :
    u.Finishes [UInt8.ofNat (n + 128)] c := by
  obtain ⟨hrange, hbits⟩ := byte_within hn hlow hhigh
  have hfinishes := Unfinished.Finishes.last hlater hrange
  rwa [hbits, hc] at hfinishes

end

/-- How the bytes of a character are read: one byte of ASCII, or a first byte that begins it and
further ones that finish it. -/
inductive Spells : Bytes → Char → Prop
  | ascii {byte : UInt8} (h : byte ≤ 0x7F) : Spells [byte] (Char.ofNat byte.toNat)
  | begun {byte : UInt8} {u : Unfinished} {bytes : Bytes} {c : Char}
      (hstart : start byte = ([], some u)) (h : u.Finishes bytes c) : Spells (byte :: bytes) c

theorem Spells.decodeFrom_append {bytes : Bytes} {c : Char} (h : Spells bytes c) (rest : Bytes) :
    decodeFrom none (bytes ++ rest) = c :: decodeFrom none rest := by
  cases h with
  | ascii hascii =>
    rw [List.singleton_append, decodeFrom_cons, step, start_ascii hascii]
    rfl
  | begun hstart h => rw [List.cons_append, decodeFrom_begun hstart, h.decodeFrom_append]

/-- The cases are the numbers of bytes. The second byte of three and of four is in its narrower
range because the character is no surrogate, is not too great, and has no shorter form. -/
theorem spells_encodeChar (c : Char) : Spells (String.utf8EncodeChar c) c := by
  have hchar : ∀ n, n = c.val.toNat → Char.ofNat n = c := by
    rintro n rfl
    exact Char.ofNat_toNat c
  have hvalid : c.val.toNat < 0xD800 ∨ 0xDFFF < c.val.toNat ∧ c.val.toNat < 0x110000 := c.valid
  fun_cases String.utf8EncodeChar c with
  | case1 v hone =>
    have hsmall : v < UInt8.size := by
      change v < 256
      omega
    have hbyte : (UInt8.ofNat v).toNat = v := UInt8.toNat_ofNat_of_lt' hsmall
    have hascii : UInt8.ofNat v ≤ 0x7F := by
      rw [UInt8.le_iff_toNat_le, hbyte]
      exact hone
    have hspells := Spells.ascii hascii
    rwa [hbyte, hchar v rfl] at hspells
  | case2 v hone htwo =>
    refine .begun (start_two _ (by omega) (by omega)) ?_
    exact finishes_last rfl (by omega) (by simp) (by simp; omega) (hchar _ (by dsimp only; omega))
  | case3 v hone htwo hthree =>
    have hlow : (if v / 4096 % 16 = 0 then 0xA0 else 0x80 : UInt8).toNat ≤
        v / 64 % 64 + 128 := by
      split
      · change 160 ≤ _
        omega
      · change 128 ≤ _
        omega
    have hhigh : v / 64 % 64 + 128 ≤
        (if v / 4096 % 16 = 13 then 0x9F else 0xBF : UInt8).toNat := by
      split
      · change _ ≤ 159
        omega
      · change _ ≤ 191
        omega
    refine .begun (start_three _ (by omega)) (finishes_more rfl (by omega) hlow hhigh ?_)
    exact finishes_last rfl (by omega) (by simp) (by simp; omega) (hchar _ (by dsimp only; omega))
  | case4 v hone htwo hthree =>
    have hfirst : v / 262144 % 8 < 5 := by omega
    have hlow : (if v / 262144 % 8 = 0 then 0x90 else 0x80 : UInt8).toNat ≤
        v / 4096 % 64 + 128 := by
      split
      · change 144 ≤ _
        omega
      · change 128 ≤ _
        omega
    have hhigh : v / 4096 % 64 + 128 ≤
        (if v / 262144 % 8 = 4 then 0x8F else 0xBF : UInt8).toNat := by
      split
      · change _ ≤ 143
        omega
      · change _ ≤ 191
        omega
    refine .begun (start_four _ hfirst) (finishes_more rfl (by omega) hlow hhigh ?_)
    refine finishes_more rfl (by omega) (by simp) (by simp; omega) ?_
    exact finishes_last rfl (by omega) (by simp) (by simp; omega) (hchar _ (by dsimp only; omega))

theorem decodeFrom_encodeChar (c : Char) (rest : Bytes) :
    decodeFrom none (String.utf8EncodeChar c ++ rest) = c :: decodeFrom none rest :=
  (spells_encodeChar c).decodeFrom_append rest

theorem decode_encode (text : Text) : decode (encode text) = text := by
  induction text with
  | nil => rfl
  | cons c rest ih => rw [encode_cons, decode, decodeFrom_encodeChar, ← decode, ih]

end LineShell.Utf8
