import LineShell.Proofs.Decoding
import Mathlib.Data.List.Infix

/-!
# Decoding of any bytes

What the decoder makes of bytes that need not be UTF-8 can be told without its states. The text is
cut off character by character, and where no character can be cut off, one replacement character
stands for the longest piece that could have become one.

* `spells_iff`: the decoder reads a character in the bytes of the character and in no others.
* `Invalid`: the piece that one replacement character stands for.
* `Lossy`: a text is what is left of the bytes.
* `lossy_iff`: it is so for the text that the decoder returns, and for no other.
* `exists_of_decode_eq`: a character of ASCII in the decoded text is a byte of the input, and what
  is on either side of the one is decoded from what is on either side of the other.
-/

namespace LineShell.Utf8

/-! ## The bytes of a character -/

theorem val_ofNat {n : Nat} (h : n < 0xD800 ∨ 0xDFFF < n ∧ n < 0x110000) :
    (Char.ofNat n).val.toNat = n := by
  have hvalid : n.isValidChar := h
  rw [Char.ofNat, dif_pos hvalid]
  exact UInt32.toNat_ofNatLT

section

variable {n m k l : Nat}

theorem encodeChar_two (hn : 2 ≤ n ∧ n < 32) (hm : m < 64) :
    String.utf8EncodeChar (Char.ofNat (n * 64 + m)) =
      [UInt8.ofNat (n + 192), UInt8.ofNat (m + 128)] := by
  have hval : (Char.ofNat (n * 64 + m)).val.toNat = n * 64 + m := val_ofNat (by omega)
  have hfirst : (n * 64 + m) / 64 % 32 = n := by omega
  have hsecond : (n * 64 + m) % 64 = m := by omega
  rw [String.utf8EncodeChar, hval, if_neg (by omega), if_pos (by omega), hfirst, hsecond]

theorem encodeChar_three (hn : n < 16) (hm : m < 64) (hk : k < 64) (hlow : n = 0 → 32 ≤ m)
    (hhigh : n = 13 → m < 32) :
    String.utf8EncodeChar (Char.ofNat ((n * 64 + m) * 64 + k)) =
      [UInt8.ofNat (n + 224), UInt8.ofNat (m + 128), UInt8.ofNat (k + 128)] := by
  have hval : (Char.ofNat ((n * 64 + m) * 64 + k)).val.toNat = (n * 64 + m) * 64 + k :=
    val_ofNat (by omega)
  have hfirst : ((n * 64 + m) * 64 + k) / 4096 % 16 = n := by omega
  have hsecond : ((n * 64 + m) * 64 + k) / 64 % 64 = m := by omega
  have hthird : ((n * 64 + m) * 64 + k) % 64 = k := by omega
  rw [String.utf8EncodeChar, hval, if_neg (by omega), if_neg (by omega), if_pos (by omega),
    hfirst, hsecond, hthird]

theorem encodeChar_four (hn : n < 5) (hm : m < 64) (hk : k < 64) (hl : l < 64)
    (hlow : n = 0 → 16 ≤ m) (hhigh : n = 4 → m < 16) :
    String.utf8EncodeChar (Char.ofNat (((n * 64 + m) * 64 + k) * 64 + l)) =
      [UInt8.ofNat (n + 240), UInt8.ofNat (m + 128), UInt8.ofNat (k + 128),
        UInt8.ofNat (l + 128)] := by
  have hval : (Char.ofNat (((n * 64 + m) * 64 + k) * 64 + l)).val.toNat =
      ((n * 64 + m) * 64 + k) * 64 + l := val_ofNat (by omega)
  have hfirst : (((n * 64 + m) * 64 + k) * 64 + l) / 262144 % 8 = n := by omega
  have hsecond : (((n * 64 + m) * 64 + k) * 64 + l) / 4096 % 64 = m := by omega
  have hthird : (((n * 64 + m) * 64 + k) * 64 + l) / 64 % 64 = k := by omega
  have hfourth : (((n * 64 + m) * 64 + k) * 64 + l) % 64 = l := by omega
  rw [String.utf8EncodeChar, hval, if_neg (by omega), if_neg (by omega), if_neg (by omega),
    hfirst, hsecond, hthird, hfourth]

end

/-- The range of the next byte is among the further bytes, and it is not empty. -/
structure Unfinished.InSixBits (u : Unfinished) : Prop where
  le_low : 128 ≤ u.low.toNat
  low_le : u.low.toNat ≤ u.high.toNat
  high_le : u.high.toNat ≤ 191

theorem Unfinished.InSixBits.exists_bits {u : Unfinished} (hu : u.InSixBits) {byte : UInt8}
    (h : u.low ≤ byte ∧ byte ≤ u.high) :
    ∃ n < 64, byte = UInt8.ofNat (n + 128) ∧ byte.toNat % 64 = n ∧ u.low.toNat ≤ n + 128 ∧
      n + 128 ≤ u.high.toNat := by
  rw [UInt8.le_iff_toNat_le, UInt8.le_iff_toNat_le] at h
  obtain ⟨hlow, -, hhigh⟩ := hu
  have hbyte : byte.toNat = byte.toNat % 64 + 128 := by omega
  refine ⟨byte.toNat % 64, by omega, ?_, rfl, by omega, by omega⟩
  rw [← hbyte, UInt8.ofNat_toNat]

theorem inSixBits_full (bits later : Nat) : Unfinished.InSixBits { bits, later } where
  le_low := le_rfl
  low_le := Nat.le_add_right 128 63
  high_le := le_rfl

/-- What a first byte does. -/
theorem start_cases (byte : UInt8) :
    byte ≤ 0x7F ∨ (¬ byte ≤ 0x7F ∧ start byte = ([replacement], none)) ∨
      ∃ u : Unfinished, start byte = ([], some u) ∧ u.InSixBits := by
  by_cases hascii : byte ≤ 0x7F
  · exact Or.inl hascii
  · refine Or.inr ?_
    rw [start, if_neg hascii]
    repeat' split
    all_goals first
      | exact Or.inl ⟨hascii, rfl⟩
      | refine Or.inr ⟨_, rfl, ?_, ?_, ?_⟩ <;> dsimp only <;> decide

theorem inSixBits_of_start {byte : UInt8} {u : Unfinished} (h : start byte = ([], some u)) :
    u.InSixBits := by
  rcases start_cases byte with hascii | ⟨-, hstart⟩ | ⟨v, hstart, hv⟩
  · rw [start_ascii hascii] at h
    cases h
  · rw [hstart] at h
    cases h
  · rw [hstart] at h
    cases h
    exact hv

namespace Unfinished.Finishes

variable {u : Unfinished} {bytes : Bytes} {c : Char}

theorem exists_last (h : u.Finishes bytes c) (hlater : u.later = 0) (hu : u.InSixBits) :
    ∃ n < 64, bytes = [UInt8.ofNat (n + 128)] ∧ c = Char.ofNat (u.bits * 64 + n) := by
  cases h with
  | more hmore _ _ => exact absurd (hlater.symm.trans hmore) (Nat.zero_ne_add_one _)
  | last _ hrange =>
    obtain ⟨n, hn, rfl, hbits, -⟩ := hu.exists_bits hrange
    exact ⟨n, hn, rfl, by rw [hbits]⟩

theorem exists_more {later : Nat} (h : u.Finishes bytes c) (hlater : u.later = later + 1)
    (hu : u.InSixBits) :
    ∃ n < 64, ∃ more, bytes = UInt8.ofNat (n + 128) :: more ∧ u.low.toNat ≤ n + 128 ∧
      n + 128 ≤ u.high.toNat ∧
      Finishes { bits := u.bits * 64 + n, later := later } more c := by
  cases h with
  | last hlast _ => exact absurd (hlast.symm.trans hlater) (Nat.zero_ne_add_one _)
  | @more _ _ _ more _ hmore hrange h =>
    obtain rfl : _ = later := Nat.succ.inj (hmore.symm.trans hlater)
    obtain ⟨n, hn, rfl, hbits, hlow, hhigh⟩ := hu.exists_bits hrange
    rw [hbits] at h
    exact ⟨n, hn, more, rfl, hlow, hhigh, h⟩

end Unfinished.Finishes

theorem start_continuation : ∀ n < 66, start (UInt8.ofNat (n + 128)) = ([replacement], none) := by
  decide

theorem start_beyond : ∀ n < 11, start (UInt8.ofNat (n + 245)) = ([replacement], none) := by
  decide

/-- The first bytes that begin a character. -/
theorem start_begun {byte : UInt8} {u : Unfinished} (h : start byte = ([], some u)) :
    (∃ n, 2 ≤ n ∧ n < 32 ∧ byte = UInt8.ofNat (n + 192)) ∨
      (∃ n < 16, byte = UInt8.ofNat (n + 224)) ∨ ∃ n < 5, byte = UInt8.ofNat (n + 240) := by
  have hbyte : byte = UInt8.ofNat byte.toNat := UInt8.ofNat_toNat.symm
  have hsmall : byte.toNat < 256 := byte.toNat_lt
  generalize byte.toNat = m at hbyte hsmall
  subst hbyte
  by_cases hascii : m < 128
  · have hle : UInt8.ofNat m ≤ 0x7F := by
      rw [UInt8.le_iff_toNat_le, UInt8.toNat_ofNat_of_lt' hsmall]
      exact Nat.le_of_lt_succ hascii
    rw [start_ascii hle] at h
    cases h
  by_cases hcontinuation : m < 194
  · obtain ⟨n, rfl⟩ : ∃ n, m = n + 128 := ⟨m - 128, by omega⟩
    rw [start_continuation n (by omega)] at h
    cases h
  by_cases htwo : m < 224
  · obtain ⟨n, rfl⟩ : ∃ n, m = n + 192 := ⟨m - 192, by omega⟩
    exact Or.inl ⟨n, by omega, by omega, rfl⟩
  by_cases hthree : m < 240
  · obtain ⟨n, rfl⟩ : ∃ n, m = n + 224 := ⟨m - 224, by omega⟩
    exact Or.inr (Or.inl ⟨n, by omega, rfl⟩)
  by_cases hfour : m < 245
  · obtain ⟨n, rfl⟩ : ∃ n, m = n + 240 := ⟨m - 240, by omega⟩
    exact Or.inr (Or.inr ⟨n, by omega, rfl⟩)
  · obtain ⟨n, rfl⟩ : ∃ n, m = n + 245 := ⟨m - 245, by omega⟩
    rw [start_beyond n (by omega)] at h
    cases h

/-- The converse of `spells_encodeChar`. The second byte was in its narrower range, so what the bits
come to is a character and is encoded in no fewer bytes. -/
theorem Spells.encodeChar_eq {bytes : Bytes} {c : Char} (h : Spells bytes c) :
    String.utf8EncodeChar c = bytes := by
  cases h with
  | @ascii byte hascii =>
    have hsmall : byte.toNat ≤ 127 := UInt8.le_iff_toNat_le.mp hascii
    have hval : (Char.ofNat byte.toNat).val.toNat = byte.toNat := val_ofNat (by omega)
    rw [String.utf8EncodeChar, hval, if_pos hsmall, UInt8.ofNat_toNat]
  | begun hstart hfinishes =>
    have hfirst : Unfinished.InSixBits _ := inSixBits_of_start hstart
    rcases start_begun hstart with ⟨n, htwo, hn, rfl⟩ | ⟨n, hn, rfl⟩ | ⟨n, hn, rfl⟩
    · rw [start_two n hn htwo] at hstart
      cases hstart
      obtain ⟨m, hm, rfl, rfl⟩ := hfinishes.exists_last rfl hfirst
      exact encodeChar_two ⟨htwo, hn⟩ hm
    · rw [start_three n hn] at hstart
      cases hstart
      obtain ⟨m, hm, _, rfl, hlow, hhigh, hmore⟩ := hfinishes.exists_more rfl hfirst
      obtain ⟨k, hk, rfl, rfl⟩ := hmore.exists_last rfl (inSixBits_full _ _)
      refine encodeChar_three hn hm hk (fun h => ?_) (fun h => ?_)
      · rw [if_pos h] at hlow
        exact Nat.le_of_add_le_add_right (show 32 + 128 ≤ m + 128 from hlow)
      · rw [if_pos h] at hhigh
        exact Nat.lt_succ_of_le (Nat.le_of_add_le_add_right (show m + 128 ≤ 31 + 128 from hhigh))
    · rw [start_four n hn] at hstart
      cases hstart
      obtain ⟨m, hm, _, rfl, hlow, hhigh, hmore⟩ := hfinishes.exists_more rfl hfirst
      obtain ⟨k, hk, _, rfl, -, -, hlast⟩ := hmore.exists_more rfl (inSixBits_full _ _)
      obtain ⟨l, hl, rfl, rfl⟩ := hlast.exists_last rfl (inSixBits_full _ _)
      refine encodeChar_four hn hm hk hl (fun h => ?_) (fun h => ?_)
      · rw [if_pos h] at hlow
        exact Nat.le_of_add_le_add_right (show 16 + 128 ≤ m + 128 from hlow)
      · rw [if_pos h] at hhigh
        exact Nat.lt_succ_of_le (Nat.le_of_add_le_add_right (show m + 128 ≤ 15 + 128 from hhigh))

theorem spells_iff {bytes : Bytes} {c : Char} :
    Spells bytes c ↔ String.utf8EncodeChar c = bytes := by
  constructor
  · exact Spells.encodeChar_eq
  · rintro rfl
    exact spells_encodeChar c

/-! ## What is no character -/

/-- The bytes are the first ones of a character, or all of them. -/
def Begins (piece : Bytes) : Prop := ∃ c, piece <+: String.utf8EncodeChar c

/-- The piece is what one replacement character stands for: as many bytes of the input as begin a
character, but at least one, if the input does not begin with a whole character. -/
structure Invalid (piece rest : Bytes) : Prop where
  ne_nil : piece ≠ []
  begins : Begins piece ∨ piece.length = 1
  unfinished : ∀ c, ¬ String.utf8EncodeChar c <+: piece ++ rest
  longest : ∀ longer, longer <+: piece ++ rest → Begins longer →
    longer.length ≤ piece.length

/-- The text is what is left of the bytes: their characters, and one replacement character for each
piece that is no character. -/
inductive Lossy : Bytes → Text → Prop
  | nil : Lossy [] []
  | char {rest : Bytes} {text : Text} (c : Char) (h : Lossy rest text) :
      Lossy (String.utf8EncodeChar c ++ rest) (c :: text)
  | invalid {piece rest : Bytes} {text : Text} (hpiece : Invalid piece rest) (h : Lossy rest text) :
      Lossy (piece ++ rest) (replacement :: text)

/-! ## The decoder stops -/

namespace Unfinished

/-- The bytes are the first ones of those that finish the character. -/
def Continues (u : Unfinished) (piece : Bytes) : Prop :=
  ∃ bytes c, u.Finishes bytes c ∧ piece <+: bytes

/-- The piece is all of the input that continues the character, and does not finish it. -/
structure Stops (u : Unfinished) (piece rest : Bytes) : Prop where
  continues : u.Continues piece
  unfinished : ∀ bytes c, u.Finishes bytes c → ¬ bytes <+: piece ++ rest
  longest : ∀ longer, longer <+: piece ++ rest → u.Continues longer →
    longer.length ≤ piece.length

variable {u : Unfinished} {byte : UInt8} {later : Nat}

theorem InSixBits.low_mem (hu : u.InSixBits) : u.low ≤ u.low ∧ u.low ≤ u.high :=
  ⟨UInt8.le_refl _, UInt8.le_iff_toNat_le.mpr hu.low_le⟩

/-- A character that has been begun can be finished. -/
theorem InSixBits.exists_finishes (hu : u.InSixBits) : ∃ bytes c, u.Finishes bytes c := by
  induction hlater : u.later generalizing u with
  | zero => exact ⟨_, _, .last hlater hu.low_mem⟩
  | succ later ih =>
    obtain ⟨bytes, c, h⟩ := ih (inSixBits_full (u.bits * 64 + u.low.toNat % 64) later) rfl
    exact ⟨_, c, .more hlater hu.low_mem h⟩

theorem InSixBits.continues_nil (hu : u.InSixBits) : u.Continues [] := by
  obtain ⟨bytes, c, h⟩ := hu.exists_finishes
  exact ⟨bytes, c, h, List.nil_prefix⟩

theorem Finishes.exists_cons {bytes : Bytes} {c : Char} (h : u.Finishes bytes c) :
    ∃ byte more, bytes = byte :: more ∧ u.low ≤ byte ∧ byte ≤ u.high := by
  cases h with
  | last _ hrange => exact ⟨_, _, rfl, hrange⟩
  | more _ hrange _ => exact ⟨_, _, rfl, hrange⟩

/-- A byte out of range is left for the next character. -/
theorem InSixBits.stops_nil (hu : u.InSixBits) {rest : Bytes}
    (h : ∀ byte ∈ rest.head?, ¬ (u.low ≤ byte ∧ byte ≤ u.high)) : u.Stops [] rest where
  continues := hu.continues_nil
  unfinished bytes c hfinishes hfront := by
    obtain ⟨byte, more, rfl, hrange⟩ := hfinishes.exists_cons
    obtain ⟨after, rfl⟩ := hfront
    exact h byte rfl hrange
  longest longer hfront hcontinues := by
    obtain ⟨bytes, c, hfinishes, hlonger⟩ := hcontinues
    obtain ⟨first, more, rfl, hrange⟩ := hfinishes.exists_cons
    rcases List.prefix_cons_iff.mp hlonger with rfl | ⟨longer, rfl, -⟩
    · exact le_rfl
    · obtain ⟨after, rfl⟩ := hfront
      exact absurd hrange (h first rfl)

section

variable (hlater : u.later = later + 1) (hrange : u.low ≤ byte ∧ byte ≤ u.high)

include hlater hrange

theorem finishes_cons {more : Bytes} {c : Char} :
    u.Finishes (byte :: more) c ↔
      Finishes { bits := u.bits * 64 + byte.toNat % 64, later := later } more c := by
  constructor
  · intro h
    cases h with
    | last hlast _ => exact absurd (hlast.symm.trans hlater) (Nat.zero_ne_add_one _)
    | more hmore _ h =>
      obtain rfl := Nat.succ.inj (hmore.symm.trans hlater)
      exact h
  · exact .more hlater hrange

theorem continues_cons {piece : Bytes} :
    u.Continues (byte :: piece) ↔
      Continues { bits := u.bits * 64 + byte.toNat % 64, later := later } piece := by
  constructor
  · rintro ⟨bytes, c, hfinishes, hfront⟩
    obtain ⟨more, rfl, hmore⟩ := List.cons_prefix_iff.mp hfront
    exact ⟨more, c, (finishes_cons hlater hrange).mp hfinishes, hmore⟩
  · rintro ⟨more, c, hfinishes, hmore⟩
    have hfront : byte :: piece <+: byte :: more := List.cons_prefix_cons.mpr ⟨rfl, hmore⟩
    exact ⟨_, c, (finishes_cons hlater hrange).mpr hfinishes, hfront⟩

theorem stops_cons {piece rest : Bytes}
    (h : Stops { bits := u.bits * 64 + byte.toNat % 64, later := later } piece rest) :
    u.Stops (byte :: piece) rest where
  continues := (continues_cons hlater hrange).mpr h.continues
  unfinished bytes c hfinishes hfront := by
    obtain ⟨first, more, rfl, -⟩ := hfinishes.exists_cons
    obtain ⟨rfl, hmore⟩ := List.cons_prefix_cons.mp hfront
    exact h.unfinished more c ((finishes_cons hlater hrange).mp hfinishes) hmore
  longest longer hfront hcontinues := by
    rcases List.prefix_cons_iff.mp hfront with rfl | ⟨longer, rfl, hmore⟩
    · exact Nat.zero_le _
    · have hlonger := (continues_cons hlater hrange).mp hcontinues
      exact Nat.succ_le_succ (h.longest longer hmore hlonger)

end

theorem decodeFrom_out_of_range (h : ¬ (u.low ≤ byte ∧ byte ≤ u.high)) (rest : Bytes) :
    decodeFrom (some u) (byte :: rest) = replacement :: decodeFrom none (byte :: rest) := by
  rw [decodeFrom_cons, decodeFrom_cons, step, step, if_neg h]
  rfl

/-- Inside a character the decoder either finishes it or stops, and then all that it has read of the
character is replaced. -/
theorem InSixBits.finishes_or_stops (hu : u.InSixBits) (input : Bytes) :
    (∃ bytes c rest, input = bytes ++ rest ∧ u.Finishes bytes c) ∨
      ∃ piece rest, input = piece ++ rest ∧ u.Stops piece rest ∧
        decodeFrom (some u) input = replacement :: decodeFrom none rest := by
  induction input generalizing u with
  | nil => exact Or.inr ⟨[], [], rfl, hu.stops_nil (by simp), rfl⟩
  | cons byte input ih =>
    by_cases hrange : u.low ≤ byte ∧ byte ≤ u.high
    · cases hlater : u.later with
      | zero => exact Or.inl ⟨[byte], _, input, rfl, .last hlater hrange⟩
      | succ later =>
        rcases ih (inSixBits_full (u.bits * 64 + byte.toNat % 64) later) with
          ⟨bytes, c, rest, rfl, hfinishes⟩ | ⟨piece, rest, rfl, hstops, hdecode⟩
        · exact Or.inl ⟨byte :: bytes, c, rest, rfl, .more hlater hrange hfinishes⟩
        · refine Or.inr ⟨byte :: piece, rest, rfl, stops_cons hlater hrange hstops, ?_⟩
          rw [decodeFrom_more hlater hrange, hdecode]
    · have hdecode := decodeFrom_out_of_range hrange input
      refine Or.inr ⟨[], byte :: input, rfl, hu.stops_nil ?_, hdecode⟩
      rintro _ ⟨⟩
      exact hrange

end Unfinished

/-! ## Pieces of an input -/

section

variable {byte : UInt8} {u : Unfinished} {piece rest : Bytes}

theorem spells_cons (hstart : start byte = ([], some u)) {more : Bytes} {c : Char} :
    Spells (byte :: more) c ↔ u.Finishes more c := by
  constructor
  · intro h
    cases h with
    | ascii hascii =>
      rw [start_ascii hascii] at hstart
      cases hstart
    | begun hbegun h =>
      rw [hstart] at hbegun
      cases hbegun
      exact h
  · exact .begun hstart

theorem begins_cons (hstart : start byte = ([], some u)) :
    Begins (byte :: piece) ↔ u.Continues piece := by
  constructor
  · rintro ⟨c, hfront⟩
    obtain ⟨more, heq, hmore⟩ := List.cons_prefix_iff.mp hfront
    exact ⟨more, c, (spells_cons hstart).mp (spells_iff.mpr heq), hmore⟩
  · rintro ⟨more, c, hfinishes, hmore⟩
    refine ⟨c, ?_⟩
    rw [spells_iff.mp ((spells_cons hstart).mpr hfinishes)]
    exact List.cons_prefix_cons.mpr ⟨rfl, hmore⟩

theorem Unfinished.Stops.invalid (h : u.Stops piece rest) (hstart : start byte = ([], some u)) :
    Invalid (byte :: piece) rest where
  ne_nil := List.cons_ne_nil byte piece
  begins := Or.inl ((begins_cons hstart).mpr h.continues)
  unfinished c hfront := by
    rcases List.prefix_cons_iff.mp hfront with heq | ⟨more, heq, hmore⟩
    · simp at heq
    · exact h.unfinished more c ((spells_cons hstart).mp (spells_iff.mpr heq)) hmore
  longest longer hfront hbegins := by
    rcases List.prefix_cons_iff.mp hfront with rfl | ⟨longer, rfl, hmore⟩
    · exact Nat.zero_le _
    · exact Nat.succ_le_succ (h.longest longer hmore ((begins_cons hstart).mp hbegins))

theorem not_begins_cons (hascii : ¬ byte ≤ 0x7F) (hstart : start byte = ([replacement], none)) :
    ¬ Begins (byte :: piece) := by
  rintro ⟨c, hfront⟩
  obtain ⟨more, heq, -⟩ := List.cons_prefix_iff.mp hfront
  cases spells_iff.mpr heq with
  | ascii h => exact hascii h
  | begun hbegun _ =>
    rw [hstart] at hbegun
    cases hbegun

theorem invalid_of_start (hascii : ¬ byte ≤ 0x7F) (hstart : start byte = ([replacement], none)) :
    Invalid [byte] rest where
  ne_nil := List.cons_ne_nil byte []
  begins := Or.inr rfl
  unfinished c hfront := by
    rcases List.prefix_cons_iff.mp hfront with heq | ⟨more, heq, -⟩
    · simp at heq
    · exact not_begins_cons hascii hstart ⟨c, by rw [heq]⟩
  longest longer hfront hbegins := by
    rcases List.prefix_cons_iff.mp hfront with rfl | ⟨longer, rfl, -⟩
    · exact Nat.zero_le _
    · exact absurd hbegins (not_begins_cons hascii hstart)

end

/-- Either the input begins with a character, or the decoder replaces the piece that it should. -/
theorem char_or_invalid {input : Bytes} (h : input ≠ []) :
    (∃ c rest, input = String.utf8EncodeChar c ++ rest) ∨
      ∃ piece rest, input = piece ++ rest ∧ Invalid piece rest ∧
        decode input = replacement :: decode rest := by
  obtain ⟨byte, input, rfl⟩ := List.exists_cons_of_ne_nil h
  rcases start_cases byte with hascii | ⟨hascii, hstart⟩ | ⟨u, hstart, hu⟩
  · refine Or.inl ⟨Char.ofNat byte.toNat, input, ?_⟩
    rw [(Spells.ascii hascii).encodeChar_eq]
    rfl
  · refine Or.inr ⟨[byte], input, rfl, invalid_of_start hascii hstart, ?_⟩
    rw [decode, decodeFrom_cons, step, hstart]
    rfl
  · rcases hu.finishes_or_stops input with
      ⟨bytes, c, rest, rfl, hfinishes⟩ | ⟨piece, rest, rfl, hstops, hdecode⟩
    · refine Or.inl ⟨c, rest, ?_⟩
      rw [(Spells.begun hstart hfinishes).encodeChar_eq]
      rfl
    · refine Or.inr ⟨byte :: piece, rest, rfl, hstops.invalid hstart, ?_⟩
      rw [decode, decodeFrom_begun hstart, hdecode, decode]

theorem decode_eq_nil_iff {input : Bytes} : decode input = [] ↔ input = [] := by
  constructor
  · intro h
    by_contra hempty
    rcases char_or_invalid hempty with ⟨c, rest, rfl⟩ | ⟨piece, rest, -, -, hdecode⟩
    · rw [decode, decodeFrom_encodeChar] at h
      exact absurd h (List.cons_ne_nil _ _)
    · rw [hdecode] at h
      exact absurd h (List.cons_ne_nil _ _)
  · rintro rfl
    rfl

theorem length_lt_append {piece : Bytes} (h : piece ≠ []) (rest : Bytes) :
    rest.length < (piece ++ rest).length := by
  have hsome : 0 < piece.length := List.length_pos_iff.mpr h
  rw [List.length_append]
  omega

/-- The decoder decodes as specified. The induction is on the number of bytes that are left. -/
theorem lossy_decode (input : Bytes) : Lossy input (decode input) := by
  induction hlength : input.length using Nat.strong_induction_on generalizing input with
  | _ length ih =>
    subst hlength
    by_cases hempty : input = []
    · rw [hempty]
      exact .nil
    rcases char_or_invalid hempty with ⟨c, rest, rfl⟩ | ⟨piece, rest, rfl, hpiece, hdecode⟩
    · rw [decode, decodeFrom_encodeChar]
      exact .char c (ih rest.length (length_lt_append (by simp) rest) rest rfl)
    · rw [hdecode]
      exact .invalid hpiece (ih rest.length (length_lt_append hpiece.ne_nil rest) rest rfl)

/-! ## One decoding only -/

theorem encodeChar_append_inj {c d : Char} {a b : Bytes}
    (h : String.utf8EncodeChar c ++ a = String.utf8EncodeChar d ++ b) : c = d ∧ a = b := by
  have hdecode : c :: decodeFrom none a = d :: decodeFrom none b := by
    rw [← decodeFrom_encodeChar, ← decodeFrom_encodeChar, h]
  obtain ⟨rfl, -⟩ := List.cons.inj hdecode
  exact ⟨rfl, List.append_cancel_left h⟩

/-- Of two pieces of an input that are no characters neither is longer. -/
theorem Invalid.length_le {piece rest piece' rest' : Bytes} (h : Invalid piece rest)
    (h' : Invalid piece' rest') (heq : piece ++ rest = piece' ++ rest') :
    piece'.length ≤ piece.length := by
  rcases h'.begins with hbegins | hone
  · exact h.longest piece' ⟨rest', heq.symm⟩ hbegins
  · rw [hone]
    exact List.length_pos_iff.mpr h.ne_nil

theorem Invalid.inj {piece rest piece' rest' : Bytes} (h : Invalid piece rest)
    (h' : Invalid piece' rest') (heq : piece ++ rest = piece' ++ rest') :
    piece = piece' ∧ rest = rest' :=
  List.append_inj heq (Nat.le_antisymm (h'.length_le h heq.symm) (h.length_le h' heq))

theorem Lossy.unique {input : Bytes} {a b : Text} (ha : Lossy input a) (hb : Lossy input b) :
    a = b := by
  induction ha generalizing b with
  | nil =>
    generalize hinput : ([] : Bytes) = input at hb
    cases hb with
    | nil => rfl
    | char c _ => simp at hinput
    | invalid hpiece _ => exact absurd (List.append_eq_nil_iff.mp hinput.symm).1 hpiece.ne_nil
  | @char rest text c _ ih =>
    generalize hinput : String.utf8EncodeChar c ++ rest = input at hb
    cases hb with
    | nil => simp at hinput
    | char d h =>
      obtain ⟨rfl, rfl⟩ := encodeChar_append_inj hinput
      rw [ih h]
    | invalid hpiece _ => exact absurd ⟨rest, hinput⟩ (hpiece.unfinished c)
  | @invalid piece rest text hpiece _ ih =>
    generalize hinput : piece ++ rest = input at hb
    cases hb with
    | nil => exact absurd (List.append_eq_nil_iff.mp hinput).1 hpiece.ne_nil
    | char d _ => exact absurd ⟨_, hinput.symm⟩ (hpiece.unfinished d)
    | invalid hother h =>
      obtain ⟨rfl, rfl⟩ := hpiece.inj hother hinput
      rw [ih h]

theorem lossy_iff {input : Bytes} {text : Text} : Lossy input text ↔ decode input = text := by
  constructor
  · exact (lossy_decode input).unique
  · rintro rfl
    exact lossy_decode input

/-! ## ASCII in the decoded text -/

theorem Invalid.of_append {piece a b : Bytes} (h : Invalid piece (a ++ b)) : Invalid piece a := by
  have hfront : piece ++ a <+: piece ++ (a ++ b) :=
    (List.prefix_append_right_inj piece).mpr (List.prefix_append a b)
  refine ⟨h.ne_nil, h.begins, fun c hc => h.unfinished c (hc.trans hfront), ?_⟩
  intro longer hlonger hbegins
  exact h.longest longer (hlonger.trans hfront) hbegins

theorem ascii_ne_replacement {byte : UInt8} (h : byte ≤ 0x7F) :
    Char.ofNat byte.toNat ≠ replacement := by
  intro heq
  have hsmall : byte.toNat ≤ 127 := UInt8.le_iff_toNat_le.mp h
  have hval : (Char.ofNat byte.toNat).val.toNat = byte.toNat := val_ofNat (by omega)
  rw [heq] at hval
  change 0xFFFD = _ at hval
  omega

/-- The converse of `decode_append_ascii`. -/
theorem exists_of_decode_eq {byte : UInt8} (hascii : byte ≤ 0x7F) {input : Bytes}
    {before after : Text} (h : decode input = before ++ Char.ofNat byte.toNat :: after) :
    ∃ a b, input = a ++ byte :: b ∧ decode a = before ∧ decode b = after := by
  have hlossy : Lossy input (before ++ Char.ofNat byte.toNat :: after) := lossy_iff.mpr h
  clear h
  generalize htext : before ++ Char.ofNat byte.toNat :: after = text at hlossy
  induction hlossy generalizing before with
  | nil => simp at htext
  | @char rest text c h ih =>
    rcases List.append_eq_cons_iff.mp htext with ⟨rfl, heq⟩ | ⟨before, rfl, heq⟩
    · obtain ⟨rfl, rfl⟩ := List.cons.inj heq
      refine ⟨[], rest, ?_, rfl, lossy_iff.mp h⟩
      rw [(Spells.ascii hascii).encodeChar_eq]
      rfl
    · obtain ⟨a, b, rfl, ha, hb⟩ := ih heq.symm
      refine ⟨String.utf8EncodeChar c ++ a, b, by simp, ?_, hb⟩
      rw [decode, decodeFrom_encodeChar, ← decode, ha]
  | @invalid piece rest text hpiece h ih =>
    rcases List.append_eq_cons_iff.mp htext with ⟨rfl, heq⟩ | ⟨before, rfl, heq⟩
    · exact absurd (List.cons.inj heq).1 (ascii_ne_replacement hascii)
    · obtain ⟨a, b, rfl, ha, hb⟩ := ih heq.symm
      refine ⟨piece ++ a, b, by simp, ?_, hb⟩
      exact lossy_iff.mp (.invalid hpiece.of_append (lossy_iff.mpr ha))

/-- A character of ASCII stands in the text if its byte is among the bytes. -/
theorem mem_decode_iff (byte : UInt8) (hascii : byte ≤ 0x7F) {input : Bytes} :
    Char.ofNat byte.toNat ∈ decode input ↔ byte ∈ input := by
  constructor
  · intro h
    obtain ⟨before, after, htext⟩ := List.append_of_mem h
    obtain ⟨a, b, rfl, -, -⟩ := exists_of_decode_eq hascii htext
    exact List.mem_append_right a List.mem_cons_self
  · intro h
    obtain ⟨a, b, rfl⟩ := List.append_of_mem h
    rw [decode_append_ascii hascii]
    exact List.mem_append_right _ List.mem_cons_self

end LineShell.Utf8
