import LineShell.Text.Slice
import Mathlib.Data.List.Forall2

/-!
# Boundaries between characters

A character of ASCII is one byte. Any other character begins with a byte from `0xC0` on, and the
bytes behind that one continue it. So the bytes of a text can be cut between any two characters.

* `Utf8.encodeChar_cases`: the two kinds of characters by their bytes.
* `Utf8.head?_encode`: the first byte of a text is one of ASCII if and only if its first character
  is this character.
* `Text.Boundary`, `Slice.Cuts`: a position between two characters, and a slice that begins and ends
  at such positions.
* `Slice.Holds`: a slice is that of a part of a text. By `Slice.Holds.cut?_eq` this part is cut out.
-/

namespace LineShell

theorem Text.byteSize_concat (text : Text) (c : Char) :
    byteSize (text ++ [c]) = text.byteSize + c.utf8Size :=
  byteSize_append text [c]

namespace Utf8

theorem length_encode (text : Text) : (encode text).length = text.byteSize := by
  induction text with
  | nil => rfl
  | cons c rest ih =>
    rw [encode_cons, List.length_append, String.length_utf8EncodeChar, ih, Text.byteSize_cons]

/-! ## The bytes of a character -/

theorem continues_ofNat : ∀ n < 64, continues (UInt8.ofNat (n + 128)) = true := by
  decide

theorem le_two : ∀ n < 32, 0xC0 ≤ UInt8.ofNat (n + 192) := by
  decide

theorem le_three : ∀ n < 16, 0xC0 ≤ UInt8.ofNat (n + 224) := by
  decide

theorem le_four : ∀ n < 8, 0xC0 ≤ UInt8.ofNat (n + 240) := by
  decide

/-- The cases are those of the encoding. -/
theorem encodeChar_cases (c : Char) :
    (c.toNat ≤ 0x7F ∧ String.utf8EncodeChar c = [UInt8.ofNat c.toNat]) ∨
      0x7F < c.toNat ∧ ∃ first more, String.utf8EncodeChar c = first :: more ∧ 0xC0 ≤ first ∧
        ∀ byte ∈ more, continues byte = true := by
  have hbyte : ∀ n, continues (UInt8.ofNat (n % 64 + 128)) = true := fun n =>
    continues_ofNat _ (Nat.mod_lt n (by decide))
  fun_cases String.utf8EncodeChar c with
  | case1 v hone => exact Or.inl ⟨hone, rfl⟩
  | case2 v hone htwo =>
    refine Or.inr ⟨Nat.lt_of_not_le hone, _, _, rfl, le_two _ (Nat.mod_lt _ (by decide)), ?_⟩
    exact List.forall_mem_singleton.mpr (hbyte _)
  | case3 v hone htwo hthree =>
    refine Or.inr ⟨Nat.lt_of_not_le hone, _, _, rfl, le_three _ (Nat.mod_lt _ (by decide)), ?_⟩
    exact List.forall_mem_cons.mpr ⟨hbyte _, List.forall_mem_singleton.mpr (hbyte _)⟩
  | case4 v hone htwo hthree =>
    refine Or.inr ⟨Nat.lt_of_not_le hone, _, _, rfl, le_four _ (Nat.mod_lt _ (by decide)), ?_⟩
    refine List.forall_mem_cons.mpr ⟨hbyte _, List.forall_mem_cons.mpr ⟨hbyte _, ?_⟩⟩
    exact List.forall_mem_singleton.mpr (hbyte _)

theorem le_of_continues {byte : UInt8} (h : continues byte = true) : 0x80 ≤ byte := by
  rw [continues, Bool.and_eq_true, decide_eq_true_eq] at h
  exact h.1

/-- No byte of a character beyond ASCII is one of ASCII. -/
theorem beyondAscii_of_mem {c : Char} (hc : 0x7F < c.toNat) :
    ∀ byte ∈ String.utf8EncodeChar c, 0x80 ≤ byte := by
  rcases encodeChar_cases c with ⟨hascii, -⟩ | ⟨-, first, more, hbytes, hfirst, hmore⟩
  · exact absurd hascii (Nat.not_le.mpr hc)
  · rw [hbytes]
    refine List.forall_mem_cons.mpr ⟨UInt8.le_trans (by decide) hfirst, fun byte hbyte => ?_⟩
    exact le_of_continues (hmore byte hbyte)

theorem encodeChar_of_ascii {c : Char} (hc : c.toNat ≤ 0x7F) :
    String.utf8EncodeChar c = [UInt8.ofNat c.toNat] := by
  rcases encodeChar_cases c with ⟨-, hbytes⟩ | ⟨hbeyond, -⟩
  · exact hbytes
  · exact absurd hc (Nat.not_le.mpr hbeyond)

theorem utf8Size_of_ascii {c : Char} (hc : c.toNat ≤ 0x7F) : c.utf8Size = 1 := by
  rw [← String.length_utf8EncodeChar, encodeChar_of_ascii hc, List.length_singleton]

/-! ## Bytes of a text -/

theorem le_length_encode (before : Text) (c : Char) (rest : Text) :
    before.byteSize + c.utf8Size ≤ (encode (before ++ c :: rest)).length := by
  rw [length_encode, Text.byteSize_append, Text.byteSize_cons, ← Nat.add_assoc]
  exact Nat.le_add_right _ _

theorem getElem?_encode_append (before text : Text) (k : Nat) :
    (encode (before ++ text))[before.byteSize + k]? = (encode text)[k]? := by
  rw [encode_append, ← length_encode, List.getElem?_append_right (Nat.le_add_right _ k),
    Nat.add_sub_cancel_left]

theorem getElem?_encode_cons (before rest : Text) {c : Char} {k : Nat} (hk : k < c.utf8Size) :
    (encode (before ++ c :: rest))[before.byteSize + k]? = (String.utf8EncodeChar c)[k]? := by
  rw [getElem?_encode_append, encode_cons, List.getElem?_append_left]
  rwa [String.length_utf8EncodeChar]

theorem head?_encode {c : Char} (hc : c.toNat ≤ 0x7F) {text : Text} :
    (encode text).head? = some (UInt8.ofNat c.toNat) ↔ text.head? = some c := by
  have hsmall : c.toNat < UInt8.size := Nat.lt_of_le_of_lt hc (by decide)
  cases text with
  | nil => simp
  | cons d rest =>
    rw [encode_cons, List.head?_cons, Option.some.injEq]
    rcases encodeChar_cases d with ⟨hd, hbytes⟩ | ⟨hd, first, more, hbytes, hfirst, -⟩
    · have hdsmall : d.toNat < UInt8.size := Nat.lt_of_le_of_lt hd (by decide)
      rw [hbytes, List.singleton_append, List.head?_cons, Option.some.injEq]
      constructor
      · intro h
        have hnat := congrArg UInt8.toNat h
        rw [UInt8.toNat_ofNat_of_lt' hdsmall, UInt8.toNat_ofNat_of_lt' hsmall] at hnat
        exact Char.toNat_inj.mp hnat
      · rintro rfl
        rfl
    · rw [hbytes, List.cons_append, List.head?_cons, Option.some.injEq]
      refine iff_of_false ?_ ?_
      · rintro rfl
        rw [UInt8.le_iff_toNat_le, UInt8.toNat_ofNat_of_lt' hsmall] at hfirst
        exact absurd (Nat.le_trans hfirst hc) (by decide)
      · rintro rfl
        exact absurd hc (Nat.not_le.mpr hd)

theorem exists_first (c : Char) :
    ∃ first more, String.utf8EncodeChar c = first :: more ∧ continues first = false := by
  rcases encodeChar_cases c with ⟨hascii, hbytes⟩ | ⟨-, first, more, hbytes, hfirst, -⟩
  · refine ⟨_, [], hbytes, Bool.and_eq_false_imp.mpr fun h => ?_⟩
    rw [decide_eq_true_eq, UInt8.le_iff_toNat_le,
      UInt8.toNat_ofNat_of_lt' (Nat.lt_of_le_of_lt hascii (by decide))] at h
    exact absurd (Nat.le_trans h hascii) (by decide)
  · refine ⟨first, more, hbytes, Bool.and_eq_false_imp.mpr fun _ => ?_⟩
    exact decide_eq_false (UInt8.not_lt.mpr hfirst)

/-- The bytes can be cut behind any first part of the text. -/
theorem isBoundary_encode (before after : Text) :
    isBoundary (encode (before ++ after)) before.byteSize = true := by
  have hbyte := getElem?_encode_append before after 0
  rw [Nat.add_zero] at hbyte
  rw [isBoundary, hbyte, Bool.or_eq_true]
  refine Or.inr ?_
  cases after with
  | nil =>
    rw [List.append_nil, ← length_encode]
    exact beq_self_eq_true _
  | cons c rest =>
    obtain ⟨first, more, hbytes, hfirst⟩ := exists_first c
    rw [encode_cons, hbytes]
    exact (Bool.not_eq_true' _).mpr hfirst

end Utf8

/-! ## Slices of a text -/

/-- The position is between two characters of the text, or at one of its ends. -/
def Text.Boundary (text : Text) (position : Nat) : Prop :=
  ∃ before after, text = before ++ after ∧ before.byteSize = position

namespace Slice

/-- The slice can be cut out of the text. -/
structure Cuts (text : Text) (slice : Slice) : Prop where
  ordered : slice.start ≤ slice.stop
  bounded : slice.stop ≤ text.byteSize
  start : text.Boundary slice.start
  stop : text.Boundary slice.stop

/-- The slice is that of this part of the text. -/
def Holds (text : Text) (slice : Slice) (part : Text) : Prop :=
  ∃ before after, text = before ++ (part ++ after) ∧
    slice = ⟨before.byteSize, before.byteSize + part.byteSize⟩

variable {text : Text}

theorem Holds.cuts {slice : Slice} {part : Text} (h : slice.Holds text part) :
    slice.Cuts text := by
  obtain ⟨before, after, rfl, rfl⟩ := h
  refine ⟨Nat.le_add_right _ _, ?_, ⟨before, _, rfl, rfl⟩, ⟨before ++ part, after, ?_, ?_⟩⟩
  · rw [Text.byteSize_append, Text.byteSize_append]
    exact Nat.add_le_add_left (Nat.le_add_right _ _) _
  · rw [List.append_assoc]
  · exact Text.byteSize_append before part

theorem cuts_of_holds {slices : List Slice} {parts : List Text}
    (h : List.Forall₂ (Holds text) slices parts) : ∀ slice ∈ slices, slice.Cuts text := by
  induction h with
  | nil => simp
  | cons hslice _ ih => exact List.forall_mem_cons.mpr ⟨hslice.cuts, ih⟩

theorem Holds.cut?_eq {slice : Slice} {part : Text} (h : slice.Holds text part) :
    cut? (Utf8.encode text) slice = some (Utf8.encode part) := by
  obtain ⟨before, after, rfl, rfl⟩ := h
  have hstart := Utf8.isBoundary_encode before (part ++ after)
  have hstop := Utf8.isBoundary_encode (before ++ part) after
  rw [List.append_assoc, Text.byteSize_append] at hstop
  rw [cut?, if_pos ⟨Nat.le_add_right _ _, hstart, hstop⟩, Nat.add_sub_cancel_left,
    Utf8.encode_append, Utf8.encode_append, ← Utf8.length_encode, ← Utf8.length_encode,
    List.drop_left, List.take_left]

theorem cutAll?_eq {slices : List Slice} {parts : List Text}
    (h : List.Forall₂ (Holds text) slices parts) :
    cutAll? (Utf8.encode text) slices = some (parts.map Utf8.encode) := by
  induction h with
  | nil => rfl
  | cons hslice _ ih => rw [cutAll?, hslice.cut?_eq, Option.bind_some, ih, Option.map_some,
      List.map_cons]

end Slice

end LineShell
