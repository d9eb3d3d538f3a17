import LineShell.Proofs.Lines
import LineShell.Proofs.LossyDecoding

/-!
# Reading line by line

An input is cut into lines before it is decoded, so a character that is not finished at the end of a
line is never looked at together with the next line. This makes no difference: no line end is part
of a character, finished or not.

* `splitLines`: the lines of an input as pieces between newlines; `cutLines_eq_splitLines` says that
  cutting gives these.
* `newline_induction`: induction over an input, one line after another.
* `readLines_eq`: the lines of an input are those of the whole input, decoded.
* `readLines_exact`: what reading comes to, with the decoding as it is specified.
-/

namespace LineShell

section

variable {α : Type} [DecidableEq α] {newline carriageReturn : α}

/-! ## Pieces between newlines -/

/-- The line without the mark, if the mark is at its end. -/
def withoutLast (mark : α) (line : List α) : List α :=
  if line.getLast? = some mark then line.dropLast else line

/-- The pieces between newlines. The last one is followed by no newline, so it is left as it is, and
is no line if there is nothing in it. -/
def splitLines (newline carriageReturn : α) (input : List α) : List (List α) :=
  let pieces := input.splitOn newline
  pieces.dropLast.map (withoutLast carriageReturn) ++ pieces.getLast?.toList.filter (· ≠ [])

theorem withoutLast_concat (mark : α) (line : List α) :
    withoutLast mark (line ++ [mark]) = line := by
  simp [withoutLast]

theorem withoutLast_of_ne {mark : α} {line : List α} (h : line.getLast? ≠ some mark) :
    withoutLast mark line = line := if_neg h

theorem withoutLast_cons_cons (mark a b : α) (line : List α) :
    withoutLast mark (a :: b :: line) = a :: withoutLast mark (b :: line) := by
  rw [withoutLast, withoutLast, List.getLast?_cons_cons, List.dropLast_cons_cons]
  split <;> rfl

/-- An input is a piece without a newline, or such a piece, a newline and a further input. -/
@[elab_as_elim]
theorem newline_induction {motive : List α → Prop} (newline : α)
    (piece : ∀ piece, newline ∉ piece → motive piece)
    (line : ∀ piece rest, newline ∉ piece → motive rest → motive (piece ++ newline :: rest))
    (input : List α) : motive input := by
  -- What has been read of a piece stays in front, so the whole piece is there at its newline.
  suffices h : ∀ start, newline ∉ start → motive (start ++ input) from h [] List.not_mem_nil
  induction input with
  | nil =>
    intro start hstart
    rw [List.append_nil]
    exact piece start hstart
  | cons a input ih =>
    intro start hstart
    by_cases ha : a = newline
    · rw [ha]
      exact line start input hstart (ih [] List.not_mem_nil)
    · have hmore : newline ∉ start ++ [a] := by simp [hstart, Ne.symm ha]
      rw [List.append_cons]
      exact ih (start ++ [a]) hmore

theorem splitLines_of_not_mem {piece : List α} (h : newline ∉ piece) :
    splitLines newline carriageReturn piece = [piece].filter (· ≠ []) := by
  rw [splitLines, List.splitOn_eq_singleton h]
  rfl

theorem splitLines_append_newline {piece : List α} (h : newline ∉ piece) (rest : List α) :
    splitLines newline carriageReturn (piece ++ newline :: rest) =
      withoutLast carriageReturn piece :: splitLines newline carriageReturn rest := by
  have hne : rest.splitOn newline ≠ [] := List.splitOn_ne_nil newline rest
  obtain ⟨first, later, hpieces⟩ := List.exists_cons_of_ne_nil hne
  rw [splitLines, splitLines, List.splitOn_append_cons_self_of_not_mem h, hpieces]
  rfl

theorem cutLines_append_newline {piece : List α} (h : newline ∉ piece) (rest : List α) :
    cutLines newline carriageReturn (piece ++ newline :: rest) =
      withoutLast carriageReturn piece :: cutLines newline carriageReturn rest := by
  induction piece with
  | nil => exact cutLines_newline newline carriageReturn rest
  | cons a piece ih =>
    rw [List.mem_cons, not_or] at h
    obtain ⟨ha, hpiece⟩ := h
    cases piece with
    | nil =>
      by_cases hreturn : a = carriageReturn
      · subst hreturn
        rw [List.singleton_append, cutLines_return_newline (Ne.symm ha)]
        rw [← List.nil_append [a], withoutLast_concat]
      · have hlast : [a].getLast? ≠ some carriageReturn := by simpa using hreturn
        rw [List.singleton_append, cutLines_cons_cons (Ne.symm ha) (fun h => hreturn h.1),
          cutLines_newline, withoutLast_of_ne hlast]
        rfl
    | cons b piece =>
      have hb : b ≠ newline := fun hb => hpiece (hb ▸ List.mem_cons_self)
      rw [List.cons_append, List.cons_append,
        cutLines_cons_cons (Ne.symm ha) (fun h => hb h.2), ← List.cons_append, ih hpiece,
        withoutLast_cons_cons]
      rfl

theorem cutLines_eq_splitLines (input : List α) :
    cutLines newline carriageReturn input = splitLines newline carriageReturn input := by
  induction input using newline_induction newline with
  | piece piece h =>
    rw [splitLines_of_not_mem h]
    by_cases hempty : piece = []
    · rw [hempty]
      rfl
    · rw [cutLines_of_not_mem hempty h]
      simp [hempty]
  | line piece rest h ih => rw [cutLines_append_newline h, splitLines_append_newline h, ih]

end

/-! ## The decoded input -/

namespace Utf8

theorem newline_mem_decode {input : Bytes} (h : '\n' ∈ decode input) : 0x0A ∈ input := by
  obtain ⟨before, after, heq⟩ := List.append_of_mem h
  have hascii : (0x0A : UInt8) ≤ 0x7F := by decide
  obtain ⟨a, b, rfl, -, -⟩ := exists_of_decode_eq hascii heq
  exact List.mem_append_right a List.mem_cons_self

theorem decode_withoutLast (line : Bytes) :
    decode (withoutLast 0x0D line) = withoutLast '\r' (decode line) := by
  by_cases hlast : line.getLast? = some 0x0D
  · obtain ⟨start, rfl⟩ := List.getLast?_eq_some_iff.mp hlast
    rw [withoutLast_concat, decode_concat_return, withoutLast_concat]
  · have hdecoded : (decode line).getLast? ≠ some '\r' := by
      intro h
      obtain ⟨before, heq⟩ := List.getLast?_eq_some_iff.mp h
      have hascii : (0x0D : UInt8) ≤ 0x7F := by decide
      obtain ⟨a, b, rfl, -, hb⟩ := exists_of_decode_eq hascii heq
      rw [decode_eq_nil_iff.mp hb] at hlast
      exact hlast (List.getLast?_eq_some_iff.mpr ⟨a, rfl⟩)
    rw [withoutLast_of_ne hlast, withoutLast_of_ne hdecoded]

end Utf8

theorem readLines_eq (input : Bytes) :
    readLines input = cutLines '\n' '\r' (Utf8.decode input) := by
  rw [readLines]
  induction input using newline_induction (0x0A : UInt8) with
  | piece piece h =>
    have hdecoded : '\n' ∉ Utf8.decode piece := mt Utf8.newline_mem_decode h
    by_cases hempty : piece = []
    · rw [hempty]
      rfl
    · rw [cutLines_of_not_mem hempty h, cutLines_of_not_mem (mt Utf8.decode_eq_nil_iff.mp hempty)
        hdecoded]
      rfl
  | line piece rest h ih =>
    have hdecoded : '\n' ∉ Utf8.decode piece := mt Utf8.newline_mem_decode h
    have hwhole : Utf8.decode (piece ++ 0x0A :: rest) =
        Utf8.decode piece ++ '\n' :: Utf8.decode rest :=
      Utf8.decode_append_ascii (by decide) piece rest
    rw [cutLines_append_newline h, List.map_cons, ih, hwhole, cutLines_append_newline hdecoded,
      Utf8.decode_withoutLast]

theorem splitLines_ofLines {lines : List Text}
    (h : ∀ line ∈ lines, '\n' ∉ line ∧ line.getLast? ≠ some '\r') :
    splitLines '\n' '\r' (Text.ofLines lines) = lines := by
  induction lines with
  | nil => rfl
  | cons line later ih =>
    obtain ⟨⟨hnewline, hreturn⟩, hlater⟩ := List.forall_mem_cons.mp h
    have hcons : Text.ofLines (line :: later) = line ++ '\n' :: Text.ofLines later := by
      simp [Text.ofLines]
    rw [hcons, splitLines_append_newline hnewline, withoutLast_of_ne hreturn, ih hlater]

/-- **Reading line by line loses nothing.** The lines of an input are the pieces between the
newlines of the whole input, decoded with one replacement character for each piece that is no
character. There is one such decoding of every input. Lines that are written one after the other,
each with a newline behind it, are read again. -/
theorem readLines_exact :
    (∀ input, (∀ text, Utf8.Lossy input text ↔ text = Utf8.decode input) ∧
      readLines input = splitLines '\n' '\r' (Utf8.decode input)) ∧
    ∀ lines : List Text, (∀ line ∈ lines, '\n' ∉ line ∧ line.getLast? ≠ some '\r') →
      readLines (Utf8.encode (Text.ofLines lines)) = lines := by
  have hread : ∀ input, readLines input = splitLines '\n' '\r' (Utf8.decode input) := by
    intro input
    rw [readLines_eq, cutLines_eq_splitLines]
  refine ⟨fun input => ⟨fun text => Utf8.lossy_iff.trans eq_comm, hread input⟩, ?_⟩
  intro lines hlines
  rw [hread, Utf8.decode_encode, splitLines_ofLines hlines]

/-- Characters that end at a line end or are encoded in too many bytes, half a surrogate pair, a
line without anything, and a last line that ends in a carriage return. -/
theorem readLines_exact_broken :
    let input : Bytes :=
      [0x61, 0xE2, 0x82, 0x0D, 0x0A, 0xC0, 0x80, 0x0A, 0xED, 0xA0, 0x80, 0x0D, 0x0A, 0x0A, 0xF0,
        0x9F, 0x0D]
    let lines : List Text := ["\u00E9".toList, [], "a\rb".toList]
    Utf8.Lossy input
        "a\uFFFD\r\n\uFFFD\uFFFD\n\uFFFD\uFFFD\uFFFD\r\n\n\uFFFD\r".toList ∧
      readLines input =
        ["a\uFFFD", "\uFFFD\uFFFD", "\uFFFD\uFFFD\uFFFD", "", "\uFFFD\r"].map String.toList ∧
      (∀ line ∈ lines, '\n' ∉ line ∧ line.getLast? ≠ some '\r') ∧
      readLines (Utf8.encode (Text.ofLines lines)) = lines := by
  intro input lines
  have hlines : ∀ line ∈ lines, '\n' ∉ line ∧ line.getLast? ≠ some '\r' := by decide
  obtain ⟨hinput, hwritten⟩ := readLines_exact
  obtain ⟨hdecode, hread⟩ := hinput input
  refine ⟨(hdecode _).mpr (by decide +kernel), ?_, hlines, hwritten lines hlines⟩
  rw [hread]
  decide +kernel

end LineShell
