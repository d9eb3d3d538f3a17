import LineShell.Interpreter.Line

/-!
# Where comments begin

* `stripComment_eq_self`: a line without `#` has no comment.
* `beforeComment_append`: where the comment of a text begins is decided from left to right, so a
  second part is read only if no comment begins in the first one.
* `beforeComment_concat`: a character at the end of a line belongs to its comment or stays
  behind its text.
* `stripComment_eq_some`: what is left of a line, and that nothing more is stripped of it.
* `Uncommented`: no comment begins in a text, wherever it is put. `Uncommented.append_cons`
  joins two such texts by a character that may open a comment. They are the lines that are left
  whole, by `Uncommented.stripComment_eq` and `uncommented_of_stripComment`.
* `Machine.processLine_comment`: what a comment says makes no difference.
-/

namespace LineShell

/-! ## Lines -/

theorem beforeComment_cons {c : Char} (hc : c ≠ '#') (mayBegin : Bool) (rest : Text) :
    beforeComment mayBegin (c :: rest) = c :: beforeComment (opensComment c) rest := by
  rw [beforeComment, beq_eq_false_iff_ne.mpr hc, Bool.false_and, if_neg Bool.false_ne_true]

theorem beforeComment_eq_self {text : Text} (h : '#' ∉ text) (mayBegin : Bool) :
    beforeComment mayBegin text = text := by
  induction text generalizing mayBegin with
  | nil => rfl
  | cons c rest ih =>
    have hc : c ≠ '#' := (List.ne_of_not_mem_cons h).symm
    have hrest : '#' ∉ rest := List.not_mem_of_not_mem_cons h
    rw [beforeComment_cons hc, ih hrest]

theorem stripComment_cons {c : Char} (h : c ≠ '#') (rest : Text) :
    stripComment (c :: rest) = some (beforeComment false (c :: rest)) := by
  rw [stripComment]
  intro tail htail
  exact h (List.cons.inj htail).1

theorem stripComment_eq_self {line : Text} (h : '#' ∉ line) : stripComment line = some line := by
  cases line with
  | nil => rfl
  | cons c rest =>
    have hc : c ≠ '#' := (List.ne_of_not_mem_cons h).symm
    rw [stripComment_cons hc, beforeComment_eq_self h]

/-! ## One part after another -/

/-- Whether a comment may begin right behind a text. -/
def mayBeginAfter (mayBegin : Bool) (text : Text) : Bool :=
  text.foldl (fun _ c => opensComment c) mayBegin

theorem mayBeginAfter_concat (mayBegin : Bool) (text : Text) (c : Char) :
    mayBeginAfter mayBegin (text ++ [c]) = opensComment c := by
  rw [mayBeginAfter, List.foldl_append]
  rfl

theorem beforeComment_append (mayBegin : Bool) (a b : Text) :
    beforeComment mayBegin (a ++ b) =
      if beforeComment mayBegin a = a then a ++ beforeComment (mayBeginAfter mayBegin a) b
      else beforeComment mayBegin a := by
  induction a generalizing mayBegin with
  | nil => rfl
  | cons c rest ih =>
    rw [List.cons_append, beforeComment, beforeComment]
    split
    · simp
    · have hrest : mayBeginAfter mayBegin (c :: rest) = mayBeginAfter (opensComment c) rest := rfl
      rw [ih, hrest]
      simp only [List.cons.injEq, true_and]
      split
      · rfl
      · rfl

theorem beforeComment_concat {c : Char} (hc : c ≠ '#') (mayBegin : Bool) (text : Text) :
    beforeComment mayBegin (text ++ [c]) = beforeComment mayBegin text ∨
      beforeComment mayBegin (text ++ [c]) = beforeComment mayBegin text ++ [c] := by
  rw [beforeComment_append]
  split
  · rename_i htext
    have hlast : '#' ∉ [c] := by simpa using Ne.symm hc
    rw [htext, beforeComment_eq_self hlast]
    exact Or.inr rfl
  · exact Or.inl rfl

/-- A `#` behind a character that opens comments begins one, or stands in an earlier one. -/
theorem beforeComment_append_hash {last : Char} (hlast : opensComment last = true)
    (mayBegin : Bool) (text comment : Text) :
    beforeComment mayBegin (text ++ [last] ++ '#' :: comment) =
      beforeComment mayBegin (text ++ [last]) := by
  rw [beforeComment_append, mayBeginAfter_concat, hlast]
  split
  · rename_i hwhole
    rw [hwhole]
    exact List.append_nil _
  · rfl

theorem stripComment_append_hash {last : Char} (hlast : opensComment last = true)
    (text comment : Text) :
    stripComment (text ++ [last] ++ '#' :: comment) = stripComment (text ++ [last]) := by
  obtain ⟨c, rest, hline⟩ : ∃ c rest, text ++ [last] = c :: rest :=
    List.exists_cons_of_ne_nil (by simp)
  have hstrip := beforeComment_append_hash hlast false text comment
  rw [hline] at hstrip ⊢
  rw [List.cons_append] at hstrip ⊢
  by_cases hc : c = '#'
  · rw [hc, stripComment_hash, stripComment_hash]
  · rw [stripComment_cons hc, stripComment_cons hc, hstrip]

/-! ## What is left of a line -/

theorem exists_beforeComment_append (mayBegin : Bool) (line : Text) :
    ∃ comment, line = beforeComment mayBegin line ++ comment ∧
      (comment = [] ∨ ∃ rest, comment = '#' :: rest) := by
  induction line generalizing mayBegin with
  | nil => exact ⟨[], rfl, Or.inl rfl⟩
  | cons c rest ih =>
    rw [beforeComment]
    split
    · rename_i hbegins
      obtain ⟨hc, -⟩ := Bool.and_eq_true_iff.mp hbegins
      exact ⟨c :: rest, rfl, Or.inr ⟨rest, by rw [beq_iff_eq.mp hc]⟩⟩
    · obtain ⟨comment, hline, hcomment⟩ := ih (opensComment c)
      exact ⟨comment, congrArg (c :: ·) hline, hcomment⟩

theorem beforeComment_beforeComment (mayBegin : Bool) (line : Text) :
    beforeComment mayBegin (beforeComment mayBegin line) = beforeComment mayBegin line := by
  obtain ⟨comment, hline, -⟩ := exists_beforeComment_append mayBegin line
  have happend := beforeComment_append mayBegin (beforeComment mayBegin line) comment
  rw [← hline] at happend
  split at happend
  · rename_i hwhole
    exact hwhole
  · exact happend.symm

theorem stripComment_eq_some {line text : Text} (h : stripComment line = some text) :
    stripComment text = some text ∧
      (text = line ∨ ∃ comment, line = text ++ '#' :: comment) := by
  cases line with
  | nil =>
    cases h
    exact ⟨rfl, Or.inl rfl⟩
  | cons c rest =>
    have hc : c ≠ '#' := by
      rintro rfl
      cases h
    rw [stripComment_cons hc] at h
    obtain rfl := Option.some.inj h
    have htext : beforeComment false (c :: rest) = c :: beforeComment (opensComment c) rest :=
      beforeComment_cons hc false rest
    constructor
    · rw [htext, stripComment_cons hc, ← htext, beforeComment_beforeComment]
    · obtain ⟨comment, hline, rfl | ⟨tail, rfl⟩⟩ :=
        exists_beforeComment_append false (c :: rest)
      · exact Or.inl ((List.append_nil _).symm.trans hline.symm)
      · exact Or.inr ⟨tail, hline⟩

/-! ## Texts without comments -/

/-- No comment begins in the text, even if one may begin right at its start. -/
def Uncommented (text : Text) : Prop := beforeComment true text = text

theorem Uncommented.stripComment_eq {line : Text} (h : Uncommented line) :
    stripComment line = some line := by
  cases line with
  | nil => rfl
  | cons c rest =>
    have hc : c ≠ '#' := by
      rintro rfl
      cases h
    have hsame : beforeComment false (c :: rest) = beforeComment true (c :: rest) := by
      rw [beforeComment_cons hc, beforeComment_cons hc]
    rw [stripComment_cons hc, hsame, h]

theorem uncommented_of_stripComment {line : Text} (h : stripComment line = some line) :
    Uncommented line := by
  cases line with
  | nil => rfl
  | cons c rest =>
    have hc : c ≠ '#' := by
      rintro rfl
      cases h
    rw [stripComment_cons hc, beforeComment_cons hc] at h
    rw [Uncommented, beforeComment_cons hc]
    exact Option.some.inj h

/-- Where a comment may begin between two texts, the second one must not begin with `#`. -/
theorem beforeComment_append_cons {mayBegin : Bool} {a b : Text} {c : Char}
    (hc : opensComment c = true) (ha : beforeComment mayBegin a = a) (hb : Uncommented b) :
    beforeComment mayBegin (a ++ c :: b) = a ++ c :: b := by
  have hhash : c ≠ '#' := by
    rintro rfl
    cases hc
  rw [beforeComment_append, if_pos ha, beforeComment_cons hhash, hc, hb]

theorem Uncommented.append_cons {a b : Text} {c : Char} (hc : opensComment c = true)
    (ha : Uncommented a) (hb : Uncommented b) : Uncommented (a ++ c :: b) :=
  beforeComment_append_cons hc ha hb

theorem beforeComment_false_eq_self {text : Text} (h : ∀ c ∈ text, opensComment c = false) :
    beforeComment false text = text := by
  induction text with
  | nil => rfl
  | cons c rest ih =>
    obtain ⟨hc, hrest⟩ := List.forall_mem_cons.mp h
    rw [beforeComment, Bool.and_false, if_neg Bool.false_ne_true, hc, ih hrest]

/-! ## Lines that are processed -/

/-- A line is processed by what stands in front of its comment. -/
theorem Machine.processLine_of_stripComment_eq (m : Machine) {a b : Text}
    (h : stripComment a = stripComment b) (s : Session) (io : Streams) :
    m.processLine a s io = m.processLine b s io := by
  rw [processLine, processLine, h]

/-- **What a comment says makes no difference.** Behind a space, a tab or `;` a `#` and whatever
follows it may be left out. And what is left of a line without its comment is the line up to a
`#`, or the whole line, and has no comment any more. -/
theorem Machine.processLine_comment (m : Machine) :
    (∀ (text : Text) (last : Char), last = ' ' ∨ last = '\t' ∨ last = ';' →
      ∀ (comment : Text) (s : Session) (io : Streams),
        m.processLine (text ++ [last] ++ '#' :: comment) s io =
          m.processLine (text ++ [last]) s io) ∧
    ∀ line text, stripComment line = some text →
      text <+: line ∧ stripComment text = some text ∧
        (text = line ∨ ∃ comment, line = text ++ '#' :: comment) := by
  constructor
  · intro text last hlast comment s io
    have hopens : opensComment last = true := by
      rcases hlast with rfl | rfl | rfl <;> rfl
    exact m.processLine_of_stripComment_eq (stripComment_append_hash hopens text comment) s io
  · intro line text hstrip
    obtain ⟨hagain, hline⟩ := stripComment_eq_some hstrip
    refine ⟨?_, hagain, hline⟩
    rcases hline with rfl | ⟨comment, rfl⟩
    · exact List.prefix_refl text
    · exact List.prefix_append text _

/-- A `#` inside of a word, and a comment that holds operators, a reference, another `#` and a
newline. -/
theorem Machine.processLine_comment_operators :
    let m : Machine := { registry := Registry.builtins.addProbes [⟨"a".toList, 1, none⟩] }
    let s : Session := { processId := "7".toList, programName := "sh".toList }
    let text := "a b#c;".toList
    let comment := " ;; $X | # exit\n&& a".toList
    m.processLine (text ++ '#' :: comment) s {} = m.processLine text s {} ∧
      output (m.processLine text s {}).effects = Utf8.encode "a <b#c>\n".toList ∧
      stripComment (text ++ '#' :: comment) = some text ∧ stripComment text = some text := by
  intro m s text comment
  have hstrip : stripComment (text ++ '#' :: comment) = some text := by decide
  obtain ⟨hsame, hleft⟩ := m.processLine_comment
  have hsemicolon : ';' = ' ' ∨ ';' = '\t' ∨ ';' = ';' := Or.inr (Or.inr rfl)
  exact ⟨hsame "a b#c".toList ';' hsemicolon comment s {}, by decide +kernel, hstrip,
    (hleft _ text hstrip).2.1⟩

end LineShell
