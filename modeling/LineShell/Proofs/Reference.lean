import LineShell.Line.Reference

/-!
# References in a line

A `$` begins a reference or stands for itself, and the text behind it decides which. This module
says so without the scan that finds references, and gives the induction that follows the scan.

* `EndsReference`: a character that neither goes on with a reference nor begins one.
* `Reference.StandsBefore`: where a reference can stand. A name goes on as far as it can.
* `Reference.read?_eq_some_iff`, `Reference.read?_eq_none_iff`: what is read behind a `$`.
* `reference_induction`: a line is empty, begins with a character that stands for itself, or begins
  with a reference. `substitute_plain` and `substitute_reference` say what becomes of the line in
  the last two cases.
* `pieces_append_dollar`: a line can be cut in front of a `$`, but not inside of a `$$`.
* `substitute_append_cons`: no reference reaches over a character that ends references.
-/

namespace LineShell

/-! ## Ends of references -/

/-- The character is no part of a reference, and no `$` that begins one. -/
def EndsReference (c : Char) : Prop := c ≠ '?' ∧ c ≠ '$' ∧ isNameChar c = false

/-- The text does not go on with a name. -/
def EndsName (rest : Text) : Prop := ∀ c ∈ rest.head?, isNameChar c = false

instance : DecidablePred EndsName
  | [] => isTrue (by rintro c ⟨⟩)
  | c :: _ => decidable_of_iff (isNameChar c = false) (by simp [EndsName])

theorem takeWhile_eq_nil_of_endsName {rest : Text} (h : EndsName rest) :
    rest.takeWhile isNameChar = [] := by
  cases rest with
  | nil => rfl
  | cons c rest => rw [List.takeWhile_cons, h c rfl, if_neg Bool.false_ne_true]

/-- A character that is no part of a name ends a name at the end of a text. -/
theorem EndsName.append {rest : Text} (h : EndsName rest) (tail : Text) {c : Char}
    (hc : isNameChar c = false) : EndsName (rest ++ c :: tail) := by
  cases rest with
  | nil =>
    rintro d ⟨⟩
    exact hc
  | cons d rest => exact h

theorem EndsName.of_append {rest tail : Text} (h : EndsName (rest ++ tail)) : EndsName rest := by
  cases rest with
  | nil =>
    rintro c ⟨⟩
  | cons c rest => exact h

theorem endsName_dropWhile (text : Text) : EndsName (text.dropWhile isNameChar) := by
  intro c hc
  have hhead := List.head?_dropWhile_not isNameChar text
  rw [Option.mem_def.mp hc] at hhead
  exact hhead

/-! ## References behind a dollar -/

namespace Reference

/-- Where a reference can stand in front of the rest of a line: a name is not empty, and the rest
does not go on with it. -/
inductive StandsBefore (rest : Text) : Reference → Prop
  | status : StandsBefore rest .status
  | processId : StandsBefore rest .processId
  | programName (hend : EndsName rest) : StandsBefore rest .programName
  | named {name : Text} (hempty : name ≠ []) (hname : ∀ c ∈ name, isNameChar c = true)
      (hzero : name ≠ ['0']) (hend : EndsName rest) : StandsBefore rest (.named name)

theorem label_ofName (name : Text) : (ofName name).label = name := by
  unfold ofName
  split
  · rename_i h
    rw [h, label]
  · rw [label]

theorem StandsBefore.append {r : Reference} {rest : Text} (h : r.StandsBefore rest) (tail : Text)
    {c : Char} (hc : isNameChar c = false) : r.StandsBefore (rest ++ c :: tail) := by
  cases h with
  | status => exact .status
  | processId => exact .processId
  | programName hend => exact .programName (hend.append tail hc)
  | named hempty hname hzero hend => exact .named hempty hname hzero (hend.append tail hc)

theorem StandsBefore.of_append {r : Reference} {rest tail : Text}
    (h : r.StandsBefore (rest ++ tail)) : r.StandsBefore rest := by
  cases h with
  | status => exact .status
  | processId => exact .processId
  | programName hend => exact .programName hend.of_append
  | named hempty hname hzero hend => exact .named hempty hname hzero hend.of_append

theorem standsBefore_ofName {name rest : Text} (hempty : name ≠ [])
    (hname : ∀ c ∈ name, isNameChar c = true) (hend : EndsName rest) :
    (ofName name).StandsBefore rest := by
  unfold ofName
  split
  · exact .programName hend
  · rename_i hzero
    exact .named hempty hname hzero hend

/-- A reference by name, at a text that begins with neither `?` nor `$`. -/
theorem read?_cons {c : Char} (hstatus : c ≠ '?') (hprocess : c ≠ '$') (rest : Text) :
    read? (c :: rest) = match (c :: rest).takeWhile isNameChar with
      | [] => none
      | name => some (ofName name) := by
  unfold read?
  split
  · rename_i h
    exact absurd (List.cons.inj h).1 hstatus
  · rename_i h
    exact absurd (List.cons.inj h).1 hprocess
  · rfl

theorem read?_name {name rest : Text} (hempty : name ≠ [])
    (hname : ∀ c ∈ name, isNameChar c = true) (hend : EndsName rest) :
    read? (name ++ rest) = some (ofName name) := by
  have htake : (name ++ rest).takeWhile isNameChar = name := by
    rw [List.takeWhile_append_of_pos hname, takeWhile_eq_nil_of_endsName hend, List.append_nil]
  cases name with
  | nil => exact absurd rfl hempty
  | cons c name =>
    have hc : isNameChar c = true := hname c List.mem_cons_self
    have hstatus : c ≠ '?' := by
      rintro rfl
      cases hc
    have hprocess : c ≠ '$' := by
      rintro rfl
      cases hc
    rw [List.cons_append] at htake ⊢
    rw [read?_cons hstatus hprocess, htake]

/-- **What is read behind a `$`** is the reference that stands there. -/
theorem read?_eq_some_iff {text : Text} {r : Reference} :
    read? text = some r ↔ ∃ rest, text = r.label ++ rest ∧ r.StandsBefore rest := by
  constructor
  · intro h
    unfold read? at h
    split at h
    · cases h
      exact ⟨_, rfl, .status⟩
    · cases h
      exact ⟨_, rfl, .processId⟩
    · split at h
      · cases h
      · rename_i hempty
        cases h
        refine ⟨text.dropWhile isNameChar, ?_, ?_⟩
        · rw [label_ofName, List.takeWhile_append_dropWhile]
        · exact standsBefore_ofName hempty (List.all_eq_true.mp List.all_takeWhile)
            (endsName_dropWhile text)
  · rintro ⟨rest, rfl, hr⟩
    cases hr with
    | status => rfl
    | processId => rfl
    | programName hend =>
      exact read?_name (List.cons_ne_nil '0' []) (List.forall_mem_singleton.mpr rfl) hend
    | named hempty hname hzero hend =>
      rw [label, read?_name hempty hname hend, ofName, if_neg hzero]

theorem StandsBefore.unique {r other : Reference} {rest tail : Text} (hr : r.StandsBefore rest)
    (hother : other.StandsBefore tail) (h : r.label ++ rest = other.label ++ tail) :
    r = other := by
  have hread : read? (r.label ++ rest) = some r := read?_eq_some_iff.mpr ⟨rest, rfl, hr⟩
  have hsame : read? (r.label ++ rest) = some other := read?_eq_some_iff.mpr ⟨tail, h, hother⟩
  exact Option.some.inj (hread.symm.trans hsame)

/-- A `$` stands for itself in front of nothing, and in front of a character that is no part of a
reference. -/
theorem read?_eq_none_iff {text : Text} :
    read? text = none ↔ ∀ c ∈ text.head?, EndsReference c := by
  cases text with
  | nil => simp [read?]
  | cons c rest =>
    have hhead : (∀ d ∈ (c :: rest).head?, EndsReference d) ↔ EndsReference c := by simp
    rw [hhead]
    by_cases hstatus : c = '?'
    · subst hstatus
      simp [read?, EndsReference]
    by_cases hprocess : c = '$'
    · subst hprocess
      simp [read?, EndsReference]
    rw [read?_cons hstatus hprocess, List.takeWhile_cons]
    cases hname : isNameChar c <;> simp [EndsReference, hstatus, hprocess, hname]

theorem read?_append_eq_none {rest : Text} (h : read? rest = none) (tail : Text) {c : Char}
    (hc : EndsReference c) : read? (rest ++ c :: tail) = none := by
  rw [read?_eq_none_iff] at h ⊢
  cases rest with
  | nil =>
    rintro d ⟨⟩
    exact hc
  | cons d rest => exact h

end Reference

/-! ## The scan -/

theorem piecesAfter_eq_pieces (skip : Nat) (text : Text) :
    piecesAfter skip text = pieces (text.drop skip) := by
  induction text generalizing skip with
  | nil => cases skip <;> rfl
  | cons c rest ih =>
    cases skip with
    | zero => rfl
    | succ skip => exact ih skip

theorem pieces_plain {c : Char} {rest : Text}
    (h : c = '$' → Reference.read? rest = none) :
    pieces (c :: rest) = .plain c :: pieces rest := by
  rw [pieces, piecesAfter]
  split
  · rename_i hc
    rw [h hc]
    rfl
  · rfl

theorem pieces_reference {r : Reference} {rest : Text} (h : r.StandsBefore rest) :
    pieces ('$' :: (r.label ++ rest)) = .reference r :: pieces rest := by
  have hread : Reference.read? (r.label ++ rest) = some r :=
    Reference.read?_eq_some_iff.mpr ⟨rest, rfl, h⟩
  rw [pieces, piecesAfter, if_pos rfl, hread]
  dsimp only
  rw [piecesAfter_eq_pieces, List.drop_left]

theorem reference_induction {P : Text → Prop} (nil : P [])
    (plain : ∀ c rest, (c = '$' → Reference.read? rest = none) → P rest → P (c :: rest))
    (reference : ∀ (r : Reference) rest, r.StandsBefore rest → P rest →
      P ('$' :: (r.label ++ rest)))
    (line : Text) : P line := by
  -- Behind a reference the scan goes on with what is left of the line, however much was skipped.
  suffices h : ∀ skip, P (line.drop skip) from h 0
  induction line with
  | nil =>
    intro skip
    rw [List.drop_nil]
    exact nil
  | cons c rest ih =>
    intro skip
    cases skip with
    | succ skip => exact ih skip
    | zero =>
      by_cases hc : c = '$'
      · cases hread : Reference.read? rest with
        | none => exact plain c rest (fun _ => hread) (ih 0)
        | some r =>
          obtain ⟨tail, rfl, hr⟩ := Reference.read?_eq_some_iff.mp hread
          have htail := ih r.label.length
          rw [List.drop_left] at htail
          rw [hc]
          exact reference r tail hr htail
      · exact plain c rest (fun h => absurd h hc) (ih 0)

/-- The pieces of a line make up the line. -/
theorem flatMap_source_pieces (line : Text) : (pieces line).flatMap Piece.source = line := by
  induction line using reference_induction with
  | nil => rfl
  | plain c rest hc ih =>
    rw [pieces_plain hc, List.flatMap_cons, ih]
    rfl
  | reference r rest hr ih =>
    rw [pieces_reference hr, List.flatMap_cons, ih]
    rfl

/-- A line is cut in two in front of a `$`, unless this is the second one of a `$$`. -/
theorem pieces_append_dollar (front tail : Text) :
    pieces (front ++ '$' :: tail) = pieces front ++ pieces ('$' :: tail) ∨
      ∃ before, front = before ++ ['$'] ∧
        pieces (front ++ '$' :: tail) =
          pieces before ++ .reference .processId :: pieces tail := by
  induction front using reference_induction with
  | nil => exact Or.inl rfl
  | plain c rest hc ih =>
    by_cases hlone : c = '$' ∧ rest = []
    · obtain ⟨rfl, rfl⟩ := hlone
      exact Or.inr ⟨[], rfl, pieces_reference .processId⟩
    · -- The next character is the same as before, so this one still stands for itself.
      have hmore : c = '$' → Reference.read? (rest ++ '$' :: tail) = none := by
        intro hdollar
        have hread := Reference.read?_eq_none_iff.mp (hc hdollar)
        refine Reference.read?_eq_none_iff.mpr ?_
        cases rest with
        | nil => exact absurd ⟨hdollar, rfl⟩ hlone
        | cons d rest => exact hread
      rw [List.cons_append, pieces_plain hmore, pieces_plain hc]
      rcases ih with hcut | ⟨before, rfl, hcut⟩
      · exact Or.inl (congrArg _ hcut)
      · have hbefore : c = '$' → Reference.read? before = none := by
          intro hdollar
          have hread := Reference.read?_eq_none_iff.mp (hc hdollar)
          refine Reference.read?_eq_none_iff.mpr ?_
          cases before with
          | nil => simp
          | cons d before => exact hread
        refine Or.inr ⟨c :: before, rfl, ?_⟩
        rw [hcut, pieces_plain hbefore, List.cons_append]
  | reference r rest hr ih =>
    rw [List.cons_append, List.append_assoc, pieces_reference (hr.append tail rfl),
      pieces_reference hr]
    rcases ih with hcut | ⟨before, rfl, hcut⟩
    · exact Or.inl (congrArg _ hcut)
    · refine Or.inr ⟨'$' :: (r.label ++ before), by simp, ?_⟩
      rw [hcut, pieces_reference hr.of_append, List.cons_append]

/-! ## Replacing -/

section

variable {valueOf : Reference → Text}

theorem substitute_plain {c : Char} {rest : Text} (h : c = '$' → Reference.read? rest = none) :
    substitute valueOf (c :: rest) = c :: substitute valueOf rest := by
  rw [substitute, pieces_plain h, List.flatMap_cons]
  rfl

theorem substitute_reference {r : Reference} {rest : Text} (h : r.StandsBefore rest) :
    substitute valueOf ('$' :: (r.label ++ rest)) = valueOf r ++ substitute valueOf rest := by
  rw [substitute, pieces_reference h, List.flatMap_cons]
  rfl

/-- A character that ends references separates what is in front of it from what is behind it. -/
theorem substitute_append_cons (text tail : Text) {c : Char} (h : EndsReference c) :
    substitute valueOf (text ++ c :: tail) =
      substitute valueOf text ++ c :: substitute valueOf tail := by
  induction text using reference_induction with
  | nil => exact substitute_plain fun hc => absurd hc h.2.1
  | plain d rest hd ih =>
    have hmore : d = '$' → Reference.read? (rest ++ c :: tail) = none :=
      fun hdollar => Reference.read?_append_eq_none (hd hdollar) tail h
    rw [List.cons_append, substitute_plain hmore, ih, substitute_plain hd, List.cons_append]
  | reference r rest hr ih =>
    rw [List.cons_append, List.append_assoc, substitute_reference (hr.append tail h.2.2), ih,
      substitute_reference hr, List.append_assoc]

theorem substitute_cons (tail : Text) {c : Char} (h : EndsReference c) :
    substitute valueOf (c :: tail) = c :: substitute valueOf tail :=
  substitute_append_cons [] tail h

end

theorem substitute_eq_self (valueOf : Reference → Text) {line : Text} (h : '$' ∉ line) :
    substitute valueOf line = line := by
  induction line using reference_induction with
  | nil => rfl
  | plain c rest hc ih => rw [substitute_plain hc, ih (List.not_mem_of_not_mem_cons h)]
  | reference r rest hr ih => exact absurd List.mem_cons_self h

end LineShell
