import LineShell.Proofs.Reference
import LineShell.Session
import LineShell.Text.Cut

/-!
# The spans of references

The references of a line are found from left to right, and each is noted with its place in bytes.
What is noted can be described without the search, and the description leaves no choice.

* `Substitution.FoundIn`: a span is that of a reference, from its `$` to the end of its label.
* `IsScan`: the spans of a text. They are in order and do not overlap, each is that of a reference,
  and no reference begins at a `$` outside of them.
* `isScan_plain`, `isScan_reference`: what a scan is for a text that begins with a character that
  stands for itself, or with a reference. These are the cases of `reference_induction`, so that
  `isScan_iff` follows by induction: the spans of a text are those that are found.
* `Session.tokenValue`: the value of a reference by the text behind its `$`.
* `splice?`: a line cut at its spans and put together again with the values in their places.
* `substitutions_exact`: the spans of a line, and that its expansion is the splice of them.
-/

namespace LineShell

/-! ## Parts of a text by their bytes -/

theorem Text.byteSize_eq_zero_iff {text : Text} : text.byteSize = 0 ↔ text = [] := by
  cases text with
  | nil => simp
  | cons c rest =>
    have hpos := c.utf8Size_pos
    simp only [byteSize_cons, reduceCtorEq, iff_false]
    omega

/-- Of two beginnings of a text, the one with fewer bytes is a beginning of the other. -/
theorem Text.exists_append_of_byteSize_le {a b x y : Text} (h : a ++ x = b ++ y)
    (hle : a.byteSize ≤ b.byteSize) : ∃ c, b = a ++ c ∧ x = c ++ y := by
  rcases List.append_eq_append_iff.mp h with ⟨c, rfl, rfl⟩ | ⟨c, rfl, rfl⟩
  · exact ⟨c, rfl, rfl⟩
  · have hempty : c = [] := by
      rw [← byteSize_eq_zero_iff]
      rw [byteSize_append] at hle
      omega
    subst hempty
    exact ⟨[], by simp, rfl⟩

/-! ## Spans -/

/-- The span of a reference whose `$` is at this byte. -/
def Reference.substitution (valueOf : Reference → Text) (r : Reference) (start : Nat) :
    Substitution :=
  ⟨start, start + Text.byteSize ('$' :: r.label), valueOf r⟩

@[simp] theorem Reference.substitution_start (valueOf : Reference → Text) (r : Reference)
    (start : Nat) : (r.substitution valueOf start).start = start := rfl

@[simp] theorem Reference.substitution_stop (valueOf : Reference → Text) (r : Reference)
    (start : Nat) :
    (r.substitution valueOf start).stop = start + Text.byteSize ('$' :: r.label) := rfl

@[simp] theorem Reference.substitution_value (valueOf : Reference → Text) (r : Reference)
    (start : Nat) : (r.substitution valueOf start).value = valueOf r := rfl

/-- The byte is one of the span. -/
def Substitution.Covers (sub : Substitution) (position : Nat) : Prop :=
  sub.start ≤ position ∧ position < sub.stop

/-- The span is that of a reference in a text that begins at the byte `start`. -/
def Substitution.FoundIn (valueOf : Reference → Text) (start : Nat) (text : Text)
    (sub : Substitution) : Prop :=
  ∃ (before : Text) (r : Reference) (rest : Text),
    text = before ++ '$' :: (r.label ++ rest) ∧ r.StandsBefore rest ∧
      sub = r.substitution valueOf (start + before.byteSize)

/-- The spans of the references in a text that begins at the byte `start`. -/
structure IsScan (valueOf : Reference → Text) (start : Nat) (text : Text)
    (subs : List Substitution) : Prop where
  /-- Each span ends before the next one begins. -/
  ordered : subs.Pairwise fun sub next => sub.stop ≤ next.start
  found : ∀ sub ∈ subs, sub.FoundIn valueOf start text
  /-- A `$` outside of the spans begins no reference. -/
  bare : ∀ before rest, text = before ++ '$' :: rest →
    (∀ sub ∈ subs, ¬ sub.Covers (start + before.byteSize)) →
    ∀ c ∈ rest.head?, EndsReference c

variable {valueOf : Reference → Text} {start : Nat}

namespace Substitution.FoundIn

theorem bounds {text : Text} {sub : Substitution} (h : sub.FoundIn valueOf start text) :
    start ≤ sub.start ∧ sub.start < sub.stop := by
  obtain ⟨before, r, rest, -, -, rfl⟩ := h
  have hpos := Char.utf8Size_pos '$'
  rw [Reference.substitution_start, Reference.substitution_stop, Text.byteSize_cons]
  omega

/-- A span is the same in a text and behind more text in front of it. -/
theorem append (front : Text) {rest : Text} {sub : Substitution}
    (h : sub.FoundIn valueOf (start + front.byteSize) rest) :
    sub.FoundIn valueOf start (front ++ rest) := by
  obtain ⟨before, r, tail, rfl, hr, rfl⟩ := h
  refine ⟨front ++ before, r, tail, (List.append_assoc _ _ _).symm, hr, ?_⟩
  rw [Text.byteSize_append, Nat.add_assoc]

theorem of_append {front rest : Text} {sub : Substitution}
    (h : sub.FoundIn valueOf start (front ++ rest))
    (hpast : start + front.byteSize ≤ sub.start) :
    sub.FoundIn valueOf (start + front.byteSize) rest := by
  obtain ⟨before, r, tail, heq, hr, rfl⟩ := h
  have hle : front.byteSize ≤ before.byteSize := by
    rw [Reference.substitution_start] at hpast
    omega
  obtain ⟨more, rfl, rfl⟩ := Text.exists_append_of_byteSize_le heq hle
  refine ⟨more, r, tail, rfl, hr, ?_⟩
  rw [Text.byteSize_append, Nat.add_assoc]

end Substitution.FoundIn

/-! ## Scans -/

theorem isScan_nil {subs : List Substitution} : IsScan valueOf start [] subs ↔ subs = [] := by
  constructor
  · intro h
    rw [List.eq_nil_iff_forall_not_mem]
    intro sub hsub
    obtain ⟨before, r, rest, heq, -, -⟩ := h.found sub hsub
    exact absurd heq.symm (by simp)
  · rintro rfl
    refine ⟨.nil, by simp, ?_⟩
    intro before rest heq
    exact absurd heq.symm (by simp)

namespace IsScan

variable {front rest : Text} {first later : List Substitution}

/-- A scan of the rest of a text goes on from spans that end in front of it, if these leave no
reference out. -/
theorem append (h : IsScan valueOf (start + front.byteSize) rest later)
    (hordered : first.Pairwise fun sub next => sub.stop ≤ next.start)
    (hfound : ∀ sub ∈ first, sub.FoundIn valueOf start (front ++ rest))
    (hpast : ∀ sub ∈ first, sub.stop ≤ start + front.byteSize)
    (hbare : ∀ before tail, front ++ rest = before ++ '$' :: tail →
      before.byteSize < front.byteSize →
      (∀ sub ∈ first, ¬ sub.Covers (start + before.byteSize)) →
      ∀ c ∈ tail.head?, EndsReference c) :
    IsScan valueOf start (front ++ rest) (first ++ later) := by
  constructor
  · refine List.pairwise_append.mpr ⟨hordered, h.ordered, fun sub hsub next hnext => ?_⟩
    exact Nat.le_trans (hpast sub hsub) (h.found next hnext).bounds.1
  · intro sub hsub
    rcases List.mem_append.mp hsub with hsub | hsub
    · exact hfound sub hsub
    · exact (h.found sub hsub).append front
  · intro before tail heq huncovered
    obtain ⟨hfirst, hlater⟩ := List.forall_mem_append.mp huncovered
    by_cases hlt : before.byteSize < front.byteSize
    · exact hbare before tail heq hlt hfirst
    · obtain ⟨more, rfl, rfl⟩ := Text.exists_append_of_byteSize_le heq (by omega)
      rw [Text.byteSize_append, ← Nat.add_assoc] at hlater
      exact h.bare more tail rfl hlater

theorem of_append (h : IsScan valueOf start (front ++ rest) (first ++ later))
    (hpast : ∀ sub ∈ first, sub.stop ≤ start + front.byteSize)
    (hbehind : ∀ sub ∈ later, start + front.byteSize ≤ sub.start) :
    IsScan valueOf (start + front.byteSize) rest later := by
  constructor
  · exact (List.pairwise_append.mp h.ordered).2.1
  · intro sub hsub
    exact (h.found sub (List.mem_append_right first hsub)).of_append (hbehind sub hsub)
  · intro before tail heq huncovered
    have hwhole : front ++ rest = (front ++ before) ++ '$' :: tail := by
      rw [heq, List.append_assoc]
    refine h.bare (front ++ before) tail hwhole (List.forall_mem_append.mpr ⟨?_, ?_⟩)
    · rintro sub hsub ⟨-, hcovers⟩
      have hstop := hpast sub hsub
      rw [Text.byteSize_append] at hcovers
      omega
    · rw [Text.byteSize_append, ← Nat.add_assoc]
      exact huncovered

end IsScan

theorem isScan_plain {c : Char} {rest : Text} {subs : List Substitution}
    (hc : c = '$' → Reference.read? rest = none) :
    IsScan valueOf start (c :: rest) subs ↔
      IsScan valueOf (start + Text.byteSize [c]) rest subs := by
  constructor
  · intro h
    have hscan : IsScan valueOf start ([c] ++ rest) ([] ++ subs) := h
    refine hscan.of_append (by simp) fun sub hsub => ?_
    obtain ⟨before, r, tail, heq, hr, rfl⟩ := h.found sub hsub
    cases before with
    | nil =>
      obtain ⟨hdollar, hrest⟩ := List.cons.inj heq
      have hread : Reference.read? rest = some r :=
        Reference.read?_eq_some_iff.mpr ⟨tail, hrest, hr⟩
      rw [hc hdollar] at hread
      cases hread
    | cons d before =>
      obtain ⟨rfl, -⟩ := List.cons.inj heq
      simp only [Reference.substitution_start, Text.byteSize_cons, Text.byteSize_nil]
      omega
  · intro h
    have hscan : IsScan valueOf start ([c] ++ rest) ([] ++ subs) := by
      refine h.append .nil (by simp) (by simp) fun before tail heq hlt _ => ?_
      cases before with
      | nil =>
        obtain ⟨hdollar, rfl⟩ := List.cons.inj heq
        exact Reference.read?_eq_none_iff.mp (hc hdollar)
      | cons d before =>
        obtain ⟨rfl, -⟩ := List.cons.inj heq
        simp only [Text.byteSize_cons, Text.byteSize_nil] at hlt
        omega
    exact hscan

theorem isScan_reference {r : Reference} {rest : Text} {subs : List Substitution}
    (hr : r.StandsBefore rest) :
    IsScan valueOf start ('$' :: (r.label ++ rest)) subs ↔
      ∃ later, subs = r.substitution valueOf start :: later ∧
        IsScan valueOf (start + Text.byteSize ('$' :: r.label)) rest later := by
  constructor
  · intro h
    -- The first `$` begins a reference, so it is in a span, and only this one begins there.
    have hcovered : ∃ sub ∈ subs, sub.Covers start := by
      refine Classical.byContradiction fun hnone => ?_
      have hbare := h.bare [] (r.label ++ rest) rfl fun sub hsub hcovers =>
        hnone ⟨sub, hsub, hcovers⟩
      have hread : Reference.read? (r.label ++ rest) = some r :=
        Reference.read?_eq_some_iff.mpr ⟨rest, rfl, hr⟩
      rw [Reference.read?_eq_none_iff.mpr hbare] at hread
      cases hread
    obtain ⟨sub, hsub, hstart, -⟩ := hcovered
    have hfirst : sub = r.substitution valueOf start := by
      obtain ⟨before, other, tail, heq, hother, rfl⟩ := h.found sub hsub
      have hempty : before = [] := by
        rw [← Text.byteSize_eq_zero_iff]
        rw [Reference.substitution_start] at hstart
        omega
      subst hempty
      rw [hr.unique hother (List.cons.inj heq).2]
      rfl
    cases subs with
    | nil => cases hsub
    | cons head later =>
      obtain ⟨hbehind, -⟩ := List.pairwise_cons.mp h.ordered
      have hhead : head = r.substitution valueOf start := by
        rcases List.mem_cons.mp hsub with rfl | hlater
        · exact hfirst
        · have hstop := hbehind sub hlater
          have hbounds := (h.found head List.mem_cons_self).bounds
          omega
      subst hhead
      have hscan : IsScan valueOf start (('$' :: r.label) ++ rest)
          ([r.substitution valueOf start] ++ later) := h
      exact ⟨later, rfl, hscan.of_append (by simp) hbehind⟩
  · rintro ⟨later, rfl, h⟩
    have hscan : IsScan valueOf start (('$' :: r.label) ++ rest)
        ([r.substitution valueOf start] ++ later) := by
      refine h.append (List.pairwise_singleton _ _) ?_ ?_ fun before tail _ hlt hbare => ?_
      · exact List.forall_mem_singleton.mpr ⟨[], r, rest, rfl, hr, rfl⟩
      · exact List.forall_mem_singleton.mpr (Nat.le_refl _)
      · refine absurd ⟨?_, ?_⟩ (hbare _ List.mem_cons_self)
        · exact Nat.le_add_right start _
        · exact Nat.add_lt_add_left hlt start
    exact hscan

theorem substitutionsFrom_plain {c : Char} {rest : Text}
    (hc : c = '$' → Reference.read? rest = none) :
    substitutionsFrom valueOf start (pieces (c :: rest)) =
      substitutionsFrom valueOf (start + Text.byteSize [c]) (pieces rest) := by
  rw [pieces_plain hc]
  rfl

theorem substitutionsFrom_reference {r : Reference} {rest : Text} (hr : r.StandsBefore rest) :
    substitutionsFrom valueOf start (pieces ('$' :: (r.label ++ rest))) =
      r.substitution valueOf start ::
        substitutionsFrom valueOf (start + Text.byteSize ('$' :: r.label)) (pieces rest) := by
  rw [pieces_reference hr]
  rfl

theorem substitutionsFrom_append (first later : List Piece) :
    substitutionsFrom valueOf start (first ++ later) =
      substitutionsFrom valueOf start first ++
        substitutionsFrom valueOf (start + Text.byteSize (first.flatMap Piece.source)) later := by
  induction first generalizing start with
  | nil => rfl
  | cons piece rest ih =>
    rw [List.flatMap_cons, Text.byteSize_append, ← Nat.add_assoc]
    cases piece with
    | plain c => exact ih
    | reference r => exact congrArg _ ih

/-- The spans of a text are those that are found in it. -/
theorem isScan_iff {text : Text} {subs : List Substitution} :
    IsScan valueOf start text subs ↔ subs = substitutionsFrom valueOf start (pieces text) := by
  induction text using reference_induction generalizing start subs with
  | nil => exact isScan_nil
  | plain c rest hc ih => rw [isScan_plain hc, ih, substitutionsFrom_plain hc]
  | reference r rest hr ih =>
    rw [isScan_reference hr, substitutionsFrom_reference hr]
    constructor
    · rintro ⟨later, rfl, hlater⟩
      rw [ih.mp hlater]
    · rintro rfl
      exact ⟨_, rfl, ih.mpr rfl⟩

/-! ## Splicing -/

/-- The line from a byte on, with the bytes of each span replaced by its value. There is none if a
span cannot be cut out of the line. -/
def splice? (line : Text) : Nat → List Substitution → Option Text
  | last, [] => line.dropBytes? last
  | last, sub :: later =>
    if last ≤ sub.start ∧ sub.start ≤ sub.stop then
      (line.cut? last sub.start).bind fun kept =>
        (splice? line sub.stop later).map fun rest => kept ++ sub.value ++ rest
    else none

/-- What has been passed since the last span is kept in front of what is still to be replaced. -/
theorem splice?_substitutionsFrom (before kept text : Text) :
    splice? (before ++ (kept ++ text)) before.byteSize
        (substitutionsFrom valueOf (before.byteSize + kept.byteSize) (pieces text)) =
      some (kept ++ substitute valueOf text) := by
  induction text using reference_induction generalizing before kept with
  | nil =>
    rw [List.append_nil]
    show (before ++ kept).dropBytes? before.byteSize = some (kept ++ [])
    rw [Text.dropBytes?_append, List.append_nil]
  | plain c rest hc ih =>
    have hrest := ih before (kept ++ [c])
    rw [Text.byteSize_append, ← Nat.add_assoc, List.append_assoc, List.append_assoc] at hrest
    rw [substitutionsFrom_plain hc, substitute_plain hc]
    exact hrest
  | reference r rest hr ih =>
    have hrest := ih (before ++ (kept ++ '$' :: r.label)) []
    have hbytes : Text.byteSize (before ++ (kept ++ '$' :: r.label)) =
        before.byteSize + kept.byteSize + Text.byteSize ('$' :: r.label) := by
      rw [Text.byteSize_append, Text.byteSize_append, Nat.add_assoc]
    have hline : before ++ (kept ++ '$' :: r.label) ++ ([] ++ rest) =
        before ++ (kept ++ '$' :: (r.label ++ rest)) := by
      simp
    rw [hbytes, hline, Text.byteSize_nil, Nat.add_zero, List.nil_append] at hrest
    rw [substitutionsFrom_reference hr, substitute_reference hr, splice?,
      if_pos ⟨Nat.le_add_right _ _, Nat.le_add_right _ _⟩, Reference.substitution_start,
      Reference.substitution_stop, Reference.substitution_value, Text.cut?_append,
      Option.bind_some, hrest, Option.map_some, List.append_assoc]

/-! ## Lines -/

/-- The value of a reference by what stands behind its `$`. -/
def Session.tokenValue (s : Session) (token : Text) : Text :=
  if token = ['?'] then Text.signed s.lastStatus
  else if token = ['$'] then s.processId
  else if token = ['0'] then s.programName
  else (s.environment.get? token).getD []

theorem Reference.StandsBefore.valueOf_eq {r : Reference} {rest : Text}
    (h : r.StandsBefore rest) (s : Session) : s.valueOf r = s.tokenValue r.label := by
  cases h with
  | status => rfl
  | processId => rfl
  | programName => rfl
  | @named name hempty hname hzero hend =>
    have hstatus : name ≠ ['?'] := by
      rintro rfl
      cases hname '?' List.mem_cons_self
    have hprocess : name ≠ ['$'] := by
      rintro rfl
      cases hname '$' List.mem_cons_self
    rw [label, Session.tokenValue, if_neg hstatus, if_neg hprocess, if_neg hzero, Session.valueOf]

/-- **Expansion replaces exactly the references.** The spans that are found in a line are the
scan of it, and there is no other one. Each of them can be cut out of the line: it is a `$` with
the token that decides the value. The expanded line is the line with each span replaced by its
value: all bytes outside of the spans stay, in their order, and nothing is looked for in the
values. -/
theorem substitutions_exact (s : Session) (line : Text) :
    (∀ subs, substitutions s.valueOf line = subs ↔ IsScan s.valueOf 0 line subs) ∧
    (∀ sub ∈ substitutions s.valueOf line, sub.start < sub.stop ∧ sub.stop ≤ line.byteSize ∧
      ∃ token, line.cut? sub.start sub.stop = some ('$' :: token) ∧
        sub.value = s.tokenValue token) ∧
    splice? line 0 (substitutions s.valueOf line) = some (s.expand line) := by
  have hscan : ∀ subs, substitutions s.valueOf line = subs ↔ IsScan s.valueOf 0 line subs := by
    intro subs
    rw [isScan_iff, substitutions, eq_comm]
  refine ⟨hscan, ?_, splice?_substitutionsFrom [] [] line⟩
  intro sub hsub
  have hfound := ((hscan _).mp rfl).found sub hsub
  refine ⟨hfound.bounds.2, ?_⟩
  obtain ⟨before, r, rest, rfl, hr, rfl⟩ := hfound
  have hline : before ++ '$' :: (r.label ++ rest) = before ++ (('$' :: r.label) ++ rest) := rfl
  rw [hline, Reference.substitution_start, Reference.substitution_stop, Nat.zero_add]
  refine ⟨?_, r.label, Text.cut?_append before ('$' :: r.label) rest, hr.valueOf_eq s⟩
  rw [Text.byteSize_append, Text.byteSize_append]
  omega

/-- Three `$` in a row, a name that ends at `é`, a value that looks like a reference, and a `$`
at the end. -/
theorem substitutions_exact_dollars :
    let s : Session :=
      { environment := .ofPairs [("A".toList, "$A".toList)]
        processId := "7".toList
        programName := "sh".toList }
    let line := "$$$ é$Aé$".toList
    let subs : List Substitution := [⟨0, 2, "7".toList⟩, ⟨6, 8, "$A".toList⟩]
    substitutions s.valueOf line = subs ∧ IsScan s.valueOf 0 line subs ∧
      splice? line 0 subs = some (s.expand line) ∧ s.expand line = "7$ é$Aé$".toList := by
  intro s line subs
  have hsubs : substitutions s.valueOf line = subs := by decide
  obtain ⟨hscan, -, hsplice⟩ := substitutions_exact s line
  rw [hsubs] at hsplice
  exact ⟨hsubs, (hscan subs).mp hsubs, hsplice, by decide⟩

end LineShell
