import LineShell.Proofs.Acceptance
import LineShell.Proofs.Environment
import LineShell.Proofs.Reference

/-!
# Expansion and splitting

References are replaced once, in the line as a whole, and the line is cut afterwards. If no
value holds a mark, this is the same as cutting first and replacing in each link.

* `substitute_append_separator`, `substitute_joinChain`: replacing goes through the marks of a
  line, and through a chain link by link.
* `splitChain_substitute`: the chain of the replaced line, for a line that is accepted.
* `splitChain_expand`: the same for the values of a session, and what it means for a line
  that is processed.
-/

namespace LineShell

/-! ## Marks -/

theorem Mark.endsReference (mark : Mark) : EndsReference mark.char := by
  cases mark <;> exact ⟨by decide, by decide, by decide⟩

/-! ## Replacing -/

section

variable {valueOf : Reference → Text}

theorem substitute_append_separator (text : Text) {next : Separator} (h : next ≠ .first)
    (tail : Text) :
    substitute valueOf (text ++ (next.text ++ tail)) =
      substitute valueOf text ++ (next.text ++ substitute valueOf tail) := by
  cases next with
  | first => exact absurd rfl h
  | sequential => exact substitute_append_cons text tail (Mark.endsReference .semicolon)
  | and =>
    have hmark : EndsReference '&' := Mark.endsReference .ampersand
    show substitute valueOf (text ++ '&' :: '&' :: tail) = _
    rw [substitute_append_cons text _ hmark, substitute_cons tail hmark]
    rfl
  | or =>
    have hmark : EndsReference '|' := Mark.endsReference .bar
    show substitute valueOf (text ++ '|' :: '|' :: tail) = _
    rw [substitute_append_cons text _ hmark, substitute_cons tail hmark]
    rfl

theorem unmarked_substitute (hvalues : ∀ r, Unmarked (valueOf r)) {text : Text}
    (h : Unmarked text) : Unmarked (substitute valueOf text) := by
  induction text using reference_induction with
  | nil => exact unmarked_nil
  | plain c rest hc ih =>
    obtain ⟨hmark, hrest⟩ := unmarked_cons.mp h
    rw [substitute_plain hc]
    exact unmarked_cons.mpr ⟨hmark, ih hrest⟩
  | reference r rest hr ih =>
    obtain ⟨-, hrest⟩ := unmarked_append.mp (unmarked_cons.mp h).2
    rw [substitute_reference hr]
    exact unmarked_append.mpr ⟨hvalues r, ih hrest⟩

end

/-- The link with the references in its text replaced. -/
def Link.substitute (valueOf : Reference → Text) (link : Link) : Link :=
  { link with text := LineShell.substitute valueOf link.text }

theorem substitute_joinChain (valueOf : Reference → Text) (text : Text) {later : List Link}
    (h : ∀ link ∈ later, link.separator ≠ .first) :
    substitute valueOf (text ++ joinChain later) =
      substitute valueOf text ++ joinChain (later.map (Link.substitute valueOf)) := by
  induction later generalizing text with
  | nil => simp [joinChain]
  | cons link later ih =>
    obtain ⟨hlink, hlater⟩ := List.forall_mem_cons.mp h
    rw [joinChain_cons, List.append_assoc, substitute_append_separator text hlink,
      ih link.text hlater, List.map_cons, joinChain_cons, List.append_assoc]
    rfl

/-- An accepted line is joined from unmarked links, and replacing keeps them so. -/
theorem splitChain_substitute {valueOf : Reference → Text} (hvalues : ∀ r, Unmarked (valueOf r))
    {line : Text} (hline : syntaxError? line = none) :
    splitChain (substitute valueOf line) = (splitChain line).map (Link.substitute valueOf) ∧
      ∀ link ∈ splitChain (substitute valueOf line), Unmarked link.text := by
  have hmarks := (wellFormed_iff.mp (wellFormed_splitChain.mp hline)).2
  have hjoin := joinChain_splitChain line
  obtain ⟨text, later, heq, hlater⟩ := splitAfter_eq_cons .first line
  rw [splitChain, heq] at hmarks hjoin
  obtain ⟨htext, hmarks⟩ := List.forall_mem_cons.mp hmarks
  have hseparators : ∀ link ∈ later.map (Link.substitute valueOf), link.separator ≠ .first :=
    List.forall_mem_map.mpr hlater
  have hunmarked : ∀ link ∈ (⟨.first, substitute valueOf text⟩ ::
      later.map (Link.substitute valueOf) : List Link), Unmarked link.text := by
    refine List.forall_mem_cons.mpr ⟨unmarked_substitute hvalues htext, ?_⟩
    exact List.forall_mem_map.mpr fun link hlink => unmarked_substitute hvalues (hmarks link hlink)
  have hsplit : splitChain (substitute valueOf line) =
      (splitChain line).map (Link.substitute valueOf) := by
    calc splitChain (substitute valueOf line)
      _ = splitChain (substitute valueOf (text ++ joinChain later)) := by
        rw [← hjoin, joinChain_cons]; rfl
      _ = splitChain (substitute valueOf text ++
            joinChain (later.map (Link.substitute valueOf))) := by
        rw [substitute_joinChain valueOf text hlater]
      _ = ⟨.first, substitute valueOf text⟩ :: later.map (Link.substitute valueOf) :=
        splitAfter_joinChain .first (literalChain_of_unmarked hunmarked) hseparators
      _ = (splitChain line).map (Link.substitute valueOf) := by
        rw [splitChain, heq]; rfl
  refine ⟨hsplit, ?_⟩
  rw [hsplit, splitChain, heq]
  exact hunmarked

/-! ## Sessions -/

theorem Mark.ofChar?_eq_none_of_isDigit {c : Char} (h : c.isDigit = true) : ofChar? c = none := by
  cases hc : ofChar? c with
  | none => rfl
  | some mark =>
    obtain rfl := ofChar?_eq_some_iff.mp hc
    cases mark <;> exact absurd h (by decide)

theorem unmarked_signed (n : Int) : Unmarked (Text.signed n) := by
  have hdecimal : Unmarked (Text.decimal n.natAbs) := unmarked_iff.mpr fun c hc =>
    Mark.ofChar?_eq_none_of_isDigit (Nat.isDigit_of_mem_toDigits (by decide) (by decide) hc)
  unfold Text.signed
  split
  · exact unmarked_cons.mpr ⟨by decide, hdecimal⟩
  · exact hdecimal

/-- No mark stands in a variable, in the name of the program or in the process id. -/
structure Session.Unmarked (s : Session) : Prop where
  environment : ∀ entry ∈ s.environment.entries, LineShell.Unmarked entry.2
  programName : LineShell.Unmarked s.programName
  processId : LineShell.Unmarked s.processId

theorem Session.Unmarked.valueOf {s : Session} (h : s.Unmarked) (r : Reference) :
    LineShell.Unmarked (s.valueOf r) := by
  cases r with
  | status => exact unmarked_signed s.lastStatus
  | processId => exact h.processId
  | programName => exact h.programName
  | named name =>
    rw [Session.valueOf]
    cases hget : s.environment.get? name with
    | none => exact unmarked_nil
    | some value => exact h.environment (name, value) (Environment.mem_entries_iff.mpr hget)

/-- **Expansion keeps the operators.** In a session whose values hold no marks, the chain of
an expanded line is the chain that was typed with each text expanded on its own, and this is
the chain that runs. -/
theorem splitChain_expand {s : Session} (hs : s.Unmarked) {line : Text}
    (hline : syntaxError? line = none) :
    splitChain (s.expand line) =
        (splitChain line).map (fun link => { link with text := s.expand link.text }) ∧
      ∀ (m : Machine) (io : Streams) (typed : Text), stripComment typed = some line →
        m.processLine typed s io =
          (m.runChain
            ((splitChain line).map (fun link => { link with text := s.expand link.text }))
            s io).counted := by
  have hsplit := (splitChain_substitute hs.valueOf hline).1
  refine ⟨hsplit, ?_⟩
  intro m io typed htyped
  simp only [Machine.processLine, htyped, hline]
  exact congrArg (fun chain => (m.runChain chain s io).counted) hsplit

/-- Two operators that an empty value brings together, and a `$` that stands for itself. -/
theorem splitChain_expand_empty_value :
    let s : Session := { processId := "7".toList, programName := "sh".toList }
    let line := "a&&$X&&b $||c".toList
    s.Unmarked ∧ syntaxError? line = none ∧
      s.expand line = "a&&&&b $||c".toList ∧
      splitChain (s.expand line) =
        [⟨.first, "a".toList⟩, ⟨.and, []⟩, ⟨.and, "b $".toList⟩, ⟨.or, "c".toList⟩] := by
  intro s line
  have hs : s.Unmarked := ⟨by decide, by decide, by decide⟩
  have hline : syntaxError? line = none := by decide
  exact ⟨hs, hline, by decide, (splitChain_expand hs hline).1.trans (by decide)⟩

end LineShell
