import LineShell.Proofs.Acceptance
import LineShell.Proofs.ErrorStream

/-!
# The error of a refused line

A line is refused for the operator that a scan comes to first. The scan does not show in what is
said about it here: the line is cut behind an accepted text, the operator is the one that stands
there, and no shorter accepted text would do.

* `Apart`: a seam between two texts that does not cut a `;;` in two. An accepted text in front of
  such a seam only hands its last state on (`misplacedFrom_append`).
* `FirstOffence`: the shortest accepted text of a line behind which an operator is out of place.
* `misplaced_eq_some_iff`: the check finds this operator.
* `processLine_unexpectedToken`: it is reported, and nothing of the line is run.
-/

namespace LineShell

/-! ## Seams -/

/-- A `;` at the end of the first text is not followed by another one. -/
def Apart (a b : Text) : Prop := a.getLast? = some ';' → b.head? ≠ some ';'

instance (a b : Text) : Decidable (Apart a b) := inferInstanceAs (Decidable (_ → _))

/-- Of two seams either may be looked at first. -/
theorem apart_assoc {a b c : Text} : Apart a b ∧ Apart (a ++ b) c ↔ Apart b c ∧ Apart a (b ++ c) := by
  cases b with
  | nil =>
    rw [List.append_nil, List.nil_append]
    exact and_congr_left fun _ => iff_of_true (fun _ h => by cases h) (fun h => by cases h)
  | cons d b =>
    have hlast : (a ++ d :: b).getLast? = (d :: b).getLast? := by
      rw [List.getLast?_append, List.getLast?_cons, Option.some_or]
    rw [Apart, Apart, hlast, and_comm]
    rfl

theorem apart_singleton {c : Char} (h : Mark.ofChar? c = none) (b : Text) : Apart [c] b := by
  intro hlast
  obtain rfl := Option.some.inj hlast
  cases h

/-- A separating operator is read as it is if nothing doubles it. -/
theorem Operator.read?_eq_some_iff_apart {op : Operator} (h : op.separates = true) {tail : Text} :
    read? (op.text ++ tail) = some op ↔ Apart op.text tail := by
  obtain ⟨mark, doubled⟩ := op
  cases mark <;> cases doubled <;> simp_all [separates, text, read?, Apart, Mark.char, Mark.ofChar?]

/-- Nothing is out of place in the first text, so the check goes on with the second one. -/
theorem misplacedFrom_append {hasCommand : Bool} {a b : Text}
    (h : misplacedFrom hasCommand a = none) (hapart : Apart a b) :
    misplacedFrom hasCommand (a ++ b) = misplacedFrom (commandAfter hasCommand a) b := by
  induction hasCommand, a using operator_induction with
  | nil hasCommand => rfl
  | plain hasCommand c rest hc ih =>
    rw [misplacedFrom_cons hasCommand rest hc] at h
    have hrest : Apart rest b := (apart_assoc.mp ⟨apart_singleton hc rest, hapart⟩).1
    rw [List.cons_append, misplacedFrom_cons hasCommand _ hc, ih h hrest,
      commandAfter_cons hasCommand rest hc]
  | operator hasCommand op tail hread ih =>
    rw [misplacedFrom_operator hasCommand hread, Option.or_eq_none_iff] at h
    obtain ⟨hrefused, htail⟩ := h
    have hseparates := (Operator.refused?_eq_none_iff.mp hrefused).2
    have hop : Apart op.text tail := (Operator.read?_eq_some_iff_apart hseparates).mp hread
    obtain ⟨hrest, hmore⟩ := apart_assoc.mp ⟨hop, hapart⟩
    rw [List.append_assoc,
      misplacedFrom_operator hasCommand ((Operator.read?_eq_some_iff_apart hseparates).mpr hmore),
      hrefused, Option.none_or, ih htail hrest, commandAfter_operator]

/-- An accepted text that begins with an operator begins with one that is not refused, and what
follows the text does not change that. -/
theorem refused?_of_accepted {hasCommand : Bool} {a b : Text} {op : Operator} (hne : a ≠ [])
    (h : misplacedFrom hasCommand a = none) (hapart : Apart a b)
    (hread : Operator.read? (a ++ b) = some op) : op.refused? hasCommand = none := by
  cases ha : Operator.read? a with
  | none =>
    obtain ⟨c, rest, rfl⟩ := List.exists_cons_of_ne_nil hne
    have hc : Mark.ofChar? c = none := Option.map_eq_none_iff.mp ha
    rw [List.cons_append, Operator.read?, hc] at hread
    cases hread
  | some found =>
    obtain ⟨tail, rfl, -⟩ := Operator.read?_eq_some_iff.mp ha
    rw [misplacedFrom_operator hasCommand ha, Option.or_eq_none_iff] at h
    have hseparates := (Operator.refused?_eq_none_iff.mp h.1).2
    have hop : Apart found.text tail := (Operator.read?_eq_some_iff_apart hseparates).mp ha
    have hmore := (apart_assoc.mp ⟨hop, hapart⟩).2
    rw [List.append_assoc, (Operator.read?_eq_some_iff_apart hseparates).mpr hmore] at hread
    cases hread
    exact h.1

/-- Accepted texts hold no `;;`. -/
theorem apart_of_accepted {a b : Text} (h : syntaxError? (a ++ b) = none) : Apart a b := by
  intro hlast hhead
  obtain ⟨front, rfl⟩ := List.getLast?_eq_some_iff.mp hlast
  obtain ⟨tail, rfl⟩ := List.head?_eq_some_iff.mp hhead
  have hchain : splitChain (front ++ [';'] ++ ';' :: tail) =
      splitChain front ++ ⟨.sequential, []⟩ :: splitAfter .sequential tail := by
    rw [List.append_assoc, List.singleton_append, splitChain, splitAfter_append_semicolon]
    rfl
  obtain ⟨text, later, htail, -⟩ := splitAfter_eq_cons .sequential tail
  rw [wellFormed_splitChain, wellFormed_iff, hchain, htail] at h
  refine h.1 ⟨.sequential, []⟩ ?_ words_nil
  rw [List.dropLast_append_of_ne_nil (List.cons_ne_nil _ _), List.dropLast_cons_cons]
  exact List.mem_append_right _ List.mem_cons_self

/-! ## Where the check stops -/

/-- The check of the two texts stops between them, at this operator. -/
structure StopsBetween (hasCommand : Bool) (before rest : Text) (op : Operator) : Prop where
  accepted : misplacedFrom hasCommand before = none
  apart : Apart before rest
  leads : Operator.read? rest = some op
  refused : op.refused? (commandAfter hasCommand before) = some op

theorem StopsBetween.misplacedFrom_eq {hasCommand : Bool} {before rest : Text} {op : Operator}
    (h : StopsBetween hasCommand before rest op) :
    misplacedFrom hasCommand (before ++ rest) = some op := by
  have hleads := h.leads
  obtain ⟨tail, rfl, -⟩ := Operator.read?_eq_some_iff.mp hleads
  rw [misplacedFrom_append h.accepted h.apart, misplacedFrom_operator _ hleads, h.refused,
    Option.some_or]

theorem exists_stopsBetween {hasCommand : Bool} {line : Text} {op : Operator}
    (h : misplacedFrom hasCommand line = some op) :
    ∃ before rest, line = before ++ rest ∧ StopsBetween hasCommand before rest op := by
  induction hasCommand, line using operator_induction with
  | nil hasCommand => cases h
  | plain hasCommand c line hc ih =>
    rw [misplacedFrom_cons hasCommand line hc] at h
    obtain ⟨before, rest, rfl, hstops⟩ := ih h
    refine ⟨c :: before, rest, rfl, ?_, ?_, hstops.leads, ?_⟩
    · rw [misplacedFrom_cons hasCommand before hc, hstops.accepted]
    · exact (apart_assoc.mpr ⟨hstops.apart, apart_singleton hc _⟩).2
    · rw [commandAfter_cons hasCommand before hc, hstops.refused]
  | operator hasCommand found tail hread ih =>
    rw [misplacedFrom_operator hasCommand hread] at h
    cases hrefused : found.refused? hasCommand with
    | some refused =>
      have hsame : refused = found := by
        rw [Operator.refused?] at hrefused
        split at hrefused
        · cases hrefused
        · exact (Option.some.inj hrefused).symm
      rw [hrefused, Option.some_or] at h
      cases h
      subst hsame
      exact ⟨[], _, rfl, rfl, by simp [Apart], hread, hrefused⟩
    | none =>
      rw [hrefused, Option.none_or] at h
      obtain ⟨before, rest, rfl, hstops⟩ := ih h
      have hseparates := (Operator.refused?_eq_none_iff.mp hrefused).2
      have hfound := (Operator.read?_eq_some_iff_apart hseparates).mp hread
      obtain ⟨hbefore, hboth⟩ := apart_assoc.mpr ⟨hstops.apart, hfound⟩
      refine ⟨found.text ++ before, rest, (List.append_assoc _ _ _).symm, ?_, hboth,
        hstops.leads, ?_⟩
      · rw [misplacedFrom_operator hasCommand
          ((Operator.read?_eq_some_iff_apart hseparates).mpr hbefore), hrefused, Option.none_or,
          hstops.accepted]
      · rw [commandAfter_operator, hstops.refused]

/-! ## The last link -/

theorem joinChain_append (a b : List Link) : joinChain (a ++ b) = joinChain a ++ joinChain b :=
  List.flatMap_append

theorem commandAfter_of_unmarked {text : Text} (h : Unmarked text) (hasCommand : Bool) :
    commandAfter hasCommand text = false ↔ hasCommand = false ∧ words text = [] := by
  induction text generalizing hasCommand with
  | nil => exact (and_iff_left words_nil).symm
  | cons c rest ih =>
    obtain ⟨hc, hrest⟩ := unmarked_cons.mp h
    rw [commandAfter_cons hasCommand rest hc, ih hrest, words_eq_nil_iff, words_eq_nil_iff]
    simp only [Bool.or_eq_false_iff, Bool.not_eq_false', List.forall_mem_cons, and_assoc]

/-- No word stands behind the last operator if and only if the last link has none. -/
theorem commandAfter_eq_false_iff {line : Text} (h : syntaxError? line = none) :
    commandAfter false line = false ↔
      ∃ last, (splitChain line).getLast? = some last ∧ words last.text = [] := by
  obtain ⟨text, later, hchain, hseparators⟩ := splitAfter_eq_cons .first line
  change splitChain line = _ at hchain
  have hne : splitChain line ≠ [] := hchain ▸ List.cons_ne_nil _ _
  obtain ⟨earlier, last, hlast⟩ : ∃ earlier last, splitChain line = earlier ++ [last] :=
    ⟨_, _, (List.dropLast_concat_getLast hne).symm⟩
  have hline : line = joinChain earlier ++ last.separator.text ++ last.text := by
    rw [← joinChain_splitChain line, hlast, joinChain_append, joinChain_cons, List.append_assoc]
    simp [joinChain]
  have hunmarked : Unmarked last.text :=
    (wellFormed_iff.mp (wellFormed_splitChain.mp h)).2 last (hlast ▸ by simp)
  -- An operator stands in front of the last link, unless it is the first one too.
  have hstart : commandAfter false (joinChain earlier ++ last.separator.text) = false := by
    rw [hlast] at hchain
    cases earlier with
    | nil =>
      cases hchain
      rfl
    | cons first earlier =>
      have hseparator : last.separator ≠ .first := by
        refine hseparators last ?_
        rw [← (List.cons.inj hchain).2]
        exact List.mem_append_right earlier (List.mem_singleton.mpr rfl)
      rw [commandAfter_append]
      cases hsame : last.separator with
      | first => exact absurd hsame hseparator
      | sequential => rfl
      | and => rfl
      | or => rfl
  have hwords : commandAfter false line = false ↔ words last.text = [] := by
    rw [hline, commandAfter_append, hstart, commandAfter_of_unmarked hunmarked, and_iff_right rfl]
  rw [hwords, hlast, List.getLast?_concat]
  simp

/-! ## The first offence -/

/-- An operator is out of place behind an accepted text: it separates nothing, or no word stands
between it and the operator before it. -/
structure Offends (before rest : Text) (op : Operator) : Prop where
  accepted : syntaxError? before = none
  leads : Operator.read? rest = some op
  refused : op.text ∈ [";;".toList, "&".toList, "|".toList] ∨
    ∃ last, (splitChain before).getLast? = some last ∧ words last.text = []

/-- The line is cut behind the shortest accepted text that an operator offends against. -/
structure FirstOffence (line before rest : Text) (op : Operator) : Prop where
  cut : line = before ++ rest
  offends : Offends before rest op
  shortest : ∀ before' rest' op', line = before' ++ rest' → Offends before' rest' op' →
    before.length ≤ before'.length

theorem misplaced_eq_none_iff {line : Text} : syntaxError? line = none ↔ misplaced line = none :=
  Option.map_eq_none_iff

section

variable {before rest : Text} {op : Operator}

theorem offends_iff :
    Offends before rest op ↔ misplacedFrom false before = none ∧ Operator.read? rest = some op ∧
      op.refused? (commandAfter false before) = some op := by
  constructor
  · rintro ⟨haccepted, hleads, hrefused⟩
    refine ⟨misplaced_eq_none_iff.mp haccepted, hleads, ?_⟩
    rwa [Operator.refused?_eq_some_iff, Operator.separates_eq_false_iff,
      commandAfter_eq_false_iff haccepted]
  · rintro ⟨haccepted, hleads, hrefused⟩
    have hnone : syntaxError? before = none := misplaced_eq_none_iff.mpr haccepted
    refine ⟨hnone, hleads, ?_⟩
    rwa [Operator.refused?_eq_some_iff, Operator.separates_eq_false_iff,
      commandAfter_eq_false_iff hnone] at hrefused

theorem StopsBetween.offends (h : StopsBetween false before rest op) : Offends before rest op :=
  offends_iff.mpr ⟨h.accepted, h.leads, h.refused⟩

/-- A text in front of an offending operator is not accepted with it. -/
theorem Offends.misplaced_ne_none (h : Offends before rest op) :
    misplaced (before ++ rest) ≠ none := by
  intro hnone
  obtain ⟨haccepted, hleads, hrefused⟩ := offends_iff.mp h
  have hapart : Apart before rest := apart_of_accepted (misplaced_eq_none_iff.mpr hnone)
  have hstops : StopsBetween false before rest op := ⟨haccepted, hapart, hleads, hrefused⟩
  rw [misplaced, hstops.misplacedFrom_eq] at hnone
  cases hnone

/-- The check stops no later than at any offending operator. -/
theorem StopsBetween.shortest (h : StopsBetween false before rest op) {before' rest' : Text}
    {op' : Operator} (hcut : before ++ rest = before' ++ rest') (hother : Offends before' rest' op') :
    before.length ≤ before'.length := by
  obtain ⟨-, hleads, hrefused⟩ := offends_iff.mp hother
  rcases List.append_eq_append_iff.mp hcut with ⟨more, rfl, -⟩ | ⟨skipped, rfl, rfl⟩
  · rw [List.length_append]
    omega
  · by_cases hskipped : skipped = []
    · exact hskipped ▸ Nat.le_of_eq (congrArg List.length (List.append_nil before'))
    · -- What stands between the two cuts is accepted, so its first operator is not refused.
      exfalso
      have haccepted : misplacedFrom false (before' ++ skipped) = none := h.accepted
      have hfront : Apart before' skipped :=
        apart_of_accepted (misplaced_eq_none_iff.mpr haccepted)
      have hbehind : Apart skipped rest := (apart_assoc.mp ⟨hfront, h.apart⟩).1
      have hfirst := (offends_iff.mp hother).1
      rw [misplacedFrom_append hfirst hfront] at haccepted
      rw [refused?_of_accepted hskipped haccepted hbehind hleads] at hrefused
      cases hrefused

theorem StopsBetween.firstOffence (h : StopsBetween false before rest op) :
    FirstOffence (before ++ rest) before rest op :=
  ⟨rfl, h.offends, fun _ _ _ hcut hother => h.shortest hcut hother⟩

end

theorem FirstOffence.unique {line before before' rest rest' : Text} {op op' : Operator}
    (h : FirstOffence line before rest op) (h' : FirstOffence line before' rest' op') :
    before = before' ∧ rest = rest' ∧ op = op' := by
  have hlength : before.length = before'.length :=
    Nat.le_antisymm (h.shortest _ _ _ h'.cut h'.offends) (h'.shortest _ _ _ h.cut h.offends)
  obtain ⟨rfl, rfl⟩ := List.append_inj (h.cut.symm.trans h'.cut) hlength
  exact ⟨rfl, rfl, Option.some.inj (h.offends.leads.symm.trans h'.offends.leads)⟩

theorem misplaced_eq_some_iff {line : Text} {op : Operator} :
    misplaced line = some op ↔ ∃ before rest, FirstOffence line before rest op := by
  have hfound : ∀ {found}, misplaced line = some found →
      ∃ before rest, FirstOffence line before rest found := by
    intro found h
    obtain ⟨before, rest, rfl, hstops⟩ := exists_stopsBetween h
    exact ⟨before, rest, hstops.firstOffence⟩
  constructor
  · exact hfound
  · rintro ⟨before, rest, hfirst⟩
    cases hmisplaced : misplaced line with
    | none => exact absurd (hfirst.cut ▸ hmisplaced) hfirst.offends.misplaced_ne_none
    | some found =>
      obtain ⟨before', rest', hother⟩ := hfound hmisplaced
      rw [(hfirst.unique hother).2.2]

/-! ## Refused lines -/

namespace Machine

/-- **A refused line names its first offending operator and runs nothing.** The token of the error
is the operator behind the shortest accepted text of the line that an operator offends against:
it is `;;` or a lone `&` or `|`, or the last link of this text has no word. Whatever else stands
in the line, nothing is printed and no program is started; one failure is reported, the status is
2, and the session is as before but for this status and the number of the line. -/
theorem processLine_unexpectedToken (line : Text) :
    (∀ error, syntaxError? line = some error →
      ∃ op before rest, error = .unexpectedToken op.text ∧ FirstOffence line before rest op) ∧
    (∀ op before rest, FirstOffence line before rest op →
      syntaxError? line = some (.unexpectedToken op.text)) ∧
    ∀ (m : Machine) (typed : Text), stripComment typed = some line →
      ∀ error, syntaxError? line = some error → ∀ s io,
        let run := m.processLine typed s io
        run.OnlyReports error s io ∧ run.status = 2 ∧
          run.session = { s with lastStatus := 2, counter := s.counter + 1 } := by
  refine ⟨?_, ?_, ?_⟩
  · intro error herror
    obtain ⟨op, hop, rfl⟩ := Option.map_eq_some_iff.mp herror
    obtain ⟨before, rest, hfirst⟩ := misplaced_eq_some_iff.mp hop
    exact ⟨op, before, rest, rfl, hfirst⟩
  · intro op before rest hfirst
    rw [syntaxError?, misplaced_eq_some_iff.mpr ⟨before, rest, hfirst⟩]
    rfl
  · intro m typed hstrip error herror s io run
    have hrun : run = (Run.failed error s io).recorded.counted := by
      change m.processLine typed s io = _
      rw [processLine, hstrip]
      dsimp only
      rw [herror]
    obtain ⟨op, -, rfl⟩ := Option.map_eq_some_iff.mp herror
    rw [hrun]
    exact ⟨(Run.failed_onlyReports _ s io).recorded.counted, rfl, rfl⟩

/-- Two links that could run, blanks of two kinds, three bars and a comment. -/
theorem processLine_unexpectedToken_bars :
    let m : Machine := { registry := Registry.builtins.addProbes [⟨"a".toList, 1, none⟩] }
    let s : Session := { counter := 4, processId := "7".toList, programName := "sh".toList }
    let line := "é x;a\t||| a ".toList
    let run := m.processLine "é x;a\t||| a #;;".toList s {}
    FirstOffence line "é x;a\t||".toList "| a ".toList ⟨.bar, false⟩ ∧
      run.session = { s with lastStatus := 2, counter := 5 } ∧ output run.effects = [] ∧
      errorOutput run.effects =
        Utf8.encode "sh: 4: Syntax error near unexpected token '|'\n".toList := by
  intro m s line run
  have hstops : StopsBetween false "é x;a\t||".toList "| a ".toList ⟨.bar, false⟩ :=
    ⟨by decide +kernel, by decide, by decide, by decide +kernel⟩
  have hfirst : FirstOffence line "é x;a\t||".toList "| a ".toList ⟨.bar, false⟩ :=
    hstops.firstOffence
  obtain ⟨-, htoken, hline⟩ := processLine_unexpectedToken line
  have herror := htoken _ _ _ hfirst
  have hstrip : stripComment "é x;a\t||| a #;;".toList = some line := by decide +kernel
  obtain ⟨hreports, -, hsession⟩ := hline m _ hstrip _ herror s {}
  exact ⟨hfirst, hsession, hreports.output, by decide +kernel⟩

end Machine

end LineShell
