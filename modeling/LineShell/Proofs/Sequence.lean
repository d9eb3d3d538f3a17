import LineShell.Proofs.Acceptance
import LineShell.Proofs.Comment
import LineShell.Proofs.ErrorStream
import LineShell.Proofs.Expansion
import LineShell.Proofs.LineNumber

/-!
# Two lines on one line

A `;` between two lines does what the end of a line does, but for the number of the line. Two
things are to be shown: that the one line comes to the chain of the first and then the chain of
the second, whatever the references of the first stand for, and that a chain does the same
under any number.

* `Run.renumbered`: a run as it would have been at another line. `Machine.execute_renumbered`
  and `Machine.runChain_renumbered` say that this is what happens there.
* `Machine.processLine_append_semicolon`: the one line as two chains.
* `Machine.processLine_semicolon`: the one line and the two lines.
-/

namespace LineShell

/-! ## Runs under another number -/

/-- The effect with the number of its report replaced. -/
def Effect.renumbered (number : UInt64) : Effect → Effect
  | reported report bytes => reported { report with line := number } bytes
  | effect => effect

def Run.renumbered (run : Run) (number : UInt64) : Run :=
  { run with
    session := run.session.atLine number
    effects := run.effects.map (Effect.renumbered number) }

/-- The reports, whatever their numbers. -/
def failures (effects : List Effect) : List (Text × ShellError) :=
  (reports effects).map (fun report => (report.program, report.error))

theorem Effect.out_renumbered (number : UInt64) (effect : Effect) :
    (effect.renumbered number).out = effect.out := by
  cases effect <;> rfl

theorem Effect.launch?_renumbered (number : UInt64) (effect : Effect) :
    (effect.renumbered number).launch? = effect.launch? := by
  cases effect <;> rfl

theorem Effect.report?_renumbered (number : UInt64) (effect : Effect) :
    (effect.renumbered number).report? =
      effect.report?.map (fun report => { report with line := number }) := by
  cases effect <;> rfl

theorem output_renumbered (number : UInt64) (effects : List Effect) :
    output (effects.map (Effect.renumbered number)) = output effects := by
  simp only [output, List.flatMap_map, Effect.out_renumbered]

theorem launches_renumbered (number : UInt64) (effects : List Effect) :
    launches (effects.map (Effect.renumbered number)) = launches effects := by
  simp only [launches, List.filterMap_map, Function.comp_def, Effect.launch?_renumbered]

theorem failures_append (a b : List Effect) : failures (a ++ b) = failures a ++ failures b := by
  rw [failures, reports_append, List.map_append]
  rfl

theorem failures_renumbered (number : UInt64) (effects : List Effect) :
    failures (effects.map (Effect.renumbered number)) = failures effects := by
  have hreports : reports (effects.map (Effect.renumbered number)) =
      (reports effects).map (fun report => { report with line := number }) := by
    simp only [reports, List.filterMap_map, Function.comp_def, Effect.report?_renumbered,
      List.map_filterMap]
  rw [failures, hreports, List.map_map]
  rfl

namespace Run.Alike

variable {run other third : Run} {number : UInt64}

theorem trans (h : run.Alike other) (hother : other.Alike third) : run.Alike third where
  status := h.status.trans hother.status
  session := h.session.trans hother.session
  out := h.out.trans hother.out
  effects := h.effects.trans hother.effects

theorem output_eq_of_renumbered (h : run.Alike (other.renumbered number)) :
    output run.effects = output other.effects :=
  h.output_eq.trans (output_renumbered number other.effects)

theorem launches_eq_of_renumbered (h : run.Alike (other.renumbered number)) :
    launches run.effects = launches other.effects :=
  (h.filterMap_eq Effect.launch?_silenced).trans (launches_renumbered number other.effects)

theorem failures_eq_of_renumbered (h : run.Alike (other.renumbered number)) :
    failures run.effects = failures other.effects := by
  have hreports : reports run.effects = reports (other.renumbered number).effects :=
    h.filterMap_eq Effect.report?_silenced
  rw [failures, hreports]
  exact failures_renumbered number other.effects

end Run.Alike

theorem Run.renumbered_after (run : Run) (earlier : List Effect) (number : UInt64) :
    (run.after earlier).renumbered number =
      (run.renumbered number).after (earlier.map (Effect.renumbered number)) := by
  rw [renumbered, after, List.map_append]
  rfl

theorem Run.failed_renumbered (error : ShellError) (s : Session) (io : Streams)
    (number : UInt64) :
    (failed error (s.atLine number) io).Alike ((failed error s io).renumbered number) :=
  ⟨rfl, rfl, rfl, rfl⟩

namespace Machine

variable {m : Machine}

theorem runRegistered_renumbered (hm : m.registry.IsStandard) {name : Text} {handler : Handler}
    (hget : m.registry.get? name = some handler) (args : List Text) (s : Session) (io : Streams)
    (number : UInt64) :
    (m.runRegistered handler args (s.atLine number) io).Alike
      ((m.runRegistered handler args s io).renumbered number) := by
  rw [runRegistered, runRegistered]
  cases hhandler : handler args with
  | error error => exact Run.failed_renumbered error s io number
  | ok command =>
    dsimp only
    rw [hm.command_atLine hget hhandler]
    generalize command m.tree s io.out = done
    obtain ⟨result, session, printed, out⟩ := done
    cases result with
    | ok status => exact ⟨rfl, rfl, rfl, rfl⟩
    | error error =>
      dsimp only
      rw [Run.renumbered_after]
      exact (Run.failed_renumbered error session _ number).after rfl

theorem runProgram_renumbered (name : Text) (args : List Text) (s : Session) (io : Streams)
    (number : UInt64) :
    (m.runProgram name args (s.atLine number) io).Alike
      ((m.runProgram name args s io).renumbered number) := by
  have hfind : (s.atLine number).findCommand m.tree name = s.findCommand m.tree name := rfl
  have hstart : ∀ path, (s.atLine number).start? m.tree path (name :: args) =
      s.start? m.tree path (name :: args) := fun _ => rfl
  rw [runProgram, runProgram, hfind]
  cases s.findCommand m.tree name with
  | notFound => exact Run.failed_renumbered _ s io number
  | notExecutable path => exact Run.failed_renumbered _ s io number
  | executable path =>
    dsimp only
    rw [hstart]
    split
    · exact Run.failed_renumbered _ s io.flushed number
    · cases s.start? m.tree path (name :: args) with
      | none =>
        dsimp only
        rw [Run.renumbered_after]
        exact (Run.failed_renumbered _ s io.flushed number).after rfl
      | some started => exact ⟨rfl, rfl, rfl, rfl⟩

theorem execute_renumbered (hm : m.registry.IsStandard) (argv : List Text) (s : Session)
    (io : Streams) (number : UInt64) :
    (m.execute argv (s.atLine number) io).Alike ((m.execute argv s io).renumbered number) := by
  cases argv with
  | nil => exact ⟨rfl, rfl, rfl, rfl⟩
  | cons name args =>
    rw [execute, execute]
    cases hget : m.registry.get? name with
    | none => exact runProgram_renumbered name args s io number
    | some handler => exact runRegistered_renumbered hm hget args s io number

/-- A chain does at one line what it does at another. -/
theorem runChain_renumbered (hm : m.registry.IsStandard) (chain : List Link) (s : Session)
    (io : Streams) (number : UInt64) :
    (m.runChain chain (s.atLine number) io).Alike ((m.runChain chain s io).renumbered number) := by
  induction chain generalizing s io with
  | nil => exact ⟨rfl, rfl, rfl, rfl⟩
  | cons link later ih =>
    cases hadmits : link.separator.admits s.lastStatus with
    | false =>
      have hadmits' : link.separator.admits (s.atLine number).lastStatus = false := hadmits
      rw [runChain_skip m hadmits, runChain_skip m hadmits']
      exact ih s io
    | true =>
      have hadmits' : link.separator.admits (s.atLine number).lastStatus = true := hadmits
      have hlink : (m.runLink link (s.atLine number) io).Alike
          ((m.runLink link s io).renumbered number) :=
        (execute_renumbered hm (words link.text) s io number).recorded
      have hsession : (m.runLink link (s.atLine number) io).session =
          (m.runLink link s io).session.atLine number := hlink.session
      rw [runChain_cons m hadmits, runChain_cons m hadmits']
      cases hexit : (m.runLink link s io).session.shouldExit with
      | true =>
        have hexit' : (m.runLink link (s.atLine number) io).session.shouldExit = true :=
          hsession ▸ hexit
        rw [Run.thenIf_of_shouldExit hexit, Run.thenIf_of_shouldExit hexit']
        exact hlink
      | false =>
        have hexit' : (m.runLink link (s.atLine number) io).session.shouldExit = false :=
          hsession ▸ hexit
        rw [Run.thenIf_true hexit, Run.thenIf_true hexit', Run.renumbered_after, hsession]
        -- The reports of the link may have left less room on the error stream.
        have hstreams := m.runChain_alike later ((m.runLink link s io).session.atLine number)
          hlink.out
        exact (hstreams.trans (ih _ _)).after hlink.effects

/-! ## The chain of two lines -/

theorem processLine_of_accepted (m : Machine) {line text : Text}
    (hline : stripComment line = some text) (haccepted : syntaxError? text = none) (s : Session)
    (io : Streams) :
    m.processLine line s io = (m.runChain (splitChain (s.expand text)) s io).counted := by
  rw [processLine, hline]
  dsimp only
  rw [haccepted]

/-- The first link of a chain runs, and so does a link behind `;`. -/
theorem runChain_splitAfter_sequential (m : Machine) (line : Text) :
    m.runChain (splitAfter .sequential line) = m.runChain (splitChain line) := by
  obtain ⟨text, later, hsequential, hfirst⟩ := splitAfter_separators .sequential .first line
  have hlink : m.runLink ⟨.sequential, text⟩ = m.runLink ⟨.first, text⟩ := rfl
  funext s io
  rw [splitChain, hsequential, hfirst, runChain_cons m rfl, runChain_cons m rfl, hlink]

end Machine

/-- A value cannot reach over the `;`, whatever marks it holds. -/
theorem splitChain_expand_append_semicolon (s : Session) (a : Text) {b : Text} (hb : '$' ∉ b) :
    splitChain (s.expand (a ++ ';' :: b)) =
      splitChain (s.expand a) ++ splitAfter .sequential b := by
  have hsemicolon : EndsReference ';' := Mark.endsReference .semicolon
  have hexpand : s.expand (a ++ ';' :: b) = s.expand a ++ ';' :: b := by
    rw [Session.expand, substitute_append_cons a b hsemicolon, substitute_eq_self s.valueOf hb]
    rfl
  rw [hexpand, splitChain, splitAfter_append_semicolon]
  rfl

namespace Machine

variable {m : Machine}

/-- The one line is two chains, of which the second waits for the first. -/
theorem processLine_append_semicolon {s : Session} (hs : s.exitRequest = none) {a b : Text}
    (ha : stripComment a = some a) (hb : stripComment b = some b) (hacheck : syntaxError? a = none)
    (hbcheck : syntaxError? b = none) {last : Link} (hlast : (splitChain a).getLast? = some last)
    (hwords : words last.text ≠ []) (hreference : '$' ∉ b) (io : Streams) :
    m.processLine (a ++ ';' :: b) s io =
      ((m.runChain (splitChain (s.expand a)) s io).thenIf true
        (m.runChain (splitChain b))).counted := by
  have hrunning : s.shouldExit = false := Session.shouldExit_eq_false_iff.mpr hs
  have huncommented : Uncommented (a ++ ';' :: b) :=
    (uncommented_of_stripComment ha).append_cons rfl (uncommented_of_stripComment hb)
  have hcheck : syntaxError? (a ++ ';' :: b) = none :=
    syntaxError?_append_semicolon hacheck hbcheck hlast hwords
  rw [processLine_of_accepted m huncommented.stripComment_eq hcheck,
    splitChain_expand_append_semicolon s a hreference, runChain_append m hrunning,
    runChain_splitAfter_sequential]

/-- **A `;` is as good as the end of a line.** Take two lines without comments that are accepted,
the first of which ends in a word, the second without references. If the first line leads to
no request to exit, then the one line prints what the two lines print, starts the same programs
and reports the same failures, the numbers aside, and it leaves the same session but for the line
that is counted less. If the first line does lead to a request to exit, the one line is the
first line. -/
theorem processLine_semicolon (hm : m.registry.IsStandard) {s : Session}
    (hs : s.exitRequest = none) {a b : Text} (ha : stripComment a = some a)
    (hb : stripComment b = some b) (hacheck : syntaxError? a = none)
    (hbcheck : syntaxError? b = none) {last : Link} (hlast : (splitChain a).getLast? = some last)
    (hwords : words last.text ≠ []) (hreference : '$' ∉ b) (io : Streams) :
    let first := m.processLine a s io
    let second := m.processLine b first.session first.streams
    let whole := m.processLine (a ++ ';' :: b) s io
    (first.session.exitRequest = none →
      output whole.effects = output first.effects ++ output second.effects ∧
      launches whole.effects = launches first.effects ++ launches second.effects ∧
      failures whole.effects = failures first.effects ++ failures second.effects ∧
      whole.status = second.status ∧ second.session = whole.session.countLine) ∧
    (first.session.exitRequest ≠ none → whole = first) := by
  intro first second whole
  have hfirst : first = (m.runChain (splitChain (s.expand a)) s io).counted :=
    m.processLine_of_accepted ha hacheck s io
  have hsecond : second = (m.runChain (splitChain b) first.session first.streams).counted := by
    have hexpand : first.session.expand b = b := substitute_eq_self _ hreference
    have hprocess := m.processLine_of_accepted hb hbcheck first.session first.streams
    rwa [hexpand] at hprocess
  have hwhole : whole = ((m.runChain (splitChain (s.expand a)) s io).thenIf true
      (m.runChain (splitChain b))).counted :=
    processLine_append_semicolon hs ha hb hacheck hbcheck hlast hwords hreference io
  clear_value first second whole
  subst hfirst
  generalize m.runChain (splitChain (s.expand a)) s io = run at hsecond hwhole ⊢
  constructor
  · intro hnone
    have hexit : run.session.shouldExit = false := by
      rw [Session.shouldExit]
      exact Option.isSome_eq_false_iff.mpr (Option.isNone_iff_eq_none.mpr hnone)
    rw [Run.thenIf_true hexit] at hwhole
    -- The second line finds the session of the first chain at the next line.
    have hcounter := (runChain_atLine hm (splitChain b) run.session run.streams).counter
    have halike : (m.runChain (splitChain b) run.counted.session run.counted.streams).Alike
        ((m.runChain (splitChain b) run.session run.streams).renumbered
          (run.session.counter + 1)) :=
      runChain_renumbered hm (splitChain b) run.session run.streams (run.session.counter + 1)
    subst hwhole hsecond
    generalize m.runChain (splitChain b) run.session run.streams = rest at hcounter halike ⊢
    refine ⟨?_, ?_, ?_, halike.status.symm, ?_⟩
    · rw [Run.counted, Run.after, output_append, ← halike.output_eq_of_renumbered]
      rfl
    · rw [Run.counted, Run.after, launches_append, ← halike.launches_eq_of_renumbered]
      rfl
    · rw [Run.counted, Run.after, failures_append, ← halike.failures_eq_of_renumbered]
      rfl
    · show Session.countLine _ = rest.session.countLine.countLine
      rw [halike.session, Session.countLine, Session.countLine, Session.countLine, Run.renumbered,
        Session.atLine, hcounter]
  · intro hsome
    have hexit : run.session.shouldExit = true := Option.isSome_iff_ne_none.mpr hsome
    rw [hwhole, Run.thenIf_of_shouldExit hexit]

/-- The value of `X` holds marks of its own, and its second link is reported; so are two links of
the second line. With a request to exit in front of it, the second line is not looked at. -/
theorem processLine_semicolon_marks :
    let m : Machine := { registry := Registry.builtins.addProbes [⟨"a".toList, 1, none⟩] }
    let s : Session :=
      { environment := .ofPairs [("X".toList, "1; y; a 2".toList)]
        processId := "7".toList, programName := "sh".toList, counter := 41 }
    let a := "a $X".toList
    let b := "x || a 3; exit z".toList
    let first := m.processLine a s {}
    let second := m.processLine b first.session first.streams
    let whole := m.processLine (a ++ ';' :: b) s {}
    output whole.effects = output first.effects ++ output second.effects ∧
      (reports whole.effects).length = 3 ∧ whole.status = second.status ∧
      second.session = whole.session.countLine ∧
      m.processLine ("a $X; exit 3".toList ++ ';' :: b) s {} =
        m.processLine "a $X; exit 3".toList s {} := by
  intro m s a b first second whole
  have hm : m.registry.IsStandard := Registry.IsDefault.isStandard ⟨_, rfl⟩
  have hs : s.exitRequest = none := rfl
  have hacomment : stripComment a = some a := by decide
  have hbcomment : stripComment b = some b := by decide
  have hbcheck : syntaxError? b = none := by decide
  have hbreference : '$' ∉ b := by decide
  have hlast : (splitChain a).getLast? = some ⟨.first, a⟩ := by decide
  have hgoes : first.session.exitRequest = none := by decide +kernel
  obtain ⟨houtput, -, -, hstatus, hsession⟩ :=
    (processLine_semicolon hm hs hacomment hbcomment (by decide) hbcheck hlast (by decide)
      hbreference {}).1 hgoes
  have hcomment : stripComment "a $X; exit 3".toList = some "a $X; exit 3".toList := by decide
  have hexit : (splitChain "a $X; exit 3".toList).getLast? =
      some ⟨.sequential, " exit 3".toList⟩ := by decide
  have hstops : (m.processLine "a $X; exit 3".toList s {}).session.exitRequest ≠ none := by
    decide +kernel
  exact ⟨houtput, by decide +kernel, hstatus, hsession,
    (processLine_semicolon hm hs hcomment hbcomment (by decide) hbcheck hexit (by decide)
      hbreference {}).2 hstops⟩

end Machine

end LineShell
