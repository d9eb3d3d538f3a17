import LineShell.Proofs.Command
import LineShell.Proofs.Expression

/-!
# The error stream

A report is written to the error stream, and what becomes of the write is looked at by nobody.
So a stream that is full takes less and changes nothing else, and all reports of a run come to
one write of their texts.

* `Run.Alike`: two runs that differ at most in what reached the error stream.
* `Reported`: the reports of a run come to one write.
* `Run.OnlyReports`: a run that comes to one report and nothing else.
* `Machine.processLine_alike`, `Machine.processLine_reported`: both for a line, from an argument
  vector on.
* `Machine.processLine_errorStream`: what a limit of the error stream is worth.
-/

namespace LineShell

/-! ## What a run writes -/

/-- The bytes of a report that reached the error stream. -/
def Effect.reportBytes : Effect → Bytes
  | reported _ bytes => bytes
  | _ => []

/-- The effect, whatever of a report reached the error stream. -/
def Effect.silenced : Effect → Effect
  | reported report _ => reported report []
  | effect => effect

/-- What reached the error stream of the reports, without what programs wrote there. -/
def reportOutput (effects : List Effect) : Bytes := effects.flatMap Effect.reportBytes

/-- The texts of the reports, as a whole. -/
def reportText (effects : List Effect) : Bytes :=
  (reports effects).flatMap (fun report => Utf8.encode report.text)

theorem Effect.out_silenced (effect : Effect) : effect.silenced.out = effect.out := by
  cases effect <;> rfl

theorem Effect.report?_silenced (effect : Effect) : effect.silenced.report? = effect.report? := by
  cases effect <;> rfl

theorem Effect.launch?_silenced (effect : Effect) : effect.silenced.launch? = effect.launch? := by
  cases effect <;> rfl

/-- The runs differ at most in what reached the error stream. -/
structure Run.Alike (run other : Run) : Prop where
  status : run.status = other.status
  session : run.session = other.session
  out : run.streams.out = other.streams.out
  effects : run.effects.map Effect.silenced = other.effects.map Effect.silenced

/-- The reports among these effects came to one write to a stream, which is left like this. -/
structure Reported (before : OutStream) (effects : List Effect) (after : OutStream) : Prop where
  accepted : reportOutput effects = (before.write (reportText effects)).accepted
  stream : after = (before.write (reportText effects)).stream

/-! ## Runs that are alike -/

namespace Run.Alike

variable {run other : Run}

theorem map_eq {β : Type} (h : run.Alike other) {view : Effect → β}
    (hview : ∀ effect, view effect.silenced = view effect) :
    run.effects.map view = other.effects.map view := by
  have hsilenced : view ∘ Effect.silenced = view := funext hview
  calc run.effects.map view
    _ = (run.effects.map Effect.silenced).map view := by rw [List.map_map, hsilenced]
    _ = (other.effects.map Effect.silenced).map view := by rw [h.effects]
    _ = other.effects.map view := by rw [List.map_map, hsilenced]

theorem output_eq (h : run.Alike other) : output run.effects = output other.effects := by
  rw [output, output, List.flatMap_def, List.flatMap_def, h.map_eq Effect.out_silenced]

theorem filterMap_eq {β : Type} (h : run.Alike other) {view : Effect → Option β}
    (hview : ∀ effect, view effect.silenced = view effect) :
    run.effects.filterMap view = other.effects.filterMap view := by
  have hmap := congrArg (List.filterMap id) (h.map_eq hview)
  rwa [List.filterMap_map, List.filterMap_map, Function.id_comp] at hmap

theorem after (h : run.Alike other) {earlier earlier' : List Effect}
    (hearlier : earlier.map Effect.silenced = earlier'.map Effect.silenced) :
    (run.after earlier).Alike (other.after earlier') where
  status := h.status
  session := h.session
  out := h.out
  effects := by rw [Run.after, Run.after, List.map_append, List.map_append, hearlier, h.effects]

theorem recorded (h : run.Alike other) : run.recorded.Alike other.recorded where
  status := h.status
  session := by rw [Run.recorded, Run.recorded, h.session, h.status]
  out := h.out
  effects := h.effects

theorem counted (h : run.Alike other) : run.counted.Alike other.counted where
  status := h.status
  session := congrArg Session.countLine h.session
  out := h.out
  effects := h.effects

end Run.Alike

section

variable {io io' : Streams} (h : io.out = io'.out)

include h

theorem Run.failed_alike (error : ShellError) (s : Session) :
    (failed error s io).Alike (failed error s io') :=
  ⟨rfl, rfl, h, rfl⟩

namespace Machine

variable (m : Machine)

theorem runRegistered_alike (handler : Handler) (args : List Text) (s : Session) :
    (m.runRegistered handler args s io).Alike (m.runRegistered handler args s io') := by
  rw [runRegistered, runRegistered, h]
  cases handler args with
  | error error => exact Run.failed_alike h error s
  | ok command =>
    dsimp only
    cases (command m.tree s io'.out).result with
    | ok status => exact ⟨rfl, rfl, rfl, rfl⟩
    | error error =>
      refine Run.Alike.after (Run.failed_alike ?_ error _) rfl
      rfl

theorem runProgram_alike (name : Text) (args : List Text) (s : Session) :
    (m.runProgram name args s io).Alike (m.runProgram name args s io') := by
  rw [runProgram, runProgram, h]
  cases s.findCommand m.tree name with
  | notFound => exact Run.failed_alike h _ s
  | notExecutable path => exact Run.failed_alike h _ s
  | executable path =>
    have hflushed : io.flushed.out = io'.flushed.out := congrArg OutStream.flushed h
    dsimp only
    cases io'.out.flushFailure? with
    | some problem => exact Run.failed_alike hflushed _ s
    | none =>
      dsimp only
      cases s.start? m.tree path (name :: args) with
      | none => exact (Run.failed_alike hflushed _ s).after rfl
      | some started => exact ⟨rfl, rfl, hflushed, rfl⟩

theorem execute_alike (argv : List Text) (s : Session) :
    (m.execute argv s io).Alike (m.execute argv s io') := by
  cases argv with
  | nil => exact ⟨rfl, rfl, h, rfl⟩
  | cons name args =>
    rw [execute, execute]
    cases m.registry.get? name with
    | none => exact m.runProgram_alike h name args s
    | some handler => exact m.runRegistered_alike h handler args s

omit h in
theorem runChain_alike (chain : List Link) (s : Session) {io io' : Streams}
    (h : io.out = io'.out) : (m.runChain chain s io).Alike (m.runChain chain s io') := by
  induction chain generalizing s io io' with
  | nil => exact ⟨rfl, rfl, h, rfl⟩
  | cons link later ih =>
    cases hadmits : link.separator.admits s.lastStatus with
    | false =>
      rw [runChain_skip m hadmits, runChain_skip m hadmits]
      exact ih s h
    | true =>
      have hlink : (m.runLink link s io).Alike (m.runLink link s io') :=
        (m.execute_alike h (words link.text) s).recorded
      rw [runChain_cons m hadmits, runChain_cons m hadmits]
      -- Whether the chain goes on is read off the session, so both chains do or neither does.
      cases hexit : (m.runLink link s io).session.shouldExit with
      | true =>
        rw [Run.thenIf_of_shouldExit hexit, Run.thenIf_of_shouldExit (hlink.session ▸ hexit)]
        exact hlink
      | false =>
        rw [Run.thenIf_true hexit, Run.thenIf_true (hlink.session ▸ hexit), ← hlink.session]
        exact (ih _ hlink.out).after hlink.effects

theorem processLine_alike (line : Text) (s : Session) :
    (m.processLine line s io).Alike (m.processLine line s io') := by
  rw [processLine, processLine]
  cases stripComment line with
  | none => exact ⟨rfl, rfl, h, rfl⟩
  | some text =>
    dsimp only
    cases syntaxError? text with
    | some error => exact (Run.failed_alike h error s).recorded.counted
    | none => exact (m.runChain_alike (splitChain (s.expand text)) s h).counted

end Machine

end

/-! ## Reports that come to one write -/

theorem reportOutput_append (a b : List Effect) :
    reportOutput (a ++ b) = reportOutput a ++ reportOutput b :=
  List.flatMap_append

theorem reportText_append (a b : List Effect) :
    reportText (a ++ b) = reportText a ++ reportText b := by
  rw [reportText, reports_append, List.flatMap_append]
  rfl

namespace Reported

theorem of_silence (err : OutStream) {effects : List Effect} (houtput : reportOutput effects = [])
    (htext : reportText effects = []) : Reported err effects err := by
  have hwrite := err.write_nil
  exact ⟨by rw [houtput, htext, hwrite], by rw [htext, hwrite]⟩

/-- Reports after reports go where the earlier ones left the stream. If there was no room for the
earlier ones, there must be none for the later ones either. -/
theorem append {before middle after : OutStream} (hlasting : before.Lasting)
    {earlier later : List Effect} (hearlier : Reported before earlier middle)
    (hlater : Reported middle later after) : Reported before (earlier ++ later) after := by
  obtain ⟨haccepted, hstream⟩ := hlasting.write_append (reportText earlier) (reportText later)
  constructor
  · rw [reportOutput_append, reportText_append, haccepted, ← hearlier.stream, hearlier.accepted,
      hlater.accepted]
  · rw [reportText_append, hstream, ← hearlier.stream, hlater.stream]

theorem lasting {before after : OutStream} (hlasting : before.Lasting) {effects : List Effect}
    (h : Reported before effects after) : after.Lasting := by
  rw [h.stream]
  exact hlasting.write (reportText effects)

end Reported

theorem OutStream.writeTexts_pieces (stream : OutStream) (report : Report) :
    stream.writeTexts report.pieces = stream.write (Utf8.encode report.text) :=
  stream.writeTexts_eq_write report.pieces

theorem Run.failed_reported (error : ShellError) (s : Session) (io : Streams) :
    Reported io.err (failed error s io).effects (failed error s io).streams.err := by
  have hwrite := io.err.writeTexts_pieces (s.reportOf error)
  have htext : reportText (failed error s io).effects =
      Utf8.encode (s.reportOf error).text := List.append_nil _
  constructor
  · rw [htext, ← hwrite]
    exact List.append_nil _
  · rw [htext, ← hwrite]
    rfl

/-! ## A report and nothing else -/

/-- The run comes to the report of one failure, with the number that the session has. Nothing is
printed and no program is started. -/
structure Run.OnlyReports (run : Run) (error : ShellError) (s : Session) (io : Streams) :
    Prop where
  status : run.status = error.status
  out : run.streams.out = io.out
  output : output run.effects = []
  launches : launches run.effects = []
  reports : reports run.effects = [s.reportOf error]
  errorOutput : errorOutput run.effects =
    (io.err.write (Utf8.encode (s.reportOf error).text)).accepted

namespace Run

variable {run : Run} {error : ShellError} {s : Session} {io : Streams}

theorem failed_onlyReports (error : ShellError) (s : Session) (io : Streams) :
    (failed error s io).OnlyReports error s io where
  status := rfl
  out := rfl
  output := rfl
  launches := rfl
  reports := rfl
  errorOutput := by
    rw [← io.err.writeTexts_pieces (s.reportOf error)]
    exact List.append_nil _

namespace OnlyReports

/-- Only the session depends on whether the line is counted. -/
theorem counted (h : run.OnlyReports error s io) : run.counted.OnlyReports error s io :=
  ⟨h.status, h.out, h.output, h.launches, h.reports, h.errorOutput⟩

theorem recorded (h : run.OnlyReports error s io) : run.recorded.OnlyReports error s io :=
  ⟨h.status, h.out, h.output, h.launches, h.reports, h.errorOutput⟩

end OnlyReports

end Run

namespace Machine

variable (m : Machine)

theorem runRegistered_reported (handler : Handler) (args : List Text) (s : Session)
    {io : Streams} (h : io.err.Lasting) :
    Reported io.err (m.runRegistered handler args s io).effects
      (m.runRegistered handler args s io).streams.err := by
  rw [runRegistered]
  cases handler args with
  | error error => exact Run.failed_reported error s io
  | ok command =>
    dsimp only
    have hprinted : Reported io.err [.printed (command m.tree s io.out).printed] io.err :=
      Reported.of_silence io.err rfl rfl
    cases (command m.tree s io.out).result with
    | ok status => exact hprinted
    | error error => exact hprinted.append h (Run.failed_reported error _ _)

theorem runProgram_reported (name : Text) (args : List Text) (s : Session) {io : Streams}
    (h : io.err.Lasting) :
    Reported io.err (m.runProgram name args s io).effects
      (m.runProgram name args s io).streams.err := by
  apply m.runProgram_cases (P := fun run => Reported io.err run.effects run.streams.err)
  case notFound => exact fun _ => Run.failed_reported _ s io
  case notExecutable => exact fun _ _ => Run.failed_reported _ s io
  case stuck => exact fun _ _ _ _ => Run.failed_reported _ s io.flushed
  case refused =>
    intro _ _ _ _
    exact (Reported.of_silence io.err rfl rfl).append h (Run.failed_reported _ s io.flushed)
  case started => exact fun _ _ _ _ _ _ => Reported.of_silence io.err rfl rfl

theorem execute_reported (argv : List Text) (s : Session) {io : Streams} (h : io.err.Lasting) :
    Reported io.err (m.execute argv s io).effects (m.execute argv s io).streams.err := by
  cases argv with
  | nil => exact Reported.of_silence io.err rfl rfl
  | cons name args =>
    rw [execute]
    cases m.registry.get? name with
    | none => exact m.runProgram_reported name args s h
    | some handler => exact m.runRegistered_reported handler args s h

theorem runChain_reported (chain : List Link) (s : Session) {io : Streams}
    (h : io.err.Lasting) :
    Reported io.err (m.runChain chain s io).effects (m.runChain chain s io).streams.err := by
  refine m.runChain_of_links
    (P := fun _ io run => io.err.Lasting → Reported io.err run.effects run.streams.err)
    ?_ ?_ ?_ s io h
  · intro s io _
    exact Reported.of_silence io.err rfl rfl
  · intro link _ s io h
    exact m.execute_reported (words link.text) s h
  · intro s io run rest hrun hrest h
    exact (hrun h).append h (hrest ((hrun h).lasting h))

theorem processLine_reported (line : Text) (s : Session) {io : Streams} (h : io.err.Lasting) :
    Reported io.err (m.processLine line s io).effects (m.processLine line s io).streams.err := by
  apply m.processLine_cases (P := fun run => Reported io.err run.effects run.streams.err)
  case comment => exact Reported.of_silence io.err rfl rfl
  case refused => exact fun _ => Run.failed_reported _ s io
  case chain => exact fun text _ => m.runChain_reported (splitChain (s.expand text)) s h

/-- **A broken error stream changes nothing else.** Two runs of a line whose error streams are
not the same end with the same status, session and output stream, print the same, start the same
programs and report the same failures, in the same order. A stream without a limit takes these
reports as a whole, and one that takes `k` bytes and no more takes the first `k` bytes of them. -/
theorem processLine_errorStream (line : Text) (s : Session) (out err err' : OutStream) :
    let run := m.processLine line s ⟨out, err⟩
    let run' := m.processLine line s ⟨out, err'⟩
    let unlimited := m.processLine line s ⟨out, { err with room := none }⟩
    run.Alike run' ∧ output run.effects = output run'.effects ∧
      launches run.effects = launches run'.effects ∧
      reports run.effects = reports run'.effects ∧
      reportOutput unlimited.effects = reportText unlimited.effects ∧
      ∀ k,
        let limited := m.processLine line s ⟨out, { err' with room := some k, later := [] }⟩
        reportOutput limited.effects = (reportOutput unlimited.effects).take k := by
  intro run run' unlimited
  have hout : (⟨out, err⟩ : Streams).out = (⟨out, err'⟩ : Streams).out := rfl
  have halike : run.Alike run' := m.processLine_alike hout line s
  have hwhole : reportOutput unlimited.effects = reportText unlimited.effects :=
    (m.processLine_reported line s (Or.inl rfl)).accepted.trans
      (congrArg Written.accepted (OutStream.write_of_unlimited rfl _))
  refine ⟨halike, halike.output_eq, halike.filterMap_eq Effect.launch?_silenced,
    halike.filterMap_eq Effect.report?_silenced, hwhole, ?_⟩
  intro k limited
  let io : Streams := ⟨out, { err' with room := some k, later := [] }⟩
  have hlimited := m.processLine_reported line s (Or.inr rfl : io.err.Lasting)
  have hsame : (m.processLine line s io).Alike unlimited := by
    have hio : io.out = (⟨out, { err with room := none }⟩ : Streams).out := rfl
    exact m.processLine_alike hio line s
  have htext : reportText (m.processLine line s io).effects = reportText unlimited.effects := by
    rw [reportText, reports, hsame.filterMap_eq Effect.report?_silenced]
    rfl
  -- All reports come to one write, and that write keeps the first `k` bytes.
  rw [hwhole, ← htext]
  exact hlimited.accepted.trans (OutStream.accepted_write_of_limited rfl _)

/-- Room for the first report and a part of the second. -/
example :
    let s : Session := { processId := "7".toList, programName := "sh".toList }
    let run := processLine {} "x; y; exit".toList s { err := { room := some 34 } }
    reportOutput run.effects = Utf8.encode "sh: 1: x: command not found\nsh: 1:".toList ∧
      run.status = 127 := by
  decide +kernel

end Machine

end LineShell
