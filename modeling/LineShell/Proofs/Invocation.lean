import LineShell.CommandLine.Invocation
import LineShell.Proofs.Environment
import LineShell.Proofs.LineReading
import LineShell.Proofs.Source
import LineShell.Proofs.StatusRange
import LineShell.Proofs.Trace

/-!
# Where commands come from

Commands are given as a text among the arguments, in a script, or on the standard input. The
three are read into the same events, so they lead to the same run, and to the same trace.

* `readLines_encode`: the lines of an input that is a text are those of the text.
* `Invocation.Gives`: the arguments and what is around them give a text as the commands.
* `Invocation.textRun`, `Invocation.textActs`: the loop over the lines of a text and the trace of
  the program around it.
* `Invocation.run_of_gives`, `Invocation.main_of_gives`: what a run, and the whole program, come to
  when a text is given. `Invocation.run_of_error` is the run in which a variable is no text.
* `Invocation.commands_agree`: the run of a text does not depend on the way in which it is given.
-/

namespace LineShell

/-! ## The lines of a text -/

theorem readLines_encode (text : Text) :
    readLines (Utf8.encode text) = cutLines '\n' '\r' text := by
  rw [readLines_eq, Utf8.decode_encode]

/-- The events of a source that holds a text. -/
def textEvents (text : Text) : List Event := (cutLines '\n' '\r' text).map .line

theorem inputEvents_encode (text : Text) : inputEvents (Utf8.encode text) = textEvents text := by
  rw [inputEvents, readLines_encode, textEvents]

theorem sourceFailure?_textEvents (text : Text) : sourceFailure? (textEvents text) = none := by
  rw [textEvents]
  induction cutLines '\n' '\r' text with
  | nil => rfl
  | cons line later ih => rw [List.map_cons, sourceFailure?_line, ih]

theorem Machine.exists_textResult {m : Machine} (hm : m.registry = .builtins) (text : Text)
    {s : Session} (hs : s.InRange) (io : Streams) :
    ∃ status, (m.loop false (textEvents text) s io).result = .ok status ∧ status.InRange := by
  obtain ⟨count, htakes⟩ := m.exists_takes false (textEvents text) s io
  have hresult := htakes.result
  rw [sourceFailure?_textEvents, Session.loopResult_none, ← htakes.session] at hresult
  have hsession := (Machine.keeps_inRange hm).loop false (textEvents text) io hs
  exact ⟨_, hresult, hsession.exitStatus⟩

namespace Invocation

variable {inv : Invocation} {tree : FileTree} {text : Text} {arguments : Arguments}

/-! ## Ways to give commands -/

/-- The path leads to a file that holds the text and that its owner may read. -/
def NamesScript (inv : Invocation) (tree : FileTree) (path text : Text) : Prop :=
  ∃ location mode,
    tree.stat? (Path.location (inv.currentDirectory tree)) (Utf8.encode path) = .ok location ∧
    tree.node? location = some (.file mode (Utf8.encode text)) ∧ mode &&& 0o400 ≠ 0

/-- The text is given as the commands. A text among the arguments counts whether or not a script is
named, and the standard input counts if there is neither. -/
inductive Gives (inv : Invocation) (tree : FileTree) (text : Text) (arguments : Arguments) : Prop
  | command (hcommand : arguments.command = some text)
  | script {path : Text} (hcommand : arguments.command = none)
      (hscript : arguments.script = some path) (hnames : inv.NamesScript tree path text)
  | input (hcommand : arguments.command = none) (hscript : arguments.script = none)
      (hinput : inv.input = Utf8.encode text)

theorem NamesScript.scriptEvents_eq {path : Text} (h : inv.NamesScript tree path text) :
    inv.scriptEvents tree path = .ok (textEvents text) := by
  obtain ⟨location, mode, hlocation, hnode, hmode⟩ := h
  have hreads : (Node.file mode (Utf8.encode text)).ownerReads = true := by
    simpa [Node.ownerReads, Node.isRegular, Node.mode] using hmode
  simp only [scriptEvents, hlocation, hnode, hreads, if_true, Node.content, inputEvents_encode]

theorem Gives.events_eq (h : inv.Gives tree text arguments) :
    inv.events tree arguments = .ok (textEvents text) := by
  rw [events]
  cases h with
  | command hcommand => rw [hcommand, ← inputEvents_encode]
  | script hcommand hscript hnames => rw [hcommand, hscript, ← hnames.scriptEvents_eq]
  | input hcommand hscript hinput => rw [hcommand, hscript, hinput, ← inputEvents_encode]

/-! ## Runs of a text -/

theorem fresh_inRange (inv : Invocation) (tree : FileTree) (environment : Environment) :
    (inv.fresh tree environment).InRange :=
  ⟨(by decide : Status.InRange 0), fun _ h => nomatch h⟩

/-- The loop over the lines of a text. -/
def textRun (tree : FileTree) (s : Session) (text : Text) : LoopRun :=
  Machine.loop { tree := tree } false (textEvents text) s {}

/-- The trace of a run of a text. -/
def textActs (host : Host) (tree : FileTree) (s : Session) (text : Text) : List Act :=
  host.opening ++ .logged (.starting false) ::
    Machine.loopActs { tree := tree } false (textEvents text) s {}

variable {host : Host} {s : Session} {status : Status}

theorem effectsOf_textActs (host : Host) (tree : FileTree) (s : Session) (text : Text) :
    effectsOf (textActs host tree s text) = (textRun tree s text).effects := by
  have hopening : effectsOf host.opening = [] := by
    rw [Host.opening]
    cases host.interruptProblem <;> rfl
  rw [textActs, effectsOf_append, hopening, List.nil_append, effectsOf_logged,
    Machine.effectsOf_loopActs, textRun]

theorem run_of_gives (h : inv.Gives tree text arguments) (hsession : inv.session tree = .ok s)
    (hstatus : (textRun tree s text).result = .ok status) :
    inv.run host tree arguments = host.exit status (textActs host tree s text) := by
  rw [textRun] at hstatus
  rw [run, hsession]
  dsimp only
  rw [h.events_eq]
  dsimp only
  rw [hstatus, textActs]

theorem run_of_error {bytes : Bytes} (h : inv.session tree = .error bytes) (host : Host)
    (arguments : Arguments) :
    inv.run host tree arguments = { status := brokenStatus, err := host.brokenText bytes } := by
  rw [run, h]

/-- Whatever the frontend makes of the arguments and of the variables, as long as it comes to a
text and to the log of the host. -/
theorem main_of_gives {frontend : Frontend} {notices : Bytes}
    (hread : frontend.read inv.name inv.args = .ok arguments)
    (hlog : frontend.setUp inv.block arguments.logLevel = .ready notices host.subscriber)
    (h : inv.Gives tree text arguments) (hsession : inv.session tree = .ok s)
    (hstatus : (textRun tree s text).result = .ok status) :
    inv.main frontend host tree =
      { host.exit status (textActs host tree s text) with
        err := notices ++ (host.exit status (textActs host tree s text)).err } := by
  rw [main, hread]
  dsimp only
  rw [hlog]
  dsimp only
  rw [run_of_gives h hsession hstatus]

/-- **It makes no difference where commands come from.** If all variables are texts, there is one
loop over the lines of the commands, which ends with a status in range. Whether the commands are
among the arguments, with a script named or not, or are held by a script, or are the standard input,
a run prints what that loop prints and exits with its status, and its error stream is that of one
trace, for whatever writes the log. If nothing is written of the log, that is the error stream
of the loop. The program adds what its frontend has to say. If a variable is no text, all runs break
off in the same way. -/
theorem commands_agree (inv : Invocation) (tree : FileTree) (text : Text) :
    (Environment.IsTextBlock inv.block → ∃ s status,
      inv.session tree = .ok s ∧ (textRun tree s text).result = .ok status ∧ status.InRange ∧
      ∀ host : Host, ∃ exit : Exit,
        exit.status = status ∧ exit.out = output (textRun tree s text).effects ∧
        exit.err = errorTrace host.subscriber [] (textActs host tree s text) ∧
        ((∀ past event, host.subscriber past event = []) →
          exit.err = errorOutput (textRun tree s text).effects) ∧
        ∀ args input arguments,
          Gives { inv with args := args, input := input } tree text arguments →
            run { inv with args := args, input := input } host tree arguments = exit ∧
            ∀ frontend notices, frontend.read inv.name args = .ok arguments →
              frontend.setUp inv.block arguments.logLevel = .ready notices host.subscriber →
                main { inv with args := args, input := input } frontend host tree =
                  { exit with err := notices ++ exit.err }) ∧
    (¬ Environment.IsTextBlock inv.block → ∃ bytes, ∀ host args input arguments,
      run { inv with args := args, input := input } host tree arguments =
        { status := brokenStatus, err := host.brokenText bytes }) := by
  constructor
  · intro hblock
    obtain ⟨environment, henvironment⟩ := Environment.exists_ofBlock_iff.mpr hblock
    let s := inv.fresh tree environment
    have hsession : inv.session tree = .ok s := session_of_ok henvironment tree
    obtain ⟨status, hstatus, hrange⟩ := Machine.exists_textResult (m := { tree := tree }) rfl text
      (inv.fresh_inRange tree environment) {}
    refine ⟨s, status, hsession, hstatus, hrange, ?_⟩
    intro host
    refine ⟨host.exit status (textActs host tree s text), rfl, ?_, rfl, ?_, ?_⟩
    · exact congrArg output (effectsOf_textActs host tree s text)
    · intro hsilent
      exact (errorTrace_of_silent hsilent [] _).trans
        (congrArg errorOutput (effectsOf_textActs host tree s text))
    · intro args input arguments h
      refine ⟨run_of_gives h hsession hstatus, ?_⟩
      intro frontend notices hread hlog
      exact main_of_gives hread hlog h hsession hstatus
  · intro hblock
    cases henvironment : Environment.ofBlock inv.block with
    | ok environment =>
      exact absurd (Environment.exists_ofBlock_iff.mp ⟨environment, henvironment⟩) hblock
    | error bytes =>
      refine ⟨bytes, ?_⟩
      intro host args input arguments
      have hsession : session { inv with args := args, input := input } tree = .error bytes :=
        session_of_error henvironment tree
      exact run_of_error hsession host arguments

/-- A text with both line endings, a comment, a refused line and a line behind the exit, given in
each of the ways, with a log that is written and without one. In the end a variable is no text. -/
theorem commands_agree_exit :
    let text := "env\r\n# env\n;\nenv && exit 3; env\nenv".toList
    let tree : FileTree := ⟨[([Utf8.encode "s".toList], .file 0o644 (Utf8.encode text))]⟩
    let inv : Invocation :=
      { name := "sh".toList
        block := [Utf8.encode "RUST_LOG=debug".toList]
        processId := "7".toList }
    let numbered : Subscriber := fun past event =>
      Utf8.encode (Text.ofLines [(toString past.length).toList ++ ' ' :: event.message])
    let host : Host := { subscriber := numbered, brokenText := fun bytes => bytes }
    let read : List Text → Arguments
      | ['-', 'c'] :: text :: others => { command := some text, script := others.head? }
      | others => { script := others.head? }
    let frontend : Frontend :=
      { read := fun _ args => .ok (read args), setUp := fun _ _ => .ready [] host.subscriber }
    let exit : Exit :=
      { status := 3
        out := Utf8.encode "RUST_LOG=debug\nPWD=/\nRUST_LOG=debug\nPWD=/\n".toList
        err := Utf8.encode ("0 starting\n1 processing line\n" ++
          "sh: 2: Syntax error near unexpected token ';'\n2 processing line\n").toList }
    let quiet : Host := { host with subscriber := .silent }
    main { inv with args := ["-c".toList, text] } frontend host tree = exit ∧
      main { inv with args := ["-c".toList, text, "none".toList] } frontend host tree = exit ∧
      main { inv with args := ["s".toList] } frontend host tree = exit ∧
      main { inv with input := Utf8.encode text } frontend host tree = exit ∧
      (∃ s, inv.session tree = .ok s ∧
        (run inv quiet tree { command := some text }).err =
          errorOutput (textRun tree s text).effects) ∧
      ∃ bytes, run { inv with block := [[0x41, 0x3D, 0xFF]] } host tree {} =
        { status := 101, err := bytes } := by
  intro text tree inv numbered host read frontend exit quiet
  have hnames : NamesScript { inv with args := ["s".toList] } tree "s".toList text :=
    ⟨[Utf8.encode "s".toList], 0o644, rfl, rfl, by decide⟩
  have hblock : Environment.IsTextBlock inv.block := by decide +kernel
  obtain ⟨s, status, hsession, -, -, hruns⟩ := (commands_agree inv tree text).1 hblock
  obtain ⟨logged, -, -, -, -, hways⟩ := hruns host
  obtain ⟨silent, -, -, -, herr, hquiet⟩ := hruns quiet
  have hexit : main { inv with input := Utf8.encode text } frontend host tree = exit := by
    decide +kernel
  have hinput := (hways [] (Utf8.encode text) {} (.input rfl rfl rfl)).2 frontend [] rfl rfl
  have hlogged : { logged with err := [] ++ logged.err } = exit := hinput.symm.trans hexit
  have hbroken : ¬ Environment.IsTextBlock [[0x41, 0x3D, 0xFF]] := by decide +kernel
  refine ⟨?_, ?_, ?_, hexit, ⟨s, hsession, ?_⟩, ?_⟩
  · have hcommand := hways ["-c".toList, text] [] (read ["-c".toList, text]) (.command rfl)
    exact (hcommand.2 frontend [] rfl rfl).trans hlogged
  · let args := ["-c".toList, text, "none".toList]
    have hcommand := hways args [] (read args) (.command rfl)
    exact (hcommand.2 frontend [] rfl rfl).trans hlogged
  · have hscript := hways ["s".toList] [] (read ["s".toList]) (.script rfl rfl hnames)
    exact (hscript.2 frontend [] rfl rfl).trans hlogged
  · have hcommand := hquiet [] [] { command := some text } (.command rfl)
    rw [← herr fun _ _ => rfl]
    exact congrArg Exit.err hcommand.1
  · obtain ⟨bytes, hall⟩ :=
      (commands_agree { inv with block := [[0x41, 0x3D, 0xFF]] } tree text).2 hbroken
    exact ⟨bytes, hall host [] [] {}⟩

/-- The loop ends with 3, and the exit can be another one for all that: a variable is no text, or
there is no filter for what a variable says. If the lines of the log carry the time, the error
streams of two runs differ. -/
theorem commands_agree_not_always :
    let text := "exit 3".toList
    let arguments : Arguments := { command := some text }
    let s : Session := { processId := "7".toList, programName := "sh".toList }
    let inv : Invocation := { name := "sh".toList, input := Utf8.encode text }
    let unread : Invocation := { inv with block := [[0x41, 0x3D, 0xFF]] }
    let verbose : Invocation := { inv with block := [Utf8.encode "RUST_LOG=debug".toList] }
    let refused : Invocation := { inv with block := [Utf8.encode "RUST_LOG=\u00A0a=info".toList] }
    let stamped (time : String) : Host := { subscriber := fun _ _ => Utf8.encode time.toList }
    let frontend : Frontend :=
      { read := fun _ _ => .ok arguments
        setUp := fun block _ =>
          if block = refused.block then .broken [] else .ready [] .silent }
    (textRun {} s text).result = .ok 3 ∧
      (unread.run {} {} arguments).status = 101 ∧ (unread.run {} {} {}).status = 101 ∧
      (refused.main frontend {} {}).status = 101 ∧
      (verbose.run (stamped "07:00") {} arguments).err ≠
        (verbose.run (stamped "07:01") {} {}).err := by
  intro text arguments s inv unread verbose refused stamped frontend
  exact ⟨by rfl, by decide +kernel, by decide +kernel, by decide +kernel, by decide +kernel⟩

end Invocation

end LineShell
