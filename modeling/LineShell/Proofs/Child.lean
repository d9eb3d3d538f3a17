import LineShell.Proofs.Environment
import LineShell.Proofs.Listing
import LineShell.Proofs.Steps

/-!
# What a child is given

A program gets the variables that `env` would list in its place, the words of its command, and
the current directory. The listing reads the variables as they stand, and what a child gets is
made of them by setting them one by one, so the two agree because names are unique.

* `Session.childBlock_perm`: a child gets the lines of the listing, in an order of its own.
* `FileTree.Passes`: what becomes of the words on the way, with `FileTree.run?_passes`.
* `Launch.Inherits`: all that a child is given.
* `Machine.launches_execute`: an argument vector starts at most one program.
* `Machine.launches_processLine`, `Machine.launches_loop`: the programs of a line and of a loop
  are those of its steps.
* `Machine.children_inherit`: all of this, with what `env` prints.
-/

namespace LineShell

/-! ## Variables -/

theorem Environment.block_perm (env : Environment) : env.block.Perm env.listing :=
  (List.mergeSort_perm env.entries _).map entryText

theorem Session.childBlock_perm (s : Session) : s.childBlock.Perm s.environment.listing := by
  have hsame : Environment.ofPairs s.environment.entries = s.environment :=
    Environment.ext (Environment.entries_ofPairs s.environment.nodup)
  rw [childBlock, hsame]
  exact s.environment.block_perm

/-! ## Words -/

namespace FileTree

/-- What arrives of the arguments that are handed over with a path. -/
inductive Passes (tree : FileTree) (here : Location) (path : Path) (arguments : List Bytes) :
    List Bytes → Prop
  /-- A program gets them as they are. -/
  | program {location : Location} {mode : Nat} {program : Program}
      (h : tree.startableAt? here path = some (location, .program mode program)) :
      Passes tree here path arguments arguments
  /-- What is run in place of a file gets the path of the file instead of the first one. -/
  | file {location : Location} {mode : Nat} {content : Bytes}
      (h : tree.startableAt? here path = some (location, .file mode content))
      (front : List Bytes) :
      Passes tree here path arguments (front ++ path :: arguments.tail)

theorem Passes.eq_of_program {tree : FileTree} {here : Location} {path : Path}
    {arguments arrived : List Bytes} (h : tree.Passes here path arguments arrived)
    {location : Location} {mode : Nat} {program : Program}
    (hprogram : tree.startableAt? here path = some (location, .program mode program)) :
    arrived = arguments := by
  cases h with
  | program _ => rfl
  | file hfile _ =>
    rw [hprogram] at hfile
    cases hfile

theorem run?_passes {tree : FileTree} {here : Location} {fits : List Bytes → Bool} {others : Nat}
    {path : Path} {arguments : List Bytes} {location : Location} {program : Program}
    {arrived : List Bytes}
    (h : tree.run? here fits others path arguments = some (location, program, arrived)) :
    tree.Passes here path arguments arrived := by
  fun_induction tree.run? here fits others path arguments with
  | case1 => cases h
  | case2 others path arguments _ found mode _ hfound =>
    cases h
    exact .program hfound
  | case3 path arguments _ found mode content hfound others line hline ih =>
    -- What the line puts in front stays there, whatever its own path leads to.
    cases ih h with
    | program _ => exact .file hfound (line.path :: line.argument.toList)
    | file _ front =>
      have hfront : front ++ line.path :: (line.argument.toList ++ path :: arguments.tail) =
          (front ++ line.path :: line.argument.toList) ++ path :: arguments.tail := by
        rw [List.append_assoc, List.cons_append]
      exact hfront ▸ .file hfound _
  | case4 => cases h
  | case5 => cases h

end FileTree

/-! ## Launches -/

/-- What a program is given that an argument vector starts for a session. -/
structure Launch.Inherits (launch : Launch) (tree : FileTree) (s : Session) (argv : List Text) :
    Prop where
  /-- The listed variables, each as often as it is listed. -/
  block : launch.block.Perm s.environment.listing
  /-- The current directory. -/
  directory : tree.stat? .root s.directory = .ok launch.directory
  /-- The whole vector, the name as it was typed, is handed over with the file that was found, and
  a program gets it as it is. -/
  arguments : ∃ name path program, argv.head? = some name ∧
    s.findCommand tree name = .executable path ∧
    tree.executed? launch.directory path (argv.map Utf8.encode) (launch.block.map Utf8.encode) =
      some (launch.program, program, launch.arguments) ∧
    tree.Passes launch.directory path (argv.map Utf8.encode) launch.arguments ∧
    ∀ location mode program,
      tree.startableAt? launch.directory path = some (location, .program mode program) →
        launch.arguments = argv.map Utf8.encode

theorem Session.inherits_of_start? {s : Session} {tree : FileTree} {name : Text}
    {path : Path} {args : List Text} {launch : Launch} {outcome : Outcome}
    (hfound : s.findCommand tree name = .executable path)
    (h : s.start? tree path (name :: args) = some (launch, outcome)) :
    launch.Inherits tree s (name :: args) := by
  unfold start? at h
  split at h
  · cases h
  · rename_i directory hdirectory
    split at h
    · cases h
    · split at h
      · cases h
      · obtain ⟨⟨location, program, arguments⟩, hexecuted, hlaunch⟩ := Option.map_eq_some_iff.mp h
        cases hlaunch
        exact
          { block := s.childBlock_perm
            directory := hdirectory
            arguments :=
              ⟨name, path, program, rfl, hfound, hexecuted, FileTree.run?_passes hexecuted,
                fun _ _ _ => (FileTree.run?_passes hexecuted).eq_of_program⟩ }

namespace Machine

variable {m : Machine}

theorem launches_runRegistered (handler : Handler) (args : List Text) (s : Session)
    (io : Streams) : launches (m.runRegistered handler args s io).effects = [] := by
  rw [runRegistered]
  cases handler args with
  | error error => rfl
  | ok command =>
    dsimp only
    cases (command m.tree s io.out).result with
    | ok status => rfl
    | error error => rfl

theorem launches_runProgram (m : Machine) (name : Text) (args : List Text) (s : Session)
    (io : Streams) :
    launches (m.runProgram name args s io).effects = [] ∨
      ∃ launch, launches (m.runProgram name args s io).effects = [launch] ∧
        launch.Inherits m.tree s (name :: args) := by
  apply m.runProgram_cases (P := fun run => launches run.effects = [] ∨
    ∃ launch, launches run.effects = [launch] ∧ launch.Inherits m.tree s (name :: args))
  case notFound => exact fun _ => Or.inl rfl
  case notExecutable => exact fun _ _ => Or.inl rfl
  case stuck => exact fun _ _ _ _ => Or.inl rfl
  case refused => exact fun _ _ _ _ => Or.inl rfl
  case started =>
    intro path launch outcome hfound _ hstart
    exact Or.inr ⟨launch, rfl, Session.inherits_of_start? hfound hstart⟩

/-- An argument vector starts nothing, or one program. -/
theorem launches_execute (m : Machine) (argv : List Text) (s : Session) (io : Streams) :
    launches (m.execute argv s io).effects = [] ∨
      ∃ launch, launches (m.execute argv s io).effects = [launch] ∧
        launch.Inherits m.tree s argv := by
  cases argv with
  | nil => exact Or.inl rfl
  | cons name args =>
    rw [execute]
    cases m.registry.get? name with
    | some handler => exact Or.inl (launches_runRegistered handler args s io)
    | none => exact m.launches_runProgram name args s io

/-- The programs that steps start, in order. -/
def stepLaunches (m : Machine) (steps : List Step) : List Launch :=
  steps.flatMap (fun step => launches (m.runStep step).effects)

theorem launches_processLine (line : Text) (s : Session) (io : Streams) :
    launches (m.processLine line s io).effects = m.stepLaunches (m.lineSteps line s io) := by
  apply m.lineSteps_cases (P := fun steps run => launches run.effects = m.stepLaunches steps)
  case comment => rfl
  case refused => exact fun _ => rfl
  case chain =>
    intro chain
    rw [Run.counted, m.runChain_effects chain s io, launches, List.filterMap_flatMap]
    rfl

theorem launches_loop (interrupted : Bool) (events : List Event) (s : Session) (io : Streams) :
    launches (m.loop interrupted events s io).effects =
      m.stepLaunches (m.loopSteps events s io) := by
  apply m.loop_of_lines (P := fun _ _ steps run => launches run.effects = m.stepLaunches steps)
  case stopped => exact fun _ _ _ _ => rfl
  case line =>
    intro text s io steps rest ih
    rw [LoopRun.after, launches_append, launches_processLine, ih, stepLaunches, stepLaunches,
      stepLaunches, List.flatMap_append]

/-- **A child is given what `env` would list.** Whatever a session has been through, an argument
vector starts at most one program, which gets each line of the listing once and nothing else, and
the current directory. The vector is handed over with the file that was found: if this is a
program, it gets the vector itself, and if it names another file in its first line, what is run in
its place gets the path of the file and the words behind the name. The programs of a line and of a
loop are those of their steps, and each step starts from what the one before it left, so a change of
a variable or of the directory is seen by all later programs of the same chain. -/
theorem children_inherit (henv : m.registry.get? Builtin.env.name = some Builtin.env.handler) :
    (∀ s args (io : Streams), io.out.room = none →
      output (m.execute (Builtin.env.name :: args) s io).effects =
        Utf8.encode (Text.ofLines s.environment.listing)) ∧
    (∀ argv s io, launches (m.execute argv s io).effects = [] ∨
      ∃ launch, launches (m.execute argv s io).effects = [launch] ∧
        launch.Inherits m.tree s argv) ∧
    ∀ s io,
      (∀ line, m.Linked s (m.lineSteps line s io) (m.processLine line s io).session ∧
        launches (m.processLine line s io).effects = m.stepLaunches (m.lineSteps line s io)) ∧
      ∀ interrupted events,
        m.Linked s (m.loopSteps events s io) (m.loop interrupted events s io).session ∧
        launches (m.loop interrupted events s io).effects =
          m.stepLaunches (m.loopSteps events s io) := by
  refine ⟨fun s args io => output_env henv args s, m.launches_execute, fun s io => ⟨?_, ?_⟩⟩
  · intro line
    exact ⟨lineSteps_linked line s io, launches_processLine line s io⟩
  · intro interrupted events
    exact ⟨loopSteps_linked interrupted events s io, launches_loop interrupted events s io⟩

/-- A variable that was given twice, one that is set and three that are taken away, a directory
that was changed, and a file that names another program in its first line. -/
theorem children_inherit_interpreter :
    let m : Machine :=
      { tree :=
          ⟨[(["bin".toList].map Utf8.encode, .directory),
            (["d".toList].map Utf8.encode, .directory),
            (["p".toList, "bin".toList].map Utf8.encode, .program 0o755 (fun _ => {})),
            (["f".toList, "d".toList].map Utf8.encode,
              .file 0o755 (Utf8.encode "#!/bin/p -x\n".toList))]⟩ }
    let s : Session :=
      { environment := .ofPairs [("A".toList, "1".toList), ("A".toList, "2=3".toList)]
        processId := "7".toList
        programName := "sh".toList }
    let line := "cd d; setenv B $A; unsetenv A; unsetenv PWD; unsetenv OLDPWD".toList
    let t := (m.processLine line s {}).session
    let argv := ["./f".toList, "q".toList, "r".toList]
    let launch : Launch :=
      { program := ["p".toList, "bin".toList].map Utf8.encode
        arguments :=
          ["/bin/p".toList, "-x".toList, "/d/./f".toList, "q".toList, "r".toList].map Utf8.encode
        block := ["B=2=3".toList]
        directory := ["d".toList].map Utf8.encode }
    launches (m.execute argv t {}).effects = [launch] ∧ launch.Inherits m.tree t argv ∧
      output (m.execute ["env".toList] t {}).effects = Utf8.encode "B=2=3\n".toList := by
  intro m s line t argv launch
  have hlaunch : launches (m.execute argv t {}).effects = [launch] := by decide +kernel
  obtain ⟨henv, hexecute, -⟩ := children_inherit (m := m) rfl
  refine ⟨hlaunch, ?_, (henv t [] {} rfl).trans (by decide +kernel)⟩
  rcases hexecute argv t {} with hnone | ⟨other, hother, hinherits⟩
  · rw [hlaunch] at hnone
    cases hnone
  · rw [hlaunch] at hother
    cases hother
    exact hinherits

end Machine

end LineShell
