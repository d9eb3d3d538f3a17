import LineShell.Proofs.Frame
import LineShell.Proofs.Respacing
import LineShell.Proofs.Rendering
import LineShell.Proofs.Substitution

/-!
# What a variable gives back

A value is stored by one line and read by another. The first one passes through the search for a
comment, the check, the expansion and the cut before `setenv` sees it, and the second one finds it
by the text behind a `$`. In between all sorts of lines may be processed.

* `Session.Gives`: a `$NAME` in a line is replaced by a value, wherever it stands.
* `LeftAlone`: lines that do not write a variable, one after another, as in a loop
  (`LeftAlone.loop`).
* `Machine.processLine_unwords`: a line of plain words runs as it is written.
* `Machine.setenv_gives`: what `setenv` stores is what `$NAME` gives back.
-/

namespace LineShell

/-! ## Reading -/

/-- Each `$NAME` in a line is replaced by this value, and the line is expanded around it. The name
must not go on behind it, and its `$` must not be the second one of a `$$`. -/
def Session.Gives (s : Session) (name value : Text) : Prop :=
  ∀ front rest : Text, EndsName rest →
    let line := front ++ '$' :: (name ++ rest)
    (∀ before : Text, front = before ++ ['$'] →
      Reference.processId.substitution s.valueOf before.byteSize ∉ substitutions s.valueOf line) →
    s.expand line = s.expand front ++ (value ++ s.expand rest) ∧
      ⟨front.byteSize, front.byteSize + Text.byteSize ('$' :: name), value⟩ ∈
        substitutions s.valueOf line

section

variable {name : Text} (hempty : name ≠ []) (hname : ∀ c ∈ name, isNameChar c = true)

include hempty hname

theorem Session.gives_of_get? (hzero : name ≠ ['0']) {s : Session} {value : Text}
    (h : (s.environment.get? name).getD [] = value) : s.Gives name value := by
  intro front rest hend line hdollar
  have hr : (Reference.named name).StandsBefore rest := .named hempty hname hzero hend
  have hpieces : pieces line = pieces front ++ .reference (.named name) :: pieces rest := by
    rcases pieces_append_dollar front (name ++ rest) with hcut | ⟨before, rfl, hcut⟩
    · exact hcut.trans (congrArg _ (pieces_reference hr))
    · refine absurd ?_ (hdollar before rfl)
      rw [substitutions, hcut, substitutionsFrom_append, flatMap_source_pieces, Nat.zero_add]
      exact List.mem_append_right _ List.mem_cons_self
  constructor
  · rw [expand, substitute, hpieces, List.flatMap_append, List.flatMap_cons, ← h]
    rfl
  · rw [substitutions, hpieces, substitutionsFrom_append, flatMap_source_pieces, Nat.zero_add, ← h]
    exact List.mem_append_right _ List.mem_cons_self

/-- A name is a word that stands for itself. -/
theorem plainWord_of_name : PlainWord name where
  nonempty := hempty
  unbroken := by
    intro c hc
    cases hblank : isBlank c with
    | false => rfl
    | true =>
      have hends := (endsReference_of_isBlank hblank).2.2
      rw [hname c hc] at hends
      cases hends
  unmarked := by
    rw [unmarked_iff]
    intro c hc
    cases hmark : Mark.ofChar? c with
    | none => rfl
    | some mark =>
      obtain rfl := Mark.ofChar?_eq_some_iff.mp hmark
      have hends := mark.endsReference.2.2
      rw [hname _ hc] at hends
      cases hends
  noReference := by
    intro hc
    cases hname '$' hc
  noComment := by
    intro hhead
    cases hname '#' (List.mem_of_mem_head? hhead)

end

/-! ## Lines in between -/

theorem Task.get?_sessionAfter {task : Task} {name : Text} (h : name ∉ task.written)
    (tree : FileTree) (s : Session) :
    (task.sessionAfter tree s).environment.get? name = s.environment.get? name := by
  have hwritten : ∀ other ∈ task.written, decide (other = name) = false := by
    intro other hother
    refine decide_eq_false ?_
    rintro rfl
    exact h hother
  exact Environment.get?_eq_of_restrict_eq (restrict_sessionAfter hwritten tree s)
    (decide_eq_true rfl)

/-- Lines lead from one session to another, and no step of them writes the variable. The file tree
and the streams may be others for each line. -/
inductive LeftAlone (name : Text) : Session → Session → Prop
  | refl (s : Session) : LeftAlone name s s
  | line {s t : Session} (h : LeftAlone name s t) {m : Machine} (hm : m.registry.IsDefault)
      (line : Text) (io : Streams)
      (hsteps : ∀ step ∈ m.lineSteps line t io, ∀ task ∈ m.performed? step,
        name ∉ task.written) :
      LeftAlone name s (m.processLine line t io).session

/-- A loop whose steps do not write the variable is such a sequence of lines. -/
theorem LeftAlone.loop {name : Text} {s t : Session} (h : LeftAlone name s t) {m : Machine}
    (hm : m.registry.IsDefault) (interrupted : Bool) {events : List Event} {io : Streams}
    (hsteps : ∀ step ∈ m.loopSteps events t io, ∀ task ∈ m.performed? step,
      name ∉ task.written) :
    LeftAlone name s (m.loop interrupted events t io).session := by
  revert hsteps h
  apply m.loop_of_lines (P := fun t _ steps run =>
    LeftAlone name s t → (∀ step ∈ steps, ∀ task ∈ m.performed? step, name ∉ task.written) →
      LeftAlone name s run.session)
  case stopped => exact fun _ _ _ _ h _ => h
  case line =>
    intro text t io steps rest ih h hsteps
    obtain ⟨hline, hlater⟩ := List.forall_mem_append.mp hsteps
    exact ih (h.line hm text io hline) hlater

theorem LeftAlone.get?_eq {name : Text} {s t : Session} (h : LeftAlone name s t) :
    t.environment.get? name = s.environment.get? name := by
  induction h with
  | refl => rfl
  | @line t _ m hm line io hsteps ih =>
    have hline : (m.processLine line t io).session.environment.get? name =
        t.environment.get? name := by
      refine Machine.view_processLine hm (fun u => u.environment.get? name) (fun _ _ _ => rfl) ?_
      intro step hstep task htask u
      exact Task.get?_sessionAfter (hsteps step hstep task htask) m.tree u
    exact hline.trans ih

/-! ## Storing -/

namespace Machine

theorem runChain_singleton (m : Machine) {link : Link} {s : Session}
    (h : link.separator.admits s.lastStatus = true) (io : Streams) :
    m.runChain [link] s io = m.runLink link s io := by
  rw [runChain_cons m h]
  cases hexit : (m.runLink link s io).session.shouldExit with
  | true => rw [Run.thenIf_of_shouldExit hexit]
  | false =>
    rw [Run.thenIf_true hexit]
    exact Run.idle_after rfl

/-- A line of words that stand for themselves runs these words. -/
theorem processLine_unwords (m : Machine) {argv : List Text} (hempty : argv ≠ [])
    (h : ∀ word ∈ argv, PlainWord word) (s : Session) (io : Streams) :
    m.processLine (unwords argv) s io = (m.execute argv s io).recorded.counted := by
  let call : Call := ⟨.first, argv⟩
  have hcall : call.Plain := ⟨hempty, h⟩
  have hchain : Renderable [call] := ⟨⟨rfl, hcall⟩, List.forall_mem_nil _⟩
  have hline : render [call] = unwords argv :=
    (render_cons_first rfl []).trans (List.append_nil _)
  have hcalls : calls (unwords argv) = [call] := hline ▸ hchain.calls_eq
  have hstrip : stripComment (unwords argv) = some (unwords argv) :=
    (uncommented_unwords h).stripComment_eq
  have hcheck : syntaxError? (unwords argv) = none := by
    apply syntaxError?_of_calls
    rw [hcalls]
    exact List.forall_mem_singleton.mpr hcall
  have hexpand : s.expand (unwords argv) = unwords argv :=
    substitute_eq_self s.valueOf hcall.noReference
  obtain ⟨link, hsplit, hlink⟩ := List.map_eq_singleton_iff.mp hcalls
  have hadmits : link.separator.admits s.lastStatus = true := by
    have hseparator : link.separator = .first := congrArg Call.separator hlink
    rw [hseparator]
    rfl
  have hwords : words link.text = argv := congrArg Call.argv hlink
  rw [processLine, hstrip]
  dsimp only
  rw [hcheck]
  dsimp only
  rw [hexpand, splitChain, hsplit, runChain_singleton m hadmits, runLink, hwords]

/-- A line that makes one task of a builtin command performs it. -/
theorem processLine_task {m : Machine} {builtin : Builtin} {args : List Text} {task : Task}
    (hget : m.registry.get? builtin.name = some builtin.handler)
    (hplain : ∀ word ∈ builtin.name :: args, PlainWord word)
    (htask : builtin.task? args = .ok task) (s : Session) (io : Streams) :
    let run := m.processLine (unwords (builtin.name :: args)) s io
    let status := (task.perform m.tree s io.out).status
    run.status = status ∧ run.session = ((task.sessionAfter m.tree s).record status).countLine := by
  intro run status
  have hrun : run = (m.runRegistered builtin.handler args s io).recorded.counted := by
    rw [← execute_registered hget args]
    exact m.processLine_unwords (List.cons_ne_nil _ _) hplain s io
  obtain ⟨hsession, hstatus⟩ := m.runBuiltin_of_ok htask s io
  rw [hrun]
  refine ⟨hstatus, ?_⟩
  rw [Run.counted, Run.recorded, hsession, hstatus]

/-- **What `setenv` stores is what `$NAME` gives back.** A line that sets a variable to a word that
stands for itself ends with the status 0, and in every session that later lines lead to, without
writing the variable, each `$NAME` is replaced by this word. After a line that removes the variable
it is replaced by nothing. -/
theorem setenv_gives {m : Machine} (hm : m.registry = .builtins) {name : Text}
    (hempty : name ≠ []) (hname : ∀ c ∈ name, isNameChar c = true) (hzero : name ≠ ['0'])
    (s : Session) (io : Streams) :
    (∀ value, PlainWord value →
      let run := m.processLine ("setenv ".toList ++ (name ++ ' ' :: value)) s io
      run.status = 0 ∧
        run.session =
          { s with
            environment := s.environment.set name value
            lastStatus := 0
            counter := s.counter + 1 } ∧
        ∀ t, LeftAlone name run.session t → t.Gives name value) ∧
    let run := m.processLine ("unsetenv ".toList ++ name) s io
    run.status = 0 ∧
      run.session =
        { s with
          environment := s.environment.erase name
          lastStatus := 0
          counter := s.counter + 1 } ∧
      ∀ t, LeftAlone name run.session t → t.Gives name [] := by
  have hword : PlainWord name := plainWord_of_name hempty hname
  constructor
  · intro value hvalue run
    have hequals : '=' ∉ name := by
      intro hc
      cases hname '=' hc
    have hget : m.registry.get? Builtin.setenv.name = some Builtin.setenv.handler := hm ▸ rfl
    have hplain : ∀ word ∈ [Builtin.setenv.name, name, value], PlainWord word := by
      refine List.forall_mem_cons.mpr ⟨by decide, ?_⟩
      exact List.forall_mem_cons.mpr ⟨hword, List.forall_mem_singleton.mpr hvalue⟩
    have htask : Builtin.setenv.task? [name, value] = .ok (.setVariable name value) :=
      if_pos ⟨hempty, hequals⟩
    obtain ⟨hstatus, hsession⟩ := processLine_task hget hplain htask s io
    have hline : unwords [Builtin.setenv.name, name, value] =
        "setenv ".toList ++ (name ++ ' ' :: value) := by
      rw [unwords_cons_cons, unwords_cons_cons, unwords_singleton]
      rfl
    rw [hline] at hstatus hsession
    refine ⟨hstatus, hsession, ?_⟩
    intro t ht
    refine Session.gives_of_get? hempty hname hzero ?_
    rw [ht.get?_eq, hsession]
    change ((s.environment.set name value).get? name).getD [] = value
    rw [Environment.get?_set, if_pos rfl, Option.getD_some]
  · intro run
    have hget : m.registry.get? Builtin.unsetenv.name = some Builtin.unsetenv.handler := hm ▸ rfl
    have hplain : ∀ word ∈ [Builtin.unsetenv.name, name], PlainWord word :=
      List.forall_mem_cons.mpr ⟨by decide, List.forall_mem_singleton.mpr hword⟩
    have htask : Builtin.unsetenv.task? [name] = .ok (.unsetVariable name) := rfl
    obtain ⟨hstatus, hsession⟩ := processLine_task hget hplain htask s io
    have hline : unwords [Builtin.unsetenv.name, name] = "unsetenv ".toList ++ name := by
      rw [unwords_cons_cons, unwords_singleton]
      rfl
    rw [hline] at hstatus hsession
    refine ⟨hstatus, hsession, ?_⟩
    intro t ht
    refine Session.gives_of_get? hempty hname hzero ?_
    rw [ht.get?_eq, hsession]
    change ((s.environment.erase name).get? name).getD [] = []
    rw [Environment.get?_erase, if_pos rfl, Option.getD_none]

/-- Later lines set a longer and a shorter name and fail to change the directory; the name is then
read behind `$$`, and once more behind a `$` of its own that is the second one of a `$$`. -/
theorem setenv_gives_dollars :
    let m : Machine := {}
    let s : Session := { processId := "7".toList, programName := "sh".toList }
    let run := m.processLine "setenv A_1 é#b".toList s {}
    let events := ["unsetenv A; setenv A_12 $A_1".toList, "cd d || env && setenv A x".toList]
    let t := (m.loop false (events.map .line) run.session {}).session
    let u := (m.processLine "unsetenv A_1".toList s {}).session
    m.registry = .builtins ∧ PlainWord "é#b".toList ∧ run.status = 0 ∧
      LeftAlone "A_1".toList run.session t ∧
      t.expand "$$$A_1 $A_12$$A_1".toList = "7é#b é#b7A_1".toList ∧
      u.expand "-$A_1-".toList = "--".toList := by
  intro m s run events t u
  have hm : m.registry = .builtins := rfl
  have hvalue : PlainWord "é#b".toList := by decide
  have hname : ∀ c ∈ "A_1".toList, isNameChar c = true := List.all_eq_true.mp rfl
  obtain ⟨hset, -, -, hunset⟩ := setenv_gives hm (by decide) hname (by decide) s {}
  obtain ⟨hstatus, -, hgives⟩ := hset "é#b".toList hvalue
  have ht : LeftAlone "A_1".toList run.session t := by
    refine (LeftAlone.refl _).loop ⟨[], rfl⟩ false ?_
    decide +kernel
  -- The first two `$` are read together, so the one behind them begins a reference.
  have hfront : ∀ before : Text, "$$".toList = before ++ ['$'] →
      Reference.processId.substitution t.valueOf before.byteSize ∉
        substitutions t.valueOf "$$$A_1 $A_12$$A_1".toList := by
    intro before hbefore
    obtain rfl : "$".toList = before := (List.append_inj' (hbefore : ['$'] ++ ['$'] = _) rfl).1
    decide +kernel
  have hnone : ∀ before : Text, "-".toList = before ++ ['$'] →
      Reference.processId.substitution u.valueOf before.byteSize ∉
        substitutions u.valueOf "-$A_1-".toList := by
    intro before hbefore
    have hlast := congrArg List.getLast? hbefore
    rw [List.getLast?_concat] at hlast
    cases hlast
  have hblank : EndsName " $A_12$$A_1".toList := by decide +kernel
  have hdash : EndsName "-".toList := by decide +kernel
  have hread := (hgives t ht "$$".toList _ hblank hfront).1
  have hunread := (hunset u (.refl u) "-".toList _ hdash hnone).1
  exact ⟨hm, hvalue, hstatus, ht, hread.trans (by decide +kernel),
    hunread.trans (by decide +kernel)⟩

end Machine

end LineShell
