import LineShell.Proofs.Chain
import LineShell.Proofs.Expression

/-!
# Short circuits

A chain runs from left to right with one running status. This module states the rule by which
the next link is found and proves it of `Machine.runChain`.

* `Machine.ShortCircuit`: the links that run are listed with their runs, each of which starts
  from the session and the streams that the one before it left.
* `exists_shortCircuit`, `ShortCircuit.unique`: the rule lists one way to run a chain.
* `ShortCircuit.runChain_eq`: a chain leaves what the last listed run leaves, and its effects
  are those of all listed runs in order.
* `processLine_shortCircuit`: a line runs by this rule, and comes to the value of its tree.
-/

namespace LineShell

/-! ## The next link -/

/-- The condition under which a link runs that is not the first one of its chain. -/
def Separator.Met (last : Status) : Separator → Prop
  | first => False
  | sequential => True
  | and => last = 0
  | or => last ≠ 0

instance (last : Status) (separator : Separator) : Decidable (separator.Met last) := by
  cases separator <;> unfold Separator.Met <;> infer_instance

theorem Separator.admits_iff_met {separator : Separator} (h : separator ≠ first) (last : Status) :
    separator.admits last = true ↔ separator.Met last := by
  cases separator with
  | first => exact absurd rfl h
  | sequential => simp [admits, Met]
  | and => simp [admits, Met]
  | or => simp [admits, Met]

/-- The links of a chain that run, each with its run. The first link of the chain runs. -/
inductive Machine.ShortCircuit (m : Machine) :
    List Link → Session → Streams → List (Link × Run) → Prop
  /-- After a request to exit nothing more runs. -/
  | exit {link : Link} {later : List Link} {s : Session} {io : Streams}
      (hexit : (m.runLink link s io).session.shouldExit = true) :
      ShortCircuit m (link :: later) s io [(link, m.runLink link s io)]
  /-- Nor does anything run if no later condition is met. -/
  | last {link : Link} {later : List Link} {s : Session} {io : Streams}
      (hexit : (m.runLink link s io).session.shouldExit = false)
      (hlater : ∀ other ∈ later,
        ¬ other.separator.Met (m.runLink link s io).session.lastStatus) :
      ShortCircuit m (link :: later) s io [(link, m.runLink link s io)]
  /-- Otherwise the first later link whose condition is met runs, from the session and the
  streams that this link left. -/
  | next {link next : Link} {skipped later : List Link} {s : Session} {io : Streams}
      {ran : List (Link × Run)} (hexit : (m.runLink link s io).session.shouldExit = false)
      (hskipped : ∀ other ∈ skipped,
        ¬ other.separator.Met (m.runLink link s io).session.lastStatus)
      (hnext : next.separator.Met (m.runLink link s io).session.lastStatus)
      (hrest : ShortCircuit m (next :: later) (m.runLink link s io).session
        (m.runLink link s io).streams ran) :
      ShortCircuit m (link :: (skipped ++ next :: later)) s io ((link, m.runLink link s io) :: ran)

namespace Machine

theorem runChain_append_of_not_met (m : Machine) {skipped : List Link} {s : Session}
    (hfirst : ∀ link ∈ skipped, link.separator ≠ .first)
    (hskipped : ∀ link ∈ skipped, ¬ link.separator.Met s.lastStatus) (later : List Link)
    (io : Streams) : m.runChain (skipped ++ later) s io = m.runChain later s io := by
  induction skipped with
  | nil => rfl
  | cons link skipped ih =>
    obtain ⟨hlink, hfirst⟩ := List.forall_mem_cons.mp hfirst
    obtain ⟨hmet, hskipped⟩ := List.forall_mem_cons.mp hskipped
    rw [← Separator.admits_iff_met hlink, Bool.not_eq_true] at hmet
    rw [List.cons_append, runChain_skip m hmet, ih hfirst hskipped]

/-- Either no condition is met in a list of links, or there is a first link whose is. -/
theorem exists_next (last : Status) (links : List Link) :
    (∀ link ∈ links, ¬ link.separator.Met last) ∨
      ∃ skipped next later, links = skipped ++ next :: later ∧
        (∀ link ∈ skipped, ¬ link.separator.Met last) ∧ next.separator.Met last := by
  induction links with
  | nil => exact Or.inl (by simp)
  | cons link links ih =>
    by_cases hlink : link.separator.Met last
    · exact Or.inr ⟨[], link, links, rfl, by simp, hlink⟩
    rcases ih with hnone | ⟨skipped, next, later, rfl, hskipped, hnext⟩
    · exact Or.inl (List.forall_mem_cons.mpr ⟨hlink, hnone⟩)
    · exact Or.inr ⟨link :: skipped, next, later, rfl,
        List.forall_mem_cons.mpr ⟨hlink, hskipped⟩, hnext⟩

/-- Only one link of a list is the first whose condition is met. -/
theorem next_unique {last : Status} {skipped skipped' : List Link} {next next' : Link}
    {later later' : List Link} (hskipped : ∀ link ∈ skipped, ¬ link.separator.Met last)
    (hnext : next.separator.Met last) (hskipped' : ∀ link ∈ skipped', ¬ link.separator.Met last)
    (hnext' : next'.separator.Met last)
    (h : skipped ++ next :: later = skipped' ++ next' :: later') :
    next = next' ∧ later = later' := by
  induction skipped generalizing skipped' with
  | nil =>
    cases skipped' with
    | nil => exact List.cons.inj h
    | cons link skipped' =>
      obtain ⟨rfl, -⟩ := List.cons.inj h
      exact absurd hnext (hskipped' next List.mem_cons_self)
  | cons link skipped ih =>
    cases skipped' with
    | nil =>
      obtain ⟨rfl, -⟩ := List.cons.inj h
      exact absurd hnext' (hskipped link List.mem_cons_self)
    | cons link' skipped' =>
      obtain ⟨-, h⟩ := List.cons.inj h
      exact ih (List.forall_mem_cons.mp hskipped).2 (List.forall_mem_cons.mp hskipped').2 h

theorem exists_shortCircuit (m : Machine) (link : Link) (later : List Link) (s : Session)
    (io : Streams) : ∃ ran, m.ShortCircuit (link :: later) s io ran := by
  -- The induction is on the number of links that are left, since skipping takes several.
  induction hn : later.length using Nat.strongRecOn generalizing link later s io with
  | ind n ih =>
    cases hexit : (m.runLink link s io).session.shouldExit with
    | true => exact ⟨_, .exit hexit⟩
    | false =>
      rcases exists_next (m.runLink link s io).session.lastStatus later with
        hnone | ⟨skipped, next, rest, rfl, hskipped, hnext⟩
      · exact ⟨_, .last hexit hnone⟩
      · have hlt : rest.length < n := by
          rw [List.length_append, List.length_cons] at hn
          omega
        obtain ⟨ran, hran⟩ := ih rest.length hlt next rest _ _ rfl
        exact ⟨_, .next hexit hskipped hnext hran⟩

namespace ShortCircuit

variable {m : Machine} {chain : List Link} {s : Session} {io : Streams}
  {ran : List (Link × Run)}

theorem sublist (h : m.ShortCircuit chain s io ran) : (ran.map Prod.fst).Sublist chain := by
  induction h with
  | exit => exact List.Sublist.cons_cons _ (List.nil_sublist _)
  | last => exact List.Sublist.cons_cons _ (List.nil_sublist _)
  | next _ _ _ _ ih => exact (ih.trans (List.sublist_append_right _ _)).cons_cons _

theorem unique (h : m.ShortCircuit chain s io ran) {other : List (Link × Run)}
    (hother : m.ShortCircuit chain s io other) : other = ran := by
  induction h generalizing other with
  | exit hexit =>
    cases hother with
    | exit => rfl
    | last => rfl
    | next hgo => exact absurd hexit (Bool.eq_false_iff.mp hgo)
  | last hexit hlater =>
    cases hother with
    | exit => rfl
    | last => rfl
    | next _ _ hnext => exact absurd hnext (hlater _ (by simp))
  | next hexit hskipped hnext hrest ih =>
    generalize hchain : _ :: (_ ++ _ :: _) = whole at hother
    cases hother with
    | exit hstop =>
      obtain ⟨rfl, -⟩ := List.cons.inj hchain
      exact absurd hstop (Bool.eq_false_iff.mp hexit)
    | last _ hlater =>
      obtain ⟨rfl, rfl⟩ := List.cons.inj hchain
      exact absurd hnext (hlater _ (by simp))
    | next _ hskipped' hnext' hrest' =>
      obtain ⟨rfl, hlater⟩ := List.cons.inj hchain
      obtain ⟨rfl, rfl⟩ := next_unique hskipped hnext hskipped' hnext' hlater
      rw [ih hrest']

/-- What a chain comes to: the last listed run, with the effects of all listed runs. -/
theorem runChain_eq (h : m.ShortCircuit chain s io ran)
    (hhead : ∀ link ∈ chain.head?, link.separator.admits s.lastStatus = true)
    (htail : ∀ link ∈ chain.tail, link.separator ≠ .first) :
    ∃ last, ran.getLast? = some last ∧
      m.runChain chain s io =
        { last.2 with effects := ran.flatMap (fun step => step.2.effects) } := by
  induction h with
  | @exit link later s io hexit =>
    refine ⟨(link, m.runLink link s io), rfl, ?_⟩
    rw [runChain_cons m (hhead link rfl), Run.thenIf_of_shouldExit hexit, List.flatMap_singleton]
  | @last link later s io hexit hlater =>
    refine ⟨(link, m.runLink link s io), rfl, ?_⟩
    have hrest := runChain_append_of_not_met m htail hlater [] (m.runLink link s io).streams
    rw [List.append_nil, List.tail_cons] at hrest
    rw [runChain_cons m (hhead link rfl), Run.thenIf_true hexit, hrest, List.flatMap_singleton]
    exact Run.idle_after rfl
  | @next link next skipped later s io ran hexit hskipped hnext hrest ih =>
    obtain ⟨hfirst, hlater⟩ := List.forall_mem_append.mp htail
    obtain ⟨hseparator, hlater⟩ := List.forall_mem_cons.mp hlater
    have hadmits : ∀ other ∈ (next :: later).head?,
        other.separator.admits (m.runLink link s io).session.lastStatus = true := by
      rintro other ⟨⟩
      exact (Separator.admits_iff_met hseparator _).mpr hnext
    obtain ⟨last, hlast, heq⟩ := ih hadmits hlater
    refine ⟨last, ?_, ?_⟩
    · rw [List.getLast?_cons, hlast]
      rfl
    · rw [runChain_cons m (hhead link rfl), Run.thenIf_true hexit,
        runChain_append_of_not_met m hfirst hskipped, heq, List.flatMap_cons]
      rfl

end ShortCircuit

/-! ## Lines -/

/-- **A line runs from left to right.** The links that run are found one by one: after a
request to exit there are none left, and otherwise the next one is the first whose condition
is met by the status of the last one. Nothing else is listed, so a link that is skipped has no
part in the session, the streams or the effects. All of this is the value of the tree that
leans to the left, and the line is counted. -/
theorem processLine_shortCircuit (m : Machine) {line text : Text} (s : Session) (io : Streams)
    (hline : stripComment line = some text) (haccepted : syntaxError? text = none) :
    let chain := splitChain (s.expand text)
    (∃ ran last, m.ShortCircuit chain s io ran ∧
      (∀ other, m.ShortCircuit chain s io other → other = ran) ∧
      (ran.map Prod.fst).Sublist chain ∧ ran.getLast? = some last ∧
      m.processLine line s io =
        Run.counted { last.2 with effects := ran.flatMap (fun step => step.2.effects) }) ∧
    m.processLine line s io = (m.evaluate (.ofChain chain) s io).counted := by
  intro chain
  have hprocess : m.processLine line s io = (m.runChain chain s io).counted := by
    rw [processLine, hline]
    dsimp only
    rw [haccepted]
  obtain ⟨first, later, hchain, hlater⟩ := splitAfter_eq_cons .first (s.expand text)
  change chain = ⟨.first, first⟩ :: later at hchain
  rw [hprocess, hchain]
  constructor
  · have hhead : ∀ link ∈ (⟨.first, first⟩ :: later : List Link).head?,
        link.separator.admits s.lastStatus = true := by
      rintro link ⟨⟩
      rfl
    obtain ⟨ran, hran⟩ := exists_shortCircuit m ⟨.first, first⟩ later s io
    obtain ⟨last, hlast, heq⟩ := hran.runChain_eq hhead hlater
    exact ⟨ran, last, hran, fun other hother => hran.unique hother, hran.sublist, hlast,
      congrArg Run.counted heq⟩
  · rw [m.runChain_eq_evaluate first later s io]

/-- A probe that fails, a link that is skipped for it, and a request to exit. -/
theorem processLine_failing_probe :
    let m : Machine :=
      { registry := Registry.builtins.addProbes
          [⟨"a".toList, 1, none⟩, ⟨"b".toList, 0, none⟩, ⟨"c".toList, 0, none⟩] }
    let s : Session := { processId := "7".toList, programName := "sh".toList }
    let line := "a && b || c; exit 3; b".toList
    let chain := splitChain (s.expand line)
    let run := m.processLine line s {}
    (∃ ran last, m.ShortCircuit chain s {} ran ∧ ran.getLast? = some last ∧ last.2.status = 3) ∧
      run = (m.evaluate (.ofChain chain) s {}).counted ∧
      output run.effects = Utf8.encode "a\nc\n".toList := by
  intro m s line chain run
  have hline : stripComment line = some line := by decide
  have haccepted : syntaxError? line = none := by decide
  have hstatus : run.status = 3 := by decide +kernel
  obtain ⟨⟨ran, last, hran, -, -, hlast, heq⟩, hvalue⟩ :=
    processLine_shortCircuit m s {} hline haccepted
  exact ⟨⟨ran, last, hran, hlast, (congrArg Run.status heq).symm.trans hstatus⟩, hvalue,
    by decide +kernel⟩

end Machine

end LineShell
