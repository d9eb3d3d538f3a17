import LineShell.Interpreter.Loop
import LineShell.Proofs.Expression

/-!
# Invariants of sessions

What every link keeps is kept by every line, by every loop, and by any sequence of lines and
loops.

* `Machine.Keeps`: what is to be shown of a property for one machine. A link is one of the
  links of an accepted line, expanded in a session that has the property.
* `Keeps.runChain`, `Keeps.processLine`, `Keeps.loop`: the induction over a chain and over the
  events of a loop.
* `Reaches`: the sessions that lines and loops lead to, in any order and number;
  `Reaches.keeps` carries a property from the first session to all of them.
-/

namespace LineShell

structure Machine.Keeps (m : Machine) (P : Session → Prop) : Prop where
  /-- The status of a refused line is recorded. -/
  refused : ∀ s, P s → P (s.record 2)
  counted : ∀ s, P s → P s.countLine
  link : ∀ s line, P s → syntaxError? line = none → ∀ link ∈ splitChain (s.expand line),
    ∀ t io, P t → P (m.runLink link t io).session

namespace Machine.Keeps

variable {m : Machine} {P : Session → Prop}

theorem runChain {chain : List Link}
    (hlink : ∀ link ∈ chain, ∀ t io, P t → P (m.runLink link t io).session) {s : Session}
    (io : Streams) (hs : P s) : P (m.runChain chain s io).session := by
  refine m.runChain_of_links (P := fun s _ run => P s → P run.session) ?_ hlink ?_ s io hs
  · intro s io hs
    exact hs
  · intro s io run rest hrun hrest hs
    exact hrest (hrun hs)

theorem processLine (h : m.Keeps P) (line : Text) {s : Session} (io : Streams) (hs : P s) :
    P (m.processLine line s io).session := by
  apply m.processLine_cases (P := fun run => P run.session)
  case comment => exact hs
  case refused => exact fun _ => h.counted _ (h.refused s hs)
  case chain => exact fun text haccepted => h.counted _ (runChain (h.link s text hs haccepted) io hs)

theorem loop (h : m.Keeps P) (interrupted : Bool) (events : List Event) {s : Session}
    (io : Streams) (hs : P s) : P (m.loop interrupted events s io).session := by
  induction events generalizing interrupted s io with
  | nil => exact hs
  | cons event events ih =>
    unfold Machine.loop
    split
    · exact hs
    · cases event with
      | line text => exact ih false _ (h.processLine text io hs)
      | interrupt => exact ih false io hs
      | endOfInput => exact hs
      | failure problem => exact hs

end Machine.Keeps

/-- Lines and loops are run one after another, each of them on a machine of the given kind,
on streams of its own and whether or not an exit is requested. -/
inductive Reaches (machines : Machine → Prop) (s : Session) : Session → Prop
  | start : Reaches machines s s
  | line {m : Machine} {t : Session} (hm : machines m) (h : Reaches machines s t) (line : Text)
      (io : Streams) : Reaches machines s (m.processLine line t io).session
  | loop {m : Machine} {t : Session} (hm : machines m) (h : Reaches machines s t)
      (interrupted : Bool) (events : List Event) (io : Streams) :
      Reaches machines s (m.loop interrupted events t io).session

theorem Reaches.keeps {machines : Machine → Prop} {P : Session → Prop}
    (hkeeps : ∀ m, machines m → m.Keeps P) {s t : Session} (h : Reaches machines s t)
    (hs : P s) : P t := by
  induction h with
  | start => exact hs
  | line hm _ line io ih => exact (hkeeps _ hm).processLine line io ih
  | loop hm _ interrupted events io ih => exact (hkeeps _ hm).loop interrupted events io ih

end LineShell
