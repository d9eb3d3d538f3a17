import LineShell.Proofs.Listing
import LineShell.Proofs.StatusRange

/-!
# The names of variables

A name comes into an environment through `setenv`, which checks it, or through `cd`, which has two
names of its own. So no use of a session brings in a name that is empty or holds an equals sign,
and the listing of the variables can be read back.

* `Environment.WellNamed`, kept by `set` and `erase`.
* `Builtin.Makes.sessionAfter_wellNamed`: the tasks that builtin commands make.
* `Machine.execute_wellNamed`, `Machine.keeps_wellNamed`: argument vectors, lines and loops.
* `wellNamed_of_uses`: names are well formed after every use, and the listing shows exactly the
  variables.
-/

namespace LineShell

namespace Environment

/-- Names are distinct, not empty and without an equals sign. -/
structure WellNamed (env : Environment) : Prop where
  nodup : env.names.Nodup
  name : ∀ name ∈ env.names, name ≠ [] ∧ '=' ∉ name

theorem WellNamed.set {env : Environment} (h : env.WellNamed) {name : Text}
    (hname : name ≠ [] ∧ '=' ∉ name) (value : Text) : (env.set name value).WellNamed where
  nodup := (env.set name value).nodup
  name := by
    intro other hother
    rw [names_set] at hother
    split at hother
    · exact h.name other hother
    · rcases List.mem_append.mp hother with hold | hnew
      · exact h.name other hold
      · rw [List.mem_singleton.mp hnew]
        exact hname

theorem WellNamed.erase {env : Environment} (h : env.WellNamed) (name : Text) :
    (env.erase name).WellNamed where
  nodup := (env.erase name).nodup
  name := by
    intro other hother
    rw [names_erase] at hother
    exact h.name other (List.mem_filter.mp hother).1

theorem WellNamed.entries {env : Environment} (h : env.WellNamed) :
    ∀ entry ∈ env.entries, '=' ∉ entry.1 := by
  intro entry hentry
  exact (h.name entry.1 (List.mem_map_of_mem hentry)).2

end Environment

/-! ## Uses of a session -/

theorem Directory.remember_wellNamed {s : Session} (hs : s.environment.WellNamed) :
    (remember s).environment.WellNamed := by
  have hname : previousName ≠ [] ∧ '=' ∉ previousName := by decide
  exact hs.set hname s.directoryText

theorem Directory.moveTo_wellNamed {s : Session} (hs : s.environment.WellNamed) (path : Path) :
    (moveTo s path).environment.WellNamed := by
  have hname : currentName ≠ [] ∧ '=' ∉ currentName := by decide
  exact (remember_wellNamed hs).set hname (Utf8.decode path)

theorem Builtin.Makes.sessionAfter_wellNamed {builtin : Builtin} {args : List Text} {task : Task}
    (h : builtin.Makes args task) {s : Session} (hs : s.environment.WellNamed)
    (tree : FileTree) : (task.sessionAfter tree s).environment.WellNamed := by
  cases h with
  | @cd _ target _ =>
    exact Directory.sessionAfter_cases (P := fun t => t.environment.WellNamed) hs
      (Directory.remember_wellNamed hs) (fun _ path _ => Directory.moveTo_wellNamed hs path) target
  | env _ => exact hs
  | setenv hname => exact hs.set hname _
  | unsetenv name => exact hs.erase name
  | exitLast => exact hs
  | exitWith _ _ => exact hs
  | help _ => exact hs

namespace Machine

variable {m : Machine}

theorem execute_wellNamed (hm : m.registry.IsDefault) (argv : List Text) {s : Session}
    (hs : s.environment.WellNamed) (io : Streams) :
    (m.execute argv s io).session.environment.WellNamed := by
  rcases execute_session hm argv s io with hsame | ⟨builtin, args, task, -, htask, hsession⟩
  · rw [hsame]
    exact hs
  · rw [hsession]
    exact (Builtin.makes_of_task? htask).sessionAfter_wellNamed hs m.tree

theorem keeps_wellNamed (hm : m.registry.IsDefault) :
    m.Keeps (fun s => s.environment.WellNamed) where
  refused _ hs := hs
  counted _ hs := hs
  link _ _ _ _ link _ _ io ht := execute_wellNamed hm (words link.text) ht io

end Machine

/-- **Names stay well formed.** An argument vector of any words, a line and a loop leave names that
are distinct, not empty and without an equals sign, if the session had such names, and so does
every use of the session. Then, if nothing holds a newline, what `env` prints can be read back:
cut at its newlines and each line at its first equals sign, it is the list of the variables. -/
theorem wellNamed_of_uses {s : Session} (hs : s.environment.WellNamed) :
    (∀ m : Machine, m.registry.IsDefault → ∀ io,
      (∀ argv, (m.execute argv s io).session.environment.WellNamed) ∧
      (∀ line, (m.processLine line s io).session.environment.WellNamed) ∧
      ∀ interrupted events, (m.loop interrupted events s io).session.environment.WellNamed) ∧
    (∀ t, Uses (fun m => m.registry.IsDefault) s t → t.environment.WellNamed) ∧
    ((∀ entry ∈ s.environment.entries, '\n' ∉ entry.1 ∧ '\n' ∉ entry.2) →
      ∀ m : Machine, m.registry.get? Builtin.env.name = some Builtin.env.handler →
        ∀ args (io : Streams), io.out.room = none →
          readListing (output (m.execute (Builtin.env.name :: args) s io).effects) =
            s.environment.entries) := by
  refine ⟨fun m hm io => ⟨?_, ?_, ?_⟩, fun t ht => ?_, ?_⟩
  · intro argv
    exact Machine.execute_wellNamed hm argv hs io
  · intro line
    exact (Machine.keeps_wellNamed hm).processLine line io hs
  · intro interrupted events
    exact (Machine.keeps_wellNamed hm).loop interrupted events io hs
  · exact ht.keeps (fun m hm argv _ io hs => Machine.execute_wellNamed hm argv hs io)
      (fun m hm => Machine.keeps_wellNamed hm) hs
  · intro hlines m henv args io hroom
    rw [Machine.output_env henv args s hroom, readListing_encode hs.entries hlines]

/-- Names that are refused, and values with an equals sign, a carriage return at the end, or
nothing at all. -/
theorem wellNamed_of_uses_refused :
    let m : Machine := {}
    let s : Session :=
      { environment := .ofPairs [("A".toList, "1=2".toList), ("Bé".toList, [])]
        processId := "7".toList
        programName := "sh".toList }
    let t := (m.execute ["setenv".toList, [], "x".toList] s {}).session
    let u := (m.processLine "setenv =C 3; setenv D=E 4; setenv F $A; cd /; unsetenv A".toList t
      {}).session
    let v := (m.execute ["setenv".toList, "G".toList, "5\r".toList] u {}).session
    s.environment.WellNamed ∧ v.environment.WellNamed ∧
      readListing (output (m.execute ["env".toList] v {}).effects) =
        [("Bé".toList, []), ("F".toList, "1=2".toList), ("OLDPWD".toList, "/".toList),
          ("PWD".toList, "/".toList), ("G".toList, "5\r".toList)] := by
  intro m s t u v
  have hm : m.registry.IsDefault := ⟨[], rfl⟩
  have hs : s.environment.WellNamed := ⟨s.environment.nodup, by decide⟩
  have huses : Uses (fun m => m.registry.IsDefault) s v :=
    .execute hm (.run (.execute hm .start _ {}) (.line hm .start _ {})) _ {}
  have hv : v.environment.WellNamed := (wellNamed_of_uses hs).2.1 v huses
  have hentries : v.environment.entries =
      [("Bé".toList, []), ("F".toList, "1=2".toList), ("OLDPWD".toList, "/".toList),
        ("PWD".toList, "/".toList), ("G".toList, "5\r".toList)] := by
    decide +kernel
  have hlines : ∀ entry ∈ v.environment.entries, '\n' ∉ entry.1 ∧ '\n' ∉ entry.2 := by
    rw [hentries]
    decide
  refine ⟨hs, hv, ?_⟩
  rw [← hentries]
  exact (wellNamed_of_uses hv).2.2 hlines m rfl [] {} rfl

end LineShell
