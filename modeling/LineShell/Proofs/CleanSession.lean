import LineShell.Proofs.CanonicalPath
import LineShell.Proofs.Command
import LineShell.Proofs.Expansion
import LineShell.Proofs.Invariant
import LineShell.Proofs.LossyDecoding

/-!
# Clean sessions

A session is clean if no mark stands in anything that a line can refer to or `cd` can store.
Lines keep a session clean, whatever is typed: the check refuses a line with a lone mark
before it is expanded, a clean expansion is cut at every mark that is left, and so no mark
stands in the words of any link. What `setenv` stores is such a word, and what `cd` stores is
the old directory or a canonical path, which is made of names of the file tree.

* `Session.Clean`, `FileTree.Unmarked`, `Machine.Clean`.
* `Task.sessionAfter_clean`: a task made of clean arguments keeps a session clean.
* `Machine.Clean.keeps`: so does every link, and with it every line and every loop.
* `clean_of_reaches`: a clean session never comes to hold a value with a mark.
-/

namespace LineShell

/-- No mark stands in a name of the tree. What its links lead to does not matter: a canonical
path takes no name from a target. -/
def FileTree.Unmarked (tree : FileTree) : Prop :=
  ∀ entry ∈ tree.entries, ∀ name ∈ entry.1, LineShell.Unmarked (Utf8.decode name)

instance (tree : FileTree) : Decidable tree.Unmarked :=
  inferInstanceAs (Decidable
    (∀ entry ∈ tree.entries, ∀ name ∈ entry.1, LineShell.Unmarked (Utf8.decode name)))

/-- Builtin commands and probes on a tree without marks. -/
structure Machine.Clean (m : Machine) : Prop where
  registry : m.registry.IsDefault
  tree : m.tree.Unmarked

/-- No mark stands in a variable, in the name of the program, in the process id or in the text
of the directory. -/
structure Session.Clean (s : Session) : Prop extends s.Unmarked where
  directory : LineShell.Unmarked s.directoryText

/-! ## Canonical paths -/

theorem unmarked_decode_iff {bytes : Bytes} :
    Unmarked (Utf8.decode bytes) ↔ 0x3B ∉ bytes ∧ 0x26 ∉ bytes ∧ 0x7C ∉ bytes :=
  and_congr (not_congr (Utf8.mem_decode_iff 0x3B (by decide)))
    (and_congr (not_congr (Utf8.mem_decode_iff 0x26 (by decide)))
      (not_congr (Utf8.mem_decode_iff 0x7C (by decide))))

theorem Location.path_unmarked {location : Location}
    (h : ∀ name ∈ location, Unmarked (Utf8.decode name)) :
    Unmarked (Utf8.decode location.path) := by
  have hnames := fun name hname => unmarked_decode_iff.mp (h name hname)
  rw [unmarked_decode_iff]
  refine ⟨notMem_path (by decide) ?_, notMem_path (by decide) ?_, notMem_path (by decide) ?_⟩
  · exact fun name hname => (hnames name hname).1
  · exact fun name hname => (hnames name hname).2.1
  · exact fun name hname => (hnames name hname).2.2

theorem FileTree.Unmarked.canonical {tree : FileTree} (h : tree.Unmarked) {path canonical : Path}
    (hpath : tree.canonicalDirectory? path = some canonical) :
    LineShell.Unmarked (Utf8.decode canonical) := by
  have hnode : ∀ location node, tree.node? location = some node →
      ∀ name ∈ location, LineShell.Unmarked (Utf8.decode name) := by
    intro location node hfound
    cases location with
    | nil => simp
    | cons name outer =>
      obtain ⟨before, behind, heq, -⟩ := List.lookup_eq_some_iff.mp hfound
      have hentry : (name :: outer, node) ∈ tree.entries := by
        rw [heq]
        exact List.mem_append_right before List.mem_cons_self
      exact h (name :: outer, node) hentry
  obtain ⟨location, hfinds, -, rfl⟩ := FileTree.canonicalDirectory?_eq_some_iff.mp hpath
  exact Location.path_unmarked (hnode location .directory hfinds.directory)

/-! ## Tasks -/

namespace Session.Clean

variable {s : Session}

theorem setVariable (hs : s.Clean) (name : Text) {value : Text} (h : LineShell.Unmarked value) :
    Session.Clean { s with environment := s.environment.set name value } where
  environment := Environment.forall_set hs.environment h
  programName := hs.programName
  processId := hs.processId
  directory := hs.directory

theorem remember (hs : s.Clean) : (Directory.remember s).Clean :=
  hs.setVariable Directory.previousName hs.directory

theorem moveTo (hs : s.Clean) {path : Path} (h : LineShell.Unmarked (Utf8.decode path)) :
    (Directory.moveTo s path).Clean where
  environment := Environment.forall_set hs.remember.environment h
  programName := hs.programName
  processId := hs.processId
  directory := h

theorem record (hs : s.Clean) (status : Status) : (s.record status).Clean where
  environment := hs.environment
  programName := hs.programName
  processId := hs.processId
  directory := hs.directory

end Session.Clean

theorem Directory.sessionAfter_clean {s : Session} (hs : s.Clean) {tree : FileTree}
    (htree : tree.Unmarked) (target : Option Text) : (sessionAfter target tree s).Clean := by
  exact sessionAfter_cases hs hs.remember
    (fun _ _ hpath => hs.moveTo (htree.canonical hpath)) target

theorem Task.sessionAfter_clean {s : Session} (hs : s.Clean) {tree : FileTree}
    (htree : tree.Unmarked) {builtin : Builtin} {args : List Text} {task : Task}
    (hargs : ∀ arg ∈ args, Unmarked arg) (htask : builtin.task? args = .ok task) :
    (task.sessionAfter tree s).Clean := by
  cases task with
  | changeDirectory target => exact Directory.sessionAfter_clean hs htree target
  | printVariables => exact hs
  | setVariable name value =>
    obtain ⟨-, rfl, -⟩ := Builtin.task?_eq_setVariable htask
    exact hs.setVariable name (hargs value (by simp))
  | unsetVariable name =>
    exact ⟨⟨Environment.forall_erase hs.environment, hs.programName, hs.processId⟩, hs.directory⟩
  | leave status => exact ⟨⟨hs.environment, hs.programName, hs.processId⟩, hs.directory⟩
  | showHelp topic => exact hs

/-! ## Lines -/

theorem Machine.Clean.runLink {m : Machine} (hm : m.Clean) {s : Session} (hs : s.Clean)
    {link : Link} (hlink : Unmarked link.text) (io : Streams) :
    (m.runLink link s io).session.Clean := by
  apply Session.Clean.record
  rcases execute_session hm.registry (words link.text) s io with
    hsame | ⟨builtin, args, task, hwords, htask, hsession⟩
  · rw [hsame]
    exact hs
  · have hargs : ∀ arg ∈ args, Unmarked arg := by
      intro arg harg
      have hword : arg ∈ words link.text := hwords ▸ List.mem_cons_of_mem _ harg
      exact hlink.of_subset (sublist_of_mem_words hword).subset
    rw [hsession]
    exact Task.sessionAfter_clean hs hm.tree hargs htask

theorem Machine.Clean.keeps {m : Machine} (hm : m.Clean) : m.Keeps Session.Clean where
  refused _ hs := hs.record 2
  counted _ hs := ⟨⟨hs.environment, hs.programName, hs.processId⟩, hs.directory⟩
  link s line hs hline link hlink t io ht := by
    have hunmarked := (splitChain_substitute hs.valueOf hline).2 link hlink
    exact hm.runLink ht hunmarked io

/-- **No operator comes out of a variable.** A clean session is clean after every line, well
formed or not, and after every sequence of lines and loops. Then no reference stands for a
text with `;`, `&` or `|`. -/
theorem clean_of_reaches {s : Session} (hs : s.Clean) :
    (∀ m : Machine, m.Clean → ∀ line io, (m.processLine line s io).session.Clean) ∧
      ∀ t, Reaches Machine.Clean s t → t.Clean ∧ ∀ r, Unmarked (t.valueOf r) := by
  constructor
  · intro m hm line io
    exact hm.keeps.processLine line io hs
  · intro t ht
    have hclean : t.Clean := ht.keeps (fun m hm => hm.keeps) hs
    exact ⟨hclean, hclean.valueOf⟩

/-- The directory that `cd` stores, read back by the next line. -/
theorem clean_after_cd_and_setenv :
    let s : Session := { processId := "7".toList, programName := "sh".toList }
    let m : Machine := { tree := ⟨[(["d".toList].map Utf8.encode, .directory)]⟩ }
    let t := (m.processLine "cd d && setenv V x".toList s {}).session
    let u := (m.processLine "setenv W $PWD".toList t {}).session
    s.Clean ∧ m.Clean ∧ u.Clean ∧ u.valueOf (.named "W".toList) = "/d".toList := by
  intro s m t u
  have hs : s.Clean := ⟨⟨by decide, by decide, by decide⟩, by decide⟩
  have hm : m.Clean := ⟨⟨[], rfl⟩, by decide⟩
  have hu : Reaches Machine.Clean s u := .line hm (.line hm .start _ {}) _ {}
  exact ⟨hs, hm, ((clean_of_reaches hs).2 u hu).1, by decide +kernel⟩

end LineShell
