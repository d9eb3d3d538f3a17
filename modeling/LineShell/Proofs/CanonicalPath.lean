import LineShell.Proofs.Lookup

/-!
# Canonical paths

The path of a location to which a lookup comes leads to that location again, along its own names
and through no link.

* `Location.names_path`: the names of such a path are those of the location.
* `FileTree.Straight.locate?_path`: they are followed to the location.
* `Path.IsPassable`: a path that the system takes as a whole.
* `FileTree.IsCanonical`: a path that leads straight to a directory.
* `FileTree.canonicalDirectory?_eq_some_iff`: a path has the canonical path of a directory if it
  leads to one whose path can be passed on.
* `FileTree.Settled`: each canonical path is its own canonical path; `settled_of_names` says that
  this holds in every tree without a NUL in a name.
-/

namespace LineShell

theorem Location.path_cons (name : Bytes) (outer : Location) :
    path (name :: outer) = (name :: outer).reverse.flatMap (fun name => Path.slash :: name) := rfl

theorem Location.isAbsolute_path (location : Location) :
    Path.isAbsolute location.path = true := by
  cases location with
  | nil => rfl
  | cons name outer =>
    have hreverse : (name :: outer).reverse ≠ [] := by simp
    obtain ⟨first, later, heq⟩ := List.exists_cons_of_ne_nil hreverse
    rw [path_cons, heq]
    rfl

/-- A piece and names behind slashes are cut into the piece and the names. -/
theorem Path.names_append_flatMap {piece : Bytes} (hpiece : slash ∉ piece) {steps : List Bytes}
    (h : ∀ name ∈ steps, slash ∉ name) :
    names (piece ++ steps.flatMap (fun name => slash :: name)) = piece :: steps := by
  change List.splitOn slash (piece ++ steps.flatMap (fun name => slash :: name)) = piece :: steps
  induction steps generalizing piece with
  | nil => rw [List.flatMap_nil, List.append_nil, List.splitOn_eq_singleton hpiece]
  | cons name later ih =>
    obtain ⟨hname, hlater⟩ := List.forall_mem_cons.mp h
    rw [List.flatMap_cons, List.cons_append, List.splitOn_append_cons_self_of_not_mem hpiece,
      ih hname hlater]

theorem Location.names_path {name : Bytes} {outer : Location}
    (h : ∀ part ∈ name :: outer, Path.slash ∉ part) :
    Path.names (path (name :: outer)) = [] :: (name :: outer).reverse := by
  refine Path.names_append_flatMap List.not_mem_nil ?_
  intro part hpart
  exact h part (List.mem_reverse.mp hpart)

/-- A path that the system takes as a whole. -/
def Path.IsPassable (path : Path) : Prop := path.length < FileTree.pathLimit ∧ 0 ∉ path

theorem Location.notMem_path {byte : UInt8} (hslash : byte ≠ Path.slash) {location : Location}
    (h : ∀ name ∈ location, byte ∉ name) : byte ∉ location.path := by
  cases location with
  | nil => exact fun hmem => hslash (List.mem_singleton.mp hmem)
  | cons name outer =>
    intro hmem
    obtain ⟨part, hpart, hbyte⟩ := List.mem_flatMap.mp hmem
    rcases List.mem_cons.mp hbyte with heq | hbyte
    · exact hslash heq
    · exact h part (List.mem_reverse.mp hpart) hbyte

namespace FileTree

variable {tree : FileTree} {location : Location}

theorem Straight.noSlash (h : tree.Straight location) : ∀ name ∈ location, Path.slash ∉ name := by
  induction h with
  | root => simp
  | child houter hdirectory hname hnode hlink ih =>
    exact List.forall_mem_cons.mpr ⟨hname.noSlash, ih⟩

/-! ## Following a path -/

theorem advance_name {outer : Location} {name : Bytes} {node : Node}
    (hdirectory : tree.node? outer = some .directory) (hname : Path.IsName name)
    (hnode : tree.node? (name :: outer) = some node) (hlink : ∀ target, node ≠ .link target)
    (rest : List Bytes) :
    tree.advance outer (name :: rest) = tree.advance (name :: outer) rest := by
  have hstay : ¬ (name = [] ∨ name = Path.here) := not_or.mpr ⟨hname.ne_nil, hname.ne_here⟩
  rw [advance, hdirectory]
  dsimp only
  rw [if_neg hstay, if_neg hname.ne_up, if_neg (Nat.not_lt.mpr hname.short), hnode]
  cases node with
  | directory => rfl
  | file mode content => rfl
  | program mode program => rfl
  | link target => exact absurd rfl (hlink target)

/-- The induction is on the location from the inside out, so what is still to follow is kept
open. -/
theorem Straight.advance_reverse (h : tree.Straight location) (rest : List Bytes) :
    tree.advance .root (location.reverse ++ rest) = tree.advance location rest := by
  induction h generalizing rest with
  | root => rfl
  | @child outer name node houter hdirectory hname hnode hlink ih =>
    rw [List.reverse_cons, List.append_assoc, ih, List.singleton_append,
      advance_name hdirectory hname hnode hlink]

theorem Straight.advance_names (h : tree.Straight location) :
    tree.advance .root (Path.names location.path) = .arrived location := by
  cases location with
  | nil => rfl
  | cons name outer =>
    have hstay : tree.advance .root ([] :: (name :: outer).reverse) =
        tree.advance .root (name :: outer).reverse := by
      rw [advance, Location.root, node?_root]
      exact if_pos (Or.inl rfl)
    have harrived := h.advance_reverse []
    rw [List.append_nil, advance] at harrived
    rw [Location.names_path h.noSlash, hstay, harrived]

theorem Straight.locate?_path (h : tree.Straight location) (hnul : 0 ∉ location.path) :
    tree.locate? .root location.path = .ok location := by
  have habsolute := location.isAbsolute_path
  have hne : location.path ≠ [] := by
    rintro heq
    rw [heq] at habsolute
    cases habsolute
  have hcontains : ¬ location.path.contains 0 = true := by
    rwa [List.contains_iff_mem]
  rw [locate?, if_neg hne, if_neg hcontains, startOf, if_pos habsolute, walk, h.advance_names]

theorem nul_notMem_of_locate? {here : Location} {path : Path}
    (h : tree.locate? here path = .ok location) : 0 ∉ path := by
  unfold locate? at h
  split at h
  · cases h
  · split at h
    · cases h
    · rename_i hcontains
      rwa [List.contains_iff_mem] at hcontains

/-- The system finds the same there. -/
theorem Straight.nodeOf?_path (h : tree.Straight location) (hpass : location.path.IsPassable) :
    tree.nodeOf? location.path = tree.node? location := by
  rw [nodeOf?, stat?, if_neg (Nat.not_le.mpr hpass.1), h.locate?_path hpass.2]

theorem isPassable_of_nodeOf? {path : Path} {node : Node} (h : tree.nodeOf? path = some node) :
    path.IsPassable := by
  unfold nodeOf? at h
  split at h
  · rename_i found hfound
    unfold stat? at hfound
    split at hfound
    · cases hfound
    · rename_i hlength
      exact ⟨Nat.lt_of_not_le hlength, nul_notMem_of_locate? hfound⟩
  · cases h

/-! ## Canonical paths -/

/-- The path of a directory, without `.` and `..`, without needless slashes, and through no
link. -/
def IsCanonical (tree : FileTree) (path : Path) : Prop :=
  ∃ location, tree.Straight location ∧ tree.node? location = some .directory ∧
    path = location.path

/-- Both can be computed, also for a path that is too long to be passed on. -/
theorem isCanonical_of_locate? (hfound : (tree.locate? .root location.path).toOption = some location)
    (hdirectory : tree.isDirectory location = true) : tree.IsCanonical location.path := by
  cases hlocated : tree.locate? .root location.path with
  | error error =>
    rw [hlocated] at hfound
    cases hfound
  | ok found =>
    rw [hlocated] at hfound
    obtain rfl := Option.some.inj hfound
    exact ⟨found, straight_of_locate? .root hlocated, isDirectory_eq_true_iff.mp hdirectory, rfl⟩

theorem canonicalDirectory?_eq_some_iff {path canonical : Path} :
    tree.canonicalDirectory? path = some canonical ↔
      ∃ location, tree.Finds path location ∧ location.path.IsPassable ∧
        canonical = location.path := by
  rw [canonicalDirectory?, Option.filter_eq_some_iff, canonicalize?_eq_some_iff]
  constructor
  · rintro ⟨⟨location, hlocated, -, rfl⟩, hdirectory⟩
    obtain ⟨node, hnode, -⟩ := (Option.any_eq_true ..).mp hdirectory
    have hpass := isPassable_of_nodeOf? hnode
    rw [(straight_of_locate? .root hlocated).nodeOf?_path hpass] at hdirectory
    exact ⟨location, ⟨hlocated, isDirectory_eq_true_iff.mp hdirectory⟩, hpass, rfl⟩
  · rintro ⟨location, hfinds, hpass, rfl⟩
    have hnode := hfinds.straight.nodeOf?_path hpass
    rw [hnode, hfinds.directory]
    exact ⟨⟨location, hfinds.located, by rw [hfinds.directory]; rfl, rfl⟩, rfl⟩

theorem canonicalDirectory?_eq_none_iff {path : Path} :
    tree.canonicalDirectory? path = none ↔
      ∀ location, tree.Finds path location → ¬ location.path.IsPassable := by
  rw [Option.eq_none_iff_forall_ne_some]
  constructor
  · intro h location hfinds hpass
    exact h location.path (canonicalDirectory?_eq_some_iff.mpr ⟨location, hfinds, hpass, rfl⟩)
  · intro h canonical hpath
    obtain ⟨location, hfinds, hpass, -⟩ := canonicalDirectory?_eq_some_iff.mp hpath
    exact h location hfinds hpass

/-- What a lookup finds is the canonical path of a directory. -/
theorem isCanonical_of_canonicalDirectory? {path canonical : Path}
    (h : tree.canonicalDirectory? path = some canonical) : tree.IsCanonical canonical := by
  obtain ⟨location, hfinds, -, rfl⟩ := canonicalDirectory?_eq_some_iff.mp h
  exact ⟨location, hfinds.straight, hfinds.directory, rfl⟩

theorem isPassable_of_canonicalDirectory? {path canonical : Path}
    (h : tree.canonicalDirectory? path = some canonical) : canonical.IsPassable := by
  obtain ⟨location, -, hpass, rfl⟩ := canonicalDirectory?_eq_some_iff.mp h
  exact hpass

/-- Each canonical path is its own canonical path. -/
def Settled (tree : FileTree) : Prop :=
  ∀ path, tree.IsCanonical path → tree.canonicalize? path = some path

theorem Settled.canonicalDirectory?_eq (htree : tree.Settled) {path : Path}
    (h : tree.IsCanonical path) (hlength : path.length < pathLimit) :
    tree.canonicalDirectory? path = some path := by
  obtain ⟨found, hlocated, -, -⟩ := canonicalize?_eq_some_iff.mp (htree path h)
  have hnul := nul_notMem_of_locate? hlocated
  obtain ⟨location, hstraight, hdirectory, rfl⟩ := h
  exact canonicalDirectory?_eq_some_iff.mpr
    ⟨location, ⟨hstraight.locate?_path hnul, hdirectory⟩, ⟨hlength, hnul⟩, rfl⟩

theorem Straight.mem_entries (h : tree.Straight location) (hne : location ≠ []) :
    ∃ node, (location, node) ∈ tree.entries := by
  cases h with
  | root => exact absurd rfl hne
  | @child outer name node houter hdirectory hname hnode hlink =>
    obtain ⟨before, behind, heq, -⟩ := List.lookup_eq_some_iff.mp hnode
    refine ⟨node, ?_⟩
    rw [heq]
    exact List.mem_append_right before List.mem_cons_self

theorem settled_of_names (h : ∀ entry ∈ tree.entries, ∀ name ∈ entry.1, 0 ∉ name) :
    tree.Settled := by
  rintro path ⟨location, hstraight, hdirectory, rfl⟩
  have hnames : ∀ name ∈ location, 0 ∉ name := by
    cases location with
    | nil => exact fun _ hname => absurd hname List.not_mem_nil
    | cons name outer =>
      obtain ⟨node, hentry⟩ := hstraight.mem_entries (List.cons_ne_nil name outer)
      exact h _ hentry
  have hnul : 0 ∉ location.path := Location.notMem_path (by decide) hnames
  have hnode : (tree.node? location).isSome := by rw [hdirectory, Option.isSome_some]
  exact canonicalize?_eq_some_iff.mpr ⟨location, hstraight.locate?_path hnul, hnode, rfl⟩

end FileTree

end LineShell
