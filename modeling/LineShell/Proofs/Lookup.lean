import LineShell.FileTree.Lookup

/-!
# Locations that a lookup reaches

A lookup starts at the root. From a directory it goes to the parent, or to something that the
directory holds under a name and that is no link.

* `FileTree.Straight`: a location to which only names lead that directories hold.
* `FileTree.straight_of_locate?`: a lookup arrives at no other location.
* `FileTree.Finds`: a path leads to a directory.
* `FileTree.canonicalize?_eq_some_iff`: when a path has a canonical path, and which one it has.
-/

namespace LineShell

/-- A name that leads from a directory to something that it holds. -/
structure Path.IsName (name : Bytes) : Prop where
  ne_nil : name ≠ []
  ne_here : name ≠ here
  ne_up : name ≠ up
  noSlash : slash ∉ name
  short : name.length ≤ FileTree.maxName

theorem Path.noSlash_of_mem_names {path : Path} {name : Bytes} (h : name ∈ names path) :
    slash ∉ name := by
  induction path generalizing name with
  | nil =>
    rw [names, List.splitOnP_nil, List.mem_singleton] at h
    rw [h]
    exact List.not_mem_nil
  | cons byte rest ih =>
    rw [names, List.splitOnP_cons_eq_if_modifyHead] at h
    split at h
    · rcases List.mem_cons.mp h with rfl | h
      · exact List.not_mem_nil
      · exact ih h
    · rename_i hbyte
      obtain ⟨first, others, hsplit⟩ :=
        List.exists_cons_of_ne_nil (List.splitOnP_ne_nil (· == slash) rest)
      rw [names, hsplit] at ih
      rw [hsplit, List.modifyHead_cons] at h
      rcases List.mem_cons.mp h with rfl | h
      · have hne : slash ≠ byte := fun heq => hbyte (beq_iff_eq.mpr heq.symm)
        exact List.not_mem_cons_of_ne_of_not_mem hne (ih List.mem_cons_self)
      · exact ih (List.mem_cons_of_mem _ h)

namespace FileTree

/-- Every name on the way from the root to the location stands in a directory, and nothing on the
way is a link. -/
inductive Straight (tree : FileTree) : Location → Prop
  | root : Straight tree []
  | child {outer : Location} {name : Bytes} {node : Node} (houter : Straight tree outer)
      (hdirectory : tree.node? outer = some .directory) (hname : Path.IsName name)
      (hnode : tree.node? (name :: outer) = some node) (hlink : ∀ target, node ≠ .link target) :
      Straight tree (name :: outer)

variable {tree : FileTree}

theorem Straight.parent {location : Location} (h : tree.Straight location) :
    tree.Straight location.parent := by
  cases h with
  | root => exact .root
  | child houter _ _ _ _ => exact houter

end FileTree

/-- The location at which a lookup has come to a stop has the property. -/
def Advance.Stands (P : Location → Prop) : Advance → Prop
  | arrived location => P location
  | atLink here _ _ => P here
  | failed _ => True

namespace FileTree

variable {tree : FileTree} {here location : Location} {names : List Bytes}

/-! ## Lookups -/

theorem advance_stands (hhere : tree.Straight here) (hnames : ∀ name ∈ names, Path.slash ∉ name) :
    (tree.advance here names).Stands tree.Straight := by
  fun_induction advance tree here names with
  | case1 here => exact hhere
  | case2 here name rest hnone => exact trivial
  | case3 here name rest hdirectory hstay ih => exact ih hhere (List.forall_mem_cons.mp hnames).2
  | case4 here rest hdirectory hstay ih =>
    exact ih hhere.parent (List.forall_mem_cons.mp hnames).2
  | case5 here name rest hdirectory hstay hup hlong => exact trivial
  | case6 here name rest hdirectory hstay hup hlong hnone => exact trivial
  | case7 here name rest hdirectory hstay hup hlong target hlink => exact hhere
  | case8 here name rest hdirectory hstay hup hlong node hlink hfound ih =>
    obtain ⟨hslash, hrest⟩ := List.forall_mem_cons.mp hnames
    rw [not_or] at hstay
    have hname : Path.IsName name := ⟨hstay.1, hstay.2, hup, hslash, Nat.le_of_not_lt hlong⟩
    exact ih (.child hhere hdirectory hname hfound hlink) hrest
  | case9 here name rest node hfile hfound => exact trivial

/-- The names that are still to follow behind a link are the last ones. -/
theorem suffix_of_advance {there : Location} {target : Path} {rest : List Bytes}
    (h : tree.advance here names = .atLink there target rest) : rest <:+ names := by
  fun_induction advance tree here names with
  | case3 here name later hdirectory hstay ih => exact (ih h).trans (List.suffix_cons name later)
  | case4 here later hdirectory hstay ih => exact (ih h).trans (List.suffix_cons _ later)
  | case7 here name later hdirectory hstay hup hlong target hlink =>
    cases h
    exact List.suffix_cons name rest
  | case8 here name later hdirectory hstay hup hlong node hlink hfound ih =>
    exact (ih h).trans (List.suffix_cons name later)
  | case1 => cases h
  | case2 => cases h
  | case5 => cases h
  | case6 => cases h
  | case9 => cases h

theorem straight_startOf (hhere : tree.Straight here) (path : Path) :
    tree.Straight (startOf here path) := by
  unfold startOf
  split
  · exact .root
  · exact hhere

theorem straight_of_walk {links : Nat} (hhere : tree.Straight here)
    (hnames : ∀ name ∈ names, Path.slash ∉ name) (h : tree.walk links here names = .ok location) :
    tree.Straight location := by
  have hstands := advance_stands hhere hnames
  fun_induction walk tree links here names with
  | case1 links here names found hadvance =>
    rw [hadvance] at hstands
    cases h
    exact hstands
  | case2 links here names error hadvance => cases h
  | case3 here names found target rest hadvance => cases h
  | case4 here names found target rest hadvance links ih =>
    rw [hadvance] at hstands
    have hstart := straight_startOf hstands target
    have hmore : ∀ name ∈ Path.names target ++ rest, Path.slash ∉ name := by
      intro name hname
      rcases List.mem_append.mp hname with hname | hname
      · exact Path.noSlash_of_mem_names hname
      · exact hnames name ((suffix_of_advance hadvance).subset hname)
    exact ih hstart hmore h (advance_stands hstart hmore)

theorem straight_of_locate? {path : Path} (hhere : tree.Straight here)
    (h : tree.locate? here path = .ok location) : tree.Straight location := by
  unfold locate? at h
  split at h
  · cases h
  · split at h
    · cases h
    · exact straight_of_walk (straight_startOf hhere path)
        (fun _ hname => Path.noSlash_of_mem_names hname) h

/-! ## Directories -/

theorem isDirectory_eq_true_iff :
    tree.isDirectory location = true ↔ tree.node? location = some .directory := by
  rw [isDirectory, Option.any_eq_true]
  constructor
  · rintro ⟨node, hnode, hdirectory⟩
    cases node with
    | directory => exact hnode
    | file mode content => cases hdirectory
    | program mode program => cases hdirectory
    | link target => cases hdirectory
  · intro hnode
    exact ⟨.directory, hnode, rfl⟩

/-- The path leads to a directory at this location. -/
structure Finds (tree : FileTree) (path : Path) (location : Location) : Prop where
  located : tree.locate? .root path = .ok location
  directory : tree.node? location = some .directory

theorem Finds.straight {path : Path} (h : tree.Finds path location) : tree.Straight location :=
  straight_of_locate? .root h.located

theorem canonicalize?_eq_some_iff {path canonical : Path} :
    tree.canonicalize? path = some canonical ↔
      ∃ location, tree.locate? .root path = .ok location ∧ (tree.node? location).isSome ∧
        canonical = location.path := by
  rw [canonicalize?]
  cases tree.locate? .root path with
  | error error =>
    constructor
    · intro h
      cases h
    · rintro ⟨location, hlocated, -⟩
      cases hlocated
  | ok found =>
    dsimp only
    rw [Option.ite_none_right_eq_some]
    constructor
    · rintro ⟨hnode, hpath⟩
      exact ⟨found, rfl, hnode, (Option.some.inj hpath).symm⟩
    · rintro ⟨location, hlocated, hnode, rfl⟩
      cases hlocated
      exact ⟨hnode, rfl⟩

end FileTree

end LineShell
