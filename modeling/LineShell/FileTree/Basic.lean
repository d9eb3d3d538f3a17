import LineShell.Program

/-!
# File trees

A file tree says what stands at each location. The root is always a directory.

* `Node`: what can stand at a location. `Node.isExecutable` asks for an execute bit of any
  kind; `Node.ownerReads`, `Node.ownerWrites` and `Node.ownerExecutes` ask for a bit of the
  owner.
* `FileTree.node?`: what stands at a location.
* `FileTree.put`: a node in place of what was there; `node?_put` says what it changes.
* `FileTree.prune`: a location taken away with all below it; `node?_prune` likewise.
-/

namespace LineShell

inductive Node where
  | directory
  | file (mode : Nat) (content : Bytes)
  | program (mode : Nat) (program : Program)
  | link (target : Path)

namespace Node

def isDirectory : Node → Bool
  | directory => true
  | _ => false

/-- Files and programs are regular files. -/
def isRegular : Node → Bool
  | file _ _ => true
  | program _ _ => true
  | _ => false

def mode : Node → Nat
  | file mode _ => mode
  | program mode _ => mode
  | _ => 0

/-- What is read from a node; a program holds nothing. -/
def content : Node → Bytes
  | file _ content => content
  | _ => []

/-- A regular file with at least one execute bit. -/
def isExecutable (node : Node) : Bool := node.isRegular && node.mode &&& 0o111 != 0

/-- A regular file with the read bit of its owner. -/
def ownerReads (node : Node) : Bool := node.isRegular && node.mode &&& 0o400 != 0

/-- A regular file with the write bit of its owner. -/
def ownerWrites (node : Node) : Bool := node.isRegular && node.mode &&& 0o200 != 0

/-- A regular file with the execute bit of its owner. -/
def ownerExecutes (node : Node) : Bool := node.isRegular && node.mode &&& 0o100 != 0

end Node

structure FileTree where
  entries : List (Location × Node) := []

namespace FileTree

def node? (tree : FileTree) : Location → Option Node
  | [] => some .directory
  | name :: outer => tree.entries.lookup (name :: outer)

@[simp] theorem node?_root (tree : FileTree) : tree.node? [] = some .directory := rfl

def isDirectory (tree : FileTree) (location : Location) : Bool :=
  (tree.node? location).any Node.isDirectory

/-- Put a node at a location, in place of what was there. -/
def put (tree : FileTree) (location : Location) (node : Node) : FileTree :=
  ⟨(location, node) :: tree.entries.filter (fun entry => entry.1 != location)⟩

/-- Take away a location with all below it. -/
def prune (tree : FileTree) (location : Location) : FileTree :=
  ⟨tree.entries.filter (fun entry => !location.isSuffixOf entry.1)⟩

theorem lookup_filter_key (keep : Location → Bool) (location : Location)
    (entries : List (Location × Node)) :
    (entries.filter (fun entry => keep entry.1)).lookup location =
      if keep location then entries.lookup location else none := by
  induction entries with
  | nil => simp
  | cons entry rest ih =>
    obtain ⟨key, node⟩ := entry
    by_cases hkey : location = key
    · subst hkey
      by_cases hkeep : keep location <;> simp [hkeep, ih]
    · have hne : (location == key) = false := beq_eq_false_iff_ne.mpr hkey
      by_cases hkeep : keep key <;> simp [hkeep, List.lookup_cons, hne, ih]

theorem node?_put (tree : FileTree) (location : Location) (node : Node) (name : Bytes)
    (outer : Location) :
    (tree.put location node).node? (name :: outer) =
      if name :: outer = location then some node else tree.node? (name :: outer) := by
  simp only [node?, put, List.lookup_cons]
  by_cases h : name :: outer = location
  · simp [h]
  · simp [h, beq_eq_false_iff_ne.mpr h, lookup_filter_key (fun key => key != location)]

theorem node?_prune (tree : FileTree) (location : Location) (name : Bytes) (outer : Location) :
    (tree.prune location).node? (name :: outer) =
      if location.isSuffixOf (name :: outer) then none else tree.node? (name :: outer) := by
  simp only [node?, prune, lookup_filter_key (fun key => !location.isSuffixOf key)]
  by_cases h : location.isSuffixOf (name :: outer) <;> simp [h]

end FileTree

end LineShell
