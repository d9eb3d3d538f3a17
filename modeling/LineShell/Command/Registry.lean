import LineShell.Command.Builtin
import LineShell.Command.Probe

/-!
# The registry

Names of commands with their handlers. A name is looked up here before it is looked up in
the file tree, and only an equal text is found.

* `Registry.get?`, `Registry.insert`: inserting a name again replaces its handler.
* `Registry.builtins`: the registry of all builtin commands.
-/

namespace LineShell

structure Registry where
  entries : List (Text × Handler) := []

namespace Registry

def empty : Registry := {}

def get? (registry : Registry) (name : Text) : Option Handler := registry.entries.lookup name

def contains (registry : Registry) (name : Text) : Bool := (registry.get? name).isSome

def insert (registry : Registry) (name : Text) (handler : Handler) : Registry :=
  ⟨(name, handler) :: registry.entries⟩

theorem get?_insert (registry : Registry) (name other : Text) (handler : Handler) :
    (registry.insert name handler).get? other =
      if other = name then some handler else registry.get? other := by
  simp only [insert, get?, List.lookup_cons]
  by_cases h : other = name
  · simp [h]
  · simp [h, beq_eq_false_iff_ne.mpr h]

def builtins : Registry := ⟨Builtin.all.map (fun builtin => (builtin.name, builtin.handler))⟩

def addProbes (registry : Registry) (probes : List Probe) : Registry :=
  probes.foldl (fun registry probe => registry.insert probe.name probe.handler) registry

end Registry

end LineShell
