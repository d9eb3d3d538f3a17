import LineShell.Environment

/-!
# Variables and their values

Names are unique, so a variable is listed with a value exactly when looking its name up
gives that value.

* `Environment.mem_entries_iff`: the list of variables and `get?` say the same.
* `Environment.forall_set`, `Environment.forall_erase`: what holds of all values still holds
  after a change, if it holds of the new value.
* `Environment.restrict`: the variables of some names. `restrict_set` and `restrict_erase` say
  that a change of another variable leaves them as they are, in their order.
* `Environment.entries_ofPairs`: pairs with distinct names are the variables they make.
* `Environment.IsTextBlock`: a block of texts. `exists_ofBlock_iff` says that it is such blocks that
  make an environment.
-/

namespace LineShell.Environment

theorem mem_entries_iff {env : Environment} {name value : Text} :
    (name, value) ∈ env.entries ↔ env.get? name = some value := by
  rw [get?, List.lookup_eq_some_iff]
  constructor
  · intro h
    obtain ⟨before, behind, heq⟩ := List.append_of_mem h
    refine ⟨before, behind, heq, fun entry hentry => bne_iff_ne.mpr fun hname => ?_⟩
    have hnodup := env.nodup
    rw [heq, List.map_append, List.map_cons] at hnodup
    exact (List.nodup_append.mp hnodup).2.2 entry.1 (List.mem_map_of_mem hentry) name
      List.mem_cons_self hname.symm
  · rintro ⟨before, behind, heq, -⟩
    rw [heq]
    exact List.mem_append_right before List.mem_cons_self

section

variable {P : Text → Prop} {env : Environment}

theorem forall_values_iff :
    (∀ entry ∈ env.entries, P entry.2) ↔ ∀ name value, env.get? name = some value → P value := by
  constructor
  · intro h name value hget
    exact h (name, value) (mem_entries_iff.mpr hget)
  · intro h entry hentry
    exact h entry.1 entry.2 (mem_entries_iff.mp hentry)

theorem forall_set {name value : Text} (h : ∀ entry ∈ env.entries, P entry.2) (hvalue : P value) :
    ∀ entry ∈ (env.set name value).entries, P entry.2 := by
  rw [forall_values_iff] at h ⊢
  intro other found hget
  rw [get?_set] at hget
  split at hget
  · cases hget
    exact hvalue
  · exact h other found hget

theorem forall_erase {name : Text} (h : ∀ entry ∈ env.entries, P entry.2) :
    ∀ entry ∈ (env.erase name).entries, P entry.2 := by
  intro entry hentry
  have hmem : entry ∈ env.entries := (List.mem_filter.mp hentry).1
  exact h entry hmem

end

/-! ## Some of the variables -/

/-- The variables with the names that are kept, in order. -/
def restrict (env : Environment) (kept : Text → Bool) : List (Text × Text) :=
  env.entries.filter (fun entry => kept entry.1)

section

variable {kept : Text → Bool} {name : Text}

theorem filter_setEntry (h : kept name = false) (value : Text) (entries : List (Text × Text)) :
    (setEntry name value entries).filter (fun entry => kept entry.1) =
      entries.filter (fun entry => kept entry.1) := by
  induction entries with
  | nil => simp [setEntry, h]
  | cons entry rest ih =>
    by_cases hentry : entry.1 = name
    · simp [setEntry, hentry, h]
    · simp only [setEntry, hentry, if_false, List.filter_cons, ih]

theorem restrict_set (h : kept name = false) (env : Environment) (value : Text) :
    (env.set name value).restrict kept = env.restrict kept :=
  filter_setEntry h value env.entries

theorem restrict_erase (h : kept name = false) (env : Environment) :
    (env.erase name).restrict kept = env.restrict kept := by
  change (env.entries.filter (fun entry => entry.1 != name)).filter _ = _
  rw [List.filter_filter]
  refine List.filter_congr fun entry _ => ?_
  by_cases hentry : entry.1 = name
  · simp [hentry, h]
  · simp [hentry]

theorem get?_eq_of_restrict_eq {env other : Environment}
    (h : env.restrict kept = other.restrict kept) (hname : kept name = true) :
    env.get? name = other.get? name := by
  have hmem : ∀ (found : Environment) value,
      found.get? name = some value ↔ (name, value) ∈ found.restrict kept := by
    intro found value
    rw [← mem_entries_iff, restrict, List.mem_filter, and_iff_left hname]
  refine Option.ext fun value => ?_
  rw [hmem, hmem, h]

end

/-! ## New variables -/

theorem setEntry_of_not_mem {name : Text} {entries : List (Text × Text)}
    (h : name ∉ entries.map Prod.fst) (value : Text) :
    setEntry name value entries = entries ++ [(name, value)] := by
  induction entries with
  | nil => rfl
  | cons entry rest ih =>
    rw [List.map_cons, List.mem_cons, not_or] at h
    rw [setEntry, if_neg (Ne.symm h.1), ih h.2, List.cons_append]

theorem entries_setAll {env : Environment} {pairs : List (Text × Text)}
    (h : ((env.entries ++ pairs).map Prod.fst).Nodup) :
    (env.setAll pairs).entries = env.entries ++ pairs := by
  induction pairs generalizing env with
  | nil => exact (List.append_nil _).symm
  | cons pair later ih =>
    have hnew : pair.1 ∉ env.entries.map Prod.fst := by
      rw [List.map_append, List.nodup_append] at h
      exact fun hmem => h.2.2 pair.1 hmem pair.1 List.mem_cons_self rfl
    have hset : (env.set pair.1 pair.2).entries = env.entries ++ [pair] :=
      setEntry_of_not_mem hnew pair.2
    have hcons : env.setAll (pair :: later) = (env.set pair.1 pair.2).setAll later := rfl
    rw [List.append_cons, ← hset] at h ⊢
    rw [hcons, ih h]

theorem entries_ofPairs {pairs : List (Text × Text)} (h : (pairs.map Prod.fst).Nodup) :
    (ofPairs pairs).entries = pairs :=
  entries_setAll h

/-! ## Blocks -/

/-- All variables of the block are UTF-8. A string that is no variable does not count. -/
def IsTextBlock (block : List Bytes) : Prop :=
  ∀ entry ∈ block.filterMap readEntry?, Utf8.IsText entry.1 ∧ Utf8.IsText entry.2

instance (block : List Bytes) : Decidable (IsTextBlock block) :=
  inferInstanceAs (Decidable
    (∀ entry ∈ block.filterMap readEntry?, Utf8.IsText entry.1 ∧ Utf8.IsText entry.2))

theorem exists_textEntry_iff {entry : Bytes × Bytes} :
    (∃ pair, textEntry entry = .ok pair) ↔ Utf8.IsText entry.1 ∧ Utf8.IsText entry.2 := by
  unfold textEntry Utf8.text?
  by_cases hname : Utf8.IsText entry.1
  · by_cases hvalue : Utf8.IsText entry.2
    · simp [hname, hvalue]
    · simp [hname, hvalue]
  · simp [hname]

theorem exists_textEntries_iff {entries : List (Bytes × Bytes)} :
    (∃ pairs, textEntries entries = .ok pairs) ↔
      ∀ entry ∈ entries, Utf8.IsText entry.1 ∧ Utf8.IsText entry.2 := by
  induction entries with
  | nil => simp [textEntries]
  | cons entry rest ih =>
    rw [List.forall_mem_cons, ← exists_textEntry_iff, ← ih, textEntries]
    cases textEntry entry with
    | error bytes => simp
    | ok pair => cases textEntries rest <;> simp [Except.map]

theorem exists_ofBlock_iff {block : List Bytes} :
    (∃ environment, ofBlock block = .ok environment) ↔ IsTextBlock block := by
  rw [IsTextBlock, ← exists_textEntries_iff, ofBlock]
  cases textEntries (block.filterMap readEntry?) <;> simp [Except.map]

end LineShell.Environment
