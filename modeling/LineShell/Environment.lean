import LineShell.Text.Utf8

/-!
# The environment

Variables in the order in which they came into being. Names are unique: setting a name that
is there changes its value in place, and a new name goes to the end.

* `Environment.get?`, `set`, `erase`: the three operations. `names_set` and `names_erase`
  say what they do to the list of names, `get?_set` and `get?_erase` what to the values.
* `Environment.ofPairs`: the environment made by setting pairs one after another.
* `Environment.block`: the `NAME=VALUE` texts that a started program receives.
* `Environment.ofBlock`: the environment that a started program makes of the bytes it received,
  or the first of them that are no text.
* `Environment.blockValue?`: the value of one name among these bytes.
-/

namespace LineShell

@[ext]
structure Environment where
  entries : List (Text × Text) := []
  nodup : (entries.map Prod.fst).Nodup := by simp
deriving DecidableEq

namespace Environment

/-! ## Lists of entries -/

/-- Change the entry of a name in place, or add one at the end. -/
def setEntry (name value : Text) : List (Text × Text) → List (Text × Text)
  | [] => [(name, value)]
  | entry :: rest =>
    if entry.1 = name then (name, value) :: rest else entry :: setEntry name value rest

def eraseEntry (name : Text) (entries : List (Text × Text)) : List (Text × Text) :=
  entries.filter (fun entry => entry.1 != name)

theorem names_setEntry (name value : Text) (entries : List (Text × Text)) :
    (setEntry name value entries).map Prod.fst =
      if name ∈ entries.map Prod.fst then entries.map Prod.fst
      else entries.map Prod.fst ++ [name] := by
  induction entries with
  | nil => simp [setEntry]
  | cons entry rest ih =>
    by_cases h : entry.1 = name
    · simp [setEntry, h]
    · have h' : ¬ name = entry.1 := fun e => h e.symm
      simp only [setEntry, h, if_false, List.map_cons, ih, List.mem_cons, h', false_or]
      split <;> simp

theorem nodup_setEntry (name value : Text) {entries : List (Text × Text)}
    (h : (entries.map Prod.fst).Nodup) :
    ((setEntry name value entries).map Prod.fst).Nodup := by
  rw [names_setEntry]
  split
  · exact h
  · rename_i hn
    refine List.nodup_append.mpr ⟨h, by simp, ?_⟩
    intro a ha b hb hab
    simp only [List.mem_singleton] at hb
    exact hn (hb ▸ hab ▸ ha)

theorem names_eraseEntry (name : Text) (entries : List (Text × Text)) :
    (eraseEntry name entries).map Prod.fst = (entries.map Prod.fst).filter (· != name) := by
  simp only [eraseEntry, List.filter_map]
  rfl

theorem nodup_eraseEntry (name : Text) {entries : List (Text × Text)}
    (h : (entries.map Prod.fst).Nodup) :
    ((eraseEntry name entries).map Prod.fst).Nodup := by
  rw [names_eraseEntry]
  exact h.filter _

theorem lookup_entry (other name value : Text) (entries : List (Text × Text)) :
    List.lookup other ((name, value) :: entries) =
      if other = name then some value else entries.lookup other := by
  rw [List.lookup_cons]
  by_cases h : other = name
  · simp [h]
  · simp [h, beq_eq_false_iff_ne.mpr h]

theorem lookup_setEntry (name value other : Text) (entries : List (Text × Text)) :
    (setEntry name value entries).lookup other =
      if other = name then some value else entries.lookup other := by
  induction entries with
  | nil => exact lookup_entry other name value []
  | cons entry rest ih =>
    obtain ⟨key, old⟩ := entry
    simp only [setEntry, lookup_entry]
    by_cases hkey : key = name
    · rw [if_pos hkey, lookup_entry, hkey]
      split <;> rfl
    · rw [if_neg hkey, lookup_entry, ih]
      by_cases hother : other = key
      · rw [if_pos hother, if_pos hother, if_neg (hother ▸ hkey)]
      · rw [if_neg hother, if_neg hother]

theorem lookup_eraseEntry (name other : Text) (entries : List (Text × Text)) :
    (eraseEntry name entries).lookup other =
      if other = name then none else entries.lookup other := by
  induction entries with
  | nil => simp [eraseEntry]
  | cons entry rest ih =>
    obtain ⟨key, old⟩ := entry
    by_cases hkey : key = name
    · have hcons : eraseEntry name ((key, old) :: rest) = eraseEntry name rest := by
        simp [eraseEntry, hkey]
      rw [hcons, ih, lookup_entry, hkey]
      split <;> rfl
    · have hcons : eraseEntry name ((key, old) :: rest) = (key, old) :: eraseEntry name rest := by
        simp [eraseEntry, hkey]
      rw [hcons, lookup_entry, lookup_entry, ih]
      by_cases hother : other = key
      · rw [if_pos hother, if_pos hother, if_neg (hother ▸ hkey)]
      · rw [if_neg hother, if_neg hother]

/-! ## Operations -/

def empty : Environment := {}

def names (env : Environment) : List Text := env.entries.map Prod.fst

def get? (env : Environment) (name : Text) : Option Text := env.entries.lookup name

def set (env : Environment) (name value : Text) : Environment where
  entries := setEntry name value env.entries
  nodup := nodup_setEntry name value env.nodup

def erase (env : Environment) (name : Text) : Environment where
  entries := eraseEntry name env.entries
  nodup := nodup_eraseEntry name env.nodup

theorem names_set (env : Environment) (name value : Text) :
    (env.set name value).names =
      if name ∈ env.names then env.names else env.names ++ [name] :=
  names_setEntry name value env.entries

theorem names_erase (env : Environment) (name : Text) :
    (env.erase name).names = env.names.filter (· != name) :=
  names_eraseEntry name env.entries

theorem get?_set (env : Environment) (name value other : Text) :
    (env.set name value).get? other = if other = name then some value else env.get? other :=
  lookup_setEntry name value other env.entries

theorem get?_erase (env : Environment) (name other : Text) :
    (env.erase name).get? other = if other = name then none else env.get? other :=
  lookup_eraseEntry name other env.entries

/-- Set each pair in turn. -/
def setAll (env : Environment) (pairs : List (Text × Text)) : Environment :=
  pairs.foldl (fun env pair => env.set pair.1 pair.2) env

def ofPairs (pairs : List (Text × Text)) : Environment := empty.setAll pairs

/-! ## Requests

The three operations as data, so that a history of them is a list. -/

inductive Request where
  | set (name value : Text)
  | get (name : Text)
  | erase (name : Text)
deriving DecidableEq, Repr

/-- The environment after a request. -/
def after (env : Environment) : Request → Environment
  | .set name value => env.set name value
  | .get _ => env
  | .erase name => env.erase name

/-- What a request answers: the value of the name before it, and nothing for a new value. -/
def answer (env : Environment) : Request → Option Text
  | .set _ _ => none
  | .get name => env.get? name
  | .erase name => env.get? name

/-! ## The form programs receive -/

def entryText (entry : Text × Text) : Text := entry.1 ++ '=' :: entry.2

/-- The `NAME=VALUE` texts, sorted by name. -/
def block (env : Environment) : List Text :=
  (env.entries.mergeSort (fun a b => Text.precedes a.1 b.1)).map entryText

/-- The byte between a name and its value. -/
def equals : UInt8 := 0x3D

/-- Cut a `NAME=VALUE` string at its first `=`. The first byte always belongs to the name, and a
string without a later `=` is no variable. -/
def readEntry? : Bytes → Option (Bytes × Bytes)
  | [] => none
  | byte :: rest =>
    match rest.dropWhile (· != equals) with
    | [] => none
    | _ :: value => some (byte :: rest.takeWhile (· != equals), value)

/-- A variable as texts, or else the first of its two parts that is no text. -/
def textEntry (entry : Bytes × Bytes) : Except Bytes (Text × Text) :=
  match Utf8.text? entry.1, Utf8.text? entry.2 with
  | none, _ => .error entry.1
  | some _, none => .error entry.2
  | some name, some value => .ok (name, value)

/-- Variables as texts, up to the first that is none. -/
def textEntries : List (Bytes × Bytes) → Except Bytes (List (Text × Text))
  | [] => .ok []
  | entry :: rest =>
    match textEntry entry with
    | .error bytes => .error bytes
    | .ok pair => (textEntries rest).map (pair :: ·)

/-- The environment that a started program makes of its block. All of it must be UTF-8. -/
def ofBlock (block : List Bytes) : Except Bytes Environment :=
  (textEntries (block.filterMap readEntry?)).map ofPairs

/-- The value of a name in a block. Where a name comes twice, the first one counts. -/
def blockValue? (block : List Bytes) (name : Text) : Option Bytes :=
  (block.filterMap readEntry?).lookup (Utf8.encode name)

end Environment

end LineShell
