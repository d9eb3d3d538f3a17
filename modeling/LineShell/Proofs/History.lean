import LineShell.Proofs.Environment

/-!
# Histories of an environment

An environment is the work of all requests that were made of it, in order. The time of a request
is its place among them. So what an environment holds can be said without it: the value of a
name is the last one it was given, unless it was erased since, and names are listed in the order
in which they were born.

* `SetAt`, `ErasedAt`: what was asked of a name, and when.
* `Holds`, `BornAt`: the last value of a name, and its birth, of which there is at most one.
* `Follows`: an environment is what comes of a history. `Follows.concat` is the step to one more
  request, and `follows_foldl` the whole history.
* `entries_of_history`: the entries of an environment are those of its history.
-/

namespace LineShell.Environment

/-! ## What was asked, and when -/

def SetAt (history : List Request) (name : Text) (time : Nat) : Prop :=
  ∃ value, history[time]? = some (.set name value)

def ErasedAt (history : List Request) (name : Text) (time : Nat) : Prop :=
  history[time]? = some (.erase name)

/-- The value is the last one that the name was given, at this time, and it was not erased since. -/
structure Holds (history : List Request) (name value : Text) (time : Nat) : Prop where
  set : history[time]? = some (.set name value)
  last : ∀ other, SetAt history name other → other ≤ time
  kept : ∀ other, ErasedAt history name other → other < time

def ErasedAfter (history : List Request) (name : Text) (time : Nat) : Prop :=
  ∃ later, time < later ∧ ErasedAt history name later

/-- The name was set at this time, for the first time after it was last erased. -/
structure BornAt (history : List Request) (name : Text) (time : Nat) : Prop where
  set : SetAt history name time
  kept : ∀ other, ErasedAt history name other → other < time
  first : ∀ other, other < time → SetAt history name other → ErasedAfter history name other

def BornBefore (history : List Request) (name other : Text) : Prop :=
  ∃ time later, time < later ∧ BornAt history name time ∧ BornAt history other later

theorem BornAt.unique {history : List Request} {name : Text} {time other : Nat}
    (h : BornAt history name time) (hother : BornAt history name other) : time = other := by
  rcases Nat.lt_trichotomy time other with hlt | heq | hlt
  · obtain ⟨later, htime, herased⟩ := hother.first time hlt h.set
    have := h.kept later herased
    omega
  · exact heq
  · obtain ⟨later, htime, herased⟩ := h.first other hlt hother.set
    have := hother.kept later herased
    omega

theorem BornBefore.lt {history : List Request} {name other : Text} {time later : Nat}
    (h : BornBefore history name other) (htime : BornAt history name time)
    (hlater : BornAt history other later) : time < later := by
  obtain ⟨time', later', hlt, htime', hlater'⟩ := h
  rw [htime.unique htime', hlater.unique hlater']
  exact hlt

/-! ## One more request -/

/-- The name whose variable a request may change. -/
def Request.changed? : Request → Option Text
  | set name _ => some name
  | get _ => none
  | erase name => some name

section

variable {history : List Request} {request : Request} {name value : Text} {time : Nat}

theorem getElem?_concat {other : Request} :
    (history ++ [request])[time]? = some other ↔
      history[time]? = some other ∨ time = history.length ∧ request = other := by
  rcases Nat.lt_trichotomy time history.length with hlt | heq | hgt
  · have hne : time ≠ history.length := by omega
    rw [List.getElem?_append_left hlt]
    simp [hne]
  · subst heq
    simp
  · have hne : time ≠ history.length := by omega
    have hnone : history[time]? = none := List.getElem?_eq_none (by omega)
    have hlong : (history ++ [request])[time]? = none := List.getElem?_eq_none (by simp; omega)
    simp [hnone, hlong, hne]

theorem setAt_concat :
    SetAt (history ++ [request]) name time ↔
      SetAt history name time ∨ time = history.length ∧ ∃ value, request = .set name value := by
  simp only [SetAt, getElem?_concat, exists_or, exists_and_left]

theorem erasedAt_concat :
    ErasedAt (history ++ [request]) name time ↔
      ErasedAt history name time ∨ time = history.length ∧ request = .erase name :=
  getElem?_concat

theorem SetAt.lt_length (h : SetAt history name time) : time < history.length := by
  obtain ⟨value, hset⟩ := h
  exact (List.getElem?_eq_some_iff.mp hset).1

theorem ErasedAt.lt_length (h : ErasedAt history name time) : time < history.length :=
  (List.getElem?_eq_some_iff.mp h).1

theorem ErasedAfter.concat (h : ErasedAfter history name time) (request : Request) :
    ErasedAfter (history ++ [request]) name time := by
  obtain ⟨later, hlt, herased⟩ := h
  exact ⟨later, hlt, erasedAt_concat.mpr (Or.inl herased)⟩

/-- A request that does not change the variable adds nothing to what was asked of it. -/
theorem setAt_concat_of_ne (h : request.changed? ≠ some name) :
    SetAt (history ++ [request]) name time ↔ SetAt history name time := by
  rw [setAt_concat, or_iff_left]
  rintro ⟨-, value, rfl⟩
  exact h rfl

theorem erasedAt_concat_of_ne (h : request ≠ .erase name) :
    ErasedAt (history ++ [request]) name time ↔ ErasedAt history name time := by
  rw [erasedAt_concat, or_iff_left]
  rintro ⟨-, rfl⟩
  exact h rfl

theorem ne_erase_of_changed (h : request.changed? ≠ some name) : request ≠ .erase name := by
  rintro rfl
  exact h rfl

/-! ### Values -/

theorem holds_concat_of_ne (h : request.changed? ≠ some name) :
    Holds (history ++ [request]) name value time ↔ Holds history name value time := by
  have hset : (history ++ [request])[time]? = some (.set name value) ↔
      history[time]? = some (.set name value) := by
    rw [getElem?_concat, or_iff_left]
    rintro ⟨-, rfl⟩
    exact h rfl
  constructor
  · rintro ⟨htime, hlast, hkept⟩
    refine ⟨hset.mp htime, fun other hother => ?_, fun other hother => ?_⟩
    · exact hlast other ((setAt_concat_of_ne h).mpr hother)
    · exact hkept other ((erasedAt_concat_of_ne (ne_erase_of_changed h)).mpr hother)
  · rintro ⟨htime, hlast, hkept⟩
    refine ⟨hset.mpr htime, fun other hother => ?_, fun other hother => ?_⟩
    · exact hlast other ((setAt_concat_of_ne h).mp hother)
    · exact hkept other ((erasedAt_concat_of_ne (ne_erase_of_changed h)).mp hother)

theorem holds_concat_set {new : Text} :
    Holds (history ++ [.set name new]) name value time ↔ time = history.length ∧ new = value := by
  constructor
  · rintro ⟨htime, hlast, -⟩
    have hnew : SetAt (history ++ [.set name new]) name history.length :=
      setAt_concat.mpr (Or.inr ⟨rfl, new, rfl⟩)
    have hle := hlast history.length hnew
    rcases getElem?_concat.mp htime with hbefore | ⟨hlength, hrequest⟩
    · have := SetAt.lt_length ⟨value, hbefore⟩
      omega
    · exact ⟨hlength, (Request.set.inj hrequest).2⟩
  · rintro ⟨rfl, rfl⟩
    refine ⟨getElem?_concat.mpr (Or.inr ⟨rfl, rfl⟩), fun other hother => ?_, fun other hother => ?_⟩
    · have := hother.lt_length
      rw [List.length_append, List.length_singleton] at this
      omega
    · have hne : Request.set name new ≠ .erase name := by simp
      exact ((erasedAt_concat_of_ne hne).mp hother).lt_length

theorem not_holds_concat_erase : ¬ Holds (history ++ [.erase name]) name value time := by
  rintro ⟨htime, -, hkept⟩
  have herased : ErasedAt (history ++ [.erase name]) name history.length :=
    erasedAt_concat.mpr (Or.inr ⟨rfl, rfl⟩)
  have hlt := hkept history.length herased
  have := SetAt.lt_length ⟨value, htime⟩
  rw [List.length_append, List.length_singleton] at this
  omega

/-! ### Births -/

/-- A birth is a birth for as long as the name is not erased. -/
theorem BornAt.concat (h : BornAt history name time) (hrequest : request ≠ .erase name) :
    BornAt (history ++ [request]) name time where
  set := setAt_concat.mpr (Or.inl h.set)
  kept := fun other hother => h.kept other ((erasedAt_concat_of_ne hrequest).mp hother)
  first := by
    intro other hlt hother
    rcases setAt_concat.mp hother with hset | ⟨hlength, -⟩
    · exact (h.first other hlt hset).concat request
    · have := h.set.lt_length
      omega

/-- A name that is not there is born by setting it. -/
theorem bornAt_concat_set (h : ∀ other, SetAt history name other → ErasedAfter history name other) :
    BornAt (history ++ [.set name value]) name history.length where
  set := setAt_concat.mpr (Or.inr ⟨rfl, value, rfl⟩)
  kept := by
    intro other hother
    have hne : Request.set name value ≠ .erase name := by simp
    exact ((erasedAt_concat_of_ne hne).mp hother).lt_length
  first := by
    intro other hlt hother
    rcases setAt_concat.mp hother with hset | ⟨hlength, -⟩
    · exact (h other hset).concat _
    · omega

theorem BornBefore.concat {other : Text} (h : BornBefore history name other)
    (hname : request ≠ .erase name) (hother : request ≠ .erase other) :
    BornBefore (history ++ [request]) name other := by
  obtain ⟨time, later, hlt, htime, hlater⟩ := h
  exact ⟨time, later, hlt, htime.concat hname, hlater.concat hother⟩

end

/-! ## The environment of a history -/

/-- The environment is what comes of the history. -/
structure Follows (env : Environment) (history : List Request) : Prop where
  value : ∀ name value, env.get? name = some value ↔ ∃ time, Holds history name value time
  born : ∀ name ∈ env.names, ∃ time, BornAt history name time
  /-- A name that is not there has been erased after each time it was set. -/
  gone : ∀ name, name ∉ env.names → ∀ time, SetAt history name time →
    ErasedAfter history name time
  order : env.names.Pairwise (BornBefore history)

theorem get?_after_of_ne {env : Environment} {request : Request} {name : Text}
    (h : request.changed? ≠ some name) : (env.after request).get? name = env.get? name := by
  cases request with
  | set other value =>
    have hne : name ≠ other := fun heq => h (congrArg some heq.symm)
    rw [after, get?_set, if_neg hne]
  | get other => rfl
  | erase other =>
    have hne : name ≠ other := fun heq => h (congrArg some heq.symm)
    rw [after, get?_erase, if_neg hne]

theorem mem_names_after_of_ne {env : Environment} {request : Request} {name : Text}
    (h : request.changed? ≠ some name) : name ∈ (env.after request).names ↔ name ∈ env.names := by
  cases request with
  | set other value =>
    have hne : name ≠ other := fun heq => h (congrArg some heq.symm)
    rw [after, names_set]
    split
    · rfl
    · simp [hne]
  | get other => rfl
  | erase other =>
    have hne : name ≠ other := fun heq => h (congrArg some heq.symm)
    rw [after, names_erase, List.mem_filter]
    simp [hne]

theorem mem_names_iff {env : Environment} {name : Text} :
    name ∈ env.names ↔ ∃ value, env.get? name = some value := by
  simp only [names, List.mem_map, Prod.exists, exists_and_right, exists_eq_right, mem_entries_iff]

namespace Follows

variable {env : Environment} {history : List Request}

theorem empty : Follows empty [] where
  value := by
    intro name value
    refine iff_of_false (fun h => ?_) (fun ⟨time, htime⟩ => ?_)
    · cases h
    · cases htime.set
  born := fun name h => by cases h
  gone := fun name _ time ⟨value, hset⟩ => by cases hset
  order := List.Pairwise.nil

theorem value_concat (h : Follows env history) (request : Request) (name value : Text) :
    (env.after request).get? name = some value ↔
      ∃ time, Holds (history ++ [request]) name value time := by
  by_cases hchanged : request.changed? = some name
  · cases request with
    | set other new =>
      obtain rfl := Option.some.inj hchanged
      rw [after, get?_set, if_pos rfl, Option.some.injEq]
      simp only [holds_concat_set, exists_eq_left]
    | get other => cases hchanged
    | erase other =>
      obtain rfl := Option.some.inj hchanged
      rw [after, get?_erase, if_pos rfl]
      refine iff_of_false (fun hget => ?_) (fun ⟨time, htime⟩ => not_holds_concat_erase htime)
      cases hget
  · rw [get?_after_of_ne hchanged, h.value]
    simp only [holds_concat_of_ne hchanged]

theorem born_concat (h : Follows env history) (request : Request) {name : Text}
    (hname : name ∈ (env.after request).names) :
    ∃ time, BornAt (history ++ [request]) name time := by
  by_cases hold : name ∈ env.names
  · have hrequest : request ≠ .erase name := by
      rintro rfl
      rw [after, names_erase, List.mem_filter] at hname
      simp at hname
    obtain ⟨time, hborn⟩ := h.born name hold
    exact ⟨time, hborn.concat hrequest⟩
  · -- Only a request to set a name adds it.
    have hchanged : request.changed? = some name := by
      by_cases hne : request.changed? = some name
      · exact hne
      · exact absurd ((mem_names_after_of_ne hne).mp hname) hold
    cases request with
    | set other new =>
      obtain rfl := Option.some.inj hchanged
      exact ⟨history.length, bornAt_concat_set (h.gone other hold)⟩
    | get other => cases hchanged
    | erase other =>
      obtain rfl := Option.some.inj hchanged
      rw [after, names_erase] at hname
      exact absurd (List.mem_filter.mp hname).1 hold

theorem gone_concat (h : Follows env history) (request : Request) {name : Text}
    (hname : name ∉ (env.after request).names) {time : Nat}
    (htime : SetAt (history ++ [request]) name time) :
    ErasedAfter (history ++ [request]) name time := by
  by_cases hchanged : request.changed? = some name
  · cases request with
    | set other new =>
      obtain rfl := Option.some.inj hchanged
      refine absurd ?_ hname
      rw [mem_names_iff]
      exact ⟨new, by rw [after, get?_set, if_pos rfl]⟩
    | get other => cases hchanged
    | erase other =>
      obtain rfl := Option.some.inj hchanged
      rcases setAt_concat.mp htime with hset | ⟨-, value, hrequest⟩
      · exact ⟨history.length, hset.lt_length, erasedAt_concat.mpr (Or.inr ⟨rfl, rfl⟩)⟩
      · cases hrequest
  · rw [mem_names_after_of_ne hchanged] at hname
    rw [setAt_concat_of_ne hchanged] at htime
    exact (h.gone name hname time htime).concat request

theorem order_concat (h : Follows env history) (request : Request) :
    (env.after request).names.Pairwise (BornBefore (history ++ [request])) := by
  cases request with
  | set other new =>
    have hkept : env.names.Pairwise (BornBefore (history ++ [.set other new])) :=
      h.order.imp fun hbefore => hbefore.concat (by simp) (by simp)
    rw [after, names_set]
    split
    · exact hkept
    · rename_i hother
      refine List.pairwise_append.mpr ⟨hkept, List.pairwise_singleton _ _, ?_⟩
      intro name hname last hlast
      obtain rfl := List.mem_singleton.mp hlast
      obtain ⟨time, hborn⟩ := h.born name hname
      exact ⟨time, history.length, hborn.set.lt_length, hborn.concat (by simp),
        bornAt_concat_set (h.gone last hother)⟩
  | get other => exact h.order.imp fun hbefore => hbefore.concat (by simp) (by simp)
  | erase other =>
    rw [after, names_erase]
    refine (h.order.filter _).imp_of_mem ?_
    intro name later hname hlater hbefore
    have hne : ∀ kept ∈ env.names.filter (· != other), Request.erase other ≠ .erase kept := by
      intro kept hkept heq
      obtain rfl := Request.erase.inj heq
      simp at hkept
    exact hbefore.concat (hne name hname) (hne later hlater)

theorem concat (h : Follows env history) (request : Request) :
    Follows (env.after request) (history ++ [request]) where
  value := h.value_concat request
  born := fun _ hname => h.born_concat request hname
  gone := fun _ hname _ htime => h.gone_concat request hname htime
  order := h.order_concat request

theorem foldl (h : Follows env history) (requests : List Request) :
    Follows (requests.foldl after env) (history ++ requests) := by
  induction requests generalizing env history with
  | nil =>
    rw [List.append_nil]
    exact h
  | cons request requests ih =>
    rw [List.foldl_cons, List.append_cons]
    exact ih (h.concat request)

end Follows

theorem ofPairs_eq_foldl (pairs : List (Text × Text)) :
    ofPairs pairs = (pairs.map (fun pair => Request.set pair.1 pair.2)).foldl after .empty := by
  rw [List.foldl_map]
  rfl

/-- **An environment is what its history says.** Take the pairs it was made of as requests to set
them. Names are unique, and a name is there if and only if it was set later than it was last
erased. Its value is that of the last time it was set, and this is what asking for it and erasing
it answer. Names are listed in the order in which they were born, so to set one that is there
moves none, and to erase one takes it out and leaves the others in their order. -/
theorem entries_of_history (pairs : List (Text × Text)) (requests : List Request) :
    let history := pairs.map (fun pair => Request.set pair.1 pair.2) ++ requests
    let env := requests.foldl after (ofPairs pairs)
    env.names.Nodup ∧
    (∀ name, name ∈ env.names ↔ ∃ value time, Holds history name value time) ∧
    (∀ name value,
      (env.answer (.get name) = some value ↔ ∃ time, Holds history name value time) ∧
      (env.answer (.erase name) = some value ↔ ∃ time, Holds history name value time) ∧
      ((name, value) ∈ env.entries ↔ ∃ time, Holds history name value time)) ∧
    (∀ name, name ∈ env.names ↔ ∃ time, BornAt history name time) ∧
    env.names.Pairwise (fun name other =>
      ∀ time later, BornAt history name time → BornAt history other later → time < later) ∧
    (∀ name value, name ∈ env.names → (env.set name value).names = env.names) ∧
    ∀ name, (env.erase name).names = env.names.erase name := by
  intro history env
  have hfollows : Follows env history := by
    have hall := Follows.empty.foldl history
    rwa [List.nil_append, List.foldl_append, ← ofPairs_eq_foldl] at hall
  refine ⟨env.nodup, ?_, ?_, ?_, ?_, ?_, ?_⟩
  · intro name
    simp only [mem_names_iff, hfollows.value]
  · intro name value
    exact ⟨hfollows.value name value, hfollows.value name value,
      mem_entries_iff.trans (hfollows.value name value)⟩
  · intro name
    refine ⟨hfollows.born name, ?_⟩
    rintro ⟨time, hborn⟩
    by_cases hname : name ∈ env.names
    · exact hname
    · obtain ⟨later, hlt, herased⟩ := hfollows.gone name hname time hborn.set
      have := hborn.kept later herased
      omega
  · refine hfollows.order.imp ?_
    intro name other hbefore time later htime hlater
    exact hbefore.lt htime hlater
  · intro name value hname
    rw [names_set, if_pos hname]
  · intro name
    have hnodup : env.names.Nodup := env.nodup
    rw [names_erase, hnodup.erase_eq_filter]

/-- A name that is set again stays where it is, and one that is erased in between comes last. -/
example :
    ([.set "C".toList "3".toList, .erase "B".toList, .set "A".toList "4".toList,
        .set "B".toList "5".toList].foldl after
      (ofPairs [("A".toList, "1".toList), ("B".toList, "2".toList)])).entries =
      [("A".toList, "4".toList), ("C".toList, "3".toList), ("B".toList, "5".toList)] := by
  decide

end LineShell.Environment
