import LineShell.Proofs.CanonicalPath
import LineShell.Proofs.Command

/-!
# Changing the directory

A session holds its directory, and the directory before it, in three places: by itself, in `PWD`
and in `OLDPWD`. `cd` either moves on and writes all three, or leaves all three as they are; only
without a home directory it remembers the directory in `OLDPWD` and stays.

* `Directory.LeadsTo`: the path that a target stands for. `LeadsTo.destination_eq` says that the
  destination is this path.
* `Directory.Refused`, `Directory.Stayed`, `Directory.Moved`: the ways in which `cd` ends;
  `Directory.cd_ends` says that there is no other.
* `Directory.Between`: a session that has just moved from one directory to another.
* `Directory.CanReturn`: a directory that `cd -` finds again.
* `Directory.cd_back`: `cd -` goes back. `Directory.cd_alternates` is the run of it.
-/

namespace LineShell.Directory

/-! ## Targets -/

/-- Targets that stand for the home directory. -/
def MeansHome (target : Option Text) : Prop :=
  target = none ∨ target = some ['~'] ∨ target = some ['-', '-']

instance (target : Option Text) : Decidable (MeansHome target) :=
  inferInstanceAs (Decidable (target = none ∨ target = some ['~'] ∨ target = some ['-', '-']))

/-- The argument is read as an option, and `cd` has none. -/
def IsOption (arg : Text) : Prop := arg.head? = some '-' ∧ arg ≠ ['-'] ∧ arg ≠ ['-', '-']

/-- The path that a target stands for in a session. -/
inductive LeadsTo (s : Session) : Option Text → Text → Prop
  | home {target : Option Text} {path : Text} (htarget : MeansHome target)
      (hhome : s.environment.get? homeName = some path) : LeadsTo s target path
  | back {path : Text} (hprevious : s.environment.get? previousName = some path) :
      LeadsTo s (some ['-']) path
  | stay (hprevious : s.environment.get? previousName = none) :
      LeadsTo s (some ['-']) s.directoryText
  | path {path : Text} (hhome : ¬ MeansHome (some path)) (hback : path ≠ ['-']) :
      LeadsTo s (some path) path

theorem target_cases (args : List Text) :
    (∃ arg ∈ args.head?, IsOption arg ∧
      target args = .error (.usage name ("Illegal option ".toList ++ arg.take 2) 2)) ∨
    (∀ arg ∈ args.head?, ¬ IsOption arg) ∧ target args = .ok args.head? := by
  cases args with
  | nil => exact Or.inr ⟨by simp, rfl⟩
  | cons arg others =>
    by_cases h : IsOption arg
    · exact Or.inl ⟨arg, rfl, h, if_pos h⟩
    · refine Or.inr ⟨?_, if_neg h⟩
      rintro _ ⟨⟩
      exact h

theorem destination_home (s : Session) {target : Option Text} (h : MeansHome target) :
    destination s target = (s.environment.get? homeName).map (⟨·, false⟩) :=
  if_pos h

theorem destination_back (s : Session) :
    destination s (some ['-']) =
      some ⟨(s.environment.get? previousName).getD s.directoryText, true⟩ := by
  rw [destination, if_neg (by decide), if_pos rfl]

theorem destination_path (s : Session) {path : Text} (hhome : ¬ MeansHome (some path))
    (hback : path ≠ ['-']) : destination s (some path) = some ⟨path, false⟩ := by
  have hne : some path ≠ some ['-'] := fun heq => hback (Option.some.inj heq)
  exact (if_neg hhome).trans (if_neg hne)

/-- Only the directory before is announced. -/
theorem LeadsTo.destination_eq {s : Session} {target : Option Text} {path : Text}
    (h : LeadsTo s target path) :
    destination s target = some ⟨path, decide (target = some ['-'])⟩ := by
  cases h with
  | home htarget hhome =>
    have hback : target ≠ some ['-'] := by
      rintro rfl
      revert htarget
      decide
    rw [destination_home s htarget, hhome, decide_eq_false hback]
    rfl
  | back hprevious =>
    rw [destination_back, hprevious]
    rfl
  | stay hprevious =>
    rw [destination_back, hprevious]
    rfl
  | path hhome hback =>
    have hne : some path ≠ some ['-'] := fun heq => hback (Option.some.inj heq)
    rw [destination_path s hhome hback, decide_eq_false hne]

theorem exists_leadsTo {s : Session} {target : Option Text}
    (h : ¬ (MeansHome target ∧ s.environment.get? homeName = none)) :
    ∃ path, LeadsTo s target path := by
  by_cases htarget : MeansHome target
  · have hset : s.environment.get? homeName ≠ none := fun hhome => h ⟨htarget, hhome⟩
    obtain ⟨path, hhome⟩ := Option.ne_none_iff_exists'.mp hset
    exact ⟨path, .home htarget hhome⟩
  · cases target with
    | none => exact absurd (Or.inl rfl) htarget
    | some path =>
      by_cases hback : path = ['-']
      · rw [hback]
        cases hprevious : s.environment.get? previousName with
        | none => exact ⟨s.directoryText, .stay hprevious⟩
        | some previous => exact ⟨previous, .back hprevious⟩
      · exact ⟨path, .path htarget hback⟩

/-! ## Completions -/

/-- The announcement of a directory, as it is written. -/
def announcement (path : Path) : List Text := [Utf8.decode path, ['\n']]

section

variable {s : Session} {tree : FileTree} {target : Option Text} {path : Text}

theorem complete_of_error {args : List Text} {error : ShellError}
    (h : Directory.target args = .error error) (tree : FileTree) (s : Session) (out : OutStream) :
    Builtin.cd.complete args tree s out = .silent (.error error) s out := by
  rw [Builtin.complete, Builtin.handler, Builtin.task?, h]
  rfl

theorem complete_of_ok {args : List Text} (h : Directory.target args = .ok args.head?)
    (tree : FileTree) (s : Session) (out : OutStream) :
    Builtin.cd.complete args tree s out = change args.head? tree s out := by
  rw [Builtin.complete, Builtin.handler, Builtin.task?, h]
  rfl

theorem change_of_homeless (htarget : MeansHome target)
    (hhome : s.environment.get? homeName = none) (tree : FileTree) (out : OutStream) :
    change target tree s out = .silent (.ok 0) (remember s) out := by
  rw [change, destination_home s htarget, hhome]
  rfl

theorem LeadsTo.change_of_missing (h : LeadsTo s target path)
    (hpath : tree.canonicalDirectory? (s.pathOf path) = none) (out : OutStream) :
    change target tree s out =
      .silent (.error (.usage name ("can't cd to ".toList ++ path) 2)) s out := by
  rw [change, h.destination_eq]
  dsimp only
  rw [hpath]

theorem LeadsTo.change_of_found (h : LeadsTo s target path) {canonical : Path}
    (hpath : tree.canonicalDirectory? (s.pathOf path) = some canonical)
    (out : OutStream) :
    change target tree s out =
      if target = some ['-'] then
        .printing (announcement canonical) (.ok 0) (moveTo s canonical) out
      else .silent (.ok 0) (moveTo s canonical) out := by
  rw [change, h.destination_eq]
  dsimp only
  rw [hpath]
  simp only [decide_eq_true_eq, announcement]

end

/-! ## All or nothing -/

/-- `cd` refuses to move: the argument is an option, or its path leads to no directory that the
system can be given the path of. -/
structure Refused (tree : FileTree) (s : Session) (args : List Text) (done : Completion) :
    Prop where
  reason : (∃ arg ∈ args.head?, IsOption arg) ∨
    ∃ path, LeadsTo s args.head? path ∧
      ∀ location, tree.Finds (s.pathOf path) location → ¬ location.path.IsPassable
  result : ∃ problem, done.result = .error (.usage name problem 2)
  session : done.session = s

/-- There is no home directory to move to, and only `OLDPWD` changes. -/
structure Stayed (s : Session) (args : List Text) (done : Completion) : Prop where
  target : MeansHome args.head?
  home : s.environment.get? homeName = none
  result : done.result = .ok 0
  session : done.session =
    { s with environment := s.environment.set previousName s.directoryText }
  previous : done.session.environment.get? previousName = some s.directoryText
  others : ∀ other, other ≠ previousName →
    done.session.environment.get? other = s.environment.get? other

/-- The session moves to the directory at a location, whether or not this can be announced. -/
structure Moved (tree : FileTree) (s : Session) (args : List Text) (out : OutStream) (path : Text)
    (location : Location) (done : Completion) : Prop where
  leads : LeadsTo s args.head? path
  finds : tree.Finds (s.pathOf path) location
  canonical : tree.IsCanonical location.path
  session : done.session =
    { s with
      directory := location.path
      environment := (s.environment.set previousName s.directoryText).set currentName
        (Utf8.decode location.path) }
  current : done.session.environment.get? currentName = some (Utf8.decode location.path)
  previous : done.session.environment.get? previousName = some s.directoryText
  others : ∀ other, other ≠ previousName → other ≠ currentName →
    done.session.environment.get? other = s.environment.get? other
  unannounced : args.head? = some ['-'] →
    ∀ problem, (out.writeTexts (announcement location.path)).failure = some problem →
      done.result = .error (.io problem)
  announced : (args.head? = some ['-'] →
      (out.writeTexts (announcement location.path)).failure = none) →
    done.result = .ok 0

theorem remember_previous (s : Session) :
    (remember s).environment.get? previousName = some s.directoryText := by
  rw [remember, Environment.get?_set, if_pos rfl]

theorem remember_others (s : Session) {other : Text} (h : other ≠ previousName) :
    (remember s).environment.get? other = s.environment.get? other := by
  rw [remember, Environment.get?_set, if_neg h]

theorem moveTo_current (s : Session) (path : Path) :
    (moveTo s path).environment.get? currentName = some (Utf8.decode path) := by
  rw [moveTo, Environment.get?_set, if_pos rfl]

theorem moveTo_others (s : Session) (path : Path) {other : Text} (h : other ≠ currentName) :
    (moveTo s path).environment.get? other = (remember s).environment.get? other := by
  rw [moveTo, Environment.get?_set, if_neg h]

theorem moveTo_previous (s : Session) (path : Path) :
    (moveTo s path).environment.get? previousName = some s.directoryText := by
  have hne : previousName ≠ currentName := by decide
  rw [moveTo_others s path hne, remember_previous]

theorem LeadsTo.moved {tree : FileTree} {s : Session} {args : List Text} {path : Text}
    (hleads : LeadsTo s args.head? path) {location : Location}
    (hfinds : tree.Finds (s.pathOf path) location) (hpass : location.path.IsPassable)
    (out : OutStream) :
    Moved tree s args out path location (change args.head? tree s out) := by
  have hpath := FileTree.canonicalDirectory?_eq_some_iff.mpr ⟨location, hfinds, hpass, rfl⟩
  have hdone := hleads.change_of_found hpath out
  have hsession : (change args.head? tree s out).session = moveTo s location.path := by
    rw [hdone]
    split
    · rfl
    · rfl
  refine
    { leads := hleads
      finds := hfinds
      canonical := FileTree.isCanonical_of_canonicalDirectory? hpath
      session := hsession
      current := by rw [hsession, moveTo_current]
      previous := by rw [hsession, moveTo_previous]
      others := ?_
      unannounced := ?_
      announced := ?_ }
  · intro other hprevious hcurrent
    rw [hsession, moveTo_others s _ hcurrent, remember_others s hprevious]
  · intro hback problem hfailure
    rw [hdone, if_pos hback, Completion.printing]
    exact Written.check_of_failure hfailure (.ok 0)
  · intro hwritten
    rw [hdone]
    split
    · rename_i hback
      exact Written.check_of_complete (hwritten hback) (.ok 0)
    · rfl

/-- **A change is made as a whole or not at all.** `cd` is refused and nothing has changed, or
there is no home directory and only `OLDPWD` has been set, or the directory, `PWD` and `OLDPWD`
have changed together. After the last it only fails if `cd -` cannot announce the directory, and
the move is complete then, too. -/
theorem cd_ends (tree : FileTree) (s : Session) (args : List Text) (out : OutStream) :
    Refused tree s args (Builtin.cd.complete args tree s out) ∨
      Stayed s args (Builtin.cd.complete args tree s out) ∨
      ∃ path location, Moved tree s args out path location
        (Builtin.cd.complete args tree s out) := by
  rcases target_cases args with ⟨arg, harg, hoption, htarget⟩ | ⟨-, htarget⟩
  · rw [complete_of_error htarget]
    exact Or.inl ⟨Or.inl ⟨arg, harg, hoption⟩, ⟨_, rfl⟩, rfl⟩
  rw [complete_of_ok htarget]
  by_cases hstay : MeansHome args.head? ∧ s.environment.get? homeName = none
  · rw [change_of_homeless hstay.1 hstay.2]
    exact Or.inr (Or.inl ⟨hstay.1, hstay.2, rfl, rfl, remember_previous s,
      fun _ hother => remember_others s hother⟩)
  obtain ⟨path, hleads⟩ := exists_leadsTo hstay
  cases hpath : tree.canonicalDirectory? (s.pathOf path) with
  | none =>
    rw [hleads.change_of_missing hpath]
    have hmissing := FileTree.canonicalDirectory?_eq_none_iff.mp hpath
    exact Or.inl ⟨Or.inr ⟨path, hleads, hmissing⟩, ⟨_, rfl⟩, rfl⟩
  | some canonical =>
    obtain ⟨location, hfinds, hpass, -⟩ := FileTree.canonicalDirectory?_eq_some_iff.mp hpath
    exact Or.inr (Or.inr ⟨path, location, hleads.moved hfinds hpass out⟩)

/-- The stream takes the slash of the announcement and fails, and the move is complete. -/
theorem cd_ends_unannounced :
    let tree : FileTree := ⟨[(["d".toList].map Utf8.encode, .directory)]⟩
    let s : Session :=
      { environment := .ofPairs [("OLDPWD".toList, "d/.".toList), ("A".toList, "1".toList)]
        processId := "7".toList
        programName := "sh".toList }
    let out : OutStream := { room := some 1, later := [(none, "never".toList)] }
    let done := Builtin.cd.complete [['-']] tree s out
    done.result = .error (.io "disk full".toList) ∧ done.printed = Utf8.encode ['/'] ∧
      done.session.directory = Utf8.encode "/d".toList ∧
      done.session.environment.get? currentName = some "/d".toList ∧
      done.session.environment.get? previousName = some ['/'] ∧
      done.session.environment.get? "A".toList = some ['1'] := by
  intro tree s out done
  have hresult : done.result = .error (.io "disk full".toList) := by rfl
  have hdirectory : done.session.directory = Utf8.encode "/d".toList := by decide +kernel
  rcases cd_ends tree s [['-']] out with hrefused | hstayed | ⟨path, location, hmoved⟩
  · obtain ⟨problem, hother⟩ := hrefused.result
    cases hother.symm.trans hresult
  · cases hstayed.result.symm.trans hresult
  · have hpath : location.path = Utf8.encode "/d".toList := by
      rw [← hdirectory]
      exact (congrArg Session.directory hmoved.session).symm
    have hcurrent : done.session.environment.get? currentName = some (Utf8.decode location.path) :=
      hmoved.current
    rw [hpath] at hcurrent
    exact ⟨hresult, by decide +kernel, hdirectory, hcurrent, hmoved.previous,
      hmoved.others "A".toList (by decide) (by decide)⟩

/-! ## There and back again -/

/-- The session has come here from there, and nothing has gone wrong. -/
structure Between (here there : Path) (done : Completion) : Prop where
  result : done.result = .ok 0
  directory : done.session.directory = here
  current : done.session.environment.get? currentName = some (Utf8.decode here)
  previous : done.session.environment.get? previousName = some (Utf8.decode there)

theorem between_moveTo (s : Session) (path : Path) (printed : Bytes) (out : OutStream) :
    Between path s.directory ⟨.ok 0, moveTo s path, printed, out⟩ where
  result := rfl
  directory := rfl
  current := moveTo_current s path
  previous := moveTo_previous s path

/-- `cd` comes back to a directory whose path is a text and can be passed on. -/
structure CanReturn (tree : FileTree) (path : Path) : Prop where
  canonical : tree.IsCanonical path
  short : path.length < FileTree.pathLimit
  isText : Utf8.IsText path

/-- The path leads to its directory from anywhere. -/
theorem CanReturn.canonicalDirectory?_pathOf {tree : FileTree} (htree : tree.Settled) {path : Path}
    (h : CanReturn tree path) (s : Session) :
    tree.canonicalDirectory? (s.pathOf (Utf8.decode path)) = some path := by
  have habsolute : path.isAbsolute = true := by
    obtain ⟨location, -, -, rfl⟩ := h.canonical
    exact location.isAbsolute_path
  rw [Session.pathOf, h.isText, Path.join, if_pos habsolute]
  exact htree.canonicalDirectory?_eq h.canonical h.short

theorem cd_back {tree : FileTree} (htree : tree.Settled) {here there : Path} {done : Completion}
    (h : Between here there done) (hthere : CanReturn tree there) (hroom : done.out.room = none) :
    Between there here (Builtin.cd.complete [['-']] tree done.session done.out) ∧
      (Builtin.cd.complete [['-']] tree done.session done.out).printed =
        there ++ Utf8.encode ['\n'] ∧
      (Builtin.cd.complete [['-']] tree done.session done.out).out = done.out := by
  have hline : Utf8.encode (announcement there).flatten = there ++ Utf8.encode ['\n'] := by
    rw [announcement, List.flatten_cons, Utf8.encode_append, hthere.isText]
    rfl
  have hwritten : done.out.writeTexts (announcement there) =
      ⟨there ++ Utf8.encode ['\n'], none, done.out⟩ := by
    rw [OutStream.writeTexts_of_unlimited hroom, hline]
  have hfound := hthere.canonicalDirectory?_pathOf htree done.session
  have hleads : LeadsTo done.session (some ['-']) (Utf8.decode there) := .back h.previous
  have hdone : Builtin.cd.complete [['-']] tree done.session done.out =
      ⟨.ok 0, moveTo done.session there, there ++ Utf8.encode ['\n'], done.out⟩ := by
    rw [complete_of_ok rfl, List.head?_cons, hleads.change_of_found hfound, if_pos rfl,
      Completion.printing, hwritten]
    rfl
  rw [hdone, ← h.directory]
  exact ⟨between_moveTo done.session there _ done.out, rfl, rfl⟩

/-- A change that succeeds, other than by `cd -` or without a home directory, is a move. -/
theorem exists_moveTo {tree : FileTree} {s : Session} {args : List Text}
    (hback : args.head? ≠ some ['-'])
    (hhome : ¬ (MeansHome args.head? ∧ s.environment.get? homeName = none)) {out : OutStream}
    (hdone : (Builtin.cd.complete args tree s out).result = .ok 0) :
    ∃ path, tree.IsCanonical path ∧ path.length < FileTree.pathLimit ∧
      Builtin.cd.complete args tree s out = ⟨.ok 0, moveTo s path, [], out⟩ := by
  rcases target_cases args with ⟨arg, -, -, htarget⟩ | ⟨-, htarget⟩
  · rw [complete_of_error htarget] at hdone
    cases hdone
  rw [complete_of_ok htarget] at hdone ⊢
  obtain ⟨path, hleads⟩ := exists_leadsTo hhome
  cases hpath : tree.canonicalDirectory? (s.pathOf path) with
  | none =>
    rw [hleads.change_of_missing hpath] at hdone
    cases hdone
  | some canonical =>
    rw [hleads.change_of_found hpath, if_neg hback]
    exact ⟨canonical, FileTree.isCanonical_of_canonicalDirectory? hpath,
      (FileTree.isPassable_of_canonicalDirectory? hpath).1, rfl⟩

/-- The last completion of a command that is followed by so many `cd -`. -/
def returns (tree : FileTree) (first : Completion) : Nat → Completion
  | 0 => first
  | n + 1 =>
    Builtin.cd.complete [['-']] tree (returns tree first n).session (returns tree first n).out

theorem ite_succ_mod_two {α : Type} (n : Nat) (a b : α) :
    (if (n + 1) % 2 = 0 then a else b) = if n % 2 = 0 then b else a := by
  by_cases h : n % 2 = 0
  · rw [if_pos h, if_neg (by omega)]
  · rw [if_neg h, if_pos (by omega)]

/-- Two directories take turns. The induction is on the number of returns; the stream stays without
a limit because nothing that is written uses one up. -/
theorem returns_between {tree : FileTree} (htree : tree.Settled) {here there : Path}
    {first : Completion} (h : Between here there first) (hhere : CanReturn tree here)
    (hthere : CanReturn tree there) (hroom : first.out.room = none) (n : Nat) :
    Between (if n % 2 = 0 then here else there) (if n % 2 = 0 then there else here)
        (returns tree first n) ∧
      (returns tree first n).out.room = none ∧
      (0 < n → (returns tree first n).printed =
        (if n % 2 = 0 then here else there) ++ Utf8.encode ['\n']) := by
  induction n with
  | zero => exact ⟨h, hroom, fun hpos => absurd hpos (Nat.lt_irrefl 0)⟩
  | succ n ih =>
    obtain ⟨hbetween, hlast, -⟩ := ih
    have hnext : CanReturn tree (if n % 2 = 0 then there else here) := by
      split
      · exact hthere
      · exact hhere
    obtain ⟨hback, hprinted, hout⟩ := cd_back htree hbetween hnext hlast
    rw [ite_succ_mod_two, ite_succ_mod_two]
    exact ⟨hback, (congrArg OutStream.room hout).trans hlast, fun _ => hprinted⟩

/-- **`cd -` goes to and fro.** After a change to another directory, each `cd -` goes back to where
the session was before and prints where that is, if the paths of the two directories are texts and
the first one is not too long for the system. -/
theorem cd_alternates {tree : FileTree} (htree : tree.Settled) {s : Session}
    (hs : tree.IsCanonical s.directory) (hshort : s.directory.length < FileTree.pathLimit)
    (htext : Utf8.IsText s.directory) {args : List Text} (hback : args.head? ≠ some ['-'])
    (hhome : ¬ (MeansHome args.head? ∧ s.environment.get? homeName = none)) {out : OutStream}
    (hroom : out.room = none) (hdone : (Builtin.cd.complete args tree s out).result = .ok 0)
    (hfirst : Utf8.IsText (Builtin.cd.complete args tree s out).session.directory) :
    let first := Builtin.cd.complete args tree s out
    tree.IsCanonical first.session.directory ∧
      ∀ n,
        let last := returns tree first n
        let here := if n % 2 = 0 then first.session.directory else s.directory
        let there := if n % 2 = 0 then s.directory else first.session.directory
        Between here there last ∧ (0 < n → last.printed = here ++ Utf8.encode ['\n']) := by
  obtain ⟨path, hpath, hlength, heq⟩ := exists_moveTo hback hhome hdone
  rw [heq] at hfirst ⊢
  refine ⟨hpath, fun n => ?_⟩
  have hhere : CanReturn tree path := ⟨hpath, hlength, hfirst⟩
  have hthere : CanReturn tree s.directory := ⟨hs, hshort, htext⟩
  obtain ⟨hbetween, -, hprinted⟩ :=
    returns_between htree (between_moveTo s path [] out) hhere hthere hroom n
  exact ⟨hbetween, hprinted⟩

/-- Between two directories, to one of which a link with `..` leads. -/
theorem cd_alternates_link :
    let tree : FileTree :=
      ⟨[(["é".toList].map Utf8.encode, .directory), (["e".toList].map Utf8.encode, .directory),
        (["l".toList, "é".toList].map Utf8.encode, .link (Utf8.encode "..//e/".toList))]⟩
    let s : Session :=
      { directory := Utf8.encode "/é".toList
        processId := "7".toList
        programName := "sh".toList }
    let first := Builtin.cd.complete ["l/.".toList] tree s {}
    first.session.directory = Utf8.encode "/e".toList ∧
      Between (Utf8.encode "/é".toList) (Utf8.encode "/e".toList) (returns tree first 3) ∧
      (returns tree first 3).printed = Utf8.encode "/é\n".toList ∧
      (returns tree first 4).printed = Utf8.encode "/e\n".toList := by
  intro tree s first
  have htree : tree.Settled := FileTree.settled_of_names (by decide +kernel)
  have hcanonical : tree.canonicalDirectory? s.directory = some s.directory := by decide +kernel
  have hs : tree.IsCanonical s.directory := FileTree.isCanonical_of_canonicalDirectory? hcanonical
  have hshort : s.directory.length < FileTree.pathLimit := by decide +kernel
  have hback : ["l/.".toList].head? ≠ some ['-'] := by decide
  have hhome : ¬ (MeansHome ["l/.".toList].head? ∧ s.environment.get? homeName = none) := by
    decide
  have hdone : first.result = .ok 0 := by rfl
  have hdirectory : first.session.directory = Utf8.encode "/e".toList := by decide +kernel
  have hfirst : Utf8.IsText first.session.directory := by
    rw [hdirectory]
    decide +kernel
  obtain ⟨-, hreturns⟩ :=
    cd_alternates htree hs hshort (by decide +kernel) hback hhome rfl hdone hfirst
  have hthree : Between s.directory first.session.directory (returns tree first 3) ∧
      (0 < 3 → (returns tree first 3).printed = s.directory ++ Utf8.encode ['\n']) :=
    hreturns 3
  have hfour : Between first.session.directory s.directory (returns tree first 4) ∧
      (0 < 4 → (returns tree first 4).printed =
        first.session.directory ++ Utf8.encode ['\n']) :=
    hreturns 4
  rw [hdirectory] at hthree hfour
  exact ⟨hdirectory, hthree.1, hthree.2 (by decide), hfour.2 (by decide)⟩

/-- The way back is lost if a path is no text, because its text is another path, and if the path is
as long as the system allows no more. -/
theorem cd_alternates_not_always :
    let odd : Path := [0x2F, 0xFF]
    let deep (depth : Nat) : Location :=
      (List.range depth).reverse.map fun n => UInt8.ofNat (0x61 + n) :: List.replicate 254 0x2D
    let tree : FileTree :=
      ⟨([[0xFF]], .directory) :: ([Utf8.encode "l".toList], .link [0xFF]) ::
        (List.range 16).map fun n => (deep (n + 1), .directory)⟩
    let visit (directory : Path) (target : Text) : Completion :=
      Builtin.cd.complete [target] tree
        { directory := directory, processId := "7".toList, programName := "sh".toList } {}
    tree.Settled ∧
      (tree.IsCanonical odd ∧ (visit odd ['/']).result = .ok 0 ∧
        (returns tree (visit odd ['/']) 1).status = 2) ∧
      (tree.IsCanonical [0x2F] ∧ (visit [0x2F] ['l']).result = .ok 0 ∧
        (returns tree (visit [0x2F] ['l']) 2).status = 2) ∧
      (tree.IsCanonical (deep 16).path ∧ (visit (deep 16).path ['/']).result = .ok 0 ∧
        (returns tree (visit (deep 16).path ['/']) 1).status = 2) := by
  intro odd deep tree visit
  have htree : tree.Settled := FileTree.settled_of_names (by decide +kernel)
  have hodd : tree.IsCanonical (Location.path [[0xFF]]) :=
    FileTree.isCanonical_of_locate? (by decide +kernel) (by decide +kernel)
  have hroot : tree.IsCanonical (Location.path .root) :=
    FileTree.isCanonical_of_locate? (by decide +kernel) (by decide +kernel)
  have hdeep : tree.IsCanonical (deep 16).path :=
    FileTree.isCanonical_of_locate? (by decide +kernel) (by decide +kernel)
  exact ⟨htree, ⟨hodd, by rfl, by decide +kernel⟩, ⟨hroot, by rfl, by decide +kernel⟩,
    ⟨hdeep, by rfl, by decide +kernel⟩⟩

end LineShell.Directory
