import LineShell.Command.Search

/-!
# What a search finds

A search goes through its candidates once and stops at the first executable file. It comes to the
same as to look for the first executable file among all of them, and for the first regular file if
there is none.

* `Search.choice`: the outcome that is read off a list of paths.
* `Search.select_eq`: the search with a regular file that has been seen.
* `Resolution.orElse`: the outcome of two lists of paths, one after the other.
* `Search.direct`: the outcome for a name with a slash, which is a path itself.
* `Search.find_exact`: what is found in each case.
-/

namespace LineShell

/-- The outcome for paths that are followed by others. An executable file among the others comes
before a file that cannot be executed. -/
def Resolution.orElse : Resolution → Resolution → Resolution
  | executable path, _ => executable path
  | _, executable path => executable path
  | notExecutable path, _ => notExecutable path
  | notFound, other => other

theorem Resolution.orElse_self (resolution : Resolution) :
    resolution.orElse resolution = resolution := by
  cases resolution <;> rfl

namespace Search

variable {tree : FileTree}

/-! ## Lists of paths -/

/-- The first executable file, or else the first regular file, which cannot be executed. -/
def choice (tree : FileTree) (paths : List Path) : Resolution :=
  match paths.find? (isExecutable tree), paths.find? (isRegular tree) with
  | some path, _ => .executable path
  | none, some path => .notExecutable path
  | none, none => .notFound

/-- A regular file that has been seen comes before those that follow. -/
theorem select_eq (seen : Option Path) (paths : List Path) :
    select tree seen paths =
      match paths.find? (isExecutable tree), seen.or (paths.find? (isRegular tree)) with
      | some path, _ => .executable path
      | none, some path => .notExecutable path
      | none, none => .notFound := by
  induction paths generalizing seen with
  | nil => cases seen <;> rfl
  | cons path rest ih =>
    rw [select]
    by_cases hexecutable : isExecutable tree path = true
    · rw [if_pos hexecutable, List.find?_cons_of_pos hexecutable]
    · rw [if_neg hexecutable, ih, List.find?_cons_of_neg hexecutable, Option.or_assoc]
      by_cases hregular : isRegular tree path = true
      · rw [if_pos hregular, List.find?_cons_of_pos hregular, Option.some_or]
      · rw [if_neg hregular, List.find?_cons_of_neg hregular, Option.none_or]

theorem select_none (paths : List Path) : select tree none paths = choice tree paths := by
  rw [select_eq, Option.none_or, choice]

theorem choice_append (first second : List Path) :
    choice tree (first ++ second) = (choice tree first).orElse (choice tree second) := by
  simp only [choice, List.find?_append]
  cases first.find? (isExecutable tree) with
  | some path => rfl
  | none =>
    cases second.find? (isExecutable tree) with
    | some path => cases first.find? (isRegular tree) <;> rfl
    | none =>
      cases first.find? (isRegular tree) with
      | some path => cases second.find? (isRegular tree) <;> rfl
      | none => cases second.find? (isRegular tree) <;> rfl

/-! ## Search paths -/

theorem candidates_append (p q : Text) (directory : Path) (name : Text) :
    candidates (p ++ ':' :: q) directory name =
      candidates p directory name ++ candidates q directory name := by
  rw [candidates, List.splitOnP_append_cons p q rfl, List.map_append]
  rfl

/-- The outcome for a path that is not searched. What is there and is no executable file, like a
directory, cannot be executed. -/
def direct (tree : FileTree) (path : Path) : Resolution :=
  if isExecutable tree path then .executable path
  else if (tree.nodeOf? path).isSome then .notExecutable path
  else .notFound

theorem find_nil (tree : FileTree) (searchPath : Text) (directory : Path) :
    find tree searchPath directory [] = .notFound := by
  rw [find, if_pos rfl]

theorem find_of_slash {name : Text} (h : '/' ∈ name) (searchPath : Text) (directory : Path) :
    find tree searchPath directory name = direct tree (directory.join (Utf8.encode name)) := by
  rw [find, if_neg (List.ne_nil_of_mem h), if_pos h]
  rfl

theorem find_of_name {name : Text} (hne : name ≠ []) (h : '/' ∉ name)
    (searchPath : Text) (directory : Path) :
    find tree searchPath directory name = choice tree (candidates searchPath directory name) := by
  rw [find, if_neg hne, if_neg h, select_none]

theorem find_append (tree : FileTree) (p q : Text) (directory : Path) (name : Text) :
    find tree (p ++ ':' :: q) directory name =
      (find tree p directory name).orElse (find tree q directory name) := by
  by_cases hne : name = []
  · rw [hne, find_nil, find_nil, find_nil, Resolution.orElse_self]
  · by_cases h : '/' ∈ name
    · rw [find_of_slash h, find_of_slash h, find_of_slash h, Resolution.orElse_self]
    · rw [find_of_name hne h, find_of_name hne h, find_of_name hne h, candidates_append,
        choice_append]

end Search

/-! ## Sessions -/

namespace Session

theorem findCommand_of_slash {name : Text} (h : '/' ∈ name) (s : Session) (tree : FileTree) :
    s.findCommand tree name = Search.direct tree (s.pathOf name) := by
  rw [findCommand]
  cases s.environment.get? Search.pathName with
  | none => exact (if_pos h).trans (Search.find_of_slash h [] s.directory)
  | some searchPath => exact Search.find_of_slash h searchPath s.directory

theorem findCommand_of_unset {s : Session} (hpath : s.environment.get? Search.pathName = none)
    {name : Text} (h : '/' ∉ name) (tree : FileTree) : s.findCommand tree name = .notFound := by
  rw [findCommand, hpath]
  exact if_neg h

theorem findCommand_nil (s : Session) (tree : FileTree) : s.findCommand tree [] = .notFound := by
  rw [findCommand]
  cases s.environment.get? Search.pathName with
  | none => rfl
  | some searchPath => exact Search.find_nil tree searchPath s.directory

end Session

/-- **The search is exact.** A name without a slash stands for the first executable candidate, or
else for the first regular one. So a search path that is continued by another one is searched
first, except that an executable file in the second counts more than one in the first that cannot
be executed. A name with a slash is the path that it makes with the directory, whatever `PATH` is,
and without `PATH` no other name is found. -/
theorem Search.find_exact (tree : FileTree) :
    (∀ searchPath directory name, name ≠ [] → '/' ∉ name →
      find tree searchPath directory name =
        choice tree (candidates searchPath directory name)) ∧
    (∀ p q directory name,
      find tree (p ++ ':' :: q) directory name =
        (find tree p directory name).orElse (find tree q directory name)) ∧
    (∀ name, '/' ∈ name →
      (∀ searchPath directory,
        find tree searchPath directory name = direct tree (directory.join (Utf8.encode name))) ∧
      ∀ s : Session, s.findCommand tree name = direct tree (s.pathOf name)) ∧
    (∀ s : Session, s.environment.get? pathName = none → ∀ name, '/' ∉ name →
      s.findCommand tree name = .notFound) ∧
    (∀ searchPath directory, find tree searchPath directory [] = .notFound) ∧
    ∀ s : Session, s.findCommand tree [] = .notFound := by
  refine ⟨?_, find_append tree, ?_, ?_, find_nil tree, ?_⟩
  · intro searchPath directory name hne h
    exact find_of_name hne h searchPath directory
  · intro name h
    exact ⟨find_of_slash h, fun s => s.findCommand_of_slash h tree⟩
  · intro s hpath name h
    exact Session.findCommand_of_unset hpath h tree
  · intro s
    exact s.findCommand_nil tree

/-- A file that cannot be executed, a directory and a broken link stand before the one that is
found for the empty entry. -/
theorem Search.find_exact_fallback :
    let name (text : String) : Bytes := Utf8.encode text.toList
    let tree : FileTree :=
      ⟨[([name "a"], .directory), ([name "x", name "a"], .file 0o644 []),
        ([name "b"], .directory), ([name "x", name "b"], .directory),
        ([name "c"], .directory), ([name "x", name "c"], .link (name "y")),
        ([name "d"], .directory), ([name "x", name "d"], .file 0o100 [])]⟩
    let s : Session :=
      { directory := name "/d", processId := "7".toList, programName := "sh".toList }
    find tree "../b:/a:../c".toList (name "/d") "x".toList = .notExecutable (name "/a/x") ∧
      find tree "../b:/a:../c:".toList (name "/d") "x".toList = .executable (name "/d/x") ∧
      s.findCommand tree "../b/x".toList = .notExecutable (name "/d/../b/x") ∧
      s.findCommand tree "x".toList = .notFound := by
  intro name tree s
  obtain ⟨hname, happend, hslash, hunset, -, -⟩ := find_exact tree
  refine ⟨?_, ?_, ?_, hunset s rfl _ (by decide)⟩
  · rw [hname _ _ _ (by decide) (by decide)]
    decide +kernel
  · refine (happend "../b:/a:../c".toList [] (name "/d") "x".toList).trans ?_
    decide +kernel
  · rw [(hslash "../b/x".toList (by decide)).2 s]
    decide +kernel

end LineShell
