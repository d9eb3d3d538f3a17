import LineShell.Command.Basic

/-!
# Changing the directory

* `Directory.target`: the argument of `cd`. Only the first one counts, and one that begins
  with `-` is an illegal option unless it is `-` or `--`.
* `Directory.destination`: no target, `~` and `--` mean the home directory, `-` the
  directory before the last change, which is then announced.
* `Directory.change`: the session moves to the canonical path of the destination. `PWD`,
  `OLDPWD` and the directory change together, or, without a home directory, `OLDPWD` alone. The
  variables hold texts, so a directory whose path is not UTF-8 is in them under another name.
-/

namespace LineShell.Directory

def name : Text := "cd".toList

def homeName : Text := "HOME".toList

def currentName : Text := "PWD".toList

def previousName : Text := "OLDPWD".toList

def target : List Text → Except ShellError (Option Text)
  | [] => .ok none
  | arg :: _ =>
    if arg.head? = some '-' ∧ arg ≠ ['-'] ∧ arg ≠ ['-', '-'] then
      .error (.usage name ("Illegal option ".toList ++ arg.take 2) 2)
    else
      .ok (some arg)

structure Destination where
  path : Text
  announced : Bool
deriving DecidableEq, Repr

/-- Where a target leads; nowhere if it is the home directory and there is none. -/
def destination (s : Session) (target : Option Text) : Option Destination :=
  if target = none ∨ target = some ['~'] ∨ target = some ['-', '-'] then
    (s.environment.get? homeName).map (⟨·, false⟩)
  else if target = some ['-'] then
    some ⟨(s.environment.get? previousName).getD s.directoryText, true⟩
  else
    target.map (⟨·, false⟩)

/-- The session with the old directory remembered. -/
def remember (s : Session) : Session :=
  { s with environment := s.environment.set previousName s.directoryText }

/-- The session in another directory. -/
def moveTo (s : Session) (path : Path) : Session :=
  { s with
    environment := (remember s).environment.set currentName (Utf8.decode path)
    directory := path }

def change (target : Option Text) : Command := fun tree s out =>
  match destination s target with
  | none => .silent (.ok 0) (remember s) out
  | some destination =>
    match tree.canonicalDirectory? (s.pathOf destination.path) with
    | none =>
      .silent (.error (.usage name ("can't cd to ".toList ++ destination.path) 2)) s out
    | some path =>
      if destination.announced then .printing [Utf8.decode path, ['\n']] (.ok 0) (moveTo s path) out
      else .silent (.ok 0) (moveTo s path) out

end LineShell.Directory
