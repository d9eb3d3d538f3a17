import LineShell.Proofs.Command
import Mathlib.Data.List.Induction
import Mathlib.Data.Nat.Digits.Defs

/-!
# Numerals

The argument of `exit` is a numeral: decimal digits, of which any number of first ones may be zeros.
The number is not bounded while it is read, and is compared with the limit at the end. A reader
that has only a word for it, and gives up as soon as a number does not fit, finds the same.

* `Text.Writes`: a text is a numeral of a number, by the value of each place. `number?_eq_some_iff`
  says that `Text.number?` reads the numerals and nothing else.
* `Text.readWithin?`: the reader with a word. `readWithin?_eq_some_iff` says that it reads the
  numerals of the numbers that fit.
* `Builtin.Asks`: the arguments with which `exit` asks for a status.
* `Builtin.exit_exact`: what `exit` does with any arguments.
-/

namespace LineShell

namespace Text

def digit (c : Char) : Nat := c.toNat - '0'.toNat

/-- The text is a numeral of the number: ASCII digits, of which the last one counts the units and
each other one ten times as much as the one behind it. -/
structure Writes (text : Text) (n : Nat) : Prop where
  nonempty : text ≠ []
  digits : ∀ c ∈ text, '0' ≤ c ∧ c ≤ '9'
  value : Nat.ofDigits 10 (text.reverse.map digit) = n

theorem isDigit_iff {c : Char} : c.isDigit = true ↔ '0' ≤ c ∧ c ≤ '9' := by
  rw [Char.isDigit, Bool.and_eq_true, decide_eq_true_eq, decide_eq_true_eq]
  rfl

theorem digitsValue_eq_ofDigits (text : Text) :
    digitsValue text = Nat.ofDigits 10 (text.reverse.map digit) := by
  induction text using List.reverseRecOn with
  | nil => rfl
  | append_singleton text c ih =>
    rw [List.reverse_append, List.reverse_singleton, List.singleton_append, List.map_cons,
      Nat.ofDigits_cons, ← ih, digitsValue, List.foldl_append, Nat.add_comm]
    rfl

theorem number?_eq_some_iff {text : Text} {n : Nat} : number? text = some n ↔ text.Writes n := by
  have hdigits : text.all Char.isDigit = true ↔ ∀ c ∈ text, '0' ≤ c ∧ c ≤ '9' := by
    rw [List.all_eq_true]
    exact forall₂_congr fun c _ => isDigit_iff
  rw [number?, Option.ite_none_right_eq_some, hdigits, digitsValue_eq_ofDigits,
    Option.some.injEq]
  constructor
  · rintro ⟨⟨hnonempty, hall⟩, hvalue⟩
    exact ⟨hnonempty, hall, hvalue⟩
  · rintro ⟨hnonempty, hall, hvalue⟩
    exact ⟨⟨hnonempty, hall⟩, hvalue⟩

/-! ## Reading within a word -/

/-- The number, if it is one that a word holds. -/
def fits? (limit n : Nat) : Option Nat := if n ≤ limit then some n else none

/-- Read digits behind a number that has been read. The product by ten has to fit, and so has the
sum with the digit. -/
def readFrom? (limit : Nat) : Nat → Text → Option Nat
  | value, [] => some value
  | value, c :: rest =>
    (fits? limit (10 * value)).bind fun tens =>
      (fits? limit (tens + digit c)).bind fun next => readFrom? limit next rest

/-- Read a numeral into a word that holds the numbers up to the limit. -/
def readWithin? (limit : Nat) (text : Text) : Option Nat :=
  if text ≠ [] ∧ text.all Char.isDigit then readFrom? limit 0 text else none

theorem fits?_of_le {limit n : Nat} (h : n ≤ limit) : fits? limit n = some n := if_pos h

theorem fits?_of_lt {limit n : Nat} (h : limit < n) : fits? limit n = none :=
  if_neg (Nat.not_le.mpr h)

/-- The number that digits come to behind a number that has been read. -/
def valueFrom (value : Nat) (text : Text) : Nat :=
  text.foldl (fun value c => 10 * value + digit c) value

theorem valueFrom_cons (value : Nat) (c : Char) (rest : Text) :
    valueFrom value (c :: rest) = valueFrom (10 * value + digit c) rest := by
  rw [valueFrom, List.foldl_cons, valueFrom]

/-- No digit makes a number smaller, so one that is too great stays so. -/
theorem le_valueFrom (value : Nat) (text : Text) : value ≤ valueFrom value text := by
  induction text generalizing value with
  | nil => exact Nat.le_refl value
  | cons c rest ih =>
    rw [valueFrom_cons]
    have hrest := ih (10 * value + digit c)
    omega

theorem readFrom?_eq {limit value : Nat} (h : value ≤ limit) (text : Text) :
    readFrom? limit value text = fits? limit (valueFrom value text) := by
  induction text generalizing value with
  | nil => exact (fits?_of_le h).symm
  | cons c rest ih =>
    have hlast := le_valueFrom (10 * value + digit c) rest
    rw [readFrom?, valueFrom_cons]
    by_cases htens : 10 * value ≤ limit
    · rw [fits?_of_le htens, Option.bind_some]
      by_cases hnext : 10 * value + digit c ≤ limit
      · rw [fits?_of_le hnext, Option.bind_some, ih hnext]
      · rw [fits?_of_lt (by omega), Option.bind_none, fits?_of_lt (by omega)]
    · rw [fits?_of_lt (by omega), Option.bind_none, fits?_of_lt (by omega)]

theorem readWithin?_eq (limit : Nat) (text : Text) :
    readWithin? limit text = (number? text).bind (fits? limit) := by
  rw [readWithin?, number?]
  split
  · rw [readFrom?_eq (Nat.zero_le limit), Option.bind_some]
    rfl
  · rfl

theorem readWithin?_eq_some_iff {limit n : Nat} {text : Text} :
    readWithin? limit text = some n ↔ text.Writes n ∧ n ≤ limit := by
  rw [readWithin?_eq, Option.bind_eq_some_iff]
  constructor
  · rintro ⟨m, hnumber, hfits⟩
    rw [fits?, Option.ite_none_right_eq_some] at hfits
    obtain ⟨hle, hm⟩ := hfits
    cases hm
    exact ⟨number?_eq_some_iff.mp hnumber, hle⟩
  · rintro ⟨hwrites, hle⟩
    exact ⟨n, number?_eq_some_iff.mpr hwrites, fits?_of_le hle⟩

end Text

/-! ## Requests to exit -/

namespace Builtin

/-- The status that `exit` asks for with these arguments: the last one, or that of its first
argument. -/
inductive Asks (s : Session) : List Text → Status → Prop
  | last : Asks s [] s.lastStatus
  | numeral {arg : Text} {n : Nat} (hwrites : arg.Writes n) (hle : n ≤ 2147483647)
      (others : List Text) : Asks s (arg :: others) (n % 256 : Nat)

theorem exitStatus?_eq (arg : Text) :
    exitStatus? arg =
      (Text.readWithin? 2147483647 arg).map fun n => ((n % 256 : Nat) : Status) := by
  rw [← maxExit, exitStatus?, Text.readWithin?_eq]
  cases Text.number? arg with
  | none => rfl
  | some n =>
    rw [Option.bind_some, Text.fits?, apply_ite (Option.map _)]
    rfl

theorem exitStatus?_eq_some_iff {arg : Text} {status : Status} :
    exitStatus? arg = some status ↔
      ∃ n : Nat, arg.Writes n ∧ n ≤ 2147483647 ∧ status = (n % 256 : Nat) := by
  rw [exitStatus?_eq, Option.map_eq_some_iff]
  refine exists_congr fun n => ?_
  rw [Text.readWithin?_eq_some_iff, and_assoc, eq_comm (a := status)]

section

variable {s : Session} {arg : Text} {status : Status}

theorem asks_cons_iff {others : List Text} :
    Asks s (arg :: others) status ↔ exitStatus? arg = some status := by
  rw [exitStatus?_eq_some_iff]
  constructor
  · rintro (_ | ⟨hwrites, hle, -⟩)
    exact ⟨_, hwrites, hle, rfl⟩
  · rintro ⟨n, hwrites, hle, rfl⟩
    exact .numeral hwrites hle others

theorem Asks.unique {args : List Text} {other : Status} (h : Asks s args status)
    (hother : Asks s args other) : status = other := by
  cases args with
  | nil =>
    cases h
    cases hother
    rfl
  | cons arg others =>
    have hsame := (asks_cons_iff.mp h).symm.trans (asks_cons_iff.mp hother)
    exact Option.some.inj hsame

end

/-- A request to exit has been made, and nothing has been printed. -/
def requested (status : Status) (s : Session) (out : OutStream) : Completion :=
  .silent (.ok status) { s with exitRequest := some status } out

/-- The argument has been refused, and nothing has changed. -/
def illegalNumber (arg : Text) (s : Session) (out : OutStream) : Completion :=
  .silent (.error (.usage exit.name ("Illegal number: ".toList ++ arg) 2)) s out

section

variable {s : Session} {out : OutStream}

theorem requested_inj {first second : Status} :
    requested first s out = requested second s out ↔ first = second := by
  constructor
  · intro h
    exact Except.ok.inj (congrArg Completion.result h)
  · rintro rfl
    rfl

theorem requested_ne_illegalNumber (status : Status) (arg : Text) :
    requested status s out ≠ illegalNumber arg s out := by
  intro h
  cases congrArg Completion.result h

end

/-- What `exit` comes to. -/
theorem complete_exit_cases (tree : FileTree) (s : Session) (args : List Text) (out : OutStream) :
    (∃ status, Asks s args status ∧ exit.complete args tree s out = requested status s out) ∨
      ∃ arg ∈ args.head?, (∀ status, ¬ Asks s args status) ∧
        exit.complete args tree s out = illegalNumber arg s out := by
  cases args with
  | nil => exact Or.inl ⟨s.lastStatus, .last, rfl⟩
  | cons arg others =>
    cases hstatus : exitStatus? arg with
    | some status =>
      refine Or.inl ⟨status, asks_cons_iff.mpr hstatus, ?_⟩
      rw [complete, handler, task?, hstatus]
      rfl
    | none =>
      refine Or.inr ⟨arg, rfl, fun status hasks => ?_, ?_⟩
      · rw [asks_cons_iff, hstatus] at hasks
        cases hasks
      · rw [complete, handler, task?, hstatus]
        rfl

/-- **`exit` takes the numerals up to 2147483647.** It asks for the last status if it has no
argument, and for the number modulo 256 if its first argument is such a numeral. The status is its
result, too, and the request is all that changes. Any other argument is refused by usage with the
status 2, and nothing changes. A number is too great if and only if it overflows a word of 32 bits
when it is read digit by digit. -/
theorem exit_exact (tree : FileTree) (s : Session) (args : List Text) (out : OutStream) :
    let done := exit.complete args tree s out
    (∀ status, done = requested status s out ↔ Asks s args status) ∧
    ((∃ arg ∈ args.head?, done = illegalNumber arg s out) ↔ ∀ status, ¬ Asks s args status) ∧
    ∀ arg, exitStatus? arg =
      (Text.readWithin? 2147483647 arg).map fun n => ((n % 256 : Nat) : Status) := by
  intro done
  have hcases := complete_exit_cases tree s args out
  refine ⟨fun status => ?_, ?_, exitStatus?_eq⟩
  · rcases hcases with ⟨found, hasks, hdone⟩ | ⟨arg, -, hnone, hdone⟩
    · rw [show done = requested found s out from hdone, requested_inj]
      constructor
      · rintro rfl
        exact hasks
      · exact hasks.unique
    · rw [show done = illegalNumber arg s out from hdone]
      exact iff_of_false (requested_ne_illegalNumber status arg).symm (hnone status)
  · rcases hcases with ⟨found, hasks, hdone⟩ | ⟨arg, harg, hnone, hdone⟩
    · refine iff_of_false ?_ fun hnone => hnone found hasks
      rintro ⟨arg, -, hrefused⟩
      exact requested_ne_illegalNumber found arg (hdone.symm.trans hrefused)
    · exact iff_of_true ⟨arg, harg, hdone⟩ hnone

/-- Leading zeros in front of the greatest number, and the number behind it. -/
theorem exit_exact_limit :
    let s : Session :=
      { lastStatus := 7, processId := "7".toList, programName := "sh".toList }
    let run : List Text → Completion := fun args => exit.complete args {} s {}
    run [] = requested 7 s {} ∧
      run ["0000002147483647".toList, "x".toList] = requested 255 s {} ∧
      ∃ arg ∈ ["2147483648".toList].head?,
        run ["2147483648".toList] = illegalNumber arg s {} := by
  intro s run
  have hgreatest : Text.Writes "0000002147483647".toList 2147483647 :=
    Text.number?_eq_some_iff.mp (by decide)
  have hnone : exitStatus? "2147483648".toList = none := by decide
  refine ⟨((exit_exact {} s [] {}).1 7).mpr .last, ?_, ?_⟩
  · exact ((exit_exact {} s _ {}).1 255).mpr (.numeral hgreatest (by decide) ["x".toList])
  · refine (exit_exact {} s ["2147483648".toList] {}).2.1.mpr fun status hasks => ?_
    rw [asks_cons_iff, hnone] at hasks
    cases hasks

end Builtin

end LineShell
