/-!
# Statuses

* `Status`: the number a command ends with.
* `Ending`: how a program ends, by itself with a code or by a signal.
* `Ending.status`: the code, or 128 and the number of the signal.
-/

namespace LineShell

/-- The status a command ends with; `0` is success. -/
abbrev Status := Int

/-- A signal that ends a program. -/
structure Signal where
  number : Nat
  positive : 1 ≤ number := by decide
  small : number ≤ 127 := by decide
deriving DecidableEq, Repr

inductive Ending where
  | exited (code : UInt8)
  | killed (signal : Signal)
deriving DecidableEq, Repr

def Ending.status : Ending → Status
  | exited code => code.toNat
  | killed signal => 128 + signal.number

theorem Ending.status_nonneg (ending : Ending) : (0 : Int) ≤ ending.status := by
  cases ending with
  | exited code => exact Int.natCast_nonneg _
  | killed signal => exact Int.add_nonneg (by decide) (Int.natCast_nonneg _)

theorem Ending.status_le (ending : Ending) : ending.status ≤ (255 : Int) := by
  cases ending with
  | exited code =>
    have := code.toNat_lt
    change (code.toNat : Int) ≤ 255
    omega
  | killed signal =>
    have := signal.small
    change (128 + signal.number : Int) ≤ 255
    omega

end LineShell
