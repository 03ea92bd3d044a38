import AdClick.Counter.Snapshot
import AdClick.Ecma.Number

/-!
# The counters of the four services

The Java and the C# service count in integers of 32 bits, the Go service in integers of 64 bits, and
the TypeScript service in Numbers. What such a counter holds is determined by the number of clicks
(`IsCounting`). As an integer it is never greater than that number, and it is that number as long as
it fits in 32 bits.
-/

set_option autoImplicit false

namespace AdClick.Counter

open AdClick.Ecma

/-- A type of counters: what a counter holds after a number of clicks, and the integer that it
stands for. -/
structure Counters where
  Value : Type
  [zero : Zero Value]
  [one : One Value]
  [add : Add Value]
  ofNat : Nat → Value
  isCounting : IsCounting ofNat
  toInt : Value → Int
  toInt_zero : toInt 0 = 0
  toInt_ofNat_le : ∀ n, toInt (ofNat n) ≤ n
  toInt_ofNat : ∀ n, n < 2 ^ 31 → toInt (ofNat n) = n

attribute [instance] Counters.zero Counters.one Counters.add

theorem isCounting_int32 : IsCounting Int32.ofNat where
  zero := rfl
  one := rfl
  succ n := Int32.ofNat_add n 1

theorem isCounting_int64 : IsCounting Int64.ofNat where
  zero := rfl
  one := rfl
  succ n := Int64.ofNat_add n 1

theorem isCounting_number : IsCounting Number.ofCount where
  zero := rfl
  one := rfl
  succ := Number.ofCount_succ

/-- Wrapping around never makes a count greater. -/
theorem bmod_natCast_le (n m : Nat) : (n : Int).bmod m ≤ n := by
  have hmod := Nat.mod_le n m
  rw [Int.bmod_def, ← Int.natCast_emod]
  split <;> omega

def Counters.int32 : Counters where
  Value := Int32
  ofNat := Int32.ofNat
  isCounting := isCounting_int32
  toInt := Int32.toInt
  toInt_zero := rfl
  toInt_ofNat_le n := by
    rw [Int32.toInt_ofNat']
    exact bmod_natCast_le n _
  toInt_ofNat _ h := Int32.toInt_ofNat_of_lt h

def Counters.int64 : Counters where
  Value := Int64
  ofNat := Int64.ofNat
  isCounting := isCounting_int64
  toInt := Int64.toInt
  toInt_zero := rfl
  toInt_ofNat_le n := by
    rw [Int64.toInt_ofNat']
    exact bmod_natCast_le n _
  toInt_ofNat _ h := Int64.toInt_ofNat_of_lt (by omega)

def Counters.number : Counters where
  Value := Number
  ofNat := Number.ofCount
  isCounting := isCounting_number
  toInt := Number.value
  toInt_zero := rfl
  toInt_ofNat_le n := by
    rw [Number.ofCount]
    exact min_le_left _ _
  toInt_ofNat n h := (Number.value_ofCount_eq_iff n).2 (by omega)

/-- The counters of a service. -/
def Language.counters : Language → Counters
  | .typescript => .number
  | .java => .int32
  | .csharp => .int32
  | .go => .int64

end AdClick.Counter
