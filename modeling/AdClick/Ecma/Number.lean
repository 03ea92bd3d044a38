import Mathlib.Tactic.Linarith

/-!
# ECMAScript Numbers that hold integers

A Number is a double, so the sum or difference of two integers is the exact result rounded to 53
significant bits, ties to even (`numberValue`). Up to `2 ^ 53` in absolute value nothing is lost
(`numberValue_of_le`), and a comparison with a smaller integer never notices the rounding
(`lt_numberValue_iff`).
-/

set_option autoImplicit false

namespace AdClick.Ecma

/-- The distance of adjacent doubles at this magnitude; one below `2 ^ 53`. -/
def unitInLastPlace (n : Nat) : Nat := 2 ^ (n.log2 - 52)

/-- The multiple of `u` nearest to `n`, the even one of two. -/
def roundToEven (n u : Nat) : Nat :=
  if 2 * (n % u) < u ∨ (2 * (n % u) = u ∧ n / u % 2 = 0) then n / u * u else (n / u + 1) * u

/-- The Number value for an integer. -/
def numberValue (x : Int) : Int :=
  if x < 0 then -(roundToEven x.natAbs (unitInLastPlace x.natAbs) : Nat)
  else (roundToEven x.natAbs (unitInLastPlace x.natAbs) : Nat)

theorem roundToEven_one (n : Nat) : roundToEven n 1 = n := by
  simp [roundToEven, Nat.mod_one]

theorem unitInLastPlace_of_lt {n : Nat} (h : n < 2 ^ 53) : unitInLastPlace n = 1 := by
  rcases Nat.eq_zero_or_pos n with rfl | hpos
  · rfl
  · have hlog : n.log2 < 53 := (Nat.log2_lt (Nat.ne_of_gt hpos)).2 h
    rw [unitInLastPlace, Nat.sub_eq_zero_of_le (Nat.le_of_lt_succ hlog)]
    rfl

/-- Rounding does not leave the binade downwards. -/
theorem le_roundToEven {n : Nat} (h : 2 ^ 53 ≤ n) : 2 ^ 53 ≤ roundToEven n (unitInLastPlace n) := by
  have hne : n ≠ 0 := by
    rintro rfl
    exact absurd h (by decide)
  have hlog : 53 ≤ n.log2 := (Nat.le_log2 hne).2 h
  have hpow : unitInLastPlace n * 2 ^ 52 = 2 ^ n.log2 := by
    rw [unitInLastPlace, ← pow_add, Nat.sub_add_cancel (by omega)]
  have hpos : 0 < unitInLastPlace n := Nat.two_pow_pos _
  -- At least `2 ^ 52` units fit, and `2 ^ 52` units are a power of two.
  have hdiv : 2 ^ 52 ≤ n / unitInLastPlace n := by
    rw [Nat.le_div_iff_mul_le hpos, mul_comm, hpow]
    exact Nat.log2_self_le hne
  have hbinade : 2 ^ 53 ≤ n / unitInLastPlace n * unitInLastPlace n := by
    calc 2 ^ 53 ≤ 2 ^ n.log2 := Nat.pow_le_pow_right (by decide) hlog
      _ = 2 ^ 52 * unitInLastPlace n := by rw [← hpow, mul_comm]
      _ ≤ _ := Nat.mul_le_mul_right _ hdiv
  simp only [roundToEven]
  split
  · exact hbinade
  · rw [Nat.succ_mul]
    exact Nat.le_add_right_of_le hbinade

theorem numberValue_of_lt {x : Int} (h : x.natAbs < 2 ^ 53) : numberValue x = x := by
  rw [numberValue, unitInLastPlace_of_lt h, roundToEven_one]
  split <;> omega

/-- Integers up to `2 ^ 53` in absolute value are Numbers. -/
theorem numberValue_of_le {x : Int} (h : x.natAbs ≤ 2 ^ 53) : numberValue x = x := by
  rcases Nat.lt_or_eq_of_le h with hlt | heq
  · exact numberValue_of_lt hlt
  · have hround : roundToEven (2 ^ 53) (unitInLastPlace (2 ^ 53)) = 2 ^ 53 := by decide
    rw [numberValue, heq, hround]
    split <;> omega

theorem le_numberValue {x : Int} (h : 2 ^ 53 ≤ x) : 2 ^ 53 ≤ numberValue x := by
  have hround := le_roundToEven (n := x.natAbs) (by omega)
  rw [numberValue, if_neg (by omega)]
  omega

theorem numberValue_le {x : Int} (h : x ≤ -2 ^ 53) : numberValue x ≤ -2 ^ 53 := by
  have hround := le_roundToEven (n := x.natAbs) (by omega)
  rw [numberValue, if_pos (by omega)]
  omega

/-- An integer below `2 ^ 53` compares with a rounded result as with the exact one. -/
theorem lt_numberValue_iff {t x : Int} (h : t.natAbs < 2 ^ 53) : t < numberValue x ↔ t < x := by
  by_cases hx : x.natAbs < 2 ^ 53
  · rw [numberValue_of_lt hx]
  · rcases Int.lt_or_le x 0 with hneg | hpos
    · have hle := numberValue_le (x := x) (by omega)
      omega
    · have hle := le_numberValue (x := x) (by omega)
      omega

/-! ## Numbers -/

/-- A Number that holds an integer. -/
structure Number where
  value : Int
  deriving DecidableEq

instance : Zero Number := ⟨⟨0⟩⟩

instance : One Number := ⟨⟨1⟩⟩

instance : Add Number := ⟨fun a b => ⟨numberValue (a.value + b.value)⟩⟩

theorem Number.value_add (a b : Number) : (a + b).value = numberValue (a.value + b.value) := rfl

/-- The Number that is reached from zero by adding one; at `2 ^ 53` it gets stuck. -/
def Number.ofCount (n : Nat) : Number := ⟨min n (2 ^ 53)⟩

theorem Number.ofCount_succ (n : Nat) : Number.ofCount (n + 1) = Number.ofCount n + 1 := by
  refine congrArg Number.mk ?_
  rcases Nat.lt_or_ge n (2 ^ 53) with hlt | hge
  · have hn : min (n : Int) (2 ^ 53) + 1 = n + 1 := by omega
    refine Eq.trans ?_ (numberValue_of_le (x := min (n : Int) (2 ^ 53) + 1) (by omega)).symm
    rw [hn]
    push_cast
    omega
  · have hround : numberValue (2 ^ 53 + 1) = 2 ^ 53 := by decide
    have hn : min (n : Int) (2 ^ 53) = 2 ^ 53 := by omega
    refine Eq.trans ?_ (congrArg (fun x => numberValue (x + 1)) hn.symm)
    rw [hround]
    push_cast
    omega

/-- A count up to `2 ^ 53` is held exactly, and no greater one is. -/
theorem Number.value_ofCount_eq_iff (n : Nat) : (Number.ofCount n).value = n ↔ n ≤ 2 ^ 53 := by
  have hvalue : (Number.ofCount n).value = min (n : Int) (2 ^ 53) := rfl
  rw [hvalue]
  omega

/-- Added up as Numbers in the order of the list, the counts give their exact sum. -/
def SumsExactly (ns : List Nat) : Prop :=
  ns.foldl (fun (total : Int) (n : Nat) => numberValue (total + n)) 0 = ns.sum

/-- Nothing is lost while the sum is at most `2 ^ 53`. -/
theorem sumsExactly_of_le {ns : List Nat} (h : ns.sum ≤ 2 ^ 53) : SumsExactly ns := by
  have hfold : ∀ k : Nat, k + ns.sum ≤ 2 ^ 53 →
      ns.foldl (fun (total : Int) (n : Nat) => numberValue (total + n)) k =
        ((k + ns.sum : Nat) : Int) := by
    clear h
    induction ns with
    | nil => exact fun _ _ => rfl
    | cons n ns ih =>
      intro k hk
      rw [List.sum_cons] at hk
      have hexact : numberValue ((k : Int) + n) = ((k + n : Nat) : Int) := by
        rw [← Nat.cast_add]
        exact numberValue_of_le (by omega)
      rw [List.foldl_cons, hexact, ih (k + n) (by omega), List.sum_cons, Nat.add_assoc]
  exact (hfold 0 (by omega)).trans (congrArg Nat.cast (Nat.zero_add _))

end AdClick.Ecma
