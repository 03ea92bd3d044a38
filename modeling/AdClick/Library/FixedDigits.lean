import Mathlib.Data.List.Basic
import Mathlib.Tactic.Ring

/-!
# Fixed-width decimal fields and separators

A field of width `w` holds the `w` low decimal digits of a number, zero padded and most significant
first (`fixedDigits`). `readDigits` takes such a field off the front of a text; on a written field
followed by anything it returns the number modulo `10 ^ w` and the rest (`readDigits_fixedDigits`).
Fields of one width compare as texts the way their numbers compare (`fixedDigits_append_lt_iff`).

A text joined with a separator splits back uniquely when one side is known to be free of the
separator (`append_cons_inj_first`, `append_cons_inj_last`).
-/

set_option autoImplicit false

namespace AdClick.Library

universe u

/-! ## Fields -/

/-- The `w` low decimal digits of `n`, most significant first. -/
def fixedDigits : Nat → Nat → List Char
  | 0, _ => []
  | w + 1, n => Nat.digitChar (n / 10 ^ w % 10) :: fixedDigits w n

/-- The value of a decimal digit. -/
def digitValue (c : Char) : Option Nat := if c.isDigit then some (c.toNat - 48) else none

/-- Read `w` digits from the front of a text, on top of the digits read so far. -/
def readDigitsFrom (acc : Nat) : Nat → List Char → Option (Nat × List Char)
  | 0, cs => some (acc, cs)
  | _ + 1, [] => none
  | w + 1, c :: cs => (digitValue c).bind fun d => readDigitsFrom (acc * 10 + d) w cs

/-- Read a field of `w` digits from the front of a text. -/
def readDigits (w : Nat) (cs : List Char) : Option (Nat × List Char) := readDigitsFrom 0 w cs

theorem digitValue_digitChar : ∀ d, d < 10 → digitValue (Nat.digitChar d) = some d := by decide

theorem isDigit_of_mem_fixedDigits {w n : Nat} {c : Char} (h : c ∈ fixedDigits w n) :
    c.isDigit = true := by
  induction w with
  | zero => cases h
  | succ w ih =>
    rcases List.mem_cons.1 h with rfl | hc
    · rw [Nat.isDigit_digitChar]
      exact decide_eq_true (Nat.mod_lt _ (by decide))
    · exact ih hc

@[simp] theorem length_fixedDigits (w n : Nat) : (fixedDigits w n).length = w := by
  induction w with
  | zero => rfl
  | succ w ih => simp [fixedDigits, ih]

theorem readDigitsFrom_fixedDigits (w n acc : Nat) (rest : List Char) :
    readDigitsFrom acc w (fixedDigits w n ++ rest) = some (acc * 10 ^ w + n % 10 ^ w, rest) := by
  induction w generalizing acc with
  | zero => simp [readDigitsFrom, fixedDigits, Nat.mod_one]
  | succ w ih =>
    -- the accumulator takes the leading digit, and the rest is the field of width `w`
    have hd := digitValue_digitChar (n / 10 ^ w % 10) (Nat.mod_lt _ (by decide))
    simp only [fixedDigits, List.cons_append, readDigitsFrom, hd, Option.bind_some, ih]
    rw [Nat.mod_pow_succ]
    congr 2
    ring

/-- A written field reads back as the number it was written from, up to its width. -/
theorem readDigits_fixedDigits {w n : Nat} (hn : n < 10 ^ w) (rest : List Char) :
    readDigits w (fixedDigits w n ++ rest) = some (n, rest) := by
  rw [readDigits, readDigitsFrom_fixedDigits, Nat.mod_eq_of_lt hn, Nat.zero_mul, Nat.zero_add]

/-! ## The order of fields -/

theorem digitChar_lt_iff : ∀ a, a < 10 → ∀ b, b < 10 →
    (Nat.digitChar a < Nat.digitChar b ↔ a < b) := by decide

theorem digitChar_inj : ∀ a, a < 10 → ∀ b, b < 10 →
    (Nat.digitChar a = Nat.digitChar b ↔ a = b) := by decide

/-- Numbers compare by the digit of the highest place first. -/
theorem place_lt_iff {p r s a b : Nat} (hr : r < p) (hs : s < p) :
    p * a + r < p * b + s ↔ a < b ∨ a = b ∧ r < s := by
  rcases Nat.lt_trichotomy a b with h | rfl | h
  · have hle : p * (a + 1) ≤ p * b := Nat.mul_le_mul_left p h
    rw [Nat.mul_succ] at hle
    omega
  · omega
  · have hle : p * (b + 1) ≤ p * a := Nat.mul_le_mul_left p h
    rw [Nat.mul_succ] at hle
    omega

theorem place_inj {p r s a b : Nat} (hr : r < p) (hs : s < p) :
    p * a + r = p * b + s ↔ a = b ∧ r = s := by
  have hlt := place_lt_iff (a := a) (b := b) hr hs
  have hgt := place_lt_iff (a := b) (b := a) hs hr
  omega

theorem fixedDigits_append_lt_iff_mod (w m n : Nat) (xs ys : List Char) :
    fixedDigits w m ++ xs < fixedDigits w n ++ ys ↔
      m % 10 ^ w < n % 10 ^ w ∨ m % 10 ^ w = n % 10 ^ w ∧ xs < ys := by
  induction w with
  | zero => simp [fixedDigits, Nat.mod_one]
  | succ w ih =>
    have hpow : 0 < 10 ^ w := Nat.pow_pos (by decide)
    have hm := Nat.mod_lt (m / 10 ^ w) (show 10 > 0 by decide)
    have hn := Nat.mod_lt (n / 10 ^ w) (show 10 > 0 by decide)
    have hm' := Nat.mod_lt m hpow
    have hn' := Nat.mod_lt n hpow
    rw [fixedDigits, fixedDigits, List.cons_append, List.cons_append, List.cons_lt_cons_iff, ih,
      digitChar_lt_iff _ hm _ hn, digitChar_inj _ hm _ hn, Nat.mod_pow_succ, Nat.mod_pow_succ,
      Nat.add_comm (m % 10 ^ w), Nat.add_comm (n % 10 ^ w), place_lt_iff hm' hn',
      place_inj hm' hn']
    grind

/-- Fields of one width compare as the numbers in them, before what follows them. -/
theorem fixedDigits_append_lt_iff {w m n : Nat} (hm : m < 10 ^ w) (hn : n < 10 ^ w)
    (xs ys : List Char) :
    fixedDigits w m ++ xs < fixedDigits w n ++ ys ↔ m < n ∨ m = n ∧ xs < ys := by
  rw [fixedDigits_append_lt_iff_mod, Nat.mod_eq_of_lt hm, Nat.mod_eq_of_lt hn]

/-! ## Separators -/

section Separators

variable {α : Type u} {a : α} {x₁ x₂ z₁ z₂ : List α}

/-- A text splits uniquely at the first separator. -/
theorem append_cons_inj_first (h₁ : a ∉ x₁) (h₂ : a ∉ x₂) :
    x₁ ++ a :: z₁ = x₂ ++ a :: z₂ ↔ x₁ = x₂ ∧ z₁ = z₂ := by
  constructor
  · intro h
    induction x₁ generalizing x₂ with
    | nil =>
      cases x₂ with
      | nil => exact ⟨rfl, (List.cons.inj h).2⟩
      | cons b x₂ =>
        -- the separator would stand at the head of the second part
        exact absurd ((List.cons.inj h).1 ▸ List.mem_cons_self) h₂
    | cons b x₁ ih =>
      cases x₂ with
      | nil => exact absurd ((List.cons.inj h).1 ▸ List.mem_cons_self) h₁
      | cons c x₂ =>
        obtain ⟨hbc, htail⟩ := List.cons.inj h
        have h₁' : a ∉ x₁ := fun hm => h₁ (List.mem_cons_of_mem _ hm)
        have h₂' : a ∉ x₂ := fun hm => h₂ (List.mem_cons_of_mem _ hm)
        obtain ⟨hx, hz⟩ := ih h₁' h₂' htail
        exact ⟨by rw [hbc, hx], hz⟩
  · rintro ⟨rfl, rfl⟩
    rfl

/-- A text splits uniquely at the last separator. -/
theorem append_cons_inj_last (h₁ : a ∉ z₁) (h₂ : a ∉ z₂) :
    x₁ ++ a :: z₁ = x₂ ++ a :: z₂ ↔ x₁ = x₂ ∧ z₁ = z₂ := by
  have key : z₁.reverse ++ a :: x₁.reverse = z₂.reverse ++ a :: x₂.reverse ↔
      z₁.reverse = z₂.reverse ∧ x₁.reverse = x₂.reverse :=
    append_cons_inj_first (by simpa using h₁) (by simpa using h₂)
  -- the last separator is the first one of the reversed text
  have hrev : ∀ x z : List α, z.reverse ++ a :: x.reverse = (x ++ a :: z).reverse := by
    intro x z
    simp
  rw [hrev, hrev, List.reverse_inj, List.reverse_inj, List.reverse_inj] at key
  rw [key, and_comm]

end Separators

end AdClick.Library
