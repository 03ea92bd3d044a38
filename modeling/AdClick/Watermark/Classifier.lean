import AdClick.Library.Runs
import Mathlib.Data.List.Count
import Mathlib.Order.Lattice

/-!
# Lateness and counting, abstractly

What the watermark service decides, without dates, texts or thresholds: a click has a time and a
key, the tracker keeps a watermark and a count per key, and a click is either late, by its distance
to the watermark, or the `n`-th counted click of its key. Which counted clicks are fraud is a
matter of `n` alone.

With a tolerance that is not negative the watermark is the largest time of all clicks, late ones
included (`after_watermark`). The ranks of the counted clicks of a key are consecutive
(`ranks_outputs`). A time further behind the watermark than the tolerance is closed for good
(`late_of_behind`), and clicks that are not late at the start and lie within the tolerance of each
other are not late in any order (`counted_of_within`).
-/

set_option autoImplicit false

namespace AdClick.Watermark

open AdClick.Library

universe u

structure Click (κ : Type u) where
  time : Int
  key : κ

@[ext] structure Tracker (κ : Type u) where
  watermark : Int
  count : κ → Nat

inductive Verdict where
  | late (behind : Int)
  | counted (n : Nat)
  deriving DecidableEq

/-- There is a watermark, and the time is further behind it than the tolerance. -/
def Late (tolerance watermark time : Int) : Prop :=
  0 < watermark ∧ time < watermark - tolerance

instance (tolerance watermark time : Int) : Decidable (Late tolerance watermark time) :=
  inferInstanceAs (Decidable (_ ∧ _))

variable {κ : Type u}

/-- The largest of the times and a start value. -/
def largest (start : Int) (cs : List (Click κ)) : Int := (cs.map Click.time).foldl max start

/-- The largest time does not depend on the order. -/
theorem largest_perm {cs ds : List (Click κ)} (h : cs.Perm ds) (start : Int) :
    largest start cs = largest start ds := by
  apply (h.map Click.time).foldl_eq' _ start
  intro x _ y _ z
  show max (max z x) y = max (max z y) x
  omega

variable [DecidableEq κ]

/-- Nothing counted, and no watermark yet. -/
def Tracker.start : Tracker κ := ⟨0, fun _ => 0⟩

/-- A click that is not late moves the watermark and is counted. -/
def Tracker.bump (a : Tracker κ) (c : Click κ) : Tracker κ where
  watermark := max a.watermark c.time
  count := fun k => a.count k + if k = c.key then 1 else 0

def classify (tolerance : Int) (a : Tracker κ) (c : Click κ) : Tracker κ × Verdict :=
  if Late tolerance a.watermark c.time then (a, .late (a.watermark - c.time))
  else (a.bump c, .counted (a.count c.key + 1))

theorem classify_of_late {tolerance : Int} {a : Tracker κ} {c : Click κ}
    (h : Late tolerance a.watermark c.time) :
    classify tolerance a c = (a, .late (a.watermark - c.time)) :=
  if_pos h

theorem classify_of_not_late {tolerance : Int} {a : Tracker κ} {c : Click κ}
    (h : ¬ Late tolerance a.watermark c.time) :
    classify tolerance a c = (a.bump c, .counted (a.count c.key + 1)) :=
  if_neg h

/-! ## The watermark -/

theorem classify_watermark_le (tolerance : Int) (a : Tracker κ) (c : Click κ) :
    a.watermark ≤ (classify tolerance a c).1.watermark := by
  by_cases h : Late tolerance a.watermark c.time
  · rw [classify_of_late h]
  · rw [classify_of_not_late h]
    exact le_max_left a.watermark c.time

/-- The watermark never goes back. -/
theorem watermark_le_after (tolerance : Int) (a : Tracker κ) (cs : List (Click κ)) :
    a.watermark ≤ (after (classify tolerance) a cs).watermark := by
  induction cs generalizing a with
  | nil => exact le_refl a.watermark
  | cons c cs ih => exact (classify_watermark_le tolerance a c).trans (ih _)

/-- A late click lies behind the watermark, so that skipping it does not change the maximum. -/
theorem classify_watermark {tolerance : Int} (htol : 0 ≤ tolerance) (a : Tracker κ) (c : Click κ) :
    (classify tolerance a c).1.watermark = max a.watermark c.time := by
  by_cases h : Late tolerance a.watermark c.time
  · rw [classify_of_late h]
    -- the tolerance is not negative
    have hle : c.time ≤ a.watermark := by
      have hlt := h.2
      omega
    exact (max_eq_left hle).symm
  · rw [classify_of_not_late h]
    rfl

/-- The watermark is the largest time so far, of late clicks too. -/
theorem after_watermark {tolerance : Int} (htol : 0 ≤ tolerance) (a : Tracker κ)
    (cs : List (Click κ)) :
    (after (classify tolerance) a cs).watermark = largest a.watermark cs := by
  induction cs generalizing a with
  | nil => rfl
  | cons c cs ih =>
    rw [after_cons, ih, classify_watermark htol]
    rfl

/-! ## The counts -/

/-- The rank of a counted click of the key. -/
def rank? (k : κ) : Click κ × Verdict → Option Nat
  | (c, .counted n) => if c.key = k then some n else none
  | (_, .late _) => none

/-- The ranks of the counted clicks of a key, in order. -/
def ranks (k : κ) (cs : List (Click κ)) (vs : List Verdict) : List Nat :=
  (cs.zip vs).filterMap (rank? k)

/-- The counted clicks of a key are numbered from its count on, and the count follows. -/
theorem ranks_outputs (tolerance : Int) (k : κ) (cs : List (Click κ)) (a : Tracker κ) :
    ∃ m, (after (classify tolerance) a cs).count k = a.count k + m ∧
      ranks k cs (outputs (classify tolerance) a cs) = List.range' (a.count k + 1) m := by
  induction cs generalizing a with
  | nil => exact ⟨0, rfl, rfl⟩
  | cons c cs ih =>
    rw [after_cons, outputs_cons]
    by_cases h : Late tolerance a.watermark c.time
    · rw [classify_of_late h]
      obtain ⟨m, hcount, hranks⟩ := ih a
      exact ⟨m, hcount, hranks⟩
    · rw [classify_of_not_late h]
      obtain ⟨m, hcount, hranks⟩ := ih (a.bump c)
      simp only [ranks] at hranks ⊢
      rw [List.zip_cons_cons, List.filterMap_cons]
      by_cases hk : c.key = k
      · -- the click takes the next rank, and the ranks of the rest start after it
        have hbump : (a.bump c).count k = a.count k + 1 := by simp [Tracker.bump, hk]
        refine ⟨m + 1, hcount.trans (by omega), ?_⟩
        rw [hbump] at hranks
        simp [rank?, hk, hranks, List.range'_succ]
      · -- a click of another key takes no rank of this one
        have hbump : (a.bump c).count k = a.count k := by
          simp [Tracker.bump, Ne.symm hk]
        refine ⟨m, hcount.trans (by omega), ?_⟩
        rw [hbump] at hranks
        simp [rank?, hk, hranks]

/-! ## Closed times -/

/-- A click that is further behind the watermark at the start than the tolerance is late wherever it
comes. -/
theorem late_of_behind {tolerance : Int} {cs : List (Click κ)} {a : Tracker κ}
    (hpos : 0 < a.watermark) :
    ∀ q ∈ cs.zip (outputs (classify tolerance) a cs), q.1.time < a.watermark - tolerance →
      ∃ behind, q.2 = .late behind := by
  induction cs generalizing a with
  | nil =>
    intro q hq
    cases hq
  | cons c cs ih =>
    intro q hq hbehind
    rw [outputs_cons, List.zip_cons_cons] at hq
    rcases List.mem_cons.1 hq with rfl | hq
    · exact ⟨_, congrArg Prod.snd (classify_of_late ⟨hpos, hbehind⟩)⟩
    · -- the watermark has not gone back
      have hle := classify_watermark_le tolerance a c
      exact ih (by omega) q hq (by omega)

/-! ## Clicks within the tolerance -/

/-- Clicks that are not late at the start, and lie within the tolerance of each other, are all
counted. -/
theorem counted_of_within {tolerance : Int} {cs : List (Click κ)} {a : Tracker κ}
    (hstart : ∀ c ∈ cs, ¬ Late tolerance a.watermark c.time)
    (hothers : ∀ c ∈ cs, ∀ d ∈ cs, d.time - tolerance ≤ c.time) :
    ∀ v ∈ outputs (classify tolerance) a cs, ∃ n, v = .counted n := by
  induction cs generalizing a with
  | nil =>
    intro v hv
    cases hv
  | cons c cs ih =>
    rw [outputs_cons, classify_of_not_late (hstart c List.mem_cons_self)]
    intro v hv
    rcases List.mem_cons.1 hv with rfl | hv
    · exact ⟨_, rfl⟩
    · apply ih _ _ v hv
      · intro d hd hlate
        -- the new watermark is the old one or the time of the click just counted
        have hd' := List.mem_cons_of_mem c hd
        have hold := hstart d hd'
        have hnew := hothers d hd' c List.mem_cons_self
        obtain ⟨hpos, hlt⟩ := hlate
        change 0 < max a.watermark c.time at hpos
        change d.time < max a.watermark c.time - tolerance at hlt
        apply hold
        constructor <;> omega
      · intro d hd e he
        exact hothers d (List.mem_cons_of_mem c hd) e (List.mem_cons_of_mem c he)

end AdClick.Watermark
