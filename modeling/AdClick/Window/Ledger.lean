import Mathlib.Data.List.Induction
import Mathlib.Data.List.Count

/-!
# Counting with intermediate flushes, abstractly

What the aggregation service does to one table of counts, without texts, dates or rows: per key a
pending count in memory and a stored count. A record bumps the pending count of its key (a record
that throws has no key); a flush replaces the stored count of every key with pending clicks by the
pending count and forgets the pending counts.

The stored count is the count of the last stretch between two flushes in which the key occurred, so
it is the total of the key exactly when no flush separates two of its records
(`stored_eq_total_iff`).
-/

set_option autoImplicit false

namespace AdClick.Window

universe u

inductive LedgerOp (κ : Type u) where
  | record (key : Option κ)
  | flush

@[ext] structure Ledger (κ : Type u) where
  pending : κ → Nat
  stored : κ → Option Nat

variable {κ : Type u}

theorem snoc_eq_append_flush {ops pre post : List (LedgerOp κ)} {op : LedgerOp κ} :
    ops ++ [op] = pre ++ .flush :: post ↔
      (pre = ops ∧ op = .flush ∧ post = []) ∨
        ∃ post', ops = pre ++ .flush :: post' ∧ post = post' ++ [op] := by
  constructor
  · intro h
    -- the flush is the last operation, or one of the operations before it
    rcases List.eq_nil_or_concat post with rfl | ⟨post', last, rfl⟩
    · obtain ⟨hops, hop⟩ := List.append_inj' h rfl
      exact Or.inl ⟨hops.symm, List.head_eq_of_cons_eq hop, rfl⟩
    · rw [List.concat_eq_append, ← List.cons_append, ← List.append_assoc] at h
      obtain ⟨hops, hop⟩ := List.append_inj' h rfl
      cases hop
      exact Or.inr ⟨post', hops, by simp⟩
  · rintro (⟨rfl, rfl, rfl⟩ | ⟨post', rfl, rfl⟩)
    · rfl
    · simp

variable [BEq κ]

namespace Ledger

/-- Nothing pending, nothing stored. -/
def start : Ledger κ := ⟨fun _ => 0, fun _ => none⟩

def step (l : Ledger κ) : LedgerOp κ → Ledger κ
  | .record key => { l with pending := fun k => l.pending k + key.toList.count k }
  | .flush =>
    { pending := fun _ => 0
      stored := fun k => if l.pending k = 0 then l.stored k else some (l.pending k) }

def run (l : Ledger κ) (ops : List (LedgerOp κ)) : Ledger κ := ops.foldl step l

theorem run_append (l : Ledger κ) (ops more : List (LedgerOp κ)) :
    l.run (ops ++ more) = (l.run ops).run more :=
  List.foldl_append

end Ledger

/-- The key of a record. -/
def LedgerOp.key? : LedgerOp κ → Option κ
  | .record key => key
  | .flush => none

/-- The number of records under a key. -/
def total (ops : List (LedgerOp κ)) (k : κ) : Nat := (ops.filterMap LedgerOp.key?).count k

@[simp] theorem total_nil (k : κ) : total [] k = 0 := rfl

theorem total_append (ops more : List (LedgerOp κ)) (k : κ) :
    total (ops ++ more) k = total ops k + total more k := by
  simp [total]

theorem total_record (key : Option κ) (k : κ) : total [.record key] k = key.toList.count k := by
  cases key <;> rfl

@[simp] theorem total_flush (k : κ) : total [.flush] k = 0 := rfl

/-- Some record of the key comes before a flush. -/
def Flushed (ops : List (LedgerOp κ)) (k : κ) : Prop :=
  ∃ pre post, ops = pre ++ .flush :: post ∧ 0 < total pre k

/-- A flush separates two records of the key. -/
def Split (ops : List (LedgerOp κ)) (k : κ) : Prop :=
  ∃ pre post, ops = pre ++ .flush :: post ∧ 0 < total pre k ∧ 0 < total post k

theorem flushed_snoc_record (ops : List (LedgerOp κ)) (key : Option κ) (k : κ) :
    Flushed (ops ++ [.record key]) k ↔ Flushed ops k := by
  constructor
  · rintro ⟨pre, post, hops, hpre⟩
    rcases snoc_eq_append_flush.1 hops with ⟨-, h, -⟩ | ⟨post', hops', -⟩
    · cases h
    · exact ⟨pre, post', hops', hpre⟩
  · rintro ⟨pre, post, rfl, hpre⟩
    exact ⟨pre, post ++ [.record key], by simp, hpre⟩

theorem flushed_snoc_flush (ops : List (LedgerOp κ)) (k : κ) :
    Flushed (ops ++ [.flush]) k ↔ 0 < total ops k := by
  constructor
  · rintro ⟨pre, post, hops, hpre⟩
    rcases snoc_eq_append_flush.1 hops with ⟨rfl, -, -⟩ | ⟨post', rfl, -⟩
    · exact hpre
    · rw [total_append]
      omega
  · intro h
    exact ⟨ops, [], rfl, h⟩

theorem split_snoc_record (ops : List (LedgerOp κ)) (key : Option κ) (k : κ) :
    Split (ops ++ [.record key]) k ↔
      Split ops k ∨ (Flushed ops k ∧ 0 < total [.record key] k) := by
  constructor
  · rintro ⟨pre, post, hops, hpre, hpost⟩
    rcases snoc_eq_append_flush.1 hops with ⟨-, h, -⟩ | ⟨post', hops', rfl⟩
    · cases h
    · rw [total_append] at hpost
      -- the record of the key after the flush is the new one, or an earlier one
      by_cases hlast : 0 < total [.record key] k
      · exact Or.inr ⟨⟨pre, post', hops', hpre⟩, hlast⟩
      · exact Or.inl ⟨pre, post', hops', hpre, by omega⟩
  · rintro (⟨pre, post, rfl, hpre, hpost⟩ | ⟨⟨pre, post, rfl, hpre⟩, hlast⟩)
    · exact ⟨pre, post ++ [.record key], by simp, hpre, by rw [total_append]; omega⟩
    · exact ⟨pre, post ++ [.record key], by simp, hpre, by rw [total_append]; omega⟩

theorem split_snoc_flush (ops : List (LedgerOp κ)) (k : κ) :
    Split (ops ++ [.flush]) k ↔ Split ops k := by
  constructor
  · rintro ⟨pre, post, hops, hpre, hpost⟩
    rcases snoc_eq_append_flush.1 hops with ⟨-, -, rfl⟩ | ⟨post', hops', rfl⟩
    · cases hpost
    · rw [total_append, total_flush] at hpost
      exact ⟨pre, post', hops', hpre, hpost⟩
  · rintro ⟨pre, post, rfl, hpre, hpost⟩
    exact ⟨pre, post ++ [.flush], by simp, hpre, by rw [total_append]; omega⟩

/-! ## What a run stores -/

/-- How the counts of a key relate to the operations so far. -/
structure Account (ops : List (LedgerOp κ)) (k : κ) (l : Ledger κ) : Prop where
  unstored : l.stored k = none → l.pending k = total ops k
  bounded : ∀ n, l.stored k = some n → 0 < n ∧ n + l.pending k ≤ total ops k
  flushed : Flushed ops k ↔ l.stored k ≠ none
  split : Split ops k ↔
    (l.stored k ≠ none ∧ 0 < l.pending k) ∨
      ∃ n, l.stored k = some n ∧ n + l.pending k < total ops k

theorem account_start (k : κ) : Account [] k (Ledger.start : Ledger κ) where
  unstored := fun _ => rfl
  bounded := fun n h => by cases h
  flushed := by
    constructor
    · rintro ⟨pre, post, h, -⟩
      cases pre <;> cases h
    · exact fun h => absurd rfl h
  split := by
    constructor
    · rintro ⟨pre, post, h, -, -⟩
      cases pre <;> cases h
    · rintro (⟨h, -⟩ | ⟨n, h, -⟩)
      · exact absurd rfl h
      · cases h

theorem account_record {ops : List (LedgerOp κ)} {k : κ} {l : Ledger κ} (h : Account ops k l)
    (key : Option κ) : Account (ops ++ [.record key]) k (l.step (.record key)) := by
  have htotal : total (ops ++ [.record key]) k = total ops k + key.toList.count k := by
    rw [total_append, total_record]
  have hpending : (l.step (.record key)).pending k = l.pending k + key.toList.count k := rfl
  have hstored : (l.step (.record key)).stored k = l.stored k := rfl
  constructor
  · intro hn
    rw [hpending, htotal, h.unstored hn]
  · intro n hn
    obtain ⟨hpos, hle⟩ := h.bounded n hn
    rw [hpending, htotal]
    omega
  · rw [flushed_snoc_record, hstored]
    exact h.flushed
  · rw [split_snoc_record, h.split, h.flushed, total_record, hstored, hpending, htotal]
    cases hs : l.stored k with
    | none => simp
    | some n =>
      -- the key has been stored, so one more record of it comes after a flush
      simp only [ne_eq, reduceCtorEq, not_false_eq_true, true_and, Option.some.injEq,
        exists_eq_left']
      omega

theorem account_flush {ops : List (LedgerOp κ)} {k : κ} {l : Ledger κ} (h : Account ops k l) :
    Account (ops ++ [.flush]) k (l.step .flush) := by
  have htotal : total (ops ++ [.flush]) k = total ops k := by
    rw [total_append, total_flush]
    rfl
  have hpending : (l.step .flush).pending k = 0 := rfl
  have hstored : (l.step .flush).stored k =
      if l.pending k = 0 then l.stored k else some (l.pending k) := rfl
  have hbounded := h.bounded
  have hunstored := h.unstored
  constructor
  · intro hn
    rw [hstored] at hn
    split at hn
    · -- nothing was pending, so the key has no record at all
      rw [hpending, htotal, ← hunstored hn]
      omega
    · cases hn
  · intro n hn
    rw [hpending, htotal]
    rw [hstored] at hn
    split at hn
    · obtain ⟨hpos, hle⟩ := hbounded n hn
      omega
    · -- the pending clicks are stored, and are at most all clicks
      cases hn
      cases hs : l.stored k with
      | none =>
        have hall := hunstored hs
        omega
      | some m =>
        have hle := hbounded m hs
        omega
  · rw [flushed_snoc_flush, hstored]
    cases hs : l.stored k with
    | none =>
      rw [← hunstored hs]
      split <;> simp <;> omega
    | some m =>
      have hle := hbounded m hs
      split <;> simp <;> omega
  · -- a count that is replaced while clicks are pending leaves the stored count short
    rw [split_snoc_flush, h.split, hstored, hpending, htotal]
    cases hs : l.stored k with
    | none =>
      have hall := hunstored hs
      split
      · simp
      · simp
        omega
    | some m =>
      have hle := hbounded m hs
      split <;> simp <;> omega

theorem account_run (ops : List (LedgerOp κ)) (k : κ) :
    Account ops k ((Ledger.start : Ledger κ).run ops) := by
  -- from the back: what a key is stored under changes with the last operation
  induction ops using List.reverseRecOn with
  | nil => exact account_start k
  | append_singleton ops op ih =>
    rw [Ledger.run_append]
    cases op with
    | record key => exact account_record ih key
    | flush => exact account_flush ih

/-- After a last flush, the stored count of a key is its total exactly when no flush separates two
of its records. -/
theorem stored_eq_total_iff (ops : List (LedgerOp κ)) (k : κ) :
    ((Ledger.start.run (ops ++ [.flush])).stored k =
        if total ops k = 0 then none else some (total ops k)) ↔ ¬ Split ops k := by
  have h := account_run (ops ++ [.flush]) k
  have hpending : (Ledger.start.run (ops ++ [.flush])).pending k = 0 := by
    rw [Ledger.run_append]
    rfl
  have htotal : total (ops ++ [.flush]) k = total ops k := by
    rw [total_append, total_flush]
    rfl
  have hsplit := h.split
  have hunstored := h.unstored
  have hbounded := h.bounded
  rw [split_snoc_flush, hpending, htotal] at hsplit
  rw [hsplit]
  rw [hpending, htotal] at hunstored
  simp only [hpending, htotal] at hbounded
  cases hs : (Ledger.start.run (ops ++ [.flush])).stored k with
  | none => simp [(hunstored hs).symm]
  | some n =>
    have hn := hbounded n hs
    have hne : total ops k ≠ 0 := by omega
    simp [hne]
    omega

end AdClick.Window
