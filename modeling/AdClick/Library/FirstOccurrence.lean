import Mathlib.Data.Finset.Basic
import Mathlib.Data.Finset.Dedup
import Mathlib.Data.List.Dedup

/-!
# First occurrences by key

The elements of a list whose key has not occurred before (`firsts`). Their keys are distinct and
are the keys of the list (`nodup_map_firsts`, `mem_map_firsts`), and each of them is what a search
for its key finds (`find?_of_mem_firsts`). So counting first occurrences is counting distinct keys
by the element found first (`countP_firsts`).
-/

set_option autoImplicit false

namespace AdClick.Library

universe u v

variable {α : Type u} {κ : Type v} [DecidableEq κ] (key : α → κ)

/-- The elements whose key is neither in `seen` nor the key of an earlier element. -/
def firsts (seen : Finset κ) : List α → List α
  | [] => []
  | x :: xs => if key x ∈ seen then firsts seen xs else x :: firsts (insert (key x) seen) xs

theorem mem_map_firsts (xs : List α) :
    ∀ (seen : Finset κ) (k : κ), k ∈ (firsts key seen xs).map key ↔ k ∉ seen ∧ k ∈ xs.map key := by
  induction xs with
  | nil => simp [firsts]
  | cons x xs ih =>
    intro seen k
    by_cases hx : key x ∈ seen
    · -- the element is left out, and its key is not asked for
      rw [firsts, if_pos hx, ih, List.map_cons, List.mem_cons]
      constructor
      · rintro ⟨hk, hmem⟩
        exact ⟨hk, Or.inr hmem⟩
      · rintro ⟨hk, rfl | hmem⟩
        · exact absurd hx hk
        · exact ⟨hk, hmem⟩
    · -- the element is kept, and from here on its key counts as seen
      rw [firsts, if_neg hx, List.map_cons, List.mem_cons, ih, List.map_cons, List.mem_cons,
        Finset.mem_insert, not_or]
      constructor
      · rintro (rfl | ⟨⟨-, hk⟩, hmem⟩)
        · exact ⟨hx, Or.inl rfl⟩
        · exact ⟨hk, Or.inr hmem⟩
      · rintro ⟨hk, hmem⟩
        by_cases hne : k = key x
        · exact Or.inl hne
        · exact Or.inr ⟨⟨hne, hk⟩, hmem.resolve_left hne⟩

theorem nodup_map_firsts (xs : List α) :
    ∀ seen : Finset κ, ((firsts key seen xs).map key).Nodup := by
  induction xs with
  | nil =>
    intro _
    exact List.nodup_nil
  | cons x xs ih =>
    intro seen
    by_cases hx : key x ∈ seen
    · rw [firsts, if_pos hx]
      exact ih seen
    · rw [firsts, if_neg hx, List.map_cons, List.nodup_cons]
      refine ⟨?_, ih _⟩
      intro hmem
      obtain ⟨hnot, -⟩ := (mem_map_firsts key xs _ _).1 hmem
      exact hnot (Finset.mem_insert_self _ _)

/-- A first occurrence is what a search for its key finds. -/
theorem find?_of_mem_firsts (xs : List α) :
    ∀ (seen : Finset κ) {x : α}, x ∈ firsts key seen xs →
      xs.find? (fun y => key y = key x) = some x := by
  induction xs with
  | nil =>
    intro seen x hx
    cases hx
  | cons y xs ih =>
    intro seen x hx
    -- the search goes past `y`, as a first occurrence has a key that was not seen before
    have hfresh : ∀ (seen : Finset κ), x ∈ firsts key seen xs → key x ∉ seen := by
      intro seen hmem
      exact ((mem_map_firsts key xs seen (key x)).1 (List.mem_map_of_mem hmem)).1
    by_cases hy : key y ∈ seen
    · rw [firsts, if_pos hy] at hx
      have hne : ¬ key y = key x := by
        intro heq
        exact hfresh seen hx (heq ▸ hy)
      rw [List.find?_cons_of_neg (by simpa using hne)]
      exact ih seen hx
    · rw [firsts, if_neg hy] at hx
      rcases List.mem_cons.1 hx with rfl | hx
      · exact List.find?_cons_of_pos (by simp)
      · have hne : ¬ key y = key x := by
          intro heq
          exact hfresh _ hx (heq ▸ Finset.mem_insert_self _ _)
        rw [List.find?_cons_of_neg (by simpa using hne)]
        exact ih _ hx

theorem mem_of_mem_firsts (xs : List α) :
    ∀ (seen : Finset κ) {x : α}, x ∈ firsts key seen xs → x ∈ xs := by
  induction xs with
  | nil =>
    intro seen x hx
    exact hx
  | cons y xs ih =>
    intro seen x hx
    rw [firsts] at hx
    split at hx
    · exact List.mem_cons_of_mem y (ih seen hx)
    · rcases List.mem_cons.1 hx with rfl | hx
      · exact List.mem_cons_self
      · exact List.mem_cons_of_mem y (ih _ hx)

/-- The keys of the first occurrences are the first occurrences of the keys. -/
theorem map_firsts (xs : List α) :
    ∀ seen : Finset κ, (firsts key seen xs).map key = firsts id seen (xs.map key) := by
  induction xs with
  | nil =>
    intro _
    rfl
  | cons x xs ih =>
    intro seen
    by_cases hx : key x ∈ seen
    · rw [firsts, if_pos hx, List.map_cons, firsts, if_pos (show id (key x) ∈ seen from hx)]
      exact ih seen
    · rw [firsts, if_neg hx, List.map_cons, List.map_cons, firsts,
        if_neg (show id (key x) ∉ seen from hx)]
      exact congrArg _ (ih _)

/-- A last element is a first occurrence when its key is new. -/
theorem firsts_snoc (xs : List α) (x : α) :
    ∀ seen : Finset κ, firsts key seen (xs ++ [x]) =
      if key x ∈ seen ∨ key x ∈ xs.map key then firsts key seen xs
      else firsts key seen xs ++ [x] := by
  induction xs with
  | nil =>
    intro seen
    by_cases hx : key x ∈ seen
    · simp [firsts, hx]
    · simp [firsts, hx]
  | cons y xs ih =>
    intro seen
    rw [List.cons_append, firsts, firsts]
    by_cases hy : key y ∈ seen
    · have hiff : (key x ∈ seen ∨ key x ∈ xs.map key) ↔
          (key x ∈ seen ∨ key x ∈ (y :: xs).map key) := by
        rw [List.map_cons, List.mem_cons]
        constructor
        · rintro (h | h)
          · exact Or.inl h
          · exact Or.inr (Or.inr h)
        · rintro (h | h | h)
          · exact Or.inl h
          · exact Or.inl (h ▸ hy)
          · exact Or.inr h
      rw [if_pos hy, if_pos hy, ih]
      simp only [hiff]
    · have hiff : (key x ∈ insert (key y) seen ∨ key x ∈ xs.map key) ↔
          (key x ∈ seen ∨ key x ∈ (y :: xs).map key) := by
        rw [Finset.mem_insert, List.map_cons, List.mem_cons, or_comm (a := key x = key y), or_assoc]
      rw [if_neg hy, if_neg hy, ih]
      simp only [hiff]
      split <;> rfl

/-- The keys of the first occurrences are the distinct keys. -/
theorem map_firsts_perm_dedup (xs : List α) :
    ((firsts key ∅ xs).map key).Perm (xs.map key).dedup := by
  apply (List.perm_ext_iff_of_nodup (nodup_map_firsts key xs ∅) (List.nodup_dedup _)).2
  intro k
  rw [mem_map_firsts, List.mem_dedup]
  simp

theorem length_firsts (xs : List α) : (firsts key ∅ xs).length = (xs.map key).dedup.length := by
  rw [← (map_firsts_perm_dedup key xs).length_eq, List.length_map]

/-- Counting first occurrences is counting distinct keys by the element found first. -/
theorem countP_firsts (p : α → Bool) (xs : List α) :
    (firsts key ∅ xs).countP p =
      (xs.map key).dedup.countP fun k => (xs.find? fun y => key y = k).any p := by
  rw [← (map_firsts_perm_dedup key xs).countP_eq, List.countP_map]
  apply List.countP_congr
  intro x hx
  rw [Function.comp_apply, find?_of_mem_firsts key xs ∅ hx, Option.any_some]

end AdClick.Library
