import AdClick.Library.FirstOccurrence
import Mathlib.Algebra.BigOperators.Group.List.Basic
import Mathlib.Algebra.GroupWithZero.Nat
import Mathlib.Data.List.Nodup

/-!
# Insertion-ordered maps

A finite map that enumerates its entries in the order in which their keys were first set:
overwriting a key keeps its place, a new key goes to the end. The entries carry the proof that no
key occurs twice, so a map with two values for one key cannot be built.

`InsertionMap.count` and `InsertionMap.increment` read and bump a counter kept under a key, with
zero for an absent key. Folding `increment` over a list of keys is the multiset of the list
(`count_tally`): the count of a key is its number of occurrences, whatever the order of the list.
Only the order of the entries is that of the first occurrences (`map_fst_tally`).
-/

set_option autoImplicit false

namespace AdClick.Library

universe u v w

/-- A map as its list of entries in insertion order, with distinct keys. -/
structure InsertionMap (κ : Type u) (υ : Type v) where
  entries : List (κ × υ)
  nodup : (entries.map Prod.fst).Nodup

namespace InsertionMap

variable {κ : Type u} {υ : Type v}

/-- The values in insertion order. -/
def values (m : InsertionMap κ υ) : List υ := m.entries.map Prod.snd

/-- The number of entries. -/
def size (m : InsertionMap κ υ) : Nat := m.entries.length

/-- The map with no entry. -/
def empty : InsertionMap κ υ := ⟨[], List.nodup_nil⟩

@[ext] theorem ext {m n : InsertionMap κ υ} (h : m.entries = n.entries) : m = n := by
  cases m
  cases n
  simpa using h

@[simp] theorem entries_empty : (empty : InsertionMap κ υ).entries = [] := rfl
@[simp] theorem values_empty : (empty : InsertionMap κ υ).values = [] := rfl

theorem size_eq_zero_iff {m : InsertionMap κ υ} : m.size = 0 ↔ m = empty := by
  constructor
  · intro h
    exact ext (List.length_eq_zero_iff.1 h)
  · rintro rfl
    rfl

theorem nodup_filter (p : κ → Bool) {es : List (κ × υ)} (h : (es.map Prod.fst).Nodup) :
    ((es.filter fun e => p e.1).map Prod.fst).Nodup :=
  h.sublist (List.filter_sublist.map Prod.fst)

/-- The entries whose key satisfies `p`. -/
def restrict (m : InsertionMap κ υ) (p : κ → Bool) : InsertionMap κ υ :=
  ⟨m.entries.filter fun e => p e.1, nodup_filter p m.nodup⟩

theorem map_fst_mapValues {ω : Type w} (f : υ → ω) (es : List (κ × υ)) :
    (es.map fun e => (e.1, f e.2)).map Prod.fst = es.map Prod.fst := by
  rw [List.map_map]
  rfl

/-- The map with every value mapped. -/
def mapValues {ω : Type w} (f : υ → ω) (m : InsertionMap κ υ) : InsertionMap κ ω :=
  ⟨m.entries.map fun e => (e.1, f e.2), by rw [map_fst_mapValues]; exact m.nodup⟩

theorem values_mapValues {ω : Type w} (f : υ → ω) (m : InsertionMap κ υ) :
    (m.mapValues f).values = m.values.map f := by
  unfold values mapValues
  rw [List.map_map, List.map_map]
  rfl

variable [DecidableEq κ]

/-- The value under a key, if the key was set. -/
def get? (m : InsertionMap κ υ) (k : κ) : Option υ := m.entries.lookup k

/-- Overwrite the value of `k` in place, or append the entry. -/
def setEntries (k : κ) (v : υ) : List (κ × υ) → List (κ × υ)
  | [] => [(k, v)]
  | (k', v') :: rest => if k' = k then (k, v) :: rest else (k', v') :: setEntries k v rest

@[simp] theorem get?_empty (k : κ) : (empty : InsertionMap κ υ).get? k = none := rfl

/-- Setting a key keeps the list of keys, except that an absent key is appended. -/
theorem map_fst_setEntries (k : κ) (v : υ) (es : List (κ × υ)) :
    (setEntries k v es).map Prod.fst =
      if k ∈ es.map Prod.fst then es.map Prod.fst else es.map Prod.fst ++ [k] := by
  induction es with
  | nil => rfl
  | cons e rest ih =>
    obtain ⟨k', v'⟩ := e
    by_cases hk : k' = k
    · simp [setEntries, hk]
    · -- the entry stays in front, and the rest is searched on
      have hk' : ¬ k = k' := fun h => hk h.symm
      simp only [setEntries, if_neg hk, List.map_cons, ih, List.mem_cons, hk', false_or]
      split <;> simp

theorem nodup_setEntries (k : κ) (v : υ) {es : List (κ × υ)} (h : (es.map Prod.fst).Nodup) :
    ((setEntries k v es).map Prod.fst).Nodup := by
  rw [map_fst_setEntries]
  split
  · exact h
  · rename_i hk
    apply List.Nodup.append h (List.nodup_singleton k)
    simpa using hk

/-- Set `k` to `v`. -/
def set (m : InsertionMap κ υ) (k : κ) (v : υ) : InsertionMap κ υ :=
  ⟨setEntries k v m.entries, nodup_setEntries k v m.nodup⟩

theorem lookup_cons_ite (k : κ) (v : υ) (es : List (κ × υ)) (j : κ) :
    ((k, v) :: es).lookup j = if j = k then some v else es.lookup j := by
  by_cases h : j = k
  · simp [h]
  · have hb : (j == k) = false := by simpa using h
    simp [List.lookup_cons, hb, h]

theorem lookup_setEntries (k : κ) (v : υ) (es : List (κ × υ)) (j : κ) :
    (setEntries k v es).lookup j = if j = k then some v else es.lookup j := by
  induction es with
  | nil => exact lookup_cons_ite k v [] j
  | cons e rest ih =>
    obtain ⟨k', v'⟩ := e
    by_cases hk : k' = k
    · subst hk
      simp only [setEntries, if_true, lookup_cons_ite]
      split <;> rfl
    · simp only [setEntries, if_neg hk, lookup_cons_ite, ih]
      by_cases hj : j = k'
      · -- found in front, which is not the entry that was set
        subst hj
        simp [hk]
      · simp [hj]

/-- Setting a key changes the value under that key only. -/
theorem get?_set (m : InsertionMap κ υ) (k : κ) (v : υ) (j : κ) :
    (m.set k v).get? j = if j = k then some v else m.get? j :=
  lookup_setEntries k v m.entries j

theorem lookup_of_mem {es : List (κ × υ)} (h : (es.map Prod.fst).Nodup) {k : κ} {v : υ}
    (hmem : (k, v) ∈ es) : es.lookup k = some v := by
  induction es with
  | nil => cases hmem
  | cons e rest ih =>
    obtain ⟨k', v'⟩ := e
    simp only [List.map_cons, List.nodup_cons] at h
    rcases List.mem_cons.1 hmem with heq | hrest
    · cases heq
      simp
    · -- the first entry has another key, as no key occurs twice
      have hne : k ≠ k' := by
        rintro rfl
        exact h.1 (List.mem_map_of_mem hrest)
      rw [lookup_cons_ite, if_neg hne]
      exact ih h.2 hrest

/-- An entry of the map is what the map returns for its key. -/
theorem mem_entries_iff (m : InsertionMap κ υ) (k : κ) (v : υ) :
    (k, v) ∈ m.entries ↔ m.get? k = some v := by
  constructor
  · exact lookup_of_mem m.nodup
  · intro h
    obtain ⟨l₁, l₂, hl, -⟩ := List.lookup_eq_some_iff.1 h
    rw [hl]
    simp

/-! ## Restriction -/

theorem filter_setEntries (p : κ → Bool) (k : κ) (v : υ) (es : List (κ × υ)) :
    (setEntries k v es).filter (fun e => p e.1) =
      if p k then setEntries k v (es.filter fun e => p e.1) else es.filter fun e => p e.1 := by
  induction es with
  | nil => cases hp : p k <;> simp [setEntries, hp]
  | cons e rest ih =>
    obtain ⟨k', v'⟩ := e
    by_cases hk : k' = k
    · subst hk
      cases hp : p k' <;> simp [setEntries, hp]
    · -- the entry in front stays or goes with its own key
      simp only [setEntries, if_neg hk, List.filter_cons, ih]
      cases hp : p k <;> cases hp' : p k' <;> simp [setEntries, hk]

/-- Setting a kept key commutes with the restriction. -/
theorem restrict_set_of_pos {p : κ → Bool} {k : κ} (h : p k = true) (m : InsertionMap κ υ) (v : υ) :
    (m.set k v).restrict p = (m.restrict p).set k v :=
  ext ((filter_setEntries p k v m.entries).trans (if_pos h))

/-- Setting another key does not show. -/
theorem restrict_set_of_neg {p : κ → Bool} {k : κ} (h : ¬ p k = true) (m : InsertionMap κ υ)
    (v : υ) : (m.set k v).restrict p = m.restrict p :=
  ext ((filter_setEntries p k v m.entries).trans (if_neg h))

theorem get?_restrict {p : κ → Bool} {k : κ} (h : p k = true) (m : InsertionMap κ υ) :
    (m.restrict p).get? k = m.get? k := by
  apply Option.ext
  intro v
  rw [← mem_entries_iff, ← mem_entries_iff, restrict, List.mem_filter]
  simp [h]

theorem get?_restrict_of_neg {p : κ → Bool} {k : κ} (h : ¬ p k = true) (m : InsertionMap κ υ) :
    (m.restrict p).get? k = none := by
  rw [Option.eq_none_iff_forall_ne_some]
  intro v hv
  rw [← mem_entries_iff, restrict, List.mem_filter] at hv
  exact h hv.2

theorem restrict_eq_self {p : κ → Bool} {m : InsertionMap κ υ}
    (h : ∀ k, m.get? k ≠ none → p k = true) : m.restrict p = m := by
  apply ext
  refine List.filter_eq_self.2 ?_
  rintro ⟨k, v⟩ hmem
  refine h k ?_
  rw [(mem_entries_iff m k v).1 hmem]
  exact Option.some_ne_none v

/-! ## Mapped values -/

section MapValues

variable {ω : Type w} (f : υ → ω)

theorem get?_mapValues (m : InsertionMap κ υ) (k : κ) :
    (m.mapValues f).get? k = (m.get? k).map f := by
  obtain ⟨es, nodup⟩ := m
  show (es.map fun e => (e.1, f e.2)).lookup k = (es.lookup k).map f
  clear nodup
  induction es with
  | nil => rfl
  | cons e rest ih =>
    obtain ⟨k', v'⟩ := e
    rw [List.map_cons, lookup_cons_ite, lookup_cons_ite, ih]
    split <;> rfl

theorem mapValues_set (m : InsertionMap κ υ) (k : κ) (v : υ) :
    (m.set k v).mapValues f = (m.mapValues f).set k (f v) := by
  apply ext
  obtain ⟨es, nodup⟩ := m
  show (setEntries k v es).map (fun e => (e.1, f e.2)) =
    setEntries k (f v) (es.map fun e => (e.1, f e.2))
  clear nodup
  induction es with
  | nil => rfl
  | cons e rest ih =>
    obtain ⟨k', v'⟩ := e
    by_cases hk : k' = k
    · simp [setEntries, hk]
    · simp [setEntries, hk, ih]

end MapValues

/-! ## Copies -/

theorem setEntries_of_not_mem {k : κ} (v : υ) {es : List (κ × υ)} (h : k ∉ es.map Prod.fst) :
    setEntries k v es = es ++ [(k, v)] := by
  induction es with
  | nil => rfl
  | cons e rest ih =>
    obtain ⟨k', v'⟩ := e
    rw [List.map_cons, List.mem_cons, not_or] at h
    rw [setEntries, if_neg (fun heq => h.1 heq.symm), ih h.2, List.cons_append]

/-- Setting the entries of a list with new and distinct keys one by one, except for some keys,
appends them. -/
theorem entries_foldl_set (p : κ → Bool) (es : List (κ × υ)) :
    ∀ m : InsertionMap κ υ, ((m.entries ++ es).map Prod.fst).Nodup →
      (es.foldl (fun m e => if p e.1 then m.set e.1 e.2 else m) m).entries =
        m.entries ++ es.filter fun e => p e.1 := by
  induction es with
  | nil =>
    intro m _
    exact (List.append_nil _).symm
  | cons e rest ih =>
    intro m hnodup
    obtain ⟨k, v⟩ := e
    rw [List.foldl_cons, List.filter_cons]
    have hsplit : (m.entries ++ (k, v) :: rest).map Prod.fst =
        m.entries.map Prod.fst ++ k :: rest.map Prod.fst := List.map_append
    rw [hsplit] at hnodup
    by_cases hp : p k = true
    · -- the key is new, so its entry goes to the end
      have hnew : k ∉ m.entries.map Prod.fst := by
        intro hmem
        exact (List.nodup_append.1 hnodup).2.2 k hmem k List.mem_cons_self rfl
      have hset : (m.set k v).entries = m.entries ++ [(k, v)] := setEntries_of_not_mem v hnew
      rw [if_pos hp, if_pos hp, ih, hset, List.append_assoc]
      · rfl
      · rw [hset, List.append_assoc, List.map_append]
        exact hnodup
    · rw [if_neg hp, if_neg hp]
      refine ih m ?_
      rw [List.map_append]
      exact hnodup.sublist ((List.sublist_cons_self k _).append_left _)

/-- Copying a map entry by entry, except for some keys, restricts it. -/
theorem foldl_set_entries (p : κ → Bool) (m : InsertionMap κ υ) :
    m.entries.foldl (fun m e => if p e.1 then m.set e.1 e.2 else m) empty = m.restrict p :=
  ext (entries_foldl_set p m.entries empty m.nodup)

/-! ## Counters -/

/-- The counter under `k`; zero when `k` is absent. -/
def count (m : InsertionMap κ Nat) (k : κ) : Nat := (m.get? k).getD 0

/-- Bump the counter under `k`. -/
def increment (m : InsertionMap κ Nat) (k : κ) : InsertionMap κ Nat := m.set k (m.count k + 1)

@[simp] theorem count_empty (k : κ) : (empty : InsertionMap κ Nat).count k = 0 := rfl

theorem count_set (m : InsertionMap κ Nat) (k : κ) (n : Nat) (j : κ) :
    (m.set k n).count j = if j = k then n else m.count j := by
  rw [count, get?_set]
  split <;> rfl

theorem get?_increment (m : InsertionMap κ Nat) (k j : κ) :
    (m.increment k).get? j = if j = k then some (m.count k + 1) else m.get? j :=
  get?_set m k (m.count k + 1) j

theorem count_increment (m : InsertionMap κ Nat) (k j : κ) :
    (m.increment k).count j = m.count j + if j = k then 1 else 0 := by
  rw [increment, count_set]
  split
  · rename_i h
    rw [h]
  · rfl

/-- The counters in insertion order. -/
theorem values_eq_map_count (m : InsertionMap κ Nat) :
    m.values = (m.entries.map Prod.fst).map m.count := by
  rw [values, List.map_map]
  refine List.map_congr_left ?_
  rintro ⟨k, n⟩ hmem
  show n = (m.get? k).getD 0
  rw [(mem_entries_iff m k n).1 hmem]
  rfl

theorem restrict_increment_of_pos {p : κ → Bool} {k : κ} (h : p k = true)
    (m : InsertionMap κ Nat) : (m.increment k).restrict p = (m.restrict p).increment k := by
  rw [increment, restrict_set_of_pos h, increment, count, count, get?_restrict h]

theorem restrict_increment_of_neg {p : κ → Bool} {k : κ} (h : ¬ p k = true)
    (m : InsertionMap κ Nat) : (m.increment k).restrict p = m.restrict p :=
  restrict_set_of_neg h m _

theorem sum_values_setEntries (k : κ) (n : Nat) (es : List (κ × Nat)) :
    ((setEntries k n es).map Prod.snd).sum + (es.lookup k).getD 0 = (es.map Prod.snd).sum + n := by
  induction es with
  | nil => simp [setEntries]
  | cons e rest ih =>
    obtain ⟨k', v'⟩ := e
    by_cases hk : k' = k
    · -- the value that the sum loses is the one the look-up finds
      subst hk
      simp [setEntries]
      omega
    · have hne : ¬ k = k' := fun h => hk h.symm
      simp only [setEntries, if_neg hk, List.map_cons, List.sum_cons, lookup_cons_ite, if_neg hne]
      omega

/-- One increment adds one to the sum of the counters. -/
theorem sum_values_increment (m : InsertionMap κ Nat) (k : κ) :
    (m.increment k).values.sum = m.values.sum + 1 := by
  have h := sum_values_setEntries k (m.count k + 1) m.entries
  show ((setEntries k (m.count k + 1) m.entries).map Prod.snd).sum =
    (m.entries.map Prod.snd).sum + 1
  have hc : (m.entries.lookup k).getD 0 = m.count k := rfl
  omega

/-- The counters after one increment per listed key. -/
def tally (m : InsertionMap κ Nat) (ks : List κ) : InsertionMap κ Nat := ks.foldl increment m

@[simp] theorem tally_nil (m : InsertionMap κ Nat) : m.tally [] = m := rfl

theorem tally_append (m : InsertionMap κ Nat) (ks js : List κ) :
    m.tally (ks ++ js) = (m.tally ks).tally js :=
  List.foldl_append

/-- A tally adds to each counter the number of occurrences of its key. -/
theorem count_tally (ks : List κ) :
    ∀ (m : InsertionMap κ Nat) (k : κ), (m.tally ks).count k = m.count k + ks.count k := by
  induction ks with
  | nil => simp
  | cons j ks ih =>
    intro m k
    show ((m.increment j).tally ks).count k = _
    rw [ih, count_increment, List.count_cons]
    -- the two spell the equality of the keys in opposite ways
    by_cases h : k = j
    · subst h
      simp
      omega
    · have h' : ¬ j = k := fun e => h e.symm
      simp [h, h']

/-- A tally adds its length to the sum of the counters. -/
theorem sum_values_tally (ks : List κ) :
    ∀ m : InsertionMap κ Nat, (m.tally ks).values.sum = m.values.sum + ks.length := by
  induction ks with
  | nil => exact fun _ => rfl
  | cons k ks ih =>
    intro m
    show ((m.increment k).tally ks).values.sum = _
    rw [ih, sum_values_increment, List.length_cons]
    omega

/-- A tally sets the listed keys and leaves the others. -/
theorem get?_tally (ks : List κ) :
    ∀ (m : InsertionMap κ Nat) (k : κ),
      (m.tally ks).get? k = if k ∈ ks then some (m.count k + ks.count k) else m.get? k := by
  induction ks with
  | nil => simp
  | cons j ks ih =>
    intro m k
    show ((m.increment j).tally ks).get? k = _
    rw [ih, count_increment, get?_increment, List.count_cons]
    by_cases h : k = j
    · subst h
      by_cases hmem : k ∈ ks
      · simp [hmem]
        omega
      · -- its only occurrence is the first
        simp [hmem, List.count_eq_zero_of_not_mem hmem]
    · have h' : ¬ j = k := fun e => h e.symm
      simp [h, h']

/-- A tally appends the listed keys at their first occurrences. -/
theorem map_fst_tally (ks : List κ) :
    ∀ m : InsertionMap κ Nat,
      (m.tally ks).entries.map Prod.fst =
        m.entries.map Prod.fst ++ firsts id (m.entries.map Prod.fst).toFinset ks := by
  induction ks with
  | nil => exact fun m => (List.append_nil _).symm
  | cons k ks ih =>
    intro m
    have hkeys : (m.increment k).entries.map Prod.fst =
        if k ∈ m.entries.map Prod.fst then m.entries.map Prod.fst
        else m.entries.map Prod.fst ++ [k] := map_fst_setEntries k _ m.entries
    show ((m.increment k).tally ks).entries.map Prod.fst = _
    rw [ih, hkeys, firsts, id_eq]
    by_cases hmem : k ∈ m.entries.map Prod.fst
    · rw [if_pos hmem, if_pos (List.mem_toFinset.2 hmem)]
    · -- a new key, which counts as seen from here on
      have hset : (m.entries.map Prod.fst ++ [k]).toFinset =
          insert k (m.entries.map Prod.fst).toFinset := by
        ext j
        rw [List.mem_toFinset, List.mem_append, List.mem_singleton, Finset.mem_insert,
          List.mem_toFinset, or_comm]
      rw [if_neg hmem, if_neg (fun h => hmem (List.mem_toFinset.1 h)), hset, List.append_assoc]
      rfl

/-- In a tally started from nothing the keys with a counter are those that occurred. -/
theorem get?_tally_empty (ks : List κ) (k : κ) :
    ((empty : InsertionMap κ Nat).tally ks).get? k =
      if ((empty : InsertionMap κ Nat).tally ks).count k = 0 then none
      else some (((empty : InsertionMap κ Nat).tally ks).count k) := by
  rw [get?_tally, count_tally, count_empty, Nat.zero_add]
  by_cases h : k ∈ ks
  · have hpos : ks.count k ≠ 0 := fun hzero => List.count_eq_zero.1 hzero h
    rw [if_pos h, if_neg hpos]
  · rw [if_neg h, if_pos (List.count_eq_zero_of_not_mem h)]
    rfl

end InsertionMap

end AdClick.Library
