import Mathlib.Data.List.Induction

/-!
# Runs of transition systems and of machines with outputs

`run step` executes a list of actions on a partial transition function: `step s a` is the next
state, or `none` when the action is not enabled. `run_invariant` is the induction rule for
properties that relate a state to the actions that led to it, and `run_filter_iff` says when some
actions of a list can be dropped.

`outputs step` and `after step` execute a total machine that answers every input, and
`outputs_filter` is the rule for removing the inputs that leave the state as it was, up to a
relation that the answers respect.
-/

set_option autoImplicit false

namespace AdClick.Library

universe u v w

/-! ## Partial transition functions -/

section Partial

variable {σ : Type u} {α : Type v} (step : σ → α → Option σ)

/-- The state after the actions, or `none` when one of them was not enabled. -/
def run : σ → List α → Option σ
  | s, [] => some s
  | s, a :: as => (step s a).bind fun t => run t as

@[simp] theorem run_nil (s : σ) : run step s [] = some s := rfl

theorem run_append (s : σ) (as bs : List α) :
    run step s (as ++ bs) = (run step s as).bind fun t => run step t bs := by
  induction as generalizing s with
  | nil => rfl
  | cons a as ih =>
    show (step s a).bind _ = ((step s a).bind _).bind _
    cases step s a with
    | none => rfl -- both runs stop at the first action
    | some t => exact ih t

theorem run_append_some {s t : σ} {as bs : List α} (h : run step s (as ++ bs) = some t) :
    ∃ u, run step s as = some u ∧ run step u bs = some t := by
  rw [run_append] at h
  exact Option.bind_eq_some_iff.1 h

theorem run_snoc {s t u : σ} {as : List α} {a : α} (h : run step s as = some t)
    (ha : step t a = some u) : run step s (as ++ [a]) = some u := by
  rw [run_append, h]
  show (step t a).bind _ = some u
  rw [ha]
  rfl

theorem run_snoc_some {s u : σ} {as : List α} {a : α} (h : run step s (as ++ [a]) = some u) :
    ∃ t, run step s as = some t ∧ step t a = some u := by
  obtain ⟨t, ht, hu⟩ := run_append_some step h
  obtain ⟨v, hv, hvu⟩ := Option.bind_eq_some_iff.1 hu
  cases hvu
  exact ⟨t, ht, hv⟩

/-- Actions that stand for several actions of another system run as those do. -/
theorem run_flatMap {β : Type w} (f : β → List α) (s : σ) (bs : List β) :
    run (fun s b => run step s (f b)) s bs = run step s (bs.flatMap f) := by
  induction bs generalizing s with
  | nil => rfl
  | cons b bs ih =>
    rw [List.flatMap_cons, run_append]
    show (run step s (f b)).bind _ = _
    cases run step s (f b) with
    | none => rfl
    | some t => exact ih t

/-- A property of the actions so far and the state they led to holds along every run if it holds
at the start and one step keeps it. -/
theorem run_invariant {P : List α → σ → Prop} {s : σ} (h0 : P [] s)
    (hstep : ∀ as t a u, run step s as = some t → P as t → step t a = some u → P (as ++ [a]) u) :
    ∀ {as : List α} {t : σ}, run step s as = some t → P as t := by
  intro as
  -- from the back, as the property looks at all actions that led to the state
  induction as using List.reverseRecOn with
  | nil =>
    intro t h
    cases h
    exact h0
  | append_singleton as a ih =>
    intro u h
    obtain ⟨t, ht, hu⟩ := run_snoc_some step h
    exact hstep as t a u ht (ih ht) hu

/-- Every action of a run is taken in a state that satisfies `C` with it. -/
def EveryStep (C : σ → α → Prop) (s : σ) (as : List α) : Prop :=
  ∀ pre a post t, as = pre ++ a :: post → run step s pre = some t → C t a

variable {step}

theorem everyStep_nil (C : σ → α → Prop) (s : σ) : EveryStep step C s [] := by
  intro pre a post t h
  cases pre <;> cases h

theorem everyStep_cons {C : σ → α → Prop} {s : σ} {a : α} {as : List α} (ha : C s a)
    (has : ∀ t, step s a = some t → EveryStep step C t as) : EveryStep step C s (a :: as) := by
  intro pre b post t hsplit hrun
  cases pre with
  | nil =>
    cases hsplit
    cases hrun
    exact ha
  | cons c pre =>
    cases hsplit
    obtain ⟨u, hu, hrest⟩ := Option.bind_eq_some_iff.1 hrun
    exact has u hu pre b post t rfl hrest

theorem everyStep_append_left {C : σ → α → Prop} {s : σ} {as bs : List α}
    (h : EveryStep step C s (as ++ bs)) : EveryStep step C s as := by
  intro pre a post t hsplit hrun
  apply h pre a (post ++ bs) t _ hrun
  rw [hsplit, List.append_assoc, List.cons_append]

theorem everyStep_snoc {C : σ → α → Prop} {s t : σ} {as : List α} {a : α}
    (h : EveryStep step C s (as ++ [a])) (hrun : run step s as = some t) : C t a :=
  h as a [] t rfl hrun

/-- The induction rule for runs whose steps all satisfy a condition. -/
theorem run_invariant_of_everyStep {C : σ → α → Prop} {P : List α → σ → Prop} {s : σ}
    (h0 : P [] s)
    (hstep : ∀ as t a u, P as t → C t a → step t a = some u → P (as ++ [a]) u) :
    ∀ {as : List α} {t : σ}, EveryStep step C s as → run step s as = some t → P as t := by
  intro as t hC hrun
  have key : EveryStep step C s as → P as t := by
    apply run_invariant step (P := fun as t => EveryStep step C s as → P as t) _ _ hrun
    · intro _
      exact h0
    · intro as t a u hrun ih ha hC
      -- a prefix of a run that meets the condition meets it too
      exact hstep as t a u (ih (everyStep_append_left hC)) (everyStep_snoc hC hrun) ha
  exact key hC

/-! ### Dropping actions -/

/-- When an action moves a weight by one, or leaves the state as it was, a run moves the weight by
the number of the former. -/
theorem weight_of_run {weight : σ → Nat} {counted : α → Bool}
    (hskip : ∀ s a, counted a = false → step s a = some s)
    (hcount : ∀ s a t, counted a = true → step s a = some t → weight t = weight s + 1)
    {as : List α} :
    ∀ {s t : σ}, run step s as = some t → weight t = weight s + as.countP counted := by
  induction as with
  | nil =>
    intro s t h
    cases h
    rfl
  | cons a as ih =>
    intro s t h
    obtain ⟨u, hu, hrest⟩ := Option.bind_eq_some_iff.1 h
    rw [ih hrest]
    cases hc : counted a with
    | true =>
      rw [hcount s a u hc hu, List.countP_cons_of_pos hc]
      omega
    | false =>
      cases (hskip s a hc).symm.trans hu
      rw [List.countP_cons_of_neg (by rw [hc]; decide)]

/-- Actions that are enabled, or leave the state as it was, all get through, and the latter can be
dropped. -/
theorem run_filter_of_skip {kept : α → Bool}
    (hkept : ∀ s a, kept a = true → ∃ t, step s a = some t) {as : List α}
    (hskip : ∀ a ∈ as, kept a = false → ∀ s, step s a = some s) :
    ∀ s : σ, ∃ t, run step s as = some t ∧ run step s (as.filter kept) = some t := by
  induction as with
  | nil => exact fun s => ⟨s, rfl, rfl⟩
  | cons a as ih =>
    intro s
    obtain ⟨hhead, htail⟩ := List.forall_mem_cons.1 hskip
    cases hk : kept a with
    | true =>
      obtain ⟨u, hu⟩ := hkept s a hk
      obtain ⟨t, hrun, hfiltered⟩ := ih htail u
      refine ⟨t, ?_, ?_⟩
      · exact Option.bind_eq_some_iff.2 ⟨u, hu, hrun⟩
      · rw [List.filter_cons_of_pos hk]
        exact Option.bind_eq_some_iff.2 ⟨u, hu, hfiltered⟩
    | false =>
      obtain ⟨t, hrun, hfiltered⟩ := ih htail s
      refine ⟨t, ?_, ?_⟩
      · exact Option.bind_eq_some_iff.2 ⟨s, hhead hk s, hrun⟩
      · rw [List.filter_cons_of_neg (by rw [hk]; decide)]
        exact hfiltered

/-- When every action that does not leave the state as it was moves a weight by one, and the kept
actions are enabled, then dropping the other actions makes no difference to the run, as far as the
weight tells, exactly when none of them moves the weight. -/
theorem run_filter_iff (weight : σ → Nat) (counted kept : α → Bool) {same : σ → σ → Prop}
    (hsame : ∀ t, same t t) (hweight : ∀ t u, same t u → weight t = weight u)
    (hskip : ∀ s a, counted a = false → step s a = some s)
    (hcount : ∀ s a t, counted a = true → step s a = some t → weight t = weight s + 1)
    (hkept : ∀ s a, kept a = true → ∃ t, step s a = some t) (s : σ) (as : List α) :
    (∃ t u, run step s as = some t ∧ run step s (as.filter kept) = some u ∧ same t u) ↔
      ∀ a ∈ as, kept a = false → counted a = false := by
  constructor
  · rintro ⟨t, u, hrun, hfiltered, htu⟩
    have hall := weight_of_run hskip hcount hrun
    have hwell := weight_of_run hskip hcount hfiltered
    have hequal : as.countP counted = (as.filter kept).countP counted := by
      have hw := hweight t u htu
      omega
    -- the counted actions are those among the kept and those among the dropped ones
    have hsplit := List.countP_eq_countP_filter_add as counted kept
    have hdropped : (as.filter fun a => !kept a).countP counted = 0 := by omega
    intro a ha hk
    have hnot := List.countP_eq_zero.1 hdropped a (List.mem_filter.2 ⟨ha, by rw [hk]; rfl⟩)
    simpa using hnot
  · intro h
    obtain ⟨t, hrun, hfiltered⟩ := run_filter_of_skip hkept
      (fun a ha hk s => hskip s a (h a ha hk)) s
    exact ⟨t, t, hrun, hfiltered, hsame t⟩

end Partial

/-! ## Machines with outputs -/

section Machine

variable {σ : Type u} {α : Type v} {β : Type w} (step : σ → α → σ × β)

/-- The state after the inputs. -/
def after (s : σ) (as : List α) : σ := as.foldl (fun t a => (step t a).1) s

/-- The outputs, one per input. -/
def outputs : σ → List α → List β
  | _, [] => []
  | s, a :: as => (step s a).2 :: outputs (step s a).1 as

@[simp] theorem after_nil (s : σ) : after step s [] = s := rfl
@[simp] theorem after_cons (s : σ) (a : α) (as : List α) :
    after step s (a :: as) = after step (step s a).1 as := rfl
@[simp] theorem outputs_nil (s : σ) : outputs step s [] = [] := rfl
@[simp] theorem outputs_cons (s : σ) (a : α) (as : List α) :
    outputs step s (a :: as) = (step s a).2 :: outputs step (step s a).1 as := rfl

theorem after_append (s : σ) (as bs : List α) :
    after step s (as ++ bs) = after step (after step s as) bs :=
  List.foldl_append

@[simp] theorem length_outputs (s : σ) (as : List α) : (outputs step s as).length = as.length := by
  induction as generalizing s with
  | nil => rfl
  | cons a as ih => simp [ih]

/-- A partial transition function that is always defined runs as a machine does. -/
theorem run_some (s : σ) (as : List α) :
    run (fun t a => some (step t a).1) s as = some (after step s as) := by
  induction as generalizing s with
  | nil => rfl
  | cons a as ih => exact ih (step s a).1

/-- The `i`-th output is the answer to the `i`-th input after the inputs before it. -/
theorem outputs_getElem? (s : σ) (as : List α) (i : Nat) :
    (outputs step s as)[i]? = as[i]?.map fun a => (step (after step s (as.take i)) a).2 := by
  induction as generalizing s i with
  | nil => rfl
  | cons a as ih =>
    cases i with
    | zero => rfl
    | succ i => simp [ih]

/-- Removing inputs that do not matter. If the answers depend on the state only up to `E`, and an
input whose answer is skipped leaves the state as it was up to `E`, then the run on the inputs
with unskipped answers gives exactly the unskipped answers, and ends in the same state up to
`E`. -/
theorem outputs_filter {E : σ → σ → Prop} (skip : β → Bool)
    (hE : ∀ s t a, E s t → (step s a).2 = (step t a).2 ∧ E (step s a).1 (step t a).1)
    (hskip : ∀ s t a, E s t → skip (step s a).2 = true → E (step s a).1 t) (as : List α) :
    ∀ s t, E s t →
      let kept := ((as.zip (outputs step s as)).filter fun p => !skip p.2)
      outputs step t (kept.map Prod.fst) = kept.map Prod.snd ∧
        E (after step s as) (after step t (kept.map Prod.fst)) := by
  induction as with
  | nil =>
    intro s t h
    exact ⟨rfl, h⟩
  | cons a as ih =>
    intro s t h
    obtain ⟨hout, hnext⟩ := hE s t a h
    cases hs : skip (step s a).2 with
    | true =>
      -- only the run with the input moves
      have key := ih (step s a).1 t (hskip s t a h hs)
      simpa [hs] using key
    | false =>
      -- both runs move, and answer alike
      have key := ih (step s a).1 (step t a).1 hnext
      have hs' : skip (step t a).2 = false := by rw [← hout, hs]
      simpa [hs', hout] using key

end Machine

end AdClick.Library
