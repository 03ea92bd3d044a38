import AdClick.Library.Redelivery

/-!
# A topic that requests append to

A request appends the records that `posted` gives it; the other actions are those of the group that
reads the topic. So a run of the topic is a run of its group (`topic_run`): its log holds the
records of the requests, in order (`topic_log_eq`), and the invariants of the group hold. After a
restart the process reads what is in the topic from the committed offsets on
(`handed_perm_of_restarted`).
-/

set_option autoImplicit false

namespace AdClick.Library

universe u v w x

inductive TopicAction (ι : Type u) (ρ : Type x) where
  | post (request : ρ)
  | deliver (p : ι)
  | commit (p : ι) (offset : Nat)
  | rebalance (p : ι)
  | restart

namespace TopicAction

variable {ι : Type u} {α : Type v} {ρ : Type x} (posted : ρ → List α)

/-- The records that an action appends. -/
def records : TopicAction ι ρ → List α
  | .post request => posted request
  | .deliver _ => []
  | .commit _ _ => []
  | .rebalance _ => []
  | .restart => []

/-- An action as actions on the group. -/
def groupActions : TopicAction ι ρ → List (GroupAction ι α)
  | .post request => (posted request).map .append
  | .deliver p => [.deliver p]
  | .commit p offset => [.commit p offset]
  | .rebalance p => [.rebalance p]
  | .restart => [.restart]

variable {posted} {as : List (TopicAction ι ρ)}

/-- A record of the topic comes from a request. -/
theorem exists_post_of_mem_records {a : TopicAction ι ρ} {record : α}
    (h : record ∈ a.records posted) : ∃ request, a = .post request ∧ record ∈ posted request := by
  cases a with
  | post request => exact ⟨request, rfl, h⟩
  | deliver p => cases h
  | commit p offset => cases h
  | rebalance p => cases h
  | restart => cases h

theorem appendsOf_groupActions (a : TopicAction ι ρ) :
    appendsOf (a.groupActions posted) = a.records posted := by
  cases a with
  | post request =>
    rw [groupActions, appendsOf, List.filterMap_map]
    exact List.filterMap_some
  | deliver p => rfl
  | commit p offset => rfl
  | rebalance p => rfl
  | restart => rfl

theorem appendsOf_flatMap (as : List (TopicAction ι ρ)) :
    appendsOf (as.flatMap (groupActions posted)) = as.flatMap (records posted) := by
  induction as with
  | nil => rfl
  | cons a as ih =>
    rw [List.flatMap_cons, appendsOf, List.filterMap_append, List.flatMap_cons]
    exact congrArg₂ (· ++ ·) (appendsOf_groupActions a) ih

theorem restart_mem_groupActions (a : TopicAction ι ρ) :
    GroupAction.restart ∈ a.groupActions posted ↔ a = .restart := by
  cases a with
  | post request => simp [groupActions]
  | deliver p => simp [groupActions]
  | commit p offset => simp [groupActions]
  | rebalance p => simp [groupActions]
  | restart => simp [groupActions]

theorem restart_mem_flatMap : GroupAction.restart ∈ as.flatMap (groupActions posted) ↔
    TopicAction.restart ∈ as := by
  rw [List.mem_flatMap]
  constructor
  · rintro ⟨a, ha, hrestart⟩
    rw [restart_mem_groupActions] at hrestart
    rw [← hrestart]
    exact ha
  · intro ha
    exact ⟨.restart, ha, List.mem_singleton_self _⟩

/-- Only a delivery and a restart change what has been handed over. -/
theorem isQuiet_groupActions {a : TopicAction ι ρ} (hdeliver : ∀ p, a ≠ .deliver p)
    (hrestart : a ≠ .restart) : ∀ b ∈ a.groupActions posted, b.isQuiet = true := by
  intro b hb
  cases a with
  | post request =>
    obtain ⟨record, -, rfl⟩ := List.mem_map.1 hb
    rfl
  | deliver p => exact absurd rfl (hdeliver p)
  | commit p offset =>
    rw [List.mem_singleton.1 hb]
    rfl
  | rebalance p =>
    rw [List.mem_singleton.1 hb]
    rfl
  | restart => exact absurd rfl hrestart

variable [DecidableEq ι]

/-- The partition is taken away and given back. -/
def isRebalance (p : ι) : TopicAction ι ρ → Bool
  | .rebalance q => q = p
  | _ => false

theorem rebalancesOf_groupActions (p : ι) (a : TopicAction ι ρ) :
    rebalancesOf p (a.groupActions posted) = if a.isRebalance p then 1 else 0 := by
  cases a with
  | post request =>
    rw [groupActions, rebalancesOf, List.countP_map]
    exact List.countP_eq_zero.2 fun _ _ => Bool.false_ne_true
  | deliver q => rfl
  | commit q offset => rfl
  | rebalance q => exact List.countP_singleton
  | restart => rfl

theorem rebalancesOf_flatMap (p : ι) (as : List (TopicAction ι ρ)) :
    rebalancesOf p (as.flatMap (groupActions posted)) = as.countP (isRebalance p) := by
  induction as with
  | nil => rfl
  | cons a as ih =>
    rw [List.flatMap_cons, rebalancesOf, List.countP_append, List.countP_cons, Nat.add_comm]
    exact congrArg₂ (· + ·) ih (rebalancesOf_groupActions p a)

theorem rebalancesOf_flatMap_eq_zero (h : ∀ p, .rebalance p ∉ as) (p : ι) :
    rebalancesOf p (as.flatMap (groupActions posted)) = 0 := by
  rw [rebalancesOf_flatMap]
  apply List.countP_eq_zero.2
  intro a ha
  cases a with
  | rebalance q => exact absurd ha (h q)
  | post request => exact Bool.false_ne_true
  | deliver q => exact Bool.false_ne_true
  | commit q offset => exact Bool.false_ne_true
  | restart => exact Bool.false_ne_true

end TopicAction

section Topic

variable {ι : Type u} {α : Type v} {σ : Type w} {ρ : Type x} [DecidableEq ι]
variable {posted : ρ → List α} {route : α → ι} {start : σ} {handle : σ → α → Option σ}
  {s t : GroupState ι α σ} {as : List (TopicAction ι ρ)}

/-- One action. -/
def topicStep (posted : ρ → List α) (route : α → ι) (start : σ) (handle : σ → α → Option σ)
    (s : GroupState ι α σ) (a : TopicAction ι ρ) : Option (GroupState ι α σ) :=
  run (groupStep route start handle) s (a.groupActions posted)

theorem topic_run (h : run (topicStep posted route start handle) s as = some t) :
    run (groupStep route start handle) s (as.flatMap (TopicAction.groupActions posted)) =
      some t := by
  rw [← run_flatMap]
  exact h

theorem sound_of_topic_run
    (h : run (topicStep posted route start handle) (.initial start) as = some t) :
    Sound route start handle t :=
  sound_of_run (topic_run h)

theorem topic_log_eq
    (h : run (topicStep posted route start handle) (.initial start) as = some t) :
    t.log = as.flatMap (TopicAction.records posted) := by
  rw [log_eq_of_run (topic_run h), TopicAction.appendsOf_flatMap]
  rfl

/-- A process that was not restarted has read from the start. -/
theorem topic_started_eq_zero
    (h : run (topicStep posted route start handle) (.initial start) as = some t)
    (hrestart : .restart ∉ as) : t.started = fun _ => 0 :=
  started_eq_of_run (topic_run h) fun hmem => hrestart (TopicAction.restart_mem_flatMap.1 hmem)

/-- The deliveries of the group are deliveries of the topic. -/
theorem topic_run_deliveries (ps : List ι) :
    run (topicStep posted route start handle) s (ps.map .deliver) =
      run (groupStep route start handle) s (ps.map .deliver) := by
  have hactions : (ps.map TopicAction.deliver).flatMap (TopicAction.groupActions posted) =
      ps.map GroupAction.deliver := by
    rw [List.flatMap_map]
    exact List.map_eq_flatMap.symm
  rw [← hactions, ← run_flatMap]
  rfl

end Topic

end AdClick.Library
