import AdClick.Library.ConsumerGroup

/-!
# How often a record is handed over

Between two rebalances of its partition a process is handed a record at most once, so the records of
a partition reach it at most once more than the partition was rebalanced (`countP_recordsOf_le`).
Without a rebalance it has been handed the records between where it started and its position, each
of them once (`recordsOf_append_drop`), and when it has caught up, the records of the log from the
offsets on that it started at, in some order (`handed_perm_fromOffsets`).
-/

set_option autoImplicit false

namespace AdClick.Library

universe u v w

section Redelivery

variable {ι : Type u} {α : Type v} {σ : Type w} [DecidableEq ι]
variable {route : α → ι} {start : σ} {handle : σ → α → Option σ} {s t : GroupState ι α σ}

/-- The number of times that the actions take a partition away and give it back. -/
def rebalancesOf (p : ι) (as : List (GroupAction ι α)) : Nat :=
  as.countP fun
    | .rebalance q => q = p
    | _ => false

theorem rebalancesOf_snoc (p : ι) (as : List (GroupAction ι α)) (a : GroupAction ι α) :
    rebalancesOf p (as ++ [a]) = rebalancesOf p as + rebalancesOf p [a] :=
  List.countP_append

theorem rebalancesOf_rebalance (p : ι) :
    rebalancesOf p [(.rebalance p : GroupAction ι α)] = 1 :=
  List.countP_cons_of_pos (by simp)

theorem rebalancesOf_deliveries (p : ι) (ps : List ι) :
    rebalancesOf p (ps.map .deliver : List (GroupAction ι α)) = 0 := by
  rw [rebalancesOf, List.countP_map]
  exact List.countP_eq_zero.2 fun _ _ => Bool.false_ne_true

/-- The records of a partition in the order in which they were handed over. -/
def GroupState.recordsOf (s : GroupState ι α σ) (p : ι) : List α :=
  (s.handedOf p).map Handed.record

/-- A delivery hands over the record at the position, and moves on. -/
theorem recordsOf_deliver {p : ι} (h : groupStep route start handle s (.deliver p) = some t) :
    ∃ record, (ofPartition route p s.log)[s.position p]? = some record ∧ t.log = s.log ∧
      t.started = s.started ∧ t.position = Function.update s.position p (s.position p + 1) ∧
      ∀ q, t.recordsOf q = s.recordsOf q ++ if p = q then [record] else [] := by
  obtain ⟨record, process, hrecord, -, rfl⟩ := groupStep_deliver_eq_some h
  refine ⟨record, hrecord, rfl, rfl, rfl, ?_⟩
  intro q
  rw [GroupState.recordsOf, GroupState.handedOf, List.filter_append, List.map_append]
  by_cases hp : p = q
  · rw [List.filter_cons_of_pos (by simpa using hp), if_pos hp]
    rfl
  · rw [List.filter_cons_of_neg (by simpa using hp), if_neg hp]
    rfl

/-- Hands nothing over, and keeps the process. -/
def GroupAction.isQuiet : GroupAction ι α → Bool
  | .append _ => true
  | .deliver _ => false
  | .commit _ _ => true
  | .rebalance _ => true
  | .restart => false

theorem handed_eq_of_run_of_isQuiet {as : List (GroupAction ι α)}
    (hrun : run (groupStep route start handle) s as = some t) :
    (∀ a ∈ as, a.isQuiet = true) → t.handed = s.handed := by
  apply run_invariant (groupStep route start handle)
    (P := fun as t => (∀ a ∈ as, a.isQuiet = true) → t.handed = s.handed) _ _ hrun
  · intro _
    rfl
  · intro as t a u _ ih ha hquiet
    rw [← ih fun b hb => hquiet b (List.mem_append_left _ hb)]
    have hlast := hquiet a (List.mem_append_right _ List.mem_cons_self)
    cases a with
    | append record =>
      cases ha
      rfl
    | deliver p => cases hlast
    | commit p offset =>
      obtain ⟨-, -, rfl⟩ := groupStep_commit_eq_some ha
      rfl
    | rebalance p =>
      cases ha
      rfl
    | restart => cases hlast

/-- What was handed over since the last rebalance lies before the position, and what was handed over
before is counted by the rebalances. -/
theorem countP_recordsOf_add_le (q : α → Bool) (p : ι) {as : List (GroupAction ι α)}
    (hrun : run (groupStep route start handle) (.initial start) as = some t) :
    (t.recordsOf p).countP q ≤ rebalancesOf p as * (ofPartition route p t.log).countP q +
      ((ofPartition route p t.log).take (t.position p)).countP q := by
  -- a delivery adds to the second summand, and a rebalance moves it to the first
  apply run_invariant (groupStep route start handle)
    (P := fun as t => (t.recordsOf p).countP q ≤
      rebalancesOf p as * (ofPartition route p t.log).countP q +
        ((ofPartition route p t.log).take (t.position p)).countP q) _ _ hrun
  · exact Nat.zero_le _
  · intro as t a u _ ih ha
    rw [rebalancesOf_snoc]
    cases a with
    | append record =>
      cases ha
      rw [ofPartition_append]
      refine Nat.le_trans ih (Nat.add_le_add (Nat.mul_le_mul_left _ ?_) ?_)
      · rw [List.countP_append]
        exact Nat.le_add_right _ _
      · rw [List.take_append, List.countP_append]
        exact Nat.le_add_right _ _
    | deliver p' =>
      obtain ⟨record, hrecord, hlog, -, hposition, hrecords⟩ := recordsOf_deliver ha
      rw [hrecords, hlog, hposition]
      by_cases hp : p' = p
      · subst hp
        rw [if_pos rfl, Function.update_self, List.countP_append, List.take_add_one, hrecord,
          List.countP_append]
        change _ + _ ≤ rebalancesOf p' as * _ + (_ + [record].countP q)
        omega
      · rw [if_neg hp, List.append_nil, Function.update_of_ne (Ne.symm hp)]
        exact ih
    | commit p' offset =>
      obtain ⟨-, -, rfl⟩ := groupStep_commit_eq_some ha
      exact ih
    | rebalance p' =>
      cases ha
      by_cases hp : p' = p
      · subst hp
        -- all that was handed over is now counted by one more rebalance
        have htake := (List.take_sublist (t.position p') (ofPartition route p' t.log)).countP_le
          (p := q)
        refine Nat.le_trans ih ?_
        change _ ≤ (_ + _) * (ofPartition route p' t.log).countP q + _
        rw [rebalancesOf_rebalance, Nat.succ_mul]
        omega
      · refine Nat.le_trans ih ?_
        change _ ≤ (_ + _) * (ofPartition route p t.log).countP q +
          ((ofPartition route p t.log).take
            (Function.update t.position p' (t.committed p') p)).countP q
        rw [Function.update_of_ne (Ne.symm hp)]
        exact Nat.add_le_add_right (Nat.mul_le_mul_right _ (Nat.le_add_right _ _)) _
    | restart =>
      cases ha
      exact Nat.zero_le _

/-- A process has been handed the records of a partition at most once more than the partition was
rebalanced. -/
theorem countP_recordsOf_le (q : α → Bool) (p : ι) {as : List (GroupAction ι α)}
    (hrun : run (groupStep route start handle) (.initial start) as = some t) :
    (t.recordsOf p).countP q ≤
      (rebalancesOf p as + 1) * (ofPartition route p t.log).countP q := by
  have htake := (List.take_sublist (t.position p) (ofPartition route p t.log)).countP_le (p := q)
  have hle := countP_recordsOf_add_le q p hrun
  rw [Nat.succ_mul]
  omega

/-- Records that are all in one partition are handed over through it. -/
theorem Sound.countP_handed (h : Sound route start handle s) {q : α → Bool} {p : ι}
    (hroute : ∀ record ∈ s.log, q record = true → route record = p) :
    (s.handed.map Handed.record).countP q = (s.recordsOf p).countP q := by
  rw [GroupState.recordsOf, GroupState.handedOf, List.countP_map, List.countP_map,
    List.countP_filter]
  apply List.countP_congr
  intro x hx
  obtain ⟨hlog, hp⟩ := mem_ofPartition.1 (List.mem_of_getElem? (h.record_eq x hx))
  rw [Bool.and_eq_true, decide_eq_true_eq]
  -- what satisfies the condition is in the partition anyway
  refine (and_iff_left_of_imp ?_).symm
  intro hq
  rw [← hp]
  exact hroute x.record hlog hq

/-- A process has been handed records of one partition at most once more than the partition was
rebalanced. -/
theorem countP_handed_le {q : α → Bool} {p : ι} {as : List (GroupAction ι α)}
    (hrun : run (groupStep route start handle) (.initial start) as = some t)
    (hroute : ∀ record ∈ t.log, q record = true → route record = p) :
    (t.handed.map Handed.record).countP q ≤ (rebalancesOf p as + 1) * t.log.countP q := by
  rw [(sound_of_run hrun).countP_handed hroute]
  refine Nat.le_trans (countP_recordsOf_le q p hrun) (Nat.mul_le_mul_left _ ?_)
  exact List.filter_sublist.countP_le

/-! ## Without a rebalance -/

/-- While the partition is not taken away, what has been handed over is what lies between where the
process started and its position. -/
theorem recordsOf_append_drop {p : ι} (h : Sound route start handle s)
    (hs : s.recordsOf p ++ (ofPartition route p s.log).drop (s.position p) =
      (ofPartition route p s.log).drop (s.started p))
    {as : List (GroupAction ι α)} (hrun : run (groupStep route start handle) s as = some t) :
    rebalancesOf p as = 0 →
      t.recordsOf p ++ (ofPartition route p t.log).drop (t.position p) =
        (ofPartition route p t.log).drop (t.started p) := by
  apply run_invariant (groupStep route start handle)
    (P := fun as t => rebalancesOf p as = 0 →
      t.recordsOf p ++ (ofPartition route p t.log).drop (t.position p) =
        (ofPartition route p t.log).drop (t.started p)) _ _ hrun
  · exact fun _ => hs
  · intro as t a u hrun ih ha hnone
    rw [rebalancesOf_snoc] at hnone
    have ht := h.run hrun
    have hold := ih (by omega)
    cases a with
    | append record =>
      cases ha
      have hposition := Nat.le_trans (ht.position_le p) (ht.reached_le p)
      have hstarted := Nat.le_trans (Nat.le_trans (ht.started_le p) (ht.committed_le p)) hposition
      rw [ofPartition_append, List.drop_append_of_le_length hposition,
        List.drop_append_of_le_length hstarted, ← hold, List.append_assoc]
      rfl
    | deliver p' =>
      obtain ⟨record, hrecord, hlog, hsame, hposition, hrecords⟩ := recordsOf_deliver ha
      rw [hrecords, hlog, hposition, hsame]
      by_cases hp : p' = p
      · subst hp
        obtain ⟨hlt, hget⟩ := List.getElem?_eq_some_iff.1 hrecord
        -- the record moves from what is left to what was handed over
        rw [List.drop_eq_getElem_cons hlt, hget] at hold
        rw [if_pos rfl, Function.update_self, List.append_assoc]
        exact hold
      · rw [if_neg hp, List.append_nil, Function.update_of_ne (Ne.symm hp)]
        exact hold
    | commit p' offset =>
      obtain ⟨-, -, rfl⟩ := groupStep_commit_eq_some ha
      exact hold
    | rebalance p' =>
      cases ha
      by_cases hp : p' = p
      · subst hp
        rw [rebalancesOf_rebalance] at hnone
        omega
      · change t.recordsOf p ++ (ofPartition route p t.log).drop
          (Function.update t.position p' (t.committed p') p) = _
        rw [Function.update_of_ne (Ne.symm hp)]
        exact hold
    | restart =>
      cases ha
      rfl

/-- A process that has caught up, and has lost no partition since, has been handed the records of
the log from where it started, each of them once. -/
theorem recordsOf_of_caughtUp {p : ι} (h : Sound route start handle s)
    (hs : s.recordsOf p ++ (ofPartition route p s.log).drop (s.position p) =
      (ofPartition route p s.log).drop (s.started p))
    {as : List (GroupAction ι α)} (hrun : run (groupStep route start handle) s as = some t)
    (hnone : rebalancesOf p as = 0) (hcaught : t.CaughtUp route) :
    t.recordsOf p = (ofPartition route p t.log).drop (t.started p) := by
  rw [← recordsOf_append_drop h hs hrun hnone, hcaught, List.drop_length, List.append_nil]

/-- Lists that agree partition by partition hold the same records equally often. -/
theorem perm_of_ofPartition (route : α → ι) {xs ys : List α}
    (h : ∀ p, ofPartition route p xs = ofPartition route p ys) : xs.Perm ys := by
  classical
  apply List.perm_iff_count.2
  intro x
  have hcount : ∀ zs : List α, (ofPartition route (route x) zs).count x = zs.count x :=
    fun zs => List.count_filter (decide_eq_true rfl)
  rw [← hcount xs, ← hcount ys, h]

/-! ## The rest of a log -/

/-- The records at or behind the offset of their partition. -/
def fromOffsets (route : α → ι) : (ι → Nat) → List α → List α
  | _, [] => []
  | offset, record :: log =>
    match offset (route record) with
    | 0 => record :: fromOffsets route offset log
    | n + 1 => fromOffsets route (Function.update offset (route record) n) log

theorem fromOffsets_zero (log : List α) : fromOffsets route (fun _ => 0) log = log := by
  induction log with
  | nil => rfl
  | cons record log ih => exact congrArg (record :: ·) ih

/-- Of every partition the records from its offset on are left. -/
theorem ofPartition_fromOffsets (offset : ι → Nat) (log : List α) (p : ι) :
    ofPartition route p (fromOffsets route offset log) =
      (ofPartition route p log).drop (offset p) := by
  induction log generalizing offset with
  | nil => exact List.drop_nil.symm
  | cons record log ih =>
    rw [fromOffsets]
    by_cases hp : route record = p
    · have hsame : ∀ xs : List α,
          ofPartition route p (record :: xs) = record :: ofPartition route p xs :=
        fun xs => List.filter_cons_of_pos (by simpa using hp)
      rw [hsame]
      split
      · rename_i hzero
        rw [hsame, ih, ← hp, hzero]
        rfl
      · rename_i n hsucc
        rw [ih, ← hp, hsucc, Function.update_self]
        rfl
    · have hother : ∀ xs : List α, ofPartition route p (record :: xs) = ofPartition route p xs :=
        fun xs => List.filter_cons_of_neg (by simpa using hp)
      rw [hother]
      split
      · rw [hother, ih]
      · rw [ih, Function.update_of_ne (Ne.symm hp)]

/-- A process that has caught up, and has lost no partition since, has been handed the records from
the offsets on that it started at, each of them once. -/
theorem handed_perm_fromOffsets (h : Sound route start handle s)
    (hs : ∀ p, s.recordsOf p ++ (ofPartition route p s.log).drop (s.position p) =
      (ofPartition route p s.log).drop (s.started p))
    {as : List (GroupAction ι α)} (hrun : run (groupStep route start handle) s as = some t)
    (hnone : ∀ p, rebalancesOf p as = 0) (hcaught : t.CaughtUp route) :
    (t.handed.map Handed.record).Perm (fromOffsets route t.started t.log) := by
  apply perm_of_ofPartition route
  intro p
  have hrecords := recordsOf_of_caughtUp h (hs p) hrun (hnone p) hcaught
  rw [ofPartition_fromOffsets, ← hrecords, ofPartition, List.filter_map, GroupState.recordsOf,
    GroupState.handedOf]
  -- what was handed over of a partition is what is routed there
  refine congrArg _ (List.filter_congr ?_)
  intro x hx
  have hroute := (mem_ofPartition.1 (List.mem_of_getElem? ((h.run hrun).record_eq x hx))).2
  rw [Function.comp_apply, hroute]

/-- A process that was neither restarted nor rebalanced, and has caught up, has been handed every
record of the log once. -/
theorem handed_perm_log {as : List (GroupAction ι α)}
    (hrun : run (groupStep route start handle) (.initial start) as = some t)
    (hnone : ∀ p, rebalancesOf p as = 0) (hrestart : .restart ∉ as)
    (hcaught : t.CaughtUp route) : (t.handed.map Handed.record).Perm t.log := by
  have hperm := handed_perm_fromOffsets Sound.initial (fun _ => rfl) hrun hnone hcaught
  rw [started_eq_of_run hrun hrestart] at hperm
  exact hperm.trans (List.Perm.of_eq (fromOffsets_zero t.log))

end Redelivery

end AdClick.Library
