import AdClick.Library.FirstOccurrence
import AdClick.Library.Runs
import Mathlib.Data.Fintype.Basic
import Mathlib.Logic.Function.Basic

/-!
# A partitioned log and the group that reads it

Records are appended to a log, each in the partition that `route` gives it. One process reads all
partitions, in any interleaving, and handles what it is handed; a group keeps the offset that is
committed of every partition. A rebalance gives a partition back and assigns it again, and a restart
ends the process and starts a new one; both resume at the committed offsets, so that records are
handed over again.

`Sound` is the invariant of all runs (`sound_of_run`): the records that are handed over for the
first time since the start of the process are, partition by partition, the records of the log from
the offset it started at, in order and without a gap (`firstRecords_eq`). A process that has caught
up has therefore been handed every record from there on (`mem_records_iff`). A process that starts
later starts behind what was committed (`committed_le_started_of_run`), and from every state it can
catch up (`exists_caughtUp`).
-/

set_option autoImplicit false

namespace AdClick.Library

universe u v w

/-- A record as it was handed to the process. -/
structure Handed (ι : Type u) (α : Type v) where
  partition : ι
  offset : Nat
  record : α

/-- The log, the offsets of the group and the process that reads for it. `started` and `handed` are
the history of the process: where it started, and what it has been handed since. -/
structure GroupState (ι : Type u) (α : Type v) (σ : Type w) where
  log : List α
  committed : ι → Nat
  position : ι → Nat
  process : σ
  started : ι → Nat
  handed : List (Handed ι α)

inductive GroupAction (ι : Type u) (α : Type v) where
  | append (record : α)
  | deliver (p : ι)
  | commit (p : ι) (offset : Nat)
  | rebalance (p : ι)
  | restart

section Group

variable {ι : Type u} {α : Type v} {σ : Type w} [DecidableEq ι]

/-- The records of a partition. -/
def ofPartition (route : α → ι) (p : ι) (log : List α) : List α :=
  log.filter fun record => route record = p

theorem mem_ofPartition {route : α → ι} {p : ι} {log : List α} {record : α} :
    record ∈ ofPartition route p log ↔ record ∈ log ∧ route record = p := by
  rw [ofPartition, List.mem_filter, decide_eq_true_eq]

theorem ofPartition_append (route : α → ι) (p : ι) (log log' : List α) :
    ofPartition route p (log ++ log') = ofPartition route p log ++ ofPartition route p log' :=
  List.filter_append log log'

namespace GroupState

/-- An empty log, and a process that has not read anything. -/
def initial (start : σ) : GroupState ι α σ := ⟨[], fun _ => 0, fun _ => 0, start, fun _ => 0, []⟩

/-- What the process was handed of a partition. -/
def handedOf (s : GroupState ι α σ) (p : ι) : List (Handed ι α) :=
  s.handed.filter fun h => h.partition = p

/-- The offsets of a partition in the order in which they were first handed over. -/
def firstOffsets (s : GroupState ι α σ) (p : ι) : List Nat :=
  firsts id ∅ ((s.handedOf p).map Handed.offset)

/-- The records of a partition in the order in which they were first handed over. -/
def firstRecords (s : GroupState ι α σ) (p : ι) : List α :=
  (firsts Handed.offset ∅ (s.handedOf p)).map Handed.record

/-- The offset up to which the process has been handed a partition. -/
def reached (s : GroupState ι α σ) (p : ι) : Nat := s.started p + (s.firstOffsets p).length

/-- The process has read every partition to its end. -/
def CaughtUp (route : α → ι) (s : GroupState ι α σ) : Prop :=
  ∀ p, s.position p = (ofPartition route p s.log).length

end GroupState

/-- One action. A record is handed over when there is one at the position and the process can handle
it; a commit does not go back, and not past the position. -/
def groupStep (route : α → ι) (start : σ) (handle : σ → α → Option σ) (s : GroupState ι α σ) :
    GroupAction ι α → Option (GroupState ι α σ)
  | .append record => some { s with log := s.log ++ [record] }
  | .deliver p =>
    (ofPartition route p s.log)[s.position p]?.bind fun record =>
      (handle s.process record).map fun process =>
        { s with
          position := Function.update s.position p (s.position p + 1)
          process := process
          handed := s.handed ++ [⟨p, s.position p, record⟩] }
  | .commit p offset =>
    if s.committed p ≤ offset ∧ offset ≤ s.position p then
      some { s with committed := Function.update s.committed p offset }
    else none
  | .rebalance p => some { s with position := Function.update s.position p (s.committed p) }
  | .restart =>
    some { s with
      position := s.committed
      process := start
      started := s.committed
      handed := [] }

/-- Positions lie between what is committed and what has been reached, and what has been handed over
is what the log holds there, without a gap. -/
structure Sound (route : α → ι) (start : σ) (handle : σ → α → Option σ)
    (s : GroupState ι α σ) : Prop where
  started_le : ∀ p, s.started p ≤ s.committed p
  committed_le : ∀ p, s.committed p ≤ s.position p
  position_le : ∀ p, s.position p ≤ s.reached p
  reached_le : ∀ p, s.reached p ≤ (ofPartition route p s.log).length
  firstOffsets_eq : ∀ p, s.firstOffsets p = List.range' (s.started p) (s.firstOffsets p).length
  record_eq : ∀ h ∈ s.handed, (ofPartition route h.partition s.log)[h.offset]? = some h.record
  process_eq : run handle start (s.handed.map Handed.record) = some s.process

variable {route : α → ι} {start : σ} {handle : σ → α → Option σ} {s t : GroupState ι α σ}

/-! ## One step -/

/-- What a delivery does. -/
theorem groupStep_deliver_eq_some {p : ι}
    (h : groupStep route start handle s (.deliver p) = some t) :
    ∃ record process, (ofPartition route p s.log)[s.position p]? = some record ∧
      handle s.process record = some process ∧
      t = { s with
        position := Function.update s.position p (s.position p + 1)
        process := process
        handed := s.handed ++ [⟨p, s.position p, record⟩] } := by
  obtain ⟨record, hrecord, hrest⟩ := Option.bind_eq_some_iff.1 h
  obtain ⟨process, hprocess, ht⟩ := Option.map_eq_some_iff.1 hrest
  exact ⟨record, process, hrecord, hprocess, ht.symm⟩

/-- What a commit does. -/
theorem groupStep_commit_eq_some {p : ι} {offset : Nat}
    (h : groupStep route start handle s (.commit p offset) = some t) :
    s.committed p ≤ offset ∧ offset ≤ s.position p ∧
      t = { s with committed := Function.update s.committed p offset } := by
  rw [groupStep] at h
  split at h
  · rename_i hoffset
    cases h
    exact ⟨hoffset.1, hoffset.2, rfl⟩
  · cases h

/-- A delivery is a first one exactly when its offset has not been handed over yet. -/
theorem firstOffsets_snoc (s : GroupState ι α σ) (position : ι → Nat) (process : σ)
    (h : Handed ι α) (q : ι) :
    ({ s with position := position, process := process, handed := s.handed ++ [h] } :
        GroupState ι α σ).firstOffsets q =
      if h.partition = q ∧ h.offset ∉ s.firstOffsets q then s.firstOffsets q ++ [h.offset]
      else s.firstOffsets q := by
  have hmem : h.offset ∈ (s.handedOf q).map Handed.offset ↔ h.offset ∈ s.firstOffsets q := by
    have hfirst := mem_map_firsts id ((s.handedOf q).map Handed.offset) ∅ h.offset
    rw [List.map_id, List.map_id] at hfirst
    rw [GroupState.firstOffsets, hfirst]
    exact ⟨fun hin => ⟨Finset.notMem_empty _, hin⟩, And.right⟩
  rw [GroupState.firstOffsets, GroupState.handedOf, List.filter_append]
  by_cases hq : h.partition = q
  · rw [List.filter_cons_of_pos (by simpa using hq), List.filter_nil, List.map_append,
      List.map_singleton, firsts_snoc, List.map_id]
    change (if h.offset ∈ (∅ : Finset Nat) ∨ h.offset ∈ (s.handedOf q).map Handed.offset
      then s.firstOffsets q else s.firstOffsets q ++ [h.offset]) = _
    by_cases hin : h.offset ∈ s.firstOffsets q
    · rw [if_pos (Or.inr (hmem.2 hin)), if_neg fun hnew => hnew.2 hin]
    · rw [if_neg (by simpa [hmem] using hin), if_pos ⟨hq, hin⟩]
  · rw [List.filter_cons_of_neg (by simpa using hq), List.filter_nil, List.append_nil,
      if_neg fun hnew => hq hnew.1]
    rfl

namespace Sound

theorem initial : Sound route start handle (GroupState.initial start : GroupState ι α σ) where
  started_le _ := Nat.le_refl 0
  committed_le _ := Nat.le_refl 0
  position_le _ := Nat.le_refl 0
  reached_le _ := Nat.le_refl 0
  firstOffsets_eq _ := rfl
  record_eq h hmem := by cases hmem
  process_eq := rfl

theorem append (h : Sound route start handle s) (record : α) :
    Sound route start handle { s with log := s.log ++ [record] } where
  started_le := h.started_le
  committed_le := h.committed_le
  position_le := h.position_le
  reached_le p := by
    refine Nat.le_trans (h.reached_le p) ?_
    rw [ofPartition_append, List.length_append]
    exact Nat.le_add_right _ _
  firstOffsets_eq := h.firstOffsets_eq
  record_eq x hx := by
    have hold := h.record_eq x hx
    obtain ⟨hlt, -⟩ := List.getElem?_eq_some_iff.1 hold
    rw [ofPartition_append, List.getElem?_append_left hlt, hold]
  process_eq := h.process_eq

/-- An offset has been handed over exactly when it has been reached. -/
theorem mem_firstOffsets (h : Sound route start handle s) (p : ι) (offset : Nat) :
    offset ∈ s.firstOffsets p ↔ s.started p ≤ offset ∧ offset < s.reached p := by
  rw [h.firstOffsets_eq p, List.mem_range'_1]
  rfl

/-- A delivery hands over the next record that has not been reached, or repeats one. -/
theorem firstOffsets_deliver (h : Sound route start handle s) (p : ι) (record : α) (process : σ)
    (q : ι) :
    let t : GroupState ι α σ := { s with
      position := Function.update s.position p (s.position p + 1)
      process := process
      handed := s.handed ++ [⟨p, s.position p, record⟩] }
    t.firstOffsets q = List.range' (t.started q) (t.firstOffsets q).length ∧
      t.position q ≤ t.reached q ∧ (t.reached q = s.reached q ∨
        p = q ∧ t.reached q = s.position p + 1) := by
  intro t
  have hsnoc := firstOffsets_snoc s t.position process ⟨p, s.position p, record⟩ q
  change t.firstOffsets q = if p = q ∧ s.position p ∉ s.firstOffsets q then _ else _ at hsnoc
  have hposition := h.position_le q
  have hstarted : s.started q ≤ s.position q :=
    Nat.le_trans (h.started_le q) (h.committed_le q)
  have hreached : t.reached q = s.started q + (t.firstOffsets q).length := rfl
  have hold : s.reached q = s.started q + (s.firstOffsets q).length := rfl
  by_cases hp : p = q
  · subst hp
    have hnext : t.position p = s.position p + 1 := Function.update_self ..
    by_cases hin : s.position p ∈ s.firstOffsets p
    · -- the record has been handed over before
      rw [if_neg fun hnew => hnew.2 hin] at hsnoc
      have hlt := ((h.mem_firstOffsets p _).1 hin).2
      refine ⟨?_, ?_, Or.inl ?_⟩
      · rw [hsnoc]
        exact h.firstOffsets_eq p
      · rw [hnext, hreached, hsnoc]
        omega
      · rw [hreached, hsnoc, hold]
    · -- the position is where the process has got to
      rw [if_pos ⟨rfl, hin⟩] at hsnoc
      have hend : s.position p = s.started p + (s.firstOffsets p).length := by
        rw [h.mem_firstOffsets p] at hin
        omega
      have hlength : (t.firstOffsets p).length = (s.firstOffsets p).length + 1 := by
        rw [hsnoc, List.length_append, List.length_singleton]
      refine ⟨?_, ?_, Or.inr ⟨rfl, ?_⟩⟩
      · rw [hlength, List.range'_concat, hsnoc, Nat.one_mul, ← h.firstOffsets_eq p, hend]
      · omega
      · omega
  · rw [if_neg fun hnew => hp hnew.1] at hsnoc
    have hsame : t.position q = s.position q := Function.update_of_ne (Ne.symm hp) ..
    refine ⟨?_, ?_, Or.inl ?_⟩
    · rw [hsnoc]
      exact h.firstOffsets_eq q
    · rw [hsame, hreached, hsnoc]
      exact hposition
    · rw [hreached, hsnoc, hold]

theorem deliver (h : Sound route start handle s) {p : ι} {record : α} {process : σ}
    (hrecord : (ofPartition route p s.log)[s.position p]? = some record)
    (hprocess : handle s.process record = some process) :
    Sound route start handle
      { s with
        position := Function.update s.position p (s.position p + 1)
        process := process
        handed := s.handed ++ [⟨p, s.position p, record⟩] } where
  started_le := h.started_le
  committed_le := by
    have hmoved : s.committed ≤ Function.update s.position p (s.position p + 1) :=
      le_update_iff.2 ⟨Nat.le_succ_of_le (h.committed_le p), fun q _ => h.committed_le q⟩
    exact hmoved
  position_le q := (h.firstOffsets_deliver p record process q).2.1
  reached_le q := by
    obtain ⟨hlt, -⟩ := List.getElem?_eq_some_iff.1 hrecord
    obtain ⟨-, -, hreached | ⟨rfl, hreached⟩⟩ := h.firstOffsets_deliver p record process q
    · rw [hreached]
      exact h.reached_le q
    · rw [hreached]
      exact hlt
  firstOffsets_eq q := (h.firstOffsets_deliver p record process q).1
  record_eq x hx := by
    rcases List.mem_append.1 hx with hx | hx
    · exact h.record_eq x hx
    · rw [List.mem_singleton.1 hx]
      exact hrecord
  process_eq := by
    rw [List.map_append]
    exact run_snoc handle h.process_eq hprocess

theorem commit (h : Sound route start handle s) {p : ι} {offset : Nat}
    (hcommitted : s.committed p ≤ offset) (hposition : offset ≤ s.position p) :
    Sound route start handle { s with committed := Function.update s.committed p offset } where
  started_le := by
    have hmoved : s.started ≤ Function.update s.committed p offset :=
      le_update_iff.2 ⟨Nat.le_trans (h.started_le p) hcommitted, fun q _ => h.started_le q⟩
    exact hmoved
  committed_le := by
    have hmoved : Function.update s.committed p offset ≤ s.position :=
      update_le_iff.2 ⟨hposition, fun q _ => h.committed_le q⟩
    exact hmoved
  position_le := h.position_le
  reached_le := h.reached_le
  firstOffsets_eq := h.firstOffsets_eq
  record_eq := h.record_eq
  process_eq := h.process_eq

theorem rebalance (h : Sound route start handle s) (p : ι) :
    Sound route start handle
      { s with position := Function.update s.position p (s.committed p) } where
  started_le := h.started_le
  committed_le := by
    have hmoved : s.committed ≤ Function.update s.position p (s.committed p) :=
      le_update_iff.2 ⟨Nat.le_refl _, fun q _ => h.committed_le q⟩
    exact hmoved
  position_le := by
    have hmoved : Function.update s.position p (s.committed p) ≤ s.reached :=
      update_le_iff.2
        ⟨Nat.le_trans (h.committed_le p) (h.position_le p), fun q _ => h.position_le q⟩
    exact hmoved
  reached_le := h.reached_le
  firstOffsets_eq := h.firstOffsets_eq
  record_eq := h.record_eq
  process_eq := h.process_eq

theorem restart (h : Sound route start handle s) :
    Sound route start handle
      { s with
        position := s.committed
        process := start
        started := s.committed
        handed := [] } where
  started_le _ := Nat.le_refl _
  committed_le _ := Nat.le_refl _
  position_le _ := Nat.le_refl _
  reached_le p := Nat.le_trans (h.committed_le p) (Nat.le_trans (h.position_le p) (h.reached_le p))
  firstOffsets_eq _ := rfl
  record_eq x hx := by cases hx
  process_eq := rfl

/-- Every action keeps the invariant. -/
theorem step (h : Sound route start handle s) {a : GroupAction ι α}
    (ha : groupStep route start handle s a = some t) : Sound route start handle t := by
  cases a with
  | append record =>
    cases ha
    exact h.append record
  | deliver p =>
    obtain ⟨record, process, hrecord, hprocess, rfl⟩ := groupStep_deliver_eq_some ha
    exact h.deliver hrecord hprocess
  | commit p offset =>
    obtain ⟨hcommitted, hposition, rfl⟩ := groupStep_commit_eq_some ha
    exact h.commit hcommitted hposition
  | rebalance p =>
    cases ha
    exact h.rebalance p
  | restart =>
    cases ha
    exact h.restart

/-- The invariant holds along every run. -/
theorem run (h : Sound route start handle s) {as : List (GroupAction ι α)}
    (hrun : run (groupStep route start handle) s as = some t) : Sound route start handle t :=
  run_invariant (groupStep route start handle) (P := fun _ t => Sound route start handle t) h
    (fun _ _ _ _ _ ih ha => ih.step ha) hrun

end Sound

theorem sound_of_run {as : List (GroupAction ι α)}
    (h : run (groupStep route start handle) (.initial start) as = some t) :
    Sound route start handle t :=
  Sound.initial.run h

/-! ## The log -/

/-- The records that the actions append. -/
def appendsOf (as : List (GroupAction ι α)) : List α :=
  as.filterMap fun
    | .append record => some record
    | _ => none

theorem log_eq_of_step {a : GroupAction ι α} (ha : groupStep route start handle s a = some t) :
    t.log = s.log ++ appendsOf [a] := by
  cases a with
  | append record =>
    cases ha
    rfl
  | deliver p =>
    obtain ⟨record, process, -, -, rfl⟩ := groupStep_deliver_eq_some ha
    exact (List.append_nil _).symm
  | commit p offset =>
    obtain ⟨-, -, rfl⟩ := groupStep_commit_eq_some ha
    exact (List.append_nil _).symm
  | rebalance p =>
    cases ha
    exact (List.append_nil _).symm
  | restart =>
    cases ha
    exact (List.append_nil _).symm

/-- The log holds what has been appended, in order. -/
theorem log_eq_of_run {as : List (GroupAction ι α)}
    (hrun : run (groupStep route start handle) s as = some t) :
    t.log = s.log ++ appendsOf as := by
  apply run_invariant (groupStep route start handle)
    (P := fun as t => t.log = s.log ++ appendsOf as) _ _ hrun
  · exact (List.append_nil _).symm
  · intro as t a u _ ih ha
    rw [log_eq_of_step ha, ih, List.append_assoc, appendsOf, appendsOf, appendsOf,
      List.filterMap_append]

/-! ## What has been handed over -/

namespace Sound

theorem mem_firstOffsets_of_mem_handed {x : Handed ι α} (hx : x ∈ s.handed) :
    x.offset ∈ s.firstOffsets x.partition := by
  have hfirst := mem_map_firsts id ((s.handedOf x.partition).map Handed.offset) ∅ x.offset
  rw [List.map_id, List.map_id] at hfirst
  apply hfirst.2
  refine ⟨Finset.notMem_empty _, List.mem_map_of_mem ?_⟩
  exact List.mem_filter.2 ⟨hx, decide_eq_true rfl⟩

theorem exists_handed_of_mem_firstOffsets {p : ι} {offset : Nat} (h : offset ∈ s.firstOffsets p) :
    ∃ x ∈ s.handed, x.partition = p ∧ x.offset = offset := by
  have hfirst := mem_map_firsts id ((s.handedOf p).map Handed.offset) ∅ offset
  rw [List.map_id, List.map_id] at hfirst
  obtain ⟨x, hx, hoffset⟩ := List.mem_map.1 (hfirst.1 h).2
  obtain ⟨hmem, hp⟩ := List.mem_filter.1 hx
  exact ⟨x, hmem, of_decide_eq_true hp, hoffset⟩

/-- The first deliveries of a partition are its records from where the process started to where it
has got, in the order of the log. -/
theorem firstRecords_eq (h : Sound route start handle s) (p : ι) :
    s.firstRecords p =
      ((ofPartition route p s.log).drop (s.started p)).take (s.firstOffsets p).length := by
  have hoffsets : (firsts Handed.offset ∅ (s.handedOf p)).map Handed.offset = s.firstOffsets p :=
    map_firsts Handed.offset (s.handedOf p) ∅
  apply List.ext_getElem?
  intro i
  rw [GroupState.firstRecords, List.getElem?_map]
  cases hx : (firsts Handed.offset ∅ (s.handedOf p))[i]? with
  | none =>
    have hlength : (s.firstOffsets p).length ≤ i := by
      rw [← hoffsets, List.length_map]
      exact List.getElem?_eq_none_iff.1 hx
    rw [List.getElem?_take_eq_none hlength]
    rfl
  | some x =>
    -- the `i`-th first delivery is that of the `i`-th offset after the start
    have hmem := mem_of_mem_firsts _ _ _ (List.mem_of_getElem? hx)
    obtain ⟨hhanded, hp⟩ := List.mem_filter.1 hmem
    have hrecord := h.record_eq x hhanded
    have hoffset : (s.firstOffsets p)[i]? = some x.offset := by
      rw [← hoffsets, List.getElem?_map, hx, Option.map_some]
    obtain ⟨hlt, -⟩ := List.getElem?_eq_some_iff.1 hoffset
    rw [h.firstOffsets_eq p, List.getElem?_range' (by simpa using hlt), Option.some_inj,
      Nat.one_mul] at hoffset
    rw [List.getElem?_take_of_lt hlt, List.getElem?_drop, hoffset, ← of_decide_eq_true hp, hrecord]
    rfl

/-- What has been handed over is in the log, at or after the offset the process started at. -/
theorem mem_drop_of_mem_handed (h : Sound route start handle s) {record : α}
    (hrecord : record ∈ s.handed.map Handed.record) :
    record ∈ (ofPartition route (route record) s.log).drop (s.started (route record)) := by
  obtain ⟨x, hx, rfl⟩ := List.mem_map.1 hrecord
  have hlog := h.record_eq x hx
  have hroute : route x.record = x.partition :=
    (mem_ofPartition.1 (List.mem_of_getElem? hlog)).2
  have hstarted := ((h.mem_firstOffsets _ _).1 (mem_firstOffsets_of_mem_handed hx)).1
  rw [hroute]
  obtain ⟨k, hk⟩ := Nat.exists_eq_add_of_le hstarted
  rw [hk, ← List.getElem?_drop] at hlog
  exact List.mem_of_getElem? hlog

theorem mem_log_of_mem_handed (h : Sound route start handle s) {record : α}
    (hrecord : record ∈ s.handed.map Handed.record) : record ∈ s.log :=
  (mem_ofPartition.1 (List.mem_of_mem_drop (h.mem_drop_of_mem_handed hrecord))).1

/-- A process that has caught up has been handed exactly the records from where it started. -/
theorem mem_records_iff (h : Sound route start handle s) (hcaught : s.CaughtUp route)
    (record : α) :
    record ∈ s.handed.map Handed.record ↔
      record ∈ (ofPartition route (route record) s.log).drop (s.started (route record)) := by
  constructor
  · exact h.mem_drop_of_mem_handed
  · intro hdrop
    obtain ⟨i, hi⟩ := List.mem_iff_getElem?.1 hdrop
    rw [List.getElem?_drop] at hi
    obtain ⟨hlt, -⟩ := List.getElem?_eq_some_iff.1 hi
    have hreached : s.started (route record) + i < s.reached (route record) := by
      rw [← hcaught] at hlt
      exact Nat.lt_of_lt_of_le hlt (h.position_le _)
    obtain ⟨x, hx, hp, hoffset⟩ := exists_handed_of_mem_firstOffsets
      ((h.mem_firstOffsets _ _).2 ⟨Nat.le_add_right _ i, hreached⟩)
    have hrecord := h.record_eq x hx
    rw [hp, hoffset, hi] at hrecord
    rw [Option.some.inj hrecord]
    exact List.mem_map_of_mem hx

end Sound

/-! ## Committed offsets -/

/-- Committed offsets do not go back, not even over a restart. -/
theorem committed_le_of_step {a : GroupAction ι α}
    (ha : groupStep route start handle s a = some t) : ∀ p, s.committed p ≤ t.committed p := by
  intro p
  cases a with
  | append record =>
    cases ha
    exact Nat.le_refl _
  | deliver q =>
    obtain ⟨record, process, -, -, rfl⟩ := groupStep_deliver_eq_some ha
    exact Nat.le_refl _
  | commit q offset =>
    obtain ⟨hcommitted, -, rfl⟩ := groupStep_commit_eq_some ha
    have hmoved : s.committed ≤ Function.update s.committed q offset :=
      le_update_iff.2 ⟨hcommitted, fun _ _ => Nat.le_refl _⟩
    exact hmoved p
  | rebalance q =>
    cases ha
    exact Nat.le_refl _
  | restart =>
    cases ha
    exact Nat.le_refl _

theorem committed_le_of_run {as : List (GroupAction ι α)}
    (hrun : run (groupStep route start handle) s as = some t) :
    ∀ p, s.committed p ≤ t.committed p :=
  run_invariant (groupStep route start handle) (P := fun _ t => ∀ p, s.committed p ≤ t.committed p)
    (fun _ => Nat.le_refl _)
    (fun _ _ _ _ _ ih ha p => Nat.le_trans (ih p) (committed_le_of_step ha p)) hrun

/-- As long as the process runs, it is the one that started at these offsets. -/
theorem started_eq_of_run {as : List (GroupAction ι α)}
    (hrun : run (groupStep route start handle) s as = some t) :
    GroupAction.restart ∉ as → t.started = s.started := by
  apply run_invariant (groupStep route start handle)
    (P := fun as t => GroupAction.restart ∉ as → t.started = s.started) _ _ hrun
  · intro _
    rfl
  · intro as t a u _ ih ha hnot
    rw [List.mem_append, List.mem_singleton, not_or] at hnot
    rw [← ih hnot.1]
    cases a with
    | append record =>
      cases ha
      rfl
    | deliver p =>
      obtain ⟨record, process, -, -, rfl⟩ := groupStep_deliver_eq_some ha
      rfl
    | commit p offset =>
      obtain ⟨-, -, rfl⟩ := groupStep_commit_eq_some ha
      rfl
    | rebalance p =>
      cases ha
      rfl
    | restart => exact absurd rfl hnot.2

theorem started_le_of_step (h : Sound route start handle s) {a : GroupAction ι α}
    (ha : groupStep route start handle s a = some t) : ∀ p, s.started p ≤ t.started p := by
  intro p
  cases a with
  | append record =>
    cases ha
    exact Nat.le_refl _
  | deliver q =>
    obtain ⟨record, process, -, -, rfl⟩ := groupStep_deliver_eq_some ha
    exact Nat.le_refl _
  | commit q offset =>
    obtain ⟨-, -, rfl⟩ := groupStep_commit_eq_some ha
    exact Nat.le_refl _
  | rebalance q =>
    cases ha
    exact Nat.le_refl _
  | restart =>
    cases ha
    exact h.started_le p

/-- A process that is started later starts behind what was committed. -/
theorem committed_le_started_of_run (h : Sound route start handle s)
    {as : List (GroupAction ι α)} (hrun : run (groupStep route start handle) s as = some t)
    (hrestart : GroupAction.restart ∈ as) : ∀ p, s.committed p ≤ t.started p := by
  revert hrestart
  apply run_invariant (groupStep route start handle)
    (P := fun as t => GroupAction.restart ∈ as → ∀ p, s.committed p ≤ t.started p) _ _ hrun
  · intro hmem
    cases hmem
  · intro as t a u hrun ih ha hmem p
    rcases List.mem_append.1 hmem with hmem | hmem
    · exact Nat.le_trans (ih hmem p) (started_le_of_step (h.run hrun) ha p)
    · cases List.mem_singleton.1 hmem
      cases ha
      exact committed_le_of_run hrun p

/-! ## Catching up -/

section CatchUp

variable {P : σ → Prop}

/-- Reading one partition to its end, for a process that can handle all records of the log. -/
theorem exists_drained (hhandle : ∀ process record, P process → record ∈ s.log →
      ∃ process', handle process record = some process' ∧ P process') (p : ι) (hP : P s.process)
    (hle : s.position p ≤ (ofPartition route p s.log).length) :
    ∃ (ps : List ι) (t : GroupState ι α σ),
      run (groupStep route start handle) s (ps.map .deliver) = some t ∧
      t.log = s.log ∧ P t.process ∧
      t.position = Function.update s.position p (ofPartition route p s.log).length := by
  -- on the number of records that are left
  generalize hk : (ofPartition route p s.log).length - s.position p = k
  induction k generalizing s with
  | zero =>
    have hend : s.position p = (ofPartition route p s.log).length := by omega
    refine ⟨[], s, rfl, rfl, hP, ?_⟩
    rw [← hend, Function.update_eq_self]
  | succ k ih =>
    have hlt : s.position p < (ofPartition route p s.log).length := by omega
    have hrecord := List.getElem?_eq_getElem hlt
    have hlog : (ofPartition route p s.log)[s.position p] ∈ s.log :=
      (mem_ofPartition.1 (List.getElem_mem hlt)).1
    obtain ⟨process, hprocess, hP'⟩ := hhandle s.process _ hP hlog
    let u : GroupState ι α σ := { s with
      position := Function.update s.position p (s.position p + 1)
      process := process
      handed := s.handed ++ [⟨p, s.position p, (ofPartition route p s.log)[s.position p]⟩] }
    have hstep : groupStep route start handle s (.deliver p) = some u := by
      rw [groupStep, hrecord, Option.bind_some, hprocess, Option.map_some]
    have hnext : u.position p = s.position p + 1 := Function.update_self ..
    have hleft : (ofPartition route p u.log).length - u.position p = k := by
      change (ofPartition route p s.log).length - u.position p = k
      omega
    obtain ⟨ps, t, hrun, htlog, hPt, hposition⟩ := ih (s := u) hhandle hP'
      (Nat.le_trans (Nat.le_of_eq hnext) hlt) hleft
    refine ⟨p :: ps, t, ?_, htlog, hPt, ?_⟩
    · exact Option.bind_eq_some_iff.2 ⟨u, hstep, hrun⟩
    · rw [hposition]
      exact Function.update_idem ..

/-- From every state of a run the process catches up by deliveries alone, if it can handle all
records. -/
theorem exists_caughtUp [Fintype ι] (h : Sound route start handle s)
    (hhandle : ∀ process record, P process → record ∈ s.log →
      ∃ process', handle process record = some process' ∧ P process') (hP : P s.process) :
    ∃ (ps : List ι) (t : GroupState ι α σ),
      run (groupStep route start handle) s (ps.map .deliver) = some t ∧ t.log = s.log ∧
      t.CaughtUp route := by
  -- one partition after the other
  have hsome : ∀ qs : List ι, ∃ (ps : List ι) (t : GroupState ι α σ),
      run (groupStep route start handle) s (ps.map .deliver) = some t ∧
      t.log = s.log ∧ P t.process ∧
      ∀ q ∈ qs, t.position q = (ofPartition route q t.log).length := by
    intro qs
    induction qs with
    | nil => exact ⟨[], s, rfl, rfl, hP, nofun⟩
    | cons p qs ih =>
      obtain ⟨ps, t, hrun, hlog, hPt, hqs⟩ := ih
      have ht := h.run hrun
      obtain ⟨ps', u, hrun', hlog', hPu, hposition⟩ := exists_drained (s := t)
        (hlog ▸ hhandle) p hPt (Nat.le_trans (ht.position_le p) (ht.reached_le p))
      refine ⟨ps ++ ps', u, ?_, hlog'.trans hlog, hPu, ?_⟩
      · rw [List.map_append, run_append, hrun]
        exact hrun'
      · intro q hq
        rw [hposition, hlog']
        by_cases hqp : q = p
        · rw [hqp, Function.update_self]
        · rw [Function.update_of_ne hqp]
          exact hqs q ((List.mem_cons.1 hq).resolve_left hqp)
  obtain ⟨ps, t, hrun, hlog, -, hall⟩ := hsome Finset.univ.toList
  refine ⟨ps, t, hrun, hlog, ?_⟩
  intro p
  exact hall p (Finset.mem_toList.2 (Finset.mem_univ p))

end CatchUp

end Group

end AdClick.Library
