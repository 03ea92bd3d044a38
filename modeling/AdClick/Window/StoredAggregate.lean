import AdClick.Window.FlushRace
import AdClick.Window.Ledger
import AdClick.Window.Table

/-!
# The stored aggregate under a flush schedule

The service with its flushes completing before the next step: the buckets, the table, and the
operations `record` and `flush`. Every such run is a run of the transition system
(`run_runActions`).

A flush clears the counters it has written, and the table keeps only the last row of a pair, so the
stored count of a pair is its count since the flush before its last one. The store does to its pairs
what the ledger does to its keys (`represents_step`, `represents_run`); with it, the collapsed table
is the true aggregate exactly when no flush falls between two clicks of one pair
(`storedIsTrue_iff_noWindowSplit`).
-/

set_option autoImplicit false

namespace AdClick.Window

open AdClick.Library AdClick.Ecma

structure Store where
  buckets : Buckets
  table : List Row

inductive Op where
  | record (envelope : ClickEnvelope)
  | flush

namespace Store

/-- Empty buckets and an empty table. -/
def empty : Store := ⟨.empty, []⟩

/-- A flush whose insert succeeds before anything else happens. -/
def flush (s : Store) : Store :=
  match flushBatch s.buckets with
  | none => s
  | some batch => ⟨flushSettled .success s.buckets, s.table ++ flushRows batch⟩

def step (host : Host) (s : Store) : Op → Store
  | .record envelope => { s with buckets := afterRecord host envelope s.buckets }
  | .flush => s.flush

def run (host : Host) (s : Store) (ops : List Op) : Store := ops.foldl (step host) s

theorem run_append (host : Host) (s : Store) (ops more : List Op) :
    s.run host (ops ++ more) = (s.run host ops).run host more :=
  List.foldl_append

theorem flush_buckets (s : Store) : s.flush.buckets = .empty := by
  simp only [flush, flushBatch]
  by_cases h : s.buckets.size = 0
  · rw [if_pos h]
    exact InsertionMap.size_eq_zero_iff.1 h
  · rw [if_neg h]
    rfl

/-- Whether or not there is anything to flush, the table grows by the rows of the buckets. -/
theorem flush_table (s : Store) : s.flush.table = s.table ++ flushRows s.buckets := by
  simp only [flush, flushBatch]
  by_cases h : s.buckets.size = 0
  · rw [if_pos h, InsertionMap.size_eq_zero_iff.1 h]
    exact (List.append_nil s.table).symm
  · rw [if_neg h]

end Store

/-- The click of a call of `record`. -/
def Op.click? : Op → Option ClickEnvelope
  | .record envelope => some envelope
  | .flush => none

/-- The clicks handed to `record`, in order. -/
def recorded (ops : List Op) : List ClickEnvelope := ops.filterMap Op.click?

theorem recorded_append (ops more : List Op) :
    recorded (ops ++ more) = recorded ops ++ recorded more :=
  List.filterMap_append

theorem recorded_snoc_flush (ops : List Op) : recorded (ops ++ [.flush]) = recorded ops :=
  (recorded_append ops [.flush]).trans (List.append_nil _)

/-! ## As runs of the transition system -/

/-- The actions of an operation: a flush starts an insert, if there is anything to insert, and the
insert succeeds. -/
def opActions (s : Store) : Op → List Action
  | .record envelope => [.record envelope]
  | .flush => if s.buckets.size = 0 then [.flushStart] else [.flushStart, .insertSuccess 0]

def runActions (host : Host) : Store → List Op → List Action
  | _, [] => []
  | s, op :: ops => opActions s op ++ runActions host (s.step host op) ops

theorem clicksOf_opActions (s : Store) (op : Op) :
    clicksOf (opActions s op) = op.click?.toList := by
  cases op with
  | record envelope => rfl
  | flush =>
    by_cases h : s.buckets.size = 0
    · rw [opActions, if_pos h]
      rfl
    · rw [opActions, if_neg h]
      rfl

/-- The transition system records the clicks of the operations. -/
theorem clicksOf_runActions (host : Host) (s : Store) (ops : List Op) :
    clicksOf (runActions host s ops) = recorded ops := by
  induction ops generalizing s with
  | nil => rfl
  | cons op ops ih =>
    rw [runActions, clicksOf_append, clicksOf_opActions, ih]
    cases op <;> rfl

/-- One operation is a run of the transition system between states in which no insert waits. -/
theorem run_opActions (host : Host) (s : Store) (completed : List Buckets) (op : Op) :
    ∃ completed',
      run (AdClick.Window.step host) ⟨s.buckets, [], completed, s.table⟩ (opActions s op) =
        some ⟨(s.step host op).buckets, [], completed', (s.step host op).table⟩ := by
  cases op with
  | record envelope => exact ⟨completed, rfl⟩
  | flush =>
    by_cases h : s.buckets.size = 0
    · refine ⟨completed, ?_⟩
      simp [opActions, run, AdClick.Window.step, Store.step, Store.flush, flushBatch, h]
    · refine ⟨completed ++ [s.buckets], ?_⟩
      simp [opActions, run, AdClick.Window.step, Store.step, Store.flush, flushBatch, h,
        Insert.apply]

/-- A run of operations is a run of the transition system. -/
theorem run_runActions (host : Host) (s : Store) (completed : List Buckets) (ops : List Op) :
    ∃ completed',
      run (AdClick.Window.step host) ⟨s.buckets, [], completed, s.table⟩ (runActions host s ops) =
        some ⟨(s.run host ops).buckets, [], completed', (s.run host ops).table⟩ := by
  induction ops generalizing s completed with
  | nil => exact ⟨completed, rfl⟩
  | cons op ops ih =>
    obtain ⟨middle, hop⟩ := run_opActions host s completed op
    obtain ⟨completed', hops⟩ := ih (s.step host op) middle
    refine ⟨completed', ?_⟩
    rw [runActions, Library.run_append, hop]
    exact hops

/-! ## As a ledger of pairs -/

/-- An operation as the ledger sees it. -/
def ledgerOp (host : Host) : Op → LedgerOp (String × MinuteWindow)
  | .record envelope => .record (pairOf host envelope)
  | .flush => .flush

/-- The store holds, per pair of an ad and a window, what the ledger holds. -/
structure Represents (s : Store) (l : Ledger (String × MinuteWindow)) : Prop where
  keyed : WellKeyed s.buckets
  rows : ∀ key, tableCount s.table key ≠ none → ∃ adId window, key = rowKey adId window
  pending : ∀ adId window, s.buckets.count (windowKey adId window) = l.pending (adId, window)
  stored : ∀ adId window, tableCount s.table (rowKey adId window) = l.stored (adId, window)

theorem represents_empty : Represents .empty .start where
  keyed := wellKeyed_empty
  rows := fun _ h => absurd rfl h
  pending := fun _ _ => rfl
  stored := fun _ _ => rfl

/-- One record bumps the bucket of a pair exactly when it bumps the pair. -/
theorem count_keyOf_windowKey (host : Host) (click : ClickEnvelope) (adId : String)
    (window : MinuteWindow) :
    (keyOf host click).toList.count (windowKey adId window) =
      (pairOf host click).toList.count (adId, window) := by
  rw [← keyCount_single, keyCount_windowKey, pairCount_single]

theorem represents_step {host : Host} {s : Store} {l : Ledger (String × MinuteWindow)}
    (h : Represents s l) {op : Op} (hbar : ∀ click ∈ op.click?, '|' ∉ click.adId.toList) :
    Represents (s.step host op) (l.step (ledgerOp host op)) := by
  cases op with
  | record envelope =>
    refine ⟨wellKeyed_afterRecord h.keyed (hbar envelope rfl), h.rows, ?_, h.stored⟩
    intro adId window
    show (afterRecord host envelope s.buckets).count _ = l.pending _ + _
    rw [afterRecord_eq, InsertionMap.count_tally, count_keyOf_windowKey, h.pending]
  | flush =>
    constructor
    · show WellKeyed s.flush.buckets
      rw [Store.flush_buckets]
      exact wellKeyed_empty
    · intro key hkey
      rw [Store.step, Store.flush_table] at hkey
      rcases tableCount_append_flushRows_ne_none h.keyed hkey with hold | hnew
      · exact h.rows key hold
      · exact hnew
    · intro adId window
      rw [Store.step, Store.flush_buckets]
      rfl
    · intro adId window
      -- the flush replaces the row of a pair exactly when the pair has pending clicks
      rw [Store.step, Store.flush_table, tableCount_append_flushRows h.keyed, h.pending, h.stored]
      rfl

theorem represents_run (host : Host) {s : Store} {l : Ledger (String × MinuteWindow)}
    (h : Represents s l) {ops : List Op}
    (hbar : ∀ click ∈ recorded ops, '|' ∉ click.adId.toList) :
    Represents (s.run host ops) (l.run (ops.map (ledgerOp host))) := by
  induction ops generalizing s l with
  | nil => exact h
  | cons op ops ih =>
    apply ih (represents_step h ?_)
    · intro click hclick
      obtain ⟨op', hop', hc⟩ := List.mem_filterMap.1 hclick
      exact hbar click (List.mem_filterMap.2 ⟨op', List.mem_cons_of_mem op hop', hc⟩)
    · intro click hclick
      exact hbar click (List.mem_filterMap.2 ⟨op, List.mem_cons_self, hclick⟩)

/-- The ledger's total of a pair is its number of clicks. -/
theorem total_ledgerOps (host : Host) (ops : List Op) (adId : String) (window : MinuteWindow) :
    total (ops.map (ledgerOp host)) (adId, window) =
      pairCount host (recorded ops) adId window := by
  induction ops with
  | nil => rfl
  | cons op ops ih =>
    rw [List.map_cons, ← List.singleton_append, total_append, ih]
    cases op with
    | flush => exact Nat.zero_add _
    | record envelope =>
      have hcons : recorded (.record envelope :: ops) = [envelope] ++ recorded ops := rfl
      rw [hcons, pairCount_append, pairCount_single, ledgerOp, total_record]

/-! ## When the table is right -/

/-- The collapsed table holds of every recorded pair its number of clicks, and nothing else. -/
structure StoredIsTrue (host : Host) (clicks : List ClickEnvelope) (table : List Row) : Prop where
  recorded : ∀ adId window, 0 < pairCount host clicks adId window →
    tableCount table (rowKey adId window) = some (pairCount host clicks adId window)
  nothingElse : ∀ key, tableCount table key ≠ none →
    ∃ adId window, key = rowKey adId window ∧ 0 < pairCount host clicks adId window

/-- No flush falls between two clicks of one pair. -/
def NoWindowSplit (host : Host) (ops : List Op) : Prop :=
  ∀ pre post, ops = pre ++ .flush :: post → ∀ adId window,
    pairCount host (recorded pre) adId window = 0 ∨ pairCount host (recorded post) adId window = 0

theorem split_ledgerOps {host : Host} {ops : List Op} {adId : String} {window : MinuteWindow} :
    Split (ops.map (ledgerOp host)) (adId, window) ↔
      ∃ pre post, ops = pre ++ .flush :: post ∧
        0 < pairCount host (recorded pre) adId window ∧
        0 < pairCount host (recorded post) adId window := by
  constructor
  · rintro ⟨pre, post, hops, hpre, hpost⟩
    obtain ⟨pre', rest, rfl, rfl, hrest⟩ := List.map_eq_append_iff.1 hops
    obtain ⟨op, post', rfl, hop, rfl⟩ := List.map_eq_cons_iff.1 hrest
    rw [total_ledgerOps] at hpre hpost
    cases op with
    | record envelope => cases hop
    | flush => exact ⟨pre', post', rfl, hpre, hpost⟩
  · rintro ⟨pre, post, rfl, hpre, hpost⟩
    refine ⟨pre.map (ledgerOp host), post.map (ledgerOp host), ?_, ?_, ?_⟩
    · rw [List.map_append, List.map_cons]
      rfl
    · rw [total_ledgerOps]
      exact hpre
    · rw [total_ledgerOps]
      exact hpost

theorem noWindowSplit_iff {host : Host} {ops : List Op} :
    NoWindowSplit host ops ↔
      ∀ adId window, ¬ Split (ops.map (ledgerOp host)) (adId, window) := by
  constructor
  · intro h adId window hsplit
    obtain ⟨pre, post, hops, hpre, hpost⟩ := split_ledgerOps.1 hsplit
    rcases h pre post hops adId window with hzero | hzero
    · exact Nat.ne_of_gt hpre hzero
    · exact Nat.ne_of_gt hpost hzero
  · intro h pre post hops adId window
    by_contra hne
    obtain ⟨hpre, hpost⟩ := not_or.1 hne
    apply h adId window
    exact split_ledgerOps.2
      ⟨pre, post, hops, Nat.pos_of_ne_zero hpre, Nat.pos_of_ne_zero hpost⟩

/-- After a last flush the store is the ledger that ran through the same operations. -/
theorem represents_run_flush (host : Host) {ops : List Op}
    (hbar : ∀ click ∈ recorded ops, '|' ∉ click.adId.toList) :
    Represents (Store.empty.run host (ops ++ [.flush]))
      (Ledger.start.run (ops.map (ledgerOp host) ++ [.flush])) := by
  rw [← recorded_snoc_flush ops] at hbar
  have h := represents_run host represents_empty hbar
  rw [List.map_append] at h
  exact h

/-- What the table holds in the end is what the ledger holds. -/
theorem storedIsTrue_iff_ledger {host : Host} {ops : List Op}
    (hbar : ∀ click ∈ recorded ops, '|' ∉ click.adId.toList) :
    StoredIsTrue host (recorded ops) (Store.empty.run host (ops ++ [.flush])).table ↔
      ∀ adId window,
        (Ledger.start.run (ops.map (ledgerOp host) ++ [.flush])).stored (adId, window) =
          if total (ops.map (ledgerOp host)) (adId, window) = 0 then none
          else some (total (ops.map (ledgerOp host)) (adId, window)) := by
  have hrep := represents_run_flush host hbar
  constructor
  · rintro ⟨hrecorded, hnothingElse⟩ adId window
    rw [total_ledgerOps, ← hrep.stored]
    by_cases hzero : pairCount host (recorded ops) adId window = 0
    · -- a row of the pair would be the row of a pair with clicks
      rw [if_pos hzero]
      by_contra hne
      obtain ⟨adId', window', hkey, hpos⟩ := hnothingElse _ hne
      obtain ⟨rfl, rfl⟩ := rowKey_injective hkey
      exact Nat.ne_of_gt hpos hzero
    · rw [if_neg hzero]
      exact hrecorded adId window (Nat.pos_of_ne_zero hzero)
  · intro h
    constructor
    · intro adId window hpos
      have hstored := h adId window
      rw [total_ledgerOps, ← hrep.stored, if_neg (Nat.ne_of_gt hpos)] at hstored
      exact hstored
    · intro key hkey
      obtain ⟨adId, window, rfl⟩ := hrep.rows key hkey
      refine ⟨adId, window, rfl, Nat.pos_of_ne_zero ?_⟩
      intro hzero
      apply hkey
      have hstored := h adId window
      rw [total_ledgerOps, ← hrep.stored, if_pos hzero] at hstored
      exact hstored

theorem storedIsTrue_iff {host : Host} {ops : List Op}
    (hbar : ∀ click ∈ recorded ops, '|' ∉ click.adId.toList) :
    StoredIsTrue host (recorded ops) (Store.empty.run host (ops ++ [.flush])).table ↔
      NoWindowSplit host ops := by
  rw [storedIsTrue_iff_ledger hbar, noWindowSplit_iff]
  constructor
  · intro h adId window
    exact (stored_eq_total_iff _ _).1 (h adId window)
  · intro h adId window
    exact (stored_eq_total_iff _ _).2 (h adId window)

/-- A true table is determined by the clicks, in whatever order they came. -/
theorem StoredIsTrue.unique {host : Host} {clicks clicks' : List ClickEnvelope}
    {table table' : List Row} (h : StoredIsTrue host clicks table)
    (h' : StoredIsTrue host clicks' table') (hperm : clicks.Perm clicks') (key : String × String) :
    tableCount table key = tableCount table' key := by
  have hcount : ∀ adId window,
      pairCount host clicks adId window = pairCount host clicks' adId window := by
    intro adId window
    exact (hperm.filterMap (pairOf host)).count_eq (adId, window)
  -- a key is that of a pair with clicks, or no table has it
  by_cases hkey : ∃ adId window, key = rowKey adId window ∧ 0 < pairCount host clicks adId window
  · obtain ⟨adId, window, rfl, hpos⟩ := hkey
    rw [h.recorded adId window hpos, hcount, h'.recorded adId window (hcount adId window ▸ hpos)]
  · have hnone : tableCount table key = none := by
      by_contra hne
      exact hkey (h.nothingElse key hne)
    have hnone' : tableCount table' key = none := by
      by_contra hne
      obtain ⟨adId, window, rfl, hpos⟩ := h'.nothingElse key hne
      exact hkey ⟨adId, window, rfl, (hcount adId window).symm ▸ hpos⟩
    rw [hnone, hnone']

/-- The minute of the two clicks. -/
def raceWindow : MinuteWindow := ⟨⟨1781258700000, by decide, by decide⟩, by decide⟩

/-- One click of a window, a flush, another click of it: the last flush replaces the first count. -/
def splitOps : List Op := [.record (raceClick "c-1"), .flush, .record (raceClick "c-2")]

/-- Two clicks of one window around a flush are stored as one. -/
theorem flush_inside_window_is_wrong :
    ¬ StoredIsTrue utcHost (recorded splitOps)
      (Store.empty.run utcHost (splitOps ++ [.flush])).table := by
  intro h
  have hstored := h.recorded "ad-1" raceWindow (by decide)
  revert hstored
  decide

/-- The collapsed table is the true aggregate exactly when no flush falls between two clicks of one
pair; two runs of the same clicks for which that holds end in the same table. -/
theorem storedIsTrue_iff_noWindowSplit (host : Host) (ops : List Op)
    (hbar : ∀ click ∈ recorded ops, '|' ∉ click.adId.toList) :
    (StoredIsTrue host (recorded ops) (Store.empty.run host (ops ++ [.flush])).table ↔
      NoWindowSplit host ops) ∧
    (NoWindowSplit host ops → ∀ ops', (recorded ops).Perm (recorded ops') →
      NoWindowSplit host ops' → ∀ key,
        tableCount (Store.empty.run host (ops ++ [.flush])).table key =
          tableCount (Store.empty.run host (ops' ++ [.flush])).table key) := by
  refine ⟨storedIsTrue_iff hbar, ?_⟩
  intro hsplit ops' hperm hsplit' key
  have hbar' : ∀ click ∈ recorded ops', '|' ∉ click.adId.toList := by
    intro click hclick
    exact hbar click (hperm.mem_iff.2 hclick)
  exact ((storedIsTrue_iff hbar).2 hsplit).unique ((storedIsTrue_iff hbar').2 hsplit') hperm key

/-- A flush between the clicks of two different minutes. -/
def minuteOps : List Op :=
  [.record (raceClick "c-1"), .flush, .record ⟨"c-2", "ad-1", "2026-06-12T10:06:00.000Z"⟩]

/-- The same two clicks with no flush in between. -/
def minuteOps' : List Op :=
  [.record (raceClick "c-1"), .record ⟨"c-2", "ad-1", "2026-06-12T10:06:00.000Z"⟩]

theorem noWindowSplit_minuteOps : NoWindowSplit utcHost minuteOps := by
  intro pre post hops adId window
  -- the only flush is the second of the three operations
  rcases pre with - | ⟨a, - | ⟨b, - | ⟨c, pre⟩⟩⟩
  · cases hops
  · cases hops
    rw [show recorded [.record (raceClick "c-1")] = [raceClick "c-1"] from rfl, pairCount_single]
    by_cases h : (adId, window) = ("ad-1", raceWindow)
    · cases h
      exact Or.inr (by decide)
    · refine Or.inl (List.count_eq_zero.2 ?_)
      intro hmem
      exact h (List.mem_singleton.1 hmem)
  · cases hops
  · have hlen := congrArg List.length hops
    simp [minuteOps] at hlen

theorem noWindowSplit_minuteOps' : NoWindowSplit utcHost minuteOps' := by
  intro pre post hops
  have hmem : Op.flush ∈ minuteOps' := by
    rw [hops]
    simp
  simp [minuteOps'] at hmem

/-- Both schedules store the true counts, and the same table. -/
theorem storedIsTrue_of_minuteOps :
    StoredIsTrue utcHost (recorded minuteOps)
      (Store.empty.run utcHost (minuteOps ++ [.flush])).table ∧
    ∀ key, tableCount (Store.empty.run utcHost (minuteOps ++ [.flush])).table key =
      tableCount (Store.empty.run utcHost (minuteOps' ++ [.flush])).table key := by
  have h := storedIsTrue_iff_noWindowSplit utcHost minuteOps (by decide)
  exact ⟨h.1.2 noWindowSplit_minuteOps,
    h.2 noWindowSplit_minuteOps minuteOps' (List.Perm.refl _) noWindowSplit_minuteOps'⟩

end AdClick.Window
