import AdClick.Window.StoredAggregate

/-!
# Failed and ambiguous inserts

A flush whose insert fails leaves the buckets as they are, so while no insert succeeds the buckets
are the full count of the clicks (`recordAll_of_no_success`), whatever batches ClickHouse has
applied before it reported a failure. The row that the first successful flush inserts for a pair
then carries the count of the whole run and replaces every row that an ambiguous failure left behind
(`retry_is_exact`).
-/

set_option autoImplicit false

namespace AdClick.Window

open AdClick.Library AdClick.Ecma

/-- No insert reports success. -/
def NoSuccess (acts : List Action) : Prop := ∀ i, .insertSuccess i ∉ acts

theorem NoSuccess.of_append {as bs : List Action} (h : NoSuccess (as ++ bs)) :
    NoSuccess as ∧ NoSuccess bs := by
  constructor
  · intro i hi
    exact h i (List.mem_append_left bs hi)
  · intro i hi
    exact h i (List.mem_append_right as hi)

theorem recordAll_append (host : Host) (cs ds : List ClickEnvelope) (buckets : Buckets) :
    recordAll host (cs ++ ds) buckets = recordAll host ds (recordAll host cs buckets) :=
  List.foldl_append

/-! ## While no insert succeeds -/

/-- Without a success the buckets change by the records only. -/
theorem step_buckets_of_no_success {host : Host} {s t : System} {a : Action}
    (hstep : Step host s a t) (ha : ∀ i, a ≠ .insertSuccess i) :
    t.buckets = recordAll host a.click?.toList s.buckets := by
  cases hstep with
  | record envelope => exact (afterRecord_eq host envelope s.buckets).symm
  | flushIdle => rfl
  | flushStart => rfl
  | serverApply i batch => rfl
  | insertSuccess i insert => exact absurd rfl (ha i)
  | insertFailure i insert => rfl

theorem recordAll_of_no_success {host : Host} {acts : List Action} {s t : System}
    (hrun : run (step host) s acts = some t) (hfail : NoSuccess acts) :
    t.buckets = recordAll host (clicksOf acts) s.buckets := by
  induction acts generalizing s with
  | nil =>
    cases hrun
    rfl
  | cons a acts ih =>
    obtain ⟨u, hu, hrest⟩ := Option.bind_eq_some_iff.1 hrun
    have hsplit : NoSuccess ([a] ++ acts) := hfail
    obtain ⟨hhead, htail⟩ := hsplit.of_append
    have ha : ∀ i, a ≠ .insertSuccess i := by
      intro i hi
      exact hhead i (List.mem_singleton.2 hi.symm)
    have hstep := step_buckets_of_no_success (step_iff.1 hu) ha
    have hclicks : clicksOf (a :: acts) = a.click?.toList ++ clicksOf acts := by
      rw [clicksOf, List.filterMap_cons]
      cases a.click? <;> rfl
    rw [ih hrest htail, hstep, hclicks, recordAll_append]

/-! ## The last flush -/

/-- A flush that finds nothing to insert, or one whose insert succeeds before any other action of
the service; ClickHouse may apply the insert before it reports. -/
inductive LastFlush (s : System) : List Action → Prop where
  | idle : s.buckets.size = 0 → LastFlush s [.flushStart]
  | success (mid : List Action) (i : Nat) : s.buckets.size ≠ 0 →
      (∀ a ∈ mid, ∃ j, a = .serverApply j) →
      LastFlush s (.flushStart :: (mid ++ [.insertSuccess i]))

/-- The only waiting insert carries `batch`, and the table is `table` with its rows, now or once it
is applied. -/
structure Waiting (batch : Buckets) (table : List Row) (s : System) : Prop where
  only : ∃ insert, s.inFlight = [insert] ∧ insert.batch = batch ∧
    insert.apply s.table = table ++ flushRows batch

theorem waiting_serverApply {host : Host} {batch : Buckets} {table : List Row} {s t : System}
    {i : Nat} (h : Waiting batch table s) (hstep : Step host s (.serverApply i) t) :
    Waiting batch table t := by
  obtain ⟨insert, hone, hbatch, htable⟩ := h.only
  cases hstep with
  | serverApply _ batch' hi =>
    rw [hone] at hi
    obtain ⟨rfl, rfl⟩ := eq_of_getElem?_singleton hi
    refine ⟨⟨batch', true⟩, ?_, hbatch, ?_⟩
    · show s.inFlight.set 0 _ = _
      rw [hone]
      rfl
    · exact htable

theorem waiting_run {host : Host} {batch : Buckets} {table : List Row} {mid : List Action}
    {s t : System} (h : Waiting batch table s) (hmid : ∀ a ∈ mid, ∃ j, a = .serverApply j)
    (hrun : run (step host) s mid = some t) : Waiting batch table t := by
  induction mid generalizing s with
  | nil =>
    cases hrun
    exact h
  | cons a mid ih =>
    obtain ⟨u, hu, hrest⟩ := Option.bind_eq_some_iff.1 hrun
    obtain ⟨j, rfl⟩ := hmid a List.mem_cons_self
    apply ih (waiting_serverApply h (step_iff.1 hu)) _ hrest
    intro b hb
    exact hmid b (List.mem_cons_of_mem _ hb)

/-- The last flush appends the rows of the buckets and clears them. -/
theorem lastFlush_run {host : Host} {last : List Action} {s t : System} (hlast : LastFlush s last)
    (hidle : s.inFlight = []) (hrun : run (step host) s last = some t) :
    t.buckets = .empty ∧ t.table = s.table ++ flushRows s.buckets := by
  cases hlast with
  | idle hsize =>
    have hempty := InsertionMap.size_eq_zero_iff.1 hsize
    obtain ⟨u, hu, hrest⟩ := Option.bind_eq_some_iff.1 hrun
    cases hrest
    cases step_iff.1 hu with
    | flushIdle =>
      rw [hempty]
      exact ⟨rfl, (List.append_nil s.table).symm⟩
    | flushStart hne => exact absurd hsize hne
  | success mid i hne hmid =>
    obtain ⟨u, hu, hrest⟩ := Option.bind_eq_some_iff.1 hrun
    obtain ⟨v, hv, hsuccess⟩ := run_snoc_some (step host) hrest
    -- the batch of the flush is the only one waiting, until its success
    have hwaiting : Waiting s.buckets s.table u := by
      cases step_iff.1 hu with
      | flushIdle hsize => exact absurd hsize hne
      | flushStart =>
        refine ⟨⟨s.buckets, false⟩, ?_, rfl, rfl⟩
        show s.inFlight ++ _ = _
        rw [hidle]
        rfl
    obtain ⟨insert, hone, hbatch, htable⟩ := (waiting_run hwaiting hmid hv).only
    cases step_iff.1 hsuccess with
    | insertSuccess _ insert' hi =>
      rw [hone] at hi
      obtain ⟨-, rfl⟩ := eq_of_getElem?_singleton hi
      exact ⟨rfl, htable⟩

/-! ## The whole run -/

/-- The clicks of the run for a pair are in the table once the last flush is through. -/
theorem tableCount_lastFlush {host : Host} {table : List Row} {acts last : List Action}
    {s t : System} (hrun : run (step host) (.start table) acts = some s) (hfail : NoSuccess acts)
    (hbar : ∀ click ∈ clicksOf acts, '|' ∉ click.adId.toList) (hlast : LastFlush s last)
    (hidle : s.inFlight = []) (hend : run (step host) s last = some t) (adId : String)
    (window : MinuteWindow) (hpos : 0 < pairCount host (clicksOf acts) adId window) :
    tableCount t.table (rowKey adId window) =
      some (pairCount host (clicksOf acts) adId window) := by
  have hbuckets : s.buckets = recordAll host (clicksOf acts) .empty :=
    recordAll_of_no_success hrun hfail
  -- as nothing has been cleared, the buckets still count the whole run
  have hcount : s.buckets.count (windowKey adId window) =
      pairCount host (clicksOf acts) adId window := by
    rw [hbuckets, count_recordAll, InsertionMap.count_empty, Nat.zero_add]
  have hkeyed : WellKeyed s.buckets := by
    rw [hbuckets]
    exact wellKeyed_recordAll wellKeyed_empty hbar
  rw [(lastFlush_run hlast hidle hend).2, tableCount_append_flushRows hkeyed, hcount,
    if_neg (Nat.ne_of_gt hpos)]

/-- When every flush fails, whatever ClickHouse applied, each leaves the buckets to the records made
meanwhile; one undisturbed success then empties the buckets and stores the exact count of every
pair. -/
theorem retry_is_exact (host : Host) (table : List Row) (acts last : List Action) (s t : System)
    (hrun : run (step host) (.start table) acts = some s) (hfail : NoSuccess acts)
    (halone : EveryStep (step host) StartsAlone (.start table) (acts ++ last))
    (hbar : ∀ click ∈ clicksOf acts, '|' ∉ click.adId.toList) (hlast : LastFlush s last)
    (hend : run (step host) s last = some t) :
    (∀ pre mid post i u v, acts = pre ++ (.flushStart :: (mid ++ [.insertFailure i])) ++ post →
      run (step host) (.start table) pre = some u →
      run (step host) u (.flushStart :: (mid ++ [.insertFailure i])) = some v →
      v.buckets = recordAll host (clicksOf mid) u.buckets) ∧
    t.buckets = .empty ∧
    ∀ adId window, 0 < pairCount host (clicksOf acts) adId window →
      tableCount t.table (rowKey adId window) =
        some (pairCount host (clicksOf acts) adId window) := by
  -- the last flush starts when no other one is waiting
  have hidle : s.inFlight = [] := by
    cases hlast with
    | idle => exact everyStep_snoc halone hrun rfl
    | success mid i =>
      exact halone acts .flushStart (mid ++ [.insertSuccess i]) s rfl hrun rfl
  refine ⟨?_, (lastFlush_run hlast hidle hend).1,
    tableCount_lastFlush hrun hfail hbar hlast hidle hend⟩
  intro pre mid post i u v hsplit hpre hflush
  rw [hsplit] at hfail
  have hclicks : clicksOf (.flushStart :: (mid ++ [.insertFailure i])) = clicksOf mid :=
    (clicksOf_append mid [.insertFailure i]).trans (List.append_nil _)
  rw [recordAll_of_no_success hflush hfail.of_append.1.of_append.2, hclicks]

/-- An ambiguous failure: ClickHouse applies the batch with the first click, a second click lands
meanwhile, and the insert reports failure. -/
def ambiguousRun : List Action :=
  [.record (raceClick "c-1"), .flushStart, .serverApply 0, .record (raceClick "c-2"),
    .insertFailure 0]

theorem startsAlone_ambiguousRun :
    EveryStep (step utcHost) StartsAlone (.start [])
      (ambiguousRun ++ [.flushStart, .insertSuccess 0]) := by
  refine everyStep_cons (fun h => by cases h) fun s hs => ?_
  cases hs
  refine everyStep_cons (fun _ => rfl) fun s hs => ?_
  cases hs
  refine everyStep_cons (fun h => by cases h) fun s hs => ?_
  cases hs
  refine everyStep_cons (fun h => by cases h) fun s hs => ?_
  cases hs
  refine everyStep_cons (fun h => by cases h) fun s hs => ?_
  cases hs
  refine everyStep_cons (fun _ => rfl) fun s hs => ?_
  cases hs
  exact everyStep_cons (fun h => by cases h) fun s _ => everyStep_nil _ s

/-- The retry replaces the row of the ambiguous failure by the count of both clicks. -/
theorem retry_of_ambiguousRun :
    ∃ s t, run (step utcHost) (.start []) ambiguousRun = some s ∧
      run (step utcHost) s [.flushStart, .insertSuccess 0] = some t ∧ t.buckets = .empty ∧
      tableCount t.table (rowKey "ad-1" raceWindow) = some 2 := by
  refine ⟨_, _, rfl, rfl, ?_⟩
  have hfail : NoSuccess ambiguousRun := by
    intro i hi
    simp [ambiguousRun] at hi
  obtain ⟨-, hempty, hstored⟩ := retry_is_exact utcHost [] ambiguousRun
    [.flushStart, .insertSuccess 0] _ _ rfl hfail startsAlone_ambiguousRun (by decide)
    (.success [] 0 (by decide) (by simp)) rfl
  exact ⟨hempty, hstored "ad-1" raceWindow (by decide)⟩

end AdClick.Window
