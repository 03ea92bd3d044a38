import AdClick.Window.CheckedFlush

/-!
# Isolation of an ad

The share of an ad is the part of the buckets whose keys split back to its ad id and the part of
the table with its ad id (`Store.only`). A click of another ad is harmless when its key does not
split back to the ad, and its window fragment is a date and time for the table (`Harmless`). Next to
harmless clicks the share of an ad develops as in a service that is given the clicks of this ad
alone (`only_run`), so it cannot tell which clicks of other ads there were.

The ad id in a key is not escaped, so a click need not be harmless: the ad id `ad-1|x` puts `x` in
the place of the window, for which every batch is rejected. An ad whose id has no `|` is isolated
exactly when all clicks of other ads are harmless (`isolated_iff_harmless`), and ad ids without a
`|` always are, up to the year 9999 (`harmless_of_noBar`).
-/

set_option autoImplicit false

namespace AdClick.Window

open AdClick.Library AdClick.Ecma AdClick.Library.Gregorian

/-! ## The share of an ad -/

/-- The key splits back to the ad. -/
def splitsTo (adId key : String) : Bool := keyAdId key = adId

/-- The part of the buckets whose keys split back to the ad, and its part of the table. -/
def Store.only (adId : String) (s : Store) : Store :=
  ⟨s.buckets.restrict (splitsTo adId), s.table.filter fun row => row.adId = adId⟩

/-- A flush concerns every ad, a click its own. -/
def Op.concerns (adId : String) : Op → Bool
  | .record click => click.adId = adId
  | .flush => true

/-- The flushes and the clicks of the ad. -/
def onlyOps (adId : String) (ops : List Op) : List Op := ops.filter (Op.concerns adId)

/-- A click of another ad that goes to no entry of the ad, and whose row ClickHouse accepts. -/
def Harmless (host : Host) (adId : String) (click : ClickEnvelope) : Prop :=
  ∀ key, keyOf host click = some key →
    keyAdId key ≠ adId ∧ isDateTime (toClickHouseDateTime (keyWindowStart key)) = true

/-- Every bucket that is not of the ad has a row that ClickHouse accepts. -/
def ForeignDated (adId : String) (buckets : Buckets) : Prop :=
  ∀ key n, buckets.get? key = some n → keyAdId key ≠ adId →
    isDateTime (toClickHouseDateTime (keyWindowStart key)) = true

theorem foreignDated_empty (adId : String) : ForeignDated adId .empty := by
  intro key n h
  cases h

theorem snapshot_restrict (adId : String) (buckets : Buckets) :
    snapshot (buckets.restrict (splitsTo adId)) =
      (snapshot buckets).filter fun row => row.adId = adId := by
  rw [snapshot, snapshot, List.filter_map]
  rfl

theorem flushRows_restrict (adId : String) (buckets : Buckets) :
    flushRows (buckets.restrict (splitsTo adId)) =
      (flushRows buckets).filter fun row => row.adId = adId := by
  rw [flushRows, flushRows, List.filter_map]
  rfl

/-- Whether a batch is accepted is up to the rows of the ad. -/
theorem accepted_restrict {adId : String} {buckets : Buckets} (h : ForeignDated adId buckets) :
    accepted (flushRows (buckets.restrict (splitsTo adId))) =
      accepted (flushRows buckets) := by
  rw [flushRows_restrict, Bool.eq_iff_iff, accepted, accepted, List.all_eq_true, List.all_eq_true]
  constructor
  · intro hall row hrow
    by_cases hown : row.adId = adId
    · exact hall row (List.mem_filter.2 ⟨hrow, decide_eq_true hown⟩)
    · obtain ⟨⟨key, n⟩, hmem, rfl⟩ := List.mem_map.1 hrow
      exact h key n ((InsertionMap.mem_entries_iff buckets key n).1 hmem) hown
  · intro hall row hrow
    exact hall row (List.mem_filter.1 hrow).1

theorem only_flushChecked {adId : String} {s : Store} (h : ForeignDated adId s.buckets) :
    s.flushChecked.only adId = (s.only adId).flushChecked := by
  have haccepted : accepted (flushRows (s.only adId).buckets) = accepted (flushRows s.buckets) :=
    accepted_restrict h
  rw [Store.flushChecked_eq, Store.flushChecked_eq, haccepted]
  split
  · -- the rows of the ad come to the end of its table
    show Store.mk _ ((s.table ++ flushRows s.buckets).filter _) = _
    rw [List.filter_append, ← flushRows_restrict]
    rfl
  · rfl

theorem afterRecord_of_keyOf {host : Host} {click : ClickEnvelope} {buckets : Buckets}
    {key : String} (h : keyOf host click = some key) :
    afterRecord host click buckets = buckets.increment key := by
  rw [afterRecord_eq, h]
  rfl

theorem afterRecord_of_invalid {host : Host} {click : ClickEnvelope} {buckets : Buckets}
    (h : keyOf host click = none) : afterRecord host click buckets = buckets := by
  rw [afterRecord_eq, h]
  rfl

/-- The key of a click of an ad without `|` splits back to the ad. -/
theorem keyAdId_of_keyOf {host : Host} {click : ClickEnvelope} {key : String}
    (hbar : '|' ∉ click.adId.toList) (h : keyOf host click = some key) :
    keyAdId key = click.adId := by
  obtain ⟨window, -, rfl⟩ := Option.map_eq_some_iff.1 h
  exact keyAdId_windowKey hbar window

/-! ## One operation -/

section Steps

variable {host : Host} {adId : String} {s : Store}

/-- A click of the ad shows in its share. -/
theorem only_record_own (hbar : '|' ∉ adId.toList) {click : ClickEnvelope}
    (hown : click.adId = adId) :
    (s.stepChecked host (.record click)).only adId =
      (s.only adId).stepChecked host (.record click) := by
  subst hown
  show Store.mk ((afterRecord host click s.buckets).restrict (splitsTo click.adId)) _ =
    Store.mk (afterRecord host click (s.buckets.restrict (splitsTo click.adId))) _
  cases hkey : keyOf host click with
  | none =>
    rw [afterRecord_of_invalid hkey, afterRecord_of_invalid hkey]
    rfl
  | some key =>
    have hkept : splitsTo click.adId key = true := decide_eq_true (keyAdId_of_keyOf hbar hkey)
    rw [afterRecord_of_keyOf hkey, afterRecord_of_keyOf hkey,
      InsertionMap.restrict_increment_of_pos hkept]
    rfl

/-- A harmless click of another ad does not. -/
theorem only_record_foreign {click : ClickEnvelope} (h : Harmless host adId click) :
    (s.stepChecked host (.record click)).only adId = s.only adId := by
  show Store.mk ((afterRecord host click s.buckets).restrict (splitsTo adId)) _ = _
  cases hkey : keyOf host click with
  | none =>
    rw [afterRecord_of_invalid hkey]
    rfl
  | some key =>
    rw [afterRecord_of_keyOf hkey, InsertionMap.restrict_increment_of_neg]
    · rfl
    · simpa [splitsTo] using (h key hkey).1

theorem foreignDated_stepChecked (hbar : '|' ∉ adId.toList) (h : ForeignDated adId s.buckets)
    {op : Op} (hop : ∀ click ∈ op.click?, click.adId ≠ adId → Harmless host adId click) :
    ForeignDated adId (s.stepChecked host op).buckets := by
  cases op with
  | record click =>
    show ForeignDated adId (afterRecord host click s.buckets)
    cases hkey : keyOf host click with
    | none =>
      rw [afterRecord_of_invalid hkey]
      exact h
    | some key =>
      rw [afterRecord_of_keyOf hkey]
      intro key' n hget hforeign
      rw [InsertionMap.get?_increment] at hget
      split at hget
      · -- the bucket of the click, which is of the ad or harmless
        rename_i heq
        subst heq
        have hne : click.adId ≠ adId := by
          rintro rfl
          exact hforeign (keyAdId_of_keyOf hbar hkey)
        exact (hop click rfl hne _ hkey).2
      · exact h key' n hget hforeign
  | flush =>
    show ForeignDated adId s.flushChecked.buckets
    rw [Store.flushChecked_eq]
    split
    · exact foreignDated_empty adId
    · exact h

end Steps

/-! ## Whole runs -/

section Runs

variable {host : Host} {adId : String}

/-- Next to harmless clicks the share of an ad develops as if there were none. -/
theorem only_run (hbar : '|' ∉ adId.toList) {ops : List Op}
    (hops : ∀ click ∈ recorded ops, click.adId ≠ adId → Harmless host adId click) :
    ∀ {s : Store}, ForeignDated adId s.buckets →
      (s.runChecked host ops).only adId = (s.only adId).runChecked host (onlyOps adId ops) := by
  induction ops with
  | nil =>
    intro s _
    rfl
  | cons op ops ih =>
    intro s hdated
    have hop : ∀ click ∈ op.click?, click.adId ≠ adId → Harmless host adId click := by
      intro click hclick
      exact hops click (List.mem_filterMap.2 ⟨op, List.mem_cons_self, hclick⟩)
    have hrest : ∀ click ∈ recorded ops, click.adId ≠ adId → Harmless host adId click := by
      intro click hclick
      obtain ⟨other, hmem, hother⟩ := List.mem_filterMap.1 hclick
      exact hops click (List.mem_filterMap.2 ⟨other, List.mem_cons_of_mem op hmem, hother⟩)
    have hrun := ih hrest (foreignDated_stepChecked hbar hdated hop)
    show ((s.stepChecked host op).runChecked host ops).only adId = _
    rw [hrun]
    cases op with
    | flush =>
      show ((s.flushChecked).only adId).runChecked host _ = _
      rw [only_flushChecked hdated]
      rfl
    | record click =>
      by_cases hown : click.adId = adId
      · have hkeep : onlyOps adId (.record click :: ops) = .record click :: onlyOps adId ops :=
          List.filter_cons_of_pos (decide_eq_true hown)
        rw [only_record_own hbar hown, hkeep]
        rfl
      · have hdrop : onlyOps adId (.record click :: ops) = onlyOps adId ops :=
          List.filter_cons_of_neg (by simpa [Op.concerns] using hown)
        rw [only_record_foreign (hop click rfl hown), hdrop]

/-- An ad id with a `|` has no share: no key splits back to it. -/
theorem only_of_bar (hbar : '|' ∈ adId.toList) (s : Store) :
    s.only adId = ⟨.empty, s.table.filter fun row => row.adId = adId⟩ := by
  have hnone : ∀ key, splitsTo adId key = false := by
    intro key
    apply decide_eq_false
    rintro rfl
    exact bar_not_mem_keyAdId key hbar
  have hempty : s.buckets.restrict (splitsTo adId) = .empty := by
    apply InsertionMap.ext
    simp [InsertionMap.restrict, hnone]
  rw [Store.only, hempty]

theorem only_run_of_bar (hbar : '|' ∈ adId.toList) (ops : List Op) :
    ∀ s : Store, (s.runChecked host ops).only adId = s.only adId := by
  induction ops with
  | nil => exact fun _ => rfl
  | cons op ops ih =>
    intro s
    show ((s.stepChecked host op).runChecked host ops).only adId = _
    rw [ih, only_of_bar hbar, only_of_bar hbar]
    cases op with
    | record click => rfl
    | flush =>
      show Store.mk _ (s.flushChecked.table.filter _) = _
      rw [Store.flushChecked_eq]
      split
      · -- no row of the flush is of the ad
        have hrows : (flushRows s.buckets).filter (fun row => row.adId = adId) = [] := by
          rw [← flushRows_restrict]
          have honly := congrArg Store.buckets (only_of_bar hbar s)
          exact congrArg flushRows honly
        rw [List.filter_append, hrows, List.append_nil]
      · rfl

end Runs

/-! ## Two runs -/

/-- The event time of a click. -/
def Op.eventTime? : Op → Option String
  | .record click => some click.eventTime
  | .flush => none

/-- The clicks of the ad have the same event times, at the same places between the flushes. -/
def Agree (adId : String) (ops ops' : List Op) : Prop :=
  (onlyOps adId ops).map Op.eventTime? = (onlyOps adId ops').map Op.eventTime?

/-- The snapshot has the same entries for the ad, and the collapsed table the same rows. -/
structure SameShare (adId : String) (s t : Store) : Prop where
  entries : (snapshot s.buckets).filter (fun row => row.adId = adId) =
    (snapshot t.buckets).filter (fun row => row.adId = adId)
  stored : ∀ windowStart, tableCount s.table (adId, windowStart) =
    tableCount t.table (adId, windowStart)

theorem tableCount_only (adId : String) (s : Store) (windowStart : String) :
    tableCount (s.only adId).table (adId, windowStart) =
      tableCount s.table (adId, windowStart) := by
  rw [tableCount, tableCount, Store.only, collapse_filter]
  intro row hrow
  exact decide_eq_true (Prod.mk.inj hrow).1

theorem sameShare_of_only {adId : String} {s t : Store} (h : s.only adId = t.only adId) :
    SameShare adId s t := by
  constructor
  · have hbuckets := congrArg Store.buckets h
    rw [← snapshot_restrict, ← snapshot_restrict]
    exact congrArg snapshot hbuckets
  · intro windowStart
    rw [← tableCount_only, h, tableCount_only]

/-- Nothing but the ad and the event time of a click matters. -/
theorem stepChecked_congr {host : Host} {adId : String} {op op' : Op}
    (hop : op.concerns adId = true) (hop' : op'.concerns adId = true)
    (htime : op.eventTime? = op'.eventTime?) (s : Store) :
    s.stepChecked host op = s.stepChecked host op' := by
  cases op with
  | flush =>
    cases op' with
    | flush => rfl
    | record click' => cases htime
  | record click =>
    cases op' with
    | flush => cases htime
    | record click' =>
      have had : click.adId = click'.adId :=
        (of_decide_eq_true hop).trans (of_decide_eq_true hop').symm
      have hkey : keyOf host click = keyOf host click' := by
        rw [keyOf, keyOf, windowOf, windowOf, had, Option.some.inj htime]
      show Store.mk (afterRecord host click s.buckets) _ = Store.mk (afterRecord host click' _) _
      rw [afterRecord_eq, afterRecord_eq, hkey]

theorem runChecked_congr {host : Host} (adId : String) {ops : List Op} :
    ∀ {ops' : List Op} {s : Store}, (∀ op ∈ ops, op.concerns adId = true) →
      (∀ op ∈ ops', op.concerns adId = true) →
      ops.map Op.eventTime? = ops'.map Op.eventTime? →
      s.runChecked host ops = s.runChecked host ops' := by
  induction ops with
  | nil =>
    intro ops' s _ _ hmap
    rw [List.map_eq_nil_iff.1 hmap.symm]
  | cons op ops ih =>
    intro ops' s hops hops' hmap
    cases ops' with
    | nil => cases hmap
    | cons op' ops' =>
      obtain ⟨htime, hrest⟩ := List.cons.inj hmap
      show (s.stepChecked host op).runChecked host ops = (s.stepChecked host op').runChecked host _
      rw [stepChecked_congr (hops op List.mem_cons_self) (hops' op' List.mem_cons_self) htime]
      exact ih (fun o ho => hops o (List.mem_cons_of_mem op ho))
        (fun o ho => hops' o (List.mem_cons_of_mem op' ho)) hrest

/-- Runs that agree on an ad leave the same share, when the clicks of other ads are harmless. -/
theorem only_run_of_agree {host : Host} {adId : String} (hbar : '|' ∉ adId.toList)
    {ops ops' : List Op} (hagree : Agree adId ops ops')
    (hops : ∀ click ∈ recorded ops, click.adId ≠ adId → Harmless host adId click)
    (hops' : ∀ click ∈ recorded ops', click.adId ≠ adId → Harmless host adId click)
    {s : Store} (hdated : ForeignDated adId s.buckets) :
    (s.runChecked host ops).only adId = (s.runChecked host ops').only adId := by
  rw [only_run hbar hops hdated, only_run hbar hops' hdated]
  apply runChecked_congr adId _ _ hagree
  · intro op hop
    exact (List.mem_filter.1 hop).2
  · intro op hop
    exact (List.mem_filter.1 hop).2

/-- The event time is a timestamp as the server generates it. -/
def Stamped (click : ClickEnvelope) : Prop := ∃ t : TimeValue, click.eventTime = isoString t

/-- Two runs that agree on the ad, and whose clicks of other ads are some of `Others`. -/
structure Twins (adId : String) (Others : ClickEnvelope → Prop) (ops ops' : List Op) : Prop where
  stamped : ∀ click ∈ recorded ops ++ recorded ops', click.adId = adId → Stamped click
  others : ∀ click ∈ recorded ops ++ recorded ops', click.adId ≠ adId → Others click
  agree : Agree adId ops ops'

/-- Clicks of other ads among `Others` make no difference to the ad. Corresponding prefixes of two
runs that agree on the ad agree on it too, so this holds at every point of two runs. -/
def Isolated (host : Host) (adId : String) (Others : ClickEnvelope → Prop) : Prop :=
  ∀ table ops ops', Twins adId Others ops ops' →
    SameShare adId (Store.runChecked host ⟨.empty, table⟩ ops)
      (Store.runChecked host ⟨.empty, table⟩ ops')

/-! ## Harmless clicks -/

/-- A click of another ad, with an ad id without `|` and a timestamp up to the year 9999, is
harmless. -/
theorem harmless_of_noBar {host : Host} {adId : String} {click : ClickEnvelope} {t : TimeValue}
    (hne : click.adId ≠ adId) (hbar : '|' ∉ click.adId.toList)
    (htime : click.eventTime = isoString t) (hlo : 0 ≤ (civilOfDay (dayFromTime t.ms)).year)
    (hhi : (civilOfDay (dayFromTime t.ms)).year ≤ 9999) : Harmless host adId click := by
  intro key hkey
  have hsame : dayFromTime t.window.start.ms = dayFromTime t.ms := t.dayFromTime_floorMinute
  have hkeyOf : keyOf host click = some (windowKey click.adId t.window) := by
    rw [keyOf, windowOf, htime, Host.newDate_isoString]
    rfl
  cases hkeyOf.symm.trans hkey
  rw [keyAdId_windowKey hbar, keyWindowStart_windowKey hbar]
  refine ⟨hne, isDateTime_of_year ?_ ?_⟩
  · rw [hsame]
    exact hlo
  · rw [hsame]
    exact hhi

/-! ## The condition is necessary -/

theorem neg_maxTime_le_zero : -maxTime ≤ 0 := by decide

theorem zero_le_maxTime : 0 ≤ maxTime := by decide

def epoch : TimeValue := ⟨0, neg_maxTime_le_zero, zero_le_maxTime⟩

/-- A click of an ad at the start of 1970. -/
def epochClick (adId : String) : ClickEnvelope := ⟨"c-0", adId, isoString epoch⟩

theorem keyOf_epochClick (host : Host) (adId : String) :
    keyOf host (epochClick adId) = some (windowKey adId epoch.window) := by
  rw [keyOf, windowOf, epochClick, Host.newDate_isoString]
  rfl

/-- A flush of the click alone stores it. -/
theorem tableCount_epochClick (host : Host) {adId : String} (hbar : '|' ∉ adId.toList) :
    tableCount (Store.empty.runChecked host [.record (epochClick adId), .flush]).table
      (rowKey adId epoch.window) = some 1 := by
  have hdate : isDateTime (toClickHouseDateTime (isoString epoch.window.start)) = true :=
    isDateTime_of_year (by decide) (by decide)
  have hrows : flushRows (afterRecord host (epochClick adId) .empty) =
      [⟨adId, toClickHouseDateTime (isoString epoch.window.start), 1⟩] := by
    rw [afterRecord_of_keyOf (keyOf_epochClick host adId), ← rowOf_windowKey hbar]
    rfl
  show tableCount (Store.flushChecked ⟨afterRecord host (epochClick adId) .empty, []⟩).table _ = _
  rw [Store.flushChecked_eq, hrows, accepted, List.all_cons, hdate]
  simp [tableCount, collapse, Row.key, rowKey]

/-- One bucket without a date and time is enough for a batch to be rejected. -/
theorem accepted_eq_false {buckets : Buckets} {key : String} {n : Nat}
    (hget : buckets.get? key = some n)
    (hdate : isDateTime (toClickHouseDateTime (keyWindowStart key)) = false) :
    accepted (flushRows buckets) = false := by
  rw [accepted, List.all_eq_false]
  refine ⟨rowOf (key, n), List.mem_map_of_mem ?_, ?_⟩
  · exact (InsertionMap.mem_entries_iff buckets key n).2 hget
  · show ¬ isDateTime (toClickHouseDateTime (keyWindowStart key)) = true
    rw [hdate]
    decide

/-- After a click whose row is rejected, nothing is stored. -/
theorem tableCount_rejected (host : Host) (adId : String) {click : ClickEnvelope} {key : String}
    (hkey : keyOf host click = some key)
    (hdate : isDateTime (toClickHouseDateTime (keyWindowStart key)) = false) :
    tableCount
      (Store.empty.runChecked host [.record (epochClick adId), .record click, .flush]).table
      (rowKey adId epoch.window) = none := by
  have hrejected :
      accepted (flushRows (afterRecord host click (afterRecord host (epochClick adId) .empty))) =
        false := by
    rw [afterRecord_of_keyOf hkey]
    exact accepted_eq_false ((InsertionMap.get?_increment _ key key).trans (if_pos rfl)) hdate
  show tableCount (Store.flushChecked
    ⟨afterRecord host click (afterRecord host (epochClick adId) .empty), []⟩).table _ = _
  rw [Store.flushChecked_eq, hrejected]
  rfl

section Isolated

variable {host : Host} {adId : String} {Others : ClickEnvelope → Prop}
  (h : Isolated host adId Others) {click : ClickEnvelope} (hclick : Others click)
  (hne : click.adId ≠ adId) {key : String} (hkey : keyOf host click = some key)

include h hclick hne hkey

/-- A click whose key splits back to the ad makes an entry for it. -/
theorem keyAdId_ne_of_isolated : keyAdId key ≠ adId := by
  intro hsplit
  have htwins : Twins adId Others [.record click] [] := by
    refine ⟨?_, ?_, ?_⟩
    · intro c hc hown
      rw [List.mem_singleton.1 hc] at hown
      exact absurd hown hne
    · intro c hc _
      rw [List.mem_singleton.1 hc]
      exact hclick
    · simp [Agree, onlyOps, Op.concerns, hne]
  have hentries := (h [] _ _ htwins).entries
  have hsnapshot : snapshot (Store.runChecked host ⟨.empty, []⟩ [.record click]).buckets =
      [⟨keyAdId key, keyWindowStart key, 1⟩] := by
    show snapshot (afterRecord host click .empty) = _
    rw [afterRecord_of_keyOf hkey]
    rfl
  rw [hsnapshot, hsplit] at hentries
  simp [snapshot, Store.runChecked] at hentries

/-- A click whose row is rejected keeps a click of the ad from being stored. -/
theorem isDateTime_of_isolated (hbar : '|' ∉ adId.toList) :
    isDateTime (toClickHouseDateTime (keyWindowStart key)) = true := by
  by_contra hdate
  rw [Bool.not_eq_true] at hdate
  have htwins : Twins adId Others [.record (epochClick adId), .record click, .flush]
      [.record (epochClick adId), .flush] := by
    have hmem : ∀ c ∈ recorded [.record (epochClick adId), .record click, .flush] ++
        recorded [.record (epochClick adId), .flush], c = epochClick adId ∨ c = click := by
      intro c hc
      simp only [recorded, List.filterMap_cons, List.filterMap_nil, Op.click?, List.cons_append,
        List.nil_append, List.mem_cons, List.not_mem_nil, or_false] at hc
      rcases hc with hc | hc | hc
      · exact Or.inl hc
      · exact Or.inr hc
      · exact Or.inl hc
    refine ⟨?_, ?_, ?_⟩
    · intro c hc hown
      rcases hmem c hc with rfl | rfl
      · exact ⟨epoch, rfl⟩
      · exact absurd hown hne
    · intro c hc hforeign
      rcases hmem c hc with rfl | rfl
      · exact absurd rfl hforeign
      · exact hclick
    · simp [Agree, onlyOps, Op.concerns, hne, epochClick, Op.eventTime?]
  have hstored := (h [] _ _ htwins).stored (toClickHouseDateTime (isoString epoch.window.start))
  have hnone := tableCount_rejected host adId hkey hdate
  have hsome := tableCount_epochClick host hbar
  exact absurd ((hnone.symm.trans hstored).trans hsome) (by simp)

end Isolated

/-- An ad is isolated from a collection of clicks of other ads exactly when its id contains a `|`,
so that there never is an entry or a row of it, or all of them are harmless. -/
theorem isolated_iff_harmless (host : Host) (adId : String) (Others : ClickEnvelope → Prop) :
    Isolated host adId Others ↔
      '|' ∈ adId.toList ∨ ∀ click, Others click → click.adId ≠ adId → Harmless host adId click := by
  constructor
  · intro h
    by_cases hbar : '|' ∈ adId.toList
    · exact Or.inl hbar
    · refine Or.inr ?_
      intro click hclick hne key hkey
      exact ⟨keyAdId_ne_of_isolated h hclick hne hkey,
        isDateTime_of_isolated h hclick hne hkey hbar⟩
  · intro h table ops ops' htwins
    apply sameShare_of_only
    by_cases hbar : '|' ∈ adId.toList
    · rw [only_run_of_bar hbar, only_run_of_bar hbar]
    · have hharmless := h.resolve_left hbar
      apply only_run_of_agree hbar htwins.agree _ _ (foreignDated_empty adId)
      · intro click hmem hne
        exact hharmless click (htwins.others click (List.mem_append_left _ hmem) hne) hne
      · intro click hmem hne
        exact hharmless click (htwins.others click (List.mem_append_right _ hmem) hne) hne

/-- A click at 34 seconds past 10:05. -/
def clickOf (adId : String) : ClickEnvelope := ⟨"c-1", adId, "2026-06-12T10:05:34.123Z"⟩

def loneRun : List Op := [.record (clickOf "ad-1"), .flush]

def poisonedRun : List Op := [.record (clickOf "ad-1"), .record (clickOf "ad-1|x"), .flush]

/-- The click of `ad-1|x` keeps the click of `ad-1` from being stored. -/
theorem barred_adId_poisons_batch :
    Twins "ad-1" (fun click => click.adId ≠ "" ∧ Stamped click) poisonedRun loneRun ∧
      ¬ SameShare "ad-1" (Store.empty.runChecked utcHost poisonedRun)
        (Store.empty.runChecked utcHost loneRun) := by
  have hstamp : ∀ adId, Stamped (clickOf adId) := by
    intro adId
    exact ⟨⟨1781258734123, by decide, by decide⟩,
      show "2026-06-12T10:05:34.123Z" = isoString _ by decide⟩
  refine ⟨⟨?_, ?_, by rw [Agree]; decide⟩, ?_⟩
  · intro click hmem _
    have hclick : click = clickOf "ad-1" ∨ click = clickOf "ad-1|x" := by
      revert click
      decide
    rcases hclick with rfl | rfl
    · exact hstamp "ad-1"
    · exact hstamp "ad-1|x"
  · intro click hmem hne
    have hclick : click = clickOf "ad-1|x" := by
      revert click
      decide
    rw [hclick]
    exact ⟨by decide, hstamp "ad-1|x"⟩
  · intro h
    exact absurd (h.stored "2026-06-12 10:05:00") (by decide)

end AdClick.Window
