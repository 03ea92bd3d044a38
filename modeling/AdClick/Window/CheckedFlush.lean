import AdClick.Window.StoredAggregate

/-!
# Flushes before a checking table

ClickHouse rejects a batch as a whole when a window start in it is not of the form
`YYYY-MM-DD HH:MM:SS` (`accepted`), and then the flush keeps its buckets (`Store.flushChecked`). As
in the unchecked case an operation is a run of the transition system (`run_checkedActions`). The
texts that the windows of the years 0 to 9999 have in the table (`toClickHouseDateTime_of_year`) are
of this form (`isDateTime_of_year`).
-/

set_option autoImplicit false

namespace AdClick.Window

open AdClick.Library AdClick.Ecma AdClick.Library.Gregorian

/-- The text has one character per predicate, and each satisfies its predicate. -/
def fits : List (Char → Bool) → List Char → Bool
  | [], [] => true
  | p :: ps, c :: cs => p c && fits ps cs
  | _, _ => false

def digits (n : Nat) : List (Char → Bool) := List.replicate n Char.isDigit

/-- `YYYY-MM-DD HH:MM:SS`. -/
def dateTimeShape : List (Char → Bool) :=
  digits 4 ++ ((· == '-') :: digits 2) ++ ((· == '-') :: digits 2) ++ ((· == ' ') :: digits 2) ++
    ((· == ':') :: digits 2) ++ ((· == ':') :: digits 2)

/-- ClickHouse accepts the text as a window start. -/
def isDateTime (text : String) : Bool := fits dateTimeShape text.toList

/-- A batch is applied as a whole or rejected as a whole. -/
def accepted (rows : List Row) : Bool := rows.all fun row => isDateTime row.windowStart

namespace Store

/-- A flush whose insert is rejected when a window start is no date and time, and succeeds
otherwise, before anything else happens. -/
def flushChecked (s : Store) : Store :=
  match flushBatch s.buckets with
  | none => s
  | some batch =>
    if accepted (flushRows batch) then
      ⟨flushSettled .success s.buckets, s.table ++ flushRows batch⟩
    else ⟨flushSettled .failure s.buckets, s.table⟩

def stepChecked (host : Host) (s : Store) : Op → Store
  | .record envelope => { s with buckets := afterRecord host envelope s.buckets }
  | .flush => s.flushChecked

def runChecked (host : Host) (s : Store) (ops : List Op) : Store := ops.foldl (stepChecked host) s

theorem flushChecked_eq (s : Store) :
    s.flushChecked =
      if accepted (flushRows s.buckets) then ⟨.empty, s.table ++ flushRows s.buckets⟩ else s := by
  unfold flushChecked flushBatch
  by_cases hsize : s.buckets.size = 0
  · -- there is nothing that could be rejected
    have hempty := InsertionMap.size_eq_zero_iff.1 hsize
    have hrows : flushRows s.buckets = [] := by
      rw [hempty]
      rfl
    rw [if_pos hsize, hrows, List.append_nil, ← hempty]
    exact (if_pos rfl).symm
  · rw [if_neg hsize]
    rfl

end Store

/-- The actions of an operation: an insert that is rejected has not been applied. -/
def checkedActions (s : Store) : Op → List Action
  | .record envelope => [.record envelope]
  | .flush =>
    if s.buckets.size = 0 then [.flushStart]
    else if accepted (flushRows s.buckets) then [.flushStart, .insertSuccess 0]
    else [.flushStart, .insertFailure 0]

/-- One operation is a run of the transition system between states in which no insert waits. -/
theorem run_checkedActions (host : Host) (s : Store) (completed : List Buckets) (op : Op) :
    ∃ completed',
      run (step host) ⟨s.buckets, [], completed, s.table⟩ (checkedActions s op) =
        some ⟨(s.stepChecked host op).buckets, [], completed', (s.stepChecked host op).table⟩ := by
  cases op with
  | record envelope => exact ⟨completed, rfl⟩
  | flush =>
    by_cases hsize : s.buckets.size = 0
    · refine ⟨completed, ?_⟩
      simp [checkedActions, run, step, Store.stepChecked, Store.flushChecked, flushBatch, hsize]
    · by_cases haccepted : accepted (flushRows s.buckets) = true
      · refine ⟨completed ++ [s.buckets], ?_⟩
        simp [checkedActions, run, step, Store.stepChecked, Store.flushChecked, flushBatch, hsize,
          haccepted, Insert.apply]
      · refine ⟨completed, ?_⟩
        simp [checkedActions, run, step, Store.stepChecked, Store.flushChecked, flushBatch, hsize,
          haccepted]

/-! ## Texts of windows -/

theorem fits_field (w n : Nat) (ps : List (Char → Bool)) (cs : List Char) :
    fits (digits w ++ ps) (fixedDigits w n ++ cs) = fits ps cs := by
  induction w with
  | zero => rfl
  | succ w ih =>
    have hmem : Nat.digitChar (n / 10 ^ w % 10) ∈ fixedDigits (w + 1) n := List.mem_cons_self
    have hdigit := isDigit_of_mem_fixedDigits hmem
    show (_ && fits (digits w ++ ps) (fixedDigits w n ++ cs)) = _
    rw [hdigit, ih]
    rfl

theorem length_of_fits {ps : List (Char → Bool)} {cs : List Char} (h : fits ps cs = true) :
    cs.length = ps.length := by
  induction ps generalizing cs with
  | nil =>
    cases cs with
    | nil => rfl
    | cons c cs => cases h
  | cons p ps ih =>
    cases cs with
    | nil => cases h
    | cons c cs => exact congrArg Nat.succ (ih (Bool.and_eq_true_iff.1 h).2)

/-- Up to the year 9999 the table gets date, hour and minute of a window, and no seconds. -/
theorem toClickHouseDateTime_of_year {window : MinuteWindow}
    (hlo : 0 ≤ (civilOfDay (dayFromTime window.start.ms)).year)
    (hhi : (civilOfDay (dayFromTime window.start.ms)).year ≤ 9999) :
    (toClickHouseDateTime (isoString window.start)).toList =
      dateChars window.start.ms ++ ' ' :: (clockChars window.start.ms ++ [':', '0', '0']) := by
  have hlen : (dateChars window.start.ms).length = 10 := by
    simp [dateChars_of_year hlo hhi]
  have hclock : (timeChars window.start.ms).take 8 =
      clockChars window.start.ms ++ [':', '0', '0'] := by
    rw [timeChars_of_aligned window.aligned, List.take_append, length_clockChars,
      List.take_of_length_le (by rw [length_clockChars]; decide)]
    rfl
  rw [toClickHouseDateTime_isoString, hlen, hclock]

/-- Up to the year 9999 the text of a window in the table is a date and time. -/
theorem isDateTime_of_year {window : MinuteWindow}
    (hlo : 0 ≤ (civilOfDay (dayFromTime window.start.ms)).year)
    (hhi : (civilOfDay (dayFromTime window.start.ms)).year ≤ 9999) :
    isDateTime (toClickHouseDateTime (isoString window.start)) = true := by
  rw [isDateTime, toClickHouseDateTime_of_year hlo hhi, dateChars_of_year hlo hhi, clockChars]
  -- field by field and separator by separator
  simp only [dateTimeShape, List.append_assoc, List.cons_append, fits_field, fits, beq_self_eq_true,
    Bool.true_and]
  decide

end AdClick.Window
