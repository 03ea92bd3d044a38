import AdClick.Counter.RecordValue
import AdClick.Library.Runs
import Mathlib.Data.Finset.Card

/-!
# The consume loops of the C# and the Go service

A loop hands one value after the other to `record`. Every call of `record` that returns adds one to
the ids seen and the duplicates together, so a malformed value goes unnoticed only if it is not
recorded at all.

The C# loop ignores a record without a value. Any other malformed value ends it, or is recorded with
a `null` for an id: the set of ids takes `null`, and the counts are not looked at for a duplicate.
The Go loop ignores what `Unmarshal` rejects, and records what is missing as an empty text. So a
log is counted as if it held no malformed values exactly when they are all without a value, or all
rejected by `Unmarshal` (`consume_is_undisturbed_iff`). The counters are unbounded there; that it is
enough does not depend on their width (`undisturbed_of_skipped`).
-/

set_option autoImplicit false

namespace AdClick.Counter

open AdClick.Library

/-- The loop gets through the log, and ends as it does on the well-formed values. -/
def Undisturbed {σ : Type} (consume : σ → RecordValue → Option σ) (same : σ → σ → Prop) (start : σ)
    (log : List RecordValue) : Prop :=
  ∃ t u, run consume start log = some t ∧
    run consume start (log.filter RecordValue.wellFormed) = some u ∧ same t u

/-- A new id is one call more. -/
theorem card_insert_add {κ : Type} [DecidableEq κ] {seen : Finset κ} {id : κ} (h : id ∉ seen)
    (duplicates : Nat) : (insert id seen).card + duplicates = seen.card + duplicates + 1 := by
  rw [Finset.card_insert_of_notMem h]
  omega

namespace CSharp

/-- The state of the service, whose set of ids can hold `null`. -/
structure NullableCounter (ν : Type) where
  seen : Finset (Option String)
  counts : InsertionMap String ν
  duplicates : ν

variable {ν : Type} [Zero ν] [One ν] [Add ν]

def NullableCounter.empty : NullableCounter ν := ⟨∅, .empty, 0⟩

/-- `Record` with arguments that may be `null`: the dictionary of the counts throws on `null`, when
the id has been added. -/
def recordNullable (clickId adId : Option String) : EStateM Thrown (NullableCounter ν) Bool := do
  let s ← get
  if clickId ∈ s.seen then
    set { s with duplicates := s.duplicates + 1 }
    return false
  set { s with seen := insert clickId s.seen }
  match adId with
  | none => throw .argumentNullException
  | some adId =>
    set { s with
      seen := insert clickId s.seen
      counts := bump s.counts adId }
    return true

/-- One turn of the loop. -/
def handle : RecordValue → EStateM Thrown (NullableCounter ν) Unit
  | .absent => return ()
  | .notJson => throw .jsonException
  | .followed _ => throw .jsonException
  | .json root =>
    match readIds root with
    | .error err => throw err
    | .ok (clickId, adId) => discard (recordNullable clickId adId)

/-- The state in which the loop goes on; an exception ends it. -/
def consume (s : NullableCounter ν) (value : RecordValue) : Option (NullableCounter ν) :=
  match handle value s with
  | .ok _ t => some t
  | .error _ _ => none

/-- The same ids, counts and duplicates. -/
def SameTotals (s t : NullableCounter Nat) : Prop :=
  s.seen = t.seen ∧ (∀ adId, s.counts.get? adId = t.counts.get? adId) ∧
    s.duplicates = t.duplicates

/-- A state of `record` as a state that can hold `null`. -/
def NullableCounter.ofCounter (s : CounterService ν) : NullableCounter ν :=
  ⟨s.seen.image some, s.counts, s.duplicates⟩

/-- What `recordNullable` does with a duplicate and with a new id. -/
theorem recordNullable_eq (clickId adId : Option String) (s : NullableCounter ν) :
    recordNullable clickId adId s =
      if clickId ∈ s.seen then .ok false { s with duplicates := s.duplicates + 1 }
      else
        match adId with
        | none => .error .argumentNullException { s with seen := insert clickId s.seen }
        | some adId =>
          .ok true { s with seen := insert clickId s.seen, counts := bump s.counts adId } := by
  change (ite (clickId ∈ s.seen) _ _ : EStateM Thrown (NullableCounter ν) Bool) s = _
  by_cases hseen : clickId ∈ s.seen
  · rw [if_pos hseen, if_pos hseen]
    rfl
  · rw [if_neg hseen, if_neg hseen]
    cases adId <;> rfl

/-- On texts, `recordNullable` does what `record` does. -/
theorem recordNullable_some (envelope : ClickEnvelope) (s : CounterService ν) :
    recordNullable (some envelope.clickId) (some envelope.adId) (.ofCounter s) =
      .ok (step .csharp s envelope).2 (.ofCounter (step .csharp s envelope).1) := by
  have hstep : step .csharp s envelope =
      ((recordWith bump envelope s).2, (recordWith bump envelope s).1) := rfl
  have hmem : some envelope.clickId ∈ (NullableCounter.ofCounter s).seen ↔
      envelope.clickId ∈ s.seen := by
    simp [NullableCounter.ofCounter]
  rw [recordNullable_eq, hstep, recordWith_eq]
  by_cases hseen : envelope.clickId ∈ s.seen
  · rw [if_pos (hmem.2 hseen), if_pos hseen]
    rfl
  · rw [if_neg fun h => hseen (hmem.1 h), if_neg hseen]
    refine congrArg (EStateM.Result.ok true) ?_
    unfold NullableCounter.ofCounter
    rw [Finset.image_insert]

/-- The state after `Record` with two texts. -/
def NullableCounter.record (s : NullableCounter ν) (envelope : ClickEnvelope) : NullableCounter ν :=
  match recordNullable (some envelope.clickId) (some envelope.adId) s with
  | .ok _ t => t
  | .error _ t => t

theorem NullableCounter.record_ofCounter (s : CounterService ν) (envelope : ClickEnvelope) :
    (ofCounter s).record envelope = ofCounter (step .csharp s envelope).1 := by
  rw [record, recordNullable_some]

/-- A turn with readable ids: a new id under `null` ends the loop, as the counts are looked at. -/
theorem consume_of_readIds {root : Json} {clickId adId : Option String}
    (hread : readIds root = .ok (clickId, adId)) (s : NullableCounter ν) :
    consume s (.json root) =
      if clickId ∈ s.seen then some { s with duplicates := s.duplicates + 1 }
      else
        adId.map fun adId =>
          { s with seen := insert clickId s.seen, counts := bump s.counts adId } := by
  have hhandle : handle (.json root) s =
      EStateM.map (Function.const Bool ()) (recordNullable clickId adId) s := by
    unfold handle
    simp only [hread]
    rfl
  rw [consume, hhandle, EStateM.map, recordNullable_eq]
  by_cases hseen : clickId ∈ s.seen
  · rw [if_pos hseen, if_pos hseen]
  · rw [if_neg hseen, if_neg hseen]
    cases adId <;> rfl

/-- A turn with two texts records them, whatever was recorded before. -/
theorem consume_of_texts {root : Json} {clickId adId : String}
    (hread : readIds root = .ok (some clickId, some adId)) (s : NullableCounter ν) :
    consume s (.json root) = some (s.record ⟨clickId, adId⟩) := by
  rw [consume_of_readIds hread, NullableCounter.record, recordNullable_eq]
  by_cases hseen : some clickId ∈ s.seen
  · rw [if_pos hseen, if_pos hseen]
  · rw [if_neg hseen, if_neg hseen]
    rfl

theorem consume_of_unreadable {root : Json} {err : Thrown} (hread : readIds root = .error err)
    (s : NullableCounter ν) : consume s (.json root) = none := by
  have hhandle : handle (.json root) s = .error err s := by
    unfold handle
    simp only [hread]
    rfl
  rw [consume, hhandle]

/-- The number of calls of `Record` that have returned. -/
def NullableCounter.calls (s : NullableCounter Nat) : Nat := s.seen.card + s.duplicates

/-- A turn with a value that does not end the loop has recorded it. -/
theorem calls_of_consume {s t : NullableCounter Nat} {value : RecordValue}
    (hpresent : value.isPresent = true) (h : consume s value = some t) :
    t.calls = s.calls + 1 := by
  cases value with
  | absent => cases hpresent
  | notJson => cases h
  | followed root => cases h
  | json root =>
    cases hread : readIds root with
    | error err =>
      rw [consume_of_unreadable hread] at h
      cases h
    | ok ids =>
      obtain ⟨clickId, adId⟩ := ids
      rw [consume_of_readIds hread] at h
      by_cases hseen : clickId ∈ s.seen
      · rw [if_pos hseen] at h
        cases h
        rfl
      · rw [if_neg hseen] at h
        obtain ⟨adId, -, rfl⟩ := Option.map_eq_some_iff.1 h
        exact card_insert_add hseen s.duplicates

theorem consume_of_wellFormed (s : NullableCounter ν) {value : RecordValue}
    (h : value.wellFormed = true) : ∃ t, consume s value = some t := by
  obtain ⟨root, clickId, adId, rfl, hread⟩ := readIds_of_wellFormed h
  rw [consume_of_readIds hread]
  split
  · exact ⟨_, rfl⟩
  · exact ⟨_, rfl⟩

end CSharp

namespace Go

variable {ν : Type} [Zero ν] [One ν] [Add ν]

/-- One turn of the loop: a value that cannot be unmarshalled is skipped. -/
def consume (s : CounterService ν) (value : RecordValue) : Option (CounterService ν) :=
  match unmarshal value with
  | none => some s
  | some env => some (record env s).2

/-- The same ids, counts and duplicates. -/
def SameTotals (s t : CounterService Nat) : Prop :=
  s.seen = t.seen ∧ (∀ adId, s.counts.get? adId = t.counts.get? adId) ∧
    s.duplicates = t.duplicates

/-- A value that cannot be unmarshalled leaves the state as it is. -/
theorem consume_of_not_decodable (s : CounterService ν) {value : RecordValue}
    (h : ¬ Decodable value) : consume s value = some s := by
  rw [← isSome_unmarshal_iff, Bool.not_eq_true, Option.isSome_eq_false_iff,
    Option.isNone_iff_eq_none] at h
  rw [consume, h]

theorem consume_some (s : CounterService ν) (value : RecordValue) :
    ∃ t, consume s value = some t := by
  unfold consume
  cases unmarshal value with
  | none => exact ⟨_, rfl⟩
  | some env => exact ⟨_, rfl⟩

/-- The number of calls of `record`. -/
def calls (s : CounterService Nat) : Nat := s.seen.card + s.duplicates

theorem calls_of_consume {s t : CounterService Nat} {value : RecordValue}
    (hdecodable : (unmarshal value).isSome = true) (h : consume s value = some t) :
    calls t = calls s + 1 := by
  obtain ⟨env, henv⟩ := Option.isSome_iff_exists.1 hdecodable
  unfold consume at h
  simp only [henv] at h
  cases h
  have hrecord : (record env s).2 = (step .go s env).1 := rfl
  rw [hrecord, step_eq]
  by_cases hseen : env.clickId ∈ s.seen
  · rw [if_pos hseen]
    rfl
  · rw [if_neg hseen]
    exact card_insert_add hseen s.duplicates

end Go

/-! ## Malformed values -/

/-- The C# loop is undisturbed exactly when no malformed record has a value. -/
theorem CSharp.undisturbed_iff (log : List RecordValue) :
    Undisturbed CSharp.consume CSharp.SameTotals .empty log ↔
      ∀ value ∈ log, value.wellFormed = false → value.isPresent = false := by
  refine run_filter_iff CSharp.NullableCounter.calls RecordValue.isPresent RecordValue.wellFormed
    ?_ ?_ ?_ ?_ ?_ .empty log
  · exact fun t => ⟨rfl, fun _ => rfl, rfl⟩
  · rintro t u ⟨hseen, -, hduplicates⟩
    exact congrArg₂ (fun seen duplicates => Finset.card seen + duplicates) hseen hduplicates
  · intro s value habsent
    cases value with
    | absent => rfl
    | notJson => cases habsent
    | followed root => cases habsent
    | json root => cases habsent
  · intro s value t hpresent hconsume
    exact CSharp.calls_of_consume hpresent hconsume
  · intro s value hwell
    exact CSharp.consume_of_wellFormed s hwell

/-- The Go loop is undisturbed exactly when no malformed value is unmarshalled. -/
theorem Go.undisturbed_iff (log : List RecordValue) :
    Undisturbed Go.consume Go.SameTotals .empty log ↔
      ∀ value ∈ log, value.wellFormed = false → (Go.unmarshal value).isSome = false := by
  refine run_filter_iff Go.calls (fun value => (Go.unmarshal value).isSome) RecordValue.wellFormed
    ?_ ?_ ?_ ?_ ?_ .empty log
  · exact fun t => ⟨rfl, fun _ => rfl, rfl⟩
  · rintro t u ⟨hseen, -, hduplicates⟩
    exact congrArg₂ (fun seen duplicates => Finset.card seen + duplicates) hseen hduplicates
  · intro s value hnone
    apply Go.consume_of_not_decodable
    rw [← Go.isSome_unmarshal_iff, hnone]
    exact Bool.false_ne_true
  · intro s value t hsome hconsume
    exact Go.calls_of_consume hsome hconsume
  · intro s value _
    exact Go.consume_some s value

/-- Whatever the width of the counters, a loop that skips every malformed value of a log ends in the
state that the well-formed values lead to. -/
theorem undisturbed_of_skipped {ν : Type} [Zero ν] [One ν] [Add ν] (log : List RecordValue) :
    ((∀ value ∈ log, value.wellFormed = false → value = .absent) →
      Undisturbed CSharp.consume Eq (.empty : CSharp.NullableCounter ν) log) ∧
    ((∀ value ∈ log, value.wellFormed = false → ¬ Go.Decodable value) →
      Undisturbed Go.consume Eq (.empty : CounterService ν) log) := by
  constructor
  · intro habsent
    have hkept : ∀ (s : CSharp.NullableCounter ν) (value : RecordValue),
        value.wellFormed = true → ∃ t, CSharp.consume s value = some t :=
      fun s _ hwell => CSharp.consume_of_wellFormed s hwell
    have hskip : ∀ value ∈ log, value.wellFormed = false →
        ∀ s : CSharp.NullableCounter ν, CSharp.consume s value = some s := by
      intro value hvalue hmalformed s
      rw [habsent value hvalue hmalformed]
      rfl
    obtain ⟨t, hrun, hfiltered⟩ := run_filter_of_skip hkept hskip .empty
    exact ⟨t, t, hrun, hfiltered, rfl⟩
  · intro hrejected
    have hkept : ∀ (s : CounterService ν) (value : RecordValue),
        value.wellFormed = true → ∃ t, Go.consume s value = some t :=
      fun s value _ => Go.consume_some s value
    have hskip : ∀ value ∈ log, value.wellFormed = false →
        ∀ s : CounterService ν, Go.consume s value = some s :=
      fun value hvalue hmalformed s =>
        Go.consume_of_not_decodable s (hrejected value hvalue hmalformed)
    obtain ⟨t, hrun, hfiltered⟩ := run_filter_of_skip hkept hskip .empty
    exact ⟨t, t, hrun, hfiltered, rfl⟩

/-- A log is counted as if it held no malformed values exactly when: for the C# service, every one
of them is a record without a value; for the Go service, `Unmarshal` rejects every one of them. -/
theorem consume_is_undisturbed_iff (log : List RecordValue) :
    (Undisturbed CSharp.consume CSharp.SameTotals .empty log ↔
      ∀ value ∈ log, value.wellFormed = false → value = .absent) ∧
    (Undisturbed Go.consume Go.SameTotals .empty log ↔
      ∀ value ∈ log, value.wellFormed = false → ¬ Go.Decodable value) := by
  rw [CSharp.undisturbed_iff, Go.undisturbed_iff]
  simp only [isPresent_eq_false_iff, ← Go.isSome_unmarshal_iff, Bool.not_eq_true, and_self]

/-- A text that is no JSON ends the C# loop, and the Go loop counts a click for an empty object. -/
theorem malformed_value_disturbs :
    ¬ Undisturbed CSharp.consume CSharp.SameTotals .empty [.notJson] ∧
      ¬ Undisturbed Go.consume Go.SameTotals .empty [.json (.obj [])] := by
  constructor
  · rintro ⟨t, u, hrun, -⟩
    cases hrun
  · rintro ⟨t, u, hrun, hfiltered, hseen, -⟩
    cases hrun
    cases hfiltered
    exact absurd hseen (by decide)

end AdClick.Counter
