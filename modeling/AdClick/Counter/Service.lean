import AdClick.Library.InsertionMap
import Mathlib.Data.Finset.Basic

/-!
# The counting consumers

The four lesson-0 consumers keep the same state: the set of click ids seen, a count per ad and a
number of rejected duplicates. `record` checks the click id first, and counts the click under its
ad only when the id is new. The languages differ in how they bump the count of an ad and in the
width of their counters, so the state and `record` are generic over the type of the counters.

Over unbounded counters all four take the same step (`step_eq`).
-/

set_option autoImplicit false

namespace AdClick.Counter

open AdClick.Library

/-- The part of a click envelope that `record` reads. -/
structure ClickEnvelope where
  clickId : String
  adId : String
  deriving DecidableEq

/-- The in-memory counting and deduplication state. -/
structure CounterService (ν : Type) where
  seen : Finset String
  counts : InsertionMap String ν
  duplicates : ν

inductive Language where
  | typescript
  | java
  | csharp
  | go
  deriving DecidableEq

section Record

variable {ν : Type} [Zero ν] [One ν] [Add ν]

def CounterService.empty : CounterService ν := ⟨∅, .empty, 0⟩

/-- Records one click, with a language's way to bump a count; `true` if the click is new. -/
def recordWith (bump : InsertionMap String ν → String → InsertionMap String ν)
    (envelope : ClickEnvelope) : StateM (CounterService ν) Bool := do
  let s ← get
  -- Duplicate check first: an already-seen click id never re-increments.
  if envelope.clickId ∈ s.seen then
    set { s with duplicates := s.duplicates + 1 }
    return false
  set { s with
    seen := insert envelope.clickId s.seen
    counts := bump s.counts envelope.adId }
  return true

namespace TypeScript

/-- `counts.set(adId, (counts.get(adId) ?? 0) + 1)`. -/
def bump (counts : InsertionMap String ν) (adId : String) : InsertionMap String ν :=
  counts.set adId ((counts.get? adId).getD 0 + 1)

def record (envelope : ClickEnvelope) : StateM (CounterService ν) Bool := recordWith bump envelope

end TypeScript

namespace Java

/-- `counts.merge(adId, 1, Integer::sum)`. -/
def bump (counts : InsertionMap String ν) (adId : String) : InsertionMap String ν :=
  counts.set adId <|
    match counts.get? adId with
    | none => 1
    | some n => n + 1

def record (envelope : ClickEnvelope) : StateM (CounterService ν) Bool := recordWith bump envelope

end Java

namespace CSharp

/-- `counts[adId] = counts.GetValueOrDefault(adId) + 1`. -/
def bump (counts : InsertionMap String ν) (adId : String) : InsertionMap String ν :=
  counts.set adId ((counts.get? adId).getD 0 + 1)

def record (envelope : ClickEnvelope) : StateM (CounterService ν) Bool := recordWith bump envelope

end CSharp

namespace Go

/-- `counts[adId]++`. -/
def bump (counts : InsertionMap String ν) (adId : String) : InsertionMap String ν :=
  counts.set adId ((counts.get? adId).getD 0 + 1)

def record (envelope : ClickEnvelope) : StateM (CounterService ν) Bool := recordWith bump envelope

end Go

/-- `record` of a language. -/
def record : Language → ClickEnvelope → StateM (CounterService ν) Bool
  | .typescript => TypeScript.record
  | .java => Java.record
  | .csharp => CSharp.record
  | .go => Go.record

/-- One call of `record`: the state it leaves and what it returns. -/
def step (language : Language) (s : CounterService ν) (envelope : ClickEnvelope) :
    CounterService ν × Bool :=
  ((record language envelope s).2, (record language envelope s).1)

end Record

/-! ## Unbounded counters -/

theorem java_bump_eq (counts : InsertionMap String Nat) (adId : String) :
    Java.bump counts adId = counts.increment adId := by
  simp only [Java.bump, InsertionMap.increment, InsertionMap.count]
  cases counts.get? adId with
  | none => rfl
  | some n => rfl

theorem recordWith_eq {ν : Type} [Zero ν] [One ν] [Add ν]
    (bump : InsertionMap String ν → String → InsertionMap String ν) (envelope : ClickEnvelope)
    (s : CounterService ν) :
    recordWith bump envelope s =
      if envelope.clickId ∈ s.seen then (false, { s with duplicates := s.duplicates + 1 })
      else
        (true, { s with
          seen := insert envelope.clickId s.seen
          counts := bump s.counts envelope.adId }) := by
  by_cases h : envelope.clickId ∈ s.seen
  · rw [if_pos h]
    simp only [recordWith, bind, StateT.bind, get, getThe, MonadStateOf.get, StateT.get, pure,
      if_pos h]
    rfl
  · rw [if_neg h]
    simp only [recordWith, bind, StateT.bind, get, getThe, MonadStateOf.get, StateT.get, pure,
      if_neg h]
    rfl

/-- Over unbounded counters every language counts a new click and rejects the others. -/
theorem step_eq (language : Language) (s : CounterService Nat) (envelope : ClickEnvelope) :
    step language s envelope =
      if envelope.clickId ∈ s.seen then ({ s with duplicates := s.duplicates + 1 }, false)
      else
        ({ s with
            seen := insert envelope.clickId s.seen
            counts := s.counts.increment envelope.adId }, true) := by
  have hrecord : record language envelope s =
      recordWith InsertionMap.increment envelope s := by
    cases language with
    | typescript => rfl
    | java =>
      -- the one language that does not bump by reading a default
      have hbump : Java.bump = InsertionMap.increment := by
        funext counts adId
        exact java_bump_eq counts adId
      show recordWith Java.bump envelope s = _
      rw [hbump]
    | csharp => rfl
    | go => rfl
  rw [step, hrecord, recordWith_eq]
  split <;> rfl

end AdClick.Counter
