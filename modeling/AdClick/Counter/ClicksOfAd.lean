import AdClick.Counter.Snapshot
import Mathlib.Data.List.Perm.Subperm

/-!
# The click ids of an ad

A click is counted under one ad, that of its first delivery, so the count of an ad is at most the
number of ids that come with the ad (`distinctClicks_le`), and exactly that when click ids determine
ads (`distinctClicks_eq_idsOfAd`).
-/

set_option autoImplicit false

namespace AdClick.Counter

/-- The click ids that come with the ad, each once. -/
def idListOfAd (ds : List ClickEnvelope) (adId : String) : List String :=
  ((ds.filter fun d => d.adId = adId).map ClickEnvelope.clickId).dedup

/-- The number of click ids that come with the ad. -/
def idsOfAd (ds : List ClickEnvelope) (adId : String) : Nat := (idListOfAd ds adId).length

theorem nodup_idListOfAd (ds : List ClickEnvelope) (adId : String) : (idListOfAd ds adId).Nodup :=
  List.nodup_dedup _

theorem mem_idListOfAd {ds : List ClickEnvelope} {adId clickId : String} :
    clickId ∈ idListOfAd ds adId ↔ ⟨clickId, adId⟩ ∈ ds := by
  rw [idListOfAd, List.mem_dedup, List.mem_map]
  constructor
  · rintro ⟨⟨clickId', adId'⟩, hd, rfl⟩
    rcases List.mem_filter.1 hd with ⟨hmem, had⟩
    cases of_decide_eq_true had
    exact hmem
  · intro hmem
    exact ⟨⟨clickId, adId⟩, List.mem_filter.2 ⟨hmem, decide_eq_true rfl⟩, rfl⟩

/-- The number of ids of an ad depends on the set of envelopes only, and on those of the ad. -/
theorem idsOfAd_congr {ds ds' : List ClickEnvelope} {adId : String}
    (h : ∀ clickId, ⟨clickId, adId⟩ ∈ ds ↔ (⟨clickId, adId⟩ : ClickEnvelope) ∈ ds') :
    idsOfAd ds adId = idsOfAd ds' adId := by
  apply List.Perm.length_eq
  apply (List.perm_ext_iff_of_nodup (nodup_idListOfAd ds adId) (nodup_idListOfAd ds' adId)).2
  intro clickId
  rw [mem_idListOfAd, mem_idListOfAd]
  exact h clickId

/-- A part of the envelopes has all ids of an ad exactly when it has as many of them. -/
theorem idsOfAd_eq_iff {ds ds' : List ClickEnvelope} (hsub : ∀ d ∈ ds, d ∈ ds') (adId : String) :
    idsOfAd ds adId = idsOfAd ds' adId ↔
      ∀ clickId, ⟨clickId, adId⟩ ∈ ds' → (⟨clickId, adId⟩ : ClickEnvelope) ∈ ds := by
  have hsubperm : (idListOfAd ds adId).Subperm (idListOfAd ds' adId) := by
    apply List.subperm_of_subset (nodup_idListOfAd ds adId)
    intro clickId hmem
    exact mem_idListOfAd.2 (hsub _ (mem_idListOfAd.1 hmem))
  constructor
  · intro hlength clickId hmem
    -- a part that is as long as the whole is the whole
    have hperm := hsubperm.perm_of_length_le (Nat.le_of_eq hlength.symm)
    exact mem_idListOfAd.1 (hperm.mem_iff.2 (mem_idListOfAd.2 hmem))
  · intro hall
    exact idsOfAd_congr fun clickId => ⟨hsub _, hall clickId⟩

theorem mem_of_firstAd {ds : List ClickEnvelope} {adId clickId : String}
    (h : firstAd ds clickId = some adId) : ⟨clickId, adId⟩ ∈ ds := by
  obtain ⟨d, hfind, rfl⟩ := Option.map_eq_some_iff.1 h
  have hid : d.clickId = clickId := by simpa using List.find?_some hfind
  rw [← hid]
  exact List.mem_of_find?_eq_some hfind

/-- A counted click has come with the ad that it is counted under. -/
theorem distinctClicks_le {ds ds' : List ClickEnvelope} {adId : String}
    (hsub : ∀ clickId, ⟨clickId, adId⟩ ∈ ds → (⟨clickId, adId⟩ : ClickEnvelope) ∈ ds') :
    distinctClicks ds adId ≤ idsOfAd ds' adId := by
  rw [distinctClicks, List.countP_eq_length_filter, idsOfAd]
  apply List.Subperm.length_le
  apply List.subperm_of_subset ((List.nodup_dedup _).filter _)
  intro clickId hmem
  rw [mem_idListOfAd]
  exact hsub clickId (mem_of_firstAd (of_decide_eq_true (List.mem_filter.1 hmem).2))

/-- When click ids determine ads, every id that comes with the ad is counted for it. -/
theorem distinctClicks_eq_idsOfAd {ds : List ClickEnvelope} (h : AdOfClick ds) (adId : String) :
    distinctClicks ds adId = idsOfAd ds adId := by
  apply Nat.le_antisymm (distinctClicks_le fun _ hd => hd)
  rw [distinctClicks, List.countP_eq_length_filter, idsOfAd]
  apply List.Subperm.length_le
  apply List.subperm_of_subset (nodup_idListOfAd ds adId)
  intro clickId hmem
  rw [mem_idListOfAd] at hmem
  rw [List.mem_filter, List.mem_dedup]
  exact ⟨List.mem_map_of_mem hmem, decide_eq_true ((firstAd_eq_some_iff h clickId adId).2 hmem)⟩

/-- The number of distinct click ids depends on the set of envelopes only. -/
theorem distinctIds_congr {ds ds' : List ClickEnvelope} (hsame : ∀ d, d ∈ ds ↔ d ∈ ds') :
    distinctIds ds = distinctIds ds' := by
  apply List.Perm.length_eq
  apply (List.perm_ext_iff_of_nodup (List.nodup_dedup _) (List.nodup_dedup _)).2
  intro clickId
  rw [List.mem_dedup, List.mem_dedup, List.mem_map, List.mem_map]
  exact exists_congr fun d => and_congr_left fun _ => hsame d

theorem AdOfClick.of_subset {ds ds' : List ClickEnvelope} (h : AdOfClick ds')
    (hsub : ∀ d ∈ ds, d ∈ ds') : AdOfClick ds := by
  intro d hd e he
  exact h d (hsub d hd) e (hsub e he)

end AdClick.Counter
