import PromiseDb.Engine.IndexInvariant

/-!
# Indexed admission is exact

The evaluation of a bundle sweeps the segments on which demand and slack are constant.  On a
reachable state it decides the brute-force condition: at every timestamp that a claim covers, the
usage of the live promises and the demand of the bundle together stay within the capacity.
-/

namespace PromiseDb

namespace EngineState

/-- Against the floor zero, all checks pass exactly when the slack covers the demand everywhere. -/
theorem allPass_none_iff {claims : List Claim} {base : SlackTimeline} (hb : base.WellFormed) :
    AllPass claims base none ↔
      ∀ t, 0 < claimUsage claims t → claimUsage claims t ≤ base.slackValue t := by
  constructor
  · intro h t ht
    obtain ⟨k, -, hchecked, husage, hvalue, -⟩ := exists_checked hb ht
    have hpass := h k hchecked (husage ▸ ht)
    rw [Passes, husage, hvalue] at hpass
    exact sub_nonneg.mp hpass
  · intro h t _ ht
    exact sub_nonneg.mpr (h t ht)

/-- The pools of a bundle on existing pools are evaluated on their current timelines. -/
theorem IndexExact.evaluatedOn {s : EngineState} (h : s.IndexExact) {bundle : Bundle}
    (hpools : ∀ c ∈ bundle.claims, c.poolId ∈ s.resourcePools) {poolId : ResourcePoolId}
    (hne : bundle.claimsOn poolId ≠ []) :
    ∃ pool tl, s.resourcePools[poolId]? = some pool ∧ s.slackTimelines[poolId]? = some tl ∧
      ∀ base deficitFloor, s.EvaluatedOn ∅ poolId base deficitFloor ↔
        base = tl ∧ deficitFloor = none := by
  obtain ⟨c, hc⟩ := List.exists_mem_of_ne_nil _ hne
  obtain ⟨hmem, hpool⟩ := List.mem_filter.mp hc
  have hexists := hpools c hmem
  rw [of_decide_eq_true hpool] at hexists
  obtain ⟨pool, hp⟩ := OrderedMap.mem_iff_lookup.mp hexists
  obtain ⟨tl, htl⟩ := OrderedMap.mem_iff_lookup.mp ((h.pools poolId).mpr hexists)
  refine ⟨pool, tl, hp, htl, ?_⟩
  intro base deficitFloor
  unfold EvaluatedOn
  rw [OrderedMap.lookup_empty, htl]
  constructor
  · rintro (⟨hover, -⟩ | ⟨-, hbase, hfloor⟩)
    · cases hover
    · exact ⟨(Option.some.inj hbase).symm, hfloor⟩
  · rintro ⟨rfl, rfl⟩
    exact .inr ⟨rfl, rfl, rfl⟩

/-- What admission against the current timelines decides. -/
theorem IndexExact.evaluateBundleAdmission_iff {s : EngineState} (h : s.IndexExact)
    {bundle : Bundle} (hpools : ∀ c ∈ bundle.claims, c.poolId ∈ s.resourcePools)
    (hrange : ∀ poolId t, bundle.demandAt poolId t ≤ 18446744073709551615) :
    ∃ admission, s.evaluateBundleAdmission bundle = .ok admission ∧
      ((∃ timelines, admission = .available timelines) ↔
        ∀ (poolId : ResourcePoolId) (tl : SlackTimeline) (t : Timestamp),
          s.slackTimelines[poolId]? = some tl → 0 < bundle.demandAt poolId t →
          bundle.demandAt poolId t ≤ tl.slackValue t) := by
  have hwf := h.wellFormed
  have hon (poolId : ResourcePoolId) (hne : bundle.claimsOn poolId ≠ []) :
      ∃ base deficitFloor, s.EvaluatedOn ∅ poolId base deficitFloor := by
    obtain ⟨pool, tl, -, -, hiff⟩ := h.evaluatedOn hpools hne
    exact ⟨tl, none, (hiff tl none).mpr ⟨rfl, rfl⟩⟩
  have hfit (poolId : ResourcePoolId) (base : SlackTimeline) (deficitFloor : Option SlackTimeline)
      (hne : bundle.claimsOn poolId ≠ []) (hev : s.EvaluatedOn ∅ poolId base deficitFloor)
      (hpass : AllPass (bundle.claimsOn poolId) base deficitFloor) (t : Timestamp) :
      bundle.demandAt poolId t ≤ 9223372036854775807 := by
    obtain ⟨pool, tl, -, htl, hiff⟩ := h.evaluatedOn hpools hne
    obtain ⟨rfl, rfl⟩ := (hiff base deficitFloor).mp hev
    rcases (bundle.demandAt_nonneg poolId t).eq_or_lt with hzero | hpos
    · rw [← hzero]
      norm_num
    · have hle := (allPass_none_iff (hwf poolId base htl)).mp hpass t hpos
      exact hle.trans ((hwf poolId base htl).isSlack t).2
  obtain ⟨admission, hadmission, hiff⟩ :=
    evaluateBundle_iff hwf overridesWellFormed_empty hon hrange hfit
  refine ⟨admission, hadmission, hiff.trans ?_⟩
  constructor
  · intro hall poolId tl t htl hpos
    have hne : bundle.claimsOn poolId ≠ [] := by
      intro hnil
      rw [Bundle.demandAt_of_nil hnil] at hpos
      exact lt_irrefl _ hpos
    obtain ⟨pool, tl', -, htl', hev⟩ := h.evaluatedOn hpools hne
    obtain rfl : tl = tl' := Option.some.inj (htl.symm.trans htl')
    have hpass := hall poolId tl none hne ((hev tl none).mpr ⟨rfl, rfl⟩)
    exact (allPass_none_iff (hwf poolId tl htl)).mp hpass t hpos
  · intro hall poolId base deficitFloor hne hev
    obtain ⟨pool, tl, -, htl, hiff⟩ := h.evaluatedOn hpools hne
    obtain ⟨rfl, rfl⟩ := (hiff base deficitFloor).mp hev
    exact (allPass_none_iff (hwf poolId base htl)).mpr fun t ht => hall poolId base t htl ht

end EngineState

namespace Engine

open EngineState

variable {blake3 : List UInt8 → CommandHash}

/-- On a reachable state, a bundle on existing pools whose demand can be counted is evaluated
without an error.  It is available exactly when usage and demand together stay within the
capacity at every timestamp that a claim covers, and then exactly its pools get new timelines,
whose slack is the old one minus the demand. -/
theorem admission_exact {e : Engine} (h : Reachable blake3 e) {bundle : Bundle}
    (hpools : ∀ c ∈ bundle.claims, c.poolId ∈ e.state.resourcePools)
    (hrange : ∀ poolId t, bundle.demandAt poolId t ≤ 18446744073709551615) :
    ∃ admission, e.state.evaluateBundleAdmission bundle = .ok admission ∧
      ((∃ timelines, admission = .available timelines) ↔
        ∀ (poolId : ResourcePoolId) (pool : ResourcePool) (t : Timestamp),
          e.state.resourcePools[poolId]? = some pool →
          (∃ c ∈ bundle.claimsOn poolId, c.interval.contains t = true) →
          e.state.usageAt poolId t + bundle.demandAt poolId t ≤ (pool.capacityAt t).val) ∧
      ∀ timelines, admission = .available timelines →
        (∀ poolId, bundle.claimsOn poolId = [] → timelines[poolId]? = none) ∧
        ∀ poolId, bundle.claimsOn poolId ≠ [] → ∃ tl tl',
          e.state.slackTimelines[poolId]? = some tl ∧ timelines[poolId]? = some tl' ∧
          ∀ t, ∃ before after, tl.slackAt t = .ok before ∧ tl'.slackAt t = .ok after ∧
            after.val = before.val - bundle.demandAt poolId t := by
  have hexact := h.indexExact
  obtain ⟨admission, hadmission, hiff⟩ := hexact.evaluateBundleAdmission_iff hpools hrange
  refine ⟨admission, hadmission, hiff.trans ?_, ?_⟩
  · constructor
    · intro hall poolId pool t hpool hcovered
      have hpos : 0 < bundle.demandAt poolId t := claimUsage_pos_iff.mpr hcovered
      obtain ⟨tl, htl, -⟩ := hexact.slackAt hpool
      have hle := hall poolId tl t htl hpos
      rw [hexact.exact poolId pool tl hpool htl] at hle
      omega
    · intro hall poolId tl t htl hpos
      obtain ⟨pool, hpool⟩ := OrderedMap.mem_iff_lookup.mp
        ((hexact.pools poolId).mp (OrderedMap.mem_iff_lookup.mpr ⟨tl, htl⟩))
      have hle := hall poolId pool t hpool (claimUsage_pos_iff.mp hpos)
      rw [hexact.exact poolId pool tl hpool htl]
      omega
  · rintro timelines rfl
    have hadmitted := evaluateBundle_available hexact.wellFormed overridesWellFormed_empty hadmission
    refine ⟨hadmitted.absent, ?_⟩
    intro poolId hne
    obtain ⟨base, deficitFloor, tl', hev, htl', hwf', hvalue, -⟩ := hadmitted.present poolId hne
    obtain ⟨pool, tl, -, htl, hon⟩ := hexact.evaluatedOn hpools hne
    obtain ⟨rfl, rfl⟩ := (hon base deficitFloor).mp hev
    refine ⟨base, tl', htl, htl', ?_⟩
    intro t
    obtain ⟨before, hbefore, hbval⟩ := SlackTimeline.slackAt_spec (hexact.wellFormed poolId base htl) t
    obtain ⟨after, hafter, haval⟩ := SlackTimeline.slackAt_spec hwf' t
    refine ⟨before, after, hbefore, hafter, ?_⟩
    rw [haval, hvalue, hbval]

/-- A bundle of five units during the first ten ticks. -/
def sampleRequest : Bundle := sampleBundle 0 10 5 sample_ten_pos sample_five_pos

/-- A bundle of the sample demands at most the quantity of its claim. -/
theorem sampleBundle_demandAt (start length quantity : Fin 1000) (h : 0 < length.val)
    (hq : 0 < quantity.val) (poolId : ResourcePoolId) (t : Timestamp) :
    (sampleBundle start length quantity h hq).demandAt poolId t ≤ quantity.val := by
  unfold Bundle.demandAt Bundle.claimsOn sampleBundle
  rw [List.filter_cons]
  split
  · rw [claimUsage_cons, Claim.usageAt, List.filter_nil, claimUsage_nil]
    split <;> simp
  · rw [List.filter_nil, claimUsage_nil]
    exact Int.natCast_nonneg _

/-- After the sample run the request is evaluated without an error, and it is available exactly
when the capacity suffices wherever it has a claim. -/
theorem admission_exact_sample :
    ∃ admission, sampleEngine.state.evaluateBundleAdmission sampleRequest = .ok admission ∧
      ((∃ timelines, admission = .available timelines) ↔
        ∀ (poolId : ResourcePoolId) (pool : ResourcePool) (t : Timestamp),
          sampleEngine.state.resourcePools[poolId]? = some pool →
          (∃ c ∈ sampleRequest.claimsOn poolId, c.interval.contains t = true) →
          sampleEngine.state.usageAt poolId t + sampleRequest.demandAt poolId t ≤
            (pool.capacityAt t).val) := by
  have hpools : ∀ c ∈ sampleRequest.claims, c.poolId ∈ sampleEngine.state.resourcePools := by
    intro c hc
    obtain rfl := List.mem_singleton.mp hc
    decide +kernel
  have hrange (poolId : ResourcePoolId) (t : Timestamp) :
      sampleRequest.demandAt poolId t ≤ 18446744073709551615 :=
    (sampleBundle_demandAt 0 10 5 sample_ten_pos sample_five_pos poolId t).trans (by norm_num)
  obtain ⟨admission, hadmission, hiff, -⟩ := admission_exact sampleEngine_reachable hpools hrange
  exact ⟨admission, hadmission, hiff⟩

end Engine

end PromiseDb
