import PromiseDb.Engine.BundleAdmission
import PromiseDb.Engine.Reachable

/-!
# The slack index is exact

In every reachable state the index has a timeline for exactly the existing pools, and each of
them stands for the capacity of its pool minus the usage of the live promises.  Every transition
changes the demand of at most one promise and the timelines of exactly the pools concerned by
the same amount, or replaces a curve and rebuilds the timeline of its pool.
-/

namespace PromiseDb

open StepFunction

namespace EngineState

/-- The usage of a pool at a timestamp by all live promises. -/
def usageAt (s : EngineState) (poolId : ResourcePoolId) (t : Timestamp) : ℤ :=
  OrderedMap.sumOn s.promises fun _ p => p.demandAt poolId t

/-- The index is exact, and the facts about promises that keep it so. -/
structure IndexExact (s : EngineState) : Prop where
  /-- There is a timeline for exactly the existing pools. -/
  pools : ∀ poolId, poolId ∈ s.slackTimelines ↔ poolId ∈ s.resourcePools
  /-- The timelines can be read. -/
  wellFormed : s.TimelinesWellFormed
  /-- A timeline stands for capacity minus usage. -/
  exact : ∀ (poolId : ResourcePoolId) (pool : ResourcePool) (tl : SlackTimeline),
    s.resourcePools[poolId]? = some pool → s.slackTimelines[poolId]? = some tl →
    ∀ t, tl.slackValue t = (pool.capacityAt t).val - s.usageAt poolId t
  /-- Claims are on existing pools. -/
  claims : ∀ (id : PromiseId) (p : Promise), s.promises[id]? = some p →
    ∀ c ∈ p.bundle.claims, c.poolId ∈ s.resourcePools
  /-- The demand of one promise is a slack value. -/
  bounded : ∀ (id : PromiseId) (p : Promise), s.promises[id]? = some p →
    ∀ poolId t, p.demandAt poolId t ≤ 9223372036854775807

/-! ## Usage -/

/-- Usage is not negative. -/
theorem usageAt_nonneg (s : EngineState) (poolId : ResourcePoolId) (t : Timestamp) :
    0 ≤ s.usageAt poolId t := by
  refine List.sum_nonneg fun x hx => ?_
  obtain ⟨e, -, rfl⟩ := List.mem_map.mp hx
  exact e.2.demandAt_nonneg poolId t

/-- The demand of a promise is part of the usage. -/
theorem demandAt_le_usageAt {s : EngineState} {id : PromiseId} {p : Promise}
    (h : s.promises[id]? = some p) (poolId : ResourcePoolId) (t : Timestamp) :
    p.demandAt poolId t ≤ s.usageAt poolId t :=
  OrderedMap.le_sumOn (f := fun _ (p : Promise) => p.demandAt poolId t)
    (fun _ p => p.demandAt_nonneg poolId t) h

/-- The claims of live promises on a pool add up to its usage. -/
theorem claimUsage_activeClaims (s : EngineState) (poolId : ResourcePoolId) (t : Timestamp) :
    claimUsage (SlackTimeline.activeClaims poolId (OrderedMap.vals s.promises)) t =
      s.usageAt poolId t := by
  rw [usageAt, OrderedMap.sumOn, OrderedMap.vals]
  induction s.promises.toList with
  | nil => rfl
  | cons e l ih =>
    rw [List.map_cons, List.map_cons, List.sum_cons, ← ih]
    unfold SlackTimeline.activeClaims Promise.demandAt
    by_cases hactive : e.2.isActive = true
    · rw [List.filter_cons_of_pos hactive, List.flatMap_cons, List.filter_append,
        claimUsage_append, if_pos hactive]
      rfl
    · rw [List.filter_cons_of_neg hactive, if_neg hactive, zero_add]

/-- A pool on which no promise has claims is not used. -/
theorem usageAt_of_no_claims {s : EngineState} {poolId : ResourcePoolId}
    (h : ∀ (id : PromiseId) (p : Promise), s.promises[id]? = some p →
      p.bundle.claimsOn poolId = []) (t : Timestamp) : s.usageAt poolId t = 0 := by
  refine List.sum_eq_zero fun x hx => ?_
  obtain ⟨e, he, rfl⟩ := List.mem_map.mp hx
  show e.2.demandAt poolId t = 0
  rw [Promise.demandAt, Bundle.demandAt_of_nil (h e.1 e.2 (OrderedMap.mem_toList.mp he)), ite_self]

/-- The demand of the promise with an identity, if there is one. -/
def demandOf (s : EngineState) (id : PromiseId) (poolId : ResourcePoolId) (t : Timestamp) : ℤ :=
  s.promises[id]?.elim 0 fun p => p.demandAt poolId t

/-- A promise transition replaces the demand of one promise. -/
theorem usageAt_withPromise (s : EngineState) (id : PromiseId) (p : Promise)
    (timelines : OrderedMap ResourcePoolId SlackTimeline) (seq : SequenceNumber) (now : Timestamp)
    (kind : EventKind) (poolId : ResourcePoolId) (t : Timestamp) :
    (s.withPromise id p timelines seq now kind).usageAt poolId t =
      s.usageAt poolId t - s.demandOf id poolId t + p.demandAt poolId t :=
  OrderedMap.sumOn_insert _ _ _ _

/-! ## One transition -/

/-- A promise transition keeps the index exact when the timelines follow the demand. -/
theorem IndexExact.withPromise {s : EngineState} (h : s.IndexExact) {id : PromiseId} {p : Promise}
    {timelines : OrderedMap ResourcePoolId SlackTimeline} {seq : SequenceNumber} {now : Timestamp}
    {kind : EventKind} (hkeys : ∀ poolId, poolId ∈ timelines → poolId ∈ s.slackTimelines)
    (hvalue : ∀ (poolId : ResourcePoolId) (tl : SlackTimeline), s.slackTimelines[poolId]? = some tl →
      ∃ tl', timelines[poolId]? = some tl' ∧ tl'.WellFormed ∧ ∀ t, tl'.slackValue t =
        tl.slackValue t + s.demandOf id poolId t - p.demandAt poolId t)
    (hclaims : ∀ c ∈ p.bundle.claims, c.poolId ∈ s.resourcePools)
    (hbounded : ∀ poolId t, p.demandAt poolId t ≤ 9223372036854775807) :
    (s.withPromise id p timelines seq now kind).IndexExact := by
  have hold (poolId : ResourcePoolId) (tl' : SlackTimeline) (htl' : timelines[poolId]? = some tl') :
      ∃ tl, s.slackTimelines[poolId]? = some tl ∧ tl'.WellFormed ∧ ∀ t, tl'.slackValue t =
        tl.slackValue t + s.demandOf id poolId t - p.demandAt poolId t := by
    obtain ⟨tl, htl⟩ := OrderedMap.mem_iff_lookup.mp
      (hkeys poolId (OrderedMap.mem_iff_lookup.mpr ⟨tl', htl'⟩))
    obtain ⟨tl'', htl'', hspec⟩ := hvalue poolId tl htl
    obtain rfl : tl' = tl'' := Option.some.inj (htl'.symm.trans htl'')
    exact ⟨tl, htl, hspec⟩
  constructor
  · intro poolId
    refine Iff.trans ⟨hkeys poolId, fun hmem => ?_⟩ (h.pools poolId)
    obtain ⟨tl, htl⟩ := OrderedMap.mem_iff_lookup.mp hmem
    obtain ⟨tl', htl', -⟩ := hvalue poolId tl htl
    exact OrderedMap.mem_iff_lookup.mpr ⟨tl', htl'⟩
  · intro poolId tl' htl'
    obtain ⟨tl, -, hwf, -⟩ := hold poolId tl' htl'
    exact hwf
  · intro poolId pool tl' hpool htl' t
    obtain ⟨tl, htl, -, hval⟩ := hold poolId tl' htl'
    rw [hval, h.exact poolId pool tl hpool htl, usageAt_withPromise]
    ring
  · intro id' p' hp' c hc
    have hlookup : (s.promises.insert id p)[id']? = some p' := hp'
    rw [OrderedMap.lookup_insert] at hlookup
    split at hlookup
    · obtain rfl := Option.some.inj hlookup
      exact hclaims c hc
    · exact h.claims id' p' hlookup c hc
  · intro id' p' hp' poolId t
    have hlookup : (s.promises.insert id p)[id']? = some p' := hp'
    rw [OrderedMap.lookup_insert] at hlookup
    split at hlookup
    · obtain rfl := Option.some.inj hlookup
      exact hbounded poolId t
    · exact h.bounded id' p' hlookup poolId t

/-- Publishing restored timelines adds the demand of the bundle to the slack of every pool. -/
theorem Restored.slack {s : EngineState} (hs : s.TimelinesWellFormed) {bundle : Bundle}
    {timelines : OrderedMap ResourcePoolId SlackTimeline} (h : Restored s bundle timelines)
    {poolId : ResourcePoolId} {tl : SlackTimeline} (htl : s.slackTimelines[poolId]? = some tl) :
    ∃ tl', (OrderedMap.extend s.slackTimelines timelines)[poolId]? = some tl' ∧ tl'.WellFormed ∧
      ∀ t, tl'.slackValue t = tl.slackValue t + bundle.demandAt poolId t := by
  rw [OrderedMap.lookup_extend]
  by_cases hne : bundle.claimsOn poolId = []
  · refine ⟨tl, by rw [h.absent poolId hne, Option.none_or, htl], hs poolId tl htl, fun t => ?_⟩
    rw [Bundle.demandAt_of_nil hne, add_zero]
  · obtain ⟨tl₀, tl', htl₀, htl', hwf, hval⟩ := h.present poolId hne
    obtain rfl : tl₀ = tl := Option.some.inj (htl₀.symm.trans htl)
    exact ⟨tl', by rw [htl', Option.some_or], hwf, hval⟩

/-- Publishing restored timelines adds no pool. -/
theorem Restored.keys {s : EngineState} {bundle : Bundle}
    {timelines : OrderedMap ResourcePoolId SlackTimeline} (h : Restored s bundle timelines)
    {poolId : ResourcePoolId} (hmem : poolId ∈ OrderedMap.extend s.slackTimelines timelines) :
    poolId ∈ s.slackTimelines := by
  obtain ⟨tl', htl'⟩ := OrderedMap.mem_iff_lookup.mp hmem
  rw [OrderedMap.lookup_extend] at htl'
  by_cases hne : bundle.claimsOn poolId = []
  · rw [h.absent poolId hne, Option.none_or] at htl'
    exact OrderedMap.mem_iff_lookup.mpr ⟨tl', htl'⟩
  · obtain ⟨tl, -, htl, -⟩ := h.present poolId hne
    exact OrderedMap.mem_iff_lookup.mpr ⟨tl, htl⟩

/-- A promise that passes from live to ended gives its bundle back. -/
theorem IndexExact.withEnded {s : EngineState} (h : s.IndexExact) {id : PromiseId} {p p' : Promise}
    {timelines : OrderedMap ResourcePoolId SlackTimeline} {seq : SequenceNumber} {now : Timestamp}
    {kind : EventKind} (hp : s.promises[id]? = some p) (hactive : p.isActive = true)
    (hended : p'.isActive = false) (hbundle : p'.bundle = p.bundle)
    (hrestored : s.restoredTimelines p'.bundle = .ok timelines) :
    (s.withPromise id p' (OrderedMap.extend s.slackTimelines timelines) seq now kind).IndexExact := by
  have hr := restoredTimelines_sound h.wellFormed hrestored
  rw [hbundle] at hr
  have hzero (poolId : ResourcePoolId) (t : Timestamp) : p'.demandAt poolId t = 0 := by
    rw [Promise.demandAt, hended]
    rfl
  have hdemand (poolId : ResourcePoolId) (t : Timestamp) :
      s.demandOf id poolId t = p.bundle.demandAt poolId t := by
    rw [demandOf, hp, Option.elim_some, Promise.demandAt, if_pos hactive]
  refine h.withPromise (fun _ hmem => hr.keys hmem) (fun poolId tl htl => ?_) ?_ fun poolId t => ?_
  · obtain ⟨tl', htl', hwf, hval⟩ := hr.slack h.wellFormed htl
    refine ⟨tl', htl', hwf, fun t => ?_⟩
    rw [hval, hdemand, hzero, sub_zero]
  · rw [hbundle]
    exact h.claims id p hp
  · rw [hzero]
    norm_num

/-- A timeline rebuilt from the promises of a state stands for the curve minus the usage. -/
theorem rebuilt_spec {s : EngineState} {curve : CapacityCurve} {poolId : ResourcePoolId}
    {tl : SlackTimeline} (h : SlackTimeline.fromCapacityAndPromises curve poolId
      (OrderedMap.vals s.promises) = .ok tl) :
    tl.WellFormed ∧ ∀ t, tl.slackValue t = (curve.capacityAt t).val - s.usageAt poolId t := by
  obtain ⟨hwf, hvalue⟩ := SlackTimeline.fromCapacityAndClaims_sound h
  exact ⟨hwf, fun t => by rw [hvalue, claimUsage_activeClaims]⟩

/-- A pool transition keeps the index exact when the new timeline stands for the new curve. -/
theorem IndexExact.withPool {s : EngineState} (h : s.IndexExact) {poolId : ResourcePoolId}
    {pool : ResourcePool} {tl : SlackTimeline} {seq : SequenceNumber} {now : Timestamp}
    {kind : EventKind} {audit : List Event} (hwf : tl.WellFormed)
    (hvalue : ∀ t, tl.slackValue t = (pool.capacityAt t).val - s.usageAt poolId t) :
    (s.withPool poolId pool tl seq now kind audit).IndexExact := by
  constructor
  · intro q
    rw [EngineState.withPool, OrderedMap.mem_insert_iff, OrderedMap.mem_insert_iff, h.pools q]
  · intro q tl' htl'
    have hlookup : (s.slackTimelines.insert poolId tl)[q]? = some tl' := htl'
    rw [OrderedMap.lookup_insert] at hlookup
    split at hlookup
    · obtain rfl := Option.some.inj hlookup
      exact hwf
    · exact h.wellFormed q tl' hlookup
  · intro q pool' tl' hpool' htl' t
    have hlookup : (s.slackTimelines.insert poolId tl)[q]? = some tl' := htl'
    have hlookup' : (s.resourcePools.insert poolId pool)[q]? = some pool' := hpool'
    rw [OrderedMap.lookup_insert] at hlookup hlookup'
    by_cases hq : poolId = q
    · subst hq
      rw [if_pos rfl] at hlookup hlookup'
      obtain rfl := Option.some.inj hlookup
      obtain rfl := Option.some.inj hlookup'
      exact hvalue t
    · rw [if_neg hq] at hlookup hlookup'
      exact h.exact q pool' tl' hlookup' hlookup t
  · exact fun id p hp c hc => OrderedMap.mem_insert_iff.mpr (.inr (h.claims id p hp c hc))
  · exact h.bounded

/-- The pools of an admitted bundle exist. -/
theorem Admitted.pool_mem {s : EngineState} (h : s.IndexExact)
    {overrides timelines : OrderedMap ResourcePoolId SlackTimeline} {bundle : Bundle}
    (ha : Admitted s overrides bundle timelines) :
    ∀ c ∈ bundle.claims, c.poolId ∈ s.resourcePools := by
  intro c hc
  obtain ⟨base, deficitFloor, tl, hon, -⟩ := ha.present c.poolId
    (Bundle.claimsOn_ne_nil.mpr ⟨c, hc, rfl⟩)
  refine (h.pools c.poolId).mp ?_
  obtain ⟨-, current, hcurrent, -⟩ | ⟨-, hbase, -⟩ := hon
  · exact OrderedMap.mem_iff_lookup.mpr ⟨current, hcurrent⟩
  · exact OrderedMap.mem_iff_lookup.mpr ⟨base, hbase⟩

/-- The demand of an admitted bundle is a slack value. -/
theorem Admitted.bounded {s : EngineState}
    {overrides timelines : OrderedMap ResourcePoolId SlackTimeline} {bundle : Bundle}
    (ha : Admitted s overrides bundle timelines) (poolId : ResourcePoolId) (t : Timestamp) :
    bundle.demandAt poolId t ≤ 9223372036854775807 := by
  by_cases hne : bundle.claimsOn poolId = []
  · rw [Bundle.demandAt_of_nil hne]
    norm_num
  · obtain ⟨-, -, -, -, -, -, -, -, hle⟩ := ha.present poolId hne
    exact hle t

/-- Restored timelines can be read. -/
theorem Restored.overridesWellFormed {s : EngineState} {bundle : Bundle}
    {timelines : OrderedMap ResourcePoolId SlackTimeline} (h : Restored s bundle timelines) :
    OverridesWellFormed timelines := by
  intro poolId tl htl
  by_cases hne : bundle.claimsOn poolId = []
  · rw [h.absent poolId hne] at htl
    cases htl
  · obtain ⟨-, tl', -, htl', hwf, -⟩ := h.present poolId hne
    obtain rfl : tl = tl' := Option.some.inj (htl.symm.trans htl')
    exact hwf

/-- Without overrides there is nothing that cannot be read. -/
theorem overridesWellFormed_empty :
    OverridesWellFormed (∅ : OrderedMap ResourcePoolId SlackTimeline) := by
  intro poolId tl htl
  rw [OrderedMap.lookup_empty] at htl
  cases htl

/-- A hold takes its demand from the current timelines. -/
theorem IndexExact.withHold {s : EngineState} (h : s.IndexExact) {id : PromiseId} {p : Promise}
    {bundle : Bundle} {timelines : OrderedMap ResourcePoolId SlackTimeline} {seq : SequenceNumber}
    {now : Timestamp} {kind : EventKind} (habsent : id ∉ s.promises)
    (hactive : p.isActive = true) (hbundle : p.bundle = bundle)
    (hadmitted : s.evaluateBundleAdmission bundle = .ok (.available timelines)) :
    (s.withPromise id p (OrderedMap.extend s.slackTimelines timelines) seq now kind).IndexExact := by
  have ha := evaluateBundle_available h.wellFormed overridesWellFormed_empty hadmitted
  have hnew (poolId : ResourcePoolId) (t : Timestamp) :
      p.demandAt poolId t = bundle.demandAt poolId t := by
    rw [Promise.demandAt, if_pos hactive, hbundle]
  have hold (poolId : ResourcePoolId) (t : Timestamp) : s.demandOf id poolId t = 0 := by
    rw [demandOf, OrderedMap.not_mem_iff_lookup.mp habsent, Option.elim_none]
  have hbase {poolId : ResourcePoolId} {base : SlackTimeline} {deficitFloor : Option SlackTimeline}
      (hon : s.EvaluatedOn ∅ poolId base deficitFloor) : s.slackTimelines[poolId]? = some base := by
    obtain ⟨hover, -⟩ | ⟨-, hbase, -⟩ := hon
    · rw [OrderedMap.lookup_empty] at hover
      cases hover
    · exact hbase
  refine h.withPromise (fun poolId hmem => ?_) (fun poolId tl htl => ?_) ?_ fun poolId t => ?_
  · obtain ⟨tl', htl'⟩ := OrderedMap.mem_iff_lookup.mp hmem
    rw [OrderedMap.lookup_extend] at htl'
    by_cases hne : bundle.claimsOn poolId = []
    · rw [ha.absent poolId hne, Option.none_or] at htl'
      exact OrderedMap.mem_iff_lookup.mpr ⟨tl', htl'⟩
    · obtain ⟨base, deficitFloor, -, hon, -⟩ := ha.present poolId hne
      exact OrderedMap.mem_iff_lookup.mpr ⟨base, hbase hon⟩
  · rw [OrderedMap.lookup_extend]
    by_cases hne : bundle.claimsOn poolId = []
    · refine ⟨tl, by rw [ha.absent poolId hne, Option.none_or, htl], h.wellFormed poolId tl htl,
        fun t => ?_⟩
      rw [hold, hnew, Bundle.demandAt_of_nil hne, add_zero, sub_zero]
    · obtain ⟨base, deficitFloor, tl', hon, htl', hwf, hval, -⟩ := ha.present poolId hne
      obtain rfl : base = tl := Option.some.inj ((hbase hon).symm.trans htl)
      refine ⟨tl', by rw [htl', Option.some_or], hwf, fun t => ?_⟩
      rw [hval, hold, hnew, add_zero]
  · rw [hbundle]
    exact ha.pool_mem h
  · rw [hnew]
    exact ha.bounded poolId t

/-- A replacement gives the old bundle back and takes the new one. -/
theorem IndexExact.withReplaced {s : EngineState} (h : s.IndexExact) {id : PromiseId}
    {p p' : Promise} {bundle : Bundle} {restored adjusted : OrderedMap ResourcePoolId SlackTimeline}
    {seq : SequenceNumber} {now : Timestamp} {kind : EventKind} (hp : s.promises[id]? = some p)
    (hactive : p.isActive = true) (hactive' : p'.isActive = true) (hbundle : p'.bundle = bundle)
    (hrestored : s.restoredTimelines p.bundle = .ok restored)
    (hadmitted : s.evaluateBundleWithOverrides bundle restored = .ok (.available adjusted)) :
    (s.withPromise id p'
      (OrderedMap.extend s.slackTimelines (OrderedMap.extend restored adjusted)) seq now
      kind).IndexExact := by
  have hr := restoredTimelines_sound h.wellFormed hrestored
  have ha := evaluateBundle_available h.wellFormed hr.overridesWellFormed hadmitted
  have hnew (poolId : ResourcePoolId) (t : Timestamp) :
      p'.demandAt poolId t = bundle.demandAt poolId t := by
    rw [Promise.demandAt, if_pos hactive', hbundle]
  have hold (poolId : ResourcePoolId) (t : Timestamp) :
      s.demandOf id poolId t = p.bundle.demandAt poolId t := by
    rw [demandOf, hp, Option.elim_some, Promise.demandAt, if_pos hactive]
  -- after the old bundle is given back every pool has its demand added
  have hmid (poolId : ResourcePoolId) (tl : SlackTimeline)
      (htl : s.slackTimelines[poolId]? = some tl) :
      ∃ mid, (restored[poolId]?.or s.slackTimelines[poolId]?) = some mid ∧ mid.WellFormed ∧
        ∀ t, mid.slackValue t = tl.slackValue t + p.bundle.demandAt poolId t := by
    by_cases hne : p.bundle.claimsOn poolId = []
    · refine ⟨tl, by rw [hr.absent poolId hne, Option.none_or, htl], h.wellFormed poolId tl htl,
        fun t => ?_⟩
      rw [Bundle.demandAt_of_nil hne, add_zero]
    · obtain ⟨tl₀, mid, htl₀, hmid, hwf, hval⟩ := hr.present poolId hne
      obtain rfl : tl₀ = tl := Option.some.inj (htl₀.symm.trans htl)
      exact ⟨mid, by rw [hmid, Option.some_or], hwf, hval⟩
  have hbase {poolId : ResourcePoolId} {base : SlackTimeline} {deficitFloor : Option SlackTimeline}
      (hon : s.EvaluatedOn restored poolId base deficitFloor) :
      restored[poolId]?.or s.slackTimelines[poolId]? = some base := by
    obtain ⟨hover, -⟩ | ⟨hover, hbase, -⟩ := hon
    · rw [hover, Option.some_or]
    · rw [hover, Option.none_or, hbase]
  have hmem_of {poolId : ResourcePoolId} {tl' : SlackTimeline}
      (htl' : restored[poolId]?.or s.slackTimelines[poolId]? = some tl') :
      poolId ∈ s.slackTimelines := by
    by_cases hne : p.bundle.claimsOn poolId = []
    · rw [hr.absent poolId hne, Option.none_or] at htl'
      exact OrderedMap.mem_iff_lookup.mpr ⟨tl', htl'⟩
    · obtain ⟨tl, -, htl, -⟩ := hr.present poolId hne
      exact OrderedMap.mem_iff_lookup.mpr ⟨tl, htl⟩
  refine h.withPromise (fun poolId hmem => ?_) (fun poolId tl htl => ?_) ?_ fun poolId t => ?_
  · obtain ⟨tl', htl'⟩ := OrderedMap.mem_iff_lookup.mp hmem
    rw [OrderedMap.lookup_extend, OrderedMap.lookup_extend] at htl'
    by_cases hne : bundle.claimsOn poolId = []
    · rw [ha.absent poolId hne, Option.none_or] at htl'
      exact hmem_of htl'
    · obtain ⟨base, deficitFloor, -, hon, -⟩ := ha.present poolId hne
      exact hmem_of (hbase hon)
  · rw [OrderedMap.lookup_extend, OrderedMap.lookup_extend]
    obtain ⟨mid, hmid, hwf, hval⟩ := hmid poolId tl htl
    by_cases hne : bundle.claimsOn poolId = []
    · refine ⟨mid, by rw [ha.absent poolId hne, Option.none_or, hmid], hwf, fun t => ?_⟩
      rw [hval, hold, hnew, Bundle.demandAt_of_nil hne, sub_zero]
    · obtain ⟨base, deficitFloor, tl', hon, htl', hwf', hval', -⟩ := ha.present poolId hne
      obtain rfl : base = mid := Option.some.inj ((hbase hon).symm.trans hmid)
      refine ⟨tl', by rw [htl', Option.some_or, Option.some_or], hwf', fun t => ?_⟩
      rw [hval', hval, hold, hnew]
  · rw [hbundle]
    exact ha.pool_mem h
  · rw [hnew]
    exact ha.bounded poolId t

/-- Every transition keeps the index exact. -/
theorem IndexExact.transition {now : Timestamp} {change : Change} {s s' : EngineState}
    (h : s.IndexExact) (hstep : Transition now change s s') : s'.IndexExact := by
  cases hstep with
  | expire promise next expired restored =>
    obtain ⟨hadv, hstate, hbundle⟩ := Promise.expire_eq_ok expired
    exact h.withEnded promise hadv.active (by rw [Promise.isActive, hstate]; rfl) hbundle restored
  | createPool absent next built =>
    rename_i pool seq tl
    obtain ⟨tl', htl', hwf, hvalue⟩ := SlackTimeline.fromCapacityCurve_spec pool.capacityCurve
    obtain rfl : tl = tl' := Except.ok.inj (built.symm.trans htl')
    refine h.withPool hwf fun t => ?_
    rw [usageAt_of_no_claims, sub_zero]
    · exact hvalue t
    · intro id p hp
      by_contra hne
      obtain ⟨c, hc, hpool⟩ := Bundle.claimsOn_ne_nil.mp hne
      exact absent (hpool ▸ h.claims id p hp c hc)
  | revise present next indexed before rebuilt after =>
    obtain ⟨hwf, hvalue⟩ := rebuilt_spec rebuilt
    exact h.withPool hwf hvalue
  | hold absent next created admitted =>
    obtain ⟨-, rfl⟩ := Promise.withId_eq_ok created
    exact h.withHold absent rfl rfl admitted
  | commit promise next committed =>
    rename_i id expected new p p' seq
    obtain ⟨-, -, hadv, hstate, hbundle⟩ := Promise.commit_eq_ok committed
    have hdemand (poolId : ResourcePoolId) (t : Timestamp) :
        s.demandOf id poolId t = p'.demandAt poolId t := by
      rw [demandOf, promise, Option.elim_some, Promise.demandAt, Promise.demandAt, hadv.active,
        Promise.isActive, hstate, hbundle]
      rfl
    refine h.withPromise (fun _ hmem => hmem) (fun poolId tl htl => ⟨tl, htl, h.wellFormed poolId tl htl,
      fun t => ?_⟩) ?_ fun poolId t => ?_
    · rw [hdemand]
      ring
    · rw [hbundle]
      exact h.claims _ p promise
    · rw [← hdemand, demandOf, promise]
      exact h.bounded _ p promise poolId t
  | release promise next released restored =>
    obtain ⟨-, -, hadv, hstate, hbundle⟩ := Promise.release_eq_ok released
    exact h.withEnded promise hadv.active (by rw [Promise.isActive, hstate]; rfl) hbundle restored
  | replace promise next replaced givenBack admitted =>
    rename_i id expected new bundle live p p' seq restored adjusted
    obtain ⟨-, -, hadv, hstate, hbundle⟩ := Promise.replace_eq_ok replaced
    refine h.withReplaced promise hadv.active ?_ hbundle givenBack admitted
    rw [Promise.isActive, hstate]
    cases live <;> rfl

/-- The empty index is exact. -/
theorem indexExact_empty : EngineState.empty.IndexExact := by
  refine ⟨fun poolId => Iff.rfl, fun poolId tl htl => ?_, fun poolId pool tl hpool => ?_,
    fun id p hp => ?_, fun id p hp => ?_⟩
  · rw [EngineState.empty, OrderedMap.lookup_empty] at htl
    cases htl
  · rw [EngineState.empty, OrderedMap.lookup_empty] at hpool
    cases hpool
  · rw [EngineState.empty, OrderedMap.lookup_empty] at hp
    cases hp
  · rw [EngineState.empty, OrderedMap.lookup_empty] at hp
    cases hp

/-- The cached responses do not matter to the index. -/
theorem IndexExact.records {s : EngineState} (h : s.IndexExact)
    (records : OrderedMap Identity IdempotencyRecord) :
    { s with idempotencyRecords := records }.IndexExact :=
  ⟨h.pools, h.wellFormed, h.exact, h.claims, h.bounded⟩

/-- A pool of an exact index has a timeline that is read as capacity minus usage. -/
theorem IndexExact.slackAt {s : EngineState} (h : s.IndexExact) {poolId : ResourcePoolId}
    {pool : ResourcePool} (hpool : s.resourcePools[poolId]? = some pool) :
    ∃ tl, s.slackTimelines[poolId]? = some tl ∧ ∀ t, ∃ slack, tl.slackAt t = .ok slack ∧
      slack.val = (pool.capacityAt t).val - s.usageAt poolId t := by
  obtain ⟨tl, htl⟩ := OrderedMap.mem_iff_lookup.mp
    ((h.pools poolId).mpr (OrderedMap.mem_iff_lookup.mpr ⟨pool, hpool⟩))
  refine ⟨tl, htl, fun t => ?_⟩
  obtain ⟨slack, hslack, hval⟩ := SlackTimeline.slackAt_spec (h.wellFormed poolId tl htl) t
  exact ⟨slack, hslack, by rw [hval, h.exact poolId pool tl hpool htl]⟩

end EngineState

namespace Engine

open EngineState

variable {blake3 : List UInt8 → CommandHash}

/-- The index of a reachable engine is exact. -/
theorem Reachable.indexExact {e : Engine} (h : Reachable blake3 e) : e.state.IndexExact :=
  Reachable.invariant indexExact_empty (fun _ _ _ _ hs => hs.transition)
    (fun _ records hs => hs.records records) h

/-- A rebuilt pool has a timeline with the slack of the maintained one. -/
theorem rebuildTimeline_spec {s : EngineState} (h : s.IndexExact) {poolId : ResourcePoolId}
    {pool : ResourcePool} (hpool : s.resourcePools[poolId]? = some pool) :
    ∃ tl tl', s.slackTimelines[poolId]? = some tl ∧
      rebuildTimeline (OrderedMap.vals s.promises) (poolId, pool) = .ok tl' ∧ tl'.WellFormed ∧
      ∀ t, tl'.slackValue t = tl.slackValue t := by
  obtain ⟨tl, htl⟩ := OrderedMap.mem_iff_lookup.mp
    ((h.pools poolId).mpr (OrderedMap.mem_iff_lookup.mpr ⟨pool, hpool⟩))
  have hwf := h.wellFormed poolId tl htl
  have hexact := h.exact poolId pool tl hpool htl
  obtain ⟨tl', htl', hwf', hvalue'⟩ := SlackTimeline.fromCapacityAndClaims_spec
    fun t => by
      rw [claimUsage_activeClaims]
      exact hexact t ▸ hwf.isSlack t
  refine ⟨tl, tl', htl, ?_, hwf', fun t => ?_⟩
  · rw [rebuildTimeline, SlackTimeline.fromCapacityAndPromises, htl']
  · rw [hvalue', claimUsage_activeClaims, hexact]
    rfl

/-- Rebuilding an exact index succeeds, changes nothing else, and gives every pool a timeline
with the slack of the maintained one. -/
theorem rebuildSlackTimelines_spec {e : Engine} (h : e.state.IndexExact) :
    ∃ timelines, rebuildSlackTimelines e =
        .ok { e with state := { e.state with slackTimelines := timelines } } ∧
      (∀ poolId, poolId ∈ timelines ↔ poolId ∈ e.state.resourcePools) ∧
      ∀ (poolId : ResourcePoolId) (tl tl' : SlackTimeline),
        e.state.slackTimelines[poolId]? = some tl → timelines[poolId]? = some tl' →
        tl'.WellFormed ∧ ∀ t, tl'.slackValue t = tl.slackValue t := by
  obtain ⟨timelines, htimelines⟩ := OrderedMap.foldlM_insert_exists
    (f := rebuildTimeline (OrderedMap.vals e.state.promises)) (l := e.state.resourcePools.toList)
    (fun entry hentry => by
      obtain ⟨tl, tl', -, htl', -⟩ := rebuildTimeline_spec h (OrderedMap.mem_toList.mp hentry)
      exact ⟨tl', htl'⟩) ∅
  obtain ⟨hall, hrest⟩ :=
    OrderedMap.foldlM_insert_ok (OrderedMap.toList_keys_nodup _) htimelines
  have hlookup (poolId : ResourcePoolId) (tl' : SlackTimeline) (htl' : timelines[poolId]? = some tl') :
      ∃ pool, e.state.resourcePools[poolId]? = some pool ∧
        rebuildTimeline (OrderedMap.vals e.state.promises) (poolId, pool) = .ok tl' := by
    by_cases hmem : poolId ∈ e.state.resourcePools
    · obtain ⟨pool, hpool⟩ := OrderedMap.mem_iff_lookup.mp hmem
      obtain ⟨w, hw, hlookup⟩ := hall (poolId, pool) (OrderedMap.mem_toList.mpr hpool)
      obtain rfl : tl' = w := Option.some.inj (htl'.symm.trans hlookup)
      exact ⟨pool, hpool, hw⟩
    · rw [hrest poolId (mt OrderedMap.mem_keys_iff.mp hmem), OrderedMap.lookup_empty] at htl'
      cases htl'
  refine ⟨timelines, ?_, fun poolId => ⟨fun hmem => ?_, fun hmem => ?_⟩,
    fun poolId tl tl' htl htl' => ?_⟩
  · rw [rebuildSlackTimelines, htimelines]
    rfl
  · obtain ⟨tl', htl'⟩ := OrderedMap.mem_iff_lookup.mp hmem
    obtain ⟨pool, hpool, -⟩ := hlookup poolId tl' htl'
    exact OrderedMap.mem_iff_lookup.mpr ⟨pool, hpool⟩
  · obtain ⟨pool, hpool⟩ := OrderedMap.mem_iff_lookup.mp hmem
    obtain ⟨w, -, hw⟩ := hall (poolId, pool) (OrderedMap.mem_toList.mpr hpool)
    exact OrderedMap.mem_iff_lookup.mpr ⟨w, hw⟩
  · obtain ⟨pool, hpool, hrebuilt⟩ := hlookup poolId tl' htl'
    obtain ⟨tl₀, tl₁, htl₀, htl₁, hspec⟩ := rebuildTimeline_spec h hpool
    obtain rfl : tl₀ = tl := Option.some.inj (htl₀.symm.trans htl)
    obtain rfl : tl' = tl₁ := Except.ok.inj (hrebuilt.symm.trans htl₁)
    exact hspec

/-- In every reachable engine the index has a timeline for exactly the existing pools, every
timeline reads as capacity minus the claims of live promises at every timestamp, and rebuilding
succeeds with the same effective points. -/
theorem slack_index_exact {e : Engine} (h : Reachable blake3 e) :
    (∀ poolId, poolId ∈ e.state.slackTimelines ↔ poolId ∈ e.state.resourcePools) ∧
    (∀ (poolId : ResourcePoolId) (pool : ResourcePool),
      e.state.resourcePools[poolId]? = some pool →
      ∃ tl, e.state.slackTimelines[poolId]? = some tl ∧ ∀ t, ∃ slack, tl.slackAt t = .ok slack ∧
        slack.val = (pool.capacityAt t).val - e.state.usageAt poolId t) ∧
    ∃ timelines, rebuildSlackTimelines e =
        .ok { e with state := { e.state with slackTimelines := timelines } } ∧
      (∀ poolId, poolId ∈ timelines ↔ poolId ∈ e.state.resourcePools) ∧
      ∀ (poolId : ResourcePoolId) (tl : SlackTimeline), e.state.slackTimelines[poolId]? = some tl →
        ∃ tl' points, timelines[poolId]? = some tl' ∧ tl.effectivePoints = .ok points ∧
          tl'.effectivePoints = .ok points := by
  have hexact := h.indexExact
  obtain ⟨timelines, hrebuild, hkeys, hspec⟩ := rebuildSlackTimelines_spec hexact
  refine ⟨hexact.pools, fun poolId pool => hexact.slackAt, timelines, hrebuild, hkeys,
    fun poolId tl htl => ?_⟩
  have hmem := (hexact.pools poolId).mp (OrderedMap.mem_iff_lookup.mpr ⟨tl, htl⟩)
  obtain ⟨tl', htl'⟩ := OrderedMap.mem_iff_lookup.mp ((hkeys poolId).mpr hmem)
  have hwf := hexact.wellFormed poolId tl htl
  obtain ⟨hwf', hvalue⟩ := hspec poolId tl tl' htl htl'
  obtain ⟨points, hp, -⟩ := SlackTimeline.effectivePoints_spec hwf
  exact ⟨tl', points, htl', hp, (SlackTimeline.effectivePoints_congr hwf' hwf hvalue).trans hp⟩

/-- After the sample run five of ten units are left at the third tick. -/
theorem slack_index_exact_sample :
    ∃ tl, sampleEngine.state.slackTimelines[samplePoolId]? = some tl ∧
      ∃ slack, tl.slackAt (sampleTime 3) = .ok slack ∧ slack.val = 5 := by
  obtain ⟨pool, hpool, hcapacity⟩ := sampleEngine_pool
  obtain ⟨tl, htl, hslack⟩ := (slack_index_exact sampleEngine_reachable).2.1 _ pool hpool
  obtain ⟨slack, hread, hvalue⟩ := hslack (sampleTime 3)
  have husage : sampleEngine.state.usageAt samplePoolId (sampleTime 3) = 5 := by decide +kernel
  rw [hcapacity, husage] at hvalue
  exact ⟨tl, htl, slack, hread, hvalue⟩

end Engine

end PromiseDb
