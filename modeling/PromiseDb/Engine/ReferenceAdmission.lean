import PromiseDb.Engine.IndexedAdmission
import PromiseDb.Library.Sweep

/-!
# Admission without the index

Whether a bundle fits can be told without the index: the line of time is divided where a claim or a
segment of the capacity curve begins or ends, and on every part the claims of the live promises and
those of the bundle are added up and compared to the capacity.  This plain sweep and the evaluation
on the index accept the same bundles.
-/

namespace PromiseDb

/-! ## The sweep -/

/-- The two ends of an interval. -/
def Interval.ends (i : Interval) : List Timestamp := [i.start, i.stop]

/-- Adds the quantity of a claim that contains the timestamp. -/
def addUsage (timestamp : Timestamp) (usage : Quantity) (claim : Claim) :
    Except DomainError Quantity :=
  if claim.interval.contains timestamp then
    (usage.checkedAdd claim.quantity).elim (.error .quantityOverflow) .ok
  else .ok usage

/-- The quantities of the claims at a timestamp, added up with checks. -/
def checkedUsage (claims : List Claim) (timestamp : Timestamp) : Except DomainError Quantity :=
  claims.foldlM (addUsage timestamp) ⟨0, U64.zero_range⟩

/-- Whether the candidates fit next to the active claims where a segment starts. -/
def checkSegment (pool : ResourcePool) (activeClaims candidateClaims : List Claim)
    (segmentStart : Timestamp) : Except DomainError Bool := do
  let activeUsage ← checkedUsage activeClaims segmentStart
  let candidateUsage ← checkedUsage candidateClaims segmentStart
  if candidateUsage.val = 0 then return true
  let finalUsage ← (activeUsage.checkedAdd candidateUsage).elim (.error .quantityOverflow) .ok
  return !decide (finalUsage > pool.capacityAt segmentStart)

namespace EngineState

/-- The claims of live promises on a pool that overlap a candidate. -/
def activeClaimsNear (s : EngineState) (poolId : ResourcePoolId) (candidateClaims : List Claim) :
    List Claim :=
  (SlackTimeline.activeClaims poolId (OrderedMap.vals s.promises)).filter fun active =>
    candidateClaims.any fun candidate => active.interval.overlaps candidate.interval

/-- Checks all candidate claims for one pool as a single hypothetical change. -/
def checkPoolAvailability (s : EngineState) (poolId : ResourcePoolId)
    (candidateClaims : List Claim) : Except DomainError Bool := do
  let pool ← s.resourcePools[poolId]?.elim (.error .resourcePoolNotFound) .ok
  let activeClaims := s.activeClaimsNear poolId candidateClaims
  let points := (candidateClaims.map Claim.interval ++
    pool.capacityCurve.segments.map CapacitySegment.interval ++
    activeClaims.map Claim.interval).flatMap Interval.ends
  points.segmentStarts.allM (checkSegment pool activeClaims candidateClaims)

/-- Whether a bundle fits, from the claims of the live promises. -/
def checkAvailability (s : EngineState) (bundle : Bundle) : Except DomainError Bool :=
  (claimsByPool bundle.claims).toList.allM fun entry => s.checkPoolAvailability entry.1 entry.2

end EngineState

/-! ## Sums -/

/-- What is added to a sum is the usage, unless the sum cannot be counted. -/
theorem foldlM_addUsage_cases (claims : List Claim) (t : Timestamp) (start : Quantity) :
    (∃ usage, claims.foldlM (addUsage t) start = .ok usage ∧
      usage.val = start.val + claimUsage claims t) ∨
    claims.foldlM (addUsage t) start = .error .quantityOverflow ∧
      18446744073709551615 < start.val + claimUsage claims t := by
  induction claims generalizing start with
  | nil => exact .inl ⟨start, rfl, (add_zero _).symm⟩
  | cons claim claims ih =>
    rw [List.foldlM_cons, claimUsage_cons, Claim.usageAt, addUsage]
    by_cases hcontains : claim.interval.contains t = true
    · rw [if_pos hcontains, if_pos hcontains]
      cases hsum : start.checkedAdd claim.quantity with
      | some sum =>
        have hval : start.val + claim.quantity.val = sum.val := BoundedInt.checkedAdd_eq_some.mp hsum
        rw [← add_assoc, hval]
        exact ih sum
      | none =>
        have hover := BoundedInt.ofInt?_eq_none.mp hsum
        have hnonneg := claimUsage_nonneg claims t
        have hstart := start.property.1
        have hquantity := claim.quantity.property.1
        exact .inr ⟨rfl, by omega⟩
    · rw [if_neg hcontains, if_neg hcontains, zero_add]
      exact ih start

/-- The checked sum is the usage, unless the usage cannot be counted. -/
theorem checkedUsage_cases (claims : List Claim) (t : Timestamp) :
    (∃ usage, checkedUsage claims t = .ok usage ∧ usage.val = claimUsage claims t) ∨
      checkedUsage claims t = .error .quantityOverflow ∧
        18446744073709551615 < claimUsage claims t := by
  have hcases := foldlM_addUsage_cases claims t ⟨0, U64.zero_range⟩
  rw [zero_add] at hcases
  exact hcases

/-- A usage that can be counted is counted. -/
theorem checkedUsage_ok {claims : List Claim} {t : Timestamp}
    (h : claimUsage claims t ≤ 18446744073709551615) :
    ∃ usage, checkedUsage claims t = .ok usage ∧ usage.val = claimUsage claims t := by
  rcases checkedUsage_cases claims t with hok | ⟨-, hover⟩
  · exact hok
  · omega

section Segment

variable {pool : ResourcePool} {active candidates : List Claim} {t : Timestamp}

/-- What the check of a segment decides. -/
theorem checkSegment_eq_true (h : claimUsage active t ≤ 18446744073709551615) :
    checkSegment pool active candidates t = .ok true ↔
      claimUsage candidates t = 0 ∨
        claimUsage active t + claimUsage candidates t ≤ (pool.capacityAt t).val := by
  obtain ⟨activeUsage, hactive, hactiveVal⟩ := checkedUsage_ok h
  have hrange := (pool.capacityAt t).property.2
  have hnonneg := claimUsage_nonneg active t
  unfold checkSegment
  rw [hactive, Except.ok_bind]
  obtain ⟨usage, husage, hval⟩ | ⟨herror, hover⟩ := checkedUsage_cases candidates t
  · rw [husage, Except.ok_bind, ← hval, ← hactiveVal]
    split
    · rename_i hzero
      exact ⟨fun _ => .inl hzero, fun _ => rfl⟩
    · rename_i hzero
      cases hsum : activeUsage.checkedAdd usage with
      | some sum =>
        have hsumVal : activeUsage.val + usage.val = sum.val :=
          BoundedInt.checkedAdd_eq_some.mp hsum
        rw [Option.elim_some, Except.ok_bind, hsumVal]
        constructor
        · intro hok
          have hle := Except.ok.inj hok
          exact .inr (not_lt.mp (of_decide_eq_false (by simpa using hle)))
        · rintro (hzero' | hle)
          · exact absurd hzero' hzero
          · have hnot : ¬sum > pool.capacityAt t := not_lt.mpr hle
            rw [decide_eq_false hnot]
            rfl
      | none =>
        have hover := BoundedInt.ofInt?_eq_none.mp hsum
        have husageNonneg := usage.property.1
        constructor
        · intro hok
          cases hok
        · rintro (hzero' | hle)
          · exact absurd hzero' hzero
          · omega
  · rw [herror]
    constructor
    · intro hok
      cases hok
    · rintro (hzero | hle)
      · omega
      · omega

/-- The check of a segment fails only if usage and demand cannot be counted together. -/
theorem checkSegment_eq_error {e : DomainError}
    (h : checkSegment pool active candidates t = .error e) :
    e = .quantityOverflow ∧
      18446744073709551615 < claimUsage active t + claimUsage candidates t := by
  have hactiveNonneg := claimUsage_nonneg active t
  have hcandidatesNonneg := claimUsage_nonneg candidates t
  unfold checkSegment at h
  obtain ⟨activeUsage, hactive, hactiveVal⟩ | ⟨herror, hover⟩ := checkedUsage_cases active t
  swap
  · rw [herror] at h
    exact ⟨(Except.error.inj h).symm, by omega⟩
  rw [hactive, Except.ok_bind] at h
  obtain ⟨usage, husage, hval⟩ | ⟨herror, hover⟩ := checkedUsage_cases candidates t
  swap
  · rw [herror] at h
    exact ⟨(Except.error.inj h).symm, by omega⟩
  rw [husage, Except.ok_bind] at h
  split at h
  · cases h
  · cases hsum : activeUsage.checkedAdd usage with
    | some sum =>
      rw [hsum] at h
      cases h
    | none =>
      rw [hsum] at h
      have hover := BoundedInt.ofInt?_eq_none.mp hsum
      exact ⟨(Except.error.inj h).symm, by omega⟩

end Segment

/-! ## Usage near the candidates -/

/-- Claims that do not contain a timestamp are not used there. -/
theorem claimUsage_filter {keep : Claim → Bool} {claims : List Claim} {t : Timestamp}
    (h : ∀ c ∈ claims, c.interval.contains t = true → keep c = true) :
    claimUsage (claims.filter keep) t = claimUsage claims t := by
  induction claims with
  | nil => rfl
  | cons c claims ih =>
    obtain ⟨hc, hrest⟩ := List.forall_mem_cons.mp h
    by_cases hkeep : keep c = true
    · rw [List.filter_cons_of_pos hkeep, claimUsage_cons, claimUsage_cons, ih hrest]
    · have hout : c.usageAt t = 0 := if_neg fun hcontains => hkeep (hc hcontains)
      rw [List.filter_cons_of_neg hkeep, claimUsage_cons, hout, zero_add, ih hrest]

/-- Where no segment of a curve begins or ends its capacity stays the same. -/
theorem CapacityCurve.capacityAt_congr {curve : CapacityCurve} {s t : Timestamp} (hst : s ≤ t)
    (h : ∀ seg ∈ curve.segments, (seg.interval.start ≤ s ∨ t < seg.interval.start) ∧
      (seg.interval.stop ≤ s ∨ t < seg.interval.stop)) :
    (curve.capacityAt t).val = (curve.capacityAt s).val := by
  have hiff (seg : CapacitySegment) (hseg : seg ∈ curve.segments) :
      seg.interval.contains t = true ↔ seg.interval.contains s = true := by
    obtain ⟨hstart, hstop⟩ := h seg hseg
    rw [Interval.contains_iff, Interval.contains_iff]
    constructor
    · rintro ⟨hle, hlt⟩
      exact ⟨hstart.resolve_right hle.not_gt, hst.trans_lt hlt⟩
    · rintro ⟨hle, hlt⟩
      exact ⟨hle.trans hst, hstop.resolve_left hlt.not_ge⟩
  by_cases hinside : ∃ seg ∈ curve.segments, seg.interval.contains s = true
  · obtain ⟨seg, hseg, hs⟩ := hinside
    rw [capacityAt_of_contains hseg hs, capacityAt_of_contains hseg ((hiff seg hseg).mpr hs)]
  · rw [capacityAt_of_not_contains fun seg hseg hs => hinside ⟨seg, hseg, hs⟩,
      capacityAt_of_not_contains fun seg hseg ht => hinside ⟨seg, hseg, (hiff seg hseg).mp ht⟩]

namespace EngineState

variable {s : EngineState} {poolId : ResourcePoolId} {candidates : List Claim} {t : Timestamp}

/-- The claims near the candidates are part of the usage. -/
theorem claimUsage_activeClaimsNear_le (s : EngineState) (poolId : ResourcePoolId)
    (candidates : List Claim) (t : Timestamp) :
    claimUsage (s.activeClaimsNear poolId candidates) t ≤ s.usageAt poolId t := by
  rw [← claimUsage_activeClaims]
  unfold activeClaimsNear
  induction SlackTimeline.activeClaims poolId (OrderedMap.vals s.promises) with
  | nil => exact le_rfl
  | cons c claims ih =>
    have hnonneg := c.usageAt_nonneg t
    rw [List.filter_cons]
    split
    · rw [claimUsage_cons, claimUsage_cons]
      omega
    · rw [claimUsage_cons]
      omega

/-- Where there is a candidate, the claims near the candidates are the whole usage. -/
theorem claimUsage_activeClaimsNear (hpos : 0 < claimUsage candidates t) :
    claimUsage (s.activeClaimsNear poolId candidates) t = s.usageAt poolId t := by
  obtain ⟨candidate, hcandidate, hcontains⟩ := claimUsage_pos_iff.mp hpos
  rw [← claimUsage_activeClaims]
  refine claimUsage_filter fun c hc hin => List.any_eq_true.mpr ⟨candidate, hcandidate, ?_⟩
  exact Interval.overlaps_iff_exists.mpr ⟨t, hin, hcontains⟩

/-- With an exact index, the usage of a pool can be counted. -/
theorem IndexExact.usageAt_le (h : s.IndexExact) (hpool : poolId ∈ s.resourcePools)
    (t : Timestamp) : s.usageAt poolId t ≤ 18446744073709551615 := by
  obtain ⟨pool, hpool⟩ := OrderedMap.mem_iff_lookup.mp hpool
  obtain ⟨tl, -, hslack⟩ := h.slackAt hpool
  obtain ⟨slack, -, hval⟩ := hslack t
  have hcapacity : (pool.capacityAt t).val ≤ 9223372036854775807 :=
    pool.capacityCurve.capacityAt_le t
  have hrange := slack.property.1
  omega

/-! ## What the sweep decides -/

/-- The candidates fit into a pool: at every timestamp that they cover, usage and demand stay within
the capacity. -/
def FitsBeside (s : EngineState) (poolId : ResourcePoolId) (candidates : List Claim) : Prop :=
  ∃ pool, s.resourcePools[poolId]? = some pool ∧ ∀ t, 0 < claimUsage candidates t →
    s.usageAt poolId t + claimUsage candidates t ≤ (pool.capacityAt t).val

/-- The sweep of a pool decides whether the candidates fit. -/
theorem checkPoolAvailability_eq_true (h : s.IndexExact) :
    s.checkPoolAvailability poolId candidates = .ok true ↔ s.FitsBeside poolId candidates := by
  unfold checkPoolAvailability FitsBeside
  cases hpool : s.resourcePools[poolId]? with
  | none =>
    constructor
    · intro hok
      cases hok
    · rintro ⟨pool, hnone, -⟩
      cases hnone
  | some pool =>
    have hcount (t : Timestamp) :
        claimUsage (s.activeClaimsNear poolId candidates) t ≤ 18446744073709551615 :=
      (claimUsage_activeClaimsNear_le s poolId candidates t).trans
        (h.usageAt_le (OrderedMap.mem_iff_lookup.mpr ⟨pool, hpool⟩) t)
    simp only [Option.elim_some, Except.ok_bind, Option.some.injEq, exists_eq_left', List.allM_eq_true,
      checkSegment_eq_true (hcount _)]
    set points := (candidates.map Claim.interval ++
      pool.capacityCurve.segments.map CapacitySegment.interval ++
      (s.activeClaimsNear poolId candidates).map Claim.interval).flatMap Interval.ends with hpoints
    have hends (i : Interval) (hi : i ∈ candidates.map Claim.interval ++
        pool.capacityCurve.segments.map CapacitySegment.interval ++
        (s.activeClaimsNear poolId candidates).map Claim.interval) :
        i.start ∈ points ∧ i.stop ∈ points :=
      ⟨List.mem_flatMap.mpr ⟨i, hi, List.mem_cons_self⟩,
        List.mem_flatMap.mpr ⟨i, hi, List.mem_cons_of_mem _ (List.mem_singleton_self _)⟩⟩
    have hcandidates (c : Claim) (hc : c ∈ candidates) :=
      hends c.interval (List.mem_append_left _ (List.mem_append_left _ (List.mem_map_of_mem hc)))
    have hsegments (seg : CapacitySegment) (hseg : seg ∈ pool.capacityCurve.segments) :=
      hends seg.interval (List.mem_append_left _ (List.mem_append_right _ (List.mem_map_of_mem hseg)))
    have hactive (c : Claim) (hc : c ∈ s.activeClaimsNear poolId candidates) :=
      hends c.interval (List.mem_append_right _ (List.mem_map_of_mem hc))
    -- nothing changes within a segment
    rw [List.forall_segmentStarts (fun a b hab => ?_)]
    swap
    · have hdemand : claimUsage candidates b = claimUsage candidates a :=
        claimUsage_congr hab.1 fun c hc =>
          ⟨hab.2 _ (hcandidates c hc).1, hab.2 _ (hcandidates c hc).2⟩
      have husage : claimUsage (s.activeClaimsNear poolId candidates) b =
          claimUsage (s.activeClaimsNear poolId candidates) a :=
        claimUsage_congr hab.1 fun c hc => ⟨hab.2 _ (hactive c hc).1, hab.2 _ (hactive c hc).2⟩
      have hcapacity : (pool.capacityAt b).val = (pool.capacityAt a).val :=
        CapacityCurve.capacityAt_congr hab.1 fun seg hseg =>
          ⟨hab.2 _ (hsegments seg hseg).1, hab.2 _ (hsegments seg hseg).2⟩
      rw [hdemand, husage, hcapacity]
    constructor
    · intro hall t hpos
      obtain ⟨c, hc, hcontains⟩ := claimUsage_pos_iff.mp hpos
      obtain ⟨hstart, hstop⟩ := Interval.contains_iff.mp hcontains
      rcases hall t ⟨_, (hcandidates c hc).1, hstart⟩ ⟨_, (hcandidates c hc).2, hstop⟩ with
        hzero | hle
      · omega
      · rwa [claimUsage_activeClaimsNear hpos] at hle
    · intro hall t _ _
      rcases (claimUsage_nonneg candidates t).eq_or_lt with hzero | hpos
      · exact .inl hzero.symm
      · rw [claimUsage_activeClaimsNear hpos]
        exact .inr (hall t hpos)

/-- The sweep of a pool fails only if the pool does not exist or usage and demand cannot be counted
together. -/
theorem checkPoolAvailability_eq_error {e : DomainError}
    (h : s.checkPoolAvailability poolId candidates = .error e) :
    s.resourcePools[poolId]? = none ∨ e = .quantityOverflow ∧
      ∃ t, 18446744073709551615 < s.usageAt poolId t + claimUsage candidates t := by
  unfold checkPoolAvailability at h
  cases hpool : s.resourcePools[poolId]? with
  | none => exact .inl rfl
  | some pool =>
    rw [hpool, Option.elim_some, Except.ok_bind] at h
    obtain ⟨t, -, herror⟩ := List.exists_of_allM_eq_error h
    obtain ⟨he, hover⟩ := checkSegment_eq_error herror
    have hle := claimUsage_activeClaimsNear_le s poolId candidates t
    exact .inr ⟨he, t, by omega⟩

/-! ## Bundles -/

/-- The sweep accepts a bundle if the claims on each pool fit. -/
theorem checkAvailability_eq_true (h : s.IndexExact) {bundle : Bundle} :
    s.checkAvailability bundle = .ok true ↔
      ∀ poolId, bundle.claimsOn poolId ≠ [] → s.FitsBeside poolId (bundle.claimsOn poolId) := by
  unfold checkAvailability
  rw [List.allM_eq_true]
  constructor
  · intro hall poolId hne
    exact (checkPoolAvailability_eq_true h).mp
      (hall (poolId, bundle.claimsOn poolId) (mem_claimsByPool.mpr ⟨hne, rfl⟩))
  · intro hall entry hentry
    obtain ⟨hne, heq⟩ := mem_claimsByPool.mp hentry
    rw [heq]
    exact (checkPoolAvailability_eq_true h).mpr (hall entry.1 hne)

/-- The index accepts a bundle if the claims on each pool fit. -/
theorem IndexExact.available_iff (h : s.IndexExact) {bundle : Bundle} :
    (∃ timelines, s.evaluateBundleAdmission bundle = .ok (.available timelines)) ↔
      ∀ poolId, bundle.claimsOn poolId ≠ [] → s.FitsBeside poolId (bundle.claimsOn poolId) := by
  constructor
  · rintro ⟨timelines, hok⟩
    have hadmitted := evaluateBundle_available h.wellFormed overridesWellFormed_empty hok
    have hpools := hadmitted.pool_mem h
    obtain ⟨admission, hadmission, hiff⟩ := h.evaluateBundleAdmission_iff hpools fun poolId t =>
      (hadmitted.bounded poolId t).trans (by norm_num)
    have hall := hiff.mp ⟨timelines, Except.ok.inj (hadmission.symm.trans hok)⟩
    intro poolId hne
    obtain ⟨c, hc, rfl⟩ := Bundle.claimsOn_ne_nil.mp hne
    obtain ⟨pool, hpool⟩ := OrderedMap.mem_iff_lookup.mp (hpools c hc)
    obtain ⟨tl, htl, -⟩ := h.slackAt hpool
    refine ⟨pool, hpool, fun t hpos => ?_⟩
    have hle : claimUsage (bundle.claimsOn c.poolId) t ≤ tl.slackValue t := hall _ tl t htl hpos
    rw [h.exact c.poolId pool tl hpool htl t] at hle
    omega
  · intro hall
    have hpools (c : Claim) (hc : c ∈ bundle.claims) : c.poolId ∈ s.resourcePools := by
      obtain ⟨pool, hpool, -⟩ := hall c.poolId (Bundle.claimsOn_ne_nil.mpr ⟨c, hc, rfl⟩)
      exact OrderedMap.mem_iff_lookup.mpr ⟨pool, hpool⟩
    have hfits (poolId : ResourcePoolId) (t : Timestamp) (hpos : 0 < bundle.demandAt poolId t) :
        ∃ pool, s.resourcePools[poolId]? = some pool ∧
          s.usageAt poolId t + bundle.demandAt poolId t ≤ (pool.capacityAt t).val := by
      have hne : bundle.claimsOn poolId ≠ [] := by
        intro hnil
        rw [Bundle.demandAt_of_nil hnil] at hpos
        exact lt_irrefl _ hpos
      obtain ⟨pool, hpool, hle⟩ := hall poolId hne
      exact ⟨pool, hpool, hle t hpos⟩
    have hrange (poolId : ResourcePoolId) (t : Timestamp) :
        bundle.demandAt poolId t ≤ 18446744073709551615 := by
      rcases (bundle.demandAt_nonneg poolId t).eq_or_lt with hzero | hpos
      · rw [← hzero]
        norm_num
      · obtain ⟨pool, -, hle⟩ := hfits poolId t hpos
        have husage := s.usageAt_nonneg poolId t
        have hcapacity := (pool.capacityAt t).property.2
        omega
    obtain ⟨admission, hadmission, hiff⟩ := h.evaluateBundleAdmission_iff hpools hrange
    obtain ⟨timelines, rfl⟩ := hiff.mpr fun poolId tl t htl hpos => by
      obtain ⟨pool, hpool, hle⟩ := hfits poolId t hpos
      rw [h.exact poolId pool tl hpool htl t]
      omega
    exact ⟨timelines, hadmission⟩

/-- The pools of a bundle that was evaluated exist. -/
theorem IndexExact.pool_mem_of_evaluated (h : s.IndexExact) {bundle : Bundle}
    {admission : BundleAdmission} (hok : s.evaluateBundleAdmission bundle = .ok admission)
    {poolId : ResourcePoolId} (hne : bundle.claimsOn poolId ≠ []) : poolId ∈ s.resourcePools := by
  unfold evaluateBundleAdmission at hok
  rw [evaluateBundleWithOverrides_eq] at hok
  obtain ⟨acc, hacc, -⟩ := Except.bind_eq_ok.mp hok
  have hevaluated : ∀ l acc acc', List.foldlM (s.evaluateNextPool ∅) acc l = .ok acc' →
      ∀ entry ∈ l, ∃ r, s.evaluatePoolWithOverrides ∅ entry.1 entry.2 = .ok r := by
    intro l
    induction l with
    | nil => exact fun _ _ _ entry hentry => absurd hentry List.not_mem_nil
    | cons entry l ih =>
      intro acc acc' hfold
      rw [List.foldlM_cons] at hfold
      obtain ⟨next, hnext, hrest⟩ := Except.bind_eq_ok.mp hfold
      obtain ⟨r, hr, -⟩ := Except.bind_eq_ok.mp hnext
      exact List.forall_mem_cons.mpr ⟨⟨r, hr⟩, ih next acc' hrest⟩
  obtain ⟨r, hr⟩ := hevaluated _ _ _ hacc (poolId, bundle.claimsOn poolId)
    (mem_claimsByPool.mpr ⟨hne, rfl⟩)
  obtain ⟨base, deficitFloor, ⟨hover, -⟩ | ⟨-, hbase, -⟩⟩ := evaluatedOn_of_ok hr
  · rw [OrderedMap.lookup_empty] at hover
    cases hover
  · exact (h.pools poolId).mp (OrderedMap.mem_iff_lookup.mpr ⟨base, hbase⟩)

end EngineState

namespace Engine

open EngineState

variable {blake3 : List UInt8 → CommandHash}

/-- On a reachable state, the plain sweep and the index accept the same bundles.  What the index
declines, the sweep declines as well, or it fails where usage and demand cannot be counted
together. -/
theorem checkAvailability_agrees {e : Engine} (h : Reachable blake3 e) (bundle : Bundle) :
    (e.state.checkAvailability bundle = .ok true ↔
      ∃ timelines, e.state.evaluateBundleAdmission bundle = .ok (.available timelines)) ∧
    ∀ conflicts, e.state.evaluateBundleAdmission bundle = .ok (.unavailable conflicts) →
      e.state.checkAvailability bundle = .ok false ∨
      e.state.checkAvailability bundle = .error .quantityOverflow ∧
        ∃ poolId t, 18446744073709551615 <
          e.state.usageAt poolId t + bundle.demandAt poolId t := by
  have hexact := h.indexExact
  have hagree : e.state.checkAvailability bundle = .ok true ↔
      ∃ timelines, e.state.evaluateBundleAdmission bundle = .ok (.available timelines) :=
    (checkAvailability_eq_true hexact).trans hexact.available_iff.symm
  refine ⟨hagree, fun conflicts hdeclined => ?_⟩
  cases hcheck : e.state.checkAvailability bundle with
  | ok passed =>
    cases passed with
    | true =>
      obtain ⟨timelines, havailable⟩ := hagree.mp hcheck
      rw [hdeclined] at havailable
      cases havailable
    | false => exact .inl rfl
  | error error =>
    obtain ⟨entry, hentry, herror⟩ := List.exists_of_allM_eq_error hcheck
    obtain ⟨hne, heq⟩ := mem_claimsByPool.mp hentry
    rw [heq] at herror
    rcases checkPoolAvailability_eq_error herror with hnone | ⟨rfl, t, hover⟩
    · have hmem := hexact.pool_mem_of_evaluated hdeclined hne
      exact absurd hmem (OrderedMap.not_mem_iff_lookup.mpr hnone)
    · exact .inr ⟨rfl, entry.1, t, hover⟩

/-- After the sample run the sweep accepts the request, and so does the index. -/
theorem checkAvailability_agrees_sample :
    ∃ timelines, sampleEngine.state.evaluateBundleAdmission sampleRequest =
      .ok (.available timelines) := by
  have hcheck : (sampleEngine.state.checkAvailability sampleRequest).toOption = some true := by
    decide +kernel
  exact (checkAvailability_agrees sampleEngine_reachable sampleRequest).1.mp
    (Except.toOption_eq_some.mp hcheck)

end Engine

end PromiseDb
