import PromiseDb.Engine.EventLog
import PromiseDb.Engine.Expirations
import PromiseDb.Engine.NoOverselling

/-!
# Deficits and promises at risk

The deficits that the engine reports are exactly the timestamps at which the live promises use
more than the capacity of a pool.  They are reported for a pool, for the outcome of a capacity
revision, and, grouped by the promises that they affect, by the query for promises at risk.
-/

namespace PromiseDb

open StepFunction

/-- A live promise that overlaps one or more current deficits. -/
structure AtRiskPromise where
  /-- The promise considered at risk. -/
  promiseId : PromiseId
  /-- The matching deficits that overlap the promise. -/
  deficits : List CapacityDeficit

namespace EngineState

open SlackTimeline

/-! ## The deficits of a pool -/

/-- A list of deficits says exactly where the live promises use more of a pool than a curve
offers. -/
structure DeficitsExact (s : EngineState) (poolId : ResourcePoolId) (curve : CapacityCurve)
    (deficits : List CapacityDeficit) : Prop where
  /-- All deficits are those of the pool. -/
  pool : ∀ d ∈ deficits, d.resourcePoolId = poolId
  /-- Deficits come in chronological order without overlap, and differ where they touch. -/
  separated : deficits.Pairwise fun a b => a.interval.stop ≤ b.interval.start ∧
    (a.interval.stop = b.interval.start → a.quantity ≠ b.quantity)
  /-- The timestamps in a deficit are those at which usage exceeds capacity. -/
  covered : ∀ t, (∃ d ∈ deficits, d.interval.contains t = true) ↔
    (curve.capacityAt t).val < s.usageAt poolId t
  /-- The quantity of a deficit is the excess throughout its interval. -/
  quantity : ∀ d ∈ deficits, ∀ t, d.interval.contains t = true →
    d.quantity.val = s.usageAt poolId t - (curve.capacityAt t).val
  /-- A deficit lists the live promises with an overlapping claim on the pool, in order. -/
  affected : ∀ d ∈ deficits, d.affectedPromiseIds.Pairwise (fun a b => a < b) ∧
    ∀ id, id ∈ d.affectedPromiseIds ↔ ∃ p, s.promises[id]? = some p ∧ p.isActive = true ∧
      ∃ c ∈ p.bundle.claims, c.poolId = poolId ∧ c.interval.overlaps d.interval = true

/-- Every timestamp at which usage exceeds capacity lies in exactly one deficit. -/
theorem DeficitsExact.existsUnique {s : EngineState} {poolId : ResourcePoolId}
    {curve : CapacityCurve} {deficits : List CapacityDeficit}
    (h : s.DeficitsExact poolId curve deficits) {t : Timestamp}
    (ht : (curve.capacityAt t).val < s.usageAt poolId t) :
    ∃! d, d ∈ deficits ∧ d.interval.contains t = true := by
  obtain ⟨d, hd, hcontains⟩ := (h.covered t).mpr ht
  refine ⟨d, ⟨hd, hcontains⟩, fun d' ⟨hd', hcontains'⟩ => ?_⟩
  by_contra hne
  have hsymm : Std.Symm fun a b : CapacityDeficit => a.interval.stop ≤ b.interval.start ∨
      b.interval.stop ≤ a.interval.start := ⟨fun _ _ h => h.symm⟩
  have hapart : deficits.Pairwise fun a b => a.interval.stop ≤ b.interval.start ∨
      b.interval.stop ≤ a.interval.start := h.separated.imp fun hab => .inl hab.1
  have hstart := Interval.contains_iff.mp hcontains
  have hstart' := Interval.contains_iff.mp hcontains'
  rcases hapart.forall hd' hd hne with hle | hle
  · exact (hstart'.2.trans_le (hle.trans hstart.1)).false
  · exact (hstart.2.trans_le (hle.trans hstart'.1)).false

/-- The deficits read from a timeline that stands for capacity minus usage are exact. -/
theorem capacityDeficits_exact {s : EngineState} {poolId : ResourcePoolId} {curve : CapacityCurve}
    {tl : SlackTimeline} (hwf : tl.WellFormed)
    (hvalue : ∀ t, tl.slackValue t = (curve.capacityAt t).val - s.usageAt poolId t) :
    ∃ deficits, s.capacityDeficits poolId tl = .ok deficits ∧
      s.DeficitsExact poolId curve deficits := by
  have hlast : tl.slackValue lastTimestamp = 0 := by
    rw [hvalue, usageAt_last, capacityAt_last, sub_zero]
  obtain ⟨found, hfound, hof⟩ := deficitIntervals_spec hwf hlast
  refine ⟨_, by rw [capacityDeficits, hfound]; rfl, ?_⟩
  constructor
  · intro d hd
    obtain ⟨d', -, rfl⟩ := List.mem_map.mp hd
    rfl
  · exact List.pairwise_map.mpr hof.separated
  · intro t
    have hcovered := hof.covered t
    rw [hvalue, sub_neg] at hcovered
    rw [hcovered]
    constructor
    · rintro ⟨d, hd, hcontains⟩
      obtain ⟨d', hd', rfl⟩ := List.mem_map.mp hd
      exact ⟨d', hd', hcontains⟩
    · rintro ⟨d', hd', hcontains⟩
      exact ⟨_, List.mem_map_of_mem hd', hcontains⟩
  · intro d hd t ht
    obtain ⟨d', hd', rfl⟩ := List.mem_map.mp hd
    have hamount := hof.amount d' hd' t ht
    rw [hvalue] at hamount
    show d'.amount.val = _
    rw [hamount, neg_sub]
  · intro d hd
    obtain ⟨d', -, rfl⟩ := List.mem_map.mp hd
    exact ⟨strictlyIncreasing_iff.mp (activeOverlapping_sorted s poolId d'.interval),
      fun id => mem_activeOverlapping⟩

/-- A pool of an exact index has exact deficits. -/
theorem IndexExact.deficits {s : EngineState} (h : s.IndexExact) {poolId : ResourcePoolId}
    {pool : ResourcePool} (hpool : s.resourcePools[poolId]? = some pool) :
    ∃ tl deficits, s.slackTimelines[poolId]? = some tl ∧
      s.capacityDeficits poolId tl = .ok deficits ∧
      s.DeficitsExact poolId pool.capacityCurve deficits := by
  obtain ⟨tl, htl⟩ := OrderedMap.mem_iff_lookup.mp
    ((h.pools poolId).mpr (OrderedMap.mem_iff_lookup.mpr ⟨pool, hpool⟩))
  have hvalue (t : Timestamp) : tl.slackValue t =
      (pool.capacityCurve.capacityAt t).val - s.usageAt poolId t :=
    h.exact poolId pool tl hpool htl t
  obtain ⟨deficits, hok, hexact⟩ := capacityDeficits_exact (h.wellFormed poolId tl htl) hvalue
  exact ⟨tl, deficits, htl, hok, hexact⟩

/-! ## Promises at risk -/

/-- Files a deficit under every promise that it affects. -/
def addAtRisk (promisesById : OrderedMap PromiseId (List CapacityDeficit))
    (deficit : CapacityDeficit) : OrderedMap PromiseId (List CapacityDeficit) :=
  deficit.affectedPromiseIds.foldl
    (fun promisesById promiseId => OrderedMap.upsert promisesById promiseId [] (· ++ [deficit]))
    promisesById

/-- Files the deficits of one pool that overlap a time range. -/
def addPoolAtRisk (s : EngineState) (resourcePoolId : Option ResourcePoolId)
    (timeRange : Option Interval) (promisesById : OrderedMap PromiseId (List CapacityDeficit))
    (entry : ResourcePoolId × SlackTimeline) :
    Except DomainError (OrderedMap PromiseId (List CapacityDeficit)) :=
  if resourcePoolId.any fun requested => decide (requested ≠ entry.1) then .ok promisesById
  else do
    let deficits ← s.capacityDeficits entry.1 entry.2
    return (deficits.filter fun deficit =>
      !timeRange.any fun range => !range.overlaps deficit.interval).foldl addAtRisk promisesById

/-- Lists active promises overlapping current deficit intervals. -/
def listAtRisk (s : EngineState) (resourcePoolId : Option ResourcePoolId)
    (timeRange : Option Interval) : Except DomainError (List AtRiskPromise) :=
  if resourcePoolId.any fun poolId => !s.resourcePools.contains poolId then
    .error .resourcePoolNotFound
  else do
    let promisesById ← s.slackTimelines.toList.foldlM
      (s.addPoolAtRisk resourcePoolId timeRange) ∅
    return promisesById.toList.map fun entry => ⟨entry.1, entry.2⟩

/-- The deficits of a list that affect a promise. -/
def affecting (id : PromiseId) (deficits : List CapacityDeficit) : List CapacityDeficit :=
  deficits.filter fun d => decide (id ∈ d.affectedPromiseIds)

/-- Filing a deficit under the promises of a list. -/
theorem lookup_fileUnder {ids : List PromiseId} (hids : ids.Nodup) (d : CapacityDeficit)
    (m : OrderedMap PromiseId (List CapacityDeficit)) (id : PromiseId) :
    (ids.foldl (fun m id => OrderedMap.upsert m id [] (· ++ [d])) m)[id]? =
      if id ∈ ids then some (m[id]?.getD [] ++ [d]) else m[id]? := by
  induction ids generalizing m with
  | nil => rfl
  | cons first rest ih =>
    obtain ⟨hfirst, hrest⟩ := List.nodup_cons.mp hids
    rw [List.foldl_cons, ih hrest, OrderedMap.lookup_upsert]
    by_cases heq : first = id
    · subst heq
      rw [if_neg hfirst, if_pos rfl, if_pos List.mem_cons_self]
    · rw [if_neg heq]
      simp only [List.mem_cons, Ne.symm heq, false_or]

/-- After deficits have been filed, every promise has those that affect it, in order. -/
theorem lookup_addAtRisk {deficits : List CapacityDeficit}
    (h : ∀ d ∈ deficits, d.affectedPromiseIds.Nodup)
    (m : OrderedMap PromiseId (List CapacityDeficit)) (id : PromiseId) :
    (deficits.foldl addAtRisk m)[id]? =
      if affecting id deficits = [] then m[id]?
      else some (m[id]?.getD [] ++ affecting id deficits) := by
  induction deficits generalizing m with
  | nil => rfl
  | cons d rest ih =>
    rw [List.foldl_cons, ih fun d' hd' => h d' (List.mem_cons_of_mem d hd'), addAtRisk,
      lookup_fileUnder (h d List.mem_cons_self)]
    by_cases hmem : id ∈ d.affectedPromiseIds
    · have hcons : affecting id (d :: rest) = d :: affecting id rest :=
        List.filter_cons_of_pos (decide_eq_true hmem)
      rw [if_pos hmem, hcons, if_neg (List.cons_ne_nil d _)]
      split
      · rename_i hnil
        rw [hnil]
      · rw [Option.getD_some, List.append_assoc, List.singleton_append]
    · have hcons : affecting id (d :: rest) = affecting id rest :=
        List.filter_cons_of_neg (by simpa using hmem)
      rw [if_neg hmem, hcons]

/-- Whether a query for promises at risk asks for a deficit. -/
def isRequested (resourcePoolId : Option ResourcePoolId) (timeRange : Option Interval)
    (d : CapacityDeficit) : Bool :=
  (!resourcePoolId.any fun requested => decide (requested ≠ d.resourcePoolId)) &&
    !timeRange.any fun range => !range.overlaps d.interval

/-- The deficits of all pools, pool by pool. -/
def currentDeficits (s : EngineState) : List CapacityDeficit :=
  s.slackTimelines.toList.flatMap fun entry =>
    (s.capacityDeficits entry.1 entry.2).toOption.getD []

/-- The deficits of a timeline of an exact index. -/
theorem IndexExact.deficitsOf {s : EngineState} (h : s.IndexExact) {poolId : ResourcePoolId}
    {tl : SlackTimeline} (htl : s.slackTimelines[poolId]? = some tl) :
    ∃ pool deficits, s.resourcePools[poolId]? = some pool ∧
      s.capacityDeficits poolId tl = .ok deficits ∧
      s.DeficitsExact poolId pool.capacityCurve deficits := by
  obtain ⟨pool, hpool⟩ := OrderedMap.mem_iff_lookup.mp
    ((h.pools poolId).mp (OrderedMap.mem_iff_lookup.mpr ⟨tl, htl⟩))
  obtain ⟨tl', deficits, htl', hok, hexact⟩ := h.deficits hpool
  obtain rfl := Option.some.inj (htl.symm.trans htl')
  exact ⟨pool, deficits, hpool, hok, hexact⟩

/-- The current deficits are those of the timelines. -/
theorem IndexExact.mem_currentDeficits {s : EngineState} (h : s.IndexExact) {d : CapacityDeficit} :
    d ∈ s.currentDeficits ↔ ∃ tl deficits, s.slackTimelines[d.resourcePoolId]? = some tl ∧
      s.capacityDeficits d.resourcePoolId tl = .ok deficits ∧ d ∈ deficits := by
  rw [currentDeficits, List.mem_flatMap]
  constructor
  · rintro ⟨entry, hentry, hd⟩
    have htl := OrderedMap.mem_toList.mp hentry
    obtain ⟨pool, deficits, -, hok, hexact⟩ := h.deficitsOf htl
    rw [hok] at hd
    rw [hexact.pool d hd]
    exact ⟨entry.2, deficits, htl, hok, hd⟩
  · rintro ⟨tl, deficits, htl, hok, hd⟩
    refine ⟨(d.resourcePoolId, tl), OrderedMap.mem_toList.mpr htl, ?_⟩
    rw [hok]
    exact hd

/-- The current deficits come pool by pool, and in chronological order for each pool. -/
theorem IndexExact.currentDeficits_sorted {s : EngineState} (h : s.IndexExact) :
    s.currentDeficits.Pairwise fun a b => a.resourcePoolId < b.resourcePoolId ∨
      (a.resourcePoolId = b.resourcePoolId ∧ a.interval.stop ≤ b.interval.start) := by
  have hdeficits {entry : ResourcePoolId × SlackTimeline} (hentry : entry ∈ s.slackTimelines.toList)
      {d : CapacityDeficit} (hd : d ∈ (s.capacityDeficits entry.1 entry.2).toOption.getD []) :
      d.resourcePoolId = entry.1 := by
    obtain ⟨pool, deficits, -, hok, hexact⟩ := h.deficitsOf (OrderedMap.mem_toList.mp hentry)
    rw [hok] at hd
    exact hexact.pool d hd
  refine List.pairwise_flatMap.mpr ⟨fun entry hentry => ?_, ?_⟩
  · obtain ⟨pool, deficits, -, hok, hexact⟩ := h.deficitsOf (OrderedMap.mem_toList.mp hentry)
    rw [hok]
    refine hexact.separated.imp_of_mem fun ha hb hab => .inr ⟨?_, hab.1⟩
    rw [hexact.pool _ ha, hexact.pool _ hb]
  · refine (OrderedMap.toList_sorted s.slackTimelines).imp_of_mem ?_
    intro entry entry' hentry hentry' hlt a ha b hb
    rw [hdeficits hentry ha, hdeficits hentry' hb]
    exact .inl hlt

/-- The loop over the pools files the deficits that are asked for. -/
theorem IndexExact.addPoolsAtRisk {s : EngineState} (h : s.IndexExact)
    (resourcePoolId : Option ResourcePoolId) (timeRange : Option Interval)
    {entries : List (ResourcePoolId × SlackTimeline)} (hentries : entries ⊆ s.slackTimelines.toList)
    (m : OrderedMap PromiseId (List CapacityDeficit)) :
    entries.foldlM (s.addPoolAtRisk resourcePoolId timeRange) m =
      .ok (((entries.flatMap fun entry =>
        (s.capacityDeficits entry.1 entry.2).toOption.getD []).filter
          (isRequested resourcePoolId timeRange)).foldl addAtRisk m) := by
  induction entries generalizing m with
  | nil => rfl
  | cons entry rest ih =>
    obtain ⟨hentry, hrest⟩ := List.cons_subset.mp hentries
    obtain ⟨pool, deficits, -, hok, hexact⟩ := h.deficitsOf (OrderedMap.mem_toList.mp hentry)
    have hfirst : s.addPoolAtRisk resourcePoolId timeRange m entry =
        .ok ((deficits.filter (isRequested resourcePoolId timeRange)).foldl addAtRisk m) := by
      rw [addPoolAtRisk]
      by_cases hother : resourcePoolId.any (fun requested => decide (requested ≠ entry.1)) = true
      · rw [if_pos hother, List.filter_eq_nil_iff.mpr]
        · rfl
        · intro d hd
          rw [isRequested, hexact.pool d hd, hother]
          simp
      · rw [if_neg hother, hok]
        have hfilter : deficits.filter (fun d =>
            !timeRange.any fun range => !range.overlaps d.interval) =
              deficits.filter (isRequested resourcePoolId timeRange) := by
          refine List.filter_congr fun d hd => ?_
          rw [isRequested, hexact.pool d hd, Bool.eq_false_of_not_eq_true hother]
          rfl
        rw [Except.ok_bind, hfilter]
        rfl
    rw [List.foldlM_cons, hfirst, Except.ok_bind, ih hrest, List.flatMap_cons, List.filter_append,
      List.foldl_append, hok]
    rfl

/-- The promises at risk are those that the deficits asked for affect, in order, each with
exactly the deficits that affect it. -/
theorem IndexExact.listAtRisk_spec {s : EngineState} (h : s.IndexExact)
    {resourcePoolId : Option ResourcePoolId} (timeRange : Option Interval)
    (hpool : ∀ poolId ∈ resourcePoolId, poolId ∈ s.resourcePools) :
    ∃ atRisk, s.listAtRisk resourcePoolId timeRange = .ok atRisk ∧
      atRisk.Pairwise (fun a b => a.promiseId < b.promiseId) ∧
      ∀ r, r ∈ atRisk ↔ r.deficits ≠ [] ∧ r.deficits = affecting r.promiseId
        (s.currentDeficits.filter (isRequested resourcePoolId timeRange)) := by
  have hknown : ¬(resourcePoolId.any fun poolId => !s.resourcePools.contains poolId) = true := by
    rw [Option.any_eq_true]
    rintro ⟨poolId, hmem, hnot⟩
    rw [OrderedMap.contains_iff.mpr (hpool poolId hmem)] at hnot
    cases hnot
  have hnodup : ∀ d ∈ s.currentDeficits.filter (isRequested resourcePoolId timeRange),
      d.affectedPromiseIds.Nodup := by
    intro d hd
    obtain ⟨tl, deficits, htl, hok, hmem⟩ := h.mem_currentDeficits.mp (List.mem_filter.mp hd).1
    obtain ⟨pool, deficits', -, hok', hexact⟩ := h.deficitsOf htl
    obtain rfl := Except.ok.inj (hok.symm.trans hok')
    exact (hexact.affected d hmem).1.imp fun hlt => hlt.ne
  refine ⟨(((s.currentDeficits.filter (isRequested resourcePoolId timeRange)).foldl addAtRisk
    ∅).toList.map fun entry => ⟨entry.1, entry.2⟩), ?_, ?_, fun r => ?_⟩
  · rw [listAtRisk, if_neg hknown, h.addPoolsAtRisk resourcePoolId timeRange (List.Subset.refl _) ∅]
    rfl
  · exact List.pairwise_map.mpr (OrderedMap.toList_sorted _)
  · rw [List.mem_map]
    constructor
    · rintro ⟨entry, hentry, rfl⟩
      have hlookup := OrderedMap.mem_toList.mp hentry
      rw [lookup_addAtRisk hnodup, OrderedMap.lookup_empty] at hlookup
      split at hlookup
      · cases hlookup
      · rename_i hne
        rw [Option.getD_none, List.nil_append] at hlookup
        obtain hlist := Option.some.inj hlookup
        exact ⟨fun hnil => hne (hlist.trans hnil), hlist.symm⟩
    · rintro ⟨hne, heq⟩
      refine ⟨(r.promiseId, r.deficits), OrderedMap.mem_toList.mpr ?_, rfl⟩
      rw [lookup_addAtRisk hnodup, OrderedMap.lookup_empty, if_neg (heq ▸ hne), Option.getD_none,
        List.nil_append, heq]

/-- Without filters, the promises at risk are the live ones with a claim that overlaps a deficit of
its pool, each with these deficits. -/
theorem IndexExact.listAtRisk_all {s : EngineState} (h : s.IndexExact) :
    ∃ atRisk, s.listAtRisk none none = .ok atRisk ∧
      atRisk.Pairwise (fun a b => a.promiseId < b.promiseId) ∧
      (∀ r ∈ atRisk, r.deficits ≠ [] ∧ r.deficits.Pairwise fun a b =>
        a.resourcePoolId < b.resourcePoolId ∨
          (a.resourcePoolId = b.resourcePoolId ∧ a.interval.stop ≤ b.interval.start)) ∧
      ∀ id d, (∃ r ∈ atRisk, r.promiseId = id ∧ d ∈ r.deficits) ↔
        ∃ p tl deficits, s.promises[id]? = some p ∧ p.isActive = true ∧
          s.slackTimelines[d.resourcePoolId]? = some tl ∧
          s.capacityDeficits d.resourcePoolId tl = .ok deficits ∧ d ∈ deficits ∧
          ∃ c ∈ p.bundle.claims, c.poolId = d.resourcePoolId ∧
            c.interval.overlaps d.interval = true := by
  have hrequested : ∀ poolId, (none : Option ResourcePoolId) = some poolId →
      s.resourcePools.contains poolId = true := by
    intro poolId hpool
    cases hpool
  obtain ⟨atRisk, hok, hsorted, hmem⟩ := h.listAtRisk_spec none hrequested
  have hall : s.currentDeficits.filter (isRequested none none) = s.currentDeficits :=
    List.filter_eq_self.mpr fun _ _ => rfl
  rw [hall] at hmem
  refine ⟨atRisk, hok, hsorted, fun r hr => ?_, fun id d => ?_⟩
  · obtain ⟨hne, heq⟩ := (hmem r).mp hr
    refine ⟨hne, ?_⟩
    rw [heq]
    exact h.currentDeficits_sorted.sublist List.filter_sublist
  · -- a promise is listed with a deficit when it is listed in the deficit
    have haffecting : (∃ r ∈ atRisk, r.promiseId = id ∧ d ∈ r.deficits) ↔
        d ∈ s.currentDeficits ∧ id ∈ d.affectedPromiseIds := by
      constructor
      · rintro ⟨r, hr, rfl, hd⟩
        rw [((hmem r).mp hr).2] at hd
        exact ⟨(List.mem_filter.mp hd).1, of_decide_eq_true (List.mem_filter.mp hd).2⟩
      · rintro ⟨hd, hid⟩
        have hmember : d ∈ affecting id s.currentDeficits :=
          List.mem_filter.mpr ⟨hd, decide_eq_true hid⟩
        exact ⟨⟨id, affecting id s.currentDeficits⟩,
          (hmem _).mpr ⟨List.ne_nil_of_mem hmember, rfl⟩, rfl, hmember⟩
    rw [haffecting, h.mem_currentDeficits]
    constructor
    · rintro ⟨⟨tl, deficits, htl, hok, hd⟩, hid⟩
      obtain ⟨pool, deficits', -, hok', hexact⟩ := h.deficitsOf htl
      obtain rfl := Except.ok.inj (hok.symm.trans hok')
      obtain ⟨p, hp, hactive, hclaim⟩ := ((hexact.affected d hd).2 id).mp hid
      exact ⟨p, tl, deficits, hp, hactive, htl, hok, hd, hclaim⟩
    · rintro ⟨p, tl, deficits, hp, hactive, htl, hok, hd, hclaim⟩
      obtain ⟨pool, deficits', -, hok', hexact⟩ := h.deficitsOf htl
      obtain rfl := Except.ok.inj (hok.symm.trans hok')
      exact ⟨⟨tl, deficits, htl, hok, hd⟩,
        ((hexact.affected d hd).2 id).mpr ⟨p, hp, hactive, hclaim⟩⟩

/-! ## Capacity revisions -/

/-- There are no deficits when usage stays within the capacity, and only then. -/
theorem DeficitsExact.eq_nil_iff {s : EngineState} {poolId : ResourcePoolId}
    {curve : CapacityCurve} {deficits : List CapacityDeficit}
    (h : s.DeficitsExact poolId curve deficits) :
    deficits = [] ↔ ∀ t, s.usageAt poolId t ≤ (curve.capacityAt t).val := by
  constructor
  · rintro rfl t
    by_contra hlt
    obtain ⟨d, hd, -⟩ := (h.covered t).mpr (not_le.mp hlt)
    cases hd
  · intro hle
    refine List.eq_nil_iff_forall_not_mem.mpr fun d hd => ?_
    have hstart : d.interval.contains d.interval.start = true :=
      Interval.contains_iff.mpr ⟨le_rfl, d.interval.start_lt_stop⟩
    exact ((h.covered _).mp ⟨d, hd, hstart⟩).not_ge (hle _)

/-- A revision of an existing pool fails when the slack of the new curve is not representable.
Otherwise its deficits are exact; it fails when it is strict and there are some, or when the
sequence is exhausted. -/
theorem IndexExact.reviseCapacityAt_outcome {s s₁ : EngineState} {count : Nat} {now : Timestamp}
    (hexpire : processExpirations now s = .ok count s₁) (h : s₁.IndexExact)
    {poolId : ResourcePoolId} {pool : ResourcePool} (hpool : s₁.resourcePools[poolId]? = some pool)
    (curve : CapacityCurve) (mode : CapacityRevisionMode) :
    ((∃ t, ¬IsSlack ((curve.capacityAt t).val - s₁.usageAt poolId t)) ∧
      reviseCapacityAt poolId curve mode now s = .error .indexOverflow s₁) ∨
    ((∀ t, IsSlack ((curve.capacityAt t).val - s₁.usageAt poolId t)) ∧
      ∃ deficits, s₁.DeficitsExact poolId curve deficits ∧
        ((mode = .strict ∧ deficits ≠ [] ∧
          reviseCapacityAt poolId curve mode now s = .error .capacityRevisionCreatesDeficit s₁) ∨
        ((mode = .strict → deficits = []) ∧
          ((s₁.sequence.get.val = 18446744073709551615 ∧
            reviseCapacityAt poolId curve mode now s = .error .sequenceOverflow s₁) ∨
          ∃ sequence s', s₁.sequence.next = .ok sequence ∧
            reviseCapacityAt poolId curve mode now s =
              .ok ⟨sequence, deficits, affectedPromises deficits⟩ s')))) := by
  obtain ⟨current, previous, hcurrent, hprevious, -⟩ := h.deficits hpool
  have hclaims (t : Timestamp) : claimUsage (activeClaims poolId (OrderedMap.vals s₁.promises)) t =
      s₁.usageAt poolId t := claimUsage_activeClaims s₁ poolId t
  unfold reviseCapacityAt
  rw [EStateM.bind_of_ok hexpire, EStateM.get_bind_apply, hpool, Option.elim_some,
    EStateM.bind_of_ok (EStateM.ofExcept_ok _ _), hcurrent, Option.elim_some,
    EStateM.bind_of_ok (EStateM.ofExcept_ok _ _), hprevious,
    EStateM.bind_of_ok (EStateM.ofExcept_ok _ _)]
  cases hbuilt : fromCapacityAndPromises curve poolId (OrderedMap.vals s₁.promises) with
  | error e =>
    refine .inl ⟨?_, rfl⟩
    by_contra hall
    push Not at hall
    have hslack (t : Timestamp) : IsSlack ((curve.capacityAt t).val -
        claimUsage (activeClaims poolId (OrderedMap.vals s₁.promises)) t) :=
      (hclaims t).symm ▸ hall t
    obtain ⟨tl, htl, -⟩ := fromCapacityAndClaims_spec hslack
    cases htl.symm.trans hbuilt
  | ok tl =>
    obtain ⟨hwf, hvalue⟩ := rebuilt_spec hbuilt
    obtain ⟨deficits, hdeficits, hexact⟩ := capacityDeficits_exact hwf hvalue
    refine .inr ⟨fun t => hvalue t ▸ hwf.isSlack t, deficits, hexact, ?_⟩
    rw [indexResult, EStateM.bind_of_ok (EStateM.ofExcept_ok _ _), hdeficits,
      EStateM.bind_of_ok (EStateM.ofExcept_ok _ _)]
    by_cases hmode : mode = .strict ∧ deficits ≠ []
    · rw [if_pos hmode]
      exact .inl ⟨hmode.1, hmode.2, rfl⟩
    · rw [if_neg hmode]
      refine .inr ⟨fun hstrict => ?_, ?_⟩
      · by_contra hne
        exact hmode ⟨hstrict, hne⟩
      · cases hsequence : s₁.sequence.next with
        | error e =>
          obtain ⟨rfl, hmax⟩ := SequenceNumber.next_eq_error.mp hsequence
          exact .inl ⟨hmax, rfl⟩
        | ok sequence => exact .inr ⟨sequence, _, rfl, rfl⟩

/-- A strict revision is accepted exactly when usage stays within the new curve, unless the
sequence is exhausted. -/
theorem IndexExact.strictRevision_iff {s s₁ : EngineState} {count : Nat} {now : Timestamp}
    (hexpire : processExpirations now s = .ok count s₁) (h : s₁.IndexExact)
    {poolId : ResourcePoolId} {pool : ResourcePool} (hpool : s₁.resourcePools[poolId]? = some pool)
    (hroom : s₁.sequence.get.val < 18446744073709551615) (curve : CapacityCurve) :
    (∃ outcome s', reviseCapacityAt poolId curve .strict now s = .ok outcome s') ↔
      ∀ t, s₁.usageAt poolId t ≤ (curve.capacityAt t).val := by
  obtain ⟨⟨t, ht⟩, herror⟩ | ⟨-, deficits, hexact, hcases⟩ :=
    h.reviseCapacityAt_outcome hexpire hpool curve .strict
  · rw [herror]
    refine iff_of_false (by rintro ⟨outcome, s', hok⟩; cases hok) fun hle => ht ?_
    have hnonneg := usageAt_nonneg s₁ poolId t
    have hcapacity : (curve.capacityAt t).val ≤ 9223372036854775807 := curve.capacityAt_le t
    have := hle t
    constructor <;> omega
  · rw [← hexact.eq_nil_iff]
    rcases hcases with ⟨-, hne, herror⟩ | ⟨hnil, ⟨hmax, -⟩ | ⟨sequence, s', -, hok⟩⟩
    · rw [herror]
      exact iff_of_false (by rintro ⟨outcome, s', hok⟩; cases hok) hne
    · omega
    · exact iff_of_true ⟨_, s', hok⟩ (hnil rfl)

/-- An accepted revision lists the deficits of the new curve. -/
theorem IndexExact.revision_deficits {s s₁ s' : EngineState} {count : Nat} {now : Timestamp}
    (hexpire : processExpirations now s = .ok count s₁) (h : s₁.IndexExact)
    {poolId : ResourcePoolId} {pool : ResourcePool} (hpool : s₁.resourcePools[poolId]? = some pool)
    {curve : CapacityCurve} {mode : CapacityRevisionMode} {outcome : CapacityRevisionOutcome}
    (hok : reviseCapacityAt poolId curve mode now s = .ok outcome s') :
    s₁.DeficitsExact poolId curve outcome.deficits := by
  obtain ⟨-, herror⟩ | ⟨-, deficits, hexact, ⟨-, -, herror⟩ | ⟨-, ⟨-, herror⟩ |
    ⟨sequence, s'', -, hok'⟩⟩⟩ := h.reviseCapacityAt_outcome hexpire hpool curve mode
  · cases herror.symm.trans hok
  · cases herror.symm.trans hok
  · cases herror.symm.trans hok
  · obtain ⟨rfl, -⟩ := EStateM.Result.ok.inj (hok'.symm.trans hok)
    exact hexact

end EngineState

namespace Engine

open EngineState

variable {blake3 : List UInt8 → CommandHash}

/-- In a reachable engine the deficits of a pool say exactly where usage exceeds capacity.  The
promises at risk are the live ones with a claim that overlaps a deficit of its pool, each with
these deficits.  A strict revision is accepted exactly when usage stays within the new curve, and
a forced one lists the deficits of the new curve. -/
theorem deficits_exact {e : Engine} (h : Reachable blake3 e) :
    (∀ (poolId : ResourcePoolId) (pool : ResourcePool),
      e.state.resourcePools[poolId]? = some pool →
      ∃ tl deficits, e.state.slackTimelines[poolId]? = some tl ∧
        e.state.capacityDeficits poolId tl = .ok deficits ∧
        e.state.DeficitsExact poolId pool.capacityCurve deficits ∧
        ∀ t, (pool.capacityAt t).val < e.state.usageAt poolId t →
          ∃! d, d ∈ deficits ∧ d.interval.contains t = true) ∧
    (∃ atRisk, e.state.listAtRisk none none = .ok atRisk ∧
      atRisk.Pairwise (fun a b => a.promiseId < b.promiseId) ∧
      (∀ r ∈ atRisk, r.deficits ≠ [] ∧ r.deficits.Pairwise fun a b =>
        a.resourcePoolId < b.resourcePoolId ∨
          (a.resourcePoolId = b.resourcePoolId ∧ a.interval.stop ≤ b.interval.start)) ∧
      ∀ id d, (∃ r ∈ atRisk, r.promiseId = id ∧ d ∈ r.deficits) ↔
        ∃ p tl deficits, e.state.promises[id]? = some p ∧ p.isActive = true ∧
          e.state.slackTimelines[d.resourcePoolId]? = some tl ∧
          e.state.capacityDeficits d.resourcePoolId tl = .ok deficits ∧ d ∈ deficits ∧
          ∃ c ∈ p.bundle.claims, c.poolId = d.resourcePoolId ∧
            c.interval.overlaps d.interval = true) ∧
    ∀ (now : Timestamp) (count : Nat) (s₁ : EngineState) (poolId : ResourcePoolId)
      (pool : ResourcePool) (curve : CapacityCurve),
      processExpirations now e.state = .ok count s₁ → s₁.resourcePools[poolId]? = some pool →
      s₁.sequence.get.val < 18446744073709551615 →
      ((∃ outcome s', reviseCapacityAt poolId curve .strict now e.state = .ok outcome s') ↔
        ∀ t, s₁.usageAt poolId t ≤ (curve.capacityAt t).val) ∧
      ∀ outcome s', reviseCapacityAt poolId curve .force now e.state = .ok outcome s' →
        s₁.DeficitsExact poolId curve outcome.deficits := by
  have hexact := h.indexExact
  refine ⟨fun poolId pool hpool => ?_, ?_, fun now count s₁ poolId pool curve hexpire hpool hroom => ?_⟩
  · obtain ⟨tl, deficits, htl, hok, hdeficits⟩ := hexact.deficits hpool
    exact ⟨tl, deficits, htl, hok, hdeficits, fun t => hdeficits.existsUnique⟩
  · exact hexact.listAtRisk_all
  · have hexact₁ : s₁.IndexExact := by
      have hspec := processExpirations_spec now e.state
      rw [hexpire] at hspec
      exact hexact.expirations hspec
    exact ⟨hexact₁.strictRevision_iff hexpire hpool hroom curve,
      fun outcome s' hok => hexact₁.revision_deficits hexpire hpool hok⟩

/-- A deficit of two units of the sample pool during ten ticks. -/
def sampleDeficit (start : Fin 1000) (id : PromiseId) : CapacityDeficit :=
  ⟨samplePoolId, sampleInterval start 10 sample_ten_pos, sampleQuantity 2, [id]⟩

/-- The deficits after the fall of the sample capacity. -/
def sampleDeficits : List CapacityDeficit :=
  [sampleDeficit 0 samplePromiseId, sampleDeficit 20 sampleSecondId]

/-- The promise and the deficits of an entry. -/
def atRiskPair (r : AtRiskPromise) : PromiseId × List CapacityDeficit :=
  (r.promiseId, r.deficits)

/-- The promises at risk after the fall of the sample capacity, with their deficits. -/
def sampleAtRisk : List (PromiseId × List CapacityDeficit) :=
  [(samplePromiseId, [sampleDeficit 0 samplePromiseId]),
    (sampleSecondId, [sampleDeficit 20 sampleSecondId])]

/-- After its capacity has fallen to three, the sample pool has two deficits, which put both sample
promises at risk.  A strict revision to four is refused, and a forced one lists what is left. -/
theorem deficits_exact_sample :
    (∃ tl, sampleFallenEngine.state.slackTimelines[samplePoolId]? = some tl ∧
      sampleFallenEngine.state.capacityDeficits samplePoolId tl = .ok sampleDeficits ∧
      sampleFallenEngine.state.DeficitsExact samplePoolId (sampleCurve 3) sampleDeficits ∧
      ∃! d, d ∈ sampleDeficits ∧ d.interval.contains (sampleTime 3) = true) ∧
    (∃ atRisk, sampleFallenEngine.state.listAtRisk none none = .ok atRisk ∧
      atRisk.map atRiskPair = sampleAtRisk ∧
      ∃ p, sampleFallenEngine.state.promises[sampleSecondId]? = some p ∧ p.isActive = true ∧
        ∃ c ∈ p.bundle.claims, c.poolId = samplePoolId ∧
          c.interval.overlaps (sampleInterval 20 10 sample_ten_pos) = true) ∧
    (¬∃ outcome s', reviseCapacityAt samplePoolId (sampleCurve 4) .strict (sampleTime 5)
      sampleFallenEngine.state = .ok outcome s') ∧
    ∃ outcome s', reviseCapacityAt samplePoolId (sampleCurve 4) .force (sampleTime 5)
        sampleFallenEngine.state = .ok outcome s' ∧
      sampleFallenEngine.state.DeficitsExact samplePoolId (sampleCurve 4) outcome.deficits := by
  obtain ⟨hdeficits, ⟨atRisk, hatRisk, -, -, hmeaning⟩, hrevisions⟩ :=
    deficits_exact sampleFallenEngine_reachable
  have hpool : sampleFallenEngine.state.resourcePools[samplePoolId]?.map
      ResourcePool.capacityCurve = some (sampleCurve 3) := by
    decide +kernel
  obtain ⟨pool, hpool, hcurve⟩ := Option.map_eq_some_iff.mp hpool
  refine ⟨?_, ⟨atRisk, hatRisk, ?_⟩, ?_⟩
  · obtain ⟨tl, deficits, htl, hok, hexact, hunique⟩ := hdeficits samplePoolId pool hpool
    have hlisted : (sampleFallenEngine.state.slackTimelines[samplePoolId]?.bind fun tl =>
        (sampleFallenEngine.state.capacityDeficits samplePoolId tl).toOption) =
          some sampleDeficits := by
      decide +kernel
    rw [htl, Option.bind_some, hok] at hlisted
    obtain rfl : deficits = sampleDeficits := Option.some.inj hlisted
    have husage : (3 : ℤ) < sampleFallenEngine.state.usageAt samplePoolId (sampleTime 3) := by
      decide +kernel
    refine ⟨tl, htl, hok, hcurve ▸ hexact, hunique (sampleTime 3) ?_⟩
    rw [ResourcePool.capacityAt, hcurve]
    exact husage
  · have hlisted : (sampleFallenEngine.state.listAtRisk none none).toOption.map
        (List.map atRiskPair) = some sampleAtRisk := by
      decide +kernel
    rw [hatRisk] at hlisted
    have hpairs : atRisk.map atRiskPair = sampleAtRisk := Option.some.inj hlisted
    refine ⟨hpairs, ?_⟩
    have hmem : (sampleSecondId, [sampleDeficit 20 sampleSecondId]) ∈
        atRisk.map atRiskPair := by
      rw [hpairs]
      decide
    obtain ⟨r, hr, heq⟩ := List.mem_map.mp hmem
    obtain ⟨hid, hd⟩ := Prod.mk.inj heq
    obtain ⟨p, -, -, hp, hactive, -, -, -, hoverlaps⟩ :=
      (hmeaning sampleSecondId (sampleDeficit 20 sampleSecondId)).mp
        ⟨r, hr, hid, hd ▸ List.mem_singleton_self _⟩
    exact ⟨p, hp, hactive, hoverlaps⟩
  · have hexpired : processExpirations (sampleTime 5) sampleFallenEngine.state =
        .ok 0 sampleFallenEngine.state := by
      apply processExpirations_of_none_due
      decide +kernel
    have hroom : sampleFallenEngine.state.sequence.get.val < 18446744073709551615 := by
      decide +kernel
    obtain ⟨hstrict, hforce⟩ :=
      hrevisions (sampleTime 5) 0 _ samplePoolId pool (sampleCurve 4) hexpired hpool hroom
    constructor
    · intro haccepted
      have husage : (4 : ℤ) < sampleFallenEngine.state.usageAt samplePoolId (sampleTime 3) := by
        decide +kernel
      exact absurd (hstrict.mp haccepted (sampleTime 3)) (not_le.mpr husage)
    · have haccepted : (EStateM.run' (reviseCapacityAt samplePoolId (sampleCurve 4) .force
          (sampleTime 5)) sampleFallenEngine.state).isSome = true := by
        decide +kernel
      obtain ⟨outcome, s', hok⟩ := EStateM.exists_ok_of_isSome haccepted
      exact ⟨outcome, s', hok, hforce outcome s' hok⟩

end Engine

end PromiseDb
