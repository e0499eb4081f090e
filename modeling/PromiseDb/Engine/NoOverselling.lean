import PromiseDb.Engine.IndexInvariant
import PromiseDb.Index.SlackDeficits

/-!
# No overselling

As long as capacity is only revised strictly, no timestamp of any pool is ever used beyond its
capacity.  Without deficits the floor of a replacement is zero, so every admission check says
that what is left is not negative, and a strict revision is accepted only when the rebuilt
timeline has no deficit.
-/

namespace PromiseDb

open StepFunction

namespace EngineState

open SlackTimeline

/-- No claim covers the last timestamp. -/
theorem usageAt_last (s : EngineState) (poolId : ResourcePoolId) :
    s.usageAt poolId lastTimestamp = 0 := by
  refine List.sum_eq_zero fun x hx => ?_
  obtain ⟨e, -, rfl⟩ := List.mem_map.mp hx
  show e.2.demandAt poolId lastTimestamp = 0
  have hzero : e.2.bundle.demandAt poolId lastTimestamp = 0 := by
    refine List.sum_eq_zero fun x hx => ?_
    obtain ⟨c, -, rfl⟩ := List.mem_map.mp hx
    exact if_neg (not_contains_last c.interval)
  rw [Promise.demandAt, hzero, ite_self]

/-- No capacity is left at the last timestamp. -/
theorem capacityAt_last (curve : CapacityCurve) : (curve.capacityAt lastTimestamp).val = 0 :=
  CapacityCurve.capacityAt_of_not_contains fun s _ => not_contains_last s.interval

/-! ## Maps of timelines that are nowhere negative -/

/-- No timeline of a map is negative anywhere. -/
def NonNegative (timelines : OrderedMap ResourcePoolId SlackTimeline) : Prop :=
  ∀ (poolId : ResourcePoolId) (tl : SlackTimeline), timelines[poolId]? = some tl →
    ∀ t, 0 ≤ tl.slackValue t

/-- Timelines stay non-negative when they are overridden by such ones. -/
theorem NonNegative.extend {m n : OrderedMap ResourcePoolId SlackTimeline} (hm : NonNegative m)
    (hn : NonNegative n) : NonNegative (OrderedMap.extend m n) := by
  intro poolId tl htl
  rw [OrderedMap.lookup_extend] at htl
  cases hlookup : n[poolId]? with
  | some tl' =>
    rw [hlookup, Option.some_or] at htl
    exact Option.some.inj htl ▸ hn poolId tl' hlookup
  | none =>
    rw [hlookup, Option.none_or] at htl
    exact hm poolId tl htl

/-- Giving a bundle back keeps the timelines from being negative. -/
theorem Restored.nonNegative {s : EngineState} {bundle : Bundle}
    {timelines : OrderedMap ResourcePoolId SlackTimeline} (h : Restored s bundle timelines)
    (hs : NonNegative s.slackTimelines) : NonNegative timelines := by
  intro poolId tl htl t
  by_cases hne : bundle.claimsOn poolId = []
  · rw [h.absent poolId hne] at htl
    cases htl
  · obtain ⟨tl₀, tl', htl₀, htl', -, hval⟩ := h.present poolId hne
    obtain rfl : tl = tl' := Option.some.inj (htl.symm.trans htl')
    rw [hval]
    exact add_nonneg (hs poolId tl₀ htl₀ t) (bundle.demandAt_nonneg poolId t)

/-- When the floor is zero and every check passes, nothing negative is left. -/
theorem AllPass.nonneg {claims : List Claim} {base : SlackTimeline}
    {deficitFloor : Option SlackTimeline} (hb : base.WellFormed)
    (h : AllPass claims base deficitFloor) (hbase : ∀ t, 0 ≤ base.slackValue t)
    (hfloor : ∀ t, 0 ≤ floorValue deficitFloor t) (t : Timestamp) :
    0 ≤ base.slackValue t - claimUsage claims t := by
  rcases (claimUsage_nonneg claims t).eq_or_lt with hzero | hpos
  · rw [← hzero, sub_zero]
    exact hbase t
  · obtain ⟨k, -, hchecked, husage, hvalue, -⟩ := exists_checked hb hpos
    have hpass := h k hchecked (husage ▸ hpos)
    rw [Passes, husage, hvalue] at hpass
    exact (hfloor k).trans hpass

/-- Admitting a bundle on timelines that are nowhere negative keeps them so. -/
theorem Admitted.nonNegative {s : EngineState}
    {overrides timelines : OrderedMap ResourcePoolId SlackTimeline} {bundle : Bundle}
    (h : Admitted s overrides bundle timelines) (hwf : s.TimelinesWellFormed)
    (howf : OverridesWellFormed overrides) (hs : NonNegative s.slackTimelines)
    (ho : NonNegative overrides) : NonNegative timelines := by
  intro poolId tl htl t
  by_cases hne : bundle.claimsOn poolId = []
  · rw [h.absent poolId hne] at htl
    cases htl
  · obtain ⟨base, deficitFloor, tl', hon, htl', -, hval, hpass, -⟩ := h.present poolId hne
    obtain rfl : tl = tl' := Option.some.inj (htl.symm.trans htl')
    rw [hval]
    refine hpass.nonneg (hon.wellFormed hwf howf).1 (fun t => ?_) (fun t => ?_) t
    · obtain ⟨hover, -⟩ | ⟨-, hbase, -⟩ := hon
      · exact ho poolId base hover t
      · exact hs poolId base hbase t
    · obtain ⟨-, current, hcurrent, rfl⟩ | ⟨-, -, rfl⟩ := hon
      · exact le_min (hs poolId current hcurrent t) le_rfl
      · exact le_rfl

/-! ## One transition -/

/-- The index is exact and nowhere negative. -/
structure NotOversold (s : EngineState) : Prop where
  /-- The index is exact. -/
  indexExact : s.IndexExact
  /-- No timeline is negative anywhere. -/
  nonNegative : NonNegative s.slackTimelines

/-- A change that leaves no deficit: every change but a revision with deficits. -/
def Change.WithoutDeficit : Change → Prop
  | .revise outcome => outcome.deficits = []
  | _ => True

/-- Every transition that leaves no deficit keeps the timelines from being negative. -/
theorem NotOversold.transition {now : Timestamp} {change : Change} {s s' : EngineState}
    (hchange : change.WithoutDeficit) (h : s.NotOversold) (hstep : Transition now change s s') :
    s'.NotOversold := by
  refine ⟨h.indexExact.transition hstep, ?_⟩
  have hwf := h.indexExact.wellFormed
  cases hstep with
  | expire promise next expired restored =>
    exact h.nonNegative.extend ((restoredTimelines_sound hwf restored).nonNegative h.nonNegative)
  | createPool absent next built =>
    rename_i pool seq tl
    obtain ⟨tl', htl', -, hvalue⟩ := SlackTimeline.fromCapacityCurve_spec pool.capacityCurve
    obtain rfl : tl = tl' := Except.ok.inj (built.symm.trans htl')
    intro q tl' htl' t
    have hlookup : (s.slackTimelines.insert pool.id tl)[q]? = some tl' := htl'
    rw [OrderedMap.lookup_insert] at hlookup
    split at hlookup
    · rw [← Option.some.inj hlookup, hvalue]
      exact (pool.capacityCurve.capacityAt t).property.1
    · exact h.nonNegative q tl' hlookup t
  | revise present next indexed before rebuilt after =>
    rename_i id pool curve current tl seq previous deficits
    obtain rfl : deficits = [] := hchange
    obtain ⟨htlwf, hvalue⟩ := rebuilt_spec rebuilt
    obtain ⟨found, hfound, hnil⟩ := Except.bind_eq_ok.mp after
    obtain rfl : found = [] := List.map_eq_nil_iff.mp (Except.ok.inj hnil)
    intro q tl' htl' t
    have hlookup : (s.slackTimelines.insert id tl)[q]? = some tl' := htl'
    rw [OrderedMap.lookup_insert] at hlookup
    split at hlookup
    · rw [← Option.some.inj hlookup]
      refine nonneg_of_no_deficits htlwf (indexResult_eq_ok.mp hfound) ?_ t
      rw [hvalue, usageAt_last, capacityAt_last, sub_zero]
    · exact h.nonNegative q tl' hlookup t
  | hold absent next created admitted =>
    refine h.nonNegative.extend ((evaluateBundle_available hwf overridesWellFormed_empty
      admitted).nonNegative hwf overridesWellFormed_empty h.nonNegative fun q tl htl => ?_)
    rw [OrderedMap.lookup_empty] at htl
    cases htl
  | commit promise next committed => exact h.nonNegative
  | release promise next released restored =>
    exact h.nonNegative.extend ((restoredTimelines_sound hwf restored).nonNegative h.nonNegative)
  | replace promise next replaced givenBack admitted =>
    have hr := restoredTimelines_sound hwf givenBack
    have hrn := hr.nonNegative h.nonNegative
    exact h.nonNegative.extend (hrn.extend ((evaluateBundle_available hwf hr.overridesWellFormed
      admitted).nonNegative hwf hr.overridesWellFormed h.nonNegative hrn))

end EngineState

namespace Engine

open EngineState

variable {blake3 : List UInt8 → CommandHash}

/-- A command that does not revise capacity by force. -/
def StrictCommand (command : Command) : Prop :=
  ∀ poolId curve, command.operation ≠ .reviseCapacity poolId curve .force

/-- What a strict command changes leaves no deficit. -/
theorem StrictCommand.withoutDeficit {command : Command} (h : StrictCommand command)
    {change : Change} {result : CommandResult} (answers : Answers command.operation change result) :
    change.WithoutDeficit := by
  generalize hop : command.operation = operation at answers
  cases answers with
  | @reviseCapacity id curve mode outcome strict =>
    cases mode with
    | strict => exact strict rfl
    | force => exact absurd hop (h id curve)
  | _ => trivial

/-- No state of a strict run is oversold. -/
theorem notOversold_of_strict {e : Engine} (h : ReachableBy blake3 StrictCommand e) :
    e.state.NotOversold := by
  refine ReachableBy.invariant (Q := Change.WithoutDeficit) ⟨indexExact_empty, ?_⟩
    (fun _ => trivial) (fun _ hcommand _ _ => hcommand.withoutDeficit)
    (fun _ _ _ _ hchange hs => hs.transition hchange)
    (fun _ records hs => ⟨hs.indexExact.records records, hs.nonNegative⟩) h
  intro poolId tl htl
  rw [EngineState.empty, OrderedMap.lookup_empty] at htl
  cases htl

/-- In a run in which capacity is only revised strictly, the claims of live promises that cover a
timestamp never add up to more than the capacity of their pool there. -/
theorem usage_le_capacity {e : Engine} (h : ReachableBy blake3 StrictCommand e)
    {poolId : ResourcePoolId} {pool : ResourcePool}
    (hpool : e.state.resourcePools[poolId]? = some pool) (t : Timestamp) :
    e.state.usageAt poolId t ≤ (pool.capacityAt t).val := by
  obtain ⟨hexact, hnonneg⟩ := notOversold_of_strict h
  obtain ⟨tl, htl, -⟩ := hexact.slackAt hpool
  have hvalue := hexact.exact poolId pool tl hpool htl t
  have := hnonneg poolId tl htl t
  omega

/-- The sample run uses five of ten units at the third tick. -/
theorem usage_le_capacity_sample :
    sampleEngine.state.usageAt samplePoolId (sampleTime 3) = 5 ∧
      sampleEngine.state.usageAt samplePoolId (sampleTime 3) ≤ 10 := by
  obtain ⟨pool, hpool, hcapacity⟩ := sampleEngine_pool
  have hstrict : ReachableBy sampleHash StrictCommand sampleEngine :=
    ReachableBy.empty.applyAll fun entry hentry => by
      obtain rfl | rfl : entry = (sampleCreate, sampleTime 0) ∨ entry = (sampleHold, sampleTime 1) :=
        by simpa [sampleCommands] using hentry
      · exact fun _ _ h => by cases h
      · exact fun _ _ h => by cases h
  refine ⟨by decide +kernel, ?_⟩
  have := usage_le_capacity hstrict hpool (sampleTime 3)
  rwa [hcapacity] at this

end Engine

end PromiseDb
