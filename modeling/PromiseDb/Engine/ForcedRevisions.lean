import PromiseDb.Engine.Deficits
import PromiseDb.Engine.Replacements

/-!
# Forced capacity revisions

A forced revision fails when the slack of the new curve is not representable.  This cannot happen
while the usage of every pool stays a quantity of the domain.

Holds keep this bound, whatever was forced before, because they are checked against the capacity
of the moment.  Replacements keep it as long as they make nothing worse where an old claim stops;
there they are not checked, and a deficit can grow beyond what can be represented.
-/

namespace PromiseDb

namespace EngineState

/-- The usage of every pool is a quantity of the domain. -/
structure UsageBounded (s : EngineState) : Prop where
  /-- The index is exact. -/
  indexExact : s.IndexExact
  /-- No usage exceeds the largest quantity. -/
  usage_le : ∀ poolId t, s.usageAt poolId t ≤ 9223372036854775807

/-- Usage stays bounded when a promise does not demand more than before. -/
theorem UsageBounded.withPromise {s : EngineState} (h : s.UsageBounded) {id : PromiseId}
    {p : Promise} {timelines : OrderedMap ResourcePoolId SlackTimeline} {seq : SequenceNumber}
    {now : Timestamp} {kind : EventKind} {poolId : ResourcePoolId} {t : Timestamp}
    (hle : p.demandAt poolId t ≤ s.demandOf id poolId t) :
    (s.withPromise id p timelines seq now kind).usageAt poolId t ≤ 9223372036854775807 := by
  have husage := h.usage_le poolId t
  rw [usageAt_withPromise]
  omega

/-- A promise that ended demands nothing. -/
theorem demandAt_of_ended {p : Promise} (h : p.isActive = false) (poolId : ResourcePoolId)
    (t : Timestamp) : p.demandAt poolId t = 0 := by
  rw [Promise.demandAt, h]
  rfl

/-- A promise does not demand less than nothing, whether or not it is there. -/
theorem demandOf_nonneg (s : EngineState) (id : PromiseId) (poolId : ResourcePoolId)
    (t : Timestamp) : 0 ≤ s.demandOf id poolId t := by
  rw [demandOf]
  cases s.promises[id]? with
  | none => exact le_rfl
  | some p => exact p.demandAt_nonneg poolId t

/-- What a hold demands fits in the capacity next to the other promises. -/
theorem IndexExact.usage_add_demand_le {s : EngineState} (h : s.IndexExact) {bundle : Bundle}
    {timelines : OrderedMap ResourcePoolId SlackTimeline}
    (hadmitted : s.evaluateBundleAdmission bundle = .ok (.available timelines))
    {poolId : ResourcePoolId} {t : Timestamp} (hdemand : 0 < bundle.demandAt poolId t) :
    s.usageAt poolId t + bundle.demandAt poolId t ≤ 9223372036854775807 := by
  have ha := evaluateBundle_available h.wellFormed overridesWellFormed_empty hadmitted
  obtain ⟨c, hc, -⟩ := demandAt_pos_iff.mp hdemand
  obtain ⟨base, deficitFloor, tl, hon, -, -, -, hpass, -⟩ :=
    ha.present poolId (List.ne_nil_of_mem hc)
  obtain ⟨hover, -⟩ | ⟨-, hbase, rfl⟩ := hon
  · rw [OrderedMap.lookup_empty] at hover
    cases hover
  have hfits := (allPass_none_iff (h.wellFormed poolId base hbase)).mp hpass t hdemand
  obtain ⟨pool, hpool⟩ := OrderedMap.mem_iff_lookup.mp
    ((h.pools poolId).mp (OrderedMap.mem_iff_lookup.mpr ⟨base, hbase⟩))
  rw [h.exact poolId pool base hpool hbase] at hfits
  have hcapacity : (pool.capacityAt t).val ≤ 9223372036854775807 :=
    pool.capacityCurve.capacityAt_le t
  have hsame : claimUsage (bundle.claimsOn poolId) t = bundle.demandAt poolId t := rfl
  omega

/-- Transitions other than replacements keep usage bounded. -/
theorem UsageBounded.transition {now : Timestamp} {change : Change} {s s' : EngineState}
    (h : s.UsageBounded) (hchange : ∀ id expected new, change ≠ .replace id expected new)
    (hstep : Transition now change s s') : s'.UsageBounded := by
  refine ⟨h.indexExact.transition hstep, ?_⟩
  intro poolId t
  cases hstep with
  | expire promise next expired restored =>
    obtain ⟨-, hstate, -⟩ := Promise.expire_eq_ok expired
    apply h.withPromise
    rw [demandAt_of_ended (by rw [Promise.isActive, hstate]; rfl)]
    exact demandOf_nonneg _ _ _ _
  | createPool absent next built => exact h.usage_le poolId t
  | revise present next indexed before rebuilt after => exact h.usage_le poolId t
  | hold absent next created admitted =>
    obtain ⟨-, rfl⟩ := Promise.withId_eq_ok created
    rename_i id bundle expiresAt seq timelines
    have hnew : s.demandOf id poolId t = 0 := by
      rw [demandOf, OrderedMap.not_mem_iff_lookup.mp absent, Option.elim_none]
    rw [usageAt_withPromise, hnew, sub_zero]
    have hbounded := h.usage_le poolId t
    have hnonneg := bundle.demandAt_nonneg poolId t
    by_cases hdemand : 0 < bundle.demandAt poolId t
    · exact h.indexExact.usage_add_demand_le admitted hdemand
    · show s.usageAt poolId t + bundle.demandAt poolId t ≤ _
      omega
  | commit promise next committed =>
    obtain ⟨-, -, hadv, -, hbundle⟩ := Promise.commit_eq_ok committed
    apply h.withPromise
    rw [demandOf, promise, Option.elim_some, Promise.demandAt, Promise.demandAt, hadv.active,
      hbundle, if_pos rfl]
    split
    · exact le_rfl
    · exact Bundle.demandAt_nonneg _ _ _
  | release promise next released restored =>
    obtain ⟨-, -, -, hstate, -⟩ := Promise.release_eq_ok released
    apply h.withPromise
    rw [demandAt_of_ended (by rw [Promise.isActive, hstate]; rfl)]
    exact demandOf_nonneg _ _ _ _
  | @replace _ id expected new => exact absurd rfl (hchange id expected new)

/-- A replacement that makes nothing worse where an old claim stops keeps usage bounded. -/
theorem UsageBounded.replaced {s : EngineState} (h : s.UsageBounded) {id : PromiseId}
    {p p' : Promise} {new : Bundle} {restored adjusted : OrderedMap ResourcePoolId SlackTimeline}
    {seq : SequenceNumber} {now : Timestamp} {kind : EventKind} (hp : s.promises[id]? = some p)
    (hactive : p.isActive = true) (hactive' : p'.isActive = true) (hbundle : p'.bundle = new)
    (hrestored : s.restoredTimelines p.bundle = .ok restored)
    (hadmitted : s.evaluateBundleWithOverrides new restored = .ok (.available adjusted))
    (hstops : NotWorseAtStops s p.bundle new) :
    (s.withPromise id p'
      (OrderedMap.extend s.slackTimelines (OrderedMap.extend restored adjusted)) seq now
      kind).UsageBounded := by
  refine ⟨h.indexExact.withReplaced hp hactive hactive' hbundle hrestored hadmitted, ?_⟩
  intro poolId t
  have hold : s.demandOf id poolId t = p.bundle.demandAt poolId t := by
    rw [demandOf, hp, Option.elim_some, Promise.demandAt, if_pos hactive]
  have hnew : p'.demandAt poolId t = new.demandAt poolId t := by
    rw [Promise.demandAt, if_pos hactive', hbundle]
  have hbounded := h.usage_le poolId t
  by_cases hdemand : 0 < new.demandAt poolId t
  · have hsound := restoredTimelines_sound h.indexExact.wellFormed hrestored
    have ha := evaluateBundle_available h.indexExact.wellFormed hsound.overridesWellFormed hadmitted
    obtain ⟨c, hc, -⟩ := demandAt_pos_iff.mp hdemand
    obtain ⟨base, deficitFloor, -, hon, -, -, -, hpass, -⟩ :=
      ha.present poolId (List.ne_nil_of_mem hc)
    obtain ⟨tl, htl, hevaluated⟩ := hsound.evaluatedWithout h.indexExact.wellFormed hon
    have hnot : NotWorseAt tl p.bundle new poolId t :=
      hevaluated.notWorseAt (hevaluated.allPass_iff.mp hpass) (hstops poolId tl htl) hdemand
    obtain ⟨pool, hpool⟩ := OrderedMap.mem_iff_lookup.mp
      ((h.indexExact.pools poolId).mp (OrderedMap.mem_iff_lookup.mpr ⟨tl, htl⟩))
    have hcapacity : (pool.capacityAt t).val ≤ 9223372036854775807 :=
      pool.capacityCurve.capacityAt_le t
    rw [NotWorseAt, h.indexExact.exact poolId pool tl hpool htl] at hnot
    rw [usageAt_withPromise, hold, hnew]
    omega
  · apply h.withPromise
    have hnonneg := p.bundle.demandAt_nonneg poolId t
    omega

/-- A replacement of the operation makes nothing worse where an old claim stops, in the state
after the due expirations. -/
def KeepsStops (s : EngineState) (operation : CommandOperation) (now : Timestamp) : Prop :=
  ∀ id expected new live, operation = .replace id expected new live →
    ∀ count s₁ p, processExpirations now s = .ok count s₁ → s₁.promises[id]? = some p →
      NotWorseAtStops s₁ p.bundle new

/-- Expirations keep usage bounded. -/
theorem UsageBounded.expirations {s s' : EngineState} (h : s.UsageBounded) {now : Timestamp}
    (hs : Expirations now s s') : s'.UsageBounded := by
  refine hs.invariant (fun s s' id hbounded hstep => hbounded.transition ?_ hstep) h
  rintro _ _ _ ⟨⟩

/-- An operation whose replacement makes nothing worse where an old claim stops keeps usage
bounded. -/
theorem UsageBounded.applyOnce {s : EngineState} (h : s.UsageBounded) {operation : CommandOperation}
    {now : Timestamp} (hkeeps : KeepsStops s operation now) :
    (applyOnce operation now s).finalState.UsageBounded := by
  obtain ⟨s₁, hs₁, hcompletes⟩ := applyOnce_cases (r := EngineState.applyOnce operation now s) rfl
  have h₁ := h.expirations hs₁
  generalize hr : EngineState.applyOnce operation now s = r at hcompletes
  cases hcompletes with
  | failed error => exact h₁
  | declined hdeclined => exact h₁
  | accepted hstep answers =>
    cases answers with
    | @replace id expected version new live =>
      obtain ⟨error, s', -, herr⟩ | ⟨outcome, s', hreplace, hok⟩ := map_cases hr
      · cases herr
      cases hok
      obtain ⟨count, s₂, p, seq, version', p', restored, admission, hs₂, hp, hp', hrestored,
        hadmission, ⟨found, -, -, heq⟩ | ⟨adjusted, rfl, heq, rfl⟩⟩ := replaceAt_ok hreplace
      · cases heq
      have hspec := processExpirations_spec now s
      rw [hs₂] at hspec
      obtain ⟨-, -, hadv, hstate, hbundle⟩ := Promise.replace_eq_ok hp'
      refine (h.expirations hspec).replaced hp hadv.active ?_ hbundle hrestored hadmission
        (hkeeps id expected new live rfl count s₂ p hs₂ hp)
      rw [Promise.isActive, hstate]
      cases live <;> rfl
    | _ => exact h₁.transition (by rintro _ _ _ ⟨⟩) hstep

end EngineState

namespace Engine

open EngineState

variable {blake3 : List UInt8 → CommandHash}

/-- The engines reached by commands whose replacements make nothing worse where an old claim
stops. -/
inductive ReachableKeepingStops (blake3 : List UInt8 → CommandHash) : Engine → Prop
  | empty : ReachableKeepingStops blake3 Engine.empty
  | apply {e : Engine} {command : Command} {now : Timestamp} (h : ReachableKeepingStops blake3 e)
      (keeps : KeepsStops e.state command.operation now) :
      ReachableKeepingStops blake3 (Engine.apply blake3 e command now).2

/-- One command whose replacement makes nothing worse where an old claim stops keeps usage
bounded. -/
theorem usageBounded_apply {e : Engine} (h : e.state.UsageBounded) {command : Command}
    {now : Timestamp} (hkeeps : KeepsStops e.state command.operation now) :
    (apply blake3 e command now).2.state.UsageBounded := by
  obtain ⟨record, -, heq⟩ | ⟨-, -, heq⟩ | ⟨next, -, -, heq⟩ := apply_cases e command now <;>
    rw [heq]
  · exact h
  · exact h
  · have hbounded := h.applyOnce hkeeps
    rw [executeOnce_snd]
    exact ⟨hbounded.indexExact.records _, hbounded.usage_le⟩

/-- Usage is bounded in every state of such a run. -/
theorem ReachableKeepingStops.usageBounded {e : Engine} (h : ReachableKeepingStops blake3 e) :
    e.state.UsageBounded := by
  induction h with
  | empty =>
    refine ⟨indexExact_empty, fun poolId t => ?_⟩
    have hzero : Engine.empty.state.usageAt poolId t = 0 :=
      usageAt_of_no_claims (fun id p hp => by cases hp) t
    rw [hzero]
    decide
  | apply _ keeps ih => exact usageBounded_apply ih keeps

/-- A run without replacements keeps its stops. -/
theorem ReachableKeepingStops.applyAll {e : Engine} (h : ReachableKeepingStops blake3 e)
    {commands : List (Command × Timestamp)}
    (hnone : ∀ entry ∈ commands, ∀ id expected new live,
      entry.1.operation ≠ .replace id expected new live) :
    ReachableKeepingStops blake3 (Engine.applyAll blake3 e commands).2 := by
  induction commands generalizing e with
  | nil => exact h
  | cons entry rest ih =>
    have hkeeps : KeepsStops e.state entry.1.operation entry.2 := by
      intro id expected new live heq
      exact absurd heq (hnone entry List.mem_cons_self id expected new live)
    exact ih (h.apply hkeeps) fun a ha => hnone a (List.mem_cons_of_mem _ ha)

/-- In a run whose replacements make nothing worse where an old claim stops, a forced revision of
an existing pool succeeds unless the sequence is exhausted, and never because of the index. -/
theorem forced_revision_not_blocked {e : Engine} (h : ReachableKeepingStops blake3 e)
    {poolId : ResourcePoolId} {pool : ResourcePool}
    (hpool : e.state.resourcePools[poolId]? = some pool) {now : Timestamp} {count : Nat}
    {s : EngineState} (hexpired : processExpirations now e.state = .ok count s)
    (curve : CapacityCurve) :
    (∀ t, e.state.usageAt poolId t ≤ maxQuantity.val) ∧
    ((∃ outcome s', reviseCapacityAt poolId curve .force now e.state = .ok outcome s') ↔
      s.sequence.get.val < 18446744073709551615) ∧
    ∀ s', reviseCapacityAt poolId curve .force now e.state ≠ .error .indexOverflow s' := by
  have hbounded := h.usageBounded
  have hspec := processExpirations_spec now e.state
  rw [hexpired] at hspec
  have hafter : s.UsageBounded := hbounded.expirations hspec
  have hpool' : s.resourcePools[poolId]? = some pool := by
    obtain ⟨-, s', hs', hexp⟩ | ⟨-, error, s', hs', -⟩ :=
      hbounded.indexExact.processExpirations_outcome now
    · rw [hexpired] at hs'
      cases hs'
      rw [hexp.resourcePools, hpool]
    · rw [hexpired] at hs'
      cases hs'
  have hslack (t : Timestamp) : IsSlack ((curve.capacityAt t).val - s.usageAt poolId t) := by
    have hcapacity : (curve.capacityAt t).val ≤ 9223372036854775807 := curve.capacityAt_le t
    have hcapacity' := (curve.capacityAt t).property.1
    have husage := hafter.usage_le poolId t
    have husage' := usageAt_nonneg s poolId t
    constructor <;> omega
  refine ⟨hbounded.usage_le poolId, ?_⟩
  obtain ⟨⟨t, hnot⟩, -⟩ | ⟨-, deficits, -, ⟨hmode, -⟩ | ⟨-, hlast⟩⟩ :=
    hafter.indexExact.reviseCapacityAt_outcome hexpired hpool' curve .force
  · exact absurd (hslack t) hnot
  · cases hmode
  · obtain ⟨hmax, herror⟩ | ⟨sequence, s', hnext, hok⟩ := hlast
    · rw [herror]
      refine ⟨iff_of_false ?_ (not_lt.mpr hmax.ge), ?_⟩
      · rintro ⟨outcome, s', hok⟩
        cases hok
      · intro s' heq
        cases heq
    · rw [hok]
      have hsucc := SequenceNumber.next_eq_ok.mp hnext
      have hle := sequence.get.property.2
      refine ⟨iff_of_true ⟨_, s', rfl⟩ (by omega), ?_⟩
      intro s'' heq
      cases heq

/-! ## A forced revision that overflows

A pool has two units during ten ticks and the largest quantity during the next ten, and all of
them are held.  After a forced revision that takes the two units away, the hold on them is replaced
by two units during all twenty ticks, which is accepted although the later ten ticks are full. -/

/-- The largest capacity during ten ticks. -/
def sampleLateSegment : CapacitySegment := ⟨sampleInterval 10 10 sample_ten_pos, maxQuantity⟩

/-- The late capacity is not too large. -/
theorem sampleLate_le : ∀ s ∈ [sampleLateSegment], s.capacity ≤ maxQuantity := by decide

/-- The capacity of the pool after the first forced revision. -/
def sampleLateCurve : CapacityCurve := ⟨[sampleLateSegment], sampleLate_le, .singleton _⟩

/-- Two units of capacity before the largest capacity. -/
def sampleSteepSegments : List CapacitySegment :=
  [⟨sampleInterval 0 10 sample_ten_pos, sampleQuantity 2⟩, sampleLateSegment]

/-- Neither capacity is too large. -/
theorem sampleSteep_le : ∀ s ∈ sampleSteepSegments, s.capacity ≤ maxQuantity := by decide

/-- Both segments are separated. -/
theorem sampleSteep_separated : sampleSteepSegments.IsChain CapacitySegment.Separated := by decide

/-- The capacity of the pool before the first forced revision. -/
def sampleSteepCurve : CapacityCurve := ⟨sampleSteepSegments, sampleSteep_le, sampleSteep_separated⟩

/-- The largest quantity is positive. -/
theorem sample_max_pos : 0 < maxQuantity.val := by decide

/-- Two is positive. -/
theorem sample_two_pos : 0 < (2 : Fin 1000).val := by decide

/-- A claim of the largest quantity. -/
def sampleFullClaim : Claim :=
  ⟨samplePoolId, sampleInterval 10 10 sample_ten_pos, maxQuantity, sample_max_pos, le_rfl⟩

/-- There is a claim. -/
theorem sampleFullClaims_ne_nil : [sampleFullClaim] ≠ [] := List.cons_ne_nil _ _

/-- The promise that holds the largest quantity. -/
def sampleFullPromiseId : PromiseId := ⟨⟨2, by decide⟩⟩

/-- The commands up to the replacement. -/
def sampleFullCommands : List (Command × Timestamp) :=
  [(sampleCommand "create"
      (.createResourcePool samplePoolId "seats" sampleUnit sampleSteepCurve), sampleTime 0),
    (sampleCommand "full"
      (.hold sampleFullPromiseId ⟨[sampleFullClaim], sampleFullClaims_ne_nil⟩ (sampleTime 50)),
      sampleTime 1),
    (sampleCommand "hold" (.hold samplePromiseId
      (sampleBundle 0 10 2 sample_ten_pos sample_two_pos) (sampleTime 50)), sampleTime 2),
    (sampleCommand "force" (.reviseCapacity samplePoolId sampleLateCurve .force), sampleTime 3),
    (sampleCommand "replace" (.replace samplePromiseId .initial
      (sampleBundle 0 20 2 sample_twenty_pos sample_two_pos) .committed), sampleTime 4)]

/-- The engine after the replacement. -/
def sampleFullEngine : Engine := (applyAll sampleHash Engine.empty sampleFullCommands).2

/-- Whether an operation failed because of the index. -/
def isIndexOverflow {α : Type} : EStateM.Result DomainError EngineState α → Bool
  | .error .indexOverflow _ => true
  | _ => false

/-- The test finds overflows of the index. -/
theorem isIndexOverflow_eq_true {α : Type} {r : EStateM.Result DomainError EngineState α}
    (h : isIndexOverflow r = true) : ∃ s', r = .error .indexOverflow s' := by
  unfold isIndexOverflow at h
  split at h
  · exact ⟨_, rfl⟩
  · cases h

/-- A forced revision of a reachable engine can fail because of the index, although the sequence is
not exhausted: usage exceeds the largest quantity by two units. -/
theorem forced_revision_overflows :
    Reachable sampleHash sampleFullEngine ∧
    samplePoolId ∈ sampleFullEngine.state.resourcePools ∧
    processExpirations (sampleTime 5) sampleFullEngine.state = .ok 0 sampleFullEngine.state ∧
    sampleFullEngine.state.sequence.get.val < 18446744073709551615 ∧
    sampleFullEngine.state.usageAt samplePoolId (sampleTime 10) = maxQuantity.val + 2 ∧
    ∃ s', reviseCapacityAt samplePoolId .empty .force (sampleTime 5) sampleFullEngine.state =
      .error .indexOverflow s' := by
  refine ⟨ReachableBy.empty.applyAll fun _ _ => trivial, by decide +kernel, ?_, by decide +kernel,
    by decide +kernel, ?_⟩
  · apply processExpirations_of_none_due
    decide +kernel
  · apply isIndexOverflow_eq_true
    decide +kernel

/-- Whether a replacement makes nothing worse where an old claim stops. -/
def stopsChecked (s : EngineState) (id : PromiseId) (new : Bundle) : Bool :=
  s.promises[id]?.all fun p => s.slackTimelines.toList.all fun entry =>
    (p.bundle.claimsOn entry.1).all fun c =>
      decide (NotWorseAt entry.2 p.bundle new entry.1 c.interval.stop)

/-- Such a replacement keeps the stops when nothing expires before it. -/
theorem keepsStops_of_checked {s : EngineState} {id : PromiseId} {expected : Version}
    {new : Bundle} {live : ReplacementState} {now : Timestamp} (hdue : s.dueHolds now = [])
    (h : stopsChecked s id new = true) : KeepsStops s (.replace id expected new live) now := by
  rintro _ _ _ _ ⟨⟩ count s₁ p hexpired hp poolId tl htl c hc -
  rw [processExpirations_of_none_due hdue] at hexpired
  obtain ⟨-, rfl⟩ := EStateM.Result.ok.inj hexpired
  rw [stopsChecked, hp, Option.all_some] at h
  have hpool := List.all_eq_true.mp h (poolId, tl) (OrderedMap.mem_toList.mpr htl)
  exact of_decide_eq_true (List.all_eq_true.mp hpool c hc)

/-- The replacement of the sample promise by as many units for twice as long. -/
def sampleLengthen : Command :=
  sampleCommand "replace" (.replace samplePromiseId .initial sampleLongBundle .committed)

/-- The engine after the sample run and the replacement. -/
def sampleReplacedEngine : Engine := (apply sampleHash sampleEngine sampleLengthen (sampleTime 3)).2

/-- The replacement of the sample promise makes nothing worse where its old claim stops, so that the
pool can still be revised by force. -/
theorem forced_revision_not_blocked_sample :
    sampleReplacedEngine.state.usageAt samplePoolId (sampleTime 15) = 5 ∧
    (∀ t, sampleReplacedEngine.state.usageAt samplePoolId t ≤ maxQuantity.val) ∧
    ∃ outcome s', reviseCapacityAt samplePoolId .empty .force (sampleTime 4)
      sampleReplacedEngine.state = .ok outcome s' := by
  have hkept : ReachableKeepingStops sampleHash sampleEngine := by
    apply ReachableKeepingStops.empty.applyAll
    intro entry hentry id expected new live heq
    rcases List.mem_cons.mp hentry with rfl | hentry
    · cases heq
    · obtain rfl := List.mem_singleton.mp hentry
      cases heq
  have hreplaced : ReachableKeepingStops sampleHash sampleReplacedEngine := by
    apply hkept.apply
    apply keepsStops_of_checked <;> decide +kernel
  have hdue : sampleReplacedEngine.state.dueHolds (sampleTime 4) = [] := by decide +kernel
  have hexists : sampleReplacedEngine.state.resourcePools[samplePoolId]?.isSome = true := by
    decide +kernel
  obtain ⟨pool, hpool⟩ := Option.isSome_iff_exists.mp hexists
  obtain ⟨hle, hiff, -⟩ := forced_revision_not_blocked hreplaced hpool
    (processExpirations_of_none_due hdue) .empty
  refine ⟨by decide +kernel, hle, hiff.mpr ?_⟩
  decide +kernel

end Engine

end PromiseDb
