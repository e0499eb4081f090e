import PromiseDb.Engine.Idempotency
import PromiseDb.Index.SlackTimeline
import PromiseDb.Library.StateRun

/-!
# Admission control

The state of the engine and the pure evaluations on it: whether the claims of a bundle fit into
the slack of their pools, which slot of a search range is the first feasible one, which deficits
a timeline has, and which timelines are left when the claims of a bundle are given back.  None
of them changes the state.
-/

namespace PromiseDb

/-- Authoritative and derived engine state. -/
structure EngineState where
  /-- The resource pools. -/
  resourcePools : OrderedMap ResourcePoolId ResourcePool
  /-- The slack index of each pool, derived from the pools and the promises. -/
  slackTimelines : OrderedMap ResourcePoolId SlackTimeline
  /-- The promises. -/
  promises : OrderedMap PromiseId Promise
  /-- The audit log. -/
  events : List Event
  /-- The cached responses. -/
  idempotencyRecords : OrderedMap Identity IdempotencyRecord
  /-- The sequence of the latest transition. -/
  sequence : SequenceNumber

/-- The state before every command. -/
def EngineState.empty : EngineState := ⟨∅, ∅, ∅, [], ∅, .zero⟩

/-- The result of evaluating claims against one pool. -/
inductive PoolAdmission
  /-- Every claim fits; the timeline contains their consumption. -/
  | available (timeline : SlackTimeline)
  /-- The claims do not fit. -/
  | unavailable (conflicts : List AvailabilityConflict)

/-- The result of evaluating every pool of a bundle. -/
inductive BundleAdmission
  /-- Every pool fits; the timelines are ready to publish. -/
  | available (timelines : OrderedMap ResourcePoolId SlackTimeline)
  /-- The bundle does not fit. -/
  | unavailable (conflicts : List AvailabilityConflict)

/-- The result of searching a relative bundle over candidate starts. -/
inductive SlotSearch
  | found (slot : Slot) (timelines : OrderedMap ResourcePoolId SlackTimeline)
  | unavailable (attempts : Nat)

/-- An inclusive range of candidate starts. -/
structure SlotRange where
  /-- The first candidate start. -/
  earliest : Timestamp
  /-- The last candidate start considered. -/
  latest : Timestamp
  /-- The distance between candidate starts. -/
  step : I64

/-- Every failure of the index is reported as one error. -/
def indexResult {α : Type} : Except IndexError α → Except DomainError α
  | .ok a => .ok a
  | .error _ => .error .indexOverflow

/-- Runs an update on a copy of a timeline. -/
def runUpdate (tl : SlackTimeline) (update : SlackTimeline.Update Unit) :
    Except DomainError SlackTimeline :=
  match update tl with
  | .ok _ tl' => .ok tl'
  | .error _ _ => .error .indexOverflow

/-- The claims of a bundle by pool, in their original order. -/
def claimsByPool (claims : List Claim) : OrderedMap ResourcePoolId (List Claim) :=
  claims.foldl (fun m c => OrderedMap.upsert m c.poolId [] (· ++ [c])) ∅

/-! ## Demand against slack -/

/-- The changes of the demand of claims. -/
def claimEvents (claims : List Claim) : List (Timestamp × I128) :=
  claims.flatMap fun c =>
    [(c.interval.start, SlackTimeline.wideCapacity c.quantity),
      (c.interval.stop, ⟨-c.quantity.val, by have := c.quantity.property; omega⟩)]

/-- The timestamps inside the claims at which the slack changes, as changes of the demand by
zero. -/
def slackEvents (claims : List Claim) (points : List SlackPoint) : List (Timestamp × I128) :=
  (points.filter fun p => claims.any fun c => c.interval.contains p.timestamp).map fun p =>
    (p.timestamp, ⟨0, I128.zero_range⟩)

/-- Merges the changes at equal timestamps of a list in chronological order, with the change
being merged. -/
def normalizeEvents : Option (Timestamp × I128) → List (Timestamp × I128) →
    Except DomainError (List (Timestamp × I128))
  | none, [] => .ok []
  | some last, [] => .ok [last]
  | none, event :: rest => normalizeEvents (some event) rest
  | some last, event :: rest =>
    if last.1 = event.1 then do
      let delta ← (last.2.checkedAdd event.2).elim (.error .quantityOverflow) .ok
      normalizeEvents (some (last.1, delta)) rest
    else return last :: (← normalizeEvents (some event) rest)

/-- The difference of two unsigned integers modulo the size of the type. -/
def wrappingSub (a b : U64) : U64 :=
  ⟨(a.val - b.val) % 18446744073709551616, by omega⟩

/-- The held and committed promises with a claim on the pool that overlaps the interval. -/
def EngineState.activeOverlapping (s : EngineState) (poolId : ResourcePoolId)
    (interval : Interval) : List PromiseId :=
  s.promises.toList.filterMap fun (promiseId, promise) =>
    if promise.isActive && promise.bundle.claims.any fun c =>
        decide (c.poolId = poolId) && c.interval.overlaps interval then
      some promiseId
    else none

/-- Adds a conflict to those found so far, extending the last one when it says the same about
the interval just before. -/
def pushConflict (conflicts : List AvailabilityConflict) (conflict : AvailabilityConflict) :
    Except DomainError (List AvailabilityConflict) :=
  match conflicts.getLast? with
  | none => .ok (conflicts ++ [conflict])
  | some previous =>
    if previous.blockingInterval.stop = conflict.blockingInterval.start ∧
        previous.requiredQuantity = conflict.requiredQuantity ∧
        previous.availableQuantity = conflict.availableQuantity ∧
        previous.deficitQuantity = conflict.deficitQuantity ∧
        previous.conflictingPromiseIds = conflict.conflictingPromiseIds then do
      let merged ← Interval.new previous.blockingInterval.start conflict.blockingInterval.stop
      return conflicts.dropLast ++ [{ previous with blockingInterval := merged }]
    else .ok (conflicts ++ [conflict])

/-- Records a conflict when a window is refused. -/
def recordConflict (refused : Bool) (conflicts : List AvailabilityConflict)
    (conflict : AvailabilityConflict) : Except DomainError (List AvailabilityConflict) :=
  if refused then pushConflict conflicts conflict else .ok conflicts

/-- What has been found out about the windows before the current one. -/
structure WindowState where
  /-- The conflicts so far. -/
  conflicts : List AvailabilityConflict
  /-- The intervals with their demand so far. -/
  adjustments : List (Interval × I128)
  /-- The demand before the current window. -/
  currentDemand : I128

/-- The slack below which a window is refused: zero, or an already existing deficit. -/
def minimumAllowedSlack (deficitFloor : Option SlackTimeline) (timestamp : Timestamp) :
    Except DomainError Slack :=
  match deficitFloor with
  | none => .ok ⟨0, I64.zero_range⟩
  | some timeline => return min (← indexResult (timeline.slackAt timestamp)) ⟨0, I64.zero_range⟩

/-- The part of the slack that is available. -/
def availableFrom (slack : Slack) : Except DomainError Quantity :=
  if slack.val ≤ 0 then .ok ⟨0, U64.zero_range⟩
  else (BoundedInt.tryFrom slack).elim (.error .indexOverflow) .ok

/-- Evaluates the demand between two consecutive changes. -/
def evaluateWindow (s : EngineState) (poolId : ResourcePoolId) (baseTimeline : SlackTimeline)
    (deficitFloor : Option SlackTimeline) (w : WindowState)
    (window : (Timestamp × I128) × (Timestamp × I128)) : Except DomainError WindowState := do
  let currentDemand ← (w.currentDemand.checkedAdd window.1.2).elim (.error .quantityOverflow) .ok
  let requiredQuantity : Quantity ← (BoundedInt.tryFrom currentDemand).elim
    (.error .quantityOverflow) .ok
  if requiredQuantity.val = 0 then return { w with currentDemand }
  let interval ← Interval.new window.1.1 window.2.1
  let slack ← indexResult (baseTimeline.slackAt interval.start)
  let finalSlack : I128 ← (BoundedInt.ofInt? (slack.val - currentDemand.val)).elim
    (.error .quantityOverflow) .ok
  let minimumAllowed ← minimumAllowedSlack deficitFloor interval.start
  let availableQuantity ← availableFrom slack
  let conflicts ← recordConflict (decide (finalSlack.val < minimumAllowed.val)) w.conflicts
    { resourcePoolId := poolId
      blockingInterval := interval
      requiredQuantity
      availableQuantity
      deficitQuantity := wrappingSub requiredQuantity availableQuantity
      conflictingPromiseIds := s.activeOverlapping poolId interval }
  return ⟨conflicts, w.adjustments ++ [(interval, currentDemand)], currentDemand⟩

/-- Takes the demand of one interval from a timeline. -/
def consumeDemand (tl : SlackTimeline) (adjustment : Interval × Slack) :
    Except DomainError SlackTimeline := do
  let delta ← adjustment.2.checkedNeg.elim (.error .indexOverflow) .ok
  runUpdate tl (SlackTimeline.applyDelta adjustment.1 delta)

/-- Evaluates the claims on one pool against a base timeline. -/
def EngineState.evaluatePoolOnTimeline (s : EngineState) (poolId : ResourcePoolId)
    (candidateClaims : List Claim) (baseTimeline : SlackTimeline)
    (deficitFloor : Option SlackTimeline) : Except DomainError PoolAdmission := do
  let points ← indexResult baseTimeline.effectivePoints
  let demandEvents := (claimEvents candidateClaims ++ slackEvents candidateClaims points).insertionSort
    fun a b => a.1 ≤ b.1
  let events ← normalizeEvents none demandEvents
  let windows ← (events.zip events.tail).foldlM (evaluateWindow s poolId baseTimeline deficitFloor)
    ⟨[], [], ⟨0, I128.zero_range⟩⟩
  if windows.conflicts ≠ [] then return .unavailable windows.conflicts
  let adjustments ← windows.adjustments.mapM fun (interval, demand) =>
    return (interval, (← (BoundedInt.tryFrom demand).elim (.error .indexOverflow) .ok : Slack))
  return .available (← adjustments.foldlM consumeDemand baseTimeline)

/-- Evaluates the claims on one pool against the current timeline. -/
def EngineState.evaluatePoolAdmission (s : EngineState) (poolId : ResourcePoolId)
    (candidateClaims : List Claim) : Except DomainError PoolAdmission := do
  let timeline ← s.slackTimelines[poolId]?.elim (.error .resourcePoolNotFound) .ok
  s.evaluatePoolOnTimeline poolId candidateClaims timeline none

/-- Evaluates one pool of a bundle, against the override of its timeline if there is one. -/
def EngineState.evaluatePoolWithOverrides (s : EngineState)
    (overrides : OrderedMap ResourcePoolId SlackTimeline) (poolId : ResourcePoolId)
    (claims : List Claim) : Except DomainError PoolAdmission :=
  match overrides[poolId]? with
  | some timeline => do
    let currentTimeline ← s.slackTimelines[poolId]?.elim (.error .resourcePoolNotFound) .ok
    s.evaluatePoolOnTimeline poolId claims timeline (some currentTimeline)
  | none => s.evaluatePoolAdmission poolId claims

/-- Adds the evaluation of one pool to the timelines and conflicts so far. -/
def EngineState.evaluateNextPool (s : EngineState)
    (overrides : OrderedMap ResourcePoolId SlackTimeline)
    (acc : OrderedMap ResourcePoolId SlackTimeline × List AvailabilityConflict)
    (entry : ResourcePoolId × List Claim) :
    Except DomainError (OrderedMap ResourcePoolId SlackTimeline × List AvailabilityConflict) := do
  match ← s.evaluatePoolWithOverrides overrides entry.1 entry.2 with
  | .available timeline => return (acc.1.insert entry.1 timeline, acc.2)
  | .unavailable conflicts => return (acc.1, acc.2 ++ conflicts)

/-- The key by which the conflicts of a bundle are sorted. -/
def AvailabilityConflict.sortKey (c : AvailabilityConflict) :
    Timestamp ×ₗ ResourcePoolId ×ₗ Timestamp :=
  toLex (c.blockingInterval.start, toLex (c.resourcePoolId, c.blockingInterval.stop))

/-- Evaluates a bundle, using the overrides of timelines where present. -/
def EngineState.evaluateBundleWithOverrides (s : EngineState) (bundle : Bundle)
    (overrides : OrderedMap ResourcePoolId SlackTimeline) : Except DomainError BundleAdmission := do
  let (adjustedTimelines, conflicts) ← (claimsByPool bundle.claims).toList.foldlM
    (s.evaluateNextPool overrides) (∅, [])
  if conflicts = [] then return .available adjustedTimelines
  else return .unavailable (conflicts.insertionSort fun a b => a.sortKey ≤ b.sortKey)

/-- Evaluates a bundle against the current timelines. -/
def EngineState.evaluateBundleAdmission (s : EngineState) (bundle : Bundle) :
    Except DomainError BundleAdmission :=
  s.evaluateBundleWithOverrides bundle ∅

/-! ## Slot search -/

/-- The search loop over candidate starts.  Every round goes on to a later start, so `fuel`
bounds the rounds that a range needs. -/
def EngineState.searchSlotsFrom (s : EngineState) (relativeBundle : RelativeBundle)
    (range : SlotRange) : Nat → Timestamp → Nat → Except DomainError SlotSearch
  | 0, _, attempts => .ok (.unavailable attempts)
  | fuel + 1, start, attempts => do
    let bundle ← relativeBundle.materialize start
    match ← s.evaluateBundleAdmission bundle with
    | .available timelines => return .found ⟨start, bundle⟩ timelines
    | .unavailable _ =>
      if start = range.latest then return .unavailable (attempts + 1)
      match start.checkedAdd range.step with
      | none => return .unavailable (attempts + 1)
      | some next =>
        if next > range.latest then return .unavailable (attempts + 1)
        s.searchSlotsFrom relativeBundle range fuel next (attempts + 1)

/-- How many rounds the search loop can take. -/
def SlotRange.fuel (range : SlotRange) : Nat := (range.latest.val - range.earliest.val).toNat + 1

/-- Searches for the first feasible slot. -/
def EngineState.searchSlots (s : EngineState) (relativeBundle : RelativeBundle)
    (range : SlotRange) : Except DomainError SlotSearch :=
  if range.earliest > range.latest then .error .invalidSearchRange
  else if range.step.val ≤ 0 then .error .invalidStep
  else s.searchSlotsFrom relativeBundle range range.fuel range.earliest 0

/-! ## Deficits and restored timelines -/

/-- The negative slack of a timeline as capacity deficits. -/
def EngineState.capacityDeficits (s : EngineState) (poolId : ResourcePoolId)
    (timeline : SlackTimeline) : Except DomainError (List CapacityDeficit) := do
  let deficits ← indexResult timeline.deficitIntervals
  return deficits.map fun d =>
    { resourcePoolId := poolId
      interval := d.interval
      quantity := d.amount
      affectedPromiseIds := s.activeOverlapping poolId d.interval }

/-- Gives the quantity of one claim back to a timeline. -/
def restoreClaim (tl : SlackTimeline) (claim : Claim) : Except DomainError SlackTimeline := do
  let quantity : Slack ← (BoundedInt.tryFrom claim.quantity).elim (.error .indexOverflow) .ok
  runUpdate tl (SlackTimeline.applyDelta claim.interval quantity)

/-- A copy of the timeline of one pool to which claims are given back. -/
def EngineState.restorePool (s : EngineState) (entry : ResourcePoolId × List Claim) :
    Except DomainError SlackTimeline := do
  let timeline ← s.slackTimelines[entry.1]?.elim (.error .resourcePoolNotFound) .ok
  entry.2.foldlM restoreClaim timeline

/-- The timelines after the usage of an active bundle is removed. -/
def EngineState.restoredTimelines (s : EngineState) (bundle : Bundle) :
    Except DomainError (OrderedMap ResourcePoolId SlackTimeline) :=
  (claimsByPool bundle.claims).toList.foldlM
    (fun acc entry => return acc.insert entry.1 (← s.restorePool entry)) ∅

end PromiseDb
