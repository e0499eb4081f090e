import PromiseDb.Engine.Admission

/-!
# State transitions

The operations of the engine.  Each of them first expires the holds whose deadline has been
reached and then either changes the state in one step or leaves it as it is.  An operation that
fails keeps the expirations that were processed before the failure, so operations run in a state
monad that keeps the state when it fails.
-/

namespace PromiseDb

/-- A mutation of the engine state, which keeps what was written before a failure. -/
abbrev EngineM := EStateM DomainError EngineState

namespace EngineState

/-- The state after a promise transition: the promise with the timelines it leaves, the
sequence and the event of the transition. -/
def withPromise (s : EngineState) (promiseId : PromiseId) (promise : Promise)
    (slackTimelines : OrderedMap ResourcePoolId SlackTimeline) (sequence : SequenceNumber)
    (now : Timestamp) (kind : EventKind) : EngineState :=
  { s with
    promises := s.promises.insert promiseId promise
    slackTimelines := slackTimelines
    sequence := sequence
    events := s.events ++ [⟨sequence, now, kind, .promise promiseId promise.version⟩] }

/-- The state after a pool transition, with the audit records that follow it. -/
def withPool (s : EngineState) (poolId : ResourcePoolId) (pool : ResourcePool)
    (timeline : SlackTimeline) (sequence : SequenceNumber) (now : Timestamp) (kind : EventKind)
    (audit : List Event) : EngineState :=
  { s with
    resourcePools := s.resourcePools.insert poolId pool
    slackTimelines := s.slackTimelines.insert poolId timeline
    sequence := sequence
    events := s.events ++ ⟨sequence, now, kind, .resourcePool poolId⟩ :: audit }

/-! ## Expirations -/

/-- The holds whose deadline has been reached, by deadline and identity. -/
def dueHolds (s : EngineState) (now : Timestamp) : List (Timestamp ×ₗ PromiseId) :=
  (s.promises.toList.filterMap fun (promiseId, promise) =>
    match promise.state with
    | .held expiresAt => if expiresAt ≤ now then some (toLex (expiresAt, promiseId)) else none
    | _ => none).insertionSort fun a b => a ≤ b

/-- Expires one due hold. -/
def expireHold (now : Timestamp) (promiseId : PromiseId) : EngineM Unit := do
  let s ← get
  let nextSequence ← ofExcept s.sequence.next
  let promise ← ofExcept (s.promises[promiseId]?.elim (.error .promiseNotFound) .ok)
  let expiredPromise ← ofExcept (promise.expire now nextSequence)
  let adjustedTimelines ← ofExcept (s.restoredTimelines expiredPromise.bundle)
  set (s.withPromise promiseId expiredPromise
    (OrderedMap.extend s.slackTimelines adjustedTimelines) nextSequence now .holdExpired)

/-- Expires holds in order, counting them. -/
def expireHolds (now : Timestamp) : Nat → List (Timestamp ×ₗ PromiseId) → EngineM Nat
  | expiredCount, [] => return expiredCount
  | expiredCount, due :: rest => do
    expireHold now (ofLex due).2
    expireHolds now (expiredCount + 1) rest

/-- Expires every due hold, by deadline and identity. -/
def processExpirations (now : Timestamp) : EngineM Nat := do
  let s ← get
  expireHolds now 0 (s.dueHolds now)

/-- Without due holds nothing expires. -/
theorem processExpirations_of_none_due {now : Timestamp} {s : EngineState}
    (h : s.dueHolds now = []) : processExpirations now s = .ok 0 s := by
  unfold processExpirations
  rw [EStateM.get_bind_apply, h]
  rfl

/-! ## Pools -/

/-- Creates a resource pool. -/
def createResourcePoolAt (poolId : ResourcePoolId) (displayName : String) (unit : ResourceUnit)
    (capacityCurve : CapacityCurve) (now : Timestamp) : EngineM ResourcePoolId := do
  let _ ← processExpirations now
  let s ← get
  if s.resourcePools.contains poolId then throw .resourcePoolAlreadyExists
  let pool : ResourcePool := ⟨poolId, displayName, unit, capacityCurve⟩
  let slackTimeline ← ofExcept (indexResult (SlackTimeline.fromCapacityCurve pool.capacityCurve))
  let nextSequence ← ofExcept s.sequence.next
  set (s.withPool poolId pool slackTimeline nextSequence now .resourceCreated [])
  return poolId

/-- The audit payload of a deficit. -/
def deficitEventData (deficit : CapacityDeficit) : EventData :=
  .deficit deficit.resourcePoolId deficit.interval deficit.quantity deficit.affectedPromiseIds

/-- The deficits that no current deficit overlaps any more. -/
def resolvedEvents (sequence : SequenceNumber) (now : Timestamp)
    (previousDeficits deficits : List CapacityDeficit) : List Event :=
  (previousDeficits.filter fun previous =>
      !deficits.any fun current => current.interval.overlaps previous.interval).map fun previous =>
    ⟨sequence, now, .deficitResolved, deficitEventData previous⟩

/-- The deficits that are new or differ from the previous ones. -/
def changedEvents (sequence : SequenceNumber) (now : Timestamp)
    (previousDeficits deficits : List CapacityDeficit) : List Event :=
  (deficits.filter fun current =>
      !previousDeficits.any fun previous =>
        decide (previous.interval = current.interval ∧ previous.quantity = current.quantity)).map
    fun current =>
      let kind := if previousDeficits.any fun previous =>
          previous.interval.overlaps current.interval then .deficitChanged else .deficitCreated
      ⟨sequence, now, kind, deficitEventData current⟩

/-- A sorted list without repetitions of the promises affected by deficits. -/
def affectedPromises (deficits : List CapacityDeficit) : List PromiseId :=
  ((deficits.flatMap (·.affectedPromiseIds)).insertionSort fun a b => a ≤ b).destutter (· ≠ ·)

/-- Replaces the capacity curve of a pool. -/
def reviseCapacityAt (poolId : ResourcePoolId) (capacityCurve : CapacityCurve)
    (mode : CapacityRevisionMode) (now : Timestamp) : EngineM CapacityRevisionOutcome := do
  let _ ← processExpirations now
  let s ← get
  let pool ← ofExcept (s.resourcePools[poolId]?.elim (.error .resourcePoolNotFound) .ok)
  let currentTimeline ← ofExcept (s.slackTimelines[poolId]?.elim (.error .resourcePoolNotFound) .ok)
  let previousDeficits ← ofExcept (s.capacityDeficits poolId currentTimeline)
  let revisedTimeline ← ofExcept (indexResult
    (SlackTimeline.fromCapacityAndPromises capacityCurve poolId (OrderedMap.vals s.promises)))
  let deficits ← ofExcept (s.capacityDeficits poolId revisedTimeline)
  if mode = .strict ∧ deficits ≠ [] then throw .capacityRevisionCreatesDeficit
  let nextSequence ← ofExcept s.sequence.next
  let revisedPool := { pool with capacityCurve := capacityCurve }
  set (s.withPool poolId revisedPool revisedTimeline nextSequence now .capacityRevised
    (resolvedEvents nextSequence now previousDeficits deficits ++
      changedEvents nextSequence now previousDeficits deficits))
  return ⟨nextSequence, deficits, affectedPromises deficits⟩

/-! ## Holds -/

/-- Publishes an accepted hold. -/
def acceptHold (promiseId : PromiseId) (bundle : Bundle) (expiresAt now : Timestamp)
    (timelines : OrderedMap ResourcePoolId SlackTimeline) : EngineM Unit := do
  let s ← get
  let nextSequence ← ofExcept s.sequence.next
  let promise ← ofExcept (Promise.withId promiseId bundle expiresAt now nextSequence)
  set (s.withPromise promiseId promise (OrderedMap.extend s.slackTimelines timelines)
    nextSequence now .holdCreated)

/-- Holds a bundle. -/
def holdWithIdAt (promiseId : PromiseId) (bundle : Bundle) (expiresAt now : Timestamp) :
    EngineM HoldOutcome := do
  let _ ← processExpirations now
  let s ← get
  if s.promises.contains promiseId then throw .promiseAlreadyExists
  if expiresAt ≤ now then throw .invalidExpiration
  match ← ofExcept (s.evaluateBundleAdmission bundle) with
  | .unavailable conflicts => return .unavailable conflicts
  | .available timelines => do
    acceptHold promiseId bundle expiresAt now timelines
    return .held promiseId

/-- The loop over the alternatives of a choice, with the conflicts of those before. -/
def holdAlternatives (promiseId : PromiseId) (expiresAt now : Timestamp) :
    Nat → List ChoiceConflict → List Bundle → EngineM ChoiceOutcome
  | _, allConflicts, [] => return .unavailable allConflicts
  | alternativeIndex, allConflicts, bundle :: rest => do
    let s ← get
    match ← ofExcept (s.evaluateBundleAdmission bundle) with
    | .available timelines => do
      acceptHold promiseId bundle expiresAt now timelines
      return .held promiseId alternativeIndex
    | .unavailable conflicts =>
      holdAlternatives promiseId expiresAt now (alternativeIndex + 1)
        (allConflicts ++ [⟨alternativeIndex, conflicts⟩]) rest

/-- Holds the first feasible bundle of a choice. -/
def holdChoiceAt (promiseId : PromiseId) (choice : Choice) (expiresAt now : Timestamp) :
    EngineM ChoiceOutcome := do
  let _ ← processExpirations now
  let s ← get
  if s.promises.contains promiseId then throw .promiseAlreadyExists
  if expiresAt ≤ now then throw .invalidExpiration
  holdAlternatives promiseId expiresAt now 0 [] choice.alternatives

/-- Searches and holds the first feasible slot. -/
def holdSlotAt (promiseId : PromiseId) (relativeBundle : RelativeBundle) (range : SlotRange)
    (expiresAt now : Timestamp) : EngineM SlotOutcome := do
  let _ ← processExpirations now
  let s ← get
  if s.promises.contains promiseId then throw .promiseAlreadyExists
  if expiresAt ≤ now then throw .invalidExpiration
  match ← ofExcept (s.searchSlots relativeBundle range) with
  | .found slot timelines => do
    acceptHold promiseId slot.bundle expiresAt now timelines
    return .held promiseId slot.start
  | .unavailable attempts => return .unavailable attempts

/-! ## Live promises -/

/-- Commits a hold. -/
def commitAt (promiseId : PromiseId) (expectedVersion : Version) (now : Timestamp) :
    EngineM Version := do
  let _ ← processExpirations now
  let s ← get
  let newSequence ← ofExcept s.sequence.next
  let promise ← ofExcept (s.promises[promiseId]?.elim (.error .promiseNotFound) .ok)
  if promise.state = .expired then throw .holdExpired
  let (newVersion, committed) ← ofExcept (promise.commit expectedVersion now newSequence)
  set (s.withPromise promiseId committed s.slackTimelines newSequence now .holdCommitted)
  return newVersion

/-- Releases a held or committed promise. -/
def releaseAt (promiseId : PromiseId) (expectedVersion : Version) (now : Timestamp) :
    EngineM Version := do
  let _ ← processExpirations now
  let s ← get
  let newSequence ← ofExcept s.sequence.next
  let promise ← ofExcept (s.promises[promiseId]?.elim (.error .promiseNotFound) .ok)
  if promise.state = .expired then throw .holdExpired
  let (newVersion, released) ← ofExcept (promise.release expectedVersion now newSequence)
  let adjustedTimelines ← ofExcept (s.restoredTimelines released.bundle)
  set (s.withPromise promiseId released (OrderedMap.extend s.slackTimelines adjustedTimelines)
    newSequence now .promiseReleased)
  return newVersion

/-- Replaces a live promise.  Admission is evaluated after the old bundle is given back. -/
def replaceAt (promiseId : PromiseId) (expectedVersion : Version) (newBundle : Bundle)
    (newState : ReplacementState) (now : Timestamp) : EngineM ReplaceOutcome := do
  let _ ← processExpirations now
  let s ← get
  let promise ← ofExcept (s.promises[promiseId]?.elim (.error .promiseNotFound) .ok)
  if promise.state = .expired then throw .holdExpired
  let nextSequence ← ofExcept s.sequence.next
  let (newVersion, replaced) ← ofExcept
    (promise.replace expectedVersion newBundle newState now nextSequence)
  let finalTimelines ← ofExcept (s.restoredTimelines promise.bundle)
  match ← ofExcept (s.evaluateBundleWithOverrides newBundle finalTimelines) with
  | .unavailable conflicts =>
    return .unavailable (conflicts.map fun conflict =>
      { conflict with conflictingPromiseIds :=
          conflict.conflictingPromiseIds.filter fun id => decide (id ≠ promiseId) })
  | .available adjustedTimelines =>
    set (s.withPromise promiseId replaced
      (OrderedMap.extend s.slackTimelines (OrderedMap.extend finalTimelines adjustedTimelines))
      nextSequence now .promiseReplaced)
    return .replaced promiseId newVersion

/-! ## Operations -/

/-- Executes one operation. -/
def applyOnce (operation : CommandOperation) (now : Timestamp) : EngineM CommandResult :=
  match operation with
  | .createResourcePool resourcePoolId displayName unit capacityCurve => do
    let _ ← createResourcePoolAt resourcePoolId displayName unit capacityCurve now
    return .resourcePoolCreated resourcePoolId
  | .reviseCapacity resourcePoolId capacityCurve mode =>
    return .capacityRevised (← reviseCapacityAt resourcePoolId capacityCurve mode now)
  | .hold promiseId bundle expiresAt =>
    return .holdCompleted (← holdWithIdAt promiseId bundle expiresAt now)
  | .holdOneOf promiseId choice expiresAt =>
    return .choiceCompleted (← holdChoiceAt promiseId choice expiresAt now)
  | .holdFirstSlot promiseId relativeBundle earliestStart latestStart step expiresAt =>
    return .slotCompleted
      (← holdSlotAt promiseId relativeBundle ⟨earliestStart, latestStart, step⟩ expiresAt now)
  | .commit promiseId expectedVersion =>
    return .promiseCommitted promiseId (← commitAt promiseId expectedVersion now)
  | .release promiseId expectedVersion =>
    return .promiseReleased promiseId (← releaseAt promiseId expectedVersion now)
  | .replace promiseId expectedVersion newBundle newState =>
    return .promiseReplaced (← replaceAt promiseId expectedVersion newBundle newState now)
  | .processExpirations =>
    return .expirationsProcessed (← processExpirations now)

end EngineState

end PromiseDb
