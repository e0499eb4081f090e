import PromiseDb.Domain.Promise
import Mathlib.Data.Prod.Lex
import Mathlib.Data.String.Basic

/-!
# Commands, outcomes and events

A command is an operation together with the identity under which a client may repeat it.  The
response to a command is a result or an error; insufficient capacity is a result, which lists
the conflicts that stood in the way.  An event is the audit record of one successful transition.

The constructors named `restore` are those by which stored values are read back: they accept
exactly the values that satisfy the documented order and arithmetic of the record.
-/

namespace PromiseDb

/-! ## Identities of requests -/

/-- The opaque identity of a client issuing idempotent commands. -/
structure ClientId where
  /-- The opaque value. -/
  value : String
  deriving DecidableEq

/-- The opaque key of one request within the namespace of a client. -/
structure IdempotencyKey where
  /-- The opaque value. -/
  value : String
  deriving DecidableEq

/-- Clients are ordered by their names. -/
instance : LinearOrder ClientId :=
  LinearOrder.lift' ClientId.value fun ⟨_⟩ ⟨_⟩ h => congrArg ClientId.mk h

/-- Keys are ordered by their text. -/
instance : LinearOrder IdempotencyKey :=
  LinearOrder.lift' IdempotencyKey.value fun ⟨_⟩ ⟨_⟩ h => congrArg IdempotencyKey.mk h

/-- A client and a key, ordered lexicographically. -/
abbrev Identity := ClientId ×ₗ IdempotencyKey

instance : Std.TransCmp (compare : Identity → Identity → Ordering) := LinearOrder.transCmp Identity

/-- Whether a list strictly increases from each element to the next. -/
def strictlyIncreasing {α : Type*} [LT α] [DecidableLT α] : List α → Bool
  | a :: b :: rest => decide (a < b) && strictlyIncreasing (b :: rest)
  | _ => true

/-! ## Admission outcomes -/

/-- A time-bounded reason why a bundle cannot be admitted. -/
structure AvailabilityConflict where
  /-- The pool whose slack is insufficient. -/
  resourcePoolId : ResourcePoolId
  /-- The interval during which the conflict applies. -/
  blockingInterval : Interval
  /-- The combined demand of the bundle during the interval. -/
  requiredQuantity : Quantity
  /-- The non-negative slack available before the bundle. -/
  availableQuantity : Quantity
  /-- The additional quantity required. -/
  deficitQuantity : Quantity
  /-- The active promises that overlap the pool and the interval. -/
  conflictingPromiseIds : List PromiseId
  deriving DecidableEq

/-- Reads back a conflict. -/
def AvailabilityConflict.restore (resourcePoolId : ResourcePoolId) (blockingInterval : Interval)
    (requiredQuantity availableQuantity deficitQuantity : Quantity)
    (conflictingPromiseIds : List PromiseId) : Option AvailabilityConflict :=
  if requiredQuantity > availableQuantity ∧
      requiredQuantity.val - availableQuantity.val = deficitQuantity.val ∧
      strictlyIncreasing conflictingPromiseIds = true then
    some ⟨resourcePoolId, blockingInterval, requiredQuantity, availableQuantity,
      deficitQuantity, conflictingPromiseIds⟩
  else none

/-- The first feasible bundle found in a range of candidate starts. -/
structure Slot where
  /-- The selected candidate start. -/
  start : Timestamp
  /-- The bundle at the selected start. -/
  bundle : Bundle
  deriving DecidableEq

/-- The outcome of searching for and holding a slot. -/
inductive SlotOutcome
  /-- The first feasible slot was held. -/
  | held (promiseId : PromiseId) (start : Timestamp)
  /-- No candidate was feasible; `attempts` candidates were evaluated. -/
  | unavailable (attempts : Nat)
  deriving DecidableEq

/-- The outcome of an attempted hold. -/
inductive HoldOutcome
  /-- The bundle was held under the promise identity. -/
  | held (promiseId : PromiseId)
  /-- The bundle was not held. -/
  | unavailable (conflicts : List AvailabilityConflict)
  deriving DecidableEq

/-- The conflicts that prevented one alternative of a choice from being held. -/
structure ChoiceConflict where
  /-- The position of the unavailable alternative. -/
  alternativeIndex : Nat
  /-- The conflicts of the alternative. -/
  conflicts : List AvailabilityConflict
  deriving DecidableEq

/-- Reads back the conflicts of one alternative. -/
def ChoiceConflict.restore (alternativeIndex : Nat) (conflicts : List AvailabilityConflict) :
    Option ChoiceConflict :=
  if conflicts ≠ [] then some ⟨alternativeIndex, conflicts⟩ else none

/-- The outcome of attempting to hold an ordered choice. -/
inductive ChoiceOutcome
  /-- The first feasible alternative was held. -/
  | held (promiseId : PromiseId) (alternativeIndex : Nat)
  /-- No alternative was feasible. -/
  | unavailable (conflicts : List ChoiceConflict)
  deriving DecidableEq

/-- The outcome of an attempted atomic replacement. -/
inductive ReplaceOutcome
  /-- The promise was replaced. -/
  | replaced (promiseId : PromiseId) (version : Version)
  /-- The original promise was preserved because the replacement lacks capacity. -/
  | unavailable (conflicts : List AvailabilityConflict)
  deriving DecidableEq

/-! ## Capacity revisions -/

/-- Whether a capacity revision may introduce a deficit. -/
inductive CapacityRevisionMode
  /-- Reject the revision when active usage would exceed the new capacity. -/
  | strict
  /-- Accept the revision and report the resulting deficits. -/
  | force
  deriving DecidableEq

/-- An interval where active usage exceeds capacity. -/
structure CapacityDeficit where
  /-- The pool in deficit. -/
  resourcePoolId : ResourcePoolId
  /-- The interval of the deficit. -/
  interval : Interval
  /-- The amount by which usage exceeds capacity. -/
  quantity : Quantity
  /-- The active promises that overlap the deficit. -/
  affectedPromiseIds : List PromiseId
  deriving DecidableEq

/-- Reads back a deficit. -/
def CapacityDeficit.restore (resourcePoolId : ResourcePoolId) (interval : Interval)
    (quantity : Quantity) (affectedPromiseIds : List PromiseId) : Option CapacityDeficit :=
  if 0 < quantity.val ∧ strictlyIncreasing affectedPromiseIds = true then
    some ⟨resourcePoolId, interval, quantity, affectedPromiseIds⟩
  else none

/-- The result of an applied capacity revision. -/
structure CapacityRevisionOutcome where
  /-- The sequence assigned to the revision. -/
  sequence : SequenceNumber
  /-- The resulting deficits in chronological order. -/
  deficits : List CapacityDeficit
  /-- All affected promises. -/
  affectedPromiseIds : List PromiseId
  deriving DecidableEq

/-- Reads back the result of a revision. -/
def CapacityRevisionOutcome.restore (sequence : SequenceNumber) (deficits : List CapacityDeficit)
    (affectedPromiseIds : List PromiseId) : Option CapacityRevisionOutcome :=
  if 0 < sequence.get.val ∧ strictlyIncreasing affectedPromiseIds = true then
    some ⟨sequence, deficits, affectedPromiseIds⟩
  else none

/-! ## Commands and responses -/

/-- The mutation requested by a command. -/
inductive CommandOperation
  /-- Creates a resource pool. -/
  | createResourcePool (resourcePoolId : ResourcePoolId) (displayName : String)
      (unit : ResourceUnit) (capacityCurve : CapacityCurve)
  /-- Replaces the capacity curve of a resource pool. -/
  | reviseCapacity (resourcePoolId : ResourcePoolId) (capacityCurve : CapacityCurve)
      (mode : CapacityRevisionMode)
  /-- Attempts to hold a bundle. -/
  | hold (promiseId : PromiseId) (bundle : Bundle) (expiresAt : Timestamp)
  /-- Attempts to hold the alternatives of a choice in order. -/
  | holdOneOf (promiseId : PromiseId) (choice : Choice) (expiresAt : Timestamp)
  /-- Searches candidate starts and holds the first feasible one. -/
  | holdFirstSlot (promiseId : PromiseId) (relativeBundle : RelativeBundle)
      (earliestStart latestStart : Timestamp) (step : I64) (expiresAt : Timestamp)
  /-- Commits a live hold. -/
  | commit (promiseId : PromiseId) (expectedVersion : Version)
  /-- Releases a live promise. -/
  | release (promiseId : PromiseId) (expectedVersion : Version)
  /-- Replaces a live promise. -/
  | replace (promiseId : PromiseId) (expectedVersion : Version) (newBundle : Bundle)
      (newState : ReplacementState)
  /-- Processes every hold whose deadline has been reached. -/
  | processExpirations
  deriving DecidableEq

/-- A deterministic request to change the state. -/
structure Command where
  /-- The namespace of the idempotency key. -/
  clientId : ClientId
  /-- The key of the request within its namespace. -/
  idempotencyKey : IdempotencyKey
  /-- The requested operation. -/
  operation : CommandOperation
  deriving DecidableEq

/-- The identity under which the response to the command is cached. -/
def Command.identity (command : Command) : Identity :=
  toLex (command.clientId, command.idempotencyKey)

/-- The result of a command. -/
inductive CommandResult
  /-- A resource pool was created. -/
  | resourcePoolCreated (resourcePoolId : ResourcePoolId)
  /-- A capacity revision was applied. -/
  | capacityRevised (outcome : CapacityRevisionOutcome)
  /-- A hold was accepted or found unavailable. -/
  | holdCompleted (outcome : HoldOutcome)
  /-- A choice was held or every alternative was unavailable. -/
  | choiceCompleted (outcome : ChoiceOutcome)
  /-- A slot search was held or exhausted its candidates. -/
  | slotCompleted (outcome : SlotOutcome)
  /-- A promise was committed. -/
  | promiseCommitted (promiseId : PromiseId) (version : Version)
  /-- A promise was released. -/
  | promiseReleased (promiseId : PromiseId) (version : Version)
  /-- A replacement was accepted or found unavailable. -/
  | promiseReplaced (outcome : ReplaceOutcome)
  /-- Due expirations were processed. -/
  | expirationsProcessed (expiredCount : Nat)
  deriving DecidableEq

/-- The response to a command. -/
abbrev CommandResponse := Except DomainError CommandResult

/-! ## Events -/

/-- The kind of a state transition. -/
inductive EventKind
  | resourceCreated
  | capacityRevised
  | holdCreated
  | holdCommitted
  | promiseReleased
  | promiseReplaced
  | holdExpired
  | deficitCreated
  | deficitChanged
  | deficitResolved
  deriving DecidableEq

/-- The data needed to audit an event. -/
inductive EventData
  /-- A transition of a resource pool. -/
  | resourcePool (resourcePoolId : ResourcePoolId)
  /-- A transition of a promise and its resulting version. -/
  | promise (promiseId : PromiseId) (version : Version)
  /-- A transition of a capacity deficit. -/
  | deficit (resourcePoolId : ResourcePoolId) (interval : Interval) (quantity : Quantity)
      (affectedPromiseIds : List PromiseId)
  deriving DecidableEq

/-- The audit record of one successful state transition. -/
structure Event where
  /-- The global sequence of the transition. -/
  sequence : SequenceNumber
  /-- The authoritative timestamp of the transition. -/
  timestamp : Timestamp
  /-- The kind of the transition. -/
  kind : EventKind
  /-- The audit payload. -/
  data : EventData
  deriving DecidableEq

/-- Whether the kind of an event goes with its payload. -/
def EventKind.matchesData : EventKind → EventData → Bool
  | .resourceCreated, .resourcePool _ => true
  | .capacityRevised, .resourcePool _ => true
  | .holdCreated, .promise _ _ => true
  | .holdCommitted, .promise _ _ => true
  | .promiseReleased, .promise _ _ => true
  | .promiseReplaced, .promise _ _ => true
  | .holdExpired, .promise _ _ => true
  | .deficitCreated, .deficit _ _ _ _ => true
  | .deficitChanged, .deficit _ _ _ _ => true
  | .deficitResolved, .deficit _ _ _ _ => true
  | _, _ => false

/-- The magnitude and the promises of a deficit event are in order. -/
def EventData.isOrdered : EventData → Bool
  | .deficit _ _ quantity affectedPromiseIds =>
    decide (quantity.val ≠ 0) && strictlyIncreasing affectedPromiseIds
  | _ => true

/-- Reads back an event. -/
def Event.restore (sequence : SequenceNumber) (timestamp : Timestamp) (kind : EventKind)
    (data : EventData) : Option Event :=
  if kind.matchesData data = true ∧ sequence.get.val ≠ 0 ∧ data.isOrdered = true then
    some ⟨sequence, timestamp, kind, data⟩
  else none

/-! ## Reading values back -/

/-- A conflict is read back exactly when its numbers and its promises are in order. -/
@[simp] theorem AvailabilityConflict.restore_eq_some {c : AvailabilityConflict} :
    AvailabilityConflict.restore c.resourcePoolId c.blockingInterval c.requiredQuantity
        c.availableQuantity c.deficitQuantity c.conflictingPromiseIds = some c ↔
      c.requiredQuantity > c.availableQuantity ∧
        c.requiredQuantity.val - c.availableQuantity.val = c.deficitQuantity.val ∧
        strictlyIncreasing c.conflictingPromiseIds = true := by
  unfold AvailabilityConflict.restore
  split <;> simp_all

/-- A deficit is read back exactly when it is positive and its promises are in order. -/
@[simp] theorem CapacityDeficit.restore_eq_some {d : CapacityDeficit} :
    CapacityDeficit.restore d.resourcePoolId d.interval d.quantity d.affectedPromiseIds = some d ↔
      0 < d.quantity.val ∧ strictlyIncreasing d.affectedPromiseIds = true := by
  unfold CapacityDeficit.restore
  split <;> simp_all

/-- A revision is read back exactly when it has a sequence and its promises are in order. -/
@[simp] theorem CapacityRevisionOutcome.restore_eq_some {o : CapacityRevisionOutcome} :
    CapacityRevisionOutcome.restore o.sequence o.deficits o.affectedPromiseIds = some o ↔
      0 < o.sequence.get.val ∧ strictlyIncreasing o.affectedPromiseIds = true := by
  unfold CapacityRevisionOutcome.restore
  split <;> simp_all

/-- An event is read back exactly when its kind, its sequence and its payload are in order. -/
@[simp] theorem Event.restore_eq_some {e : Event} :
    Event.restore e.sequence e.timestamp e.kind e.data = some e ↔
      e.kind.matchesData e.data = true ∧ e.sequence.get.val ≠ 0 ∧ e.data.isOrdered = true := by
  unfold Event.restore
  split <;> simp_all

/-- The neighbour check decides strict increase of the whole list. -/
theorem strictlyIncreasing_iff {α : Type*} [LinearOrder α] {l : List α} :
    strictlyIncreasing l = true ↔ l.Pairwise (· < ·) := by
  rw [← List.isChain_iff_pairwise]
  induction l with
  | nil => simp [strictlyIncreasing]
  | cons a l ih =>
    cases l with
    | nil => simp [strictlyIncreasing]
    | cons b l => simp [strictlyIncreasing, ih]

end PromiseDb
