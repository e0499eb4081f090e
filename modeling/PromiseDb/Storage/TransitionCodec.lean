import PromiseDb.Engine.Publication
import PromiseDb.Storage.CommandCodec

/-!
# The transition codec

The payload of a log record is the durable effect of one command: the command with its identity
and hash, the response, the pools and promises after the command, the events and the final
sequence.  Decoding checks the structure of everything it reads: the order of identities and
events, the arithmetic of conflicts and deficits, and the histories of promises.
-/

namespace PromiseDb

/-! ## Encoding -/

namespace Writer

/-- Writes a pool. -/
def resourcePool (value : ResourcePool) : StorageWriter := do
  poolId value.id
  string "display name" value.displayName
  unit value.unit
  curve value.capacityCurve

/-- Writes a promise state. -/
def promiseState : PromiseState → StorageWriter
  | .held expiresAt => do
    byte 1
    i64 expiresAt
  | .committed => byte 2
  | .released => byte 3
  | .expired => byte 4

/-- Writes a promise. -/
def promise (value : Promise) : StorageWriter := do
  promiseId value.id
  promiseState value.state
  bundle value.bundle
  u64 value.version.get
  u64 value.createdSequence.get
  u64 value.updatedSequence.get

/-- Writes a list of promise identities. -/
def ids (field : String) (value : List PromiseId) : StorageWriter := do
  len field value.length
  value.forM promiseId

/-- Writes a conflict. -/
def conflict (value : AvailabilityConflict) : StorageWriter := do
  poolId value.resourcePoolId
  interval value.blockingInterval
  u64 value.requiredQuantity
  u64 value.availableQuantity
  u64 value.deficitQuantity
  ids "conflicting promise ids" value.conflictingPromiseIds

/-- Writes a list of conflicts. -/
def conflicts (values : List AvailabilityConflict) : StorageWriter := do
  len "availability conflicts" values.length
  values.forM conflict

/-- Writes a deficit. -/
def deficit (value : CapacityDeficit) : StorageWriter := do
  poolId value.resourcePoolId
  interval value.interval
  u64 value.quantity
  ids "affected promise ids" value.affectedPromiseIds

/-- Writes the outcome of a capacity revision. -/
def capacityOutcome (value : CapacityRevisionOutcome) : StorageWriter := do
  u64 value.sequence.get
  len "capacity deficits" value.deficits.length
  value.deficits.forM deficit
  ids "affected promise ids" value.affectedPromiseIds

/-- Writes the conflicts of one alternative. -/
def choiceConflict (value : ChoiceConflict) : StorageWriter := do
  len "alternative index" value.alternativeIndex
  conflicts value.conflicts

/-- Writes a number of attempts, which a 128-bit number holds. -/
def attempts (value : Nat) : StorageWriter := raw (Bytes.le 16 value)

/-- Writes a number of expired holds. -/
def expiredCount (value : Nat) : StorageWriter :=
  match (BoundedInt.ofInt? (value : ℤ) : Option U64) with
  | some value => u64 value
  | none => throw (.invalidLength "expired count" 18446744073709551615)

/-- Writes a result. -/
def result : CommandResult → StorageWriter
  | .resourcePoolCreated resourcePoolId => do
    byte 1
    poolId resourcePoolId
  | .capacityRevised outcome => do
    byte 2
    capacityOutcome outcome
  | .holdCompleted (.held id) => do
    byte 3
    byte 1
    promiseId id
  | .holdCompleted (.unavailable values) => do
    byte 3
    byte 2
    conflicts values
  | .choiceCompleted (.held id alternativeIndex) => do
    byte 4
    byte 1
    promiseId id
    len "alternative index" alternativeIndex
  | .choiceCompleted (.unavailable values) => do
    byte 4
    byte 2
    len "choice conflicts" values.length
    values.forM choiceConflict
  | .slotCompleted (.held id start) => do
    byte 5
    byte 1
    promiseId id
    i64 start
  | .slotCompleted (.unavailable value) => do
    byte 5
    byte 2
    attempts value
  | .promiseCommitted id version => do
    byte 6
    promiseId id
    u64 version.get
  | .promiseReleased id version => do
    byte 7
    promiseId id
    u64 version.get
  | .promiseReplaced (.replaced id version) => do
    byte 8
    byte 1
    promiseId id
    u64 version.get
  | .promiseReplaced (.unavailable values) => do
    byte 8
    byte 2
    conflicts values
  | .expirationsProcessed value => do
    byte 9
    expiredCount value

/-- The tag of a domain error. -/
def domainErrorTag : DomainError → UInt8
  | .invalidInterval => 1
  | .unsortedCapacitySegments => 2
  | .overlappingCapacitySegments => 3
  | .invalidUnitName => 4
  | .invalidUnitScale => 5
  | .invalidQuantity => 6
  | .quantityOutOfRange => 7
  | .quantityOverflow => 8
  | .indexOverflow => 9
  | .invalidExpiration => 10
  | .emptyBundle => 11
  | .emptyRelativeBundle => 12
  | .emptyChoice => 13
  | .invalidSearchRange => 14
  | .invalidStep => 15
  | .timestampOverflow => 16
  | .resourcePoolAlreadyExists => 17
  | .resourcePoolNotFound => 18
  | .capacityExceeded => 19
  | .capacityRevisionCreatesDeficit => 20
  | .promiseAlreadyExists => 21
  | .promiseNotFound => 22
  | .invalidPromiseState => 23
  | .idempotencyConflict => 24
  | .versionConflict => 25
  | .versionOverflow => 26
  | .sequenceOverflow => 27
  | .systemTimeOutOfRange => 28
  | .holdExpired => 29
  | .holdNotExpired => 30
  | .invalidPromiseHistory => 31
  | .publicationRevisionOverflow => 32

/-- Writes a domain error. -/
def domainError (value : DomainError) : StorageWriter := byte (domainErrorTag value)

/-- Writes a response. -/
def response : CommandResponse → StorageWriter
  | .ok value => do
    byte 1
    result value
  | .error error => do
    byte 2
    domainError error

/-- The tag of an event kind. -/
def eventKindTag : EventKind → UInt8
  | .resourceCreated => 1
  | .capacityRevised => 2
  | .holdCreated => 3
  | .holdCommitted => 4
  | .promiseReleased => 5
  | .promiseReplaced => 6
  | .holdExpired => 7
  | .deficitCreated => 8
  | .deficitChanged => 9
  | .deficitResolved => 10

/-- Writes an event payload. -/
def eventData : EventData → StorageWriter
  | .resourcePool resourcePoolId => do
    byte 1
    poolId resourcePoolId
  | .promise id version => do
    byte 2
    promiseId id
    u64 version.get
  | .deficit resourcePoolId value quantity affectedPromiseIds => do
    byte 3
    poolId resourcePoolId
    interval value
    u64 quantity
    ids "affected promise ids" affectedPromiseIds

/-- Writes an event. -/
def event (value : Event) : StorageWriter := do
  u64 value.sequence.get
  i64 value.timestamp
  byte (eventKindTag value.kind)
  eventData value.data

/-- Writes a durable transition. -/
def transition (value : DurableTransition) : StorageWriter := do
  byte 1
  let command ← Codec.Writer.lift (encodeCommand value.command)
  bytes "command" command
  string "client_id" value.clientId.value
  string "idempotency_key" value.idempotencyKey.value
  raw value.commandHash.bytes
  response value.response
  len "resource pools" value.resourcePools.length
  value.resourcePools.forM resourcePool
  len "promises" value.promises.length
  value.promises.forM promise
  len "events" value.events.length
  value.events.forM event
  u64 value.finalSequence.get

end Writer

/-- Encodes a durable transition. -/
def encodeTransition (value : DurableTransition) : Except StorageError (List UInt8) :=
  (Writer.transition value).written

/-! ## Decoding -/

/-- A digest of the bytes of a digest. -/
def CommandHash.fromBytes (bytes : List UInt8) : CommandHash :=
  ⟨bytes.takeD 32 0, List.takeD_length 32 bytes 0⟩

namespace Reader

/-- Reads a version of the transition codec. -/
def version : StorageReader Version := versionOr "zero promise version"

/-- Reads a sequence number. -/
def sequence : StorageReader SequenceNumber := do
  let value ← u64
  pure ⟨value⟩

/-- Reads a digest. -/
def commandHash : StorageReader CommandHash := do
  let bytes ← take 32
  pure (CommandHash.fromBytes bytes)

/-- Reads a promise state. -/
def promiseState : StorageReader PromiseState := do
  match ← byte with
  | 1 => do
    let expiresAt ← i64
    pure (.held expiresAt)
  | 2 => pure .committed
  | 3 => pure .released
  | 4 => pure .expired
  | tag => throw (.invalidTag "promise state" tag)

/-- Reads a number of attempts, which is positive. -/
def attempts : StorageReader Nat := do
  let bytes ← take 16
  if Bytes.ofLe bytes = 0 then throw (.corruptRecord "zero slot attempts")
  else pure (Bytes.ofLe bytes)

/-- Reads a number of expired holds. -/
def expiredCount : StorageReader Nat := do
  let value ← u64
  pure value.val.toNat

/-- Reads a domain error. -/
def domainError : StorageReader DomainError := do
  match ← byte with
  | 1 => pure .invalidInterval
  | 2 => pure .unsortedCapacitySegments
  | 3 => pure .overlappingCapacitySegments
  | 4 => pure .invalidUnitName
  | 5 => pure .invalidUnitScale
  | 6 => pure .invalidQuantity
  | 7 => pure .quantityOutOfRange
  | 8 => pure .quantityOverflow
  | 9 => pure .indexOverflow
  | 10 => pure .invalidExpiration
  | 11 => pure .emptyBundle
  | 12 => pure .emptyRelativeBundle
  | 13 => pure .emptyChoice
  | 14 => pure .invalidSearchRange
  | 15 => pure .invalidStep
  | 16 => pure .timestampOverflow
  | 17 => pure .resourcePoolAlreadyExists
  | 18 => pure .resourcePoolNotFound
  | 19 => pure .capacityExceeded
  | 20 => pure .capacityRevisionCreatesDeficit
  | 21 => pure .promiseAlreadyExists
  | 22 => pure .promiseNotFound
  | 23 => pure .invalidPromiseState
  | 24 => pure .idempotencyConflict
  | 25 => pure .versionConflict
  | 26 => pure .versionOverflow
  | 27 => pure .sequenceOverflow
  | 28 => pure .systemTimeOutOfRange
  | 29 => pure .holdExpired
  | 30 => pure .holdNotExpired
  | 31 => pure .invalidPromiseHistory
  | 32 => pure .publicationRevisionOverflow
  | tag => throw (.invalidTag "domain error" tag)

/-- Reads an event kind. -/
def eventKind : StorageReader EventKind := do
  match ← byte with
  | 1 => pure .resourceCreated
  | 2 => pure .capacityRevised
  | 3 => pure .holdCreated
  | 4 => pure .holdCommitted
  | 5 => pure .promiseReleased
  | 6 => pure .promiseReplaced
  | 7 => pure .holdExpired
  | 8 => pure .deficitCreated
  | 9 => pure .deficitChanged
  | 10 => pure .deficitResolved
  | tag => throw (.invalidTag "event kind" tag)

section Limits

variable (limits : ReaderLimits)

/-- Reads a pool. -/
def resourcePool : StorageReader ResourcePool := do
  let id ← poolId
  let displayName ← string limits "display name"
  let unit ← unit limits
  let curve ← curve limits
  pure ⟨id, displayName, unit, curve⟩

/-- Reads a promise. -/
def promise : StorageReader Promise := do
  let id ← promiseId
  let state ← promiseState
  let bundle ← bundle limits
  let version ← version
  let created ← sequence
  let updated ← sequence
  domain (Promise.restore id state bundle version created updated)

/-- Reads a list of increasing promise identities. -/
def ids (field : String) : StorageReader (List PromiseId) := do
  let count ← count limits field
  Codec.Reader.timesInOrder promiseId (fun previous id => decide (previous < id))
    (.corruptRecord "promise IDs are not sorted and unique") none count

/-- Reads a conflict. -/
def conflict : StorageReader AvailabilityConflict := do
  let poolId ← poolId
  let interval ← interval
  let required ← u64
  let available ← u64
  let deficit ← u64
  let ids ← ids limits "conflicting promise ids"
  orCorrupt (AvailabilityConflict.restore poolId interval required available deficit ids)
    "invalid availability conflict"

/-- Reads a list of conflicts, which is not empty. -/
def conflicts : StorageReader (List AvailabilityConflict) := do
  let count ← count limits "availability conflicts"
  if count = 0 then throw (.corruptRecord "empty unavailable conflict list")
  else Codec.Reader.times (conflict limits) count

/-- Reads a deficit. -/
def deficit : StorageReader CapacityDeficit := do
  let poolId ← poolId
  let interval ← interval
  let quantity ← u64
  let ids ← ids limits "affected promise ids"
  orCorrupt (CapacityDeficit.restore poolId interval quantity ids) "invalid capacity deficit"

/-- Reads the outcome of a capacity revision. -/
def capacityOutcome : StorageReader CapacityRevisionOutcome := do
  let sequence ← sequence
  let count ← count limits "capacity deficits"
  let deficits ← Codec.Reader.times (deficit limits) count
  let ids ← ids limits "affected promise ids"
  orCorrupt (CapacityRevisionOutcome.restore sequence deficits ids)
    "invalid capacity revision outcome"

/-- Reads a hold outcome. -/
def holdOutcome : StorageReader HoldOutcome := do
  match ← byte with
  | 1 => do
    let id ← promiseId
    pure (.held id)
  | 2 => do
    let conflicts ← conflicts limits
    pure (.unavailable conflicts)
  | tag => throw (.invalidTag "hold outcome" tag)

/-- Reads the conflicts of the alternative at a position. -/
def choiceConflict (expected : Nat) : StorageReader ChoiceConflict := do
  let index ← count limits "alternative index"
  if index ≠ expected then throw (.corruptRecord "non-canonical choice conflict index")
  else
    let conflicts ← conflicts limits
    orCorrupt (ChoiceConflict.restore index conflicts) "invalid choice conflict"

/-- Reads a choice outcome. -/
def choiceOutcome : StorageReader ChoiceOutcome := do
  match ← byte with
  | 1 => do
    let id ← promiseId
    let index ← count limits "alternative index"
    pure (.held id index)
  | 2 => do
    let count ← count limits "choice conflicts"
    if count = 0 then throw (.corruptRecord "empty choice conflict list")
    else
      let values ← Codec.Reader.timesFrom (choiceConflict limits) 0 count
      pure (.unavailable values)
  | tag => throw (.invalidTag "choice outcome" tag)

/-- Reads a slot outcome. -/
def slotOutcome : StorageReader SlotOutcome := do
  match ← byte with
  | 1 => do
    let id ← promiseId
    let start ← i64
    pure (.held id start)
  | 2 => do
    let attempts ← attempts
    pure (.unavailable attempts)
  | tag => throw (.invalidTag "slot outcome" tag)

/-- Reads a replace outcome. -/
def replaceOutcome : StorageReader ReplaceOutcome := do
  match ← byte with
  | 1 => do
    let id ← promiseId
    let version ← version
    pure (.replaced id version)
  | 2 => do
    let conflicts ← conflicts limits
    pure (.unavailable conflicts)
  | tag => throw (.invalidTag "replace outcome" tag)

/-- Reads a result. -/
def result : StorageReader CommandResult := do
  match ← byte with
  | 1 => do
    let resourcePoolId ← poolId
    pure (.resourcePoolCreated resourcePoolId)
  | 2 => do
    let outcome ← capacityOutcome limits
    pure (.capacityRevised outcome)
  | 3 => do
    let outcome ← holdOutcome limits
    pure (.holdCompleted outcome)
  | 4 => do
    let outcome ← choiceOutcome limits
    pure (.choiceCompleted outcome)
  | 5 => do
    let outcome ← slotOutcome
    pure (.slotCompleted outcome)
  | 6 => do
    let id ← promiseId
    let version ← version
    pure (.promiseCommitted id version)
  | 7 => do
    let id ← promiseId
    let version ← version
    pure (.promiseReleased id version)
  | 8 => do
    let outcome ← replaceOutcome limits
    pure (.promiseReplaced outcome)
  | 9 => do
    let count ← expiredCount
    pure (.expirationsProcessed count)
  | tag => throw (.invalidTag "command result" tag)

/-- Reads a response. -/
def response : StorageReader CommandResponse := do
  match ← byte with
  | 1 => do
    let result ← result limits
    pure (.ok result)
  | 2 => do
    let error ← domainError
    pure (.error error)
  | tag => throw (.invalidTag "command response" tag)

/-- Reads an event payload. -/
def eventData : StorageReader EventData := do
  match ← byte with
  | 1 => do
    let resourcePoolId ← poolId
    pure (.resourcePool resourcePoolId)
  | 2 => do
    let id ← promiseId
    let version ← version
    pure (.promise id version)
  | 3 => do
    let resourcePoolId ← poolId
    let interval ← interval
    let quantity ← u64
    let ids ← ids limits "affected promise ids"
    pure (.deficit resourcePoolId interval quantity ids)
  | tag => throw (.invalidTag "event data" tag)

/-- Reads an event. -/
def event : StorageReader Event := do
  let sequence ← sequence
  let timestamp ← i64
  let kind ← eventKind
  let data ← eventData limits
  orCorrupt (Event.restore sequence timestamp kind data) "invalid event"

end Limits

/-- The largest length that the machine can address. -/
def usizeMax : Nat := 18446744073709551615

/-- The bounds of the reader of transitions. -/
def transitionLimits : ReaderLimits := ⟨some usizeMax, some usizeMax⟩

/-- Reads the format version of a transition. -/
def transitionFormat : StorageReader PUnit := do
  let version ← byte
  if version = 1 then pure ⟨⟩ else throw (.unsupportedTransitionVersion version)

/-- Reads a durable transition. -/
def transition : StorageReader DurableTransition := do
  transitionFormat
  let commandBytes ← bytes transitionLimits "command"
  let command ← Codec.Reader.lift (decodeCommand commandBytes)
  let clientId ← string transitionLimits "client_id"
  let idempotencyKey ← string transitionLimits "idempotency_key"
  let commandHash ← commandHash
  let response ← response transitionLimits
  let poolCount ← count transitionLimits "resource pools"
  let resourcePools ← Codec.Reader.timesInOrder (resourcePool transitionLimits)
    (fun previous pool => decide (previous.id < pool.id))
    (.corruptRecord "non-canonical resource pool order") none poolCount
  let promiseCount ← count transitionLimits "promises"
  let promises ← Codec.Reader.timesInOrder (promise transitionLimits)
    (fun previous promise => decide (previous.id < promise.id))
    (.corruptRecord "non-canonical promise order") none promiseCount
  let eventCount ← count transitionLimits "events"
  let events ← Codec.Reader.timesInOrder (event transitionLimits)
    (fun previous event => decide (previous.sequence ≤ event.sequence))
    (.corruptRecord "events are not sequence ordered") none eventCount
  let finalSequence ← sequence
  pure ⟨command, ⟨clientId⟩, ⟨idempotencyKey⟩, commandHash, response, resourcePools, promises,
    events, finalSequence⟩

end Reader

/-- Decodes a durable transition. -/
def decodeTransition (bytes : List UInt8) : Except StorageError DurableTransition :=
  Reader.complete Reader.transition "trailing transition payload bytes" bytes

end PromiseDb
