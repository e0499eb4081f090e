import PromiseDb.Engine.Operations

/-!
# Publication, recovery and snapshots

An engine is a state together with a publication revision.  A command is applied directly, or it
is prepared in a batch against one copy of the state and published after its effects have been
made durable.  Recovery installs the durable effects of commands without executing them, or
restores a captured state, and then rebuilds the derived timelines.
-/

namespace PromiseDb

/-- The publication generation, which does not depend on the event sequence. -/
abbrev PublicationRevision := U128

/-- The single-node state machine. -/
structure Engine where
  /-- The state. -/
  state : EngineState
  /-- The publication generation. -/
  publicationRevision : PublicationRevision

/-- Canonical authoritative state captured at a snapshot boundary. -/
structure EngineSnapshot where
  resourcePools : List ResourcePool
  promises : List Promise
  events : List Event
  idempotencyRecords : List (ClientId × IdempotencyKey × CommandHash × CommandResponse)
  sequence : SequenceNumber
  publicationRevision : PublicationRevision
  eventsPrunedThrough : SequenceNumber

/-- A durable description of the effects of one first-seen command. -/
structure DurableTransition where
  command : Command
  clientId : ClientId
  idempotencyKey : IdempotencyKey
  commandHash : CommandHash
  response : CommandResponse
  resourcePools : List ResourcePool
  promises : List Promise
  events : List Event
  finalSequence : SequenceNumber

/-- A durable transition with the timestamp of its record. -/
structure TimestampedTransition where
  timestamp : Timestamp
  transition : DurableTransition

/-- An ordered group prepared from one copy of the state. -/
structure PreparedBatch where
  baseRevision : PublicationRevision
  nextRevision : PublicationRevision
  candidate : Option EngineState
  responses : List CommandResponse
  durableItems : List TimestampedTransition

/-- Publication failures detected before persistence. -/
inductive PreparationError
  | staleRevision (expected actual : PublicationRevision)
  | revisionOverflow
  deriving DecidableEq

/-- Validation failures of installing durable effects. -/
inductive InstallError
  | commandIdentity
  | commandHash
  | duplicateIdempotencyIdentity
  | sequence
  | entityIdentity
  | domainInvariant
  | publicationRevision
  | index (error : DomainError)
  deriving DecidableEq

namespace Engine

/-- The engine before every command. -/
def empty : Engine := ⟨.empty, ⟨0, U128.zero_range⟩⟩

/-- The events with a sequence of at least `fromSequence`. -/
def watchEvents (e : Engine) (fromSequence : SequenceNumber) : List Event :=
  e.state.events.dropWhile fun event => decide (event.sequence < fromSequence)

/-! ## Snapshots -/

/-- Captures authoritative state in key order. -/
def captureSnapshot (e : Engine) : EngineSnapshot where
  resourcePools := OrderedMap.vals e.state.resourcePools
  promises := OrderedMap.vals e.state.promises
  events := e.state.events
  idempotencyRecords := e.state.idempotencyRecords.toList.map fun (identity, record) =>
    ((ofLex identity).1, (ofLex identity).2, record.commandHash, record.response)
  sequence := e.state.sequence
  publicationRevision := e.publicationRevision
  eventsPrunedThrough := .zero

/-- Whether a conflict only names existing pools and promises. -/
def conflictReferencesValid (pools : OrderedMap ResourcePoolId ResourcePool)
    (promises : OrderedMap PromiseId Promise) (conflict : AvailabilityConflict) : Bool :=
  pools.contains conflict.resourcePoolId && conflict.conflictingPromiseIds.all promises.contains

/-- Whether a promise has reached at least the given version. -/
def reachedVersion (promises : OrderedMap PromiseId Promise) (promiseId : PromiseId)
    (version : Version) : Bool :=
  promises[promiseId]?.any fun promise => decide (version.get ≤ promise.version.get)

/-- Whether a cached response only names existing pools, promises, versions and sequences. -/
def responseReferencesValid (response : CommandResponse)
    (pools : OrderedMap ResourcePoolId ResourcePool) (promises : OrderedMap PromiseId Promise)
    (sequence : SequenceNumber) : Bool :=
  match response with
  | .error _ => true
  | .ok (.resourcePoolCreated resourcePoolId) => pools.contains resourcePoolId
  | .ok (.capacityRevised outcome) =>
    decide (outcome.sequence ≤ sequence) &&
      (outcome.deficits.all fun deficit => pools.contains deficit.resourcePoolId &&
        deficit.affectedPromiseIds.all promises.contains) &&
      outcome.affectedPromiseIds.all promises.contains
  | .ok (.holdCompleted (.held promiseId)) => promises.contains promiseId
  | .ok (.holdCompleted (.unavailable conflicts)) =>
    conflicts.all (conflictReferencesValid pools promises)
  | .ok (.choiceCompleted (.held promiseId _)) => promises.contains promiseId
  | .ok (.choiceCompleted (.unavailable conflicts)) =>
    conflicts.all fun conflict => conflict.conflicts.all (conflictReferencesValid pools promises)
  | .ok (.slotCompleted (.held promiseId _)) => promises.contains promiseId
  | .ok (.slotCompleted (.unavailable _)) => true
  | .ok (.expirationsProcessed _) => true
  | .ok (.promiseCommitted promiseId version) => reachedVersion promises promiseId version
  | .ok (.promiseReleased promiseId version) => reachedVersion promises promiseId version
  | .ok (.promiseReplaced (.replaced promiseId version)) =>
    reachedVersion promises promiseId version
  | .ok (.promiseReplaced (.unavailable conflicts)) =>
    conflicts.all (conflictReferencesValid pools promises)

/-- Restores pools, whose identities must increase. -/
def restorePools (pools : OrderedMap ResourcePoolId ResourcePool) :
    Option ResourcePoolId → List ResourcePool →
    Except InstallError (OrderedMap ResourcePoolId ResourcePool)
  | _, [] => .ok pools
  | previous, pool :: rest =>
    if previous.any fun previous => decide (previous ≥ pool.id) then .error .entityIdentity
    else restorePools (pools.insert pool.id pool) (some pool.id) rest

/-- Whether every claim of a promise is on an existing pool. -/
def claimPoolsExist (pools : OrderedMap ResourcePoolId ResourcePool) (promise : Promise) : Bool :=
  promise.bundle.claims.all fun claim => pools.contains claim.poolId

/-- Restores promises, whose identities must increase. -/
def restorePromises (pools : OrderedMap ResourcePoolId ResourcePool) (sequence : SequenceNumber)
    (promises : OrderedMap PromiseId Promise) :
    Option PromiseId → List Promise → Except InstallError (OrderedMap PromiseId Promise)
  | _, [] => .ok promises
  | previous, promise :: rest =>
    if (previous.any fun previous => decide (previous ≥ promise.id)) ||
        decide (promise.createdSequence.get.val = 0) ||
        decide (promise.createdSequence > promise.updatedSequence) ||
        decide (promise.updatedSequence > sequence) || !claimPoolsExist pools promise then
      .error .domainInvariant
    else restorePromises pools sequence (promises.insert promise.id promise) (some promise.id) rest

/-- Whether the payload of a captured event only names existing pools, promises and versions. -/
def snapshotEventValid (pools : OrderedMap ResourcePoolId ResourcePool)
    (promises : OrderedMap PromiseId Promise) : EventData → Bool
  | .resourcePool resourcePoolId => pools.contains resourcePoolId
  | .promise promiseId version => reachedVersion promises promiseId version
  | .deficit resourcePoolId _ _ affectedPromiseIds =>
    pools.contains resourcePoolId && affectedPromiseIds.all promises.contains

/-- Checks the captured events, whose sequences must not decrease. -/
def checkEvents (pools : OrderedMap ResourcePoolId ResourcePool)
    (promises : OrderedMap PromiseId Promise) (sequence : SequenceNumber) :
    Option SequenceNumber → List Event → Except InstallError Unit
  | _, [] => .ok ()
  | previous, event :: rest =>
    if decide (event.sequence > sequence) ||
        previous.any fun previous => decide (previous > event.sequence) then .error .sequence
    else if !snapshotEventValid pools promises event.data then .error .entityIdentity
    else checkEvents pools promises sequence (some event.sequence) rest

/-- Restores the cached responses, whose identities must increase. -/
def restoreRecords (pools : OrderedMap ResourcePoolId ResourcePool)
    (promises : OrderedMap PromiseId Promise) (sequence : SequenceNumber)
    (records : OrderedMap Identity IdempotencyRecord) :
    Option Identity → List (ClientId × IdempotencyKey × CommandHash × CommandResponse) →
    Except InstallError (OrderedMap Identity IdempotencyRecord)
  | _, [] => .ok records
  | previous, (client, key, hash, response) :: rest =>
    if !responseReferencesValid response pools promises sequence then .error .entityIdentity
    else
      let identity : Identity := toLex (client, key)
      if previous.any fun previous => decide (previous ≥ identity) then
        .error .duplicateIdempotencyIdentity
      else restoreRecords pools promises sequence (records.insert identity ⟨hash, response⟩)
        (some identity) rest

/-- Restores a captured state without its derived timelines. -/
def restoreSnapshotUnindexed (snapshot : EngineSnapshot) : Except InstallError Engine := do
  if snapshot.eventsPrunedThrough.get.val ≠ 0 then .error .domainInvariant
  let resourcePools ← restorePools ∅ none snapshot.resourcePools
  let promises ← restorePromises resourcePools snapshot.sequence ∅ none snapshot.promises
  checkEvents resourcePools promises snapshot.sequence none snapshot.events
  let idempotencyRecords ← restoreRecords resourcePools promises snapshot.sequence ∅ none
    snapshot.idempotencyRecords
  return ⟨⟨resourcePools, ∅, promises, snapshot.events, idempotencyRecords, snapshot.sequence⟩,
    snapshot.publicationRevision⟩

/-! ## Installing durable effects -/

/-- Checks that the events of a transition continue the sequence, where `current` is the
sequence before the transition and `previous` that of the last event checked. -/
def checkTransitionEvents (current : SequenceNumber) :
    SequenceNumber → List Event → Except InstallError SequenceNumber
  | previous, [] => .ok previous
  | previous, event :: rest =>
    if event.sequence < previous then .error .sequence
    else if event.sequence > previous then
      if previous.get.checkedAdd ⟨1, U64.one_range⟩ ≠ some event.sequence.get then .error .sequence
      else checkTransitionEvents current event.sequence rest
    else if previous = current then .error .sequence
    else checkTransitionEvents current previous rest

/-- Checks that a transition leads from the current sequence to its final one. -/
def checkTransitionSequence (current : SequenceNumber) (transition : DurableTransition) :
    Except InstallError Unit := do
  if transition.finalSequence < current then .error .sequence
  else if transition.events = [] then
    if transition.finalSequence ≠ current then .error .sequence else .ok ()
  else do
    let last ← checkTransitionEvents current current transition.events
    if last ≠ transition.finalSequence then .error .sequence else .ok ()

/-- Installs promises, whose identities must increase. -/
def installPromises (finalSequence : SequenceNumber) (promises : OrderedMap PromiseId Promise) :
    Option PromiseId → List Promise → Except InstallError (OrderedMap PromiseId Promise)
  | _, [] => .ok promises
  | previous, promise :: rest =>
    if (previous.any fun previous => decide (previous ≥ promise.id)) ||
        decide (promise.createdSequence > promise.updatedSequence) ||
        decide (promise.updatedSequence > finalSequence) then .error .domainInvariant
    else installPromises finalSequence (promises.insert promise.id promise) (some promise.id) rest

/-- Whether the payload of an installed event only names existing pools and promises. -/
def installEventValid (pools : OrderedMap ResourcePoolId ResourcePool)
    (promises : OrderedMap PromiseId Promise) : EventData → Bool
  | .resourcePool resourcePoolId => pools.contains resourcePoolId
  | .promise promiseId _ => promises.contains promiseId
  | .deficit resourcePoolId _ _ affectedPromiseIds =>
    pools.contains resourcePoolId && affectedPromiseIds.all promises.contains

/-- The next publication generation. -/
def nextRevision (e : Engine) : Option PublicationRevision :=
  e.publicationRevision.checkedAdd ⟨1, U128.one_range⟩

/-- The timeline of one pool, rebuilt from authoritative state. -/
def rebuildTimeline (promises : List Promise) (entry : ResourcePoolId × ResourcePool) :
    Except InstallError SlackTimeline :=
  match SlackTimeline.fromCapacityAndPromises entry.2.capacityCurve entry.1 promises with
  | .ok timeline => .ok timeline
  | .error _ => .error (.index .indexOverflow)

/-- Rebuilds every derived timeline from authoritative state. -/
def rebuildSlackTimelines (e : Engine) : Except InstallError Engine := do
  let promises := OrderedMap.vals e.state.promises
  let timelines ← e.state.resourcePools.toList.foldlM
    (fun (timelines : OrderedMap ResourcePoolId SlackTimeline) entry =>
      return timelines.insert entry.1 (← rebuildTimeline promises entry)) ∅
  return { e with state := { e.state with slackTimelines := timelines } }

/-! ## Commands -/

section Hashing

variable (blake3 : List UInt8 → CommandHash)

/-- Installs decoded effects without executing the command. -/
def installTransition (e : Engine) (transition : DurableTransition) :
    Except InstallError Engine := do
  let nextRevision ← e.nextRevision.elim (.error .publicationRevision) .ok
  if transition.command.clientId ≠ transition.clientId ∨
      transition.command.idempotencyKey ≠ transition.idempotencyKey then .error .commandIdentity
  if hashOperation blake3 transition.command.operation ≠ transition.commandHash then
    .error .commandHash
  let identity : Identity := toLex (transition.clientId, transition.idempotencyKey)
  if e.state.idempotencyRecords.contains identity then .error .duplicateIdempotencyIdentity
  checkTransitionSequence e.state.sequence transition
  let resourcePools ← restorePools e.state.resourcePools none transition.resourcePools
  let promises ← installPromises transition.finalSequence e.state.promises none
    transition.promises
  if (OrderedMap.vals promises).any fun promise => !claimPoolsExist resourcePools promise then
    .error .domainInvariant
  if transition.events.any fun event => !installEventValid resourcePools promises event.data then
    .error .entityIdentity
  return {
    state := {
      resourcePools := resourcePools
      slackTimelines := ∅
      promises := promises
      events := e.state.events ++ transition.events
      idempotencyRecords := e.state.idempotencyRecords.insert identity
        ⟨transition.commandHash, transition.response⟩
      sequence := transition.finalSequence }
    publicationRevision := nextRevision }

/-- The response that a cached record gives to a command. -/
def cachedResponse (record : IdempotencyRecord) (commandHash : CommandHash) : CommandResponse :=
  if record.commandHash ≠ commandHash then .error .idempotencyConflict else record.response

/-- Executes an operation and caches its response. -/
def executeOnce (s : EngineState) (command : Command) (now : Timestamp) :
    CommandResponse × EngineState :=
  let (response, s') : CommandResponse × EngineState :=
    match EngineState.applyOnce command.operation now s with
    | .ok result s' => (.ok result, s')
    | .error error s' => (.error error, s')
  (response, { s' with
    idempotencyRecords := s'.idempotencyRecords.insert command.identity
      ⟨hashOperation blake3 command.operation, response⟩ })

/-- Applies one command at an authoritative timestamp. -/
def apply (e : Engine) (command : Command) (now : Timestamp) : CommandResponse × Engine :=
  match e.state.idempotencyRecords[command.identity]? with
  | some record => (cachedResponse record (hashOperation blake3 command.operation), e)
  | none =>
    match e.nextRevision with
    | none => (.error .publicationRevisionOverflow, e)
    | some nextRevision =>
      let (response, state) := executeOnce blake3 e.state command now
      (response, ⟨state, nextRevision⟩)

/-- The identities of a list of commands that are not cached, with the hash of the first command
of each. -/
def newIdentities (s : EngineState) (commands : List (Command × Timestamp)) :
    OrderedMap Identity CommandHash :=
  commands.foldl (fun identities (command, _) =>
    if s.idempotencyRecords.contains command.identity || identities.contains command.identity then
      identities
    else identities.insert command.identity (hashOperation blake3 command.operation)) ∅

/-- The pools of a candidate that are not those of the base. -/
def changedPools (base candidate : EngineState) : List ResourcePool :=
  (candidate.resourcePools.toList.filter fun (id, value) =>
    decide (base.resourcePools[id]? ≠ some value)).map Prod.snd

/-- The promises of a candidate that are not those of the base. -/
def changedPromises (base candidate : EngineState) : List Promise :=
  (candidate.promises.toList.filter fun (id, value) =>
    decide (base.promises[id]? ≠ some value)).map Prod.snd

/-- What has been prepared so far: the candidate, the responses and the durable items. -/
structure Preparation where
  candidate : EngineState
  responses : List CommandResponse
  durableItems : List TimestampedTransition

/-- Prepares the next command of a batch. -/
def prepareCommand (base : EngineState) (p : Preparation) (entry : Command × Timestamp) :
    Preparation :=
  let (command, timestamp) := entry
  let commandHash := hashOperation blake3 command.operation
  match p.candidate.idempotencyRecords[command.identity]? with
  | some record => { p with responses := p.responses ++ [cachedResponse record commandHash] }
  | none =>
    let priorEventCount := p.candidate.events.length
    let (response, candidate) := executeOnce blake3 p.candidate command timestamp
    let transition : DurableTransition :=
      { command
        clientId := command.clientId
        idempotencyKey := command.idempotencyKey
        commandHash
        response
        resourcePools := changedPools base candidate
        promises := changedPromises base candidate
        events := candidate.events.drop priorEventCount
        finalSequence := candidate.sequence }
    ⟨candidate, p.responses ++ [response], p.durableItems ++ [⟨timestamp, transition⟩]⟩

/-- Prepares ordered commands against one copy of the state. -/
def prepareBatch (e : Engine) (commands : List (Command × Timestamp)) :
    Except PreparationError PreparedBatch :=
  if commands = [] then
    .ok ⟨e.publicationRevision, e.publicationRevision, none, [], []⟩
  else
    match BoundedInt.ofInt? (e.publicationRevision.val + (newIdentities blake3 e.state commands).size)
    with
    | none => .error .revisionOverflow
    | some nextRevision =>
      let p := commands.foldl (prepareCommand blake3 e.state) ⟨e.state, [], []⟩
      .ok ⟨e.publicationRevision, nextRevision, some p.candidate, p.responses, p.durableItems⟩

end Hashing

/-- Verifies that a prepared batch still targets the published revision. -/
def canPublish (e : Engine) (prepared : PreparedBatch) : Except PreparationError Unit :=
  if prepared.durableItems ≠ [] ∧ prepared.baseRevision ≠ e.publicationRevision then
    .error (.staleRevision prepared.baseRevision e.publicationRevision)
  else .ok ()

/-- Publishes a preflighted batch. -/
def publishBatch (e : Engine) (prepared : PreparedBatch) : List CommandResponse × Engine :=
  match prepared.candidate with
  | some candidate =>
    if prepared.durableItems ≠ [] then (prepared.responses, ⟨candidate, prepared.nextRevision⟩)
    else (prepared.responses, e)
  | none => (prepared.responses, e)

end Engine

end PromiseDb
