import PromiseDb.Engine.Indistinguishable
import PromiseDb.Engine.NoOverselling
import PromiseDb.Engine.Publishing

/-!
# Calls without an identity

Besides commands an engine that is used in memory has methods of its own.  They read the clock once,
generate the identity of what they create, and leave no cached response behind.  A run that mixes
them with commands is simulated by a run of commands alone: each method is the command of the same
operation under an identity that no client uses, and apart from the cached responses of these
identities nothing tells the two runs apart.
-/

namespace PromiseDb

/-! ## The methods -/

namespace EngineState

section Clock

variable (clock : Except DomainError Timestamp)

/-- Creates a resource pool under a generated identity. -/
def createResourcePool (generated : ResourcePoolId) (displayName : String) (unit : ResourceUnit)
    (capacityCurve : CapacityCurve) : EngineM ResourcePoolId := do
  let now ← ofExcept clock
  createResourcePoolAt generated displayName unit capacityCurve now

/-- Replaces the capacity curve of a pool. -/
def reviseCapacity (poolId : ResourcePoolId) (capacityCurve : CapacityCurve)
    (mode : CapacityRevisionMode) : EngineM CapacityRevisionOutcome := do
  let now ← ofExcept clock
  reviseCapacityAt poolId capacityCurve mode now

/-- Searches and holds the first feasible slot under a generated identity. -/
def holdFirstSlot (generated : PromiseId) (relativeBundle : RelativeBundle)
    (earliestStart latestStart : Timestamp) (step : I64) (expiresAt : Timestamp) :
    EngineM SlotOutcome := do
  let now ← ofExcept clock
  holdSlotAt generated relativeBundle ⟨earliestStart, latestStart, step⟩ expiresAt now

/-- Holds a bundle under a generated identity. -/
def holdAt (generated : PromiseId) (bundle : Bundle) (expiresAt now : Timestamp) :
    EngineM HoldOutcome :=
  holdWithIdAt generated bundle expiresAt now

/-- Holds a bundle at the time of the clock. -/
def hold (generated : PromiseId) (bundle : Bundle) (expiresAt : Timestamp) :
    EngineM HoldOutcome := do
  let now ← ofExcept clock
  holdAt generated bundle expiresAt now

/-- Holds the first feasible alternative under a generated identity. -/
def holdOneOf (generated : PromiseId) (choice : Choice) (expiresAt : Timestamp) :
    EngineM ChoiceOutcome := do
  let now ← ofExcept clock
  holdChoiceAt generated choice expiresAt now

/-- Commits a held promise. -/
def commit (promiseId : PromiseId) (expectedVersion : Version) : EngineM Version := do
  let now ← ofExcept clock
  commitAt promiseId expectedVersion now

/-- Releases a held or committed promise. -/
def release (promiseId : PromiseId) (expectedVersion : Version) : EngineM Version := do
  let now ← ofExcept clock
  releaseAt promiseId expectedVersion now

/-- Replaces a live promise. -/
def replace (promiseId : PromiseId) (expectedVersion : Version) (newBundle : Bundle)
    (newState : ReplacementState) : EngineM ReplaceOutcome := do
  let now ← ofExcept clock
  replaceAt promiseId expectedVersion newBundle newState now

end Clock

end EngineState

/-! ## Calls -/

/-- A call of one of the methods, with the identity that is generated in it. -/
inductive DirectCall
  | createResourcePool (generated : ResourcePoolId) (displayName : String) (unit : ResourceUnit)
      (capacityCurve : CapacityCurve)
  | reviseCapacity (poolId : ResourcePoolId) (capacityCurve : CapacityCurve)
      (mode : CapacityRevisionMode)
  | hold (generated : PromiseId) (bundle : Bundle) (expiresAt : Timestamp)
  | holdOneOf (generated : PromiseId) (choice : Choice) (expiresAt : Timestamp)
  | holdFirstSlot (generated : PromiseId) (relativeBundle : RelativeBundle)
      (earliestStart latestStart : Timestamp) (step : I64) (expiresAt : Timestamp)
  | commit (promiseId : PromiseId) (expectedVersion : Version)
  | release (promiseId : PromiseId) (expectedVersion : Version)
  | replace (promiseId : PromiseId) (expectedVersion : Version) (newBundle : Bundle)
      (newState : ReplacementState)

namespace DirectCall

/-- What a method returns. -/
abbrev Answer : DirectCall → Type
  | createResourcePool .. => ResourcePoolId
  | reviseCapacity .. => CapacityRevisionOutcome
  | hold .. => HoldOutcome
  | holdOneOf .. => ChoiceOutcome
  | holdFirstSlot .. => SlotOutcome
  | commit .. => Version
  | release .. => Version
  | replace .. => ReplaceOutcome

/-- Runs the method that is called. -/
def run (clock : Except DomainError Timestamp) : (call : DirectCall) → EngineM call.Answer
  | createResourcePool generated displayName unit capacityCurve =>
    EngineState.createResourcePool clock generated displayName unit capacityCurve
  | reviseCapacity poolId capacityCurve mode =>
    EngineState.reviseCapacity clock poolId capacityCurve mode
  | hold generated bundle expiresAt => EngineState.hold clock generated bundle expiresAt
  | holdOneOf generated choice expiresAt => EngineState.holdOneOf clock generated choice expiresAt
  | holdFirstSlot generated relativeBundle earliestStart latestStart step expiresAt =>
    EngineState.holdFirstSlot clock generated relativeBundle earliestStart latestStart step expiresAt
  | commit promiseId expectedVersion => EngineState.commit clock promiseId expectedVersion
  | release promiseId expectedVersion => EngineState.release clock promiseId expectedVersion
  | replace promiseId expectedVersion newBundle newState =>
    EngineState.replace clock promiseId expectedVersion newBundle newState

/-- The operation of a command that does the same. -/
def operation : DirectCall → CommandOperation
  | createResourcePool generated displayName unit capacityCurve =>
    .createResourcePool generated displayName unit capacityCurve
  | reviseCapacity poolId capacityCurve mode => .reviseCapacity poolId capacityCurve mode
  | hold generated bundle expiresAt => .hold generated bundle expiresAt
  | holdOneOf generated choice expiresAt => .holdOneOf generated choice expiresAt
  | holdFirstSlot generated relativeBundle earliestStart latestStart step expiresAt =>
    .holdFirstSlot generated relativeBundle earliestStart latestStart step expiresAt
  | commit promiseId expectedVersion => .commit promiseId expectedVersion
  | release promiseId expectedVersion => .release promiseId expectedVersion
  | replace promiseId expectedVersion newBundle newState =>
    .replace promiseId expectedVersion newBundle newState

/-- What a method returns, as a command with the same operation reports it. -/
def result : (call : DirectCall) → call.Answer → CommandResult
  | createResourcePool .., poolId => .resourcePoolCreated poolId
  | reviseCapacity .., outcome => .capacityRevised outcome
  | hold .., outcome => .holdCompleted outcome
  | holdOneOf .., outcome => .choiceCompleted outcome
  | holdFirstSlot .., outcome => .slotCompleted outcome
  | commit promiseId _, version => .promiseCommitted promiseId version
  | release promiseId _, version => .promiseReleased promiseId version
  | replace .., outcome => .promiseReplaced outcome

end DirectCall

namespace DirectCall

/-- A method does what its operation does at the time of the clock. -/
theorem run_ok (call : DirectCall) (now : Timestamp) :
    (do return call.result (← call.run (.ok now))) =
      EngineState.applyOnce call.operation now := by
  cases call with
  | createResourcePool generated displayName unit capacityCurve =>
    funext s
    show (do
        return CommandResult.resourcePoolCreated (← EngineState.createResourcePoolAt generated
          displayName unit capacityCurve now) : EngineM CommandResult) s =
      (do
        let _ ← EngineState.createResourcePoolAt generated displayName unit capacityCurve now
        return .resourcePoolCreated generated : EngineM CommandResult) s
    simp only [Bind.bind, EStateM.bind]
    generalize hr : EngineState.createResourcePoolAt generated displayName unit capacityCurve now s =
      r
    obtain ⟨s₁, -, ⟨e, rfl⟩ | ⟨s', rfl, -⟩⟩ := EngineState.createResourcePoolAt_cases hr
    · rfl
    · rfl
  | reviseCapacity poolId capacityCurve mode => rfl
  | hold generated bundle expiresAt => rfl
  | holdOneOf generated choice expiresAt => rfl
  | holdFirstSlot generated relativeBundle earliestStart latestStart step expiresAt => rfl
  | commit promiseId expectedVersion => rfl
  | release promiseId expectedVersion => rfl
  | replace promiseId expectedVersion newBundle newState => rfl

end DirectCall

/-- A command with its time, or a method with what the clock reads in it. -/
inductive Call
  | command (command : Command) (now : Timestamp)
  | direct (clock : Except DomainError Timestamp) (call : DirectCall)

/-- The operation of a call. -/
def Call.operation : Call → CommandOperation
  | .command c _ => c.operation
  | .direct _ c => c.operation

/-- Whether there is a time for a call. -/
def Call.timed : Call → Bool
  | .command _ _ => true
  | .direct clock _ => clock.toOption.isSome

/-! ## Cached responses are not read -/

namespace EngineState

/-- States that differ in the cached responses at most. -/
def Apart (s t : EngineState) : Prop :=
  ∃ records, t = { s with idempotencyRecords := records }

/-- The search for a slot does not read the cached responses. -/
theorem searchSlots_apart (s : EngineState) (records : OrderedMap Identity IdempotencyRecord)
    (relativeBundle : RelativeBundle) (range : SlotRange) :
    { s with idempotencyRecords := records }.searchSlots relativeBundle range =
      s.searchSlots relativeBundle range := by
  have hfrom (fuel : Nat) (start : Timestamp) (attempts : Nat) :
      { s with idempotencyRecords := records }.searchSlotsFrom relativeBundle range fuel start
        attempts = s.searchSlotsFrom relativeBundle range fuel start attempts := by
    induction fuel generalizing start attempts with
    | zero => rfl
    | succ fuel ih =>
      unfold searchSlotsFrom
      simp only [ih]
      rfl
  unfold searchSlots
  rw [hfrom]

/-- A mutation that neither reads nor changes the cached responses. -/
abbrev Uncached {α : Type} (x : EngineM α) : Prop := EStateM.Agree Apart Eq x x

/-- Expiring a hold does not depend on the cached responses. -/
theorem uncached_expireHold (now : Timestamp) (id : PromiseId) :
    EStateM.Agree Apart (fun _ _ => True) (expireHold now id) (expireHold now id) := by
  apply EStateM.Agree.get_bind
  rintro s _ ⟨records, rfl⟩
  refine (EStateM.Agree.ofExcept .rfl).bind fun sequence _ hsequence => hsequence ▸ ?_
  refine (EStateM.Agree.ofExcept .rfl).bind fun promise _ hpromise => hpromise ▸ ?_
  refine (EStateM.Agree.ofExcept .rfl).bind fun expired _ hexpired => hexpired ▸ ?_
  refine (EStateM.Agree.ofExcept .rfl).bind fun timelines _ htimelines => htimelines ▸ ?_
  exact .set ⟨records, rfl⟩

/-- Expiring several holds does not depend on the cached responses. -/
theorem uncached_expireHolds (now : Timestamp) (count : Nat) (due : List (Timestamp ×ₗ PromiseId)) :
    Uncached (expireHolds now count due) := by
  induction due generalizing count with
  | nil => exact .pure rfl
  | cons first rest ih => exact (uncached_expireHold now _).bind fun _ _ _ => ih (count + 1)

/-- Processing expirations does not depend on the cached responses. -/
theorem uncached_processExpirations (now : Timestamp) : Uncached (processExpirations now) := by
  apply EStateM.Agree.get_bind
  rintro s _ ⟨records, rfl⟩
  exact uncached_expireHolds now 0 (s.dueHolds now)

/-- What follows the expirations of an operation. -/
theorem uncached_afterExpirations {α : Type} (now : Timestamp) {f : EngineState → EngineM α}
    (h : ∀ s records, EStateM.Agree Apart Eq (f s) (f { s with idempotencyRecords := records })) :
    Uncached (do let _ ← processExpirations now; let s ← get; f s) := by
  refine (uncached_processExpirations now).bind fun _ _ _ => ?_
  apply EStateM.Agree.get_bind
  rintro s _ ⟨records, rfl⟩
  exact h s records

/-- Creating a pool does not depend on the cached responses. -/
theorem uncached_createResourcePoolAt (poolId : ResourcePoolId) (displayName : String)
    (unit : ResourceUnit) (capacityCurve : CapacityCurve) (now : Timestamp) :
    Uncached (createResourcePoolAt poolId displayName unit capacityCurve now) := by
  apply uncached_afterExpirations
  intro s records
  apply EStateM.Agree.ite (.throw _)
  refine (EStateM.Agree.ofExcept .rfl).bind fun tl _ htl => htl ▸ ?_
  refine (EStateM.Agree.ofExcept .rfl).bind fun sequence _ hsequence => hsequence ▸ ?_
  refine (EStateM.Agree.set ⟨records, rfl⟩).bind fun _ _ _ => ?_
  exact .pure rfl

/-- Revising capacity does not depend on the cached responses. -/
theorem uncached_reviseCapacityAt (poolId : ResourcePoolId) (capacityCurve : CapacityCurve)
    (mode : CapacityRevisionMode) (now : Timestamp) :
    Uncached (reviseCapacityAt poolId capacityCurve mode now) := by
  apply uncached_afterExpirations
  intro s records
  refine (EStateM.Agree.ofExcept .rfl).bind fun pool _ hpool => hpool ▸ ?_
  refine (EStateM.Agree.ofExcept .rfl).bind fun tl _ htl => htl ▸ ?_
  refine (EStateM.Agree.ofExcept .rfl).bind fun previous _ hprevious => hprevious ▸ ?_
  refine (EStateM.Agree.ofExcept .rfl).bind fun new _ hnew => hnew ▸ ?_
  refine (EStateM.Agree.ofExcept .rfl).bind fun deficits _ hdeficits => hdeficits ▸ ?_
  apply EStateM.Agree.ite (.throw _)
  refine (EStateM.Agree.ofExcept .rfl).bind fun sequence _ hsequence => hsequence ▸ ?_
  refine (EStateM.Agree.set ⟨records, rfl⟩).bind fun _ _ _ => ?_
  exact .pure rfl

/-- Accepting a hold does not depend on the cached responses. -/
theorem uncached_acceptHold (promiseId : PromiseId) (bundle : Bundle) (expiresAt now : Timestamp)
    (timelines : OrderedMap ResourcePoolId SlackTimeline) :
    EStateM.Agree Apart (fun _ _ => True) (acceptHold promiseId bundle expiresAt now timelines)
      (acceptHold promiseId bundle expiresAt now timelines) := by
  apply EStateM.Agree.get_bind
  rintro s _ ⟨records, rfl⟩
  refine (EStateM.Agree.ofExcept .rfl).bind fun sequence _ hsequence => hsequence ▸ ?_
  refine (EStateM.Agree.ofExcept .rfl).bind fun promise _ hpromise => hpromise ▸ ?_
  exact .set ⟨records, rfl⟩

/-- Holding a bundle does not depend on the cached responses. -/
theorem uncached_holdWithIdAt (promiseId : PromiseId) (bundle : Bundle)
    (expiresAt now : Timestamp) : Uncached (holdWithIdAt promiseId bundle expiresAt now) := by
  apply uncached_afterExpirations
  intro s records
  apply EStateM.Agree.ite (.throw _)
  apply EStateM.Agree.ite (.throw _)
  refine (EStateM.Agree.ofExcept .rfl).bind fun admission _ hadmission => hadmission ▸ ?_
  cases admission with
  | unavailable conflicts => exact .pure rfl
  | available timelines => exact (uncached_acceptHold _ _ _ _ _).bind fun _ _ _ => .pure rfl

/-- Trying alternatives does not depend on the cached responses. -/
theorem uncached_holdAlternatives (promiseId : PromiseId) (expiresAt now : Timestamp) (index : Nat)
    (conflicts : List ChoiceConflict) (alternatives : List Bundle) :
    Uncached (holdAlternatives promiseId expiresAt now index conflicts alternatives) := by
  induction alternatives generalizing index conflicts with
  | nil => exact .pure rfl
  | cons bundle rest ih =>
    apply EStateM.Agree.get_bind
    rintro s _ ⟨records, rfl⟩
    refine (EStateM.Agree.ofExcept .rfl).bind fun admission _ hadmission => hadmission ▸ ?_
    cases admission with
    | unavailable conflicts => exact ih _ _
    | available timelines => exact (uncached_acceptHold _ _ _ _ _).bind fun _ _ _ => .pure rfl

/-- Holding one of several bundles does not depend on the cached responses. -/
theorem uncached_holdChoiceAt (promiseId : PromiseId) (choice : Choice)
    (expiresAt now : Timestamp) : Uncached (holdChoiceAt promiseId choice expiresAt now) := by
  apply uncached_afterExpirations
  intro s records
  apply EStateM.Agree.ite (.throw _)
  apply EStateM.Agree.ite (.throw _)
  exact uncached_holdAlternatives _ _ _ _ _ _

/-- Holding the first slot does not depend on the cached responses. -/
theorem uncached_holdSlotAt (promiseId : PromiseId) (relativeBundle : RelativeBundle)
    (range : SlotRange) (expiresAt now : Timestamp) :
    Uncached (holdSlotAt promiseId relativeBundle range expiresAt now) := by
  apply uncached_afterExpirations
  intro s records
  apply EStateM.Agree.ite (.throw _)
  apply EStateM.Agree.ite (.throw _)
  have hsearches := Except.Agree.of_eq (searchSlots_apart s records relativeBundle range).symm
  refine (EStateM.Agree.ofExcept hsearches).bind fun search _ hsearch => hsearch ▸ ?_
  cases search with
  | unavailable attempts => exact .pure rfl
  | found slot timelines => exact (uncached_acceptHold _ _ _ _ _).bind fun _ _ _ => .pure rfl

/-- Committing does not depend on the cached responses. -/
theorem uncached_commitAt (promiseId : PromiseId) (expectedVersion : Version) (now : Timestamp) :
    Uncached (commitAt promiseId expectedVersion now) := by
  apply uncached_afterExpirations
  intro s records
  refine (EStateM.Agree.ofExcept .rfl).bind fun sequence _ hsequence => hsequence ▸ ?_
  refine (EStateM.Agree.ofExcept .rfl).bind fun promise _ hpromise => hpromise ▸ ?_
  apply EStateM.Agree.ite (.throw _)
  refine (EStateM.Agree.ofExcept .rfl).bind fun committed _ hcommitted => hcommitted ▸ ?_
  refine (EStateM.Agree.set ⟨records, rfl⟩).bind fun _ _ _ => ?_
  exact .pure rfl

/-- Releasing does not depend on the cached responses. -/
theorem uncached_releaseAt (promiseId : PromiseId) (expectedVersion : Version) (now : Timestamp) :
    Uncached (releaseAt promiseId expectedVersion now) := by
  apply uncached_afterExpirations
  intro s records
  refine (EStateM.Agree.ofExcept .rfl).bind fun sequence _ hsequence => hsequence ▸ ?_
  refine (EStateM.Agree.ofExcept .rfl).bind fun promise _ hpromise => hpromise ▸ ?_
  apply EStateM.Agree.ite (.throw _)
  refine (EStateM.Agree.ofExcept .rfl).bind fun released _ hreleased => hreleased ▸ ?_
  refine (EStateM.Agree.ofExcept .rfl).bind fun timelines _ htimelines => htimelines ▸ ?_
  refine (EStateM.Agree.set ⟨records, rfl⟩).bind fun _ _ _ => ?_
  exact .pure rfl

/-- Replacing does not depend on the cached responses. -/
theorem uncached_replaceAt (promiseId : PromiseId) (expectedVersion : Version) (newBundle : Bundle)
    (newState : ReplacementState) (now : Timestamp) :
    Uncached (replaceAt promiseId expectedVersion newBundle newState now) := by
  apply uncached_afterExpirations
  intro s records
  refine (EStateM.Agree.ofExcept .rfl).bind fun promise _ hpromise => hpromise ▸ ?_
  apply EStateM.Agree.ite (.throw _)
  refine (EStateM.Agree.ofExcept .rfl).bind fun sequence _ hsequence => hsequence ▸ ?_
  refine (EStateM.Agree.ofExcept .rfl).bind fun replaced _ hreplaced => hreplaced ▸ ?_
  refine (EStateM.Agree.ofExcept .rfl).bind fun timelines _ htimelines => htimelines ▸ ?_
  refine (EStateM.Agree.ofExcept .rfl).bind fun admission _ hadmission => hadmission ▸ ?_
  cases admission with
  | unavailable conflicts => exact .pure rfl
  | available adjusted =>
    refine (EStateM.Agree.set ⟨records, rfl⟩).bind fun _ _ _ => ?_
    exact .pure rfl

/-- No operation reads the cached responses. -/
theorem uncached_applyOnce (operation : CommandOperation) (now : Timestamp) :
    Uncached (applyOnce operation now) := by
  cases operation with
  | createResourcePool resourcePoolId displayName unit capacityCurve =>
    exact (uncached_createResourcePoolAt _ _ _ _ _).bind fun _ _ _ => .pure rfl
  | reviseCapacity resourcePoolId capacityCurve mode =>
    exact (uncached_reviseCapacityAt _ _ _ _).bind fun _ _ h => .pure (h ▸ rfl)
  | hold promiseId bundle expiresAt =>
    exact (uncached_holdWithIdAt _ _ _ _).bind fun _ _ h => .pure (h ▸ rfl)
  | holdOneOf promiseId choice expiresAt =>
    exact (uncached_holdChoiceAt _ _ _ _).bind fun _ _ h => .pure (h ▸ rfl)
  | holdFirstSlot promiseId relativeBundle earliestStart latestStart step expiresAt =>
    exact (uncached_holdSlotAt _ _ _ _ _).bind fun _ _ h => .pure (h ▸ rfl)
  | commit promiseId expectedVersion =>
    exact (uncached_commitAt _ _ _).bind fun _ _ h => .pure (h ▸ rfl)
  | release promiseId expectedVersion =>
    exact (uncached_releaseAt _ _ _).bind fun _ _ h => .pure (h ▸ rfl)
  | replace promiseId expectedVersion newBundle newState =>
    exact (uncached_replaceAt _ _ _ _ _).bind fun _ _ h => .pure (h ▸ rfl)
  | processExpirations =>
    exact (uncached_processExpirations _).bind fun _ _ h => .pure (h ▸ rfl)

end EngineState

/-! ## Runs of calls -/

namespace Engine

open EngineState

variable (blake3 : List UInt8 → CommandHash)

/-- The response of a mutation, and the engine after it. -/
def respond (e : Engine) (x : EngineM CommandResult) : CommandResponse × Engine :=
  match x e.state with
  | .ok result state => (.ok result, { e with state := state })
  | .error error state => (.error error, { e with state := state })

/-- Makes one call.  What a method returns is put as the response of a command. -/
def makeCall (e : Engine) : Call → CommandResponse × Engine
  | .command command now => apply blake3 e command now
  | .direct clock call => e.respond (do return call.result (← call.run clock))

/-- Makes calls one after another. -/
def makeCalls (e : Engine) : List Call → List CommandResponse × Engine
  | [] => ([], e)
  | call :: rest =>
    let (response, e') := makeCall blake3 e call
    let (responses, e'') := makeCalls e' rest
    (response :: responses, e'')

variable {blake3}

/-- A method whose clock fails does nothing. -/
theorem makeCall_clockFailed (e : Engine) (error : DomainError) (call : DirectCall) :
    makeCall blake3 e (.direct (.error error) call) = (.error error, e) := by
  cases call <;> rfl

/-- At the time of its clock a method does what its operation does. -/
theorem makeCall_ok (e : Engine) (now : Timestamp) (call : DirectCall) :
    makeCall blake3 e (.direct (.ok now) call) =
      e.respond (EngineState.applyOnce call.operation now) :=
  congrArg e.respond (call.run_ok now)

/-- A method answers as the command of its operation when it is executed. -/
theorem respond_fst (e : Engine) {command : Command} (now : Timestamp) :
    (e.respond (EngineState.applyOnce command.operation now)).1 =
      (executeOnce blake3 e.state command now).1 := by
  rw [executeOnce_fst, respond]
  cases EngineState.applyOnce command.operation now e.state <;> rfl

/-- A method leaves the state in which its operation ends. -/
theorem respond_snd (e : Engine) (x : EngineM CommandResult) :
    (e.respond x).2 = { e with state := (x e.state).finalState } := by
  rw [respond]
  cases x e.state <;> rfl

/-! ## Simulation by commands -/

/-- The key of the command that simulates the call at a position. -/
def simulationKey (position : Nat) : IdempotencyKey := ⟨String.ofList (List.replicate position '0')⟩

/-- Different positions have different keys. -/
theorem simulationKey_injective : Function.Injective simulationKey := by
  intro k l h
  have hlists := String.ofList_injective (congrArg IdempotencyKey.value h)
  simpa using congrArg List.length hlists

/-- The command that simulates the call at a position.  A method whose clock has failed needs none. -/
def simulateCall (owner : ClientId) (position : Nat) : Call → Option (Command × Timestamp)
  | .command command now => some (command, now)
  | .direct clock call =>
    clock.toOption.map fun now => (⟨owner, simulationKey position, call.operation⟩, now)

/-- The commands that simulate calls. -/
def simulate (owner : ClientId) : Nat → List Call → List (Command × Timestamp)
  | _, [] => []
  | position, call :: rest =>
    (simulateCall owner position call).toList ++ simulate owner (position + 1) rest

/-- Executing a command does not depend on the cached responses. -/
theorem executeOnce_apart {s t : EngineState} (h : s.Apart t) (command : Command)
    (now : Timestamp) :
    (executeOnce blake3 t command now).1 = (executeOnce blake3 s command now).1 ∧
      (EngineState.applyOnce command.operation now t).finalState =
        { (EngineState.applyOnce command.operation now s).finalState with
          idempotencyRecords := t.idempotencyRecords } := by
  have hrun := EngineState.uncached_applyOnce command.operation now s t h
  have hkept := EngineState.applyOnce_records command.operation now t
  rw [executeOnce_fst, executeOnce_fst]
  generalize EngineState.applyOnce command.operation now s = x at hrun
  generalize EngineState.applyOnce command.operation now t = y at hrun hkept
  cases hrun with
  | ok hresult hst =>
    obtain ⟨records, rfl⟩ := hst
    obtain rfl := hresult
    obtain rfl : records = t.idempotencyRecords := hkept
    exact ⟨rfl, rfl⟩
  | error e hst =>
    obtain ⟨records, rfl⟩ := hst
    obtain rfl : records = t.idempotencyRecords := hkept
    exact ⟨rfl, rfl⟩

/-- An engine that has executed commands only simulates one on which methods were called as well. -/
structure Simulates (owner : ClientId) (position : Nat) (e f : Engine) : Prop where
  /-- The states differ in the cached responses at most. -/
  state : e.state.Apart f.state
  /-- For all other clients these are the same, too. -/
  others : ∀ identity : Identity, (ofLex identity).1 ≠ owner →
    f.state.idempotencyRecords[identity]? = e.state.idempotencyRecords[identity]?
  /-- Nobody else uses the name of the owner. -/
  unowned : ∀ key, e.state.idempotencyRecords[(toLex (owner, key) : Identity)]? = none
  /-- The keys of the later calls are still free. -/
  free : ∀ later, position ≤ later →
    f.state.idempotencyRecords[(toLex (owner, simulationKey later) : Identity)]? = none
  /-- The revisions are those of the commands and of all calls at most. -/
  le : e.publicationRevision.val ≤ f.publicationRevision.val
  bound : f.publicationRevision.val ≤ position

namespace Simulates

variable {owner : ClientId} {position : Nat} {e f : Engine}

/-- At the beginning there are no cached responses. -/
theorem empty : Simulates owner 0 .empty .empty :=
  ⟨⟨_, rfl⟩, fun _ _ => rfl, fun _ => OrderedMap.lookup_empty _,
    fun _ _ => OrderedMap.lookup_empty _, le_rfl, le_rfl⟩

/-- A call that changes nothing. -/
theorem skip (h : Simulates owner position e f) : Simulates owner (position + 1) e f :=
  ⟨h.state, h.others, h.unowned, fun later hle => h.free later (Nat.le_of_succ_le hle), h.le,
    h.bound.trans (by omega)⟩

/-- A command that both execute. -/
theorem execute (h : Simulates owner position e f) {command : Command} {now : Timestamp}
    (hclient : command.clientId ≠ owner) {next next' : PublicationRevision}
    (hnext : e.nextRevision = some next) (hnext' : f.nextRevision = some next') :
    Simulates owner (position + 1) ⟨(executeOnce blake3 e.state command now).2, next⟩
      ⟨(executeOnce blake3 f.state command now).2, next'⟩ := by
  obtain ⟨hresponse, hstate⟩ := @executeOnce_apart blake3 _ _ h.state command now
  have hother (key : IdempotencyKey) : command.identity ≠ toLex (owner, key) := by
    intro heq
    exact hclient (congrArg (fun identity : Identity => (ofLex identity).1) heq)
  refine ⟨?_, fun identity hidentity => ?_, fun key => ?_, fun later hle => ?_, ?_, ?_⟩
  · rw [executeOnce_snd, executeOnce_snd, hstate]
    exact ⟨_, rfl⟩
  · by_cases heq : command.identity = identity
    · rw [← heq, executeOnce_record, executeOnce_record, hresponse]
    · rw [executeOnce_record_of_ne _ _ heq, executeOnce_record_of_ne _ _ heq]
      exact h.others identity hidentity
  · rw [executeOnce_record_of_ne _ _ (hother key)]
    exact h.unowned key
  · rw [executeOnce_record_of_ne _ _ (hother _)]
    exact h.free later (Nat.le_of_succ_le hle)
  · have hle := h.le
    have hvalue := nextRevision_eq_some.mp hnext
    have hvalue' := nextRevision_eq_some.mp hnext'
    show next.val ≤ next'.val
    omega
  · have hbound := h.bound
    have hvalue' := nextRevision_eq_some.mp hnext'
    show next'.val ≤ _
    omega

/-- A method on the one side, and its command on the other. -/
theorem method (h : Simulates owner position e f) {command : Command} {now : Timestamp}
    (hidentity : command.identity = toLex (owner, simulationKey position))
    {next' : PublicationRevision} (hnext' : f.nextRevision = some next') :
    Simulates owner (position + 1)
      { e with state := (EngineState.applyOnce command.operation now e.state).finalState }
      ⟨(executeOnce blake3 f.state command now).2, next'⟩ := by
  obtain ⟨-, hstate⟩ := @executeOnce_apart blake3 _ _ h.state command now
  have hkept := EngineState.applyOnce_records command.operation now e.state
  refine ⟨?_, fun identity howner => ?_, fun key => ?_, fun later hle => ?_, ?_, ?_⟩
  · rw [executeOnce_snd, hstate]
    exact ⟨_, rfl⟩
  · have hne : command.identity ≠ identity := by
      rintro rfl
      exact howner (congrArg (fun identity : Identity => (ofLex identity).1) hidentity)
    rw [executeOnce_record_of_ne _ _ hne, hkept]
    exact h.others identity howner
  · rw [hkept]
    exact h.unowned key
  · have hne : command.identity ≠ toLex (owner, simulationKey later) := by
      intro heq
      have hkeys := congrArg (fun identity : Identity => (ofLex identity).2)
        (hidentity.symm.trans heq)
      have hposition := simulationKey_injective hkeys
      omega
    rw [executeOnce_record_of_ne _ _ hne]
    exact h.free later (Nat.le_of_succ_le hle)
  · have hle := h.le
    have hvalue' := nextRevision_eq_some.mp hnext'
    show e.publicationRevision.val ≤ next'.val
    omega
  · have hbound := h.bound
    have hvalue' := nextRevision_eq_some.mp hnext'
    show next'.val ≤ _
    omega

/-- One call and the command that simulates it. -/
theorem call (h : Simulates owner position e f) {call : Call}
    (howner : ∀ command now, call = .command command now → command.clientId ≠ owner)
    (hleft : (position : ℤ) < lastRevision) :
    (applyAll blake3 f (simulateCall owner position call).toList).1 =
        ([(call, (makeCall blake3 e call).1)].filter fun entry => entry.1.timed).map Prod.snd ∧
      Simulates owner (position + 1) (makeCall blake3 e call).2
        (applyAll blake3 f (simulateCall owner position call).toList).2 := by
  have hbound := h.bound
  have hle := h.le
  obtain ⟨next', hnext', -⟩ := exists_nextRevision (e := f) (by omega)
  obtain ⟨next, hnext, -⟩ := exists_nextRevision (e := e) (by omega)
  cases call with
  | command command now =>
    have hclient := howner command now rfl
    have hsame := h.others command.identity hclient
    have hresponse := (@executeOnce_apart blake3 _ _ h.state command now).1
    show [(apply blake3 f command now).1] = [(apply blake3 e command now).1] ∧
      Simulates owner (position + 1) (apply blake3 e command now).2
        (apply blake3 f command now).2
    unfold apply
    rw [hsame, hnext, hnext']
    cases e.state.idempotencyRecords[command.identity]? with
    | some record => exact ⟨rfl, h.skip⟩
    | none => exact ⟨congrArg (fun response => [response]) hresponse, h.execute hclient hnext hnext'⟩
  | direct clock call =>
    cases clock with
    | error error =>
      rw [makeCall_clockFailed]
      exact ⟨rfl, h.skip⟩
    | ok now =>
      let command : Command := ⟨owner, simulationKey position, call.operation⟩
      have hmade : makeCall blake3 e (.direct (.ok now) call) =
          e.respond (EngineState.applyOnce command.operation now) := makeCall_ok e now call
      have hresponse := (@executeOnce_apart blake3 _ _ h.state command now).1
      have hfree : f.state.idempotencyRecords[command.identity]? = none := h.free position le_rfl
      rw [hmade, respond_snd]
      show [(apply blake3 f command now).1] =
        [(e.respond (EngineState.applyOnce command.operation now)).1] ∧
          Simulates owner (position + 1) _ (apply blake3 f command now).2
      rw [@respond_fst blake3]
      unfold apply
      rw [hfree, hnext']
      exact ⟨congrArg (fun response => [response]) hresponse, h.method rfl hnext'⟩

end Simulates

/-- Calls and the commands that simulate them. -/
theorem Simulates.calls {owner : ClientId} {position : Nat} {e f : Engine}
    (h : Simulates owner position e f) {calls : List Call}
    (howner : ∀ command now, Call.command command now ∈ calls → command.clientId ≠ owner)
    (hleft : (position + calls.length : ℤ) ≤ lastRevision) :
    (applyAll blake3 f (simulate owner position calls)).1 =
        ((calls.zip (makeCalls blake3 e calls).1).filter fun entry => entry.1.timed).map Prod.snd ∧
      Simulates owner (position + calls.length) (makeCalls blake3 e calls).2
        (applyAll blake3 f (simulate owner position calls)).2 := by
  induction calls generalizing position e f with
  | nil => exact ⟨rfl, h⟩
  | cons call rest ih =>
    rw [List.length_cons, Nat.cast_succ] at hleft
    obtain ⟨hanswer, hnext⟩ := @Simulates.call blake3 owner position e f h call
      (fun command now heq => howner command now (heq ▸ List.mem_cons_self)) (by omega)
    obtain ⟨hanswers, hlast⟩ := ih hnext
      (fun command now hmem => howner command now (List.mem_cons_of_mem _ hmem))
      (by rw [Nat.cast_succ]; omega)
    rw [simulate, applyAll_append, makeCalls]
    dsimp only
    refine ⟨?_, ?_⟩
    · rw [hanswer, hanswers, List.zip_cons_cons, ← List.map_append, ← List.filter_append]
      rfl
    · rw [List.length_cons, Nat.add_right_comm] at *
      exact hlast

/-- A run that mixes commands with methods is simulated by commands alone, each method by the command
of the same operation under the name of a client that is not used.  Where there was a time, the
answers are the same, and in the end so is the state, but for the cached responses to these
commands. -/
theorem makeCalls_simulated {owner : ClientId} {calls : List Call}
    (howner : ∀ command now, Call.command command now ∈ calls → command.clientId ≠ owner)
    (hleft : (calls.length : ℤ) ≤ lastRevision) :
    (applyAll blake3 .empty (simulate owner 0 calls)).1 =
        ((calls.zip (makeCalls blake3 .empty calls).1).filter fun entry =>
          entry.1.timed).map Prod.snd ∧
      (makeCalls blake3 .empty calls).2.state.Apart
        (applyAll blake3 .empty (simulate owner 0 calls)).2.state ∧
      ∀ identity : Identity, (makeCalls blake3 .empty calls).2.state.idempotencyRecords[identity]? =
        if (ofLex identity).1 = owner then none else
          (applyAll blake3 .empty (simulate owner 0 calls)).2.state.idempotencyRecords[identity]? := by
  obtain ⟨hanswers, hlast⟩ := @Simulates.calls blake3 owner 0 .empty .empty .empty calls howner
    (by simpa using hleft)
  refine ⟨hanswers, hlast.state, fun identity => ?_⟩
  split
  · rename_i heq
    have hunowned := hlast.unowned (ofLex identity).2
    rw [← heq] at hunowned
    exact hunowned
  · rename_i hne
    exact (hlast.others identity hne).symm

/-- Calls with a pool that one of the methods creates, a method whose clock fails, a command, and a
method that commits what the command has held. -/
def sampleCalls : List Call :=
  [.direct (.ok (sampleTime 0))
      (.createResourcePool samplePoolId "seats" sampleUnit (sampleCurve 10)),
    .direct (.error .systemTimeOutOfRange) (.release samplePromiseId Version.initial),
    .command sampleHold (sampleTime 1),
    .direct (.ok (sampleTime 2)) (.commit samplePromiseId Version.initial)]

/-- The only client of the sample calls is not the owner of the others. -/
theorem sampleCalls_client (command : Command) (now : Timestamp)
    (h : Call.command command now ∈ sampleCalls) : command.clientId ≠ ⟨"owner"⟩ := by
  simp only [sampleCalls, List.mem_cons, List.not_mem_nil, or_false, reduceCtorEq, false_or,
    Call.command.injEq] at h
  rw [h.1]
  decide

/-- The sample calls are simulated by three commands. -/
theorem makeCalls_simulated_sample :
    (applyAll sampleHash .empty (simulate ⟨"owner"⟩ 0 sampleCalls)).1.length = 3 ∧
      (applyAll sampleHash .empty (simulate ⟨"owner"⟩ 0 sampleCalls)).1 =
        ((sampleCalls.zip (makeCalls sampleHash .empty sampleCalls).1).filter fun entry =>
          entry.1.timed).map Prod.snd := by
  refine ⟨by decide +kernel, ?_⟩
  exact (@makeCalls_simulated sampleHash _ _ sampleCalls_client (by decide)).1

/-! ## Safety -/

section Invariant

variable {P : EngineState → Prop} {Q : Change → Prop} (hexpire : ∀ id, Q (.expire id))
  (hstep : ∀ now change s s', Q change → P s → Transition now change s s' → P s')
  (hrecords : ∀ s records, P s → P { s with idempotencyRecords := records })

include hexpire hstep hrecords

/-- A property of states that every transition of a call keeps holds after the call. -/
theorem makeCall_invariant {call : Call}
    (hchange : ∀ change result, Answers call.operation change result → Q change) {e : Engine}
    (h : P e.state) : P (makeCall blake3 e call).2.state := by
  cases call with
  | command command now =>
    show P (apply blake3 e command now).2.state
    obtain ⟨record, -, heq⟩ | ⟨-, -, heq⟩ | ⟨next, -, -, heq⟩ :=
      apply_cases e command now <;> rw [heq]
    · exact h
    · exact h
    · exact executeOnce_invariant hexpire hchange (hstep now) hrecords h
  | direct clock call =>
    cases clock with
    | error error =>
      rw [makeCall_clockFailed]
      exact h
    | ok now =>
      rw [makeCall_ok, respond_snd]
      exact applyOnce_invariant hexpire hchange (hstep now) h

/-- Such a property holds after all calls of a run. -/
theorem makeCalls_invariant {calls : List Call}
    (hchange : ∀ call ∈ calls, ∀ change result, Answers call.operation change result → Q change)
    {e : Engine} (h : P e.state) : P (makeCalls blake3 e calls).2.state := by
  induction calls generalizing e with
  | nil => exact h
  | cons call rest ih =>
    have hcall : P (makeCall blake3 e call).2.state :=
      makeCall_invariant hexpire hstep hrecords (hchange call List.mem_cons_self) h
    exact ih (fun call hcall => hchange call (List.mem_cons_of_mem _ hcall)) hcall

end Invariant

/-- A call that does not revise capacity by force. -/
def StrictCall (call : Call) : Prop :=
  ∀ poolId curve, call.operation ≠ .reviseCapacity poolId curve .force

/-- However commands and methods are mixed, as long as capacity is only revised strictly, the cached
timeline of every pool is at every time what the live promises leave of the capacity, and never
negative. -/
theorem makeCalls_never_oversold {calls : List Call} (hstrict : ∀ call ∈ calls, StrictCall call)
    {poolId : ResourcePoolId} {pool : ResourcePool}
    (hpool : (makeCalls blake3 .empty calls).2.state.resourcePools[poolId]? = some pool)
    (t : Timestamp) :
    ∃ tl, (makeCalls blake3 .empty calls).2.state.slackTimelines[poolId]? = some tl ∧
      tl.slackValue t = (pool.capacityAt t).val -
        (makeCalls blake3 .empty calls).2.state.usageAt poolId t ∧ 0 ≤ tl.slackValue t := by
  have hsafe : (makeCalls blake3 .empty calls).2.state.NotOversold := by
    refine makeCalls_invariant (Q := Change.WithoutDeficit) (fun _ => trivial)
      (fun _ _ _ _ hchange hs => hs.transition hchange)
      (fun _ records hs => ⟨hs.indexExact.records records, hs.nonNegative⟩)
      (fun call hcall change result hanswers => ?_) (@notOversold_of_strict blake3 _ .empty)
    let command : Command := ⟨⟨""⟩, ⟨""⟩, call.operation⟩
    have hcommand : StrictCommand command := hstrict call hcall
    exact hcommand.withoutDeficit hanswers
  obtain ⟨hexact, hnonneg⟩ := hsafe
  obtain ⟨tl, htl, -⟩ := hexact.slackAt hpool
  exact ⟨tl, htl, hexact.exact poolId pool tl hpool htl t, hnonneg poolId tl htl t⟩

/-- The sample calls create a pool, and do not oversell it. -/
theorem makeCalls_never_oversold_sample :
    ∃ pool, (makeCalls sampleHash .empty sampleCalls).2.state.resourcePools[samplePoolId]? =
        some pool ∧
      ∃ tl, (makeCalls sampleHash .empty sampleCalls).2.state.slackTimelines[samplePoolId]? =
          some tl ∧
        tl.slackValue (sampleTime 3) = (pool.capacityAt (sampleTime 3)).val -
          (makeCalls sampleHash .empty sampleCalls).2.state.usageAt samplePoolId (sampleTime 3) ∧
        0 ≤ tl.slackValue (sampleTime 3) := by
  have hsome : (makeCalls sampleHash .empty sampleCalls).2.state.resourcePools[
      samplePoolId]?.isSome = true := by decide +kernel
  obtain ⟨pool, hpool⟩ := Option.isSome_iff_exists.mp hsome
  have hstrict : ∀ call ∈ sampleCalls, StrictCall call := by
    intro call hcall poolId curve
    simp only [sampleCalls, List.mem_cons, List.not_mem_nil, or_false] at hcall
    rcases hcall with rfl | rfl | rfl | rfl <;> (intro h; cases h)
  exact ⟨pool, hpool, makeCalls_never_oversold hstrict hpool (sampleTime 3)⟩

end Engine

end PromiseDb
