import PromiseDb.Engine.Operations
import PromiseDb.Library.Failures

/-!
# Errors of operations

An operation fails with errors of its own.  The two errors that the layer above it adds, an identity
that is reused for another operation and a publication revision that overflows, are not among them;
so a cached response is never one of these two.
-/

namespace PromiseDb

/-- An error that an operation may fail with. -/
def DomainError.OfOperation (e : DomainError) : Prop :=
  e ≠ .idempotencyConflict ∧ e ≠ .publicationRevisionOverflow

instance (e : DomainError) : Decidable e.OfOperation := by
  unfold DomainError.OfOperation
  infer_instance

/-- A pure part of an operation fails with errors of operations only. -/
abbrev PureOk {α : Type} (x : Except DomainError α) : Prop := x.FailsIn DomainError.OfOperation

/-- A part of an operation fails with errors of operations only. -/
abbrev PartOk {α : Type} (x : EngineM α) : Prop := x.FailsIn DomainError.OfOperation

/-! ## Domain values -/

/-- The next sequence number fails with errors of operations only. -/
theorem sequenceNext_fails (s : SequenceNumber) : PureOk s.next := by
  intro e h
  rw [(SequenceNumber.next_eq_error.mp h).1]
  decide

/-- The next version fails with errors of operations only. -/
theorem versionNext_fails (v : Version) : PureOk v.next := by
  intro e h
  rw [(Version.next_eq_error.mp h).1]
  decide

/-- The validation of an interval fails with errors of operations only. -/
theorem intervalNew_fails (start stop : Timestamp) : PureOk (Interval.new start stop) := by
  unfold Interval.new
  split
  · exact .ok _
  · exact .error (by decide)

/-- The validation of a claim fails with errors of operations only. -/
theorem claimNew_fails (poolId : ResourcePoolId) (interval : Interval) (quantity : Quantity) :
    PureOk (Claim.new poolId interval quantity) := by
  unfold Claim.new
  split
  · exact .error (by decide)
  · split
    · exact .error (by decide)
    · exact .ok _

/-- Placing a relative bundle fails with errors of operations only. -/
theorem materialize_fails (b : RelativeBundle) (start : Timestamp) :
    PureOk (b.materialize start) := by
  refine .bind (.mapM ?_ _) ?_
  · intro c
    refine .bind (.elim (by decide)) fun intervalStart => ?_
    refine .bind (.elim (by decide)) fun intervalEnd => ?_
    exact .bind (intervalNew_fails _ _) fun interval => claimNew_fails _ _ _
  · intro claims
    unfold Bundle.new
    split
    · exact .error (by decide)
    · exact .ok _

/-! ## Promises -/

/-- The check of a live promise fails with errors of operations only. -/
theorem checkLive_fails (state : PromiseState) (now : Timestamp) : PureOk (state.checkLive now) := by
  cases state with
  | held expiresAt => exact .ite (.error (by decide)) (.ok ())
  | committed => exact .ok ()
  | released => exact .error (by decide)
  | expired => exact .error (by decide)

/-- The check of a deadline fails with errors of operations only. -/
theorem checkDeadline_fails (state : ReplacementState) (now : Timestamp) :
    PureOk (state.checkDeadline now) := by
  cases state with
  | held expiresAt => exact .ite (.error (by decide)) (.ok ())
  | committed => exact .ok ()

/-- A new promise fails with errors of operations only. -/
theorem withId_fails (id : PromiseId) (bundle : Bundle) (expiresAt now : Timestamp)
    (sequence : SequenceNumber) : PureOk (Promise.withId id bundle expiresAt now sequence) :=
  .ite (.error (by decide)) (.ok _)

/-- Committing a promise fails with errors of operations only. -/
theorem commit_fails (p : Promise) (expectedVersion : Version) (now : Timestamp)
    (sequence : SequenceNumber) : PureOk (p.commit expectedVersion now sequence) := by
  refine .ite (.error (by decide)) ?_
  split
  · refine .ite (.error (by decide)) ?_
    exact .bind (versionNext_fails _) fun nextVersion => .ok _
  · exact .error (by decide)

/-- Releasing a promise fails with errors of operations only. -/
theorem release_fails (p : Promise) (expectedVersion : Version) (now : Timestamp)
    (sequence : SequenceNumber) : PureOk (p.release expectedVersion now sequence) := by
  refine .ite (.error (by decide)) ?_
  refine .bind (checkLive_fails _ _) fun _ => ?_
  exact .bind (versionNext_fails _) fun nextVersion => .ok _

/-- Replacing a promise fails with errors of operations only. -/
theorem replace_fails (p : Promise) (expectedVersion : Version) (newBundle : Bundle)
    (newState : ReplacementState) (now : Timestamp) (sequence : SequenceNumber) :
    PureOk (p.replace expectedVersion newBundle newState now sequence) := by
  refine .ite (.error (by decide)) ?_
  refine .bind (checkLive_fails _ _) fun _ => ?_
  refine .bind (checkDeadline_fails _ _) fun _ => ?_
  exact .bind (versionNext_fails _) fun nextVersion => .ok _

/-- Expiring a promise fails with errors of operations only. -/
theorem expire_fails (p : Promise) (now : Timestamp) (sequence : SequenceNumber) :
    PureOk (p.expire now sequence) := by
  unfold Promise.expire
  split
  · refine .ite (.error (by decide)) ?_
    exact .bind (versionNext_fails _) fun nextVersion => .ok _
  · exact .error (by decide)

/-! ## Timelines -/

/-- Errors of the index are reported as errors of operations. -/
theorem indexResult_fails {α : Type} (x : Except IndexError α) : PureOk (indexResult x) := by
  cases x with
  | ok a => exact .ok a
  | error e => exact .error (by decide)

/-- An update of a timeline fails with errors of operations only. -/
theorem runUpdate_fails (tl : SlackTimeline) (update : SlackTimeline.Update Unit) :
    PureOk (runUpdate tl update) := by
  unfold runUpdate
  split
  · exact .ok _
  · exact .error (by decide)

/-- Adding up events fails with errors of operations only. -/
theorem normalizeEvents_fails (last : Option (Timestamp × I128)) (events : List (Timestamp × I128)) :
    PureOk (normalizeEvents last events) := by
  induction events generalizing last with
  | nil => cases last <;> exact .ok _
  | cons event rest ih =>
    cases last with
    | none => exact ih _
    | some last =>
      rw [normalizeEvents]
      refine .ite (.bind (.elim (by decide)) fun delta => ih _) ?_
      exact .bind (ih _) fun events => .ok _

/-- Recording a conflict fails with errors of operations only. -/
theorem recordConflict_fails (refused : Bool) (conflicts : List AvailabilityConflict)
    (conflict : AvailabilityConflict) : PureOk (recordConflict refused conflicts conflict) := by
  refine .ite ?_ (.ok _)
  unfold pushConflict
  split
  · exact .ok _
  · refine .ite ?_ (.ok _)
    exact .bind (intervalNew_fails _ _) fun merged => .ok _

/-- Reading the floor of a deficit fails with errors of operations only. -/
theorem minimumAllowedSlack_fails (deficitFloor : Option SlackTimeline) (timestamp : Timestamp) :
    PureOk (minimumAllowedSlack deficitFloor timestamp) := by
  cases deficitFloor with
  | none => exact .ok _
  | some timeline => exact .bind (indexResult_fails _) fun slack => .ok _

/-- Reading what is available fails with errors of operations only. -/
theorem availableFrom_fails (slack : Slack) : PureOk (availableFrom slack) :=
  .ite (.ok _) (.elim (by decide))

/-- Evaluating a window fails with errors of operations only. -/
theorem evaluateWindow_fails (s : EngineState) (poolId : ResourcePoolId)
    (baseTimeline : SlackTimeline) (deficitFloor : Option SlackTimeline) (w : WindowState)
    (window : (Timestamp × I128) × (Timestamp × I128)) :
    PureOk (evaluateWindow s poolId baseTimeline deficitFloor w window) := by
  refine .bind (.elim (by decide)) fun currentDemand => ?_
  refine .bind (.elim (by decide)) fun requiredQuantity => ?_
  refine .ite (.ok _) ?_
  refine .bind (intervalNew_fails _ _) fun interval => ?_
  refine .bind (indexResult_fails _) fun slack => ?_
  refine .bind (.elim (by decide)) fun finalSlack => ?_
  refine .bind (minimumAllowedSlack_fails _ _) fun minimumAllowed => ?_
  refine .bind (availableFrom_fails _) fun availableQuantity => ?_
  exact .bind (recordConflict_fails _ _ _) fun conflicts => .ok _

/-- Evaluating a pool on a timeline fails with errors of operations only. -/
theorem evaluatePoolOnTimeline_fails (s : EngineState) (poolId : ResourcePoolId)
    (candidateClaims : List Claim) (baseTimeline : SlackTimeline)
    (deficitFloor : Option SlackTimeline) :
    PureOk (s.evaluatePoolOnTimeline poolId candidateClaims baseTimeline deficitFloor) := by
  refine .bind (indexResult_fails _) fun points => ?_
  refine .bind (normalizeEvents_fails _ _) fun events => ?_
  refine .bind (.foldlM (fun w window => evaluateWindow_fails s poolId _ _ w window) _ _)
    fun windows => ?_
  refine .ite (.ok _) ?_
  refine .bind (.mapM ?_ _) fun adjustments => ?_
  · exact fun adjustment => .bind (.elim (by decide)) fun demand => .ok _
  · refine .bind (.foldlM ?_ _ _) fun timeline => .ok _
    exact fun tl adjustment => .bind (.elim (by decide)) fun delta => runUpdate_fails _ _

/-! ## Bundles -/

/-- Evaluating a pool fails with errors of operations only. -/
theorem evaluatePoolAdmission_fails (s : EngineState) (poolId : ResourcePoolId)
    (candidateClaims : List Claim) : PureOk (s.evaluatePoolAdmission poolId candidateClaims) :=
  .bind (.elim (by decide)) fun _ => evaluatePoolOnTimeline_fails s _ _ _ _

/-- Evaluating a bundle fails with errors of operations only. -/
theorem evaluateBundleWithOverrides_fails (s : EngineState) (bundle : Bundle)
    (overrides : OrderedMap ResourcePoolId SlackTimeline) :
    PureOk (s.evaluateBundleWithOverrides bundle overrides) := by
  refine .bind (.foldlM ?_ _ _) ?_
  · intro acc entry
    refine .bind ?_ fun admission => ?_
    · unfold EngineState.evaluatePoolWithOverrides
      split
      · exact .bind (.elim (by decide)) fun _ => evaluatePoolOnTimeline_fails s _ _ _ _
      · exact evaluatePoolAdmission_fails s _ _
    · cases admission with
      | available timeline => exact .ok _
      | unavailable conflicts => exact .ok _
  · exact fun result => .ite (.ok _) (.ok _)

/-- The search for slots from a start fails with errors of operations only. -/
theorem searchSlotsFrom_fails (s : EngineState) (b : RelativeBundle) (range : SlotRange) (fuel : Nat)
    (start : Timestamp) (attempts : Nat) :
    PureOk (s.searchSlotsFrom b range fuel start attempts) := by
  induction fuel generalizing start attempts with
  | zero => exact .ok _
  | succ fuel ih =>
    rw [EngineState.searchSlotsFrom]
    refine .bind (materialize_fails _ _) fun bundle => ?_
    refine .bind (evaluateBundleWithOverrides_fails s _ _) fun admission => ?_
    cases admission with
    | available timelines => exact .ok _
    | unavailable conflicts =>
      refine .ite (.ok _) ?_
      split
      · exact .ok _
      · exact .ite (.ok _) (ih _ _)

/-- The search for slots fails with errors of operations only. -/
theorem searchSlots_fails (s : EngineState) (b : RelativeBundle) (range : SlotRange) :
    PureOk (s.searchSlots b range) :=
  .ite (.error (by decide)) (.ite (.error (by decide)) (searchSlotsFrom_fails s b range _ _ _))

/-- Listing deficits fails with errors of operations only. -/
theorem capacityDeficits_fails (s : EngineState) (poolId : ResourcePoolId) (tl : SlackTimeline) :
    PureOk (s.capacityDeficits poolId tl) :=
  .bind (indexResult_fails _) fun _ => .ok _

/-- Giving a bundle back fails with errors of operations only. -/
theorem restoredTimelines_fails (s : EngineState) (bundle : Bundle) :
    PureOk (s.restoredTimelines bundle) := by
  refine .foldlM ?_ _ _
  intro acc entry
  refine .bind ?_ fun timeline => .ok _
  refine .bind (.elim (by decide)) fun timeline => ?_
  refine .foldlM ?_ _ _
  exact fun tl claim => .bind (.elim (by decide)) fun quantity => runUpdate_fails _ _

/-! ## Operations -/

/-- Expiring a hold fails with errors of operations only. -/
theorem expireHold_fails (now : Timestamp) (promiseId : PromiseId) :
    PartOk (EngineState.expireHold now promiseId) := by
  refine .bind .get fun s => ?_
  refine .bind (.ofExcept (sequenceNext_fails _)) fun nextSequence => ?_
  refine .bind (.ofExcept (.elim (by decide))) fun promise => ?_
  refine .bind (.ofExcept (expire_fails _ _ _)) fun expiredPromise => ?_
  exact .bind (.ofExcept (restoredTimelines_fails _ _)) fun adjustedTimelines => .set _

/-- Processing expirations fails with errors of operations only. -/
theorem processExpirations_fails (now : Timestamp) :
    PartOk (EngineState.processExpirations now) := by
  refine .bind .get fun s => ?_
  generalize s.dueHolds now = due
  generalize 0 = expiredCount
  induction due generalizing expiredCount with
  | nil => exact .pure _
  | cons d due ih => exact .bind (expireHold_fails now _) fun _ => ih _

/-- Accepting a hold fails with errors of operations only. -/
theorem acceptHold_fails (promiseId : PromiseId) (bundle : Bundle) (expiresAt now : Timestamp)
    (timelines : OrderedMap ResourcePoolId SlackTimeline) :
    PartOk (EngineState.acceptHold promiseId bundle expiresAt now timelines) := by
  refine .bind .get fun s => ?_
  refine .bind (.ofExcept (sequenceNext_fails _)) fun nextSequence => ?_
  exact .bind (.ofExcept (withId_fails _ _ _ _ _)) fun promise => .set _

/-- Trying alternatives fails with errors of operations only. -/
theorem holdAlternatives_fails (promiseId : PromiseId) (expiresAt now : Timestamp) (index : Nat)
    (conflicts : List ChoiceConflict) (bundles : List Bundle) :
    PartOk (EngineState.holdAlternatives promiseId expiresAt now index conflicts bundles) := by
  induction bundles generalizing index conflicts with
  | nil => exact .pure _
  | cons bundle rest ih =>
    refine .bind .get fun s => ?_
    refine .bind (.ofExcept (evaluateBundleWithOverrides_fails s _ _)) fun admission => ?_
    cases admission with
    | available timelines => exact .bind (acceptHold_fails _ _ _ _ _) fun _ => .pure _
    | unavailable conflicts => exact ih _ _

/-- Creating a pool fails with errors of operations only. -/
theorem createResourcePoolAt_fails (poolId : ResourcePoolId) (displayName : String)
    (unit : ResourceUnit) (capacityCurve : CapacityCurve) (now : Timestamp) :
    PartOk (EngineState.createResourcePoolAt poolId displayName unit capacityCurve now) := by
  refine .bind (processExpirations_fails now) fun _ => ?_
  refine .bind .get fun s => ?_
  refine .ite (.bind (.throw (by decide)) fun _ => ?_) ?_
  all_goals
    refine .bind (.ofExcept (indexResult_fails _)) fun slackTimeline => ?_
    refine .bind (.ofExcept (sequenceNext_fails _)) fun nextSequence => ?_
    exact .bind (.set _) fun _ => .pure _

/-- Revising capacity fails with errors of operations only. -/
theorem reviseCapacityAt_fails (poolId : ResourcePoolId) (capacityCurve : CapacityCurve)
    (mode : CapacityRevisionMode) (now : Timestamp) :
    PartOk (EngineState.reviseCapacityAt poolId capacityCurve mode now) := by
  refine .bind (processExpirations_fails now) fun _ => ?_
  refine .bind .get fun s => ?_
  refine .bind (.ofExcept (.elim (by decide))) fun pool => ?_
  refine .bind (.ofExcept (.elim (by decide))) fun currentTimeline => ?_
  refine .bind (.ofExcept (capacityDeficits_fails _ _ _)) fun previousDeficits => ?_
  refine .bind (.ofExcept (indexResult_fails _)) fun revisedTimeline => ?_
  refine .bind (.ofExcept (capacityDeficits_fails _ _ _)) fun deficits => ?_
  refine .ite (.bind (.throw (by decide)) fun _ => ?_) ?_
  all_goals
    refine .bind (.ofExcept (sequenceNext_fails _)) fun nextSequence => ?_
    exact .bind (.set _) fun _ => .pure _

/-- The checks before a hold, and what follows them. -/
theorem checkedHold_fails {α : Type} (promiseId : PromiseId) (expiresAt now : Timestamp)
    {rest : EngineState → EngineM α} (hrest : ∀ s, PartOk (rest s)) :
    PartOk (do
      let _ ← EngineState.processExpirations now
      let s ← get
      if s.promises.contains promiseId then throw .promiseAlreadyExists
      if expiresAt ≤ now then throw .invalidExpiration
      rest s) := by
  refine .bind (processExpirations_fails now) fun _ => ?_
  refine .bind .get fun s => ?_
  refine .ite (.bind (.throw (by decide)) fun _ => ?_) ?_
  all_goals
    exact .ite (.bind (.throw (by decide)) fun _ => hrest s) (hrest s)

/-- Holding a bundle fails with errors of operations only. -/
theorem holdWithIdAt_fails (promiseId : PromiseId) (bundle : Bundle) (expiresAt now : Timestamp) :
    PartOk (EngineState.holdWithIdAt promiseId bundle expiresAt now) := by
  refine checkedHold_fails promiseId expiresAt now fun s => ?_
  refine .bind (.ofExcept (evaluateBundleWithOverrides_fails s _ _)) fun admission => ?_
  cases admission with
  | available timelines => exact .bind (acceptHold_fails _ _ _ _ _) fun _ => .pure _
  | unavailable conflicts => exact .pure _

/-- Holding one of several bundles fails with errors of operations only. -/
theorem holdChoiceAt_fails (promiseId : PromiseId) (choice : Choice) (expiresAt now : Timestamp) :
    PartOk (EngineState.holdChoiceAt promiseId choice expiresAt now) :=
  checkedHold_fails promiseId expiresAt now fun _ => holdAlternatives_fails _ _ _ _ _ _

/-- Holding the first slot fails with errors of operations only. -/
theorem holdSlotAt_fails (promiseId : PromiseId) (b : RelativeBundle) (range : SlotRange)
    (expiresAt now : Timestamp) :
    PartOk (EngineState.holdSlotAt promiseId b range expiresAt now) := by
  refine checkedHold_fails promiseId expiresAt now fun s => ?_
  refine .bind (.ofExcept (searchSlots_fails s _ _)) fun search => ?_
  cases search with
  | found slot timelines => exact .bind (acceptHold_fails _ _ _ _ _) fun _ => .pure _
  | unavailable attempts => exact .pure _

/-- The commit operation fails with errors of operations only. -/
theorem commitAt_fails (promiseId : PromiseId) (expectedVersion : Version) (now : Timestamp) :
    PartOk (EngineState.commitAt promiseId expectedVersion now) := by
  refine .bind (processExpirations_fails now) fun _ => ?_
  refine .bind .get fun s => ?_
  refine .bind (.ofExcept (sequenceNext_fails _)) fun newSequence => ?_
  refine .bind (.ofExcept (.elim (by decide))) fun promise => ?_
  refine .ite (.bind (.throw (by decide)) fun _ => ?_) ?_
  all_goals
    refine .bind (.ofExcept (commit_fails _ _ _ _)) fun committed => ?_
    exact .bind (.set _) fun _ => .pure _

/-- The release operation fails with errors of operations only. -/
theorem releaseAt_fails (promiseId : PromiseId) (expectedVersion : Version) (now : Timestamp) :
    PartOk (EngineState.releaseAt promiseId expectedVersion now) := by
  refine .bind (processExpirations_fails now) fun _ => ?_
  refine .bind .get fun s => ?_
  refine .bind (.ofExcept (sequenceNext_fails _)) fun newSequence => ?_
  refine .bind (.ofExcept (.elim (by decide))) fun promise => ?_
  refine .ite (.bind (.throw (by decide)) fun _ => ?_) ?_
  all_goals
    refine .bind (.ofExcept (release_fails _ _ _ _)) fun released => ?_
    refine .bind (.ofExcept (restoredTimelines_fails _ _)) fun adjustedTimelines => ?_
    exact .bind (.set _) fun _ => .pure _

/-- The replace operation fails with errors of operations only. -/
theorem replaceAt_fails (promiseId : PromiseId) (expectedVersion : Version) (newBundle : Bundle)
    (newState : ReplacementState) (now : Timestamp) :
    PartOk (EngineState.replaceAt promiseId expectedVersion newBundle newState now) := by
  refine .bind (processExpirations_fails now) fun _ => ?_
  refine .bind .get fun s => ?_
  refine .bind (.ofExcept (.elim (by decide))) fun promise => ?_
  refine .ite (.bind (.throw (by decide)) fun _ => ?_) ?_
  all_goals
    refine .bind (.ofExcept (sequenceNext_fails _)) fun nextSequence => ?_
    refine .bind (.ofExcept (replace_fails _ _ _ _ _ _)) fun replaced => ?_
    refine .bind (.ofExcept (restoredTimelines_fails _ _)) fun finalTimelines => ?_
    refine .bind (.ofExcept (evaluateBundleWithOverrides_fails _ _ _)) fun admission => ?_
    cases admission with
    | available timelines => exact .bind (.set _) fun _ => .pure _
    | unavailable conflicts => exact .pure _

/-- An operation fails with errors of operations only. -/
theorem applyOnce_fails (operation : CommandOperation) (now : Timestamp) :
    PartOk (EngineState.applyOnce operation now) := by
  cases operation with
  | createResourcePool resourcePoolId displayName unit capacityCurve =>
    exact .bind (createResourcePoolAt_fails _ _ _ _ now) fun _ => .pure _
  | reviseCapacity resourcePoolId capacityCurve mode =>
    exact .bind (reviseCapacityAt_fails _ _ _ now) fun _ => .pure _
  | hold promiseId bundle expiresAt => exact .bind (holdWithIdAt_fails _ _ _ now) fun _ => .pure _
  | holdOneOf promiseId choice expiresAt =>
    exact .bind (holdChoiceAt_fails _ _ _ now) fun _ => .pure _
  | holdFirstSlot promiseId relativeBundle earliestStart latestStart step expiresAt =>
    exact .bind (holdSlotAt_fails _ _ _ _ now) fun _ => .pure _
  | commit promiseId expectedVersion => exact .bind (commitAt_fails _ _ now) fun _ => .pure _
  | release promiseId expectedVersion => exact .bind (releaseAt_fails _ _ now) fun _ => .pure _
  | replace promiseId expectedVersion newBundle newState =>
    exact .bind (replaceAt_fails _ _ _ _ now) fun _ => .pure _
  | processExpirations => exact .bind (processExpirations_fails now) fun _ => .pure _

end PromiseDb
