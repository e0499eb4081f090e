import PromiseDb.Engine.IndexInvariant
import PromiseDb.Library.Agreement

/-!
# States with the same slack

Two timelines that stand for the same slack function may differ in their blocks, in lazily added
deltas and in left-over points.  Two states with the same authoritative data and timelines for the
same slack functions cannot be told apart: every operation gives the same answer on both and
leads to two such states again.
-/

namespace PromiseDb

/-! ## Timelines -/

/-- Two well-formed timelines for the same slack function. -/
structure SlackTimeline.Same (tl tl' : SlackTimeline) : Prop where
  left : tl.WellFormed
  right : tl'.WellFormed
  slackValue : ∀ t, tl.slackValue t = tl'.slackValue t

namespace SlackTimeline

/-- A timeline that can be read has the same slack as itself. -/
theorem WellFormed.same {tl : SlackTimeline} (h : tl.WellFormed) : Same tl tl := ⟨h, h, fun _ => rfl⟩

namespace Same

variable {tl tl' : SlackTimeline} (h : Same tl tl')

include h

/-- The slack is read alike. -/
theorem slackAt_eq (t : Timestamp) : tl.slackAt t = tl'.slackAt t := by
  obtain ⟨x, hx, hxval⟩ := slackAt_spec h.left t
  obtain ⟨y, hy, hyval⟩ := slackAt_spec h.right t
  have heq : x = y := Subtype.ext (by rw [hxval, hyval, h.slackValue])
  rw [hx, hy, heq]

/-- The effective points are read alike. -/
theorem effectivePoints_eq : tl.effectivePoints = tl'.effectivePoints :=
  effectivePoints_congr h.left h.right h.slackValue

/-- The deficits are found alike. -/
theorem deficitIntervals_eq : tl.deficitIntervals = tl'.deficitIntervals := by
  rw [deficitIntervals, deficitIntervals, h.effectivePoints_eq]

/-- An update is possible on both or on none, and leads to the same slack function. -/
theorem runUpdate_applyDelta (i : Interval) (δ : Slack) :
    Except.Agree Same (runUpdate tl (applyDelta i δ)) (runUpdate tl' (applyDelta i δ)) := by
  by_cases hδ : ∀ t, i.contains t = true → IsSlack (tl.slackValue t + δ.val)
  · have hδ' : ∀ t, i.contains t = true → IsSlack (tl'.slackValue t + δ.val) := by
      intro t ht
      rw [← h.slackValue]
      exact hδ t ht
    obtain ⟨new, hnew, hwf, hvalue⟩ := applyDelta_spec h.left hδ
    obtain ⟨new', hnew', hwf', hvalue'⟩ := applyDelta_spec h.right hδ'
    simp only [runUpdate, hnew, hnew']
    refine .ok ⟨hwf, hwf', fun t => ?_⟩
    rw [hvalue, hvalue', h.slackValue]
  · have hbad : ∃ t, i.contains t = true ∧ ¬IsSlack (tl.slackValue t + δ.val) := by
      push Not at hδ
      exact hδ
    have hbad' : ∃ t, i.contains t = true ∧ ¬IsSlack (tl'.slackValue t + δ.val) := by
      simpa only [h.slackValue] using hbad
    simp only [runUpdate, applyDelta_error h.left hbad, applyDelta_error h.right hbad']
    exact .error _

/-- Taking demand from both. -/
theorem consumeDemand (adjustment : Interval × Slack) :
    Except.Agree Same (consumeDemand tl adjustment) (consumeDemand tl' adjustment) :=
  Except.Agree.rfl.bind fun _ _ hδ => hδ ▸ h.runUpdate_applyDelta _ _

/-- Giving a claim back to both. -/
theorem restoreClaim (claim : Claim) :
    Except.Agree Same (restoreClaim tl claim) (restoreClaim tl' claim) :=
  Except.Agree.rfl.bind fun _ _ hδ => hδ ▸ h.runUpdate_applyDelta _ _

end Same

end SlackTimeline

/-- Timelines of the same pools, for the same slack functions. -/
def SameTimelines (m n : OrderedMap ResourcePoolId SlackTimeline) : Prop :=
  ∀ id : ResourcePoolId, Option.Rel SlackTimeline.Same m[id]? n[id]?

namespace SameTimelines

/-- Without timelines they are the same. -/
theorem empty : SameTimelines ∅ ∅ := by
  intro id
  rw [OrderedMap.lookup_empty]
  exact .none

variable {m n m' n' : OrderedMap ResourcePoolId SlackTimeline}

/-- Timelines stay the same when such ones are inserted. -/
theorem insert (h : SameTimelines m n) (id : ResourcePoolId) {tl tl' : SlackTimeline}
    (htl : SlackTimeline.Same tl tl') : SameTimelines (m.insert id tl) (n.insert id tl') := by
  intro id'
  rw [OrderedMap.lookup_insert, OrderedMap.lookup_insert]
  split
  · exact .some htl
  · exact h id'

/-- Timelines stay the same when they are overridden by such ones. -/
theorem extend (h : SameTimelines m n) (h' : SameTimelines m' n') :
    SameTimelines (OrderedMap.extend m m') (OrderedMap.extend n n') := by
  intro id
  rw [OrderedMap.lookup_extend, OrderedMap.lookup_extend]
  have hid' := h' id
  cases hl : m'[id]? with
  | none =>
    rw [hl] at hid'
    cases hr : n'[id]? with
    | none => simpa using h id
    | some tl =>
      rw [hr] at hid'
      cases hid'
  | some tl =>
    rw [hl] at hid'
    cases hr : n'[id]? with
    | none =>
      rw [hr] at hid'
      cases hid'
    | some tl' =>
      rw [hr] at hid'
      simpa using hid'

end SameTimelines

/-! ## Admission -/

/-- Evaluations of a pool with the same verdict. -/
inductive PoolAdmission.Same : PoolAdmission → PoolAdmission → Prop
  | available {tl tl' : SlackTimeline} (h : tl.Same tl') : Same (.available tl) (.available tl')
  | unavailable (conflicts : List AvailabilityConflict) :
      Same (.unavailable conflicts) (.unavailable conflicts)

/-- Evaluations of a bundle with the same verdict. -/
inductive BundleAdmission.Same : BundleAdmission → BundleAdmission → Prop
  | available {m n : OrderedMap ResourcePoolId SlackTimeline} (h : SameTimelines m n) :
      Same (.available m) (.available n)
  | unavailable (conflicts : List AvailabilityConflict) :
      Same (.unavailable conflicts) (.unavailable conflicts)

/-- Searches with the same outcome. -/
inductive SlotSearch.Same : SlotSearch → SlotSearch → Prop
  | found (slot : Slot) {m n : OrderedMap ResourcePoolId SlackTimeline} (h : SameTimelines m n) :
      Same (.found slot m) (.found slot n)
  | unavailable (attempts : Nat) : Same (.unavailable attempts) (.unavailable attempts)

/-- States that differ at most in timelines for the same slack functions. -/
def EngineState.Same (s t : EngineState) : Prop :=
  ∃ timelines, t = { s with slackTimelines := timelines } ∧ SameTimelines s.slackTimelines timelines

namespace EngineState

/-- A deficit floor matters only through its slack. -/
theorem minimumAllowedSlack_eq {floor floor' : Option SlackTimeline}
    (h : Option.Rel SlackTimeline.Same floor floor') (t : Timestamp) :
    minimumAllowedSlack floor t = minimumAllowedSlack floor' t := by
  cases h with
  | none => rfl
  | some h => rw [minimumAllowedSlack, minimumAllowedSlack, h.slackAt_eq]

variable {s : EngineState} {timelines : OrderedMap ResourcePoolId SlackTimeline}

/-- A window is evaluated on the slack alone. -/
theorem evaluateWindow_eq (timelines : OrderedMap ResourcePoolId SlackTimeline)
    {base base' : SlackTimeline} {floor floor' : Option SlackTimeline}
    (h : base.Same base') (hfloor : Option.Rel SlackTimeline.Same floor floor')
    (poolId : ResourcePoolId) :
    evaluateWindow s poolId base floor =
      evaluateWindow { s with slackTimelines := timelines } poolId base' floor' := by
  funext w window
  simp only [evaluateWindow, h.slackAt_eq, minimumAllowedSlack_eq hfloor]
  rfl

/-- A pool is evaluated alike on timelines with the same slack. -/
theorem evaluatePoolOnTimeline_agree (timelines : OrderedMap ResourcePoolId SlackTimeline)
    {base base' : SlackTimeline} {floor floor' : Option SlackTimeline}
    (h : base.Same base') (hfloor : Option.Rel SlackTimeline.Same floor floor')
    (poolId : ResourcePoolId) (claims : List Claim) :
    Except.Agree PoolAdmission.Same (s.evaluatePoolOnTimeline poolId claims base floor)
      ({ s with slackTimelines := timelines }.evaluatePoolOnTimeline poolId claims base' floor') := by
  unfold evaluatePoolOnTimeline
  rw [h.effectivePoints_eq, evaluateWindow_eq timelines h hfloor]
  refine Except.Agree.rfl.bind fun points _ hpoints => hpoints ▸ ?_
  refine Except.Agree.rfl.bind fun events _ hevents => hevents ▸ ?_
  refine Except.Agree.rfl.bind fun windows _ hwindows => hwindows ▸ ?_
  apply Except.Agree.ite
  · exact .ok (.unavailable _)
  · refine Except.Agree.rfl.bind fun adjustments _ hadjustments => hadjustments ▸ ?_
    refine Except.Agree.bind (Except.Agree.foldlM (fun _ _ h c _ => h.consumeDemand c) h) ?_
    exact fun _ _ h => .ok (.available h)

section Evaluation

variable (h : SameTimelines s.slackTimelines timelines)

include h

/-- A pool is evaluated alike with overrides that have the same slack. -/
theorem evaluatePoolWithOverrides_agree {m n : OrderedMap ResourcePoolId SlackTimeline}
    (hmn : SameTimelines m n) (poolId : ResourcePoolId) (claims : List Claim) :
    Except.Agree PoolAdmission.Same (s.evaluatePoolWithOverrides m poolId claims)
      ({ s with slackTimelines := timelines }.evaluatePoolWithOverrides n poolId claims) := by
  have hpool := hmn poolId
  unfold evaluatePoolWithOverrides
  cases hm : m[poolId]? with
  | none =>
    rw [hm] at hpool
    cases hn : n[poolId]? with
    | some tl' =>
      rw [hn] at hpool
      cases hpool
    | none =>
      refine (Except.Agree.elim (h poolId)).bind fun tl tl' htl => ?_
      exact evaluatePoolOnTimeline_agree timelines htl .none poolId claims
  | some tl =>
    rw [hm] at hpool
    cases hn : n[poolId]? with
    | none =>
      rw [hn] at hpool
      cases hpool
    | some tl' =>
      rw [hn] at hpool
      cases hpool with
      | some htl =>
        refine (Except.Agree.elim (h poolId)).bind fun floor floor' hfloor => ?_
        exact evaluatePoolOnTimeline_agree timelines htl (.some hfloor) poolId claims

/-- Bundles are evaluated alike. -/
theorem evaluateBundleWithOverrides_agree {m n : OrderedMap ResourcePoolId SlackTimeline}
    (hmn : SameTimelines m n) (bundle : Bundle) :
    Except.Agree BundleAdmission.Same (s.evaluateBundleWithOverrides bundle m)
      ({ s with slackTimelines := timelines }.evaluateBundleWithOverrides bundle n) := by
  unfold evaluateBundleWithOverrides
  refine Except.Agree.bind (Except.Agree.foldlM
    (R := fun a b => SameTimelines a.1 b.1 ∧ a.2 = b.2) ?_ ⟨.empty, rfl⟩) ?_
  · rintro ⟨a, conflicts⟩ ⟨b, -⟩ ⟨hab, rfl⟩ entry -
    refine (evaluatePoolWithOverrides_agree h hmn entry.1 entry.2).bind ?_
    intro x y hxy
    cases hxy with
    | available htl => exact .ok ⟨hab.insert _ htl, rfl⟩
    | unavailable conflicts => exact .ok ⟨hab, rfl⟩
  · rintro ⟨a, conflicts⟩ ⟨b, -⟩ ⟨hab, rfl⟩
    apply Except.Agree.ite
    · exact .ok (.available hab)
    · exact .ok (.unavailable _)

/-- A bundle is admitted alike on timelines with the same slack. -/
theorem evaluateBundleAdmission_agree (bundle : Bundle) :
    Except.Agree BundleAdmission.Same (s.evaluateBundleAdmission bundle)
      ({ s with slackTimelines := timelines }.evaluateBundleAdmission bundle) :=
  evaluateBundleWithOverrides_agree h .empty bundle

/-- The search loop makes the same rounds. -/
theorem searchSlotsFrom_agree (relativeBundle : RelativeBundle) (range : SlotRange) (fuel : Nat)
    (start : Timestamp) (attempts : Nat) :
    Except.Agree SlotSearch.Same (s.searchSlotsFrom relativeBundle range fuel start attempts)
      ({ s with slackTimelines := timelines }.searchSlotsFrom relativeBundle range fuel start
        attempts) := by
  induction fuel generalizing start attempts with
  | zero => exact .ok (.unavailable _)
  | succ fuel ih =>
    unfold searchSlotsFrom
    refine Except.Agree.rfl.bind fun bundle _ hbundle => hbundle ▸ ?_
    refine (evaluateBundleAdmission_agree h bundle).bind fun x y hxy => ?_
    cases hxy with
    | available hmn => exact .ok (.found _ hmn)
    | unavailable conflicts =>
      apply Except.Agree.ite
      · exact .ok (.unavailable _)
      · cases start.checkedAdd range.step with
        | none => exact .ok (.unavailable _)
        | some next =>
          apply Except.Agree.ite
          · exact .ok (.unavailable _)
          · exact ih next (attempts + 1)

/-- Slots are found alike on timelines with the same slack. -/
theorem searchSlots_agree (relativeBundle : RelativeBundle) (range : SlotRange) :
    Except.Agree SlotSearch.Same (s.searchSlots relativeBundle range)
      ({ s with slackTimelines := timelines }.searchSlots relativeBundle range) := by
  unfold searchSlots
  apply Except.Agree.ite (.error _)
  apply Except.Agree.ite (.error _)
  exact searchSlotsFrom_agree h relativeBundle range range.fuel range.earliest 0

/-- Claims are given back alike. -/
theorem restoredTimelines_agree (bundle : Bundle) :
    Except.Agree SameTimelines (s.restoredTimelines bundle)
      ({ s with slackTimelines := timelines }.restoredTimelines bundle) := by
  unfold restoredTimelines
  refine Except.Agree.foldlM ?_ .empty
  intro a b hab entry _
  refine Except.Agree.bind (R := SlackTimeline.Same) ?_ fun _ _ htl => .ok (hab.insert _ htl)
  refine (Except.Agree.elim (h entry.1)).bind fun tl tl' htl => ?_
  exact Except.Agree.foldlM (fun _ _ htl claim _ => htl.restoreClaim claim) htl

end Evaluation

/-- Deficits are read off the slack alone. -/
theorem capacityDeficits_eq (s : EngineState)
    (timelines : OrderedMap ResourcePoolId SlackTimeline) {tl tl' : SlackTimeline}
    (h : tl.Same tl') (poolId : ResourcePoolId) :
    s.capacityDeficits poolId tl =
      { s with slackTimelines := timelines }.capacityDeficits poolId tl' := by
  unfold capacityDeficits
  rw [h.deficitIntervals_eq]
  rfl

/-! ## Operations -/

/-- Programs that give the same answer on states with the same slack. -/
abbrev Alike {α β : Type} (R : α → β → Prop) (x : EngineM α) (y : EngineM β) : Prop :=
  EStateM.Agree EngineState.Same R x y

/-- A hold expires alike. -/
theorem alike_expireHold (now : Timestamp) (id : PromiseId) :
    Alike (fun _ _ => True) (expireHold now id) (expireHold now id) := by
  unfold expireHold
  apply EStateM.Agree.get_bind
  rintro s _ ⟨timelines, rfl, h⟩
  refine (EStateM.Agree.ofExcept .rfl).bind fun sequence _ hsequence => hsequence ▸ ?_
  refine (EStateM.Agree.ofExcept .rfl).bind fun promise _ hpromise => hpromise ▸ ?_
  refine (EStateM.Agree.ofExcept .rfl).bind fun expired _ hexpired => hexpired ▸ ?_
  refine (EStateM.Agree.ofExcept (restoredTimelines_agree h _)).bind fun m n hmn => ?_
  exact .set ⟨_, rfl, h.extend hmn⟩

/-- Several holds expire alike. -/
theorem alike_expireHolds (now : Timestamp) (count : Nat) (due : List (Timestamp ×ₗ PromiseId)) :
    Alike Eq (expireHolds now count due) (expireHolds now count due) := by
  induction due generalizing count with
  | nil => exact .pure rfl
  | cons first rest ih => exact (alike_expireHold now _).bind fun _ _ _ => ih (count + 1)

/-- Expirations are processed alike. -/
theorem alike_processExpirations (now : Timestamp) :
    Alike Eq (processExpirations now) (processExpirations now) := by
  apply EStateM.Agree.get_bind
  rintro s _ ⟨timelines, rfl, h⟩
  exact alike_expireHolds now 0 _

/-- An operation that goes on after the expirations. -/
theorem alike_afterExpirations {α : Type} (now : Timestamp) {f : EngineState → EngineM α}
    (h : ∀ s timelines, SameTimelines s.slackTimelines timelines →
      Alike Eq (f s) (f { s with slackTimelines := timelines })) :
    Alike Eq (do let _ ← processExpirations now; let s ← get; f s)
      (do let _ ← processExpirations now; let s ← get; f s) := by
  refine (alike_processExpirations now).bind fun _ _ _ => ?_
  apply EStateM.Agree.get_bind
  rintro s _ ⟨timelines, rfl, hsame⟩
  exact h s timelines hsame

/-- A timeline that is built from data common to both states. -/
theorem agree_indexResult {x : Except IndexError SlackTimeline}
    (h : ∀ tl, x = .ok tl → tl.WellFormed) :
    Except.Agree SlackTimeline.Same (indexResult x) (indexResult x) := by
  cases hx : x with
  | ok tl => exact .ok (h tl hx).same
  | error e => exact .error _

/-- A pool is created alike. -/
theorem alike_createResourcePoolAt (poolId : ResourcePoolId) (displayName : String)
    (unit : ResourceUnit) (capacityCurve : CapacityCurve) (now : Timestamp) :
    Alike Eq (createResourcePoolAt poolId displayName unit capacityCurve now)
      (createResourcePoolAt poolId displayName unit capacityCurve now) := by
  apply alike_afterExpirations
  intro s timelines h
  apply EStateM.Agree.ite (.throw _)
  have hwf (tl : SlackTimeline) (htl : SlackTimeline.fromCapacityCurve capacityCurve = .ok tl) :
      tl.WellFormed := by
    obtain ⟨tl', htl', hwf, -⟩ := SlackTimeline.fromCapacityCurve_spec capacityCurve
    rwa [Except.ok.inj (htl.symm.trans htl')]
  refine (EStateM.Agree.ofExcept (agree_indexResult hwf)).bind fun tl tl' htl => ?_
  refine (EStateM.Agree.ofExcept .rfl).bind fun sequence _ hsequence => hsequence ▸ ?_
  refine (EStateM.Agree.set ⟨_, rfl, h.insert _ htl⟩).bind fun _ _ _ => ?_
  exact .pure rfl

/-- Capacity is revised alike. -/
theorem alike_reviseCapacityAt (poolId : ResourcePoolId) (capacityCurve : CapacityCurve)
    (mode : CapacityRevisionMode) (now : Timestamp) :
    Alike Eq (reviseCapacityAt poolId capacityCurve mode now)
      (reviseCapacityAt poolId capacityCurve mode now) := by
  apply alike_afterExpirations
  intro s timelines h
  refine (EStateM.Agree.ofExcept .rfl).bind fun pool _ hpool => hpool ▸ ?_
  refine (EStateM.Agree.ofExcept (.elim (h poolId))).bind fun tl tl' htl => ?_
  rw [← capacityDeficits_eq s timelines htl]
  refine (EStateM.Agree.ofExcept .rfl).bind fun previous _ hprevious => hprevious ▸ ?_
  refine (EStateM.Agree.ofExcept (agree_indexResult fun tl htl => (rebuilt_spec htl).1)).bind
    fun new new' hnew => ?_
  rw [← capacityDeficits_eq s timelines hnew]
  refine (EStateM.Agree.ofExcept .rfl).bind fun deficits _ hdeficits => hdeficits ▸ ?_
  apply EStateM.Agree.ite (.throw _)
  refine (EStateM.Agree.ofExcept .rfl).bind fun sequence _ hsequence => hsequence ▸ ?_
  refine (EStateM.Agree.set ⟨_, rfl, h.insert _ hnew⟩).bind fun _ _ _ => ?_
  exact .pure rfl

/-- A hold is accepted alike. -/
theorem alike_acceptHold (promiseId : PromiseId) (bundle : Bundle) (expiresAt now : Timestamp)
    {m n : OrderedMap ResourcePoolId SlackTimeline} (hmn : SameTimelines m n) :
    Alike (fun _ _ => True) (acceptHold promiseId bundle expiresAt now m)
      (acceptHold promiseId bundle expiresAt now n) := by
  apply EStateM.Agree.get_bind
  rintro s _ ⟨timelines, rfl, h⟩
  refine (EStateM.Agree.ofExcept .rfl).bind fun sequence _ hsequence => hsequence ▸ ?_
  refine (EStateM.Agree.ofExcept .rfl).bind fun promise _ hpromise => hpromise ▸ ?_
  exact .set ⟨_, rfl, h.extend hmn⟩

/-- A bundle is held alike. -/
theorem alike_holdWithIdAt (promiseId : PromiseId) (bundle : Bundle) (expiresAt now : Timestamp) :
    Alike Eq (holdWithIdAt promiseId bundle expiresAt now)
      (holdWithIdAt promiseId bundle expiresAt now) := by
  apply alike_afterExpirations
  intro s timelines h
  apply EStateM.Agree.ite (.throw _)
  apply EStateM.Agree.ite (.throw _)
  refine (EStateM.Agree.ofExcept (evaluateBundleAdmission_agree h bundle)).bind fun x y hxy => ?_
  cases hxy with
  | unavailable conflicts => exact .pure rfl
  | available hmn => exact (alike_acceptHold _ _ _ _ hmn).bind fun _ _ _ => .pure rfl

/-- Alternatives are tried alike. -/
theorem alike_holdAlternatives (promiseId : PromiseId) (expiresAt now : Timestamp) (index : Nat)
    (conflicts : List ChoiceConflict) (alternatives : List Bundle) :
    Alike Eq (holdAlternatives promiseId expiresAt now index conflicts alternatives)
      (holdAlternatives promiseId expiresAt now index conflicts alternatives) := by
  induction alternatives generalizing index conflicts with
  | nil => exact .pure rfl
  | cons bundle rest ih =>
    apply EStateM.Agree.get_bind
    rintro s _ ⟨timelines, rfl, h⟩
    refine (EStateM.Agree.ofExcept (evaluateBundleAdmission_agree h bundle)).bind fun x y hxy => ?_
    cases hxy with
    | available hmn => exact (alike_acceptHold _ _ _ _ hmn).bind fun _ _ _ => .pure rfl
    | unavailable conflicts => exact ih _ _

/-- One of several bundles is held alike. -/
theorem alike_holdChoiceAt (promiseId : PromiseId) (choice : Choice) (expiresAt now : Timestamp) :
    Alike Eq (holdChoiceAt promiseId choice expiresAt now)
      (holdChoiceAt promiseId choice expiresAt now) := by
  apply alike_afterExpirations
  intro s timelines h
  apply EStateM.Agree.ite (.throw _)
  apply EStateM.Agree.ite (.throw _)
  exact alike_holdAlternatives _ _ _ _ _ _

/-- The first slot is held alike. -/
theorem alike_holdSlotAt (promiseId : PromiseId) (relativeBundle : RelativeBundle)
    (range : SlotRange) (expiresAt now : Timestamp) :
    Alike Eq (holdSlotAt promiseId relativeBundle range expiresAt now)
      (holdSlotAt promiseId relativeBundle range expiresAt now) := by
  apply alike_afterExpirations
  intro s timelines h
  apply EStateM.Agree.ite (.throw _)
  apply EStateM.Agree.ite (.throw _)
  refine (EStateM.Agree.ofExcept (searchSlots_agree h relativeBundle range)).bind fun x y hxy => ?_
  cases hxy with
  | unavailable attempts => exact .pure rfl
  | found slot hmn => exact (alike_acceptHold _ _ _ _ hmn).bind fun _ _ _ => .pure rfl

/-- A promise is committed alike. -/
theorem alike_commitAt (promiseId : PromiseId) (expectedVersion : Version) (now : Timestamp) :
    Alike Eq (commitAt promiseId expectedVersion now) (commitAt promiseId expectedVersion now) := by
  apply alike_afterExpirations
  intro s timelines h
  refine (EStateM.Agree.ofExcept .rfl).bind fun sequence _ hsequence => hsequence ▸ ?_
  refine (EStateM.Agree.ofExcept .rfl).bind fun promise _ hpromise => hpromise ▸ ?_
  apply EStateM.Agree.ite (.throw _)
  refine (EStateM.Agree.ofExcept .rfl).bind fun committed _ hcommitted => hcommitted ▸ ?_
  refine (EStateM.Agree.set ⟨_, rfl, h⟩).bind fun _ _ _ => ?_
  exact .pure rfl

/-- A promise is released alike. -/
theorem alike_releaseAt (promiseId : PromiseId) (expectedVersion : Version) (now : Timestamp) :
    Alike Eq (releaseAt promiseId expectedVersion now)
      (releaseAt promiseId expectedVersion now) := by
  apply alike_afterExpirations
  intro s timelines h
  refine (EStateM.Agree.ofExcept .rfl).bind fun sequence _ hsequence => hsequence ▸ ?_
  refine (EStateM.Agree.ofExcept .rfl).bind fun promise _ hpromise => hpromise ▸ ?_
  apply EStateM.Agree.ite (.throw _)
  refine (EStateM.Agree.ofExcept .rfl).bind fun released _ hreleased => hreleased ▸ ?_
  refine (EStateM.Agree.ofExcept (restoredTimelines_agree h _)).bind fun m n hmn => ?_
  refine (EStateM.Agree.set ⟨_, rfl, h.extend hmn⟩).bind fun _ _ _ => ?_
  exact .pure rfl

/-- A promise is replaced alike. -/
theorem alike_replaceAt (promiseId : PromiseId) (expectedVersion : Version) (newBundle : Bundle)
    (newState : ReplacementState) (now : Timestamp) :
    Alike Eq (replaceAt promiseId expectedVersion newBundle newState now)
      (replaceAt promiseId expectedVersion newBundle newState now) := by
  apply alike_afterExpirations
  intro s timelines h
  refine (EStateM.Agree.ofExcept .rfl).bind fun promise _ hpromise => hpromise ▸ ?_
  apply EStateM.Agree.ite (.throw _)
  refine (EStateM.Agree.ofExcept .rfl).bind fun sequence _ hsequence => hsequence ▸ ?_
  refine (EStateM.Agree.ofExcept .rfl).bind fun replaced _ hreplaced => hreplaced ▸ ?_
  refine (EStateM.Agree.ofExcept (restoredTimelines_agree h _)).bind fun m n hmn => ?_
  refine (EStateM.Agree.ofExcept (evaluateBundleWithOverrides_agree h hmn newBundle)).bind
    fun x y hxy => ?_
  cases hxy with
  | unavailable conflicts => exact .pure rfl
  | available hadjusted =>
    refine (EStateM.Agree.set ⟨_, rfl, h.extend (hmn.extend hadjusted)⟩).bind fun _ _ _ => ?_
    exact .pure rfl

/-- Every operation gives the same answer on states with the same slack, and leads to such
states. -/
theorem alike_applyOnce (operation : CommandOperation) (now : Timestamp) :
    Alike Eq (applyOnce operation now) (applyOnce operation now) := by
  cases operation with
  | createResourcePool resourcePoolId displayName unit capacityCurve =>
    exact (alike_createResourcePoolAt _ _ _ _ _).bind fun _ _ _ => .pure rfl
  | reviseCapacity resourcePoolId capacityCurve mode =>
    exact (alike_reviseCapacityAt _ _ _ _).bind fun _ _ h => .pure (h ▸ rfl)
  | hold promiseId bundle expiresAt =>
    exact (alike_holdWithIdAt _ _ _ _).bind fun _ _ h => .pure (h ▸ rfl)
  | holdOneOf promiseId choice expiresAt =>
    exact (alike_holdChoiceAt _ _ _ _).bind fun _ _ h => .pure (h ▸ rfl)
  | holdFirstSlot promiseId relativeBundle earliestStart latestStart step expiresAt =>
    exact (alike_holdSlotAt _ _ _ _ _).bind fun _ _ h => .pure (h ▸ rfl)
  | commit promiseId expectedVersion =>
    exact (alike_commitAt _ _ _).bind fun _ _ h => .pure (h ▸ rfl)
  | release promiseId expectedVersion =>
    exact (alike_releaseAt _ _ _).bind fun _ _ h => .pure (h ▸ rfl)
  | replace promiseId expectedVersion newBundle newState =>
    exact (alike_replaceAt _ _ _ _ _).bind fun _ _ h => .pure (h ▸ rfl)
  | processExpirations =>
    exact (alike_processExpirations _).bind fun _ _ h => .pure (h ▸ rfl)

/-- States with the same slack have the same authoritative data. -/
theorem Same.data {s t : EngineState} (h : s.Same t) :
    t.resourcePools = s.resourcePools ∧ t.promises = s.promises ∧ t.events = s.events ∧
      t.idempotencyRecords = s.idempotencyRecords ∧ t.sequence = s.sequence := by
  obtain ⟨timelines, rfl, -⟩ := h
  exact ⟨rfl, rfl, rfl, rfl, rfl⟩

end EngineState

namespace Engine

variable {blake3 : List UInt8 → CommandHash}

/-- Engines with the same slack. -/
def Same (e f : Engine) : Prop := e.state.Same f.state ∧ f.publicationRevision = e.publicationRevision

/-- Executing a command gives the same response on states with the same slack. -/
theorem executeOnce_same {s t : EngineState} (h : s.Same t) (command : Command) (now : Timestamp) :
    (executeOnce blake3 s command now).1 = (executeOnce blake3 t command now).1 ∧
      (executeOnce blake3 s command now).2.Same (executeOnce blake3 t command now).2 := by
  have hrun := EngineState.alike_applyOnce command.operation now s t h
  unfold executeOnce
  cases hs : EngineState.applyOnce command.operation now s with
  | ok result s' =>
    cases ht : EngineState.applyOnce command.operation now t with
    | ok result' t' =>
      rw [hs, ht] at hrun
      cases hrun with
      | ok hresult hst =>
        obtain ⟨timelines, rfl, hsame⟩ := hst
        obtain rfl := hresult
        exact ⟨rfl, timelines, rfl, hsame⟩
    | error e t' =>
      rw [hs, ht] at hrun
      cases hrun
  | error e s' =>
    cases ht : EngineState.applyOnce command.operation now t with
    | ok result' t' =>
      rw [hs, ht] at hrun
      cases hrun
    | error e' t' =>
      rw [hs, ht] at hrun
      cases hrun with
      | error e hst =>
        obtain ⟨timelines, rfl, hsame⟩ := hst
        exact ⟨rfl, timelines, rfl, hsame⟩

/-- Engines with the same slack answer a command alike. -/
theorem apply_same {e f : Engine} (h : e.Same f) (command : Command) (now : Timestamp) :
    (apply blake3 e command now).1 = (apply blake3 f command now).1 ∧
      (apply blake3 e command now).2.Same (apply blake3 f command now).2 := by
  obtain ⟨hstate, hrevision⟩ := h
  have hrecords := hstate.data.2.2.2.1
  have hnext : f.nextRevision = e.nextRevision := by rw [nextRevision, nextRevision, hrevision]
  unfold apply
  rw [hrecords, hnext]
  cases e.state.idempotencyRecords[command.identity]? with
  | some record => exact ⟨rfl, hstate, hrevision⟩
  | none =>
    cases e.nextRevision with
    | none => exact ⟨rfl, hstate, hrevision⟩
    | some next =>
      obtain ⟨hresponse, hsame⟩ := @executeOnce_same blake3 _ _ hstate command now
      exact ⟨hresponse, hsame, rfl⟩

/-- Engines with the same slack answer every run of commands alike. -/
theorem applyAll_same {e f : Engine} (h : e.Same f) (commands : List (Command × Timestamp)) :
    (applyAll blake3 e commands).1 = (applyAll blake3 f commands).1 ∧
      (applyAll blake3 e commands).2.Same (applyAll blake3 f commands).2 := by
  induction commands generalizing e f with
  | nil => exact ⟨rfl, h⟩
  | cons first rest ih =>
    obtain ⟨command, now⟩ := first
    obtain ⟨hresponse, hsame⟩ := @apply_same blake3 e f h command now
    obtain ⟨hresponses, hfinal⟩ := ih hsame
    exact ⟨congrArg₂ List.cons hresponse hresponses, hfinal⟩

end Engine

end PromiseDb
