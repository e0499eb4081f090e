import PromiseDb.Engine.CanonicalHash
import PromiseDb.Engine.ClaimOrder

/-!
# Reordered claims

Operations whose canonical representations are the same differ in the order of the claims within a
bundle only.  The order matters neither for the answer of an operation nor for what later operations
see of the state it leaves: two runs of commands with reordered claims give the same responses, the
same events and the same slack, and keep promises that are the same up to the order of their claims.
-/

namespace PromiseDb

/-- Every choice has its own alternatives. -/
theorem Choice.Reorders.refl (choice : Choice) : choice.Reorders choice :=
  List.forall₂_same.mpr fun bundle _ => List.Perm.refl bundle.claims

/-! ## Promises up to the order of claims -/

/-- The promises differ at most in the order of the claims. -/
def Promise.Reorders (p q : Promise) : Prop :=
  ∃ bundle, q = { p with bundle := bundle } ∧ p.bundle.Reorders bundle

namespace Promise.Reorders

variable {p q : Promise}

/-- A promise is a reordering of itself. -/
theorem rfl {p : Promise} : p.Reorders p := ⟨p.bundle, Eq.refl _, .refl _⟩

/-- A reordering does not change the state of a promise. -/
theorem state_eq (h : p.Reorders q) : q.state = p.state := by
  obtain ⟨bundle, hq, -⟩ := h
  rw [hq]

/-- The bundle of a reordered promise is reordered. -/
theorem bundle (h : p.Reorders q) : p.bundle.Reorders q.bundle := by
  obtain ⟨bundle, hq, hbundle⟩ := h
  rw [hq]
  exact hbundle

/-- A reordering does not change whether a promise is active. -/
theorem isActive_eq (h : p.Reorders q) : p.isActive = q.isActive := by
  rw [Promise.isActive, Promise.isActive, h.state_eq]

/-- A due hold expires whatever the order of its claims is. -/
theorem expire (h : p.Reorders q) (now : Timestamp) (sequence : SequenceNumber) :
    Except.Agree Promise.Reorders (p.expire now sequence) (q.expire now sequence) := by
  obtain ⟨bundle, rfl, hbundle⟩ := h
  unfold Promise.expire
  dsimp only
  cases p.state with
  | held expiresAt =>
    apply Except.Agree.ite (.error _)
    exact Except.Agree.rfl.bind fun version _ hversion => hversion ▸ .ok ⟨bundle, Eq.refl _, hbundle⟩
  | committed => exact .error _
  | released => exact .error _
  | expired => exact .error _

/-- A hold can be created with the claims in any order. -/
theorem withId (id : PromiseId) {bundle bundle' : Bundle} (h : bundle.Reorders bundle')
    (expiresAt now : Timestamp) (sequence : SequenceNumber) :
    Except.Agree Promise.Reorders (Promise.withId id bundle expiresAt now sequence)
      (Promise.withId id bundle' expiresAt now sequence) := by
  unfold Promise.withId
  exact .ite (.error _) (.ok ⟨bundle', Eq.refl _, h⟩)

/-- Results of a transition with the same version and promises up to the order of claims. -/
abbrev Versioned (a b : Version × Promise) : Prop := a.1 = b.1 ∧ a.2.Reorders b.2

/-- Reordered promises are committed alike. -/
theorem commit (h : p.Reorders q) (expected : Version) (now : Timestamp)
    (sequence : SequenceNumber) :
    Except.Agree Versioned (p.commit expected now sequence) (q.commit expected now sequence) := by
  obtain ⟨bundle, rfl, hbundle⟩ := h
  unfold Promise.commit
  dsimp only
  apply Except.Agree.ite (.error _)
  cases p.state with
  | held expiresAt =>
    apply Except.Agree.ite (.error _)
    exact Except.Agree.rfl.bind fun version _ hversion =>
      hversion ▸ .ok ⟨Eq.refl _, bundle, Eq.refl _, hbundle⟩
  | committed => exact .error _
  | released => exact .error _
  | expired => exact .error _

/-- Reordered promises are released alike. -/
theorem release (h : p.Reorders q) (expected : Version) (now : Timestamp)
    (sequence : SequenceNumber) :
    Except.Agree Versioned (p.release expected now sequence) (q.release expected now sequence) := by
  obtain ⟨bundle, rfl, hbundle⟩ := h
  unfold Promise.release
  dsimp only
  apply Except.Agree.ite (.error _)
  refine Except.Agree.rfl.bind fun _ _ _ => ?_
  exact Except.Agree.rfl.bind fun version _ hversion =>
    hversion ▸ .ok ⟨Eq.refl _, bundle, Eq.refl _, hbundle⟩

/-- A replacement leaves the new claims, in their own order. -/
theorem replace (h : p.Reorders q) (expected : Version) {newBundle newBundle' : Bundle}
    (hnew : newBundle.Reorders newBundle') (newState : ReplacementState) (now : Timestamp)
    (sequence : SequenceNumber) :
    Except.Agree Versioned (p.replace expected newBundle newState now sequence)
      (q.replace expected newBundle' newState now sequence) := by
  obtain ⟨bundle, rfl, -⟩ := h
  unfold Promise.replace
  dsimp only
  apply Except.Agree.ite (.error _)
  refine Except.Agree.rfl.bind fun _ _ _ => ?_
  refine Except.Agree.rfl.bind fun _ _ _ => ?_
  exact Except.Agree.rfl.bind fun version _ hversion =>
    hversion ▸ .ok ⟨Eq.refl _, newBundle', Eq.refl _, hnew⟩

end Promise.Reorders

/-! ## Relative bundles -/

/-- A relative claim can only leave the range of timestamps. -/
theorem RelativeClaim.materialize_overflows (c : RelativeClaim) (start : Timestamp) :
    (c.materialize start).FailsIn (· = .timestampOverflow) := by
  intro error herror
  unfold materialize at herror
  cases hstart : start.checkedAdd c.startOffset with
  | none =>
    rw [hstart] at herror
    exact (Except.error.inj herror).symm
  | some first =>
    rw [hstart, Option.elim_some, Except.ok_bind] at herror
    cases hend : start.checkedAdd c.endOffset with
    | none =>
      rw [hend] at herror
      exact (Except.error.inj herror).symm
    | some last =>
      have hfirst := BoundedInt.checkedAdd_eq_some.mp hstart
      have hlast := BoundedInt.checkedAdd_eq_some.mp hend
      have hoffsets : c.startOffset.val < c.endOffset.val := c.start_lt_end
      have hlt : first < last := BoundedInt.val_lt_val.mp (by omega)
      rw [hend, Option.elim_some, Except.ok_bind,
        (Interval.new_eq_ok (i := ⟨first, last, hlt⟩)).mpr ⟨Eq.refl _, Eq.refl _⟩, Except.ok_bind,
        (Claim.new_eq_ok (c := ⟨c.poolId, ⟨first, last, hlt⟩, c.quantity, c.quantity_pos,
          c.quantity_le⟩)).mpr ⟨Eq.refl _, Eq.refl _, Eq.refl _⟩] at herror
      cases herror

/-- Reordered relative claims are materialized alike. -/
theorem RelativeBundle.Reorders.materialize {b b' : RelativeBundle} (h : b.Reorders b')
    (start : Timestamp) :
    Except.Agree Bundle.Reorders (b.materialize start) (b'.materialize start) := by
  have hclaims : Except.Agree List.Perm (b.claims.mapM (·.materialize start))
      (b'.claims.mapM (·.materialize start)) :=
    .mapM_perm (fun c => c.materialize_overflows start) h
  unfold RelativeBundle.materialize
  refine hclaims.bind fun claims claims' hperm => ?_
  unfold Bundle.new
  by_cases hnil : claims = []
  · rw [dif_pos hnil, dif_pos (hnil ▸ hperm).nil_eq.symm]
    exact .error _
  · rw [dif_neg hnil, dif_neg fun hnil' => hnil (hnil' ▸ hperm).eq_nil]
    exact .ok hperm

/-! ## States up to the order of claims -/

/-- States that differ in the order of the claims of their promises and in timelines for the same
slack functions at most. -/
structure EngineState.Interchangeable (s t : EngineState) : Prop where
  resourcePools : t.resourcePools = s.resourcePools
  slackTimelines : SameTimelines s.slackTimelines t.slackTimelines
  promises : OrderedMap.Rel Promise.Reorders s.promises t.promises
  events : t.events = s.events
  idempotencyRecords : t.idempotencyRecords = s.idempotencyRecords
  sequence : t.sequence = s.sequence

/-- Searches with the same outcome, up to the order of the claims. -/
inductive SlotSearch.Interchangeable : SlotSearch → SlotSearch → Prop
  | found (start : Timestamp) {bundle bundle' : Bundle} (hbundle : bundle.Reorders bundle')
      {m n : OrderedMap ResourcePoolId SlackTimeline} (h : SameTimelines m n) :
      Interchangeable (.found ⟨start, bundle⟩ m) (.found ⟨start, bundle'⟩ n)
  | unavailable (attempts : Nat) : Interchangeable (.unavailable attempts) (.unavailable attempts)

namespace EngineState

namespace Interchangeable

variable {s t : EngineState} (h : s.Interchangeable t)

include h

/-- The same promises are in the way. -/
theorem activeOverlapping_eq (poolId : ResourcePoolId) (interval : Interval) :
    s.activeOverlapping poolId interval = t.activeOverlapping poolId interval := by
  unfold activeOverlapping
  refine h.promises.toList.filterMap_eq fun a b hab => ?_
  obtain ⟨hid, hpromise⟩ := hab
  have hany := hpromise.bundle.any_eq (f := fun c =>
    decide (c.poolId = poolId) && c.interval.overlaps interval)
  dsimp only
  rw [hpromise.isActive_eq, hany, hid]

/-- The same holds are due. -/
theorem dueHolds_eq (now : Timestamp) : s.dueHolds now = t.dueHolds now := by
  unfold dueHolds
  rw [h.promises.toList.filterMap_eq fun a b hab => ?_]
  obtain ⟨hid, hpromise⟩ := hab
  dsimp only
  rw [hpromise.state_eq, hid]

/-- The live claims on a pool are the same, up to their order. -/
theorem activeClaims_perm (poolId : ResourcePoolId) :
    (SlackTimeline.activeClaims poolId (OrderedMap.vals s.promises)).Perm
      (SlackTimeline.activeClaims poolId (OrderedMap.vals t.promises)) := by
  refine List.Perm.filter _ ?_
  unfold OrderedMap.vals
  have hentries := h.promises.toList
  generalize s.promises.toList = l at hentries
  generalize t.promises.toList = r at hentries
  induction hentries with
  | nil => exact .nil
  | @cons a b l r hab _ ih =>
    have hactive := hab.2.isActive_eq
    rw [List.map_cons, List.map_cons]
    cases ha : a.2.isActive with
    | true =>
      rw [List.filter_cons_of_pos ha, List.filter_cons_of_pos (hactive ▸ ha), List.flatMap_cons,
        List.flatMap_cons]
      exact hab.2.bundle.append ih
    | false =>
      rw [List.filter_cons_of_neg (Bool.eq_false_iff.mp ha),
        List.filter_cons_of_neg (Bool.eq_false_iff.mp (hactive ▸ ha))]
      exact ih

/-! ## Evaluations -/

/-- A window is evaluated alike. -/
theorem evaluateWindow_eq {base base' : SlackTimeline} {floor floor' : Option SlackTimeline}
    (hbase : base.Same base') (hfloor : Option.Rel SlackTimeline.Same floor floor')
    (poolId : ResourcePoolId) :
    evaluateWindow s poolId base floor = evaluateWindow t poolId base' floor' := by
  funext w window
  simp only [evaluateWindow, hbase.slackAt_eq, minimumAllowedSlack_eq hfloor,
    h.activeOverlapping_eq]

/-- The order of the claims does not matter for the evaluation of a pool. -/
theorem evaluatePoolOnTimeline_agree {base base' : SlackTimeline}
    {floor floor' : Option SlackTimeline} (hbase : base.Same base')
    (hfloor : Option.Rel SlackTimeline.Same floor floor') (poolId : ResourcePoolId)
    {claims claims' : List Claim} (hclaims : claims.Perm claims') :
    Except.Agree PoolAdmission.Same (s.evaluatePoolOnTimeline poolId claims base floor)
      (t.evaluatePoolOnTimeline poolId claims' base' floor') := by
  have hwf : ∀ tl ∈ floor, tl.WellFormed := by
    rintro tl htl
    cases hfloor with
    | none => cases htl
    | some hfloor =>
      cases htl
      exact hfloor.left
  rw [evaluatePoolOnTimeline_perm hbase.left hwf hclaims]
  unfold evaluatePoolOnTimeline
  rw [hbase.effectivePoints_eq, h.evaluateWindow_eq hbase hfloor]
  refine Except.Agree.rfl.bind fun points _ hpoints => hpoints ▸ ?_
  refine Except.Agree.rfl.bind fun events _ hevents => hevents ▸ ?_
  refine Except.Agree.rfl.bind fun windows _ hwindows => hwindows ▸ ?_
  apply Except.Agree.ite
  · exact .ok (.unavailable _)
  · refine Except.Agree.rfl.bind fun adjustments _ hadjustments => hadjustments ▸ ?_
    refine Except.Agree.bind (Except.Agree.foldlM (fun _ _ h c _ => h.consumeDemand c) hbase) ?_
    exact fun _ _ h => .ok (.available h)

/-- It does not matter with overrides either. -/
theorem evaluatePoolWithOverrides_agree {m n : OrderedMap ResourcePoolId SlackTimeline}
    (hmn : SameTimelines m n) (poolId : ResourcePoolId) {claims claims' : List Claim}
    (hclaims : claims.Perm claims') :
    Except.Agree PoolAdmission.Same (s.evaluatePoolWithOverrides m poolId claims)
      (t.evaluatePoolWithOverrides n poolId claims') := by
  have hpool := hmn poolId
  unfold evaluatePoolWithOverrides
  cases hm : m[poolId]? with
  | none =>
    rw [hm] at hpool
    cases hn : n[poolId]? with
    | some tl' =>
      rw [hn] at hpool
      cases hpool
    | none =>
      refine (Except.Agree.elim (h.slackTimelines poolId)).bind fun tl tl' htl => ?_
      exact h.evaluatePoolOnTimeline_agree htl .none poolId hclaims
  | some tl =>
    rw [hm] at hpool
    cases hn : n[poolId]? with
    | none =>
      rw [hn] at hpool
      cases hpool
    | some tl' =>
      rw [hn] at hpool
      cases hpool with
      | some htl =>
        refine (Except.Agree.elim (h.slackTimelines poolId)).bind fun floor floor' hfloor => ?_
        exact h.evaluatePoolOnTimeline_agree htl (.some hfloor) poolId hclaims

/-- Reordered bundles are evaluated alike. -/
theorem evaluateBundleWithOverrides_agree {m n : OrderedMap ResourcePoolId SlackTimeline}
    (hmn : SameTimelines m n) {bundle bundle' : Bundle} (hbundle : bundle.Reorders bundle') :
    Except.Agree BundleAdmission.Same (s.evaluateBundleWithOverrides bundle m)
      (t.evaluateBundleWithOverrides bundle' n) := by
  unfold evaluateBundleWithOverrides
  refine Except.Agree.bind (Except.Agree.foldlM₂
    (R := fun a b => SameTimelines a.1 b.1 ∧ a.2 = b.2) (claimsByPool_perm hbundle).toList ?_
    ⟨.empty, rfl⟩) ?_
  · rintro ⟨a, conflicts⟩ ⟨b, -⟩ ⟨hab, rfl⟩ ⟨poolId, claims⟩ ⟨-, claims'⟩ ⟨rfl, hclaims⟩
    refine (h.evaluatePoolWithOverrides_agree hmn poolId hclaims).bind ?_
    intro x y hxy
    cases hxy with
    | available htl => exact .ok ⟨hab.insert _ htl, rfl⟩
    | unavailable conflicts => exact .ok ⟨hab, rfl⟩
  · rintro ⟨a, conflicts⟩ ⟨b, -⟩ ⟨hab, rfl⟩
    apply Except.Agree.ite
    · exact .ok (.available hab)
    · exact .ok (.unavailable _)

/-- The order of the claims does not matter for the admission of a bundle. -/
theorem evaluateBundleAdmission_agree {bundle bundle' : Bundle} (hbundle : bundle.Reorders bundle') :
    Except.Agree BundleAdmission.Same (s.evaluateBundleAdmission bundle)
      (t.evaluateBundleAdmission bundle') :=
  h.evaluateBundleWithOverrides_agree .empty hbundle

/-- The search loop makes the same rounds. -/
theorem searchSlotsFrom_agree {relativeBundle relativeBundle' : RelativeBundle}
    (hbundle : relativeBundle.Reorders relativeBundle') (range : SlotRange) (fuel : Nat)
    (start : Timestamp) (attempts : Nat) :
    Except.Agree SlotSearch.Interchangeable
      (s.searchSlotsFrom relativeBundle range fuel start attempts)
      (t.searchSlotsFrom relativeBundle' range fuel start attempts) := by
  induction fuel generalizing start attempts with
  | zero => exact .ok (.unavailable _)
  | succ fuel ih =>
    unfold searchSlotsFrom
    refine (hbundle.materialize start).bind fun bundle bundle' hslot => ?_
    refine (h.evaluateBundleAdmission_agree hslot).bind fun x y hxy => ?_
    cases hxy with
    | available hmn => exact .ok (.found start hslot hmn)
    | unavailable conflicts =>
      apply Except.Agree.ite
      · exact .ok (.unavailable _)
      · cases start.checkedAdd range.step with
        | none => exact .ok (.unavailable _)
        | some next =>
          apply Except.Agree.ite
          · exact .ok (.unavailable _)
          · exact ih next (attempts + 1)

/-- The order of the claims does not matter for the search of slots. -/
theorem searchSlots_agree {relativeBundle relativeBundle' : RelativeBundle}
    (hbundle : relativeBundle.Reorders relativeBundle') (range : SlotRange) :
    Except.Agree SlotSearch.Interchangeable (s.searchSlots relativeBundle range)
      (t.searchSlots relativeBundle' range) := by
  unfold searchSlots
  apply Except.Agree.ite (.error _)
  apply Except.Agree.ite (.error _)
  exact h.searchSlotsFrom_agree hbundle range range.fuel range.earliest 0

/-- Reordered claims are given back alike. -/
theorem restoredTimelines_agree {bundle bundle' : Bundle} (hbundle : bundle.Reorders bundle') :
    Except.Agree SameTimelines (s.restoredTimelines bundle) (t.restoredTimelines bundle') := by
  unfold restoredTimelines
  refine Except.Agree.foldlM₂ (claimsByPool_perm hbundle).toList ?_ .empty
  rintro a b hab ⟨poolId, claims⟩ ⟨-, claims'⟩ ⟨rfl, hclaims⟩
  refine Except.Agree.bind (R := SlackTimeline.Same) ?_ fun _ _ htl => .ok (hab.insert _ htl)
  refine (Except.Agree.elim (h.slackTimelines poolId)).bind fun tl tl' htl => ?_
  exact restoreClaims_agree htl hclaims

/-- Deficits are the same. -/
theorem capacityDeficits_eq {tl tl' : SlackTimeline} (htl : tl.Same tl')
    (poolId : ResourcePoolId) : s.capacityDeficits poolId tl = t.capacityDeficits poolId tl' := by
  simp only [capacityDeficits, htl.deficitIntervals_eq, h.activeOverlapping_eq]

/-- A pool is rebuilt alike. -/
theorem fromCapacityAndPromises_agree (curve : CapacityCurve) (poolId : ResourcePoolId) :
    Except.Agree SlackTimeline.Same
      (indexResult (SlackTimeline.fromCapacityAndPromises curve poolId (OrderedMap.vals s.promises)))
      (indexResult
        (SlackTimeline.fromCapacityAndPromises curve poolId (OrderedMap.vals t.promises))) :=
  fromCapacityAndClaims_agree curve (h.activeClaims_perm poolId)

/-- Promises that are stored under the same identity correspond. -/
theorem promise_agree (id : PromiseId) :
    Except.Agree Promise.Reorders (s.promises[id]?.elim (.error .promiseNotFound) .ok)
      (t.promises[id]?.elim (.error DomainError.promiseNotFound) .ok) :=
  .elim (h.promises id)

/-- Storing corresponding promises with the same slack. -/
theorem withPromise {p q : Promise} (hpq : p.Reorders q) (id : PromiseId)
    {m n : OrderedMap ResourcePoolId SlackTimeline} (hmn : SameTimelines m n)
    (sequence : SequenceNumber) (now : Timestamp) (kind : EventKind) :
    (s.withPromise id p m sequence now kind).Interchangeable
      (t.withPromise id q n sequence now kind) := by
  have hversion : q.version = p.version := by
    obtain ⟨bundle, hq, -⟩ := hpq
    rw [hq]
  refine ⟨h.resourcePools, hmn, h.promises.insert id hpq, ?_, h.idempotencyRecords, rfl⟩
  unfold EngineState.withPromise
  rw [h.events, hversion]

/-- Storing a pool with the same slack. -/
theorem withPool (id : ResourcePoolId) (pool : ResourcePool) {tl tl' : SlackTimeline}
    (htl : tl.Same tl') (sequence : SequenceNumber) (now : Timestamp) (kind : EventKind)
    (audit : List Event) :
    (s.withPool id pool tl sequence now kind audit).Interchangeable
      (t.withPool id pool tl' sequence now kind audit) := by
  refine ⟨?_, h.slackTimelines.insert id htl, h.promises, ?_, h.idempotencyRecords, rfl⟩
  · unfold EngineState.withPool
    rw [h.resourcePools]
  · unfold EngineState.withPool
    rw [h.events]

end Interchangeable

/-! ## Operations -/

/-- Programs that give the same answer on interchangeable states. -/
abbrev Exchanged {α β : Type} (R : α → β → Prop) (x : EngineM α) (y : EngineM β) : Prop :=
  EStateM.Agree EngineState.Interchangeable R x y

/-- A hold expires alike, whatever the order of its claims. -/
theorem exchanged_expireHold (now : Timestamp) (id : PromiseId) :
    Exchanged (fun _ _ => True) (expireHold now id) (expireHold now id) := by
  unfold expireHold
  apply EStateM.Agree.get_bind
  intro s t h
  rw [h.sequence]
  refine (EStateM.Agree.ofExcept .rfl).bind fun sequence _ hsequence => hsequence ▸ ?_
  refine (EStateM.Agree.ofExcept (h.promise_agree id)).bind fun p q hpq => ?_
  refine (EStateM.Agree.ofExcept (hpq.expire now sequence)).bind fun expired expired' hexpired => ?_
  refine (EStateM.Agree.ofExcept (h.restoredTimelines_agree hexpired.bundle)).bind
    fun m n hmn => ?_
  exact .set (h.withPromise hexpired id (h.slackTimelines.extend hmn) sequence now .holdExpired)

/-- Several holds expire alike. -/
theorem exchanged_expireHolds (now : Timestamp) (count : Nat) (due : List (Timestamp ×ₗ PromiseId)) :
    Exchanged Eq (expireHolds now count due) (expireHolds now count due) := by
  induction due generalizing count with
  | nil => exact .pure rfl
  | cons first rest ih => exact (exchanged_expireHold now _).bind fun _ _ _ => ih (count + 1)

/-- Expirations are processed alike. -/
theorem exchanged_processExpirations (now : Timestamp) :
    Exchanged Eq (processExpirations now) (processExpirations now) := by
  apply EStateM.Agree.get_bind
  intro s t h
  rw [h.dueHolds_eq]
  exact exchanged_expireHolds now 0 _

/-- An operation that goes on after the expirations. -/
theorem exchanged_afterExpirations {α : Type} (now : Timestamp) {f g : EngineState → EngineM α}
    (h : ∀ s t, s.Interchangeable t → Exchanged Eq (f s) (g t)) :
    Exchanged Eq (do let _ ← processExpirations now; let s ← get; f s)
      (do let _ ← processExpirations now; let s ← get; g s) :=
  (exchanged_processExpirations now).bind fun _ _ _ => .get_bind h

/-- A pool is created alike. -/
theorem exchanged_createResourcePoolAt (poolId : ResourcePoolId) (displayName : String)
    (unit : ResourceUnit) (capacityCurve : CapacityCurve) (now : Timestamp) :
    Exchanged Eq (createResourcePoolAt poolId displayName unit capacityCurve now)
      (createResourcePoolAt poolId displayName unit capacityCurve now) := by
  apply exchanged_afterExpirations
  intro s t h
  rw [h.resourcePools, h.sequence]
  apply EStateM.Agree.ite (.throw _)
  refine (EStateM.Agree.ofExcept (fromCapacityAndClaims_agree capacityCurve (.refl []))).bind
    fun tl tl' htl => ?_
  refine (EStateM.Agree.ofExcept .rfl).bind fun sequence _ hsequence => hsequence ▸ ?_
  refine (EStateM.Agree.set (h.withPool poolId _ htl sequence now .resourceCreated [])).bind
    fun _ _ _ => ?_
  exact .pure rfl

/-- Capacity is revised alike. -/
theorem exchanged_reviseCapacityAt (poolId : ResourcePoolId) (capacityCurve : CapacityCurve)
    (mode : CapacityRevisionMode) (now : Timestamp) :
    Exchanged Eq (reviseCapacityAt poolId capacityCurve mode now)
      (reviseCapacityAt poolId capacityCurve mode now) := by
  apply exchanged_afterExpirations
  intro s t h
  rw [h.resourcePools, h.sequence]
  refine (EStateM.Agree.ofExcept .rfl).bind fun pool _ hpool => hpool ▸ ?_
  refine (EStateM.Agree.ofExcept (.elim (h.slackTimelines poolId))).bind fun tl tl' htl => ?_
  rw [← h.capacityDeficits_eq htl]
  refine (EStateM.Agree.ofExcept .rfl).bind fun previous _ hprevious => hprevious ▸ ?_
  refine (EStateM.Agree.ofExcept (h.fromCapacityAndPromises_agree capacityCurve poolId)).bind
    fun new new' hnew => ?_
  rw [← h.capacityDeficits_eq hnew]
  refine (EStateM.Agree.ofExcept .rfl).bind fun deficits _ hdeficits => hdeficits ▸ ?_
  apply EStateM.Agree.ite (.throw _)
  refine (EStateM.Agree.ofExcept .rfl).bind fun sequence _ hsequence => hsequence ▸ ?_
  refine (EStateM.Agree.set (h.withPool poolId _ hnew sequence now .capacityRevised _)).bind
    fun _ _ _ => ?_
  exact .pure rfl

/-- A hold is accepted alike, whatever the order of its claims. -/
theorem exchanged_acceptHold (promiseId : PromiseId) {bundle bundle' : Bundle}
    (hbundle : bundle.Reorders bundle') (expiresAt now : Timestamp)
    {m n : OrderedMap ResourcePoolId SlackTimeline} (hmn : SameTimelines m n) :
    Exchanged (fun _ _ => True) (acceptHold promiseId bundle expiresAt now m)
      (acceptHold promiseId bundle' expiresAt now n) := by
  apply EStateM.Agree.get_bind
  intro s t h
  rw [h.sequence]
  refine (EStateM.Agree.ofExcept .rfl).bind fun sequence _ hsequence => hsequence ▸ ?_
  refine (EStateM.Agree.ofExcept
    (Promise.Reorders.withId promiseId hbundle expiresAt now sequence)).bind fun p q hpq => ?_
  exact .set (h.withPromise hpq promiseId (h.slackTimelines.extend hmn) sequence now .holdCreated)

/-- A bundle is held alike, whatever the order of its claims. -/
theorem exchanged_holdWithIdAt (promiseId : PromiseId) {bundle bundle' : Bundle}
    (hbundle : bundle.Reorders bundle') (expiresAt now : Timestamp) :
    Exchanged Eq (holdWithIdAt promiseId bundle expiresAt now)
      (holdWithIdAt promiseId bundle' expiresAt now) := by
  apply exchanged_afterExpirations
  intro s t h
  rw [h.promises.contains_eq]
  apply EStateM.Agree.ite (.throw _)
  apply EStateM.Agree.ite (.throw _)
  refine (EStateM.Agree.ofExcept (h.evaluateBundleAdmission_agree hbundle)).bind fun x y hxy => ?_
  cases hxy with
  | unavailable conflicts => exact .pure rfl
  | available hmn => exact (exchanged_acceptHold _ hbundle _ _ hmn).bind fun _ _ _ => .pure rfl

/-- Alternatives are tried alike, whatever the order of their claims. -/
theorem exchanged_holdAlternatives (promiseId : PromiseId) (expiresAt now : Timestamp) (index : Nat)
    (conflicts : List ChoiceConflict) {alternatives alternatives' : List Bundle}
    (halternatives : List.Forall₂ Bundle.Reorders alternatives alternatives') :
    Exchanged Eq (holdAlternatives promiseId expiresAt now index conflicts alternatives)
      (holdAlternatives promiseId expiresAt now index conflicts alternatives') := by
  induction halternatives generalizing index conflicts with
  | nil => exact .pure rfl
  | cons hbundle _ ih =>
    apply EStateM.Agree.get_bind
    intro s t h
    refine (EStateM.Agree.ofExcept (h.evaluateBundleAdmission_agree hbundle)).bind
      fun x y hxy => ?_
    cases hxy with
    | available hmn => exact (exchanged_acceptHold _ hbundle _ _ hmn).bind fun _ _ _ => .pure rfl
    | unavailable conflicts => exact ih _ _

/-- One of several bundles is held alike, whatever the order of their claims. -/
theorem exchanged_holdChoiceAt (promiseId : PromiseId) {choice choice' : Choice}
    (hchoice : choice.Reorders choice') (expiresAt now : Timestamp) :
    Exchanged Eq (holdChoiceAt promiseId choice expiresAt now)
      (holdChoiceAt promiseId choice' expiresAt now) := by
  apply exchanged_afterExpirations
  intro s t h
  rw [h.promises.contains_eq]
  apply EStateM.Agree.ite (.throw _)
  apply EStateM.Agree.ite (.throw _)
  exact exchanged_holdAlternatives _ _ _ _ _ hchoice

/-- The first slot is held alike, whatever the order of its claims. -/
theorem exchanged_holdSlotAt (promiseId : PromiseId) {relativeBundle relativeBundle' : RelativeBundle}
    (hbundle : relativeBundle.Reorders relativeBundle') (range : SlotRange)
    (expiresAt now : Timestamp) :
    Exchanged Eq (holdSlotAt promiseId relativeBundle range expiresAt now)
      (holdSlotAt promiseId relativeBundle' range expiresAt now) := by
  apply exchanged_afterExpirations
  intro s t h
  rw [h.promises.contains_eq]
  apply EStateM.Agree.ite (.throw _)
  apply EStateM.Agree.ite (.throw _)
  refine (EStateM.Agree.ofExcept (h.searchSlots_agree hbundle range)).bind fun x y hxy => ?_
  cases hxy with
  | unavailable attempts => exact .pure rfl
  | found start hslot hmn =>
    exact (exchanged_acceptHold _ hslot _ _ hmn).bind fun _ _ _ => .pure rfl

/-- A promise is committed alike. -/
theorem exchanged_commitAt (promiseId : PromiseId) (expectedVersion : Version) (now : Timestamp) :
    Exchanged Eq (commitAt promiseId expectedVersion now)
      (commitAt promiseId expectedVersion now) := by
  apply exchanged_afterExpirations
  intro s t h
  rw [h.sequence]
  refine (EStateM.Agree.ofExcept .rfl).bind fun sequence _ hsequence => hsequence ▸ ?_
  refine (EStateM.Agree.ofExcept (h.promise_agree promiseId)).bind fun p q hpq => ?_
  rw [hpq.state_eq]
  apply EStateM.Agree.ite (.throw _)
  refine (EStateM.Agree.ofExcept (hpq.commit expectedVersion now sequence)).bind ?_
  rintro ⟨version, committed⟩ ⟨-, committed'⟩ ⟨rfl, hcommitted⟩
  refine (EStateM.Agree.set (h.withPromise hcommitted promiseId h.slackTimelines sequence now
    .holdCommitted)).bind fun _ _ _ => ?_
  exact .pure rfl

/-- A promise is released alike. -/
theorem exchanged_releaseAt (promiseId : PromiseId) (expectedVersion : Version) (now : Timestamp) :
    Exchanged Eq (releaseAt promiseId expectedVersion now)
      (releaseAt promiseId expectedVersion now) := by
  apply exchanged_afterExpirations
  intro s t h
  rw [h.sequence]
  refine (EStateM.Agree.ofExcept .rfl).bind fun sequence _ hsequence => hsequence ▸ ?_
  refine (EStateM.Agree.ofExcept (h.promise_agree promiseId)).bind fun p q hpq => ?_
  rw [hpq.state_eq]
  apply EStateM.Agree.ite (.throw _)
  refine (EStateM.Agree.ofExcept (hpq.release expectedVersion now sequence)).bind ?_
  rintro ⟨version, released⟩ ⟨-, released'⟩ ⟨rfl, hreleased⟩
  refine (EStateM.Agree.ofExcept (h.restoredTimelines_agree hreleased.bundle)).bind
    fun m n hmn => ?_
  refine (EStateM.Agree.set (h.withPromise hreleased promiseId (h.slackTimelines.extend hmn)
    sequence now .promiseReleased)).bind fun _ _ _ => ?_
  exact .pure rfl

/-- A promise is replaced alike, whatever the order of the new claims. -/
theorem exchanged_replaceAt (promiseId : PromiseId) (expectedVersion : Version)
    {newBundle newBundle' : Bundle} (hnew : newBundle.Reorders newBundle')
    (newState : ReplacementState) (now : Timestamp) :
    Exchanged Eq (replaceAt promiseId expectedVersion newBundle newState now)
      (replaceAt promiseId expectedVersion newBundle' newState now) := by
  apply exchanged_afterExpirations
  intro s t h
  rw [h.sequence]
  refine (EStateM.Agree.ofExcept (h.promise_agree promiseId)).bind fun p q hpq => ?_
  rw [hpq.state_eq]
  apply EStateM.Agree.ite (.throw _)
  refine (EStateM.Agree.ofExcept .rfl).bind fun sequence _ hsequence => hsequence ▸ ?_
  refine (EStateM.Agree.ofExcept (hpq.replace expectedVersion hnew newState now sequence)).bind ?_
  rintro ⟨version, replaced⟩ ⟨-, replaced'⟩ ⟨rfl, hreplaced⟩
  refine (EStateM.Agree.ofExcept (h.restoredTimelines_agree hpq.bundle)).bind fun m n hmn => ?_
  refine (EStateM.Agree.ofExcept (h.evaluateBundleWithOverrides_agree hmn hnew)).bind
    fun x y hxy => ?_
  cases hxy with
  | unavailable conflicts => exact .pure rfl
  | available hadjusted =>
    refine (EStateM.Agree.set (h.withPromise hreplaced promiseId
      (h.slackTimelines.extend (hmn.extend hadjusted)) sequence now .promiseReplaced)).bind
      fun _ _ _ => ?_
    exact .pure rfl

/-- Operations with reordered claims give the same answer on interchangeable states, and lead to
such states. -/
theorem exchanged_applyOnce {o o' : CommandOperation} (h : o.Reorders o') (now : Timestamp) :
    Exchanged Eq (applyOnce o now) (applyOnce o' now) := by
  cases h with
  | refl =>
    cases o with
    | createResourcePool resourcePoolId displayName unit capacityCurve =>
      exact (exchanged_createResourcePoolAt _ _ _ _ _).bind fun _ _ _ => .pure rfl
    | reviseCapacity resourcePoolId capacityCurve mode =>
      exact (exchanged_reviseCapacityAt _ _ _ _).bind fun _ _ h => .pure (h ▸ rfl)
    | hold promiseId bundle expiresAt =>
      exact (exchanged_holdWithIdAt _ (.refl _) _ _).bind fun _ _ h => .pure (h ▸ rfl)
    | holdOneOf promiseId choice expiresAt =>
      exact (exchanged_holdChoiceAt _ (.refl _) _ _).bind fun _ _ h => .pure (h ▸ rfl)
    | holdFirstSlot promiseId relativeBundle earliestStart latestStart step expiresAt =>
      exact (exchanged_holdSlotAt _ (.refl _) _ _ _).bind fun _ _ h => .pure (h ▸ rfl)
    | commit promiseId expectedVersion =>
      exact (exchanged_commitAt _ _ _).bind fun _ _ h => .pure (h ▸ rfl)
    | release promiseId expectedVersion =>
      exact (exchanged_releaseAt _ _ _).bind fun _ _ h => .pure (h ▸ rfl)
    | replace promiseId expectedVersion newBundle newState =>
      exact (exchanged_replaceAt _ _ (.refl _) _ _).bind fun _ _ h => .pure (h ▸ rfl)
    | processExpirations =>
      exact (exchanged_processExpirations _).bind fun _ _ h => .pure (h ▸ rfl)
  | hold bundles =>
    exact (exchanged_holdWithIdAt _ bundles _ _).bind fun _ _ h => .pure (h ▸ rfl)
  | holdOneOf choices =>
    exact (exchanged_holdChoiceAt _ choices _ _).bind fun _ _ h => .pure (h ▸ rfl)
  | holdFirstSlot bundles =>
    exact (exchanged_holdSlotAt _ bundles _ _ _).bind fun _ _ h => .pure (h ▸ rfl)
  | replace bundles =>
    exact (exchanged_replaceAt _ _ bundles _ _).bind fun _ _ h => .pure (h ▸ rfl)

/-- A state whose timelines can be read is interchangeable with itself. -/
theorem Interchangeable.rfl {s : EngineState} (h : s.TimelinesWellFormed) : s.Interchangeable s where
  resourcePools := Eq.refl _
  slackTimelines id := by
    cases htl : s.slackTimelines[id]? with
    | none => exact .none
    | some tl => exact .some (h id tl htl).same
  promises id := by
    cases s.promises[id]? with
    | none => exact .none
    | some p => exact .some .rfl
  events := Eq.refl _
  idempotencyRecords := Eq.refl _
  sequence := Eq.refl _

/-- On interchangeable states every pool has the same slack at every timestamp. -/
theorem Interchangeable.slackAt {s t : EngineState} (h : s.Interchangeable t) (id : ResourcePoolId) :
    Option.Rel (fun tl tl' => ∀ time, tl.slackAt time = tl'.slackAt time)
      s.slackTimelines[id]? t.slackTimelines[id]? := by
  have hid := h.slackTimelines id
  cases hl : s.slackTimelines[id]? with
  | none =>
    rw [hl] at hid
    cases hr : t.slackTimelines[id]? with
    | none => exact .none
    | some tl' =>
      rw [hr] at hid
      cases hid
  | some tl =>
    rw [hl] at hid
    cases hr : t.slackTimelines[id]? with
    | none =>
      rw [hr] at hid
      cases hid
    | some tl' =>
      rw [hr] at hid
      cases hid with
      | some htl => exact .some htl.slackAt_eq

end EngineState

/-! ## Commands -/

/-- The commands have the same identity, and operations up to the order of claims. -/
structure Command.Reorders (c c' : Command) : Prop where
  clientId : c'.clientId = c.clientId
  idempotencyKey : c'.idempotencyKey = c.idempotencyKey
  operation : c.operation.Reorders c'.operation

/-- Reordering the claims of a command does not change its identity. -/
theorem Command.Reorders.identity_eq {c c' : Command} (h : c.Reorders c') :
    c'.identity = c.identity := by
  rw [Command.identity, Command.identity, h.clientId, h.idempotencyKey]

namespace Engine

variable {blake3 : List UInt8 → CommandHash}

/-- Reordered operations have the same hash. -/
theorem hashOperation_reorders {o o' : CommandOperation} (h : o.Reorders o') :
    hashOperation blake3 o' = hashOperation blake3 o := by
  rw [hashOperation, hashOperation, canonicalOperation_reorders h]

/-- Engines that differ in the order of claims and in timelines for the same slack at most. -/
structure Interchangeable (e f : Engine) : Prop where
  state : e.state.Interchangeable f.state
  publicationRevision : f.publicationRevision = e.publicationRevision

/-- Executing reordered commands gives the same response. -/
theorem executeOnce_interchangeable {s t : EngineState} (h : s.Interchangeable t) {c c' : Command}
    (hc : c.Reorders c') (now : Timestamp) :
    (executeOnce blake3 s c now).1 = (executeOnce blake3 t c' now).1 ∧
      (executeOnce blake3 s c now).2.Interchangeable (executeOnce blake3 t c' now).2 := by
  have hrun := EngineState.exchanged_applyOnce hc.operation now s t h
  have hrecord {s' t' : EngineState} (hst : s'.Interchangeable t') (response : CommandResponse) :
      EngineState.Interchangeable
        { s' with
          idempotencyRecords := s'.idempotencyRecords.insert c.identity
            ⟨hashOperation blake3 c.operation, response⟩ }
        { t' with
          idempotencyRecords := t'.idempotencyRecords.insert c'.identity
            ⟨hashOperation blake3 c'.operation, response⟩ } := by
    refine ⟨hst.resourcePools, hst.slackTimelines, hst.promises, hst.events, ?_, hst.sequence⟩
    dsimp only
    rw [hst.idempotencyRecords, hc.identity_eq, hashOperation_reorders hc.operation]
  unfold executeOnce
  cases hs : EngineState.applyOnce c.operation now s with
  | ok result s' =>
    cases ht : EngineState.applyOnce c'.operation now t with
    | ok result' t' =>
      rw [hs, ht] at hrun
      cases hrun with
      | ok hresult hst =>
        obtain rfl := hresult
        exact ⟨rfl, hrecord hst _⟩
    | error e t' =>
      rw [hs, ht] at hrun
      cases hrun
  | error e s' =>
    cases ht : EngineState.applyOnce c'.operation now t with
    | ok result' t' =>
      rw [hs, ht] at hrun
      cases hrun
    | error e' t' =>
      rw [hs, ht] at hrun
      cases hrun with
      | error e hst => exact ⟨rfl, hrecord hst _⟩

/-- Applying reordered commands gives the same response. -/
theorem apply_interchangeable {e f : Engine} (h : e.Interchangeable f) {c c' : Command}
    (hc : c.Reorders c') (now : Timestamp) :
    (apply blake3 e c now).1 = (apply blake3 f c' now).1 ∧
      (apply blake3 e c now).2.Interchangeable (apply blake3 f c' now).2 := by
  have hnext : f.nextRevision = e.nextRevision := by
    rw [nextRevision, nextRevision, h.publicationRevision]
  unfold apply
  rw [h.state.idempotencyRecords, hnext, hc.identity_eq, hashOperation_reorders hc.operation]
  cases e.state.idempotencyRecords[c.identity]? with
  | some record => exact ⟨rfl, h⟩
  | none =>
    cases e.nextRevision with
    | none => exact ⟨rfl, h⟩
    | some next =>
      obtain ⟨hresponse, hstate⟩ := @executeOnce_interchangeable blake3 _ _ h.state _ _ hc now
      exact ⟨hresponse, hstate, rfl⟩

/-- Runs of reordered commands at the same times. -/
abbrev ReorderedRuns (commands commands' : List (Command × Timestamp)) : Prop :=
  List.Forall₂ (fun a b => a.1.Reorders b.1 ∧ a.2 = b.2) commands commands'

/-- Runs of reordered commands give the same responses. -/
theorem applyAll_interchangeable {e f : Engine} (h : e.Interchangeable f)
    {commands commands' : List (Command × Timestamp)} (hc : ReorderedRuns commands commands') :
    (applyAll blake3 e commands).1 = (applyAll blake3 f commands').1 ∧
      (applyAll blake3 e commands).2.Interchangeable (applyAll blake3 f commands').2 := by
  induction hc generalizing e f with
  | nil => exact ⟨rfl, h⟩
  | @cons a b l r hab _ ih =>
    obtain ⟨command, now⟩ := a
    obtain ⟨command', now'⟩ := b
    obtain ⟨hcommand, rfl⟩ := hab
    obtain ⟨hresponse, hsame⟩ := @apply_interchangeable blake3 e f h _ _ hcommand now
    obtain ⟨hresponses, hfinal⟩ := ih hsame
    exact ⟨congrArg₂ List.cons hresponse hresponses, hfinal⟩

/-- Operations that differ in the order of claims only are interchangeable on every reachable state:
they give the same response or the same error, and the states that they lead to have the same pools,
events and sequence, the same slack at every timestamp, and promises that are the same up to the order
of claims.  Whatever commands follow, again up to the order of claims, they get the same
responses. -/
theorem reordered_claims_interchangeable {e : Engine} (h : Reachable blake3 e)
    {o o' : CommandOperation} (ho : o.Reorders o') (now : Timestamp) :
    EStateM.Result.Agree (fun s t : EngineState => s.Interchangeable t ∧ ∀ id : ResourcePoolId,
          Option.Rel (fun tl tl' => ∀ time, tl.slackAt time = tl'.slackAt time)
            s.slackTimelines[id]? t.slackTimelines[id]?)
        Eq (EngineState.applyOnce o now e.state) (EngineState.applyOnce o' now e.state) ∧
      ∀ commands commands', ReorderedRuns commands commands' →
        (applyAll blake3 e commands).1 = (applyAll blake3 e commands').1 ∧
          (applyAll blake3 e commands).2.Interchangeable (applyAll blake3 e commands').2 := by
  have hself : e.state.Interchangeable e.state := .rfl h.indexExact.wellFormed
  refine ⟨?_, fun commands commands' => applyAll_interchangeable ⟨hself, rfl⟩⟩
  have hrun := EngineState.exchanged_applyOnce ho now _ _ hself
  exact hrun.imp fun s t hst => ⟨hst, hst.slackAt⟩

/-- Two overlapping claims are held in either order. -/
theorem reordered_claims_interchangeable_sample :
    ∃ s t : EngineState,
      EngineState.applyOnce (sampleHoldBoth sampleShort sampleLong) (sampleTime 2)
        sampleEngine.state = .ok (.holdCompleted (.held sampleSecondId)) s ∧
      EngineState.applyOnce (sampleHoldBoth sampleLong sampleShort) (sampleTime 2)
        sampleEngine.state = .ok (.holdCompleted (.held sampleSecondId)) t ∧
      s.Interchangeable t := by
  have hresult : EStateM.run' (EngineState.applyOnce (sampleHoldBoth sampleShort sampleLong)
      (sampleTime 2)) sampleEngine.state = some (.holdCompleted (.held sampleSecondId)) := by
    decide +kernel
  have hreorders : (sampleHoldBoth sampleShort sampleLong).Reorders
      (sampleHoldBoth sampleLong sampleShort) :=
    .hold List.perm_append_comm
  have hagree :=
    (reordered_claims_interchangeable sampleEngine_reachable hreorders (sampleTime 2)).1
  generalize sampleEngine.state = start at hresult hagree ⊢
  unfold EStateM.run' EStateM.run at hresult
  cases hs : EngineState.applyOnce (sampleHoldBoth sampleShort sampleLong) (sampleTime 2) start with
  | error error s =>
    rw [hs] at hresult
    cases hresult
  | ok result s =>
    rw [hs] at hresult hagree
    obtain rfl := Option.some.inj hresult
    generalize EngineState.applyOnce (sampleHoldBoth sampleLong sampleShort) (sampleTime 2) start =
      other at hagree
    cases hagree with
    | @ok _ result' _ t hsame hst => exact ⟨s, t, rfl, hsame ▸ rfl, hst.1⟩

end Engine

end PromiseDb
