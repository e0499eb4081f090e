import PromiseDb.Engine.Operations
import Mathlib.Logic.Relation

/-!
# What one operation can do to the state

Every operation of the engine processes some expirations and then makes at most one further
transition.  The transitions are listed here with everything the code has checked when it makes
them; the case theorem for operations is the only place where the code of the operations is
taken apart, and every invariant is derived from it.
-/

namespace PromiseDb

/-- The index gave a result. -/
theorem indexResult_eq_ok {α : Type} {x : Except IndexError α} {a : α} :
    indexResult x = .ok a ↔ x = .ok a := by
  cases x <;> simp [indexResult]

namespace EngineState

/-- The change that a transition makes. -/
inductive Change
  | expire (promiseId : PromiseId)
  | createPool (poolId : ResourcePoolId)
  | revise (outcome : CapacityRevisionOutcome)
  | hold (promiseId : PromiseId)
  | commit (promiseId : PromiseId) (expected new : Version)
  | release (promiseId : PromiseId) (expected new : Version)
  | replace (promiseId : PromiseId) (expected new : Version)

/-- One transition of the state. -/
inductive Transition (now : Timestamp) : Change → EngineState → EngineState → Prop
  | expire {s : EngineState} {id : PromiseId} {p p' : Promise} {seq : SequenceNumber}
      {timelines : OrderedMap ResourcePoolId SlackTimeline}
      (promise : s.promises[id]? = some p) (next : s.sequence.next = .ok seq)
      (expired : p.expire now seq = .ok p')
      (restored : s.restoredTimelines p'.bundle = .ok timelines) :
      Transition now (.expire id) s
        (s.withPromise id p' (OrderedMap.extend s.slackTimelines timelines) seq now .holdExpired)
  | createPool {s : EngineState} {pool : ResourcePool} {seq : SequenceNumber} {tl : SlackTimeline}
      (absent : pool.id ∉ s.resourcePools) (next : s.sequence.next = .ok seq)
      (built : SlackTimeline.fromCapacityCurve pool.capacityCurve = .ok tl) :
      Transition now (.createPool pool.id) s (s.withPool pool.id pool tl seq now .resourceCreated [])
  | revise {s : EngineState} {id : ResourcePoolId} {pool : ResourcePool} {curve : CapacityCurve}
      {current tl : SlackTimeline} {seq : SequenceNumber} {previous deficits : List CapacityDeficit}
      (present : s.resourcePools[id]? = some pool) (next : s.sequence.next = .ok seq)
      (indexed : s.slackTimelines[id]? = some current)
      (before : s.capacityDeficits id current = .ok previous)
      (rebuilt : SlackTimeline.fromCapacityAndPromises curve id (OrderedMap.vals s.promises) =
        .ok tl)
      (after : s.capacityDeficits id tl = .ok deficits) :
      Transition now (.revise ⟨seq, deficits, affectedPromises deficits⟩) s
        (s.withPool id { pool with capacityCurve := curve } tl seq now .capacityRevised
          (resolvedEvents seq now previous deficits ++ changedEvents seq now previous deficits))
  | hold {s : EngineState} {id : PromiseId} {bundle : Bundle} {expiresAt : Timestamp} {p : Promise}
      {seq : SequenceNumber} {timelines : OrderedMap ResourcePoolId SlackTimeline}
      (absent : id ∉ s.promises) (next : s.sequence.next = .ok seq)
      (created : Promise.withId id bundle expiresAt now seq = .ok p)
      (admitted : s.evaluateBundleAdmission bundle = .ok (.available timelines)) :
      Transition now (.hold id) s
        (s.withPromise id p (OrderedMap.extend s.slackTimelines timelines) seq now .holdCreated)
  | commit {s : EngineState} {id : PromiseId} {expected new : Version} {p p' : Promise}
      {seq : SequenceNumber}
      (promise : s.promises[id]? = some p) (next : s.sequence.next = .ok seq)
      (committed : p.commit expected now seq = .ok (new, p')) :
      Transition now (.commit id expected new) s
        (s.withPromise id p' s.slackTimelines seq now .holdCommitted)
  | release {s : EngineState} {id : PromiseId} {expected new : Version} {p p' : Promise}
      {seq : SequenceNumber} {timelines : OrderedMap ResourcePoolId SlackTimeline}
      (promise : s.promises[id]? = some p) (next : s.sequence.next = .ok seq)
      (released : p.release expected now seq = .ok (new, p'))
      (restored : s.restoredTimelines p'.bundle = .ok timelines) :
      Transition now (.release id expected new) s
        (s.withPromise id p' (OrderedMap.extend s.slackTimelines timelines) seq now
          .promiseReleased)
  | replace {s : EngineState} {id : PromiseId} {expected new : Version} {bundle : Bundle}
      {live : ReplacementState} {p p' : Promise} {seq : SequenceNumber}
      {restored adjusted : OrderedMap ResourcePoolId SlackTimeline}
      (promise : s.promises[id]? = some p) (next : s.sequence.next = .ok seq)
      (replaced : p.replace expected bundle live now seq = .ok (new, p'))
      (givenBack : s.restoredTimelines p.bundle = .ok restored)
      (admitted : s.evaluateBundleWithOverrides bundle restored = .ok (.available adjusted)) :
      Transition now (.replace id expected new) s
        (s.withPromise id p'
          (OrderedMap.extend s.slackTimelines (OrderedMap.extend restored adjusted)) seq now
          .promiseReplaced)

/-- One expiration. -/
def Expires (now : Timestamp) (s s' : EngineState) : Prop :=
  ∃ id, Transition now (.expire id) s s'

/-- Some expirations, one after another. -/
abbrev Expirations (now : Timestamp) : EngineState → EngineState → Prop :=
  Relation.ReflTransGen (Expires now)

/-- A result of an operation that is given without a further transition. -/
inductive Declined (now : Timestamp) (s : EngineState) : CommandOperation → CommandResult → Prop
  | hold {id : PromiseId} {bundle : Bundle} {expiresAt : Timestamp}
      {conflicts : List AvailabilityConflict}
      (refused : s.evaluateBundleAdmission bundle = .ok (.unavailable conflicts)) :
      Declined now s (.hold id bundle expiresAt) (.holdCompleted (.unavailable conflicts))
  | holdOneOf {id : PromiseId} {choice : Choice} {expiresAt : Timestamp}
      {conflicts : List ChoiceConflict}
      (refused : List.Forall₂ (fun bundle (conflict : ChoiceConflict) =>
        s.evaluateBundleAdmission bundle = .ok (.unavailable conflict.conflicts))
        choice.alternatives conflicts)
      (positions : conflicts.map (·.alternativeIndex) = List.range conflicts.length) :
      Declined now s (.holdOneOf id choice expiresAt) (.choiceCompleted (.unavailable conflicts))
  | holdFirstSlot {id : PromiseId} {bundle : RelativeBundle} {range : SlotRange}
      {expiresAt : Timestamp} {attempts : Nat}
      (exhausted : s.searchSlots bundle range = .ok (.unavailable attempts)) :
      Declined now s
        (.holdFirstSlot id bundle range.earliest range.latest range.step expiresAt)
        (.slotCompleted (.unavailable attempts))
  | replace {id : PromiseId} {expected new : Version} {bundle : Bundle} {live : ReplacementState}
      {p p' : Promise} {seq : SequenceNumber}
      {restored : OrderedMap ResourcePoolId SlackTimeline} {conflicts : List AvailabilityConflict}
      (promise : s.promises[id]? = some p) (next : s.sequence.next = .ok seq)
      (replaced : p.replace expected bundle live now seq = .ok (new, p'))
      (givenBack : s.restoredTimelines p.bundle = .ok restored)
      (refused : s.evaluateBundleWithOverrides bundle restored = .ok (.unavailable conflicts)) :
      Declined now s (.replace id expected bundle live)
        (.promiseReplaced (.unavailable (conflicts.map fun conflict =>
          { conflict with conflictingPromiseIds :=
              conflict.conflictingPromiseIds.filter fun other => decide (other ≠ id) })))
  | processExpirations {count : Nat} :
      Declined now s .processExpirations (.expirationsProcessed count)

/-- The result of an operation that made a change. -/
inductive Answers : CommandOperation → Change → CommandResult → Prop
  | createResourcePool {id : ResourcePoolId} {name : String} {unit : ResourceUnit}
      {curve : CapacityCurve} :
      Answers (.createResourcePool id name unit curve) (.createPool id) (.resourcePoolCreated id)
  | reviseCapacity {id : ResourcePoolId} {curve : CapacityCurve} {mode : CapacityRevisionMode}
      {outcome : CapacityRevisionOutcome} (strict : mode = .strict → outcome.deficits = []) :
      Answers (.reviseCapacity id curve mode) (.revise outcome) (.capacityRevised outcome)
  | hold {id : PromiseId} {bundle : Bundle} {expiresAt : Timestamp} :
      Answers (.hold id bundle expiresAt) (.hold id) (.holdCompleted (.held id))
  | holdOneOf {id : PromiseId} {choice : Choice} {expiresAt : Timestamp} {index : Nat}
      (lt : index < choice.alternatives.length) :
      Answers (.holdOneOf id choice expiresAt) (.hold id) (.choiceCompleted (.held id index))
  | holdFirstSlot {id : PromiseId} {bundle : RelativeBundle} {earliest latest : Timestamp}
      {step : I64} {expiresAt start : Timestamp} :
      Answers (.holdFirstSlot id bundle earliest latest step expiresAt) (.hold id)
        (.slotCompleted (.held id start))
  | commit {id : PromiseId} {expected new : Version} :
      Answers (.commit id expected) (.commit id expected new) (.promiseCommitted id new)
  | release {id : PromiseId} {expected new : Version} :
      Answers (.release id expected) (.release id expected new) (.promiseReleased id new)
  | replace {id : PromiseId} {expected new : Version} {bundle : Bundle} {live : ReplacementState} :
      Answers (.replace id expected bundle live) (.replace id expected new)
        (.promiseReplaced (.replaced id new))

/-- What is left to say about an operation once the expirations before it are done. -/
inductive Completes (now : Timestamp) (operation : CommandOperation) (s : EngineState) :
    EStateM.Result DomainError EngineState CommandResult → Prop
  | failed (error : DomainError) : Completes now operation s (.error error s)
  | declined {result : CommandResult} (h : Declined now s operation result) :
      Completes now operation s (.ok result s)
  | accepted {change : Change} {result : CommandResult} {s' : EngineState}
      (h : Transition now change s s') (answers : Answers operation change result) :
      Completes now operation s (.ok result s')

/-! ## Expirations -/

/-- Expiring one hold fails without effect or is one expiration. -/
theorem expireHold_cases {now : Timestamp} {id : PromiseId} {s : EngineState}
    {r : EStateM.Result DomainError EngineState Unit} (h : expireHold now id s = r) :
    (∃ e, r = .error e s) ∨ ∃ s', r = .ok () s' ∧ Transition now (.expire id) s s' := by
  unfold expireHold at h
  rw [EStateM.get_bind_apply] at h
  obtain ⟨e, -, rfl⟩ | ⟨seq, hseq, h⟩ := EStateM.ofExcept_bind_cases h
  · exact .inl ⟨e, rfl⟩
  obtain ⟨e, -, rfl⟩ | ⟨p, hp, h⟩ := EStateM.ofExcept_bind_cases h
  · exact .inl ⟨e, rfl⟩
  obtain ⟨e, -, rfl⟩ | ⟨p', hp', h⟩ := EStateM.ofExcept_bind_cases h
  · exact .inl ⟨e, rfl⟩
  obtain ⟨e, -, rfl⟩ | ⟨timelines, htl, h⟩ := EStateM.ofExcept_bind_cases h
  · exact .inl ⟨e, rfl⟩
  exact .inr ⟨_, h.symm, .expire (Except.elim_eq_ok.mp hp) hseq hp' htl⟩

/-- The expiration loop makes expirations, also when it stops in the middle. -/
theorem expireHolds_spec (now : Timestamp) (count : Nat) (due : List (Timestamp ×ₗ PromiseId))
    (s : EngineState) : Expirations now s (expireHolds now count due s).finalState := by
  induction due generalizing count s with
  | nil => exact .refl
  | cons hold rest ih =>
    rw [expireHolds]
    obtain ⟨e, he⟩ | ⟨s', hs', hstep⟩ := expireHold_cases (r := expireHold now (ofLex hold).2 s) rfl
    · rw [EStateM.bind_of_error he]
      exact .refl
    · rw [EStateM.bind_of_ok hs']
      exact .head ⟨_, hstep⟩ (ih (count + 1) s')

/-- Processing expirations leads through expirations only. -/
theorem processExpirations_spec (now : Timestamp) (s : EngineState) :
    Expirations now s (processExpirations now s).finalState :=
  expireHolds_spec now 0 (s.dueHolds now) s

/-- An operation that starts with the expirations fails in them or goes on after them. -/
theorem after_expirations {now : Timestamp} {α : Type} {f : EngineState → EngineM α}
    {s : EngineState} {r : EStateM.Result DomainError EngineState α}
    (h : (processExpirations now >>= fun _ => get >>= f) s = r) :
    ∃ s₁, (processExpirations now s).finalState = s₁ ∧ ((∃ e, r = .error e s₁) ∨ f s₁ s₁ = r) := by
  rcases hx : processExpirations now s with ⟨n, s₁⟩ | ⟨e, s₁⟩
  · rw [EStateM.bind_of_ok hx] at h
    exact ⟨s₁, rfl, .inr h⟩
  · rw [EStateM.bind_of_error hx] at h
    exact ⟨s₁, rfl, .inl ⟨e, h.symm⟩⟩

/-! ## The operations -/

/-- Creating a pool fails after the expirations, or adds the pool. -/
theorem createResourcePoolAt_cases {id : ResourcePoolId} {name : String} {unit : ResourceUnit}
    {curve : CapacityCurve} {now : Timestamp} {s : EngineState}
    {r : EStateM.Result DomainError EngineState ResourcePoolId}
    (h : createResourcePoolAt id name unit curve now s = r) :
    ∃ s₁, (processExpirations now s).finalState = s₁ ∧ ((∃ e, r = .error e s₁) ∨
      ∃ s', r = .ok id s' ∧ Transition now (.createPool id) s₁ s') := by
  unfold createResourcePoolAt at h
  obtain ⟨s₁, hs₁, ⟨e, rfl⟩ | h⟩ := after_expirations h
  · exact ⟨s₁, hs₁, .inl ⟨e, rfl⟩⟩
  refine ⟨s₁, hs₁, ?_⟩
  dsimp only at h
  split at h
  · exact .inl ⟨_, h.symm⟩
  rename_i hcontains
  obtain ⟨e, -, rfl⟩ | ⟨tl, htl, h⟩ := EStateM.ofExcept_bind_cases h
  · exact .inl ⟨e, rfl⟩
  obtain ⟨e, -, rfl⟩ | ⟨seq, hseq, h⟩ := EStateM.ofExcept_bind_cases h
  · exact .inl ⟨e, rfl⟩
  refine .inr ⟨_, h.symm, @Transition.createPool now s₁ ⟨id, name, unit, curve⟩ seq tl ?_ hseq ?_⟩
  · exact fun hmem => hcontains (OrderedMap.contains_iff.mpr hmem)
  · exact indexResult_eq_ok.mp htl

/-- A revision fails after the expirations, or changes the curve of its pool. -/
theorem reviseCapacityAt_cases {id : ResourcePoolId} {curve : CapacityCurve}
    {mode : CapacityRevisionMode} {now : Timestamp} {s : EngineState}
    {r : EStateM.Result DomainError EngineState CapacityRevisionOutcome}
    (h : reviseCapacityAt id curve mode now s = r) :
    ∃ s₁, (processExpirations now s).finalState = s₁ ∧ ((∃ e, r = .error e s₁) ∨
      ∃ outcome s', r = .ok outcome s' ∧ (mode = .strict → outcome.deficits = []) ∧
        Transition now (.revise outcome) s₁ s' ∧
        ∃ pool, s₁.resourcePools[id]? = some pool ∧
          s'.resourcePools = s₁.resourcePools.insert id { pool with capacityCurve := curve }) := by
  unfold reviseCapacityAt at h
  obtain ⟨s₁, hs₁, ⟨e, rfl⟩ | h⟩ := after_expirations h
  · exact ⟨s₁, hs₁, .inl ⟨e, rfl⟩⟩
  refine ⟨s₁, hs₁, ?_⟩
  obtain ⟨e, -, rfl⟩ | ⟨pool, hpool, h⟩ := EStateM.ofExcept_bind_cases h
  · exact .inl ⟨e, rfl⟩
  obtain ⟨e, -, rfl⟩ | ⟨current, hcurrent, h⟩ := EStateM.ofExcept_bind_cases h
  · exact .inl ⟨e, rfl⟩
  obtain ⟨e, -, rfl⟩ | ⟨previous, hprevious, h⟩ := EStateM.ofExcept_bind_cases h
  · exact .inl ⟨e, rfl⟩
  obtain ⟨e, -, rfl⟩ | ⟨tl, htl, h⟩ := EStateM.ofExcept_bind_cases h
  · exact .inl ⟨e, rfl⟩
  obtain ⟨e, -, rfl⟩ | ⟨deficits, hdeficits, h⟩ := EStateM.ofExcept_bind_cases h
  · exact .inl ⟨e, rfl⟩
  dsimp only at h
  split at h
  · exact .inl ⟨_, h.symm⟩
  rename_i hmode
  obtain ⟨e, -, rfl⟩ | ⟨seq, hseq, h⟩ := EStateM.ofExcept_bind_cases h
  · exact .inl ⟨e, rfl⟩
  refine .inr ⟨_, _, h.symm, ?_, .revise (Except.elim_eq_ok.mp hpool) hseq
    (Except.elim_eq_ok.mp hcurrent) hprevious (indexResult_eq_ok.mp htl) hdeficits,
    pool, Except.elim_eq_ok.mp hpool, rfl⟩
  intro hstrict
  by_contra hne
  exact hmode ⟨hstrict, hne⟩

/-- Publishing a hold fails without effect or is one transition. -/
theorem acceptHold_cases {id : PromiseId} {bundle : Bundle} {expiresAt now : Timestamp}
    {timelines : OrderedMap ResourcePoolId SlackTimeline} {s : EngineState}
    {r : EStateM.Result DomainError EngineState Unit} (habsent : id ∉ s.promises)
    (hadmitted : s.evaluateBundleAdmission bundle = .ok (.available timelines))
    (h : acceptHold id bundle expiresAt now timelines s = r) :
    (∃ e, r = .error e s) ∨ ∃ s', r = .ok () s' ∧ Transition now (.hold id) s s' := by
  unfold acceptHold at h
  rw [EStateM.get_bind_apply] at h
  obtain ⟨e, -, rfl⟩ | ⟨seq, hseq, h⟩ := EStateM.ofExcept_bind_cases h
  · exact .inl ⟨e, rfl⟩
  obtain ⟨e, -, rfl⟩ | ⟨p, hp, h⟩ := EStateM.ofExcept_bind_cases h
  · exact .inl ⟨e, rfl⟩
  exact .inr ⟨_, h.symm, .hold habsent hseq hp hadmitted⟩

/-- Publishing a hold and answering. -/
theorem acceptHold_then {α : Type} {id : PromiseId} {bundle : Bundle} {expiresAt now : Timestamp}
    {timelines : OrderedMap ResourcePoolId SlackTimeline} {s : EngineState} {answer : α}
    {r : EStateM.Result DomainError EngineState α} (habsent : id ∉ s.promises)
    (hadmitted : s.evaluateBundleAdmission bundle = .ok (.available timelines))
    (h : (acceptHold id bundle expiresAt now timelines >>= fun _ => pure answer) s = r) :
    (∃ e, r = .error e s) ∨ ∃ s', r = .ok answer s' ∧ Transition now (.hold id) s s' := by
  obtain ⟨e, he⟩ | ⟨s', hs', hstep⟩ := acceptHold_cases habsent hadmitted
    (r := acceptHold id bundle expiresAt now timelines s) rfl
  · rw [EStateM.bind_of_error he] at h
    exact .inl ⟨e, h.symm⟩
  · rw [EStateM.bind_of_ok hs'] at h
    exact .inr ⟨s', h.symm, hstep⟩

/-- The checks before every kind of hold: the identity is new and the deadline lies ahead. -/
theorem hold_checks {α : Type} {id : PromiseId} {expiresAt now : Timestamp} {s : EngineState}
    {f : EngineM α} {r : EStateM.Result DomainError EngineState α}
    (h : (do
      if s.promises.contains id then throw .promiseAlreadyExists
      if expiresAt ≤ now then throw .invalidExpiration
      f : EngineM α) s = r) :
    (∃ e, r = .error e s) ∨ (id ∉ s.promises ∧ f s = r) := by
  dsimp only at h
  split at h
  · exact .inl ⟨_, h.symm⟩
  rename_i hcontains
  split at h
  · exact .inl ⟨_, h.symm⟩
  exact .inr ⟨fun hmem => hcontains (OrderedMap.contains_iff.mpr hmem), h⟩

/-- A hold fails after the expirations, is declined, or adds its promise. -/
theorem holdWithIdAt_cases {id : PromiseId} {bundle : Bundle} {expiresAt now : Timestamp}
    {s : EngineState} {r : EStateM.Result DomainError EngineState HoldOutcome}
    (h : holdWithIdAt id bundle expiresAt now s = r) :
    ∃ s₁, (processExpirations now s).finalState = s₁ ∧ ((∃ e, r = .error e s₁) ∨
      (∃ conflicts, r = .ok (.unavailable conflicts) s₁ ∧
        s₁.evaluateBundleAdmission bundle = .ok (.unavailable conflicts)) ∨
      ∃ s', r = .ok (.held id) s' ∧ Transition now (.hold id) s₁ s') := by
  unfold holdWithIdAt at h
  obtain ⟨s₁, hs₁, ⟨e, rfl⟩ | h⟩ := after_expirations h
  · exact ⟨s₁, hs₁, .inl ⟨e, rfl⟩⟩
  refine ⟨s₁, hs₁, ?_⟩
  obtain ⟨e, rfl⟩ | ⟨habsent, h⟩ := hold_checks h
  · exact .inl ⟨e, rfl⟩
  obtain ⟨e, -, rfl⟩ | ⟨admission, hadm, h⟩ := EStateM.ofExcept_bind_cases h
  · exact .inl ⟨e, rfl⟩
  cases admission with
  | unavailable conflicts => exact .inr (.inl ⟨conflicts, h.symm, hadm⟩)
  | available timelines => exact (acceptHold_then habsent hadm h).imp_right .inr

/-- The loop over the alternatives fails without effect, refuses every alternative in order, or
holds the first feasible one. -/
theorem holdAlternatives_cases {id : PromiseId} {expiresAt now : Timestamp} {s : EngineState}
    (habsent : id ∉ s.promises) {index : Nat} {before : List ChoiceConflict}
    {bundles : List Bundle} {r : EStateM.Result DomainError EngineState ChoiceOutcome}
    (h : holdAlternatives id expiresAt now index before bundles s = r) :
    (∃ e, r = .error e s) ∨
      (∃ conflicts, r = .ok (.unavailable (before ++ conflicts)) s ∧
        List.Forall₂ (fun bundle (conflict : ChoiceConflict) =>
          s.evaluateBundleAdmission bundle = .ok (.unavailable conflict.conflicts))
          bundles conflicts ∧
        conflicts.map (·.alternativeIndex) = List.range' index conflicts.length) ∨
      ∃ chosen s', index ≤ chosen ∧ chosen < index + bundles.length ∧
        r = .ok (.held id chosen) s' ∧ Transition now (.hold id) s s' := by
  induction bundles generalizing index before r with
  | nil =>
    refine .inr (.inl ⟨[], ?_, .nil, rfl⟩)
    rw [List.append_nil]
    exact h.symm
  | cons bundle rest ih =>
    rw [holdAlternatives, EStateM.get_bind_apply] at h
    obtain ⟨e, -, rfl⟩ | ⟨admission, hadm, h⟩ := EStateM.ofExcept_bind_cases h
    · exact .inl ⟨e, rfl⟩
    cases admission with
    | available timelines =>
      obtain ⟨e, he⟩ | ⟨s', hs', hstep⟩ := acceptHold_then habsent hadm h
      · exact .inl ⟨e, he⟩
      · exact .inr (.inr ⟨index, s', le_rfl, by simp, hs', hstep⟩)
    | unavailable conflicts =>
      obtain he | ⟨later, rfl, hall, hpos⟩ | ⟨chosen, s', hle, hlt, rfl, hstep⟩ := ih h
      · exact .inl he
      · refine .inr (.inl ⟨⟨index, conflicts⟩ :: later, ?_, .cons hadm hall, ?_⟩)
        · rw [List.append_assoc, List.singleton_append]
        · rw [List.map_cons, hpos, List.length_cons, List.range'_succ]
      · refine .inr (.inr ⟨chosen, s', by omega, ?_, rfl, hstep⟩)
        rw [List.length_cons]
        omega

/-- A choice fails after the expirations, is declined, or adds its promise. -/
theorem holdChoiceAt_cases {id : PromiseId} {choice : Choice} {expiresAt now : Timestamp}
    {s : EngineState} {r : EStateM.Result DomainError EngineState ChoiceOutcome}
    (h : holdChoiceAt id choice expiresAt now s = r) :
    ∃ s₁, (processExpirations now s).finalState = s₁ ∧ ((∃ e, r = .error e s₁) ∨
      (∃ conflicts, r = .ok (.unavailable conflicts) s₁ ∧
        List.Forall₂ (fun bundle (conflict : ChoiceConflict) =>
          s₁.evaluateBundleAdmission bundle = .ok (.unavailable conflict.conflicts))
          choice.alternatives conflicts ∧
        conflicts.map (·.alternativeIndex) = List.range conflicts.length) ∨
      ∃ index s', index < choice.alternatives.length ∧ r = .ok (.held id index) s' ∧
        Transition now (.hold id) s₁ s') := by
  unfold holdChoiceAt at h
  obtain ⟨s₁, hs₁, ⟨e, rfl⟩ | h⟩ := after_expirations h
  · exact ⟨s₁, hs₁, .inl ⟨e, rfl⟩⟩
  refine ⟨s₁, hs₁, ?_⟩
  obtain ⟨e, rfl⟩ | ⟨habsent, h⟩ := hold_checks h
  · exact .inl ⟨e, rfl⟩
  obtain he | ⟨conflicts, rfl, hall, hpos⟩ | ⟨index, s', -, hlt, rfl, hstep⟩ :=
    holdAlternatives_cases habsent h
  · exact .inl he
  · refine .inr (.inl ⟨conflicts, rfl, hall, ?_⟩)
    rw [hpos, List.range_eq_range']
  · exact .inr (.inr ⟨index, s', by omega, rfl, hstep⟩)

/-- A slot that the search loop finds is admitted. -/
theorem searchSlotsFrom_found {s : EngineState} {bundle : RelativeBundle} {range : SlotRange}
    {fuel attempts : Nat} {start : Timestamp} {slot : Slot}
    {timelines : OrderedMap ResourcePoolId SlackTimeline}
    (h : s.searchSlotsFrom bundle range fuel start attempts = .ok (.found slot timelines)) :
    s.evaluateBundleAdmission slot.bundle = .ok (.available timelines) := by
  induction fuel generalizing start attempts with
  | zero =>
    rw [searchSlotsFrom] at h
    cases h
  | succ fuel ih =>
    rw [searchSlotsFrom] at h
    obtain ⟨b, -, h⟩ := Except.bind_eq_ok.mp h
    obtain ⟨admission, hadm, h⟩ := Except.bind_eq_ok.mp h
    cases admission with
    | available timelines' =>
      obtain ⟨rfl, rfl⟩ : (⟨start, b⟩ : Slot) = slot ∧ timelines' = timelines := by
        simpa [pure, Except.pure] using h
      exact hadm
    | unavailable conflicts =>
      dsimp only at h
      split at h
      · simp [pure, Except.pure] at h
      · split at h
        · simp [pure, Except.pure] at h
        · split at h
          · simp [pure, Except.pure] at h
          · exact ih h

/-- A slot that is found admits the bundle that is placed there. -/
theorem searchSlots_found {s : EngineState} {bundle : RelativeBundle} {range : SlotRange}
    {slot : Slot} {timelines : OrderedMap ResourcePoolId SlackTimeline}
    (h : s.searchSlots bundle range = .ok (.found slot timelines)) :
    s.evaluateBundleAdmission slot.bundle = .ok (.available timelines) := by
  unfold searchSlots at h
  split at h
  · cases h
  · split at h
    · cases h
    · exact searchSlotsFrom_found h

/-- The hold of a slot fails after the expirations, is declined, or adds its promise. -/
theorem holdSlotAt_cases {id : PromiseId} {bundle : RelativeBundle} {range : SlotRange}
    {expiresAt now : Timestamp} {s : EngineState}
    {r : EStateM.Result DomainError EngineState SlotOutcome}
    (h : holdSlotAt id bundle range expiresAt now s = r) :
    ∃ s₁, (processExpirations now s).finalState = s₁ ∧ ((∃ e, r = .error e s₁) ∨
      (∃ attempts, r = .ok (.unavailable attempts) s₁ ∧
        s₁.searchSlots bundle range = .ok (.unavailable attempts)) ∨
      ∃ start s', r = .ok (.held id start) s' ∧ Transition now (.hold id) s₁ s') := by
  unfold holdSlotAt at h
  obtain ⟨s₁, hs₁, ⟨e, rfl⟩ | h⟩ := after_expirations h
  · exact ⟨s₁, hs₁, .inl ⟨e, rfl⟩⟩
  refine ⟨s₁, hs₁, ?_⟩
  obtain ⟨e, rfl⟩ | ⟨habsent, h⟩ := hold_checks h
  · exact .inl ⟨e, rfl⟩
  obtain ⟨e, -, rfl⟩ | ⟨search, hsearch, h⟩ := EStateM.ofExcept_bind_cases h
  · exact .inl ⟨e, rfl⟩
  cases search with
  | unavailable attempts => exact .inr (.inl ⟨attempts, h.symm, hsearch⟩)
  | found slot timelines =>
    obtain he | ⟨s', hs', hstep⟩ := acceptHold_then habsent (searchSlots_found hsearch) h
    · exact .inl he
    · exact .inr (.inr ⟨slot.start, s', hs', hstep⟩)

/-- A commit fails after the expirations, or commits its promise. -/
theorem commitAt_cases {id : PromiseId} {expected : Version} {now : Timestamp} {s : EngineState}
    {r : EStateM.Result DomainError EngineState Version} (h : commitAt id expected now s = r) :
    ∃ s₁, (processExpirations now s).finalState = s₁ ∧ ((∃ e, r = .error e s₁) ∨
      ∃ new s', r = .ok new s' ∧ Transition now (.commit id expected new) s₁ s') := by
  unfold commitAt at h
  obtain ⟨s₁, hs₁, ⟨e, rfl⟩ | h⟩ := after_expirations h
  · exact ⟨s₁, hs₁, .inl ⟨e, rfl⟩⟩
  refine ⟨s₁, hs₁, ?_⟩
  obtain ⟨e, -, rfl⟩ | ⟨seq, hseq, h⟩ := EStateM.ofExcept_bind_cases h
  · exact .inl ⟨e, rfl⟩
  obtain ⟨e, -, rfl⟩ | ⟨p, hp, h⟩ := EStateM.ofExcept_bind_cases h
  · exact .inl ⟨e, rfl⟩
  dsimp only at h
  split at h
  · exact .inl ⟨_, h.symm⟩
  obtain ⟨e, -, rfl⟩ | ⟨⟨new, p'⟩, hp', h⟩ := EStateM.ofExcept_bind_cases h
  · exact .inl ⟨e, rfl⟩
  exact .inr ⟨new, _, h.symm, .commit (Except.elim_eq_ok.mp hp) hseq hp'⟩

/-- A release fails after the expirations, or releases its promise. -/
theorem releaseAt_cases {id : PromiseId} {expected : Version} {now : Timestamp} {s : EngineState}
    {r : EStateM.Result DomainError EngineState Version} (h : releaseAt id expected now s = r) :
    ∃ s₁, (processExpirations now s).finalState = s₁ ∧ ((∃ e, r = .error e s₁) ∨
      ∃ new s', r = .ok new s' ∧ Transition now (.release id expected new) s₁ s') := by
  unfold releaseAt at h
  obtain ⟨s₁, hs₁, ⟨e, rfl⟩ | h⟩ := after_expirations h
  · exact ⟨s₁, hs₁, .inl ⟨e, rfl⟩⟩
  refine ⟨s₁, hs₁, ?_⟩
  obtain ⟨e, -, rfl⟩ | ⟨seq, hseq, h⟩ := EStateM.ofExcept_bind_cases h
  · exact .inl ⟨e, rfl⟩
  obtain ⟨e, -, rfl⟩ | ⟨p, hp, h⟩ := EStateM.ofExcept_bind_cases h
  · exact .inl ⟨e, rfl⟩
  dsimp only at h
  split at h
  · exact .inl ⟨_, h.symm⟩
  obtain ⟨e, -, rfl⟩ | ⟨⟨new, p'⟩, hp', h⟩ := EStateM.ofExcept_bind_cases h
  · exact .inl ⟨e, rfl⟩
  dsimp only at h
  obtain ⟨e, -, rfl⟩ | ⟨timelines, htl, h⟩ := EStateM.ofExcept_bind_cases h
  · exact .inl ⟨e, rfl⟩
  exact .inr ⟨new, _, h.symm, .release (Except.elim_eq_ok.mp hp) hseq hp' htl⟩

/-- A replacement fails after the expirations, is declined, or replaces its promise. -/
theorem replaceAt_cases {id : PromiseId} {expected : Version} {bundle : Bundle}
    {live : ReplacementState} {now : Timestamp} {s : EngineState}
    {r : EStateM.Result DomainError EngineState ReplaceOutcome}
    (h : replaceAt id expected bundle live now s = r) :
    ∃ s₁, (processExpirations now s).finalState = s₁ ∧ ((∃ e, r = .error e s₁) ∨
      (∃ outcome, r = .ok outcome s₁ ∧
        Declined now s₁ (.replace id expected bundle live) (.promiseReplaced outcome)) ∨
      ∃ new s', r = .ok (.replaced id new) s' ∧
        Transition now (.replace id expected new) s₁ s') := by
  unfold replaceAt at h
  obtain ⟨s₁, hs₁, ⟨e, rfl⟩ | h⟩ := after_expirations h
  · exact ⟨s₁, hs₁, .inl ⟨e, rfl⟩⟩
  refine ⟨s₁, hs₁, ?_⟩
  obtain ⟨e, -, rfl⟩ | ⟨p, hp, h⟩ := EStateM.ofExcept_bind_cases h
  · exact .inl ⟨e, rfl⟩
  dsimp only at h
  split at h
  · exact .inl ⟨_, h.symm⟩
  obtain ⟨e, -, rfl⟩ | ⟨seq, hseq, h⟩ := EStateM.ofExcept_bind_cases h
  · exact .inl ⟨e, rfl⟩
  obtain ⟨e, -, rfl⟩ | ⟨⟨new, p'⟩, hp', h⟩ := EStateM.ofExcept_bind_cases h
  · exact .inl ⟨e, rfl⟩
  dsimp only at h
  obtain ⟨e, -, rfl⟩ | ⟨restored, hrestored, h⟩ := EStateM.ofExcept_bind_cases h
  · exact .inl ⟨e, rfl⟩
  obtain ⟨e, -, rfl⟩ | ⟨admission, hadm, h⟩ := EStateM.ofExcept_bind_cases h
  · exact .inl ⟨e, rfl⟩
  have hp := Except.elim_eq_ok.mp hp
  cases admission with
  | unavailable conflicts =>
    exact .inr (.inl ⟨_, h.symm, .replace hp hseq hp' hrestored hadm⟩)
  | available adjusted =>
    exact .inr (.inr ⟨new, _, h.symm, .replace hp hseq hp' hrestored hadm⟩)

/-- An operation whose result is wrapped fails where the operation fails. -/
theorem map_cases {α β : Type} {x : EngineM α} {g : α → β} {s : EngineState}
    {r : EStateM.Result DomainError EngineState β} (h : (x >>= fun a => pure (g a)) s = r) :
    (∃ e s', x s = .error e s' ∧ r = .error e s') ∨ ∃ a s', x s = .ok a s' ∧ r = .ok (g a) s' := by
  rcases hx : x s with ⟨a, s'⟩ | ⟨e, s'⟩
  · rw [EStateM.bind_of_ok hx] at h
    exact .inr ⟨a, s', rfl, h.symm⟩
  · rw [EStateM.bind_of_error hx] at h
    exact .inl ⟨e, s', rfl, h.symm⟩

/-- Every operation fails, declines or makes one transition in the state that the expirations
leave. -/
theorem applyOnce_completes {operation : CommandOperation} {now : Timestamp} {s : EngineState}
    {r : EStateM.Result DomainError EngineState CommandResult}
    (h : applyOnce operation now s = r) :
    ∃ s₁, (processExpirations now s).finalState = s₁ ∧ Completes now operation s₁ r := by
  cases operation with
  | createResourcePool id name unit curve =>
    rw [applyOnce] at h
    rcases map_cases h with ⟨e, s', hx, rfl⟩ | ⟨a, s', hx, rfl⟩ <;>
      obtain ⟨s₁, hs₁, ⟨e, he⟩ | ⟨s₂, he, hstep⟩⟩ := createResourcePoolAt_cases hx <;> cases he
    · exact ⟨_, hs₁, .failed e⟩
    · exact ⟨s₁, hs₁, .accepted hstep .createResourcePool⟩
  | reviseCapacity id curve mode =>
    rw [applyOnce] at h
    rcases map_cases h with ⟨e, s', hx, rfl⟩ | ⟨a, s', hx, rfl⟩ <;>
      obtain ⟨s₁, hs₁, ⟨e, he⟩ | ⟨outcome, s₂, he, hstrict, hstep, -⟩⟩ :=
        reviseCapacityAt_cases hx <;> cases he
    · exact ⟨_, hs₁, .failed e⟩
    · exact ⟨s₁, hs₁, .accepted hstep (.reviseCapacity hstrict)⟩
  | hold id bundle expiresAt =>
    rw [applyOnce] at h
    rcases map_cases h with ⟨e, s', hx, rfl⟩ | ⟨a, s', hx, rfl⟩ <;>
      obtain ⟨s₁, hs₁, ⟨e, he⟩ | ⟨conflicts, he, hrefused⟩ | ⟨s₂, he, hstep⟩⟩ :=
        holdWithIdAt_cases hx <;> cases he
    · exact ⟨_, hs₁, .failed e⟩
    · exact ⟨_, hs₁, .declined (.hold hrefused)⟩
    · exact ⟨s₁, hs₁, .accepted hstep .hold⟩
  | holdOneOf id choice expiresAt =>
    rw [applyOnce] at h
    rcases map_cases h with ⟨e, s', hx, rfl⟩ | ⟨a, s', hx, rfl⟩ <;>
      obtain ⟨s₁, hs₁, ⟨e, he⟩ | ⟨conflicts, he, hrefused, hpos⟩ | ⟨index, s₂, hlt, he, hstep⟩⟩ :=
        holdChoiceAt_cases hx <;> cases he
    · exact ⟨_, hs₁, .failed e⟩
    · exact ⟨_, hs₁, .declined (.holdOneOf hrefused hpos)⟩
    · exact ⟨s₁, hs₁, .accepted hstep (.holdOneOf hlt)⟩
  | holdFirstSlot id bundle earliest latest step expiresAt =>
    rw [applyOnce] at h
    rcases map_cases h with ⟨e, s', hx, rfl⟩ | ⟨a, s', hx, rfl⟩ <;>
      obtain ⟨s₁, hs₁, ⟨e, he⟩ | ⟨attempts, he, hexhausted⟩ | ⟨start, s₂, he, hstep⟩⟩ :=
        holdSlotAt_cases hx <;> cases he
    · exact ⟨_, hs₁, .failed e⟩
    · exact ⟨_, hs₁, .declined (.holdFirstSlot hexhausted)⟩
    · exact ⟨s₁, hs₁, .accepted hstep .holdFirstSlot⟩
  | commit id expected =>
    rw [applyOnce] at h
    rcases map_cases h with ⟨e, s', hx, rfl⟩ | ⟨a, s', hx, rfl⟩ <;>
      obtain ⟨s₁, hs₁, ⟨e, he⟩ | ⟨new, s₂, he, hstep⟩⟩ := commitAt_cases hx <;> cases he
    · exact ⟨_, hs₁, .failed e⟩
    · exact ⟨s₁, hs₁, .accepted hstep .commit⟩
  | release id expected =>
    rw [applyOnce] at h
    rcases map_cases h with ⟨e, s', hx, rfl⟩ | ⟨a, s', hx, rfl⟩ <;>
      obtain ⟨s₁, hs₁, ⟨e, he⟩ | ⟨new, s₂, he, hstep⟩⟩ := releaseAt_cases hx <;> cases he
    · exact ⟨_, hs₁, .failed e⟩
    · exact ⟨s₁, hs₁, .accepted hstep .release⟩
  | replace id expected bundle live =>
    rw [applyOnce] at h
    rcases map_cases h with ⟨e, s', hx, rfl⟩ | ⟨a, s', hx, rfl⟩ <;>
      obtain ⟨s₁, hs₁, ⟨e, he⟩ | ⟨outcome, he, hdeclined⟩ | ⟨new, s₂, he, hstep⟩⟩ :=
        replaceAt_cases hx <;> cases he
    · exact ⟨_, hs₁, .failed e⟩
    · exact ⟨_, hs₁, .declined hdeclined⟩
    · exact ⟨s₁, hs₁, .accepted hstep .replace⟩
  | processExpirations =>
    rw [applyOnce] at h
    rcases map_cases h with ⟨e, s', hx, rfl⟩ | ⟨count, s', hx, rfl⟩
    · exact ⟨s', by rw [hx, EStateM.Result.finalState_error], .failed e⟩
    · exact ⟨s', by rw [hx, EStateM.Result.finalState_ok], .declined .processExpirations⟩

/-- Every operation makes some expirations and then fails, declines or makes one transition. -/
theorem applyOnce_cases {operation : CommandOperation} {now : Timestamp} {s : EngineState}
    {r : EStateM.Result DomainError EngineState CommandResult}
    (h : applyOnce operation now s = r) :
    ∃ s₁, Expirations now s s₁ ∧ Completes now operation s₁ r := by
  obtain ⟨s₁, rfl, hcompletes⟩ := applyOnce_completes h
  exact ⟨_, processExpirations_spec now s, hcompletes⟩

end EngineState

end PromiseDb
