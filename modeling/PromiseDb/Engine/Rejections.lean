import PromiseDb.Engine.Expirations

/-!
# Rejected operations

An operation that fails, or that answers that something is unavailable, leaves what the
expirations before it leave.  The code commits a promise in place, on the entry of the map; here
this is also modelled with the fields written one after another, and compared with the commit on
a copy.
-/

namespace PromiseDb

/-- Whether a result says that the requested capacity is unavailable. -/
def CommandResult.isUnavailable : CommandResult → Bool
  | .holdCompleted (.unavailable _) => true
  | .choiceCompleted (.unavailable _) => true
  | .slotCompleted (.unavailable _) => true
  | .promiseReplaced (.unavailable _) => true
  | _ => false

namespace EngineState

/-! ## Commits in place -/

/-- Commits a promise in place, one field after another. -/
def commitPromiseInPlace (expectedVersion : Version) (now : Timestamp) (sequence : SequenceNumber) :
    EStateM DomainError Promise Version := do
  let p ← get
  if expectedVersion ≠ p.version then throw .versionConflict
  match p.state with
  | .held expiresAt =>
    if expiresAt ≤ now then throw .holdExpired
    let nextVersion ← ofExcept p.version.next
    modify fun p => { p with version := nextVersion }
    modify fun p => { p with updatedSequence := sequence }
    modify fun p => { p with state := .committed }
    return nextVersion
  | _ => throw .invalidPromiseState

/-- Runs an update on the promise stored under an identity, which keeps what was written when the
update fails. -/
def updatePromise {α : Type} (promiseId : PromiseId) (promise : Promise)
    (update : EStateM DomainError Promise α) : EngineM α := fun s =>
  match update promise with
  | .ok a promise => .ok a { s with promises := s.promises.insert promiseId promise }
  | .error e promise => .error e { s with promises := s.promises.insert promiseId promise }

/-- Commits a hold in place. -/
def commitInPlaceAt (promiseId : PromiseId) (expectedVersion : Version) (now : Timestamp) :
    EngineM Version := do
  let _ ← processExpirations now
  let s ← get
  let newSequence ← ofExcept s.sequence.next
  let promise ← ofExcept (s.promises[promiseId]?.elim (.error .promiseNotFound) .ok)
  if promise.state = .expired then throw .holdExpired
  let newVersion ← updatePromise promiseId promise
    (commitPromiseInPlace expectedVersion now newSequence)
  modify fun s => { s with sequence := newSequence }
  modify fun s => { s with
    events := s.events ++ [⟨newSequence, now, .holdCommitted, .promise promiseId newVersion⟩] }
  return newVersion

/-- Committing in place does what committing a copy does, and writes nothing when it fails. -/
theorem commitPromiseInPlace_eq (expectedVersion : Version) (now : Timestamp)
    (sequence : SequenceNumber) (p : Promise) :
    (∃ e, p.commit expectedVersion now sequence = .error e ∧
      commitPromiseInPlace expectedVersion now sequence p = .error e p) ∨
    ∃ new p', p.commit expectedVersion now sequence = .ok (new, p') ∧
      commitPromiseInPlace expectedVersion now sequence p = .ok new p' := by
  unfold commitPromiseInPlace Promise.commit
  rw [EStateM.get_bind_apply]
  by_cases hversion : expectedVersion ≠ p.version
  · rw [if_pos hversion, if_pos hversion]
    exact .inl ⟨_, rfl, rfl⟩
  rw [if_neg hversion, if_neg hversion]
  cases p.state with
  | held expiresAt =>
    dsimp only
    by_cases hdeadline : expiresAt ≤ now
    · rw [if_pos hdeadline, if_pos hdeadline]
      exact .inl ⟨_, rfl, rfl⟩
    rw [if_neg hdeadline, if_neg hdeadline]
    cases p.version.next with
    | error e => exact .inl ⟨e, rfl, rfl⟩
    | ok version => exact .inr ⟨version, _, rfl, rfl⟩
  | committed => exact .inl ⟨_, rfl, rfl⟩
  | released => exact .inl ⟨_, rfl, rfl⟩
  | expired => exact .inl ⟨_, rfl, rfl⟩

/-- An update in place that fails without writing leaves the state as it is. -/
theorem updatePromise_error {α : Type} {s : EngineState} {id : PromiseId} {p : Promise}
    {update : EStateM DomainError Promise α} {e : DomainError} (hp : s.promises[id]? = some p)
    (h : update p = .error e p) : updatePromise id p update s = .error e s := by
  rw [updatePromise, h]
  dsimp only
  rw [OrderedMap.insert_eq_self hp]

/-- An update of a promise that succeeds replaces the promise. -/
theorem updatePromise_ok {α : Type} {s : EngineState} {id : PromiseId} {p p' : Promise}
    {update : EStateM DomainError Promise α} {a : α} (h : update p = .ok a p') :
    updatePromise id p update s = .ok a { s with promises := s.promises.insert id p' } := by
  rw [updatePromise, h]

/-- Committing on the entry of the map leads to the states and answers of the commit on a copy. -/
theorem commitInPlaceAt_eq (promiseId : PromiseId) (expectedVersion : Version) (now : Timestamp) :
    commitInPlaceAt promiseId expectedVersion now = commitAt promiseId expectedVersion now := by
  funext s
  unfold commitInPlaceAt commitAt
  rcases hexpire : processExpirations now s with ⟨n, s₁⟩ | ⟨e, s₁⟩
  swap
  · rw [EStateM.bind_of_error hexpire, EStateM.bind_of_error hexpire]
  rw [EStateM.bind_of_ok hexpire, EStateM.bind_of_ok hexpire, EStateM.get_bind_apply,
    EStateM.get_bind_apply]
  cases s₁.sequence.next with
  | error e => rfl
  | ok sequence =>
    rw [EStateM.bind_of_ok (EStateM.ofExcept_ok _ _), EStateM.bind_of_ok (EStateM.ofExcept_ok _ _)]
    cases hp : s₁.promises[promiseId]? with
    | none => rfl
    | some p =>
      rw [Option.elim_some, EStateM.bind_of_ok (EStateM.ofExcept_ok _ _),
        EStateM.bind_of_ok (EStateM.ofExcept_ok _ _)]
      by_cases hstate : p.state = .expired
      · rw [if_pos hstate, if_pos hstate]
        rfl
      rw [if_neg hstate, if_neg hstate]
      obtain ⟨e, hcommit, hplace⟩ | ⟨new, p', hcommit, hplace⟩ :=
        commitPromiseInPlace_eq expectedVersion now sequence p
      · rw [hcommit]
        exact EStateM.bind_of_error (updatePromise_error hp hplace)
      · obtain ⟨-, rfl, -⟩ := Promise.commit_eq_ok hcommit
        rw [hcommit]
        exact (EStateM.bind_of_ok (updatePromise_ok hplace)).trans rfl

/-! ## What a rejection leaves -/

/-- An operation that has made a change does not answer that something is unavailable. -/
theorem Answers.available {operation : CommandOperation} {change : Change} {result : CommandResult}
    (h : Answers operation change result) : result.isUnavailable = false := by
  cases h <;> rfl

/-- An operation fails when the expirations before it fail. -/
theorem applyOnce_error {now : Timestamp} {s s' : EngineState} {error : DomainError}
    (h : processExpirations now s = .error error s') (operation : CommandOperation) :
    applyOnce operation now s = .error error s' := by
  cases operation with
  | createResourcePool id name unit curve =>
    have hfirst : createResourcePoolAt id name unit curve now s = .error error s' :=
      EStateM.bind_of_error h
    exact EStateM.bind_of_error hfirst
  | reviseCapacity id curve mode =>
    have hfirst : reviseCapacityAt id curve mode now s = .error error s' := EStateM.bind_of_error h
    exact EStateM.bind_of_error hfirst
  | hold id bundle expiresAt =>
    have hfirst : holdWithIdAt id bundle expiresAt now s = .error error s' :=
      EStateM.bind_of_error h
    exact EStateM.bind_of_error hfirst
  | holdOneOf id choice expiresAt =>
    have hfirst : holdChoiceAt id choice expiresAt now s = .error error s' :=
      EStateM.bind_of_error h
    exact EStateM.bind_of_error hfirst
  | holdFirstSlot id bundle earliest latest step expiresAt =>
    have hfirst : holdSlotAt id bundle ⟨earliest, latest, step⟩ expiresAt now s =
        .error error s' := EStateM.bind_of_error h
    exact EStateM.bind_of_error hfirst
  | commit id expected =>
    have hfirst : commitAt id expected now s = .error error s' := EStateM.bind_of_error h
    exact EStateM.bind_of_error hfirst
  | release id expected =>
    have hfirst : releaseAt id expected now s = .error error s' := EStateM.bind_of_error h
    exact EStateM.bind_of_error hfirst
  | replace id expected bundle live =>
    have hfirst : replaceAt id expected bundle live now s = .error error s' :=
      EStateM.bind_of_error h
    exact EStateM.bind_of_error hfirst
  | processExpirations => exact EStateM.bind_of_error h

/-- A rejected operation leaves exactly the state that processing the expirations leaves.  When
the expirations themselves fail, this is the state after the holds before the one that could not
be expired, in the order of deadline and identity. -/
theorem rejected_leaves_expirations (operation : CommandOperation) (now : Timestamp)
    (s : EngineState) :
    (∀ error s', applyOnce operation now s = .error error s' →
      s' = (processExpirations now s).finalState) ∧
    (∀ result s', applyOnce operation now s = .ok result s' → result.isUnavailable = true →
      s' = (processExpirations now s).finalState) ∧
    (s.dueHolds now).Pairwise (fun a b => a < b) ∧
    ∀ error s', processExpirations now s = .error error s' →
      applyOnce operation now s = .error error s' ∧
      ∃ done stuck rest, s.dueHolds now = done ++ stuck :: rest ∧
        expireHolds now 0 done s = .ok done.length s' ∧
        expireHold now (ofLex stuck).2 s' = .error error s' := by
  refine ⟨fun error s' h => ?_, fun result s' h hunavailable => ?_, dueHolds_sorted s now,
    fun error s' h => ⟨applyOnce_error h operation, ?_⟩⟩
  · obtain ⟨s₁, hs₁, hcompletes⟩ := applyOnce_completes h
    cases hcompletes with
    | failed error => exact hs₁.symm
  · obtain ⟨s₁, hs₁, hcompletes⟩ := applyOnce_completes h
    cases hcompletes with
    | declined hdeclined => exact hs₁.symm
    | accepted htransition hanswers =>
      rw [hanswers.available] at hunavailable
      cases hunavailable
  · obtain ⟨done, stuck, rest, hdue, hdone, hstuck⟩ := expireHolds_error h
    rw [zero_add] at hdone
    exact ⟨done, stuck, rest, hdue, hdone, hstuck⟩

end EngineState

end PromiseDb
