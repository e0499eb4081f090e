import PromiseDb.Engine.EventLog

/-!
# Histories of promises along runs

A promise that has ended is never touched again, and a version is left by at most one commit,
release or replacement, whichever clients ask for it: the cached response of the command that
left it names the version after it, and versions of one promise only grow.
-/

namespace PromiseDb

/-- The promise that an operation changes and the version it expects. -/
def CommandOperation.expects : CommandOperation → Option (PromiseId × Version)
  | .commit promiseId expectedVersion => some (promiseId, expectedVersion)
  | .release promiseId expectedVersion => some (promiseId, expectedVersion)
  | .replace promiseId expectedVersion _ _ => some (promiseId, expectedVersion)
  | _ => none

/-- The promise that a successful result names and the version it reached. -/
def CommandResult.reached : CommandResult → Option (PromiseId × Version)
  | .promiseCommitted promiseId version => some (promiseId, version)
  | .promiseReleased promiseId version => some (promiseId, version)
  | .promiseReplaced (.replaced promiseId version) => some (promiseId, version)
  | _ => none

/-- The promise and the version that a response reports. -/
def CommandResponse.reached : CommandResponse → Option (PromiseId × Version)
  | .ok result => result.reached
  | .error _ => none

namespace EngineState

/-! ## Promises that have ended -/

/-- A transition leaves a promise that has ended, and its events, as they are. -/
theorem Transition.ended {now : Timestamp} {change : Change} {s s' : EngineState}
    (h : Transition now change s s') {id : PromiseId} {p : Promise}
    (hp : s.promises[id]? = some p) (hended : p.isActive = false) :
    s'.promises[id]? = some p ∧ s'.eventsOf id = s.eventsOf id := by
  cases h.writes with
  | @promise id' p' timelines seq kind next write =>
    have hne : id' ≠ id := by
      rintro rfl
      cases write with
      | created absent _ _ _ _ _ => exact absent (OrderedMap.mem_iff_lookup.mpr ⟨p, hp⟩)
      | @advanced q _ present advances _ _ _ _ =>
        obtain rfl : p = q := Option.some.inj (hp.symm.trans present)
        rw [advances.active] at hended
        cases hended
    constructor
    · exact (OrderedMap.lookup_insert_of_ne _ hne _).trans hp
    · rw [eventsOf_withPromise, if_neg hne, List.append_nil]
  | pool next write audits => exact ⟨hp, eventsOf_withPool audits id⟩

/-- A transition keeps every promise, at the same or a later version. -/
theorem Transition.version_le {now : Timestamp} {change : Change} {s s' : EngineState}
    (h : Transition now change s s') {id : PromiseId} {p : Promise}
    (hp : s.promises[id]? = some p) :
    ∃ p', s'.promises[id]? = some p' ∧ p.version.get.val ≤ p'.version.get.val := by
  cases h.writes with
  | @promise id' p' timelines seq kind next write =>
    by_cases heq : id' = id
    · subst heq
      refine ⟨p', OrderedMap.lookup_insert_self _ _ _, ?_⟩
      cases write with
      | created absent _ _ _ _ _ => exact absurd (OrderedMap.mem_iff_lookup.mpr ⟨p, hp⟩) absent
      | @advanced q _ present advances _ _ _ _ =>
        obtain rfl : p = q := Option.some.inj (hp.symm.trans present)
        have := advances.version_eq
        omega
    · exact ⟨p, (OrderedMap.lookup_insert_of_ne _ heq _).trans hp, le_rfl⟩
  | pool next write audits => exact ⟨p, hp, le_rfl⟩

/-! ## Versions that have been left -/

/-- The promise exists and has reached the version. -/
def HasReached (s : EngineState) (id : PromiseId) (w : Version) : Prop :=
  ∃ p, s.promises[id]? = some p ∧ w.get.val ≤ p.version.get.val

/-- A transition lets a promise keep what it has reached. -/
theorem HasReached.transition {now : Timestamp} {change : Change} {s s' : EngineState}
    {id : PromiseId} {w : Version} (h : s.HasReached id w) (hstep : Transition now change s s') :
    s'.HasReached id w := by
  obtain ⟨p, hp, hle⟩ := h
  obtain ⟨p', hp', hle'⟩ := hstep.version_le hp
  exact ⟨p', hp', hle.trans hle'⟩

/-- A version that has been reached stays reached during an operation. -/
theorem HasReached.applyOnce {s : EngineState} {id : PromiseId} {w : Version}
    (h : s.HasReached id w) (operation : CommandOperation) (now : Timestamp) :
    (EngineState.applyOnce operation now s).finalState.HasReached id w :=
  applyOnce_invariant (Q := fun _ => True) (fun _ => trivial) (fun _ _ _ => trivial)
    (fun _ _ _ _ hs hstep => HasReached.transition hs hstep) h

/-- An operation that reports a version has just reached it, from the expected one. -/
theorem applyOnce_reached {operation : CommandOperation} {now : Timestamp} {s s' : EngineState}
    {result : CommandResult} {id : PromiseId} {w : Version}
    (h : EngineState.applyOnce operation now s = .ok result s')
    (hresult : result.reached = some (id, w)) :
    ∃ expected, operation.expects = some (id, expected) ∧ expected.get.val + 1 = w.get.val ∧
      ¬s.HasReached id w ∧ s'.HasReached id w := by
  obtain ⟨s₁, hs₁, hcompletes⟩ := applyOnce_cases h
  have hkept (hreached : s.HasReached id w) : s₁.HasReached id w :=
    hs₁.invariant (fun _ _ _ hs hstep => HasReached.transition hs hstep) hreached
  -- a promise at the version before `w` has not reached `w`
  have hfresh {p p' : Promise} {seq : SequenceNumber} (hp : s₁.promises[id]? = some p)
      (hw : w = p'.version) (hadvances : p.Advances p' seq) : ¬s.HasReached id w := by
    intro hreached
    obtain ⟨q, hq, hle⟩ := hkept hreached
    obtain rfl : p = q := Option.some.inj (hp.symm.trans hq)
    have := hadvances.version_eq
    rw [hw] at hle
    omega
  cases hcompletes with
  | declined declined => cases declined <;> cases hresult
  | accepted step answers =>
    cases answers with
    | commit =>
      obtain ⟨rfl, rfl⟩ := Prod.mk.inj (Option.some.inj hresult)
      cases step with
      | commit promise next committed =>
        obtain ⟨rfl, hw, hadvances, -⟩ := Promise.commit_eq_ok committed
        exact ⟨_, rfl, hw ▸ hadvances.version_eq, hfresh promise hw hadvances,
          _, OrderedMap.lookup_insert_self _ _ _, hw ▸ le_rfl⟩
    | release =>
      obtain ⟨rfl, rfl⟩ := Prod.mk.inj (Option.some.inj hresult)
      cases step with
      | release promise next released restored =>
        obtain ⟨rfl, hw, hadvances, -⟩ := Promise.release_eq_ok released
        exact ⟨_, rfl, hw ▸ hadvances.version_eq, hfresh promise hw hadvances,
          _, OrderedMap.lookup_insert_self _ _ _, hw ▸ le_rfl⟩
    | replace =>
      obtain ⟨rfl, rfl⟩ := Prod.mk.inj (Option.some.inj hresult)
      cases step with
      | replace promise next replaced givenBack admitted =>
        obtain ⟨rfl, hw, hadvances, -⟩ := Promise.replace_eq_ok replaced
        exact ⟨_, rfl, hw ▸ hadvances.version_eq, hfresh promise hw hadvances,
          _, OrderedMap.lookup_insert_self _ _ _, hw ▸ le_rfl⟩
    | createResourcePool => cases hresult
    | reviseCapacity strict => cases hresult
    | hold => cases hresult
    | holdOneOf lt => cases hresult
    | holdFirstSlot => cases hresult

/-- Every reported version was reached, and no two identities report the same one. -/
structure ReachedOnce (s : EngineState) : Prop where
  /-- A reported version was reached. -/
  known : ∀ (identity : Identity) (record : IdempotencyRecord),
    s.idempotencyRecords[identity]? = some record →
    ∀ id w, record.response.reached = some (id, w) → s.HasReached id w
  /-- A version is reported under one identity only. -/
  unique : ∀ (i j : Identity) (r r' : IdempotencyRecord), s.idempotencyRecords[i]? = some r →
    s.idempotencyRecords[j]? = some r' → ∀ id w, r.response.reached = some (id, w) →
    r'.response.reached = some (id, w) → i = j

/-- In the empty state nothing was reached. -/
theorem reachedOnce_empty : EngineState.empty.ReachedOnce := by
  constructor
  · intro identity record h
    rw [EngineState.empty, OrderedMap.lookup_empty] at h
    cases h
  · intro i j r r' h
    rw [EngineState.empty, OrderedMap.lookup_empty] at h
    cases h

end EngineState

namespace Engine

open EngineState

variable {blake3 : List UInt8 → CommandHash}

/-- A first-seen command that reports a version has just reached it, from the one it expects. -/
theorem executeOnce_reached {s : EngineState} {command : Command} {now : Timestamp}
    {id : PromiseId} {w : Version}
    (h : (executeOnce blake3 s command now).1.reached = some (id, w)) :
    (∃ expected, command.operation.expects = some (id, expected) ∧
      expected.get.val + 1 = w.get.val) ∧
    ¬s.HasReached id w ∧ (executeOnce blake3 s command now).2.HasReached id w := by
  rw [executeOnce_fst] at h
  rw [executeOnce_snd]
  cases hrun : EngineState.applyOnce command.operation now s with
  | error error s' =>
    rw [hrun] at h
    cases h
  | ok result s' =>
    rw [hrun] at h
    obtain ⟨expected, hexpects, hnext, hnot, hreached⟩ := applyOnce_reached hrun h
    exact ⟨⟨expected, hexpects, hnext⟩, hnot, hreached⟩

/-- Executing a first-seen command keeps the reported versions unique. -/
theorem reachedOnce_executeOnce {s : EngineState} (h : s.ReachedOnce) (command : Command)
    (now : Timestamp) : (executeOnce blake3 s command now).2.ReachedOnce := by
  have hcases {i : Identity} {r : IdempotencyRecord}
      (hr : (executeOnce blake3 s command now).2.idempotencyRecords[i]? = some r) :
      (command.identity = i ∧ r.response = (executeOnce blake3 s command now).1) ∨
        s.idempotencyRecords[i]? = some r := by
    rcases eq_or_ne command.identity i with rfl | hne
    · rw [executeOnce_record] at hr
      exact .inl ⟨rfl, by rw [← Option.some.inj hr]⟩
    · exact .inr ((executeOnce_record_of_ne s now hne).symm.trans hr)
  have hkept {id : PromiseId} {w : Version} (hreached : s.HasReached id w) :
      (executeOnce blake3 s command now).2.HasReached id w := by
    rw [executeOnce_snd]
    exact hreached.applyOnce command.operation now
  constructor
  · intro i r hr id w hw
    rcases hcases hr with ⟨-, hresponse⟩ | hr
    · rw [hresponse] at hw
      exact (executeOnce_reached hw).2.2
    · exact hkept (h.known i r hr id w hw)
  · intro i j r r' hr hr' id w hw hw'
    rcases hcases hr with ⟨hi, hresponse⟩ | hr
    · rcases hcases hr' with ⟨hj, -⟩ | hr'
      · exact hi.symm.trans hj
      · rw [hresponse] at hw
        exact absurd (h.known j r' hr' id w hw') (executeOnce_reached hw).2.1
    · rcases hcases hr' with ⟨-, hresponse⟩ | hr'
      · rw [hresponse] at hw'
        exact absurd (h.known i r hr id w hw) (executeOnce_reached hw').2.1
      · exact h.unique i j r r' hr hr' id w hw hw'

/-- Applying a command reaches no version again. -/
theorem reachedOnce_apply {e : Engine} (h : e.state.ReachedOnce) (command : Command)
    (now : Timestamp) : (apply blake3 e command now).2.state.ReachedOnce := by
  obtain ⟨record, -, heq⟩ | ⟨-, -, heq⟩ | ⟨next, -, -, heq⟩ := apply_cases e command now <;>
    rw [heq]
  · exact h
  · exact h
  · exact reachedOnce_executeOnce h command now

/-- In every reachable engine the reported versions are unique. -/
theorem Reachable.reachedOnce {e : Engine} (h : Reachable blake3 e) : e.state.ReachedOnce := by
  induction h with
  | empty => exact reachedOnce_empty
  | apply _ _ ih => exact reachedOnce_apply ih _ _

/-- A run reaches no version twice. -/
theorem reachedOnce_applyAll (commands : List (Command × Timestamp)) {e : Engine}
    (h : e.state.ReachedOnce) : (applyAll blake3 e commands).2.state.ReachedOnce := by
  induction commands generalizing e with
  | nil => exact h
  | cons entry rest ih => exact ih (reachedOnce_apply h entry.1 entry.2)

/-- A response that reports a version is cached under the identity of its command. -/
theorem apply_reached_recorded {e : Engine} {command : Command} {now : Timestamp}
    {reached : PromiseId × Version}
    (h : (apply blake3 e command now).1.reached = some reached) :
    ∃ record, (apply blake3 e command now).2.state.idempotencyRecords[command.identity]? =
      some record ∧ record.response.reached = some reached := by
  obtain ⟨record, hrecord, heq⟩ | ⟨-, -, heq⟩ | ⟨next, -, -, heq⟩ := apply_cases e command now <;>
    rw [heq] at h ⊢
  · refine ⟨record, hrecord, ?_⟩
    unfold cachedResponse at h
    split at h
    · cases h
    · exact h
  · cases h
  · exact ⟨_, executeOnce_record e.state command now, h⟩

/-- Along a run, every response that reports a version stays cached. -/
theorem applyAll_reached_recorded {e : Engine} {commands : List (Command × Timestamp)} :
    ∀ entry ∈ commands.zip (applyAll blake3 e commands).1, ∀ reached,
      entry.2.reached = some reached →
      ∃ record, (applyAll blake3 e commands).2.state.idempotencyRecords[entry.1.1.identity]? =
        some record ∧ record.response.reached = some reached := by
  induction commands generalizing e with
  | nil =>
    intro entry hentry
    cases hentry
  | cons first rest ih =>
    intro entry hentry reached hreached
    have hcons : (first :: rest).zip (applyAll blake3 e (first :: rest)).1 =
        (first, (apply blake3 e first.1 first.2).1) ::
          rest.zip (applyAll blake3 (apply blake3 e first.1 first.2).2 rest).1 := rfl
    rw [hcons] at hentry
    rcases List.mem_cons.mp hentry with rfl | hentry
    · obtain ⟨record, hrecord, hr⟩ := apply_reached_recorded hreached
      exact ⟨record, applyAll_record_kept rest hrecord, hr⟩
    · exact ih entry hentry reached hreached

/-- A command of a run succeeds in leaving a version of a promise: it expects that version, and
its response reports the next one. -/
def Leaves (id : PromiseId) (v : Version) (entry : (Command × Timestamp) × CommandResponse) :
    Prop :=
  entry.1.1.operation.expects = some (id, v) ∧
    ∃ w, entry.2.reached = some (id, w) ∧ v.get.val + 1 = w.get.val

/-- Two commands of a run that leave the same version of a promise are the same request. -/
theorem leaves_unique {e : Engine} (h : e.state.ReachedOnce) (commands : List (Command × Timestamp))
    {id : PromiseId} {v : Version} {a b : (Command × Timestamp) × CommandResponse}
    (ha : a ∈ commands.zip (applyAll blake3 e commands).1)
    (hb : b ∈ commands.zip (applyAll blake3 e commands).1) (hav : Leaves id v a)
    (hbv : Leaves id v b) : a.1.1.identity = b.1.1.identity := by
  obtain ⟨-, w, hw, hvw⟩ := hav
  obtain ⟨-, w', hw', hvw'⟩ := hbv
  obtain rfl : w = w' := by
    obtain ⟨n, hn⟩ := w
    obtain ⟨n', hn'⟩ := w'
    have : n = n' := Subtype.ext (hvw.symm.trans hvw')
    subst this
    rfl
  obtain ⟨r, hr, hrw⟩ := applyAll_reached_recorded a ha _ hw
  obtain ⟨r', hr', hrw'⟩ := applyAll_reached_recorded b hb _ hw'
  exact (reachedOnce_applyAll commands h).unique _ _ r r' hr hr' id w hrw hrw'

/-- In every reachable engine the log is complete. -/
theorem Reachable.eventLog {e : Engine} (h : Reachable blake3 e) : e.state.EventLog :=
  h.invariant eventLog_empty (fun _ _ _ _ hs hstep => hs.transition hstep)
    fun _ _ hs => ⟨hs.complete, hs.groups, fun id p hp => by
      obtain ⟨hhistory, hfirst, hlast⟩ := hs.histories id p hp
      exact ⟨hhistory, hfirst, hlast⟩, hs.silent⟩

/-- Watching from a sequence returns exactly the events from it on. -/
theorem watchEvents_eq_filter {e : Engine} (h : e.state.EventLog) (from_ : SequenceNumber) :
    watchEvents e from_ = e.state.events.filter fun event => decide (from_ ≤ event.sequence) :=
  NumberedLog.dropWhile_eq_filter h.complete.sorted from_.get.val

/-- In every reachable engine the log is complete and agrees with the promises.  Along every
further run a promise that has ended is not touched, and the commands that succeed in leaving
one version of a promise are one request.  Watching returns exactly the events from a sequence
on. -/
theorem event_log {e : Engine} (h : Reachable blake3 e) :
    e.state.EventLog ∧
    (∀ (commands : List (Command × Timestamp)) (id : PromiseId) (p : Promise),
      e.state.promises[id]? = some p → p.state = .released ∨ p.state = .expired →
      (applyAll blake3 e commands).2.state.promises[id]? = some p ∧
        (applyAll blake3 e commands).2.state.eventsOf id = e.state.eventsOf id) ∧
    (∀ (commands : List (Command × Timestamp)) (id : PromiseId) (v : Version),
      ∀ a ∈ commands.zip (applyAll blake3 e commands).1,
      ∀ b ∈ commands.zip (applyAll blake3 e commands).1,
      Leaves id v a → Leaves id v b → a.1.1.identity = b.1.1.identity) ∧
    ∀ from_ : SequenceNumber, watchEvents e from_ =
      e.state.events.filter fun event => decide (from_ ≤ event.sequence) := by
  refine ⟨h.eventLog, ?_, ?_, watchEvents_eq_filter h.eventLog⟩
  · intro commands id p hp hended
    have hinactive : p.isActive = false := by
      rcases hended with hs | hs <;> rw [Promise.isActive, hs] <;> rfl
    refine applyAll_invariant (P := fun s => s.promises[id]? = some p ∧
      s.eventsOf id = e.state.eventsOf id) ?_ (fun _ _ hs => hs) commands ⟨hp, rfl⟩
    rintro now change s s' ⟨hs, hevents⟩ hstep
    obtain ⟨hs', hevents'⟩ := hstep.ended hs hinactive
    exact ⟨hs', hevents'.trans hevents⟩
  · intro commands id v a ha b hb hav hbv
    exact leaves_unique h.reachedOnce commands ha hb hav hbv

/-- The log of the sample run has two events, and the second is that of its hold. -/
theorem event_log_sample :
    sampleEngine.state.EventLog ∧ sampleEngine.state.events.length = 2 ∧
      (sampleEngine.state.eventsOf samplePromiseId).map Event.kind = [.holdCreated] :=
  ⟨(event_log sampleEngine_reachable).1, by decide +kernel, by decide +kernel⟩

end Engine

end PromiseDb
