import PromiseDb.Engine.Reachable
import PromiseDb.Library.NumberedLog

/-!
# The event log

Every transition writes one promise or one pool and appends one group of events under the next
sequence: the event of the transition and, after a capacity revision, the deficits of the pool
that it created, changed or resolved.  It follows that the log is complete up to the sequence of
the state, and that the events of a promise are its history.
-/

namespace PromiseDb

/-! ## Events -/

/-- Whether an event of this kind records a deficit. -/
def EventKind.isDeficit : EventKind → Bool
  | .deficitCreated => true
  | .deficitChanged => true
  | .deficitResolved => true
  | _ => false

/-- The promise of an event and the version it reached. -/
def EventData.promise? : EventData → Option (PromiseId × Version)
  | .promise promiseId version => some (promiseId, version)
  | _ => none

namespace Event

/-- The sequence of an event as a number. -/
def number (e : Event) : ℤ := e.sequence.get.val

/-- The version that the promise of an event reached, as a number. -/
def versionNumber (e : Event) : ℤ := e.data.promise?.elim 0 fun reached => reached.2.get.val

/-- Whether an event is about a promise. -/
def isOf (id : PromiseId) (e : Event) : Bool := e.data.promise?.any fun reached => reached.1 = id

/-- A deficit event of a pool at a sequence, about known promises in order. -/
structure AuditsDeficit (s : EngineState) (poolId : ResourcePoolId) (seq : SequenceNumber)
    (e : Event) : Prop where
  /-- The event belongs to the transition. -/
  sequence_eq : e.sequence = seq
  /-- The event records a deficit. -/
  isDeficit : e.kind.isDeficit = true
  /-- The deficit is one of the pool. -/
  deficit : ∃ interval quantity affected, e.data = .deficit poolId interval quantity affected ∧
    quantity.val ≠ 0 ∧ strictlyIncreasing affected = true ∧ ∀ id ∈ affected, id ∈ s.promises

end Event

namespace EngineState

/-- The events of a promise, in the order of the log. -/
def eventsOf (s : EngineState) (id : PromiseId) : List Event := s.events.filter (Event.isOf id)

/-- The events under a sequence, in the order of the log. -/
def eventsAt (s : EngineState) (seq : SequenceNumber) : List Event :=
  s.events.filter fun e => decide (e.sequence = seq)

/-! ## Deficits -/

/-- Deficits have a positive amount. -/
theorem deficitsBetween_pos {points : List SlackPoint} {deficits : List SlackDeficit}
    (h : SlackTimeline.deficitsBetween points = .ok deficits) :
    ∀ d ∈ deficits, 0 < d.amount.val := by
  induction points generalizing deficits with
  | nil =>
    obtain rfl := Except.ok.inj h
    simp
  | cons current rest ih =>
    cases rest with
    | nil =>
      obtain rfl := Except.ok.inj h
      simp
    | cons next rest =>
      rw [SlackTimeline.deficitsBetween] at h
      split at h
      · rename_i hneg
        split at h
        · rename_i interval amount hinterval hamount
          obtain ⟨more, hmore, h⟩ := Except.bind_eq_ok.mp h
          obtain rfl := Except.ok.inj h
          have hval := BoundedInt.ofInt?_eq_some.mp hamount
          intro d hd
          rcases List.mem_cons.mp hd with rfl | hd
          · show 0 < amount.val
            omega
          · exact ih hmore d hd
        · cases h
      · exact ih h

/-- The promises that overlap an interval are listed in order. -/
theorem activeOverlapping_sorted (s : EngineState) (poolId : ResourcePoolId) (interval : Interval) :
    strictlyIncreasing (s.activeOverlapping poolId interval) = true := by
  rw [strictlyIncreasing_iff]
  refine List.Pairwise.filterMap _ ?_ (OrderedMap.toList_sorted s.promises)
  intro a b hab id hid id' hid'
  dsimp only at hid hid'
  split at hid
  · split at hid'
    · obtain rfl := Option.some.inj hid
      obtain rfl := Option.some.inj hid'
      exact hab
    · cases hid'
  · cases hid

/-- The promises that overlap an interval are the live ones with a claim that does. -/
theorem mem_activeOverlapping {s : EngineState} {poolId : ResourcePoolId} {interval : Interval}
    {id : PromiseId} :
    id ∈ s.activeOverlapping poolId interval ↔ ∃ p, s.promises[id]? = some p ∧
      p.isActive = true ∧
      ∃ c ∈ p.bundle.claims, c.poolId = poolId ∧ c.interval.overlaps interval = true := by
  rw [activeOverlapping, List.mem_filterMap]
  simp only [Option.ite_none_right_eq_some, Option.some.injEq, Bool.and_eq_true, List.any_eq_true,
    decide_eq_true_eq]
  constructor
  · rintro ⟨e, he, ⟨hactive, hclaim⟩, rfl⟩
    exact ⟨e.2, OrderedMap.mem_toList.mp he, hactive, hclaim⟩
  · rintro ⟨p, hp, hactive, hclaim⟩
    exact ⟨(id, p), OrderedMap.mem_toList.mpr hp, ⟨hactive, hclaim⟩, rfl⟩

/-- The promises that overlap an interval exist. -/
theorem mem_of_activeOverlapping {s : EngineState} {poolId : ResourcePoolId} {interval : Interval}
    {id : PromiseId} (h : id ∈ s.activeOverlapping poolId interval) : id ∈ s.promises := by
  obtain ⟨p, hp, -⟩ := mem_activeOverlapping.mp h
  exact OrderedMap.mem_iff_lookup.mpr ⟨p, hp⟩

/-- The capacity deficits of a pool are positive and list known promises in order. -/
theorem capacityDeficits_spec {s : EngineState} {poolId : ResourcePoolId} {tl : SlackTimeline}
    {deficits : List CapacityDeficit} (h : s.capacityDeficits poolId tl = .ok deficits) :
    ∀ d ∈ deficits, d.resourcePoolId = poolId ∧ 0 < d.quantity.val ∧
      strictlyIncreasing d.affectedPromiseIds = true ∧ ∀ id ∈ d.affectedPromiseIds, id ∈ s.promises := by
  obtain ⟨found, hfound, h⟩ := Except.bind_eq_ok.mp h
  obtain rfl := Except.ok.inj h
  obtain ⟨points, -, hfound⟩ := Except.bind_eq_ok.mp (indexResult_eq_ok.mp hfound)
  intro d hd
  obtain ⟨d', hd', rfl⟩ := List.mem_map.mp hd
  exact ⟨rfl, deficitsBetween_pos hfound d' hd', activeOverlapping_sorted s poolId d'.interval,
    fun id => mem_of_activeOverlapping⟩

/-- The events that a revision adds are deficit events of its pool. -/
theorem revision_audits {s : EngineState} {poolId : ResourcePoolId} {before after : SlackTimeline}
    {previous deficits : List CapacityDeficit}
    (hbefore : s.capacityDeficits poolId before = .ok previous)
    (hafter : s.capacityDeficits poolId after = .ok deficits) (seq : SequenceNumber)
    (now : Timestamp) :
    ∀ e ∈ resolvedEvents seq now previous deficits ++ changedEvents seq now previous deficits,
      e.AuditsDeficit s poolId seq := by
  have hdata {ds : List CapacityDeficit} {tl : SlackTimeline}
      (h : s.capacityDeficits poolId tl = .ok ds) {d : CapacityDeficit} (hd : d ∈ ds) :
      ∃ interval quantity affected, deficitEventData d =
        .deficit poolId interval quantity affected ∧ quantity.val ≠ 0 ∧
        strictlyIncreasing affected = true ∧ ∀ id ∈ affected, id ∈ s.promises := by
    obtain ⟨hpool, hpos, hsorted, hknown⟩ := capacityDeficits_spec h d hd
    exact ⟨d.interval, d.quantity, d.affectedPromiseIds, by rw [deficitEventData, hpool],
      hpos.ne', hsorted, hknown⟩
  intro e he
  rcases List.mem_append.mp he with he | he
  · obtain ⟨d, hd, rfl⟩ := List.mem_map.mp he
    exact ⟨rfl, rfl, hdata hbefore (List.mem_of_mem_filter hd)⟩
  · obtain ⟨d, hd, rfl⟩ := List.mem_map.mp he
    refine ⟨rfl, ?_, hdata hafter (List.mem_of_mem_filter hd)⟩
    dsimp only
    split <;> rfl

/-! ## What a transition writes -/

/-- The promise that a transition writes at a sequence, with the kind of its event. -/
inductive PromiseWrite (s : EngineState) (id : PromiseId) (p' : Promise) (seq : SequenceNumber) :
    EventKind → Prop
  /-- A new hold starts its history. -/
  | created (absent : id ∉ s.promises) (id_eq : p'.id = id) (version : p'.version = .initial)
      (created : p'.createdSequence = seq) (updated : p'.updatedSequence = seq)
      (active : p'.isActive = true) : PromiseWrite s id p' seq .holdCreated
  /-- A live promise advances. -/
  | advanced {p : Promise} {kind : EventKind} (present : s.promises[id]? = some p)
      (advances : p.Advances p' seq) (ordinary : kind.isDeficit = false)
      (later : kind.matchesData (.promise id p'.version) = true)
      (released : p'.state = .released ↔ kind = .promiseReleased)
      (expired : p'.state = .expired ↔ kind = .holdExpired) : PromiseWrite s id p' seq kind

/-- The pool that a transition writes, with the kind of its event. -/
inductive PoolWrite (s : EngineState) (id : ResourcePoolId) (pool : ResourcePool) :
    EventKind → Prop
  /-- A new pool. -/
  | created (absent : id ∉ s.resourcePools) (id_eq : pool.id = id) :
      PoolWrite s id pool .resourceCreated
  /-- A pool with a new curve. -/
  | revised {old : ResourcePool} (present : s.resourcePools[id]? = some old)
      (id_eq : pool.id = old.id) : PoolWrite s id pool .capacityRevised

/-- What a transition writes. -/
inductive Writes (now : Timestamp) (s : EngineState) : EngineState → Prop
  /-- One promise and its event. -/
  | promise {id : PromiseId} {p' : Promise} {timelines : OrderedMap ResourcePoolId SlackTimeline}
      {seq : SequenceNumber} {kind : EventKind} (next : s.sequence.next = .ok seq)
      (write : PromiseWrite s id p' seq kind) :
      Writes now s (s.withPromise id p' timelines seq now kind)
  /-- One pool, its event and the deficits of the pool. -/
  | pool {id : ResourcePoolId} {pool : ResourcePool} {timeline : SlackTimeline}
      {seq : SequenceNumber} {kind : EventKind} {audit : List Event}
      (next : s.sequence.next = .ok seq) (write : PoolWrite s id pool kind)
      (audits : ∀ e ∈ audit, e.AuditsDeficit s id seq) :
      Writes now s (s.withPool id pool timeline seq now kind audit)

/-- Every transition writes one promise or one pool. -/
theorem Transition.writes {now : Timestamp} {change : Change} {s s' : EngineState}
    (h : Transition now change s s') : Writes now s s' := by
  cases h with
  | expire promise next expired restored =>
    obtain ⟨hadvances, hstate, -⟩ := Promise.expire_eq_ok expired
    exact .promise next (.advanced promise hadvances rfl rfl (by simp [hstate]) (by simp [hstate]))
  | createPool absent next built =>
    exact .pool next (.created absent rfl) (by simp)
  | revise present next indexed before rebuilt after =>
    exact .pool next (.revised present rfl) (revision_audits before after _ now)
  | hold absent next created admitted =>
    obtain ⟨-, rfl⟩ := Promise.withId_eq_ok created
    exact .promise next (.created absent rfl rfl rfl rfl rfl)
  | commit promise next committed =>
    obtain ⟨-, -, hadvances, hstate, -⟩ := Promise.commit_eq_ok committed
    exact .promise next (.advanced promise hadvances rfl rfl (by simp [hstate]) (by simp [hstate]))
  | release promise next released restored =>
    obtain ⟨-, -, hadvances, hstate, -⟩ := Promise.release_eq_ok released
    exact .promise next (.advanced promise hadvances rfl rfl (by simp [hstate]) (by simp [hstate]))
  | @replace _ _ _ _ _ live _ _ _ _ _ promise next replaced givenBack admitted =>
    obtain ⟨-, -, hadvances, hstate, -⟩ := Promise.replace_eq_ok replaced
    refine .promise next (.advanced promise hadvances rfl rfl ?_ ?_) <;>
      cases live <;> simp [hstate, ReplacementState.toPromiseState]

/-! ## The log -/

/-- The history of a promise in the log agrees with the promise. -/
structure HistoryOf (s : EngineState) (id : PromiseId) (p : Promise) : Prop where
  /-- The events carry the versions from one to the current one, at increasing sequences. -/
  history : NumberedLog.History Event.number Event.versionNumber p.version.get.val (s.eventsOf id)
  /-- The first event creates the hold. -/
  first : ∃ e, (s.eventsOf id).head? = some e ∧ e.kind = .holdCreated ∧
    e.sequence = p.createdSequence
  /-- The last event is the latest transition, and says whether the promise has ended. -/
  last : ∃ e, (s.eventsOf id).getLast? = some e ∧ e.sequence = p.updatedSequence ∧
    (p.state = .released ↔ e.kind = .promiseReleased) ∧
    (p.state = .expired ↔ e.kind = .holdExpired)

/-- The event of a transition, followed by the deficits of the pool it is about. -/
structure Group (main : Event) (audit : List Event) : Prop where
  /-- The first event does not record a deficit. -/
  ordinary : main.kind.isDeficit = false
  /-- The other events record deficits of the pool of the first one. -/
  deficits : ∀ e ∈ audit, e.kind.isDeficit = true ∧ ∃ poolId, main.data = .resourcePool poolId ∧
    ∃ interval quantity affected, e.data = .deficit poolId interval quantity affected

/-- The log of a state is complete and agrees with its promises. -/
structure EventLog (s : EngineState) : Prop where
  /-- The sequences do not decrease and are exactly those from one to the current one. -/
  complete : NumberedLog.Complete Event.number s.sequence.get.val s.events
  /-- Under every sequence there is the group of one transition. -/
  groups : ∀ seq : SequenceNumber, 0 < seq.get.val → seq ≤ s.sequence →
    ∃ main audit, s.eventsAt seq = main :: audit ∧ Group main audit
  /-- The events of a promise are its history. -/
  histories : ∀ (id : PromiseId) (p : Promise), s.promises[id]? = some p → s.HistoryOf id p
  /-- There are no events about other promises. -/
  silent : ∀ id : PromiseId, id ∉ s.promises → s.eventsOf id = []

/-- The events under a sequence are those with its number. -/
theorem eventsAt_eq (s : EngineState) (seq : SequenceNumber) :
    s.eventsAt seq = s.events.filter fun e => decide (e.number = seq.get.val) := by
  unfold eventsAt
  refine List.filter_congr ?_
  intro e _
  refine decide_eq_decide.mpr ⟨fun h => congrArg (fun n : SequenceNumber => n.get.val) h, ?_⟩
  intro h
  exact SequenceNumber.get_injective (Subtype.ext h)

/-- The log of the empty state is in order. -/
theorem eventLog_empty : EngineState.empty.EventLog := by
  refine ⟨NumberedLog.complete_nil, ?_, ?_, fun _ _ => rfl⟩
  · intro seq hpos hle
    exact absurd hpos (not_lt.mpr hle)
  · intro id p hp
    rw [EngineState.empty, OrderedMap.lookup_empty] at hp
    cases hp

/-- Appending the group of one transition keeps the log complete. -/
theorem EventLog.appended {s : EngineState} (h : s.EventLog) (s' : EngineState) {main : Event}
    {audit : List Event} {seq : SequenceNumber} (next : s.sequence.next = .ok seq)
    (hevents : s'.events = s.events ++ main :: audit) (hseq : s'.sequence = seq)
    (hnumber : ∀ e ∈ main :: audit, e.sequence = seq) (hgroup : Group main audit) :
    NumberedLog.Complete Event.number s'.sequence.get.val s'.events ∧
      ∀ seq' : SequenceNumber, 0 < seq'.get.val → seq' ≤ s'.sequence →
        ∃ main audit, s'.eventsAt seq' = main :: audit ∧ Group main audit := by
  have hnext := SequenceNumber.next_eq_ok.mp next
  have hnumbers : ∀ e ∈ main :: audit, e.number = s.sequence.get.val + 1 := by
    intro e he
    rw [Event.number, hnumber e he, hnext]
  have hnonneg : 0 ≤ s.sequence.get.val := s.sequence.get.property.1
  constructor
  · rw [hevents, hseq, ← hnext]
    exact h.complete.append hnonneg (List.cons_ne_nil _ _) hnumbers
  · intro seq' hpos hle
    rw [eventsAt_eq, hevents]
    by_cases hold : seq' ≤ s.sequence
    · rw [NumberedLog.filter_append_old hnumbers hold, ← eventsAt_eq]
      exact h.groups seq' hpos hold
    · have heq : seq'.get.val = s.sequence.get.val + 1 := by
        have hlt : s.sequence.get.val < seq'.get.val := not_le.mp hold
        have hle' : seq'.get.val ≤ s'.sequence.get.val := hle
        rw [hseq] at hle'
        omega
      rw [heq, h.complete.filter_append_new hnumbers]
      exact ⟨main, audit, rfl, hgroup⟩

/-- The events of a promise after a promise was written. -/
theorem eventsOf_withPromise (s : EngineState) (id id' : PromiseId) (p : Promise)
    (timelines : OrderedMap ResourcePoolId SlackTimeline) (seq : SequenceNumber) (now : Timestamp)
    (kind : EventKind) :
    (s.withPromise id p timelines seq now kind).eventsOf id' =
      s.eventsOf id' ++ if id = id' then [⟨seq, now, kind, .promise id p.version⟩] else [] := by
  unfold eventsOf withPromise
  rw [List.filter_append]
  split
  · rename_i h
    rw [List.filter_cons_of_pos (by simp [Event.isOf, EventData.promise?, h]), List.filter_nil]
  · rename_i h
    rw [List.filter_cons_of_neg (by simp [Event.isOf, EventData.promise?, h]), List.filter_nil]

/-- The events of a promise after a pool was written. -/
theorem eventsOf_withPool {s : EngineState} {poolId : ResourcePoolId} {pool : ResourcePool}
    {timeline : SlackTimeline} {seq : SequenceNumber} {now : Timestamp} {kind : EventKind}
    {audit : List Event} (audits : ∀ e ∈ audit, e.AuditsDeficit s poolId seq) (id : PromiseId) :
    (s.withPool poolId pool timeline seq now kind audit).eventsOf id = s.eventsOf id := by
  have hnone : audit.filter (Event.isOf id) = [] := by
    rw [List.filter_eq_nil_iff]
    intro e he
    obtain ⟨interval, quantity, affected, hdata, -⟩ := (audits e he).deficit
    rw [Event.isOf, hdata]
    exact Bool.false_ne_true
  unfold eventsOf withPool
  rw [List.filter_append, List.filter_cons_of_neg Bool.false_ne_true, hnone, List.append_nil]

/-- A promise that is written continues its history. -/
theorem EventLog.historyOf_withPromise {s : EngineState} (h : s.EventLog) {id : PromiseId}
    {p' : Promise} {timelines : OrderedMap ResourcePoolId SlackTimeline} {seq : SequenceNumber}
    {now : Timestamp} {kind : EventKind} (next : s.sequence.next = .ok seq)
    (write : PromiseWrite s id p' seq kind) :
    (s.withPromise id p' timelines seq now kind).HistoryOf id p' := by
  have hevents := eventsOf_withPromise s id id p' timelines seq now kind
  rw [if_pos rfl] at hevents
  cases write with
  | created absent id_eq version created updated active =>
    rw [h.silent id absent, List.nil_append] at hevents
    have hone : p'.version.get.val = 1 := by
      rw [version]
      rfl
    have hstate : ¬p'.state = .released ∧ ¬p'.state = .expired := by
      constructor <;> intro hs <;> rw [Promise.isActive, hs] at active <;> cases active
    refine ⟨?_, ?_, ?_⟩
    · rw [hevents, hone]
      exact NumberedLog.history_singleton hone
    · rw [hevents]
      exact ⟨_, rfl, rfl, created.symm⟩
    · rw [hevents]
      exact ⟨_, rfl, updated.symm, by simp [hstate.1], by simp [hstate.2]⟩
  | @advanced p _ present advances ordinary later released expired =>
    obtain ⟨hhistory, ⟨first, hfirst, hcreated, hseq⟩, -⟩ := h.histories id p present
    refine ⟨?_, ?_, ?_⟩
    · rw [hevents, ← advances.version_eq]
      refine hhistory.append advances.version_eq.symm ?_
      intro e he
      have hle : e.number ≤ s.sequence.get.val := h.complete.le (List.mem_of_mem_filter he)
      have hnext := SequenceNumber.next_eq_ok.mp next
      show e.number < seq.get.val
      omega
    · rw [hevents, List.head?_append, hfirst, advances.created_eq]
      exact ⟨first, rfl, hcreated, hseq⟩
    · rw [hevents, List.getLast?_concat]
      exact ⟨_, rfl, advances.updated_eq.symm, released, expired⟩

/-- Every transition keeps the log. -/
theorem EventLog.transition {now : Timestamp} {change : Change} {s s' : EngineState}
    (h : s.EventLog) (hstep : Transition now change s s') : s'.EventLog := by
  cases hstep.writes with
  | @promise id p' timelines seq kind next write =>
    have hordinary : kind.isDeficit = false := by
      cases write with
      | created => rfl
      | advanced _ _ ordinary _ _ _ => exact ordinary
    obtain ⟨hcomplete, hgroups⟩ := h.appended (s.withPromise id p' timelines seq now kind) next rfl rfl (by simp) ⟨hordinary, by simp⟩
    refine ⟨hcomplete, hgroups, ?_, ?_⟩
    · intro id' q hq
      have hlookup : (s.promises.insert id p')[id']? = some q := hq
      rw [OrderedMap.lookup_insert] at hlookup
      split at hlookup
      · rename_i heq
        obtain rfl := Option.some.inj hlookup
        subst heq
        exact h.historyOf_withPromise next write
      · rename_i hne
        have hevents := eventsOf_withPromise s id id' p' timelines seq now kind
        rw [if_neg hne, List.append_nil] at hevents
        obtain ⟨hhistory, hfirst, hlast⟩ := h.histories id' q hlookup
        exact ⟨hevents.symm ▸ hhistory, hevents.symm ▸ hfirst, hevents.symm ▸ hlast⟩
    · intro id' hid'
      rw [eventsOf_withPromise]
      have hnot : ¬(id = id' ∨ id' ∈ s.promises) := fun hmem =>
        hid' (OrderedMap.mem_insert_iff.mpr hmem)
      rw [if_neg fun heq => hnot (.inl heq), h.silent id' fun hmem => hnot (.inr hmem)]
      rfl
  | @pool id pool timeline seq kind audit next write audits =>
    have hgroup : Group ⟨seq, now, kind, .resourcePool id⟩ audit := by
      constructor
      · cases write <;> rfl
      · intro e he
        obtain ⟨interval, quantity, affected, hdata, -⟩ := (audits e he).deficit
        exact ⟨(audits e he).isDeficit, id, rfl, interval, quantity, affected, hdata⟩
    have hnumber : ∀ e ∈ (⟨seq, now, kind, .resourcePool id⟩ : Event) :: audit,
        e.sequence = seq := by
      intro e he
      rcases List.mem_cons.mp he with rfl | he
      · rfl
      · exact (audits e he).sequence_eq
    obtain ⟨hcomplete, hgroups⟩ := h.appended
      (s.withPool id pool timeline seq now kind audit) next rfl rfl hnumber hgroup
    refine ⟨hcomplete, hgroups, ?_, ?_⟩
    · intro id' p hp
      have hevents : (s.withPool id pool timeline seq now kind audit).eventsOf id' =
          s.eventsOf id' := eventsOf_withPool audits id'
      obtain ⟨hhistory, hfirst, hlast⟩ := h.histories id' p hp
      exact ⟨hevents.symm ▸ hhistory, hevents.symm ▸ hfirst, hevents.symm ▸ hlast⟩
    · intro id' hid'
      rw [eventsOf_withPool audits]
      exact h.silent id' hid'

end EngineState

end PromiseDb
