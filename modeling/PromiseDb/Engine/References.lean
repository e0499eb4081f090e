import PromiseDb.Engine.Answers

/-!
# What a state refers to

In a reachable state every pool and every promise is stored under its own identity, histories
stay within the sequence of the state, and everything that an event or a cached response names
exists.  These are the facts that a restored state is checked for.
-/

namespace PromiseDb

namespace EngineState

/-- The payload of an event names entities of the state. -/
def NamesEvent (s : EngineState) (data : EventData) : Prop :=
  Engine.snapshotEventValid s.resourcePools s.promises data = true

/-- Everything that the state stores and its log names is in order. -/
structure References (s : EngineState) : Prop where
  /-- A pool is stored under its identity. -/
  poolIds : ∀ (id : ResourcePoolId) (pool : ResourcePool), s.resourcePools[id]? = some pool →
    pool.id = id
  /-- A promise is stored under its identity. -/
  promiseIds : ∀ (id : PromiseId) (p : Promise), s.promises[id]? = some p → p.id = id
  /-- The history of a promise does not run backwards. -/
  histories : ∀ (id : PromiseId) (p : Promise), s.promises[id]? = some p → p.Valid
  /-- The history of a promise stays within the sequence. -/
  updated : ∀ (id : PromiseId) (p : Promise), s.promises[id]? = some p →
    p.updatedSequence ≤ s.sequence
  /-- Events are well formed. -/
  events : ∀ e ∈ s.events, e.Valid
  /-- Events name existing entities. -/
  named : ∀ e ∈ s.events, s.NamesEvent e.data

/-- The empty state refers to nothing. -/
theorem references_empty : EngineState.empty.References := by
  constructor
  · intro id pool h
    rw [EngineState.empty, OrderedMap.lookup_empty] at h
    cases h
  · intro id p h
    rw [EngineState.empty, OrderedMap.lookup_empty] at h
    cases h
  · intro id p h
    rw [EngineState.empty, OrderedMap.lookup_empty] at h
    cases h
  · intro id p h
    rw [EngineState.empty, OrderedMap.lookup_empty] at h
    cases h
  · intro e he
    cases he
  · intro e he
    cases he

/-- What an event names stays there while the state grows. -/
theorem NamesEvent.grows {s s' : EngineState} (h : s.Grows s') {data : EventData}
    (hdata : s.NamesEvent data) : s'.NamesEvent data := by
  cases data with
  | resourcePool resourcePoolId =>
    exact OrderedMap.contains_iff.mpr (h.pools _ (OrderedMap.contains_iff.mp hdata))
  | promise id version => exact reachedVersion_iff.mpr ((reachedVersion_iff.mp hdata).grows h)
  | deficit resourcePoolId interval quantity affectedPromiseIds =>
    obtain ⟨hpool, hids⟩ := Bool.and_eq_true_iff.mp hdata
    refine Bool.and_eq_true_iff.mpr ⟨?_, all_contains_iff.mpr ?_⟩
    · exact OrderedMap.contains_iff.mpr (h.pools _ (OrderedMap.contains_iff.mp hpool))
    · exact fun id hid => h.mem_promises (all_contains_iff.mp hids id hid)

/-- The promise that a transition writes is in order. -/
theorem PromiseWrite.spec {s : EngineState} {id : PromiseId} {p' : Promise} {seq : SequenceNumber}
    {kind : EventKind} (hs : s.References) (next : s.sequence.next = .ok seq)
    (write : PromiseWrite s id p' seq kind) :
    p'.id = id ∧ p'.Valid ∧ p'.updatedSequence = seq ∧
      kind.matchesData (.promise id p'.version) = true := by
  have hnext := SequenceNumber.next_eq_ok.mp next
  have hnonneg := s.sequence.get.property.1
  cases write with
  | created absent id_eq version created updated active =>
    refine ⟨id_eq, ⟨?_, ?_⟩, updated, rfl⟩
    · rw [created]
      omega
    · rw [created, updated]
  | advanced present advances ordinary later released expired =>
    obtain ⟨hzero, hle⟩ := hs.histories _ _ present
    refine ⟨advances.id_eq.trans (hs.promiseIds _ _ present), ⟨?_, ?_⟩, advances.updated_eq, later⟩
    · rw [advances.created_eq]
      exact hzero
    · rw [advances.created_eq, advances.updated_eq]
      have hupdated : _ ≤ s.sequence.get.val := hle.trans (hs.updated _ _ present)
      show _ ≤ seq.get.val
      omega

/-- A deficit event of a transition is in order. -/
theorem auditsDeficit_spec {s : EngineState} {poolId : ResourcePoolId} {seq : SequenceNumber}
    {e : Event} (h : e.AuditsDeficit s poolId seq) (hseq : seq.get.val ≠ 0) :
    e.Valid ∧ ∀ s' : EngineState, poolId ∈ s'.resourcePools → s'.promises = s.promises →
      s'.NamesEvent e.data := by
  obtain ⟨hsequence, hkind, interval, quantity, affected, hdata, hquantity, hsorted, hknown⟩ := h
  refine ⟨⟨?_, ?_, ?_⟩, ?_⟩
  · rw [hdata]
    cases hk : e.kind <;> rw [hk] at hkind <;> first | rfl | cases hkind
  · rw [hsequence]
    exact hseq
  · rw [hdata, EventData.isOrdered, Bool.and_eq_true_iff]
    exact ⟨decide_eq_true hquantity, hsorted⟩
  · intro s' hpool hpromises
    rw [hdata]
    refine Bool.and_eq_true_iff.mpr ⟨OrderedMap.contains_iff.mpr hpool, all_contains_iff.mpr ?_⟩
    rw [hpromises]
    exact hknown

/-- Every transition keeps the references of a state. -/
theorem References.transition {now : Timestamp} {change : Change} {s s' : EngineState}
    (hs : s.References) (hstep : Transition now change s s') : s'.References := by
  have hgrows := hstep.grows
  have hold : ∀ e ∈ s.events, s'.NamesEvent e.data := fun e he => (hs.named e he).grows hgrows
  cases hstep.writes with
  | @promise id p' timelines seq kind next write =>
    obtain ⟨hid, hvalid, hupdated, hkind⟩ := write.spec hs next
    have hnext := SequenceNumber.next_eq_ok.mp next
    have hnonneg := s.sequence.get.property.1
    have hlookup {P : Promise → Prop} (hnew : P p')
        (holds : ∀ (id : PromiseId) (q : Promise), s.promises[id]? = some q → P q)
        (id' : PromiseId) (q : Promise)
        (hq : (s.withPromise id p' timelines seq now kind).promises[id']? = some q) : P q := by
      rcases eq_or_ne id id' with rfl | hne
      · rw [withPromise, OrderedMap.lookup_insert_self] at hq
        exact Option.some.inj hq ▸ hnew
      · rw [withPromise, OrderedMap.lookup_insert_of_ne _ hne] at hq
        exact holds id' q hq
    refine ⟨hs.poolIds, ?_, ?_, ?_, ?_, ?_⟩
    · intro id' q hq
      rcases eq_or_ne id id' with rfl | hne
      · rw [withPromise, OrderedMap.lookup_insert_self] at hq
        exact Option.some.inj hq ▸ hid
      · rw [withPromise, OrderedMap.lookup_insert_of_ne _ hne] at hq
        exact hs.promiseIds id' q hq
    · exact hlookup hvalid hs.histories
    · exact hlookup hupdated.le fun id q hq => (hs.updated id q hq).trans hgrows.sequence
    · intro e he
      rcases List.mem_append.mp he with he | he
      · exact hs.events e he
      · obtain rfl := List.mem_singleton.mp he
        refine ⟨hkind, ?_, rfl⟩
        show seq.get.val ≠ 0
        omega
    · intro e he
      rcases List.mem_append.mp he with he | he
      · exact hold e he
      · obtain rfl := List.mem_singleton.mp he
        exact reachedVersion_iff.mpr (hasReached_withPromise s id p' timelines seq now kind)
  | @pool id pool timeline seq kind audit next write audits =>
    have hnext := SequenceNumber.next_eq_ok.mp next
    have hnonneg := s.sequence.get.property.1
    have hseq : seq.get.val ≠ 0 := by omega
    have hmem : id ∈ (s.withPool id pool timeline seq now kind audit).resourcePools :=
      OrderedMap.mem_insert_iff.mpr (.inl rfl)
    refine ⟨?_, hs.promiseIds, hs.histories, ?_, ?_, ?_⟩
    · intro id' q hq
      rcases eq_or_ne id id' with rfl | hne
      · rw [withPool, OrderedMap.lookup_insert_self] at hq
        obtain rfl := Option.some.inj hq
        cases write with
        | created absent id_eq => exact id_eq
        | revised present id_eq => exact id_eq.trans (hs.poolIds _ _ present)
      · rw [withPool, OrderedMap.lookup_insert_of_ne _ hne] at hq
        exact hs.poolIds id' q hq
    · exact fun id' p hp => (hs.updated id' p hp).trans hgrows.sequence
    · intro e he
      rcases List.mem_append.mp he with he | he
      · exact hs.events e he
      · rcases List.mem_cons.mp he with rfl | he
        · refine ⟨?_, hseq, rfl⟩
          cases write <;> rfl
        · exact (auditsDeficit_spec (audits e he) hseq).1
    · intro e he
      rcases List.mem_append.mp he with he | he
      · exact hold e he
      · rcases List.mem_cons.mp he with rfl | he
        · exact OrderedMap.contains_iff.mpr hmem
        · exact (auditsDeficit_spec (audits e he) hseq).2 _ hmem rfl

/-- The references do not depend on the cached responses. -/
theorem References.records {s : EngineState} (hs : s.References)
    (records : OrderedMap Identity IdempotencyRecord) :
    { s with idempotencyRecords := records }.References :=
  ⟨hs.poolIds, hs.promiseIds, hs.histories, hs.updated, hs.events, hs.named⟩

/-! ## Cached responses -/

/-- Every cached response is valid and names entities of the state. -/
def RecordsNamed (s : EngineState) : Prop :=
  ∀ (identity : Identity) (record : IdempotencyRecord),
    s.idempotencyRecords[identity]? = some record →
    ResponseValid record.response ∧ s.Names record.response

end EngineState

namespace Engine

open EngineState

variable {blake3 : List UInt8 → CommandHash}

/-- The state grows while a command is executed. -/
theorem executeOnce_grows (s : EngineState) (command : Command) (now : Timestamp) :
    s.Grows (executeOnce blake3 s command now).2 := by
  rw [executeOnce_snd]
  exact (applyOnce_grows command.operation now s).records _

/-- The response to a first-seen command is valid and names entities of the state after it. -/
theorem executeOnce_answer {s : EngineState} (hs : s.IndexExact) (command : Command)
    (now : Timestamp) :
    ResponseValid (executeOnce blake3 s command now).1 ∧
      (executeOnce blake3 s command now).2.Names (executeOnce blake3 s command now).1 := by
  rw [executeOnce_fst, executeOnce_snd]
  cases hrun : applyOnce command.operation now s with
  | ok result s' =>
    obtain ⟨hvalid, hnames⟩ := applyOnce_answer hs hrun
    exact ⟨hvalid, hnames⟩
  | error error s' => exact ⟨trivial, rfl⟩

/-- Executing a command keeps the cached responses in order. -/
theorem recordsNamed_executeOnce {s : EngineState} (hs : s.IndexExact) (h : s.RecordsNamed)
    (command : Command) (now : Timestamp) :
    (executeOnce blake3 s command now).2.RecordsNamed := by
  intro identity record hrecord
  rcases eq_or_ne command.identity identity with rfl | hne
  · rw [executeOnce_record] at hrecord
    obtain rfl := Option.some.inj hrecord
    exact executeOnce_answer hs command now
  · rw [executeOnce_record_of_ne s now hne] at hrecord
    obtain ⟨hvalid, hnames⟩ := h identity record hrecord
    exact ⟨hvalid, hnames.grows (executeOnce_grows s command now)⟩

/-- In every reachable engine the references are in order. -/
theorem Reachable.references {e : Engine} (h : Reachable blake3 e) : e.state.References :=
  Reachable.invariant references_empty (fun _ _ _ _ hs => hs.transition)
    (fun _ records hs => hs.records records) h

/-- In every reachable engine the cached responses are in order. -/
theorem Reachable.recordsNamed {e : Engine} (h : Reachable blake3 e) : e.state.RecordsNamed := by
  induction h with
  | empty =>
    intro identity record hrecord
    rw [Engine.empty, EngineState.empty, OrderedMap.lookup_empty] at hrecord
    cases hrecord
  | @apply e command now h _ ih =>
    obtain ⟨record, -, heq⟩ | ⟨-, -, heq⟩ | ⟨next, -, -, heq⟩ :=
      apply_cases e command now <;> rw [heq]
    · exact ih
    · exact ih
    · exact recordsNamed_executeOnce (Reachable.indexExact h) ih command now

end Engine

end PromiseDb
