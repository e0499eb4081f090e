import PromiseDb.Engine.Batch
import PromiseDb.Engine.Indistinguishable

/-!
# Capture, restore and install

Capturing a state lists its authoritative data in key order; restoring inserts the lists into
empty maps after checking order, bounds and references.  Installing the durable effects of a
command inserts the changed pools and promises, the events and the cached response.  On sound
states all these checks pass: restoring gives the state back without its timelines, installing
gives the state after the command without its timelines, and rebuilding them gives an engine
with the slack of the live one.
-/

namespace PromiseDb

namespace EngineState

/-- A state without its derived timelines. -/
def unindexed (s : EngineState) : EngineState := { s with slackTimelines := ∅ }

/-- Entities are stored under their identities, promises have valid histories and claims on existing
pools, and events come in order up to the sequence. -/
structure InOrder (s : EngineState) : Prop where
  poolIds : ∀ (id : ResourcePoolId) (pool : ResourcePool), s.resourcePools[id]? = some pool →
    pool.id = id
  promiseIds : ∀ (id : PromiseId) (p : Promise), s.promises[id]? = some p → p.id = id
  promises : ∀ (id : PromiseId) (p : Promise), s.promises[id]? = some p →
    p.Valid ∧ p.updatedSequence ≤ s.sequence ∧ Engine.claimPoolsExist s.resourcePools p = true
  events : s.events.Pairwise fun a b => a.sequence ≤ b.sequence
  bounded : ∀ event ∈ s.events, event.sequence ≤ s.sequence

end EngineState

namespace Engine

open EngineState

/-- An engine without its derived timelines. -/
def unindexed (e : Engine) : Engine := ⟨e.state.unindexed, e.publicationRevision⟩

/-! ## Entities in key order -/

/-- Entities whose identities increase pass the check against the previous one. -/
theorem increasing_cons {A K : Type} [LinearOrder K] {id : A → K} {previous : Option K} {a : A}
    {rest : List A} (h : (a :: rest).Pairwise fun a b => id a < id b)
    (hprevious : ∀ k ∈ previous, ∀ b ∈ a :: rest, k < id b) :
    (previous.any fun k => decide (k ≥ id a)) = false ∧
      (rest.Pairwise fun a b => id a < id b) ∧ ∀ k ∈ some (id a), ∀ b ∈ rest, k < id b := by
  obtain ⟨hfirst, hrest⟩ := List.pairwise_cons.mp h
  refine ⟨?_, hrest, ?_⟩
  · cases previous with
    | none => rfl
    | some k =>
      have hlt : k < id a := hprevious k rfl a List.mem_cons_self
      simpa using hlt
  · intro k hk b hb
    cases hk
    exact hfirst b hb

/-- Conversely, what passes the check against the previous one increases. -/
theorem increasing_of_check {A K : Type} [LinearOrder K] {id : A → K} {previous : Option K} {a : A}
    {rest : List A} (hcheck : ¬(previous.any fun k => decide (k ≥ id a)) = true)
    (hrest : (rest.Pairwise fun a b => id a < id b) ∧ ∀ k ∈ some (id a), ∀ b ∈ rest, k < id b) :
    ((a :: rest).Pairwise fun a b => id a < id b) ∧
      ∀ k ∈ previous, ∀ b ∈ a :: rest, k < id b := by
  obtain ⟨hpairwise, hnext⟩ := hrest
  refine ⟨List.pairwise_cons.mpr ⟨hnext (id a) rfl, hpairwise⟩, ?_⟩
  intro k hk b hb
  have hlt : k < id a := by
    rw [Option.mem_def.mp hk, Option.any_some, decide_eq_true_eq] at hcheck
    exact not_le.mp hcheck
  rcases List.mem_cons.mp hb with rfl | hb
  · exact hlt
  · exact hlt.trans (hnext (id a) rfl b hb)

/-- Pools whose identities increase are inserted. -/
theorem restorePools_eq {l : List ResourcePool} (hl : l.Pairwise fun a b => a.id < b.id)
    {previous : Option ResourcePoolId} (hprevious : ∀ k ∈ previous, ∀ b ∈ l, k < b.id)
    (pools : OrderedMap ResourcePoolId ResourcePool) :
    restorePools pools previous l =
      .ok (OrderedMap.insertAll ResourcePool.id (fun pool => pool) pools l) := by
  induction l generalizing previous pools with
  | nil => rfl
  | cons pool rest ih =>
    obtain ⟨hcheck, hrest, hnext⟩ := increasing_cons hl hprevious
    rw [restorePools, hcheck, if_neg Bool.false_ne_true]
    exact ih hrest hnext _

/-- Promises in order are inserted. -/
theorem restorePromises_eq {pools : OrderedMap ResourcePoolId ResourcePool}
    {sequence : SequenceNumber} {l : List Promise} (hl : l.Pairwise fun a b => a.id < b.id)
    {previous : Option PromiseId} (hprevious : ∀ k ∈ previous, ∀ b ∈ l, k < b.id)
    (hvalid : ∀ p ∈ l, p.Valid ∧ p.updatedSequence ≤ sequence ∧ claimPoolsExist pools p = true)
    (promises : OrderedMap PromiseId Promise) :
    restorePromises pools sequence promises previous l =
      .ok (OrderedMap.insertAll Promise.id (fun p => p) promises l) := by
  induction l generalizing previous promises with
  | nil => rfl
  | cons p rest ih =>
    obtain ⟨hcheck, hrest, hnext⟩ := increasing_cons hl hprevious
    obtain ⟨⟨hzero, hle⟩, hupdated, hpools⟩ := hvalid p List.mem_cons_self
    rw [restorePromises, hcheck, hpools, decide_eq_false hzero, decide_eq_false (not_lt.mpr hle),
      decide_eq_false (not_lt.mpr hupdated)]
    exact ih hrest hnext (fun q hq => hvalid q (List.mem_cons_of_mem p hq)) _

/-- Promises in order that are valid are installed, each under its identity. -/
theorem installPromises_eq {sequence : SequenceNumber} {l : List Promise}
    (hl : l.Pairwise fun a b => a.id < b.id) {previous : Option PromiseId}
    (hprevious : ∀ k ∈ previous, ∀ b ∈ l, k < b.id)
    (hvalid : ∀ p ∈ l, p.Valid ∧ p.updatedSequence ≤ sequence)
    (promises : OrderedMap PromiseId Promise) :
    installPromises sequence promises previous l =
      .ok (OrderedMap.insertAll Promise.id (fun p => p) promises l) := by
  induction l generalizing previous promises with
  | nil => rfl
  | cons p rest ih =>
    obtain ⟨hcheck, hrest, hnext⟩ := increasing_cons hl hprevious
    obtain ⟨⟨-, hle⟩, hupdated⟩ := hvalid p List.mem_cons_self
    rw [installPromises, hcheck, decide_eq_false (not_lt.mpr hle),
      decide_eq_false (not_lt.mpr hupdated)]
    exact ih hrest hnext (fun q hq => hvalid q (List.mem_cons_of_mem p hq)) _

/-- Events in order that name existing entities are accepted. -/
theorem checkEvents_eq {pools : OrderedMap ResourcePoolId ResourcePool}
    {promises : OrderedMap PromiseId Promise} {sequence : SequenceNumber} {l : List Event}
    (hl : l.Pairwise fun a b => a.sequence ≤ b.sequence) {previous : Option SequenceNumber}
    (hprevious : ∀ k ∈ previous, ∀ e ∈ l, k ≤ e.sequence)
    (hvalid : ∀ e ∈ l, e.sequence ≤ sequence ∧ snapshotEventValid pools promises e.data = true) :
    checkEvents pools promises sequence previous l = .ok () := by
  induction l generalizing previous with
  | nil => rfl
  | cons e rest ih =>
    obtain ⟨hfirst, hrest⟩ := List.pairwise_cons.mp hl
    obtain ⟨hsequence, hnamed⟩ := hvalid e List.mem_cons_self
    have hcheck : (previous.any fun k => decide (k > e.sequence)) = false := by
      cases previous with
      | none => rfl
      | some k => simpa using hprevious k rfl e List.mem_cons_self
    rw [checkEvents, hcheck, hnamed, decide_eq_false (not_lt.mpr hsequence)]
    refine ih hrest ?_ fun e' he' => hvalid e' (List.mem_cons_of_mem e he')
    intro k hk e' he'
    cases hk
    exact hfirst e' he'

/-- Conversely, events that are accepted name existing entities. -/
theorem checkEvents_ok {pools : OrderedMap ResourcePoolId ResourcePool}
    {promises : OrderedMap PromiseId Promise} {sequence : SequenceNumber} {l : List Event}
    {previous : Option SequenceNumber} (h : checkEvents pools promises sequence previous l = .ok ()) :
    ∀ e ∈ l, snapshotEventValid pools promises e.data = true := by
  induction l generalizing previous with
  | nil => exact fun e he => by cases he
  | cons e rest ih =>
    rw [checkEvents] at h
    split at h
    · cases h
    split at h
    · cases h
    rename_i hnamed
    intro e' he'
    rcases List.mem_cons.mp he' with rfl | he'
    · simpa using hnamed
    · exact ih h e' he'

/-- The identity of a captured record. -/
def recordIdentity (entry : ClientId × IdempotencyKey × CommandHash × CommandResponse) : Identity :=
  toLex (entry.1, entry.2.1)

/-- The content of a captured record. -/
def recordContent (entry : ClientId × IdempotencyKey × CommandHash × CommandResponse) :
    IdempotencyRecord :=
  ⟨entry.2.2.1, entry.2.2.2⟩

/-- Records in order that name existing entities are inserted. -/
theorem restoreRecords_eq {pools : OrderedMap ResourcePoolId ResourcePool}
    {promises : OrderedMap PromiseId Promise} {sequence : SequenceNumber}
    {l : List (ClientId × IdempotencyKey × CommandHash × CommandResponse)}
    (hl : l.Pairwise fun a b => recordIdentity a < recordIdentity b) {previous : Option Identity}
    (hprevious : ∀ k ∈ previous, ∀ b ∈ l, k < recordIdentity b)
    (hvalid : ∀ entry ∈ l, responseReferencesValid entry.2.2.2 pools promises sequence = true)
    (records : OrderedMap Identity IdempotencyRecord) :
    restoreRecords pools promises sequence records previous l =
      .ok (OrderedMap.insertAll recordIdentity recordContent records l) := by
  induction l generalizing previous records with
  | nil => rfl
  | cons entry rest ih =>
    obtain ⟨hcheck, hrest, hnext⟩ := increasing_cons hl hprevious
    obtain ⟨client, key, hash, response⟩ := entry
    have hnamed := hvalid _ List.mem_cons_self
    have hcheck' : (previous.any fun previous => decide (previous ≥ toLex (client, key))) = false :=
      hcheck
    rw [restoreRecords, hnamed]
    dsimp only
    rw [hcheck', if_neg Bool.false_ne_true]
    exact ih hrest hnext (fun entry hentry => hvalid entry (List.mem_cons_of_mem _ hentry)) _

/-- Conversely, records that are accepted name existing entities. -/
theorem restoreRecords_ok {pools : OrderedMap ResourcePoolId ResourcePool}
    {promises : OrderedMap PromiseId Promise} {sequence : SequenceNumber}
    {l : List (ClientId × IdempotencyKey × CommandHash × CommandResponse)}
    {previous : Option Identity} {records result : OrderedMap Identity IdempotencyRecord}
    (h : restoreRecords pools promises sequence records previous l = .ok result) :
    ∀ entry ∈ l, responseReferencesValid entry.2.2.2 pools promises sequence = true := by
  induction l generalizing previous records with
  | nil => exact fun entry hentry => by cases hentry
  | cons entry rest ih =>
    obtain ⟨client, key, hash, response⟩ := entry
    rw [restoreRecords] at h
    split at h
    · cases h
    rename_i hnamed
    dsimp only at h
    split at h
    · cases h
    intro entry hentry
    rcases List.mem_cons.mp hentry with rfl | hentry
    · simpa using hnamed
    · exact ih h entry hentry

/-! ## Captured states -/

/-- Every claim of a stored promise is on an existing pool. -/
theorem claimPoolsExist_eq {s : EngineState} (h : s.IndexExact) {id : PromiseId} {p : Promise}
    (hp : s.promises[id]? = some p) : claimPoolsExist s.resourcePools p = true := by
  rw [claimPoolsExist, List.all_eq_true]
  intro c hc
  exact OrderedMap.contains_iff.mpr (h.claims id p hp c hc)

/-- The captured records come in the order of their identities. -/
theorem capturedRecords_sorted (records : OrderedMap Identity IdempotencyRecord) :
    (records.toList.map fun (identity, record) =>
      ((ofLex identity).1, (ofLex identity).2, record.commandHash, record.response)).Pairwise
      fun a b => recordIdentity a < recordIdentity b :=
  List.pairwise_map.mpr (OrderedMap.toList_sorted records)

/-- Inserting the captured records gives them back. -/
theorem insertAll_capturedRecords (records : OrderedMap Identity IdempotencyRecord) :
    OrderedMap.insertAll recordIdentity recordContent ∅ (records.toList.map
      fun (identity, record) =>
        ((ofLex identity).1, (ofLex identity).2, record.commandHash, record.response)) =
      records := by
  apply OrderedMap.insertAll_eq
  · exact (capturedRecords_sorted records).imp fun h => h.ne
  · intro entry hentry
    obtain ⟨e, he, rfl⟩ := List.mem_map.mp hentry
    exact OrderedMap.mem_toList.mp he
  · intro identity hidentity
    rw [OrderedMap.lookup_empty, eq_comm, ← OrderedMap.not_mem_iff_lookup]
    intro hmem
    obtain ⟨record, hrecord⟩ := OrderedMap.mem_iff_lookup.mp hmem
    have he : (identity, record) ∈ records.toList := OrderedMap.mem_toList.mpr hrecord
    exact hidentity _ (List.mem_map_of_mem he) rfl

/-- A snapshot is restored when each of its parts is. -/
theorem restoreSnapshotUnindexed_eq {snapshot : EngineSnapshot}
    {pools : OrderedMap ResourcePoolId ResourcePool} {promises : OrderedMap PromiseId Promise}
    {records : OrderedMap Identity IdempotencyRecord}
    (hpruned : snapshot.eventsPrunedThrough.get.val = 0)
    (hpools : restorePools ∅ none snapshot.resourcePools = .ok pools)
    (hpromises : restorePromises pools snapshot.sequence ∅ none snapshot.promises = .ok promises)
    (hevents : checkEvents pools promises snapshot.sequence none snapshot.events = .ok ())
    (hrecords : restoreRecords pools promises snapshot.sequence ∅ none
      snapshot.idempotencyRecords = .ok records) :
    restoreSnapshotUnindexed snapshot =
      .ok ⟨⟨pools, ∅, promises, snapshot.events, records, snapshot.sequence⟩,
        snapshot.publicationRevision⟩ := by
  unfold restoreSnapshotUnindexed
  dsimp only
  rw [if_neg (not_not_intro hpruned), hpools, Except.ok_bind, hpromises, Except.ok_bind, hevents,
    Except.ok_bind, hrecords]
  rfl

/-- Conversely, each part of a snapshot that is restored is. -/
theorem restoreSnapshotUnindexed_ok {snapshot : EngineSnapshot} {e : Engine}
    (h : restoreSnapshotUnindexed snapshot = .ok e) :
    ∃ pools promises records, snapshot.eventsPrunedThrough.get.val = 0 ∧
      restorePools ∅ none snapshot.resourcePools = .ok pools ∧
      restorePromises pools snapshot.sequence ∅ none snapshot.promises = .ok promises ∧
      checkEvents pools promises snapshot.sequence none snapshot.events = .ok () ∧
      restoreRecords pools promises snapshot.sequence ∅ none snapshot.idempotencyRecords =
        .ok records ∧
      e = ⟨⟨pools, ∅, promises, snapshot.events, records, snapshot.sequence⟩,
        snapshot.publicationRevision⟩ := by
  have hpruned : snapshot.eventsPrunedThrough.get.val = 0 := by
    by_contra hne
    rw [restoreSnapshotUnindexed, if_pos hne] at h
    cases h
  rw [restoreSnapshotUnindexed, if_neg (not_not_intro hpruned)] at h
  obtain ⟨pools, hpools, h⟩ := Except.bind_eq_ok.mp h
  obtain ⟨promises, hpromises, h⟩ := Except.bind_eq_ok.mp h
  obtain ⟨⟨⟩, hevents, h⟩ := Except.bind_eq_ok.mp h
  obtain ⟨records, hrecords, h⟩ := Except.bind_eq_ok.mp h
  exact ⟨pools, promises, records, hpruned, hpools, hpromises, hevents, hrecords,
    (Except.ok.inj h).symm⟩

/-- The pools that are restored from a capture. -/
theorem restorePools_capture {e : Engine} (h : e.state.InOrder) :
    restorePools ∅ none (captureSnapshot e).resourcePools = .ok e.state.resourcePools := by
  apply (restorePools_eq (OrderedMap.vals_sorted h.poolIds) (fun k hk => by cases hk) ∅).trans
  exact congrArg Except.ok (OrderedMap.insertAll_vals h.poolIds)

/-- The promises that are restored from a capture. -/
theorem restorePromises_capture {e : Engine} (h : e.state.InOrder) :
    restorePromises e.state.resourcePools e.state.sequence ∅ none (captureSnapshot e).promises =
      .ok e.state.promises := by
  have hvalid : ∀ p ∈ OrderedMap.vals e.state.promises, p.Valid ∧
      p.updatedSequence ≤ e.state.sequence ∧ claimPoolsExist e.state.resourcePools p = true := by
    intro p hp
    obtain ⟨id, hid⟩ := OrderedMap.mem_vals.mp hp
    exact h.promises id p hid
  apply (restorePromises_eq (OrderedMap.vals_sorted h.promiseIds) (fun k hk => by cases hk)
    hvalid ∅).trans
  exact congrArg Except.ok (OrderedMap.insertAll_vals h.promiseIds)

/-- A state in order whose events and cached responses only name what it has reached is restored from
its capture, without its timelines. -/
theorem restore_inOrder {e : Engine} (h : e.state.InOrder)
    (hevents : ∀ event ∈ e.state.events, e.state.NamesEvent event.data)
    (hrecords : ∀ (identity : Identity) (record : IdempotencyRecord),
      e.state.idempotencyRecords[identity]? = some record → e.state.Names record.response) :
    restoreSnapshotUnindexed (captureSnapshot e) = .ok e.unindexed := by
  have hchecked : checkEvents e.state.resourcePools e.state.promises e.state.sequence none
      e.state.events = .ok () := by
    apply checkEvents_eq h.events
    · intro k hk
      cases hk
    · exact fun event hevent => ⟨h.bounded event hevent, hevents event hevent⟩
  have hrestored : restoreRecords e.state.resourcePools e.state.promises e.state.sequence ∅ none
      (captureSnapshot e).idempotencyRecords = .ok e.state.idempotencyRecords := by
    rw [captureSnapshot, restoreRecords_eq (capturedRecords_sorted _) (fun k hk => by cases hk),
      insertAll_capturedRecords]
    intro entry hentry
    obtain ⟨⟨identity, record⟩, he, rfl⟩ := List.mem_map.mp hentry
    exact hrecords identity record (OrderedMap.mem_toList.mp he)
  exact restoreSnapshotUnindexed_eq rfl (restorePools_capture h) (restorePromises_capture h)
    hchecked hrestored

/-- A state in order is restored from its capture exactly when its events and its cached responses
only name what it has reached. -/
theorem restore_capture_iff {e : Engine} (h : e.state.InOrder) :
    (∃ restored, restoreSnapshotUnindexed (captureSnapshot e) = .ok restored) ↔
      (∀ event ∈ e.state.events, e.state.NamesEvent event.data) ∧
        ∀ (identity : Identity) (record : IdempotencyRecord),
          e.state.idempotencyRecords[identity]? = some record → e.state.Names record.response := by
  constructor
  · rintro ⟨restored, hrestored⟩
    obtain ⟨pools, promises, records, -, hpools, hpromises, hevents, hrecords, -⟩ :=
      restoreSnapshotUnindexed_ok hrestored
    obtain rfl := Except.ok.inj ((restorePools_capture h).symm.trans hpools)
    obtain rfl := Except.ok.inj ((restorePromises_capture h).symm.trans hpromises)
    refine ⟨checkEvents_ok hevents, ?_⟩
    intro identity record hrecord
    have he : (identity, record) ∈ e.state.idempotencyRecords.toList :=
      OrderedMap.mem_toList.mpr hrecord
    exact restoreRecords_ok hrecords _ (List.mem_map_of_mem he)
  · rintro ⟨hevents, hrecords⟩
    exact ⟨_, restore_inOrder h hevents hrecords⟩

/-- Restoring a captured state gives it back without its timelines. -/
theorem restore_capture {e : Engine} (h : e.state.Sound) :
    restoreSnapshotUnindexed (captureSnapshot e) = .ok e.unindexed := by
  have horder : e.state.InOrder := by
    refine ⟨h.references.poolIds, h.references.promiseIds, ?_, h.log.complete.sorted, ?_⟩
    · exact fun id p hp => ⟨h.references.histories id p hp, h.references.updated id p hp,
        claimPoolsExist_eq h.index hp⟩
    · exact fun event hevent => h.log.complete.le hevent
  apply restore_inOrder horder h.references.named
  exact fun identity record hrecord => (h.records identity record hrecord).2

/-! ## Restored snapshots -/

/-- The identities of restored pools increase. -/
theorem restorePools_sorted {pools result : OrderedMap ResourcePoolId ResourcePool}
    {previous : Option ResourcePoolId} {l : List ResourcePool}
    (h : restorePools pools previous l = .ok result) :
    (l.Pairwise fun a b => a.id < b.id) ∧ ∀ k ∈ previous, ∀ b ∈ l, k < b.id := by
  induction l generalizing previous pools with
  | nil => exact ⟨.nil, fun k _ b hb => by cases hb⟩
  | cons pool rest ih =>
    rw [restorePools] at h
    split at h
    · cases h
    · rename_i hcheck
      exact increasing_of_check hcheck (ih h)

/-- The identities of restored promises increase. -/
theorem restorePromises_sorted {pools : OrderedMap ResourcePoolId ResourcePool}
    {sequence : SequenceNumber} {promises result : OrderedMap PromiseId Promise}
    {previous : Option PromiseId} {l : List Promise}
    (h : restorePromises pools sequence promises previous l = .ok result) :
    (l.Pairwise fun a b => a.id < b.id) ∧ (∀ k ∈ previous, ∀ b ∈ l, k < b.id) ∧
      result = OrderedMap.insertAll Promise.id (fun p => p) promises l := by
  induction l generalizing previous promises with
  | nil => exact ⟨.nil, (fun k _ b hb => by cases hb), (Except.ok.inj h).symm⟩
  | cons p rest ih =>
    rw [restorePromises] at h
    split at h
    · cases h
    · rename_i hcheck
      simp only [Bool.or_eq_true, not_or] at hcheck
      obtain ⟨hrest, hnext, hresult⟩ := ih h
      obtain ⟨hpairwise, hprevious⟩ := increasing_of_check hcheck.1.1.1.1 ⟨hrest, hnext⟩
      exact ⟨hpairwise, hprevious, hresult⟩

/-- The identities of restored records increase. -/
theorem restoreRecords_sorted {pools : OrderedMap ResourcePoolId ResourcePool}
    {promises : OrderedMap PromiseId Promise} {sequence : SequenceNumber}
    {records result : OrderedMap Identity IdempotencyRecord} {previous : Option Identity}
    {l : List (ClientId × IdempotencyKey × CommandHash × CommandResponse)}
    (h : restoreRecords pools promises sequence records previous l = .ok result) :
    (l.Pairwise fun a b => recordIdentity a < recordIdentity b) ∧
      (∀ k ∈ previous, ∀ b ∈ l, k < recordIdentity b) ∧
      result = OrderedMap.insertAll recordIdentity recordContent records l := by
  induction l generalizing previous records with
  | nil => exact ⟨.nil, (fun k _ b hb => by cases hb), (Except.ok.inj h).symm⟩
  | cons entry rest ih =>
    obtain ⟨client, key, hash, response⟩ := entry
    rw [restoreRecords] at h
    split at h
    · cases h
    · dsimp only at h
      split at h
      · cases h
      · rename_i hcheck
        obtain ⟨hrest, hnext, hresult⟩ := ih h
        have hnext' : ∀ k ∈ some (recordIdentity (client, key, hash, response)), ∀ b ∈ rest,
            k < recordIdentity b := hnext
        have hcheck' : ¬(previous.any fun k =>
            decide (k ≥ recordIdentity (client, key, hash, response))) = true := hcheck
        obtain ⟨hpairwise, hprevious⟩ := increasing_of_check hcheck' ⟨hrest, hnext'⟩
        exact ⟨hpairwise, hprevious, hresult⟩

/-- Capturing a restored state gives the snapshot back. -/
theorem capture_restore {snapshot : EngineSnapshot} {e : Engine}
    (h : restoreSnapshotUnindexed snapshot = .ok e) : captureSnapshot e = snapshot := by
  obtain ⟨pools, promises, records, hpruned, hpools, hpromises, -, hrecords, rfl⟩ :=
    restoreSnapshotUnindexed_ok h
  obtain ⟨hpoolsSorted, -⟩ := restorePools_sorted hpools
  obtain ⟨hpromisesSorted, -, rfl⟩ := restorePromises_sorted hpromises
  obtain ⟨hrecordsSorted, -, rfl⟩ := restoreRecords_sorted hrecords
  rw [restorePools_eq hpoolsSorted (fun k hk => by cases hk)] at hpools
  obtain rfl := Except.ok.inj hpools
  have hzero : SequenceNumber.zero = snapshot.eventsPrunedThrough :=
    SequenceNumber.get_injective (Subtype.ext hpruned.symm)
  have hrecordsList : ((OrderedMap.insertAll recordIdentity recordContent ∅
      snapshot.idempotencyRecords).toList.map fun entry =>
        ((ofLex entry.1).1, (ofLex entry.1).2, entry.2.commandHash, entry.2.response)) =
      snapshot.idempotencyRecords := by
    rw [OrderedMap.toList_insertAll hrecordsSorted, List.map_map]
    exact List.map_id _
  unfold captureSnapshot
  rw [OrderedMap.vals_insertAll hpoolsSorted, OrderedMap.vals_insertAll hpromisesSorted, hzero]
  exact congrArg (fun records => { snapshot with idempotencyRecords := records }) hrecordsList

/-! ## Installed effects -/

/-- Events that number a range without gaps pass the check, which ends at the last number. -/
theorem checkTransitionEvents_eq {current : SequenceNumber} {n : ℤ} {l : List Event}
    (hl : l.Pairwise fun a b => a.sequence ≤ b.sequence) {previous : SequenceNumber}
    (hlater : ∀ e ∈ l, current < e.sequence ∧ previous ≤ e.sequence ∧ e.number ≤ n)
    (hnumbers : ∀ k, previous.get.val < k → k ≤ n → ∃ e ∈ l, e.number = k)
    (hle : previous.get.val ≤ n) :
    ∃ last, checkTransitionEvents current previous l = .ok last ∧ last.get.val = n := by
  induction l generalizing previous with
  | nil =>
    refine ⟨previous, rfl, ?_⟩
    by_contra hne
    obtain ⟨e, he, -⟩ := hnumbers n (by omega) le_rfl
    cases he
  | cons e rest ih =>
    obtain ⟨hfirst, hrest⟩ := List.pairwise_cons.mp hl
    obtain ⟨hcurrent, hprevious, hn⟩ := hlater e List.mem_cons_self
    have hmore {k : ℤ} (hk : e.number < k) (hkn : k ≤ n) (hkp : previous.get.val < k) :
        ∃ e' ∈ rest, e'.number = k := by
      obtain ⟨e', he', hnumber⟩ := hnumbers k hkp hkn
      rcases List.mem_cons.mp he' with rfl | he'
      · exact absurd hnumber hk.ne
      · exact ⟨e', he', hnumber⟩
    rw [checkTransitionEvents, if_neg (not_lt.mpr hprevious)]
    by_cases hgt : e.sequence > previous
    · have hlt : previous.get.val < e.number := hgt
      have hnext : e.number = previous.get.val + 1 := by
        obtain ⟨e', he', hnumber⟩ := hnumbers (previous.get.val + 1) (by omega) (by omega)
        rcases List.mem_cons.mp he' with rfl | he'
        · exact hnumber
        · have hee' : e.number ≤ e'.number := hfirst e' he'
          omega
      have hadd : previous.get.checkedAdd ⟨1, U64.one_range⟩ = some e.sequence.get :=
        BoundedInt.checkedAdd_eq_some.mpr hnext.symm
      rw [if_pos hgt, if_neg (not_not_intro hadd)]
      apply ih hrest
      · intro e' he'
        exact ⟨(hlater e' (List.mem_cons_of_mem e he')).1, hfirst e' he',
          (hlater e' (List.mem_cons_of_mem e he')).2.2⟩
      · intro k hk hkn
        exact hmore hk hkn (hlt.trans hk)
      · exact hn
    · have heq : previous.get.val = e.number := le_antisymm hprevious (not_lt.mp hgt)
      have hne : ¬previous = current := by
        rintro rfl
        exact hgt hcurrent
      rw [if_neg hgt, if_neg hne]
      apply ih hrest
      · exact fun e' he' => hlater e' (List.mem_cons_of_mem e he')
      · intro k hk hkn
        exact hmore (heq ▸ hk) hkn hk
      · exact hle

/-- The events that complete a log from one sequence to another pass the check. -/
theorem checkTransitionSequence_eq {s s' : EngineState} (h : s.EventLog) (h' : s'.EventLog)
    (hle : s.sequence ≤ s'.sequence) {transition : DurableTransition}
    (hevents : s'.events = s.events ++ transition.events)
    (hlater : ∀ e ∈ transition.events, s.sequence < e.sequence)
    (hfinal : transition.finalSequence = s'.sequence) :
    checkTransitionSequence s.sequence transition = .ok () := by
  have hnonneg := s.sequence.get.property.1
  have hcomplete := h'.complete
  rw [hevents] at hcomplete
  have hnumbers {k : ℤ} (hk : s.sequence.get.val < k) (hkn : k ≤ s'.sequence.get.val) :=
    h.complete.appended hcomplete hnonneg hk hkn
  have hle' : s.sequence.get.val ≤ s'.sequence.get.val := hle
  rw [checkTransitionSequence, hfinal, if_neg (not_lt.mpr hle)]
  by_cases hnil : transition.events = []
  · have heq : s'.sequence = s.sequence := by
      apply SequenceNumber.get_injective
      apply Subtype.ext
      by_contra hne
      obtain ⟨e, he, -⟩ := hnumbers (k := s'.sequence.get.val) (by omega) le_rfl
      rw [hnil] at he
      cases he
    rw [if_pos hnil, if_neg (not_not_intro heq)]
  · obtain ⟨last, hlast, hvalue⟩ := @checkTransitionEvents_eq s.sequence _ _
      (List.pairwise_append.mp hcomplete.sorted).2.1 _
      (fun e he => ⟨hlater e he, (hlater e he).le, hcomplete.le (List.mem_append_right _ he)⟩)
      (fun k => hnumbers) hle'
    have heq : last = s'.sequence := SequenceNumber.get_injective (Subtype.ext hvalue)
    rw [if_neg hnil, hlast, Except.ok_bind, if_neg (not_not_intro heq)]

/-- The payload of an event that names reached versions is accepted. -/
theorem installEventValid_eq {s : EngineState} {data : EventData} (h : s.NamesEvent data) :
    installEventValid s.resourcePools s.promises data = true := by
  cases data with
  | resourcePool resourcePoolId => exact h
  | promise id version =>
    obtain ⟨p, hp, -⟩ := reachedVersion_iff.mp h
    exact OrderedMap.contains_iff.mpr (OrderedMap.mem_iff_lookup.mpr ⟨p, hp⟩)
  | deficit resourcePoolId interval quantity affectedPromiseIds => exact h

/-- What installing a transition leads to, when each of its checks passes. -/
theorem installTransition_eq {e : Engine} {t : DurableTransition} {revision : PublicationRevision}
    {pools : OrderedMap ResourcePoolId ResourcePool} {promises : OrderedMap PromiseId Promise}
    (hrevision : e.nextRevision = some revision)
    (hidentity : t.command.clientId = t.clientId ∧ t.command.idempotencyKey = t.idempotencyKey)
    (hhash : hashOperation blake3 t.command.operation = t.commandHash)
    (hnew : e.state.idempotencyRecords.contains t.command.identity = false)
    (hsequence : checkTransitionSequence e.state.sequence t = .ok ())
    (hpools : restorePools e.state.resourcePools none t.resourcePools = .ok pools)
    (hpromises : installPromises t.finalSequence e.state.promises none t.promises = .ok promises)
    (hclaims : ∀ p ∈ OrderedMap.vals promises, claimPoolsExist pools p = true)
    (hevents : ∀ event ∈ t.events, installEventValid pools promises event.data = true) :
    installTransition blake3 e t =
      .ok ⟨⟨pools, ∅, promises, e.state.events ++ t.events,
        e.state.idempotencyRecords.insert t.command.identity ⟨t.commandHash, t.response⟩,
        t.finalSequence⟩, revision⟩ := by
  have hnotclaims :
      ((OrderedMap.vals promises).any fun p => !claimPoolsExist pools p) = false := by
    rw [List.any_eq_false]
    intro p hp
    rw [hclaims p hp]
    exact Bool.false_ne_true
  have hnotevents :
      (t.events.any fun event => !installEventValid pools promises event.data) = false := by
    rw [List.any_eq_false]
    intro event hevent
    rw [hevents event hevent]
    exact Bool.false_ne_true
  have hkey : toLex (t.clientId, t.idempotencyKey) = t.command.identity := by
    rw [← hidentity.1, ← hidentity.2]
    rfl
  unfold installTransition
  rw [hrevision, hkey]
  simp only [Option.elim_some, Except.ok_bind, hidentity, hhash, hnew, hsequence, hpools, hpromises,
    hnotclaims, hnotevents, ne_eq, not_true_eq_false, or_self, if_false, Bool.false_eq_true]
  rfl

/-- Promises that pass the check are inserted; they do not outrun the sequence. -/
theorem installPromises_ok {sequence : SequenceNumber}
    {promises result : OrderedMap PromiseId Promise} {previous : Option PromiseId} {l : List Promise}
    (h : installPromises sequence promises previous l = .ok result) :
    result = OrderedMap.insertAll Promise.id (fun p => p) promises l ∧
      ∀ p ∈ l, p.updatedSequence ≤ sequence := by
  induction l generalizing previous promises with
  | nil => exact ⟨(Except.ok.inj h).symm, fun p hp => by cases hp⟩
  | cons p rest ih =>
    rw [installPromises] at h
    split at h
    · cases h
    · rename_i hcheck
      simp only [Bool.or_eq_true, not_or, decide_eq_true_eq] at hcheck
      obtain ⟨hresult, hupdated⟩ := ih h
      refine ⟨hresult, fun q hq => ?_⟩
      rcases List.mem_cons.mp hq with rfl | hq
      · exact not_lt.mp hcheck.2
      · exact hupdated q hq

/-- What a transition that is installed has passed, and what it leads to. -/
theorem installTransition_ok {e e' : Engine} {t : DurableTransition}
    (h : installTransition blake3 e t = .ok e') :
    ∃ pools promises revision,
      e.state.idempotencyRecords.contains (toLex (t.clientId, t.idempotencyKey)) = false ∧
      checkTransitionSequence e.state.sequence t = .ok () ∧
      pools = OrderedMap.insertAll ResourcePool.id (fun pool => pool) e.state.resourcePools
        t.resourcePools ∧
      installPromises t.finalSequence e.state.promises none t.promises = .ok promises ∧
      (∀ p ∈ OrderedMap.vals promises, claimPoolsExist pools p = true) ∧
      (∀ event ∈ t.events, installEventValid pools promises event.data = true) ∧
      e' = ⟨⟨pools, ∅, promises, e.state.events ++ t.events,
        e.state.idempotencyRecords.insert (toLex (t.clientId, t.idempotencyKey))
          ⟨t.commandHash, t.response⟩, t.finalSequence⟩, revision⟩ := by
  unfold installTransition at h
  obtain ⟨revision, -, h⟩ := Except.bind_eq_ok.mp h
  by_cases hidentity : t.command.clientId ≠ t.clientId ∨
      t.command.idempotencyKey ≠ t.idempotencyKey
  · rw [if_pos hidentity] at h
    cases h
  rw [if_neg hidentity] at h
  by_cases hhash : hashOperation blake3 t.command.operation ≠ t.commandHash
  · rw [if_pos hhash] at h
    cases h
  rw [if_neg hhash] at h
  dsimp only at h
  by_cases hnew : e.state.idempotencyRecords.contains (toLex (t.clientId, t.idempotencyKey)) = true
  · rw [if_pos hnew] at h
    cases h
  rw [if_neg hnew] at h
  obtain ⟨⟨⟩, hsequence, h⟩ := Except.bind_eq_ok.mp h
  obtain ⟨pools, hpools, h⟩ := Except.bind_eq_ok.mp h
  obtain ⟨promises, hpromises, h⟩ := Except.bind_eq_ok.mp h
  by_cases hclaims : ((OrderedMap.vals promises).any fun p => !claimPoolsExist pools p) = true
  · rw [if_pos hclaims] at h
    cases h
  rw [if_neg hclaims] at h
  by_cases hevents : (t.events.any fun event => !installEventValid pools promises event.data) = true
  · rw [if_pos hevents] at h
    cases h
  rw [if_neg hevents] at h
  obtain rfl := Except.ok.inj h
  rw [restorePools_eq (restorePools_sorted hpools).1 (fun k hk => by cases hk)] at hpools
  exact ⟨pools, promises, revision, Bool.eq_false_iff.mpr hnew, hsequence,
    (Except.ok.inj hpools).symm, hpromises, by simpa using hclaims, by simpa using hevents, rfl⟩

/-- The pools and promises that a command leaves as they were before a batch were so already when
it was executed. -/
structure Covers (base s s' : EngineState) : Prop where
  pools : ∀ id : ResourcePoolId, base.resourcePools[id]? = s'.resourcePools[id]? →
    s.resourcePools[id]? = s'.resourcePools[id]?
  promises : ∀ id : PromiseId, base.promises[id]? = s'.promises[id]? →
    s.promises[id]? = s'.promises[id]?

/-- A state covers the effects of its next command. -/
theorem Covers.refl (s s' : EngineState) : Covers s s s' := ⟨fun _ h => h, fun _ h => h⟩

/-- Inserting the changed pools leads to the pools after the command. -/
theorem insertAll_changedPools {base s s' : EngineState} (href : s'.References)
    (hgrows : s.Grows s')
    (hcovers : ∀ id : ResourcePoolId, base.resourcePools[id]? = s'.resourcePools[id]? →
      s.resourcePools[id]? = s'.resourcePools[id]?) :
    OrderedMap.insertAll ResourcePool.id (fun pool => pool) s.resourcePools
      (changedPools base s') = s'.resourcePools := by
  apply OrderedMap.insertAll_values href.poolIds List.filter_sublist
  · intro entry hentry hout
    have hlookup := OrderedMap.mem_toList.mp hentry
    have hsame : base.resourcePools[entry.1]? = some entry.2 := by
      by_contra hne
      exact hout (List.mem_filter.mpr ⟨hentry, decide_eq_true hne⟩)
    rw [hcovers entry.1 (hsame.trans hlookup.symm), hlookup]
  · exact hgrows.pools

/-- Inserting the changed promises leads to the promises after the command. -/
theorem insertAll_changedPromises {base s s' : EngineState} (href : s'.References)
    (hgrows : s.Grows s')
    (hcovers : ∀ id : PromiseId, base.promises[id]? = s'.promises[id]? →
      s.promises[id]? = s'.promises[id]?) :
    OrderedMap.insertAll Promise.id (fun p => p) s.promises (changedPromises base s') =
      s'.promises := by
  apply OrderedMap.insertAll_values href.promiseIds List.filter_sublist
  · intro entry hentry hout
    have hlookup := OrderedMap.mem_toList.mp hentry
    have hsame : base.promises[entry.1]? = some entry.2 := by
      by_contra hne
      exact hout (List.mem_filter.mpr ⟨hentry, decide_eq_true hne⟩)
    rw [hcovers entry.1 (hsame.trans hlookup.symm), hlookup]
  · exact fun id hid => hgrows.mem_promises hid

/-- Installing the effects of a command leads to the state after the command, without its
timelines. -/
theorem install_transitionOf {base s : EngineState} (h : s.Sound) {command : Command}
    {now : Timestamp} (hnew : s.idempotencyRecords[command.identity]? = none)
    (hcovers : Covers base s (executeOnce blake3 s command now).2)
    {revision next : PublicationRevision} (hnext : nextRevision ⟨s.unindexed, revision⟩ = some next) :
    installTransition blake3 ⟨s.unindexed, revision⟩ (transitionOf blake3 base s command now) =
      .ok ⟨(executeOnce blake3 s command now).2.unindexed, next⟩ := by
  have h' := @sound_executeOnce blake3 s h command now
  have hgrows := @executeOnce_grows blake3 s command now
  obtain ⟨hevents, hlater⟩ := @transitionOf_events blake3 base s command now
  have hrecords : (executeOnce blake3 s command now).2.idempotencyRecords =
      s.idempotencyRecords.insert command.identity
        ⟨hashOperation blake3 command.operation, (executeOnce blake3 s command now).1⟩ := by
    rw [executeOnce_snd, applyOnce_records]
  generalize hs' : (executeOnce blake3 s command now).2 = s' at h' hgrows hevents hcovers hrecords
  have htransition : transitionOf blake3 base s command now =
      ⟨command, command.clientId, command.idempotencyKey, hashOperation blake3 command.operation,
        (executeOnce blake3 s command now).1, changedPools base s', changedPromises base s',
        s'.events.drop s.events.length, s'.sequence⟩ := by
    rw [transitionOf, hs']
  have hnone {K : Type} [LinearOrder K] {A : Type} {id : A → K} {l : List A} :
      ∀ k ∈ (none : Option K), ∀ b ∈ l, k < id b := fun k hk => by cases hk
  have hpools : restorePools s.resourcePools none (changedPools base s') = .ok s'.resourcePools := by
    apply (restorePools_eq (OrderedMap.values_sorted h'.references.poolIds
      List.filter_sublist) hnone s.resourcePools).trans
    exact congrArg Except.ok (insertAll_changedPools h'.references hgrows hcovers.pools)
  have hpromises : installPromises s'.sequence s.promises none (changedPromises base s') =
      .ok s'.promises := by
    have hvalid : ∀ p ∈ changedPromises base s', p.Valid ∧ p.updatedSequence ≤ s'.sequence := by
      intro p hp
      obtain ⟨entry, hentry, rfl⟩ := List.mem_map.mp hp
      have hlookup := OrderedMap.mem_toList.mp (List.mem_of_mem_filter hentry)
      exact ⟨h'.references.histories _ _ hlookup, h'.references.updated _ _ hlookup⟩
    apply (installPromises_eq (OrderedMap.values_sorted h'.references.promiseIds
      List.filter_sublist) hnone hvalid s.promises).trans
    exact congrArg Except.ok (insertAll_changedPromises h'.references hgrows hcovers.promises)
  have hsequence : checkTransitionSequence s.sequence (transitionOf blake3 base s command now) =
      .ok () :=
    checkTransitionSequence_eq h.log h'.log hgrows.sequence hevents (fun e he => (hlater e he).2)
      (by rw [htransition])
  have hclaims : ∀ p ∈ OrderedMap.vals s'.promises, claimPoolsExist s'.resourcePools p = true := by
    intro p hp
    obtain ⟨id, hid⟩ := OrderedMap.mem_vals.mp hp
    exact claimPoolsExist_eq h'.index hid
  have hvalid : ∀ event ∈ (transitionOf blake3 base s command now).events,
      installEventValid s'.resourcePools s'.promises event.data = true := by
    intro event hevent
    apply installEventValid_eq
    exact h'.references.named event (hevents ▸ List.mem_append_right _ hevent)
  have hcontains : s.idempotencyRecords.contains command.identity = false := by
    rw [← Bool.not_eq_true, OrderedMap.contains_iff]
    exact OrderedMap.not_mem_iff_lookup.mpr hnew
  have hinstall := @installTransition_eq blake3 ⟨s.unindexed, revision⟩
    (transitionOf blake3 base s command now) next s'.resourcePools s'.promises hnext ⟨rfl, rfl⟩ rfl
    hcontains hsequence (htransition ▸ hpools) (htransition ▸ hpromises) hclaims hvalid
  have hstate : s'.unindexed = ⟨s'.resourcePools, ∅, s'.promises,
      s.events ++ (transitionOf blake3 base s command now).events,
      s.idempotencyRecords.insert command.identity
        ⟨hashOperation blake3 command.operation, (executeOnce blake3 s command now).1⟩,
      s'.sequence⟩ := by
    rw [EngineState.unindexed, hrecords, hevents]
  rw [hinstall, hstate, htransition]
  rfl

/-! ## Published commands -/

/-- Publishing one prepared command applies it: a cached command changes nothing, any other one
leaves one durable item. -/
theorem publish_single {e : Engine} {command : Command} {now : Timestamp}
    {prepared : PreparedBatch} (h : prepareBatch blake3 e [(command, now)] = .ok prepared) :
    (publishBatch e prepared).2 = (apply blake3 e command now).2 ∧
      ((prepared.durableItems = [] ∧ (apply blake3 e command now).2 = e) ∨
        ∃ next, e.state.idempotencyRecords[command.identity]? = none ∧
          e.nextRevision = some next ∧
          prepared.durableItems = [itemOf blake3 e.state (e.state, command, now)] ∧
          (apply blake3 e command now).2 =
            ⟨(executeOnce blake3 e.state command now).2, next⟩) := by
  obtain ⟨-, hitems, hcandidate⟩ := prepareBatch_eq_ok h
  obtain ⟨-, hrevision⟩ := prepareBatch_revision h
  have hcandidate := hcandidate (List.cons_ne_nil _ _)
  unfold publishBatch apply
  rw [hcandidate]
  cases hrecord : e.state.idempotencyRecords[command.identity]? with
  | some record =>
    simp only [firstSeen, hrecord, List.map_nil] at hitems
    simp only [hitems, ne_eq, not_true_eq_false, if_false]
    exact ⟨trivial, .inl ⟨trivial, trivial⟩⟩
  | none =>
    simp only [firstSeen, hrecord, List.map_cons, List.map_nil] at hitems hrevision
    have hnext : e.nextRevision = some prepared.nextRevision :=
      BoundedInt.checkedAdd_eq_some.mpr hrevision.symm
    simp only [hitems, hnext, executeAll, executeCommand, hrecord, ne_eq, List.cons_ne_nil,
      not_false_eq_true, if_true]
    exact ⟨trivial, .inr ⟨prepared.nextRevision, trivial, rfl, trivial, rfl⟩⟩

variable (blake3)

/-- A run of commands that are prepared and published one at a time, with their durable items. -/
inductive PublishedRun : Engine → List TimestampedTransition → Engine → Prop
  | nil (e : Engine) : PublishedRun e [] e
  | cons {e e' : Engine} {command : Command} {now : Timestamp} {prepared : PreparedBatch}
      {items : List TimestampedTransition}
      (prepares : prepareBatch blake3 e [(command, now)] = .ok prepared)
      (rest : PublishedRun (publishBatch e prepared).2 items e') :
      PublishedRun e (prepared.durableItems ++ items) e'

/-- Installs durable items in order. -/
def installAll (e : Engine) (items : List TimestampedTransition) : Except InstallError Engine :=
  items.foldlM (fun e item => installTransition blake3 e item.transition) e

/-- No run of commands tells the engines apart: the responses are the same, and so is everything
but the timelines after the run. -/
def Indistinguishable (e f : Engine) : Prop :=
  ∀ commands : List (Command × Timestamp),
    (applyAll blake3 e commands).1 = (applyAll blake3 f commands).1 ∧
    (applyAll blake3 e commands).2.unindexed = (applyAll blake3 f commands).2.unindexed

variable {blake3}

/-- The engine after a published run is reachable. -/
theorem PublishedRun.reachable {e e' : Engine} {items : List TimestampedTransition}
    (run : PublishedRun blake3 e items e') (h : Reachable blake3 e) : Reachable blake3 e' := by
  induction run with
  | nil e => exact h
  | cons prepares rest ih =>
    rw [(publish_single prepares).1] at ih
    exact ih (h.apply trivial)

/-- Installing the items of a published run leads to the engine after the run, without its
timelines. -/
theorem PublishedRun.installAll {e e' : Engine} {items : List TimestampedTransition}
    (run : PublishedRun blake3 e items e') (h : Reachable blake3 e) :
    installAll blake3 e.unindexed items = .ok e'.unindexed := by
  induction run with
  | nil e => rfl
  | @cons e e' command now prepared items prepares rest ih =>
    obtain ⟨hpublished, hcases⟩ := publish_single prepares
    rw [hpublished] at ih
    have hrest := ih (h.apply trivial)
    unfold Engine.installAll at hrest ⊢
    rw [List.foldlM_append]
    rcases hcases with ⟨hitems, hsame⟩ | ⟨next, hnew, hnext, hitems, hsame⟩
    · rw [hsame] at hrest
      rw [hitems]
      exact hrest
    · rw [hsame] at hrest
      have hstep : installTransition blake3 e.unindexed
          (itemOf blake3 e.state (e.state, command, now)).transition =
            .ok ⟨(executeOnce blake3 e.state command now).2.unindexed, next⟩ :=
        install_transitionOf h.sound hnew (Covers.refl _ _) hnext
      rw [hitems, List.foldlM_cons, hstep]
      exact hrest

/-! ## Rebuilding -/

/-- Rebuilding the timelines of an engine gives it the slack of the live one. -/
theorem rebuild_unindexed {e : Engine} (h : e.state.IndexExact) :
    ∃ rebuilt, rebuildSlackTimelines e.unindexed = .ok rebuilt ∧ e.Same rebuilt := by
  obtain ⟨timelines, hrebuild, hkeys, hspec⟩ := rebuildSlackTimelines_spec h
  refine ⟨_, hrebuild, ⟨timelines, rfl, ?_⟩, rfl⟩
  intro id
  have hiff := (h.pools id).trans (hkeys id).symm
  cases hl : e.state.slackTimelines[id]? with
  | none =>
    rw [OrderedMap.not_mem_iff_lookup.mp (mt hiff.mpr (OrderedMap.not_mem_iff_lookup.mpr hl))]
    exact .none
  | some tl =>
    obtain ⟨tl', hl'⟩ := OrderedMap.mem_iff_lookup.mp (hiff.mp (OrderedMap.mem_iff_lookup.mpr ⟨tl, hl⟩))
    obtain ⟨hwf', hvalue⟩ := hspec id tl tl' hl hl'
    rw [hl']
    exact .some ⟨h.wellFormed id tl hl, hwf', fun t => (hvalue t).symm⟩

/-- Engines with the same slack cannot be told apart. -/
theorem Same.indistinguishable {e f : Engine} (h : e.Same f) : Indistinguishable blake3 e f := by
  intro commands
  obtain ⟨hresponses, ⟨timelines, hstate, -⟩, hrevision⟩ := @applyAll_same blake3 e f h commands
  refine ⟨hresponses, ?_⟩
  rw [unindexed, unindexed, hstate, hrevision]
  rfl

/-- A captured state can be restored, and the rebuilt engine cannot be told apart from the live
one.  The same holds when the effects of commands that were published one at a time after the
capture are installed before the timelines are rebuilt. -/
theorem restore_indistinguishable {e : Engine} (h : Reachable blake3 e) :
    (∃ restored rebuilt, restoreSnapshotUnindexed (captureSnapshot e) = .ok restored ∧
      rebuildSlackTimelines restored = .ok rebuilt ∧ Indistinguishable blake3 e rebuilt) ∧
    ∀ items e', PublishedRun blake3 e items e' →
      ∃ restored installed rebuilt, restoreSnapshotUnindexed (captureSnapshot e) = .ok restored ∧
        installAll blake3 restored items = .ok installed ∧
        rebuildSlackTimelines installed = .ok rebuilt ∧ Indistinguishable blake3 e' rebuilt := by
  constructor
  · obtain ⟨rebuilt, hrebuild, hsame⟩ := rebuild_unindexed h.indexExact
    exact ⟨e.unindexed, rebuilt, restore_capture h.sound, hrebuild, hsame.indistinguishable⟩
  · intro items e' run
    obtain ⟨rebuilt, hrebuild, hsame⟩ := rebuild_unindexed (run.reachable h).indexExact
    exact ⟨e.unindexed, e'.unindexed, rebuilt, restore_capture h.sound, run.installAll h, hrebuild,
      hsame.indistinguishable⟩

/-- The engine of the sample run before its hold. -/
def sampleBefore : Engine := (apply sampleHash Engine.empty sampleCreate (sampleTime 0)).2

/-- Publishing the hold of the sample run leaves one durable item. -/
theorem sampleBefore_prepared :
    ∃ prepared, prepareBatch sampleHash sampleBefore [(sampleHold, sampleTime 1)] = .ok prepared ∧
      prepared.durableItems.length = 1 := by
  have hlength : (prepareBatch sampleHash sampleBefore [(sampleHold, sampleTime 1)]).toOption.map
      (fun prepared => prepared.durableItems.length) = some 1 := by
    decide +kernel
  obtain ⟨prepared, hprepared, hone⟩ := Option.map_eq_some_iff.mp hlength
  refine ⟨prepared, ?_, hone⟩
  generalize prepareBatch sampleHash sampleBefore [(sampleHold, sampleTime 1)] = r at hprepared
  cases r with
  | error error => cases hprepared
  | ok p => exact congrArg Except.ok (Option.some.inj hprepared)

/-- The state before the hold of the sample run is captured; then its effects are installed. -/
theorem restore_indistinguishable_sample :
    ∃ items e' restored installed rebuilt, items.length = 1 ∧
      PublishedRun sampleHash sampleBefore items e' ∧
      restoreSnapshotUnindexed (captureSnapshot sampleBefore) = .ok restored ∧
      installAll sampleHash restored items = .ok installed ∧
      rebuildSlackTimelines installed = .ok rebuilt ∧ Indistinguishable sampleHash e' rebuilt := by
  have hbefore : Reachable sampleHash sampleBefore := ReachableBy.empty.apply trivial
  obtain ⟨prepared, hprepared, hone⟩ := sampleBefore_prepared
  have hrun := PublishedRun.cons hprepared (.nil _)
  rw [List.append_nil] at hrun
  obtain ⟨restored, installed, rebuilt, hresult⟩ :=
    (restore_indistinguishable hbefore).2 prepared.durableItems _ hrun
  exact ⟨prepared.durableItems, _, restored, installed, rebuilt, hone, hrun, hresult⟩

end Engine

end PromiseDb
