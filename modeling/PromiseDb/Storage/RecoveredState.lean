import PromiseDb.Engine.Restore
import PromiseDb.Storage.CanonicalReaders
import PromiseDb.Storage.TransitionRoundTrip

/-!
# States recovered from a log

Recovery decodes transitions and installs them one after the other.  Each of them is checked against
the state so far: its events continue the sequence, its promises keep their claims on existing
pools, and its events name existing entities.  A captured state is checked as a whole when it is
restored, and more strictly: an event must not name a version that its promise has not reached, and
what a cached response names must exist as well.  So a recovered state is restored exactly when
the transitions have these properties too.
-/

namespace PromiseDb

/-! ## Decoded transitions -/

section Limits

variable {limits : ReaderLimits}

/-- A promise that is read has a valid history. -/
theorem yields_promise : Codec.Yields (Reader.promise limits) Promise.Valid := by
  intro input value rest h
  obtain ⟨id, r₁, -, h⟩ := Codec.Reader.bind_eq_ok.mp h
  obtain ⟨state, r₂, -, h⟩ := Codec.Reader.bind_eq_ok.mp h
  obtain ⟨bundle, r₃, -, h⟩ := Codec.Reader.bind_eq_ok.mp h
  obtain ⟨version, r₄, -, h⟩ := Codec.Reader.bind_eq_ok.mp h
  obtain ⟨created, r₅, -, h⟩ := Codec.Reader.bind_eq_ok.mp h
  obtain ⟨updated, r₆, -, h⟩ := Codec.Reader.bind_eq_ok.mp h
  obtain ⟨hrestore, -⟩ := domain_eq_ok h
  unfold Promise.restore at hrestore
  split at hrestore
  · cases hrestore
  · rename_i hvalid
    cases hrestore
    push Not at hvalid
    exact ⟨hvalid.1, hvalid.2.1⟩

end Limits

/-- The promises of a decoded transition have valid histories. -/
theorem decodeTransition_histories {bytes : List UInt8} {t : DurableTransition}
    (h : decodeTransition bytes = .ok t) : ∀ p ∈ t.promises, p.Valid := by
  obtain ⟨⟨value, rest⟩, hread, h⟩ := Except.bind_eq_ok.mp h
  dsimp only at h
  split at h
  case isFalse => cases h
  obtain rfl : value = t := Except.ok.inj h
  obtain ⟨-, r₁, -, hread⟩ := Codec.Reader.bind_eq_ok.mp hread
  obtain ⟨commandBytes, r₂, -, hread⟩ := Codec.Reader.bind_eq_ok.mp hread
  obtain ⟨command, r₃, -, hread⟩ := Codec.Reader.bind_eq_ok.mp hread
  obtain ⟨clientId, r₄, -, hread⟩ := Codec.Reader.bind_eq_ok.mp hread
  obtain ⟨idempotencyKey, r₅, -, hread⟩ := Codec.Reader.bind_eq_ok.mp hread
  obtain ⟨commandHash, r₆, -, hread⟩ := Codec.Reader.bind_eq_ok.mp hread
  obtain ⟨response, r₇, -, hread⟩ := Codec.Reader.bind_eq_ok.mp hread
  obtain ⟨poolCount, r₈, -, hread⟩ := Codec.Reader.bind_eq_ok.mp hread
  obtain ⟨pools, r₉, -, hread⟩ := Codec.Reader.bind_eq_ok.mp hread
  obtain ⟨promiseCount, r₁₀, -, hread⟩ := Codec.Reader.bind_eq_ok.mp hread
  obtain ⟨promises, r₁₁, hpromises, hread⟩ := Codec.Reader.bind_eq_ok.mp hread
  obtain ⟨eventCount, r₁₂, -, hread⟩ := Codec.Reader.bind_eq_ok.mp hread
  obtain ⟨events, r₁₃, -, hread⟩ := Codec.Reader.bind_eq_ok.mp hread
  obtain ⟨finalSequence, r₁₄, -, hread⟩ := Codec.Reader.bind_eq_ok.mp hread
  obtain ⟨rfl, -⟩ := Codec.Reader.pure_eq_ok.mp hread
  exact yields_promise.timesInOrder none promiseCount hpromises

namespace Engine

open EngineState

variable {blake3 : List UInt8 → CommandHash}

/-! ## Checked effects -/

/-- Events that pass the check number a range without gaps. -/
theorem checkTransitionEvents_ok {current previous last : SequenceNumber} {l : List Event}
    (h : checkTransitionEvents current previous l = .ok last) (hle : current ≤ previous) :
    previous ≤ last ∧ (l.Pairwise fun a b => a.sequence ≤ b.sequence) ∧
      (∀ e ∈ l, current < e.sequence ∧ previous ≤ e.sequence ∧ e.sequence ≤ last) ∧
      ∀ k, previous.get.val < k → k ≤ last.get.val → ∃ e ∈ l, e.number = k := by
  induction l generalizing previous with
  | nil =>
    obtain rfl := Except.ok.inj h
    refine ⟨le_rfl, .nil, ?_, fun k hk hk' => absurd hk' (not_le.mpr hk)⟩
    intro e he
    cases he
  | cons e rest ih =>
    rw [checkTransitionEvents] at h
    split at h
    · cases h
    · rename_i hprevious
      replace hprevious : previous ≤ e.sequence := not_lt.mp hprevious
      split at h
      · rename_i hlt
        split at h
        · cases h
        · rename_i hnext
          have hnumber : e.number = previous.get.val + 1 :=
            (BoundedInt.checkedAdd_eq_some.mp (not_not.mp hnext)).symm
          obtain ⟨hlast, hsorted, hrange, hnumbers⟩ := ih h (hle.trans hlt.le)
          refine ⟨hprevious.trans hlast,
            List.pairwise_cons.mpr ⟨fun a ha => (hrange a ha).2.1, hsorted⟩,
            fun a ha => ?_, fun k hk hk' => ?_⟩
          · rcases List.mem_cons.mp ha with rfl | ha
            · exact ⟨hle.trans_lt hlt, hprevious, hlast⟩
            · obtain ⟨h₁, h₂, h₃⟩ := hrange a ha
              exact ⟨h₁, hprevious.trans h₂, h₃⟩
          · rcases (Int.add_one_le_iff.mpr hk).eq_or_lt with hk₁ | hk₁
            · exact ⟨e, List.mem_cons_self, hnumber.trans hk₁⟩
            · have hk₂ : e.number < k := hnumber.trans_lt hk₁
              obtain ⟨a, ha, hak⟩ := hnumbers k hk₂ hk'
              exact ⟨a, List.mem_cons_of_mem _ ha, hak⟩
      · rename_i hge
        have heq : e.sequence = previous := le_antisymm (not_lt.mp hge) hprevious
        split at h
        · cases h
        · rename_i hne
          obtain ⟨hlast, hsorted, hrange, hnumbers⟩ := ih h hle
          refine ⟨hlast, List.pairwise_cons.mpr ⟨fun a ha => heq ▸ (hrange a ha).2.1, hsorted⟩,
            fun a ha => ?_, fun k hk hk' => ?_⟩
          · rcases List.mem_cons.mp ha with rfl | ha
            · exact ⟨heq ▸ lt_of_le_of_ne hle (Ne.symm hne), hprevious, heq ▸ hlast⟩
            · exact hrange a ha
          · obtain ⟨a, ha, hak⟩ := hnumbers k hk hk'
            exact ⟨a, List.mem_cons_of_mem _ ha, hak⟩

/-- A transition that passes the check continues the sequence without gaps. -/
theorem checkTransitionSequence_ok {current : SequenceNumber} {t : DurableTransition}
    (h : checkTransitionSequence current t = .ok ()) :
    current ≤ t.finalSequence ∧ (t.events.Pairwise fun a b => a.sequence ≤ b.sequence) ∧
      (∀ e ∈ t.events, current < e.sequence ∧ e.sequence ≤ t.finalSequence) ∧
      ∀ k, current.get.val < k → k ≤ t.finalSequence.get.val → ∃ e ∈ t.events, e.number = k := by
  rw [checkTransitionSequence] at h
  split at h
  · cases h
  · rename_i hle
    split at h
    · rename_i hnil
      split at h
      · cases h
      · rename_i heq
        rw [hnil, not_not.mp heq]
        refine ⟨le_rfl, .nil, ?_, fun k hk hk' => absurd hk' (not_le.mpr hk)⟩
        intro e he
        cases he
    · obtain ⟨last, hlast, h⟩ := Except.bind_eq_ok.mp h
      split at h
      · cases h
      · rename_i heq
        obtain rfl := not_not.mp heq
        obtain ⟨hle, hsorted, hrange, hnumbers⟩ := checkTransitionEvents_ok hlast le_rfl
        exact ⟨hle, hsorted, fun e he => ⟨(hrange e he).1, (hrange e he).2.2⟩, hnumbers⟩

/-! ## The recovered state -/

/-- The pools that a list of transitions writes. -/
def writtenPools (ts : List DurableTransition) : OrderedMap ResourcePoolId ResourcePool :=
  OrderedMap.insertAll ResourcePool.id (fun pool => pool) ∅
    (ts.flatMap DurableTransition.resourcePools)

/-- The promises that a list of transitions writes. -/
def writtenPromises (ts : List DurableTransition) : OrderedMap PromiseId Promise :=
  OrderedMap.insertAll Promise.id (fun p => p) ∅ (ts.flatMap DurableTransition.promises)

/-- The sequence that a list of transitions ends at. -/
def lastSequence (ts : List DurableTransition) : SequenceNumber :=
  (ts.getLast?.map DurableTransition.finalSequence).getD .zero

/-- What is recovered from a list of transitions. -/
structure Recovered (ts : List DurableTransition) (s : EngineState) : Prop where
  pools : s.resourcePools = writtenPools ts
  promises : s.promises = writtenPromises ts
  sequence : s.sequence = lastSequence ts
  events : s.events = ts.flatMap DurableTransition.events
  inOrder : s.InOrder
  complete : NumberedLog.Complete Event.number s.sequence.get.val s.events
  /-- Events name existing entities, in whatever version. -/
  named : ∀ event ∈ s.events, installEventValid s.resourcePools s.promises event.data = true
  /-- The cached responses are those of the transitions. -/
  responses : ∀ response : CommandResponse,
    (∃ (identity : Identity) (record : IdempotencyRecord),
      s.idempotencyRecords[identity]? = some record ∧ record.response = response) ↔
      ∃ t ∈ ts, t.response = response

/-- Nothing is recovered from no transitions. -/
theorem recovered_empty : Recovered [] Engine.empty.state := by
  refine ⟨rfl, rfl, rfl, rfl, ⟨?_, ?_, ?_, .nil, ?_⟩, NumberedLog.complete_nil, ?_, ?_⟩
  · intro id pool h
    rw [Engine.empty, EngineState.empty, OrderedMap.lookup_empty] at h
    cases h
  · intro id p h
    rw [Engine.empty, EngineState.empty, OrderedMap.lookup_empty] at h
    cases h
  · intro id p h
    rw [Engine.empty, EngineState.empty, OrderedMap.lookup_empty] at h
    cases h
  · intro e he
    cases he
  · intro e he
    cases he
  · intro response
    constructor
    · rintro ⟨identity, record, h, -⟩
      rw [Engine.empty, EngineState.empty, OrderedMap.lookup_empty] at h
      cases h
    · rintro ⟨t, ht, -⟩
      cases ht

/-- Entities that are kept under their identities are still so after insertions. -/
theorem insertAll_id {K V : Type} [LinearOrder K] {id : V → K} {m : OrderedMap K V} {l : List V}
    (h : ∀ (k : K) (v : V), m[k]? = some v → id v = k) {k : K} {v : V}
    (hv : (OrderedMap.insertAll id (fun v => v) m l)[k]? = some v) : id v = k := by
  rcases OrderedMap.lookup_insertAll_cases hv with hm | ⟨w, -, hid, rfl⟩
  · exact h k v hm
  · exact hid

/-- What an installed event names stays there. -/
theorem installEventValid_mono {pools pools' : OrderedMap ResourcePoolId ResourcePool}
    {promises promises' : OrderedMap PromiseId Promise}
    (hpools : ∀ id : ResourcePoolId, id ∈ pools → id ∈ pools')
    (hpromises : ∀ id : PromiseId, id ∈ promises → id ∈ promises') {data : EventData}
    (h : installEventValid pools promises data = true) :
    installEventValid pools' promises' data = true := by
  cases data with
  | resourcePool resourcePoolId =>
    exact OrderedMap.contains_iff.mpr (hpools _ (OrderedMap.contains_iff.mp h))
  | promise id version =>
    exact OrderedMap.contains_iff.mpr (hpromises _ (OrderedMap.contains_iff.mp h))
  | deficit resourcePoolId interval quantity affectedPromiseIds =>
    obtain ⟨hpool, hids⟩ := Bool.and_eq_true_iff.mp h
    refine Bool.and_eq_true_iff.mpr ⟨?_, List.all_eq_true.mpr ?_⟩
    · exact OrderedMap.contains_iff.mpr (hpools _ (OrderedMap.contains_iff.mp hpool))
    · intro id hid
      have hknown := List.all_eq_true.mp hids id hid
      exact OrderedMap.contains_iff.mpr (hpromises _ (OrderedMap.contains_iff.mp hknown))

/-- Installing one more transition. -/
theorem Recovered.install {ts : List DurableTransition} {e e' : Engine} {t : DurableTransition}
    (h : Recovered ts e.state) (hhistories : ∀ p ∈ t.promises, p.Valid)
    (hinstall : installTransition blake3 e t = .ok e') : Recovered (ts ++ [t]) e'.state := by
  obtain ⟨pools, promises, revision, hnew, hsequence, hpools, hpromises, hclaims, hevents, rfl⟩ :=
    installTransition_ok hinstall
  obtain ⟨hpromises, hupdated⟩ := installPromises_ok hpromises
  obtain ⟨hle, hsorted, hrange, hnumbers⟩ := checkTransitionSequence_ok hsequence
  have hcomplete := h.complete.extend e.state.sequence.get.property.1 hle hsorted hrange hnumbers
  refine ⟨?_, ?_, ?_, ?_, ⟨?_, ?_, ?_, hcomplete.sorted, ?_⟩, hcomplete, ?_, ?_⟩
  · rw [hpools, h.pools, writtenPools, writtenPools, List.flatMap_append,
      OrderedMap.insertAll_append, List.flatMap_singleton]
  · rw [hpromises, h.promises, writtenPromises, writtenPromises, List.flatMap_append,
      OrderedMap.insertAll_append, List.flatMap_singleton]
  · rw [lastSequence, List.getLast?_concat]
    rfl
  · rw [h.events, List.flatMap_append, List.flatMap_singleton]
  · rw [hpools]
    exact fun id pool => insertAll_id h.inOrder.poolIds
  · rw [hpromises]
    exact fun id p => insertAll_id h.inOrder.promiseIds
  · intro id p hp
    have hexist := hclaims p (OrderedMap.mem_vals.mpr ⟨id, hp⟩)
    rw [hpromises] at hp
    rcases OrderedMap.lookup_insertAll_cases hp with hold | ⟨q, hq, -, rfl⟩
    · obtain ⟨hvalid, hbound, -⟩ := h.inOrder.promises id p hold
      exact ⟨hvalid, hbound.trans hle, hexist⟩
    · exact ⟨hhistories q hq, hupdated q hq, hexist⟩
  · exact fun event hevent => hcomplete.le hevent
  · intro event hevent
    rcases List.mem_append.mp hevent with hold | hadded
    · apply installEventValid_mono ?_ ?_ (h.named event hold)
      · rw [hpools]
        exact fun id => OrderedMap.mem_insertAll
      · rw [hpromises]
        exact fun id => OrderedMap.mem_insertAll
    · exact hevents event hadded
  · intro response
    constructor
    · rintro ⟨identity, record, hrecord, rfl⟩
      rw [OrderedMap.lookup_insert] at hrecord
      split at hrecord
      · obtain rfl := Option.some.inj hrecord
        exact ⟨t, List.mem_append_right _ (List.mem_singleton_self t), rfl⟩
      · obtain ⟨t', ht', hresponse⟩ := (h.responses _).mp ⟨identity, record, hrecord, rfl⟩
        exact ⟨t', List.mem_append_left _ ht', hresponse⟩
    · rintro ⟨t', ht', rfl⟩
      rcases List.mem_append.mp ht' with hold | hlast
      · obtain ⟨identity, record, hrecord, hresponse⟩ := (h.responses _).mpr ⟨t', hold, rfl⟩
        refine ⟨identity, record, ?_, hresponse⟩
        rw [OrderedMap.lookup_insert_of_ne _ ?_, hrecord]
        rintro rfl
        have hknown := OrderedMap.contains_iff.mpr (OrderedMap.mem_iff_lookup.mpr ⟨_, hrecord⟩)
        rw [hnew] at hknown
        cases hknown
      · obtain rfl := List.mem_singleton.mp hlast
        exact ⟨_, _, OrderedMap.lookup_insert_self _ _ _, rfl⟩

/-- What is recovered when transitions with valid histories are installed one after the other. -/
theorem recovered_foldlM {ts : List DurableTransition} {e : Engine}
    (hhistories : ∀ t ∈ ts, ∀ p ∈ t.promises, p.Valid)
    (h : ts.foldlM (installTransition blake3) Engine.empty = .ok e) : Recovered ts e.state := by
  induction ts using List.reverseRecOn generalizing e with
  | nil =>
    obtain rfl := Except.ok.inj h
    exact recovered_empty
  | append_singleton ts t ih =>
    rw [List.foldlM_append] at h
    obtain ⟨e₁, he₁, h⟩ := Except.bind_eq_ok.mp h
    obtain ⟨e₂, he₂, h⟩ := Except.bind_eq_ok.mp h
    obtain rfl := Except.ok.inj h
    have hinstalled := ih (fun t' ht' => hhistories t' (List.mem_append_left _ ht')) he₁
    exact hinstalled.install (hhistories t (List.mem_append_right _ (List.mem_singleton_self t))) he₂

/-! ## Restoring a recovered state -/

/-- The transitions only name what they reach in the end: an event no version that its promise does
not get to, and a cached response only pools, promises, versions and sequences that there are. -/
structure ReferencesReached (ts : List DurableTransition) : Prop where
  versions : ∀ t ∈ ts, ∀ event ∈ t.events, ∀ (id : PromiseId) (version : Version),
    event.data = .promise id version → reachedVersion (writtenPromises ts) id version = true
  responses : ∀ t ∈ ts, responseReferencesValid t.response (writtenPools ts) (writtenPromises ts)
    (lastSequence ts) = true

/-- An event that may be installed may be captured when it names a version that is reached. -/
theorem snapshotEventValid_iff {pools : OrderedMap ResourcePoolId ResourcePool}
    {promises : OrderedMap PromiseId Promise} {data : EventData}
    (h : installEventValid pools promises data = true) :
    snapshotEventValid pools promises data = true ↔ ∀ (id : PromiseId) (version : Version),
      data = .promise id version → reachedVersion promises id version = true := by
  cases data with
  | resourcePool resourcePoolId =>
    refine iff_of_true h ?_
    intro id version heq
    cases heq
  | promise id version =>
    constructor
    · intro hreached id' version' heq
      cases heq
      exact hreached
    · exact fun hreached => hreached id version rfl
  | deficit resourcePoolId interval quantity affectedPromiseIds =>
    refine iff_of_true h ?_
    intro id version heq
    cases heq

/-- When decoded transitions are installed one after the other, the events are numbered without gaps
and every claim is on an existing pool.  The state is restored from its capture exactly when the
transitions only name what they reach. -/
theorem recovered_restored_iff {ts : List DurableTransition} {e : Engine}
    (hdecoded : ∀ t ∈ ts, ∃ bytes, decodeTransition bytes = .ok t)
    (hinstalled : ts.foldlM (installTransition blake3) Engine.empty = .ok e) :
    NumberedLog.Complete Event.number e.state.sequence.get.val e.state.events ∧
      (∀ (id : PromiseId) (p : Promise), e.state.promises[id]? = some p →
        ∀ c ∈ p.bundle.claims, c.poolId ∈ e.state.resourcePools) ∧
      ((∃ restored, restoreSnapshotUnindexed (captureSnapshot e) = .ok restored) ↔
        ReferencesReached ts) := by
  have hhistories : ∀ t ∈ ts, ∀ p ∈ t.promises, p.Valid := by
    intro t ht
    obtain ⟨bytes, hbytes⟩ := hdecoded t ht
    exact decodeTransition_histories hbytes
  have h := recovered_foldlM hhistories hinstalled
  refine ⟨h.complete, ?_, (restore_capture_iff h.inOrder).trans ?_⟩
  · intro id p hp c hc
    have hexist := (h.inOrder.promises id p hp).2.2
    exact OrderedMap.contains_iff.mp (List.all_eq_true.mp hexist c hc)
  · constructor
    · rintro ⟨hevents, hrecords⟩
      constructor
      · intro t ht event hevent
        have hmem : event ∈ e.state.events := by
          rw [h.events]
          exact List.mem_flatMap.mpr ⟨t, ht, hevent⟩
        rw [← h.promises]
        exact (snapshotEventValid_iff (h.named event hmem)).mp (hevents event hmem)
      · intro t ht
        obtain ⟨identity, record, hrecord, hresponse⟩ := (h.responses _).mpr ⟨t, ht, rfl⟩
        rw [← h.pools, ← h.promises, ← h.sequence, ← hresponse]
        exact hrecords identity record hrecord
    · intro hreached
      constructor
      · intro event hmem
        apply (snapshotEventValid_iff (h.named event hmem)).mpr
        rw [h.events] at hmem
        obtain ⟨t, ht, hevent⟩ := List.mem_flatMap.mp hmem
        rw [h.promises]
        exact hreached.versions t ht event hevent
      · intro identity record hrecord
        obtain ⟨t, ht, hresponse⟩ := (h.responses _).mp ⟨identity, record, hrecord, rfl⟩
        rw [EngineState.Names, h.pools, h.promises, h.sequence, ← hresponse]
        exact hreached.responses t ht

/-- The creation of the sample pool with its response, but without the pool. -/
def lostCreation : DurableTransition where
  command := sampleCreate
  clientId := sampleCreate.clientId
  idempotencyKey := sampleCreate.idempotencyKey
  commandHash := hashOperation sampleHash sampleCreate.operation
  response := .ok (.resourcePoolCreated samplePoolId)
  resourcePools := []
  promises := []
  events := []
  finalSequence := .zero

/-- The sample creation is decoded from its encoding. -/
theorem lostCreation_decoded : ∃ bytes, decodeTransition bytes = .ok lostCreation := by
  have hnone {α : Type} {P : α → Prop} : ∀ a ∈ ([] : List α), P a := fun a ha => by cases ha
  have hfits : lostCreation.LengthsFit := by
    refine ⟨⟨?_, ?_, ?_, ?_, ?_⟩, ?_, ?_, trivial, ?_, hnone, ?_, hnone, ?_, hnone⟩
    all_goals decide +kernel
  have hvalid : lostCreation.Valid := ⟨trivial, .nil, .nil, hnone, .nil, hnone⟩
  obtain ⟨commandBytes, hencode, -⟩ := encodeCommand_exists hfits
  have hlength : CountFits Reader.transitionLimits commandBytes.length := by
    have hshort : ∀ bytes ∈ (encodeCommand lostCreation.command).toOption, bytes.length ≤ 200 := by
      decide +kernel
    have hle : commandBytes.length ≤ 200 := hshort commandBytes (by rw [hencode]; rfl)
    refine ⟨by omega, decide_eq_true ?_⟩
    rw [Reader.usizeMax]
    omega
  obtain ⟨bytes, -, hinverts⟩ := roundTrips_transition hfits trivial hvalid hencode hlength
  exact ⟨bytes, (complete_of_inverts hinverts).1⟩

/-- The sample creation is installed. -/
theorem lostCreation_installed :
    ∃ e, [lostCreation].foldlM (installTransition sampleHash) Engine.empty = .ok e := by
  have hok : (([lostCreation].foldlM (installTransition sampleHash) Engine.empty).toOption.isSome) =
      true := by
    decide +kernel
  generalize [lostCreation].foldlM (installTransition sampleHash) Engine.empty = result at hok
  cases result with
  | error error => cases hok
  | ok e => exact ⟨e, rfl⟩

/-- The state after the sample creation. -/
theorem recovered_restored_iff_sample :
    ∃ e, [lostCreation].foldlM (installTransition sampleHash) Engine.empty = .ok e ∧
      NumberedLog.Complete Event.number e.state.sequence.get.val e.state.events ∧
      (∀ (id : PromiseId) (p : Promise), e.state.promises[id]? = some p →
        ∀ c ∈ p.bundle.claims, c.poolId ∈ e.state.resourcePools) ∧
      ((∃ restored, restoreSnapshotUnindexed (captureSnapshot e) = .ok restored) ↔
        ReferencesReached [lostCreation]) := by
  obtain ⟨e, he⟩ := lostCreation_installed
  refine ⟨e, he, recovered_restored_iff ?_ he⟩
  intro t ht
  obtain rfl := List.mem_singleton.mp ht
  exact lostCreation_decoded

/-- A response that names a pool which no transition writes is installed, but the state that has it
is not restored. -/
theorem recovered_not_restored :
    ∃ e, (∀ t ∈ [lostCreation], ∃ bytes, decodeTransition bytes = .ok t) ∧
      [lostCreation].foldlM (installTransition sampleHash) Engine.empty = .ok e ∧
      ¬∃ restored, restoreSnapshotUnindexed (captureSnapshot e) = .ok restored := by
  obtain ⟨e, he⟩ := lostCreation_installed
  have hhistories : ∀ t ∈ [lostCreation], ∀ p ∈ t.promises, p.Valid := by
    intro t ht p hp
    obtain rfl := List.mem_singleton.mp ht
    cases hp
  refine ⟨e, ?_, he, ?_⟩
  · intro t ht
    obtain rfl := List.mem_singleton.mp ht
    exact lostCreation_decoded
  · rintro ⟨restored, hrestored⟩
    have h := recovered_foldlM hhistories he
    obtain ⟨identity, record, hrecord, hresponse⟩ :=
      (h.responses _).mpr ⟨_, List.mem_singleton_self lostCreation, rfl⟩
    obtain ⟨-, hrecords⟩ := (restore_capture_iff h.inOrder).mp ⟨restored, hrestored⟩
    have hnamed := hrecords identity record hrecord
    rw [hresponse, EngineState.Names, h.pools] at hnamed
    have hknown : samplePoolId ∈ writtenPools [lostCreation] := OrderedMap.contains_iff.mp hnamed
    obtain ⟨pool, hpool⟩ := OrderedMap.mem_iff_lookup.mp hknown
    rw [writtenPools] at hpool
    cases (OrderedMap.lookup_empty samplePoolId).symm.trans hpool

end Engine

end PromiseDb
