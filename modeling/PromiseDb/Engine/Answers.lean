import PromiseDb.Engine.HoldConflicts
import PromiseDb.Engine.History
import Mathlib.Data.List.Destutter

/-!
# The answers of the engine

Every result that an operation gives has the structure that readers of stored results check: the
numbers of conflicts and deficits agree, lists of conflicts are not empty, positions are
consecutive and identities are in order.  Moreover it only names pools, promises, versions and
sequences of the state that the operation leaves.  Names stay valid, since states only grow.
-/

namespace PromiseDb

/-! ## The structure of an answer -/

/-- The numbers of a conflict agree, and its promises are in order. -/
def AvailabilityConflict.Valid (c : AvailabilityConflict) : Prop :=
  c.requiredQuantity > c.availableQuantity ∧
    c.requiredQuantity.val - c.availableQuantity.val = c.deficitQuantity.val ∧
    strictlyIncreasing c.conflictingPromiseIds = true

/-- The conflicts that explain a refusal: there are some, and each is valid. -/
def ConflictsValid (cs : List AvailabilityConflict) : Prop := cs ≠ [] ∧ ∀ c ∈ cs, c.Valid

/-- A deficit is positive, and its promises are in order. -/
def CapacityDeficit.Valid (d : CapacityDeficit) : Prop :=
  0 < d.quantity.val ∧ strictlyIncreasing d.affectedPromiseIds = true

/-- A revision has a sequence, valid deficits, and its promises are in order. -/
def CapacityRevisionOutcome.Valid (o : CapacityRevisionOutcome) : Prop :=
  0 < o.sequence.get.val ∧ strictlyIncreasing o.affectedPromiseIds = true ∧
    ∀ d ∈ o.deficits, d.Valid

/-- The structure of a result. -/
def CommandResult.Valid : CommandResult → Prop
  | .capacityRevised outcome => outcome.Valid
  | .holdCompleted (.unavailable conflicts) => ConflictsValid conflicts
  | .choiceCompleted (.unavailable conflicts) => conflicts ≠ [] ∧
      conflicts.map (·.alternativeIndex) = List.range conflicts.length ∧
      ∀ c ∈ conflicts, ConflictsValid c.conflicts
  | .slotCompleted (.unavailable attempts) => 0 < attempts ∧ attempts < 2 ^ 128
  | .promiseReplaced (.unavailable conflicts) => ConflictsValid conflicts
  | _ => True

/-- The structure of a response. -/
def ResponseValid : CommandResponse → Prop
  | .ok result => result.Valid
  | .error _ => True

/-- The history of a promise starts at a transition and does not run backwards. -/
def Promise.Valid (p : Promise) : Prop :=
  p.createdSequence.get.val ≠ 0 ∧ p.createdSequence ≤ p.updatedSequence

/-- An event has a sequence, its payload is of its kind and in order. -/
def Event.Valid (e : Event) : Prop :=
  e.kind.matchesData e.data = true ∧ e.sequence.get.val ≠ 0 ∧ e.data.isOrdered = true

namespace EngineState

/-! ## States grow -/

/-- A later state has the pools of an earlier one, its promises at later versions, and a later
sequence. -/
structure Grows (s s' : EngineState) : Prop where
  pools : ∀ poolId, poolId ∈ s.resourcePools → poolId ∈ s'.resourcePools
  promises : ∀ (id : PromiseId) (p : Promise), s.promises[id]? = some p →
    ∃ p', s'.promises[id]? = some p' ∧ p.version.get.val ≤ p'.version.get.val
  sequence : s.sequence ≤ s'.sequence

/-- A state grows into itself. -/
theorem Grows.refl (s : EngineState) : s.Grows s :=
  ⟨fun _ h => h, fun _ p hp => ⟨p, hp, le_rfl⟩, le_rfl⟩

/-- Growth is transitive. -/
theorem Grows.trans {s s' s'' : EngineState} (h : s.Grows s') (h' : s'.Grows s'') :
    s.Grows s'' := by
  refine ⟨fun poolId hpool => h'.pools poolId (h.pools poolId hpool), ?_,
    h.sequence.trans h'.sequence⟩
  intro id p hp
  obtain ⟨p', hp', hle⟩ := h.promises id p hp
  obtain ⟨p'', hp'', hle'⟩ := h'.promises id p' hp'
  exact ⟨p'', hp'', hle.trans hle'⟩

/-- No promise disappears. -/
theorem Grows.mem_promises {s s' : EngineState} (h : s.Grows s') {id : PromiseId}
    (hid : id ∈ s.promises) : id ∈ s'.promises := by
  obtain ⟨p, hp⟩ := OrderedMap.mem_iff_lookup.mp hid
  obtain ⟨p', hp', -⟩ := h.promises id p hp
  exact OrderedMap.mem_iff_lookup.mpr ⟨p', hp'⟩

/-- The cached responses do not matter. -/
theorem Grows.records {s s' : EngineState} (h : s.Grows s')
    (records : OrderedMap Identity IdempotencyRecord) :
    s.Grows { s' with idempotencyRecords := records } :=
  ⟨h.pools, h.promises, h.sequence⟩

/-- A transition goes to the next sequence. -/
theorem Transition.sequence_next {now : Timestamp} {change : Change} {s s' : EngineState}
    (h : Transition now change s s') : s.sequence.get.val + 1 = s'.sequence.get.val := by
  cases h.writes with
  | promise next write => exact SequenceNumber.next_eq_ok.mp next
  | pool next write audits => exact SequenceNumber.next_eq_ok.mp next

/-- A transition lets the state grow. -/
theorem Transition.grows {now : Timestamp} {change : Change} {s s' : EngineState}
    (h : Transition now change s s') : s.Grows s' := by
  refine ⟨?_, fun id p hp => h.version_le hp, ?_⟩
  · intro poolId hpool
    cases h.writes with
    | promise next write => exact hpool
    | pool next write audits => exact OrderedMap.mem_insert_iff.mpr (.inr hpool)
  · have hnext := h.sequence_next
    show s.sequence.get.val ≤ s'.sequence.get.val
    omega

/-- Expirations let the state grow. -/
theorem Expirations.grows {now : Timestamp} {s s' : EngineState} (h : Expirations now s s') :
    s.Grows s' :=
  h.invariant (P := s.Grows) (fun _ _ _ hs hstep => hs.trans hstep.grows) (Grows.refl s)

/-- An operation lets the state grow. -/
theorem applyOnce_grows (operation : CommandOperation) (now : Timestamp) (s : EngineState) :
    s.Grows (applyOnce operation now s).finalState :=
  applyOnce_invariant (P := s.Grows) (Q := fun _ => True) (fun _ => trivial) (fun _ _ _ => trivial)
    (fun _ _ _ _ hs hstep => hs.trans hstep.grows) (Grows.refl s)

/-! ## Names of a state -/

/-- The response only names pools, promises, versions and sequences of the state. -/
def Names (s : EngineState) (response : CommandResponse) : Prop :=
  Engine.responseReferencesValid response s.resourcePools s.promises s.sequence = true

/-- A conflict names an existing pool and existing promises. -/
def NamesConflict (s : EngineState) (c : AvailabilityConflict) : Prop :=
  c.resourcePoolId ∈ s.resourcePools ∧ ∀ id ∈ c.conflictingPromiseIds, id ∈ s.promises

/-- The check of a list of promise identities. -/
theorem all_contains_iff {s : EngineState} {ids : List PromiseId} :
    (ids.all fun id => s.promises.contains id) = true ↔ ∀ id ∈ ids, id ∈ s.promises := by
  rw [List.all_eq_true]
  exact forall₂_congr fun id _ => OrderedMap.contains_iff

/-- The check of a conflict. -/
theorem conflictReferencesValid_iff {s : EngineState} {c : AvailabilityConflict} :
    Engine.conflictReferencesValid s.resourcePools s.promises c = true ↔ s.NamesConflict c := by
  rw [Engine.conflictReferencesValid, Bool.and_eq_true_iff, OrderedMap.contains_iff]
  exact and_congr_right fun _ => all_contains_iff

/-- The check of a list of conflicts is that of each of them. -/
theorem conflicts_all_iff {s : EngineState} {cs : List AvailabilityConflict} :
    cs.all (Engine.conflictReferencesValid s.resourcePools s.promises) = true ↔
      ∀ c ∈ cs, s.NamesConflict c := by
  rw [List.all_eq_true]
  exact forall₂_congr fun c _ => conflictReferencesValid_iff

/-- The check of a version. -/
theorem reachedVersion_iff {s : EngineState} {id : PromiseId} {version : Version} :
    Engine.reachedVersion s.promises id version = true ↔ s.HasReached id version := by
  rw [Engine.reachedVersion, Option.any_eq_true]
  simp only [decide_eq_true_eq]
  rfl

/-- What a promise has reached stays reached. -/
theorem HasReached.grows {s s' : EngineState} (h : s.Grows s') {id : PromiseId} {version : Version}
    (hreached : s.HasReached id version) : s'.HasReached id version := by
  obtain ⟨p, hp, hle⟩ := hreached
  obtain ⟨p', hp', hle'⟩ := h.promises id p hp
  exact ⟨p', hp', hle.trans hle'⟩

/-- What a conflict names stays there. -/
theorem NamesConflict.grows {s s' : EngineState} (h : s.Grows s') {c : AvailabilityConflict}
    (hc : s.NamesConflict c) : s'.NamesConflict c :=
  ⟨h.pools _ hc.1, fun id hid => h.mem_promises (hc.2 id hid)⟩

/-- Names stay valid while the state grows. -/
theorem Names.grows {s s' : EngineState} (h : s.Grows s') {response : CommandResponse}
    (hnames : s.Names response) : s'.Names response := by
  have hids (ids : List PromiseId) (hall : (ids.all fun id => s.promises.contains id) = true) :
      (ids.all fun id => s'.promises.contains id) = true :=
    all_contains_iff.mpr fun id hid => h.mem_promises (all_contains_iff.mp hall id hid)
  have hconflicts (cs : List AvailabilityConflict)
      (hall : cs.all (Engine.conflictReferencesValid s.resourcePools s.promises) = true) :
      cs.all (Engine.conflictReferencesValid s'.resourcePools s'.promises) = true :=
    conflicts_all_iff.mpr fun c hc => (conflicts_all_iff.mp hall c hc).grows h
  have hversion (id : PromiseId) (version : Version)
      (hreached : Engine.reachedVersion s.promises id version = true) :
      Engine.reachedVersion s'.promises id version = true :=
    reachedVersion_iff.mpr ((reachedVersion_iff.mp hreached).grows h)
  have hpromise (id : PromiseId) (hid : s.promises.contains id = true) :
      s'.promises.contains id = true :=
    OrderedMap.contains_iff.mpr (h.mem_promises (OrderedMap.contains_iff.mp hid))
  have hpool (id : ResourcePoolId) (hid : s.resourcePools.contains id = true) :
      s'.resourcePools.contains id = true :=
    OrderedMap.contains_iff.mpr (h.pools id (OrderedMap.contains_iff.mp hid))
  cases response with
  | error error => rfl
  | ok result =>
    cases result with
    | resourcePoolCreated resourcePoolId => exact hpool _ hnames
    | capacityRevised outcome =>
      simp only [Names, Engine.responseReferencesValid, Bool.and_eq_true_iff, List.all_eq_true,
        decide_eq_true_eq] at hnames ⊢
      obtain ⟨⟨hseq, hdeficits⟩, haffected⟩ := hnames
      refine ⟨⟨hseq.trans h.sequence, ?_⟩, fun id hid => hpromise id (haffected id hid)⟩
      intro d hd
      exact ⟨hpool _ (hdeficits d hd).1, fun id hid => hpromise id ((hdeficits d hd).2 id hid)⟩
    | holdCompleted outcome =>
      cases outcome with
      | held id => exact hpromise id hnames
      | unavailable conflicts => exact hconflicts conflicts hnames
    | choiceCompleted outcome =>
      cases outcome with
      | held id index => exact hpromise id hnames
      | unavailable conflicts =>
        refine List.all_eq_true.mpr fun c hc => hconflicts _ ?_
        exact List.all_eq_true.mp hnames c hc
    | slotCompleted outcome =>
      cases outcome with
      | held id start => exact hpromise id hnames
      | unavailable attempts => rfl
    | promiseCommitted id version => exact hversion id version hnames
    | promiseReleased id version => exact hversion id version hnames
    | promiseReplaced outcome =>
      cases outcome with
      | replaced id version => exact hversion id version hnames
      | unavailable conflicts => exact hconflicts conflicts hnames
    | expirationsProcessed count => rfl

/-! ## Refusals -/

/-- The conflicts of a refused bundle are valid, and name entities of the state. -/
theorem refused_conflicts {s : EngineState} (hs : s.IndexExact)
    {overrides : OrderedMap ResourcePoolId SlackTimeline} (ho : OverridesWellFormed overrides)
    {bundle : Bundle} {conflicts : List AvailabilityConflict}
    (h : s.evaluateBundleWithOverrides bundle overrides = .ok (.unavailable conflicts)) :
    ConflictsValid conflicts ∧ ∀ c ∈ conflicts, s.NamesConflict c := by
  have hconflicts := evaluateBundle_conflicts hs.wellFormed ho h
  have heach (c : AvailabilityConflict) (hc : c ∈ conflicts) : c.Valid ∧ s.NamesConflict c := by
    obtain ⟨base, deficitFloor, hon, poolConflicts, hpool, hmem⟩ :=
      hconflicts.onPool c.resourcePoolId (hconflicts.pools c hc)
    have hb := (hon.wellFormed hs.wellFormed ho).1
    have hc' : c ∈ poolConflicts := (hmem c).mpr ⟨hc, rfl⟩
    have hstart : c.blockingInterval.contains c.blockingInterval.start = true :=
      Interval.contains_iff.mpr ⟨le_rfl, c.blockingInterval.start_lt_stop⟩
    obtain ⟨r, hr, hrt, -, hrequired, havailable, hdeficit, -⟩ := hpool.covered hb hc' hstart
    have hids := hpool.ids hb hc'
    have hlt : max (base.slackValue c.blockingInterval.start) 0 <
        claimUsage (bundle.claimsOn c.resourcePoolId) c.blockingInterval.start := by
      obtain ⟨hrstart, hrstop⟩ := Interval.contains_iff.mp hrt
      obtain ⟨husage, hslack⟩ := hr.window.constant hb hrstart hrstop
      rw [husage, hslack]
      exact lt_of_not_passes hr.explains.refused.1 hr.explains.refused.2
    refine ⟨⟨?_, ?_, ?_⟩, ?_, ?_⟩
    · show c.availableQuantity.val < c.requiredQuantity.val
      rw [hrequired, havailable]
      exact hlt
    · rw [hrequired, havailable, hdeficit]
    · rw [hids]
      exact activeOverlapping_sorted s _ _
    · apply (hs.pools _).mp
      obtain ⟨-, current, hcurrent, -⟩ | ⟨-, hbase, -⟩ := hon
      · exact OrderedMap.mem_iff_lookup.mpr ⟨current, hcurrent⟩
      · exact OrderedMap.mem_iff_lookup.mpr ⟨base, hbase⟩
    · rw [hids]
      exact fun id => mem_of_activeOverlapping
  refine ⟨⟨?_, fun c hc => (heach c hc).1⟩, fun c hc => (heach c hc).2⟩
  rw [evaluateBundleWithOverrides_eq] at h
  obtain ⟨acc, -, h⟩ := Except.bind_eq_ok.mp h
  split at h
  · cases h
  · rename_i hne
    injection Except.ok.inj h with hsorted
    rw [← hsorted]
    intro hnil
    have hlength := congrArg List.length hnil
    rw [List.length_insertionSort, List.length_nil] at hlength
    exact hne (List.length_eq_zero_iff.mp hlength)

/-- The promise that is being replaced is left out of the conflicts. -/
theorem conflicts_filtered {s : EngineState} {conflicts : List AvailabilityConflict}
    (h : ConflictsValid conflicts ∧ ∀ c ∈ conflicts, s.NamesConflict c) (keep : PromiseId → Bool) :
    ConflictsValid (conflicts.map fun c =>
        { c with conflictingPromiseIds := c.conflictingPromiseIds.filter keep }) ∧
      ∀ c ∈ conflicts.map fun c =>
        { c with conflictingPromiseIds := c.conflictingPromiseIds.filter keep },
        s.NamesConflict c := by
  obtain ⟨⟨hne, hvalid⟩, hnames⟩ := h
  refine ⟨⟨fun hnil => hne (List.map_eq_nil_iff.mp hnil), ?_⟩, ?_⟩
  · intro c hc
    obtain ⟨c', hc', rfl⟩ := List.mem_map.mp hc
    obtain ⟨hlt, hdeficit, hsorted⟩ := hvalid c' hc'
    refine ⟨hlt, hdeficit, ?_⟩
    exact strictlyIncreasing_iff.mpr ((strictlyIncreasing_iff.mp hsorted).filter _)
  · intro c hc
    obtain ⟨c', hc', rfl⟩ := List.mem_map.mp hc
    obtain ⟨hpool, hids⟩ := hnames c' hc'
    exact ⟨hpool, fun id hid => hids id (List.mem_of_mem_filter hid)⟩

/-- Every round of the search adds one attempt. -/
theorem searchSlotsFrom_attempts {s : EngineState} {bundle : RelativeBundle} {range : SlotRange}
    {fuel attempts n : Nat} {start : Timestamp}
    (h : s.searchSlotsFrom bundle range fuel start attempts = .ok (.unavailable n)) :
    attempts ≤ n ∧ n ≤ attempts + fuel ∧ (0 < fuel → attempts < n) := by
  induction fuel generalizing start attempts with
  | zero =>
    obtain rfl : attempts = n := by
      injection Except.ok.inj h
    exact ⟨le_rfl, le_rfl, fun hpos => absurd hpos (lt_irrefl 0)⟩
  | succ fuel ih =>
    rw [searchSlotsFrom] at h
    obtain ⟨b, -, h⟩ := Except.bind_eq_ok.mp h
    obtain ⟨admission, -, h⟩ := Except.bind_eq_ok.mp h
    have hlast (hn : (pure (SlotSearch.unavailable (attempts + 1)) : Except DomainError SlotSearch) =
        .ok (.unavailable n)) : attempts + 1 = n := by
      injection Except.ok.inj hn
    cases admission with
    | available timelines => cases h
    | unavailable conflicts =>
      dsimp only at h
      split at h
      · have := hlast h
        omega
      · split at h
        · have := hlast h
          omega
        · split at h
          · have := hlast h
            omega
          · have := ih h
            omega

/-- The candidates of a range that has some are counted by a positive 128-bit number. -/
theorem searchSlots_attempts {s : EngineState} {bundle : RelativeBundle} {range : SlotRange}
    {n : Nat} (h : s.searchSlots bundle range = .ok (.unavailable n)) : 0 < n ∧ n < 2 ^ 128 := by
  unfold searchSlots at h
  split at h
  · cases h
  · split at h
    · cases h
    · obtain ⟨-, hle, hlt⟩ := searchSlotsFrom_attempts h
      have hlatest := range.latest.property
      have hearliest := range.earliest.property
      unfold SlotRange.fuel at hle hlt
      refine ⟨hlt (Nat.succ_pos _), ?_⟩
      norm_num
      omega

/-- A result that is given without a change is valid and names entities of the state. -/
theorem Declined.answer {now : Timestamp} {s : EngineState} (hs : s.IndexExact)
    {operation : CommandOperation} {result : CommandResult} (h : Declined now s operation result) :
    result.Valid ∧ s.Names (.ok result) := by
  cases h with
  | hold refused =>
    obtain ⟨hvalid, hnames⟩ := refused_conflicts hs overridesWellFormed_empty refused
    exact ⟨hvalid, conflicts_all_iff.mpr hnames⟩
  | @holdOneOf id choice expiresAt conflicts refused positions =>
    have heach (c : ChoiceConflict) (hc : c ∈ conflicts) :
        ConflictsValid c.conflicts ∧ ∀ d ∈ c.conflicts, s.NamesConflict d := by
      obtain ⟨bundle, -, hrefused⟩ := refused.exists_left hc
      exact refused_conflicts hs overridesWellFormed_empty hrefused
    refine ⟨⟨?_, positions, fun c hc => (heach c hc).1⟩, ?_⟩
    · rintro rfl
      exact choice.alternatives_ne_nil (List.forall₂_nil_right_iff.mp refused)
    · exact List.all_eq_true.mpr fun c hc => conflicts_all_iff.mpr (heach c hc).2
  | holdFirstSlot exhausted => exact ⟨searchSlots_attempts exhausted, rfl⟩
  | @replace id expected new bundle live p p' seq restored conflicts promise next replaced givenBack
      refused =>
    have ho := (restoredTimelines_sound hs.wellFormed givenBack).overridesWellFormed
    obtain ⟨hvalid, hnames⟩ := conflicts_filtered (refused_conflicts hs ho refused)
      fun other => decide (other ≠ id)
    exact ⟨hvalid, conflicts_all_iff.mpr hnames⟩
  | processExpirations => exact ⟨trivial, rfl⟩

/-! ## Changes -/

/-- A sorted list whose neighbours differ strictly increases. -/
theorem isChain_lt {l : List PromiseId} (hle : l.IsChain (· ≤ ·)) (hne : l.IsChain (· ≠ ·)) :
    l.IsChain (· < ·) := by
  induction hle with
  | nil => exact .nil
  | singleton a => exact .singleton a
  | cons_cons hab _ ih =>
    obtain ⟨hne', hrest⟩ := List.isChain_cons_cons.mp hne
    exact .cons_cons (lt_of_le_of_ne hab hne') (ih hrest)

/-- The affected promises of a revision are listed in order, without repetitions. -/
theorem affectedPromises_sorted (deficits : List CapacityDeficit) :
    strictlyIncreasing (affectedPromises deficits) = true := by
  have hle : (affectedPromises deficits).Pairwise (· ≤ ·) :=
    (List.pairwise_insertionSort (fun a b : PromiseId => a ≤ b) _).sublist
      (List.destutter_sublist _ _)
  have hne : (affectedPromises deficits).IsChain (· ≠ ·) := List.isChain_destutter _ _
  rw [strictlyIncreasing_iff, ← List.isChain_iff_pairwise]
  exact isChain_lt hle.isChain hne

/-- An affected promise is affected by one of the deficits. -/
theorem mem_affectedPromises {deficits : List CapacityDeficit} {id : PromiseId}
    (h : id ∈ affectedPromises deficits) : ∃ d ∈ deficits, id ∈ d.affectedPromiseIds := by
  have hsorted := (List.destutter_sublist _ _).subset h
  exact List.mem_flatMap.mp ((List.perm_insertionSort _ _).subset hsorted)

/-- The outcome of a revision is valid and names entities of the state after it. -/
theorem revise_answer {s s' : EngineState} {poolId : ResourcePoolId} {tl : SlackTimeline}
    {seq : SequenceNumber} {deficits : List CapacityDeficit} (next : s.sequence.next = .ok seq)
    (after : s.capacityDeficits poolId tl = .ok deficits) (hpool : poolId ∈ s'.resourcePools)
    (hpromises : s'.promises = s.promises) (hseq : s'.sequence = seq) :
    (CommandResult.capacityRevised ⟨seq, deficits, affectedPromises deficits⟩).Valid ∧
      s'.Names (.ok (.capacityRevised ⟨seq, deficits, affectedPromises deficits⟩)) := by
  have hspec := capacityDeficits_spec after
  have hknown : ∀ d ∈ deficits, ∀ id ∈ d.affectedPromiseIds, id ∈ s'.promises := by
    intro d hd id hid
    rw [hpromises]
    exact (hspec d hd).2.2.2 id hid
  refine ⟨⟨?_, affectedPromises_sorted deficits, ?_⟩, ?_⟩
  · have hnext := SequenceNumber.next_eq_ok.mp next
    have hnonneg := s.sequence.get.property.1
    show 0 < seq.get.val
    omega
  · exact fun d hd => ⟨(hspec d hd).2.1, (hspec d hd).2.2.1⟩
  · simp only [Names, Engine.responseReferencesValid, Bool.and_eq_true_iff, decide_eq_true_eq]
    refine ⟨⟨hseq.ge, List.all_eq_true.mpr ?_⟩, all_contains_iff.mpr ?_⟩
    · intro d hd
      rw [Bool.and_eq_true_iff, (hspec d hd).1]
      exact ⟨OrderedMap.contains_iff.mpr hpool, all_contains_iff.mpr (hknown d hd)⟩
    · intro id hid
      obtain ⟨d, hd, hmem⟩ := mem_affectedPromises hid
      exact hknown d hd id hmem

/-- A promise that is written reaches its version. -/
theorem hasReached_withPromise (s : EngineState) (id : PromiseId) (p : Promise)
    (timelines : OrderedMap ResourcePoolId SlackTimeline) (seq : SequenceNumber) (now : Timestamp)
    (kind : EventKind) : (s.withPromise id p timelines seq now kind).HasReached id p.version :=
  ⟨p, OrderedMap.lookup_insert_self _ _ _, le_rfl⟩

/-- The result of a change is valid and names entities of the state after it. -/
theorem Transition.answer {now : Timestamp} {change : Change} {s s' : EngineState}
    (h : Transition now change s s') {operation : CommandOperation} {result : CommandResult}
    (answers : Answers operation change result) : result.Valid ∧ s'.Names (.ok result) := by
  cases h with
  | expire => cases answers
  | createPool absent next built =>
    cases answers
    exact ⟨trivial, OrderedMap.contains_iff.mpr (OrderedMap.mem_insert_iff.mpr (.inl rfl))⟩
  | revise present next indexed before rebuilt after =>
    cases answers
    exact revise_answer next after (OrderedMap.mem_insert_iff.mpr (.inl rfl)) rfl rfl
  | hold absent next created admitted =>
    cases answers <;>
      exact ⟨trivial, OrderedMap.contains_iff.mpr (OrderedMap.mem_insert_iff.mpr (.inl rfl))⟩
  | commit promise next committed =>
    cases answers
    obtain ⟨-, rfl, -⟩ := Promise.commit_eq_ok committed
    exact ⟨trivial, reachedVersion_iff.mpr (hasReached_withPromise s _ _ _ _ now _)⟩
  | release promise next released restored =>
    cases answers
    obtain ⟨-, rfl, -⟩ := Promise.release_eq_ok released
    exact ⟨trivial, reachedVersion_iff.mpr (hasReached_withPromise s _ _ _ _ now _)⟩
  | replace promise next replaced givenBack admitted =>
    cases answers
    obtain ⟨-, rfl, -⟩ := Promise.replace_eq_ok replaced
    exact ⟨trivial, reachedVersion_iff.mpr (hasReached_withPromise s _ _ _ _ now _)⟩

/-- Every result of an operation is valid and names entities of the state after it. -/
theorem applyOnce_answer {s s' : EngineState} (hs : s.IndexExact) {operation : CommandOperation}
    {now : Timestamp} {result : CommandResult} (h : applyOnce operation now s = .ok result s') :
    result.Valid ∧ s'.Names (.ok result) := by
  obtain ⟨s₁, hs₁, hcompletes⟩ := applyOnce_cases h
  cases hcompletes with
  | declined hdeclined => exact hdeclined.answer (Engine.indexExact_expirations hs hs₁)
  | accepted hstep answers => exact hstep.answer answers

end EngineState

end PromiseDb
