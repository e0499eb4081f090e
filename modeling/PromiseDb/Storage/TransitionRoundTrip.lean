import PromiseDb.Engine.Batch
import PromiseDb.Storage.TransitionCodec

/-!
# Reading back a transition

What a durable transition must satisfy to be read back: its lengths fit into their prefixes and
into the bounds of the reader, and its structure is the one that the reader checks.  Under these
conditions every field is read back as it was written.
-/

namespace PromiseDb

/-! ## Structure that the reader checks -/

/-- The structure of a durable transition. -/
structure DurableTransition.Valid (t : DurableTransition) : Prop where
  response : ResponseValid t.response
  resourcePools : t.resourcePools.Pairwise fun a b => a.id < b.id
  promises : t.promises.Pairwise fun a b => a.id < b.id
  histories : ∀ p ∈ t.promises, p.Valid
  sequences : t.events.Pairwise fun a b => a.sequence ≤ b.sequence
  events : ∀ e ∈ t.events, e.Valid

/-! ## Lengths that can be represented -/

section Limits

variable (limits : ReaderLimits)

/-- The lengths in a pool. -/
def ResourcePool.LengthsFit (pool : ResourcePool) : Prop :=
  StringFits limits pool.displayName ∧ StringFits limits pool.unit.name ∧
    CountFits limits pool.capacityCurve.segments.length

/-- The lengths in a promise. -/
def Promise.LengthsFit (p : Promise) : Prop := CountFits limits p.bundle.claims.length

/-- The lengths in a list of conflicts. -/
def ConflictsFit (cs : List AvailabilityConflict) : Prop :=
  CountFits limits cs.length ∧ ∀ c ∈ cs, CountFits limits c.conflictingPromiseIds.length

/-- The lengths in a result. -/
def CommandResult.LengthsFit : CommandResult → Prop
  | .capacityRevised outcome => CountFits limits outcome.deficits.length ∧
      CountFits limits outcome.affectedPromiseIds.length ∧
      ∀ d ∈ outcome.deficits, CountFits limits d.affectedPromiseIds.length
  | .holdCompleted (.unavailable conflicts) => ConflictsFit limits conflicts
  | .choiceCompleted (.unavailable conflicts) => CountFits limits conflicts.length ∧
      ∀ c ∈ conflicts, ConflictsFit limits c.conflicts
  | .promiseReplaced (.unavailable conflicts) => ConflictsFit limits conflicts
  | _ => True

/-- The counts in a result that are not lengths of its lists. -/
def CommandResult.NumbersFit : CommandResult → Prop
  | .choiceCompleted (.held _ index) => CountFits limits index
  | .expirationsProcessed count => count < 2 ^ 64
  | _ => True

/-- The lengths in a response. -/
def ResponseFits : CommandResponse → Prop
  | .ok result => result.LengthsFit limits
  | .error _ => True

/-- The counts in a response. -/
def ResponseNumbersFit : CommandResponse → Prop
  | .ok result => result.NumbersFit limits
  | .error _ => True

/-- The lengths in an event payload. -/
def EventData.LengthsFit : EventData → Prop
  | .deficit _ _ _ affectedPromiseIds => CountFits limits affectedPromiseIds.length
  | _ => True

instance ResourcePool.decidableLengthsFit (pool : ResourcePool) :
    Decidable (pool.LengthsFit limits) :=
  inferInstanceAs (Decidable (_ ∧ _ ∧ _))

instance Promise.decidableLengthsFit (p : Promise) : Decidable (p.LengthsFit limits) :=
  inferInstanceAs (Decidable (CountFits limits p.bundle.claims.length))

instance decidableConflictsFit (cs : List AvailabilityConflict) :
    Decidable (ConflictsFit limits cs) :=
  inferInstanceAs (Decidable (_ ∧ ∀ c ∈ cs, _))

instance CommandResult.decidableLengthsFit :
    (result : CommandResult) → Decidable (result.LengthsFit limits)
  | .capacityRevised outcome => inferInstanceAs (Decidable (_ ∧ _ ∧ ∀ d ∈ outcome.deficits, _))
  | .holdCompleted (.unavailable conflicts) =>
    inferInstanceAs (Decidable (ConflictsFit limits conflicts))
  | .choiceCompleted (.unavailable conflicts) =>
    inferInstanceAs (Decidable (_ ∧ ∀ c ∈ conflicts, ConflictsFit limits c.conflicts))
  | .promiseReplaced (.unavailable conflicts) =>
    inferInstanceAs (Decidable (ConflictsFit limits conflicts))
  | .resourcePoolCreated _ | .holdCompleted (.held _) | .choiceCompleted (.held _ _)
  | .slotCompleted _ | .promiseCommitted _ _ | .promiseReleased _ _
  | .promiseReplaced (.replaced _ _) | .expirationsProcessed _ => .isTrue trivial

instance decidableResponseFits :
    (response : CommandResponse) → Decidable (ResponseFits limits response)
  | .ok result => inferInstanceAs (Decidable (result.LengthsFit limits))
  | .error _ => .isTrue trivial

instance CommandResult.decidableNumbersFit :
    (result : CommandResult) → Decidable (result.NumbersFit limits)
  | .choiceCompleted (.held _ index) => inferInstanceAs (Decidable (CountFits limits index))
  | .expirationsProcessed count => inferInstanceAs (Decidable (count < 2 ^ 64))
  | .resourcePoolCreated _ | .capacityRevised _ | .holdCompleted _
  | .choiceCompleted (.unavailable _) | .slotCompleted _ | .promiseCommitted _ _
  | .promiseReleased _ _ | .promiseReplaced _ => .isTrue trivial

instance decidableResponseNumbersFit :
    (response : CommandResponse) → Decidable (ResponseNumbersFit limits response)
  | .ok result => inferInstanceAs (Decidable (result.NumbersFit limits))
  | .error _ => .isTrue trivial

instance EventData.decidableLengthsFit : (data : EventData) → Decidable (data.LengthsFit limits)
  | .deficit _ _ _ affectedPromiseIds =>
    inferInstanceAs (Decidable (CountFits limits affectedPromiseIds.length))
  | .resourcePool _ | .promise _ _ => .isTrue trivial

end Limits

/-- The strings and collections of a durable transition have fewer than 2^32 elements. -/
@[mk_iff]
structure DurableTransition.LengthsFit (t : DurableTransition) : Prop where
  command : t.command.LengthsFit
  clientId : StringFits Reader.transitionLimits t.clientId.value
  idempotencyKey : StringFits Reader.transitionLimits t.idempotencyKey.value
  response : ResponseFits Reader.transitionLimits t.response
  resourcePools : CountFits Reader.transitionLimits t.resourcePools.length
  pools : ∀ pool ∈ t.resourcePools, pool.LengthsFit Reader.transitionLimits
  promises : CountFits Reader.transitionLimits t.promises.length
  bundles : ∀ p ∈ t.promises, p.LengthsFit Reader.transitionLimits
  events : CountFits Reader.transitionLimits t.events.length
  payloads : ∀ e ∈ t.events, e.data.LengthsFit Reader.transitionLimits

instance DurableTransition.decidableLengthsFit (t : DurableTransition) : Decidable t.LengthsFit :=
  decidable_of_iff' _ (DurableTransition.lengthsFit_iff t)

/-! ## Fields -/

/-- A sequence number is read back as it was written. -/
theorem roundTrips_sequence (value : SequenceNumber) :
    RoundTrips (Writer.u64 value.get) Reader.sequence value :=
  (roundTrips_u64 value.get).map rfl

/-- A version in a transition is read back as it was written. -/
theorem roundTrips_transitionVersion (value : Version) :
    RoundTrips (Writer.u64 value.get) Reader.version value :=
  roundTrips_version value _

/-- The bytes of a digest are those of the digest. -/
theorem CommandHash.fromBytes_bytes (hash : CommandHash) : fromBytes hash.bytes = hash := by
  obtain ⟨bytes, hlen⟩ := hash
  have htake : bytes.takeD 32 0 = bytes := by
    rw [List.takeD_eq_take _ hlen.ge, ← hlen, List.take_length]
  simp only [fromBytes, htake]

/-- A command hash is read back as it was written. -/
theorem roundTrips_commandHash (hash : CommandHash) :
    RoundTrips (Writer.raw hash.bytes) Reader.commandHash hash := by
  apply (roundTrips_take hash.length_bytes).map
  rw [CommandHash.fromBytes_bytes]

/-- A promise state is read back as it was written. -/
theorem roundTrips_promiseState (state : PromiseState) :
    RoundTrips (Writer.promiseState state) Reader.promiseState state := by
  cases state with
  | held expiresAt => exact (roundTrips_byte 1).bind ((roundTrips_i64 expiresAt).map rfl)
  | committed => exact (roundTrips_byte 2).map rfl
  | released => exact (roundTrips_byte 3).map rfl
  | expired => exact (roundTrips_byte 4).map rfl

/-- Every error has its own tag. -/
theorem roundTrips_domainError (error : DomainError) :
    RoundTrips (Writer.domainError error) Reader.domainError error := by
  apply (roundTrips_byte (Writer.domainErrorTag error)).map
  cases error <;> rfl

/-- Every event kind has its own tag. -/
theorem roundTrips_eventKind (kind : EventKind) :
    RoundTrips (Writer.byte (Writer.eventKindTag kind)) Reader.eventKind kind := by
  apply (roundTrips_byte (Writer.eventKindTag kind)).map
  cases kind <;> rfl

/-- A positive number of attempts below 2^128. -/
theorem roundTrips_attempts {n : Nat} (hpos : 0 < n) (hlt : n < 2 ^ 128) :
    RoundTrips (Writer.attempts n) Reader.attempts n := by
  have hread : Bytes.ofLe (Bytes.le 16 n) = n := Bytes.ofLe_le_of_lt (by norm_num; omega)
  apply (roundTrips_take (Bytes.length_le 16 n)).map
  rw [hread, if_neg hpos.ne']

/-- A count that a 64-bit number holds. -/
theorem roundTrips_expiredCount {n : Nat} (hlt : n < 2 ^ 64) :
    RoundTrips (Writer.expiredCount n) Reader.expiredCount n := by
  have hrange : (0 : ℤ) ≤ n ∧ (n : ℤ) ≤ 18446744073709551615 := by omega
  have hwrite : Writer.expiredCount n = Writer.u64 ⟨n, hrange⟩ := by
    rw [Writer.expiredCount, BoundedInt.ofInt?_of_mem hrange]
  rw [hwrite]
  exact (roundTrips_u64 ⟨n, hrange⟩).map rfl

/-- A list without disorder between neighbours. -/
theorem isChain_decide {α : Type} {R : α → α → Prop} [DecidableRel R] {l : List α}
    (h : l.Pairwise R) : l.IsChain fun a b => decide (R a b) = true :=
  h.isChain.imp fun _ _ hab => decide_eq_true hab

section Limits

variable {limits : ReaderLimits}

/-- A pool whose lengths fit is read back as it was written. -/
theorem roundTrips_resourcePool {value : ResourcePool} (h : value.LengthsFit limits) :
    RoundTrips (Writer.resourcePool value) (Reader.resourcePool limits) value := by
  obtain ⟨hname, hunit, hcurve⟩ := h
  refine (roundTrips_poolId value.id).bind ?_
  refine (roundTrips_string hname).bind ?_
  refine (roundTrips_unit hunit).bind ?_
  exact (roundTrips_curve hcurve).map rfl

/-- A promise with a valid history. -/
theorem roundTrips_promise {value : Promise} (h : value.LengthsFit limits) (hvalid : value.Valid) :
    RoundTrips (Writer.promise value) (Reader.promise limits) value := by
  have hrestore : Promise.restore value.id value.state value.bundle value.version
      value.createdSequence value.updatedSequence = .ok value := by
    apply if_neg
    rintro (hzero | hlt | hversion)
    · exact hvalid.1 hzero
    · exact hvalid.2.not_gt hlt
    · exact value.version.get_ne_zero hversion
  refine (roundTrips_promiseId value.id).bind ?_
  refine (roundTrips_promiseState value.state).bind ?_
  refine (roundTrips_bundle h).bind ?_
  refine (roundTrips_transitionVersion value.version).bind ?_
  refine (roundTrips_sequence value.createdSequence).bind ?_
  exact (roundTrips_sequence value.updatedSequence).andThen (inverts_domain hrestore)

/-- A list of promise ids that is valid and whose lengths fit is read back as it was written. -/
theorem roundTrips_ids {field : String} {value : List PromiseId}
    (h : CountFits limits value.length) (hsorted : strictlyIncreasing value = true) :
    RoundTrips (Writer.ids field value) (Reader.ids limits field) value := by
  refine (roundTrips_len h).bind ?_
  refine Codec.Paired.timesInOrder (fun id _ => roundTrips_promiseId id) none ?_ ?_
  · intro previous hprevious
    cases hprevious
  · exact isChain_decide (strictlyIncreasing_iff.mp hsorted)

/-- A conflict that is valid and whose lengths fit is read back as it was written. -/
theorem roundTrips_conflict {value : AvailabilityConflict}
    (h : CountFits limits value.conflictingPromiseIds.length) (hvalid : value.Valid) :
    RoundTrips (Writer.conflict value) (Reader.conflict limits) value := by
  refine (roundTrips_poolId value.resourcePoolId).bind ?_
  refine (roundTrips_interval value.blockingInterval).bind ?_
  refine (roundTrips_u64 value.requiredQuantity).bind ?_
  refine (roundTrips_u64 value.availableQuantity).bind ?_
  refine (roundTrips_u64 value.deficitQuantity).bind ?_
  exact (roundTrips_ids h hvalid.2.2).andThen
    (inverts_orCorrupt (AvailabilityConflict.restore_eq_some.mpr hvalid))

/-- A list of conflicts that is not empty. -/
theorem roundTrips_conflicts {values : List AvailabilityConflict}
    (h : ConflictsFit limits values) (hvalid : ConflictsValid values) :
    RoundTrips (Writer.conflicts values) (Reader.conflicts limits) values := by
  refine (roundTrips_len h.1).bind ?_
  rw [if_neg (List.length_eq_zero_iff.not.mpr hvalid.1)]
  exact Codec.Paired.times fun c hc => roundTrips_conflict (h.2 c hc) (hvalid.2 c hc)

/-- A deficit that is valid and whose lengths fit is read back as it was written. -/
theorem roundTrips_deficit {value : CapacityDeficit}
    (h : CountFits limits value.affectedPromiseIds.length) (hvalid : value.Valid) :
    RoundTrips (Writer.deficit value) (Reader.deficit limits) value := by
  refine (roundTrips_poolId value.resourcePoolId).bind ?_
  refine (roundTrips_interval value.interval).bind ?_
  refine (roundTrips_u64 value.quantity).bind ?_
  exact (roundTrips_ids h hvalid.2).andThen
    (inverts_orCorrupt (CapacityDeficit.restore_eq_some.mpr hvalid))

/-- The outcome of a revision that is valid and whose lengths fit is read back as it was written. -/
theorem roundTrips_capacityOutcome {value : CapacityRevisionOutcome}
    (h : (CommandResult.capacityRevised value).LengthsFit limits) (hvalid : value.Valid) :
    RoundTrips (Writer.capacityOutcome value) (Reader.capacityOutcome limits) value := by
  obtain ⟨hdeficits, hids, heach⟩ := h
  obtain ⟨hpos, hsorted, hdeficit⟩ := hvalid
  refine (roundTrips_sequence value.sequence).bind ?_
  refine (roundTrips_len hdeficits).bind ?_
  refine (Codec.Paired.times fun d hd => roundTrips_deficit (heach d hd) (hdeficit d hd)).bind ?_
  exact (roundTrips_ids hids hsorted).andThen
    (inverts_orCorrupt (CapacityRevisionOutcome.restore_eq_some.mpr ⟨hpos, hsorted⟩))

/-- The conflicts of the alternative at its position. -/
theorem roundTrips_choiceConflict {value : ChoiceConflict}
    (hindex : CountFits limits value.alternativeIndex)
    (h : ConflictsFit limits value.conflicts) (hvalid : ConflictsValid value.conflicts) :
    RoundTrips (Writer.choiceConflict value)
      (Reader.choiceConflict limits value.alternativeIndex) value := by
  refine (roundTrips_len hindex).bind ?_
  rw [if_neg (not_not.mpr rfl)]
  exact (roundTrips_conflicts h hvalid).andThen (inverts_orCorrupt (if_pos hvalid.1))

/-- A smaller length is represented and accepted as well. -/
theorem CountFits.mono {m n : Nat} (h : CountFits limits n) (hmn : m ≤ n) : CountFits limits m := by
  obtain ⟨hfits, hlimit⟩ := h
  refine ⟨hmn.trans_lt hfits, ?_⟩
  unfold withinLimit at hlimit ⊢
  cases hmax : limits.maxCollectionItems with
  | none => rfl
  | some max =>
    rw [hmax] at hlimit
    exact decide_eq_true (hmn.trans (of_decide_eq_true hlimit))

/-- The conflicts of the alternatives stand at their positions, and are read one after the other. -/
theorem roundTrips_choiceConflicts {conflicts : List ChoiceConflict}
    (hcount : CountFits limits conflicts.length)
    (hfits : ∀ c ∈ conflicts, ConflictsFit limits c.conflicts)
    (hpositions : conflicts.map (·.alternativeIndex) = List.range conflicts.length)
    (hvalid : ∀ c ∈ conflicts, ConflictsValid c.conflicts) :
    RoundTrips (conflicts.forM Writer.choiceConflict)
      (Codec.Reader.timesFrom (Reader.choiceConflict limits) 0 conflicts.length) conflicts := by
  apply Codec.Paired.timesFrom
  intro i c hc
  have hmem : c ∈ conflicts := List.mem_of_getElem? hc
  have hindex : c.alternativeIndex = i := by
    have hmap : (conflicts.map (·.alternativeIndex))[i]? = some c.alternativeIndex := by
      rw [List.getElem?_map, hc]
      rfl
    rw [hpositions] at hmap
    obtain ⟨hi, heq⟩ := List.getElem?_eq_some_iff.mp hmap
    rw [List.getElem_range] at heq
    exact heq.symm
  have hlt : i < conflicts.length := (List.getElem?_eq_some_iff.mp hc).1
  rw [Nat.zero_add, ← hindex]
  exact roundTrips_choiceConflict (hcount.mono (hindex ▸ hlt.le)) (hfits c hmem) (hvalid c hmem)

/-- A valid result whose lengths and numbers fit is read back as it was written. -/
theorem roundTrips_result {value : CommandResult} (h : value.LengthsFit limits)
    (hnumbers : value.NumbersFit limits) (hvalid : value.Valid) :
    RoundTrips (Writer.result value) (Reader.result limits) value := by
  cases value with
  | resourcePoolCreated resourcePoolId =>
    refine (roundTrips_byte 1).bind ?_
    exact (roundTrips_poolId resourcePoolId).map rfl
  | capacityRevised outcome =>
    refine (roundTrips_byte 2).bind ?_
    exact (roundTrips_capacityOutcome h hvalid).map rfl
  | holdCompleted outcome =>
    cases outcome with
    | held id =>
      have hout : RoundTrips (do Writer.byte 1; Writer.promiseId id) (Reader.holdOutcome limits)
          (.held id) := (roundTrips_byte 1).bind ((roundTrips_promiseId id).map rfl)
      exact (roundTrips_byte 3).bind (hout.map rfl)
    | unavailable conflicts =>
      have hout : RoundTrips (do Writer.byte 2; Writer.conflicts conflicts)
          (Reader.holdOutcome limits) (.unavailable conflicts) :=
        (roundTrips_byte 2).bind ((roundTrips_conflicts h hvalid).map rfl)
      exact (roundTrips_byte 3).bind (hout.map rfl)
  | choiceCompleted outcome =>
    cases outcome with
    | held id index =>
      have hout : RoundTrips
          (do
            Writer.byte 1
            Writer.promiseId id
            Writer.len "alternative index" index)
          (Reader.choiceOutcome limits) (.held id index) :=
        (roundTrips_byte 1).bind
          ((roundTrips_promiseId id).bind ((roundTrips_len hnumbers).map rfl))
      exact (roundTrips_byte 4).bind (hout.map rfl)
    | unavailable conflicts =>
      obtain ⟨hcount, hfits⟩ := h
      obtain ⟨hne, hpositions, heach⟩ := hvalid
      have hout : RoundTrips
          (do
            Writer.byte 2
            Writer.len "choice conflicts" conflicts.length
            conflicts.forM Writer.choiceConflict)
          (Reader.choiceOutcome limits) (.unavailable conflicts) := by
        refine (roundTrips_byte 2).bind ?_
        refine (roundTrips_len hcount).bind ?_
        rw [if_neg (List.length_eq_zero_iff.not.mpr hne)]
        exact (roundTrips_choiceConflicts hcount hfits hpositions heach).map rfl
      exact (roundTrips_byte 4).bind (hout.map rfl)
  | slotCompleted outcome =>
    cases outcome with
    | held id start =>
      have hout : RoundTrips (do Writer.byte 1; Writer.promiseId id; Writer.i64 start)
          Reader.slotOutcome (.held id start) :=
        (roundTrips_byte 1).bind ((roundTrips_promiseId id).bind ((roundTrips_i64 start).map rfl))
      exact (roundTrips_byte 5).bind (hout.map rfl)
    | unavailable attempts =>
      have hout : RoundTrips (do Writer.byte 2; Writer.attempts attempts) Reader.slotOutcome
          (.unavailable attempts) :=
        (roundTrips_byte 2).bind ((roundTrips_attempts hvalid.1 hvalid.2).map rfl)
      exact (roundTrips_byte 5).bind (hout.map rfl)
  | promiseCommitted id version =>
    refine (roundTrips_byte 6).bind ?_
    refine (roundTrips_promiseId id).bind ?_
    exact (roundTrips_transitionVersion version).map rfl
  | promiseReleased id version =>
    refine (roundTrips_byte 7).bind ?_
    refine (roundTrips_promiseId id).bind ?_
    exact (roundTrips_transitionVersion version).map rfl
  | promiseReplaced outcome =>
    cases outcome with
    | replaced id version =>
      have hout : RoundTrips (do Writer.byte 1; Writer.promiseId id; Writer.u64 version.get)
          (Reader.replaceOutcome limits) (.replaced id version) :=
        (roundTrips_byte 1).bind ((roundTrips_promiseId id).bind
          ((roundTrips_transitionVersion version).map rfl))
      exact (roundTrips_byte 8).bind (hout.map rfl)
    | unavailable conflicts =>
      have hout : RoundTrips (do Writer.byte 2; Writer.conflicts conflicts)
          (Reader.replaceOutcome limits) (.unavailable conflicts) :=
        (roundTrips_byte 2).bind ((roundTrips_conflicts h hvalid).map rfl)
      exact (roundTrips_byte 8).bind (hout.map rfl)
  | expirationsProcessed count =>
    refine (roundTrips_byte 9).bind ?_
    exact (roundTrips_expiredCount hnumbers).map rfl

/-- A response that is valid and whose lengths fit is read back as it was written. -/
theorem roundTrips_response {value : CommandResponse} (h : ResponseFits limits value)
    (hnumbers : ResponseNumbersFit limits value) (hvalid : ResponseValid value) :
    RoundTrips (Writer.response value) (Reader.response limits) value := by
  cases value with
  | ok result =>
    refine (roundTrips_byte 1).bind ?_
    exact (roundTrips_result h hnumbers hvalid).map rfl
  | error error =>
    refine (roundTrips_byte 2).bind ?_
    exact (roundTrips_domainError error).map rfl

/-- The data of an event that is valid and whose lengths fit is read back as it was written. -/
theorem roundTrips_eventData {value : EventData} (h : value.LengthsFit limits)
    (hordered : value.isOrdered = true) :
    RoundTrips (Writer.eventData value) (Reader.eventData limits) value := by
  cases value with
  | resourcePool resourcePoolId =>
    refine (roundTrips_byte 1).bind ?_
    exact (roundTrips_poolId resourcePoolId).map rfl
  | promise id version =>
    refine (roundTrips_byte 2).bind ?_
    refine (roundTrips_promiseId id).bind ?_
    exact (roundTrips_transitionVersion version).map rfl
  | deficit resourcePoolId interval quantity affectedPromiseIds =>
    have hsorted : strictlyIncreasing affectedPromiseIds = true := (Bool.and_eq_true_iff.mp hordered).2
    refine (roundTrips_byte 3).bind ?_
    refine (roundTrips_poolId resourcePoolId).bind ?_
    refine (roundTrips_interval interval).bind ?_
    refine (roundTrips_u64 quantity).bind ?_
    exact (roundTrips_ids h hsorted).map rfl

/-- An event that is valid and whose lengths fit is read back as it was written. -/
theorem roundTrips_event {value : Event} (h : value.data.LengthsFit limits)
    (hvalid : value.Valid) :
    RoundTrips (Writer.event value) (Reader.event limits) value := by
  refine (roundTrips_sequence value.sequence).bind ?_
  refine (roundTrips_i64 value.timestamp).bind ?_
  refine (roundTrips_eventKind value.kind).bind ?_
  exact (roundTrips_eventData h hvalid.2.2).andThen
    (inverts_orCorrupt (Event.restore_eq_some.mpr hvalid))

end Limits

/-! ## Transitions -/

/-- The encoded command of a transition. -/
theorem encodeCommand_exists {t : DurableTransition} (h : t.LengthsFit) :
    ∃ bytes, encodeCommand t.command = .ok bytes ∧ decodeCommand bytes = .ok t.command := by
  obtain ⟨bytes, hwrites, hinverts⟩ := roundTrips_command h.command
  exact ⟨bytes, hwrites.written, (complete_of_inverts hinverts).1⟩

/-- A valid transition whose lengths fit is read back. -/
theorem roundTrips_transition {t : DurableTransition} (h : t.LengthsFit)
    (hnumbers : ResponseNumbersFit Reader.transitionLimits t.response) (hvalid : t.Valid)
    {commandBytes : List UInt8} (hencode : encodeCommand t.command = .ok commandBytes)
    (hlength : CountFits Reader.transitionLimits commandBytes.length) :
    RoundTrips (Writer.transition t) Reader.transition t := by
  have hformat : RoundTrips (Writer.byte 1) Reader.transitionFormat ⟨⟩ :=
    (roundTrips_byte 1).map rfl
  have hdecode : decodeCommand commandBytes = .ok t.command := by
    obtain ⟨bytes, hbytes, hdecode⟩ := encodeCommand_exists h
    rwa [Except.ok.inj (hencode.symm.trans hbytes)]
  have hnone {α : Type} {P : α → α → Prop} {l : List α} :
      ∀ p ∈ (none : Option α), ∀ a ∈ l.head?, P p a := fun p hp => by cases hp
  refine hformat.bind ?_
  refine Codec.Paired.lift hencode ?_
  refine (roundTrips_bytes hlength).bind ?_
  rw [hdecode, Codec.Reader.lift_ok_bind]
  refine (roundTrips_string h.clientId).bind ?_
  refine (roundTrips_string h.idempotencyKey).bind ?_
  refine (roundTrips_commandHash t.commandHash).bind ?_
  refine (roundTrips_response h.response hnumbers hvalid.response).bind ?_
  refine (roundTrips_len h.resourcePools).bind ?_
  refine (Codec.Paired.timesInOrder (fun pool hp => roundTrips_resourcePool (h.pools pool hp)) none
    hnone (isChain_decide hvalid.resourcePools)).bind ?_
  refine (roundTrips_len h.promises).bind ?_
  refine (Codec.Paired.timesInOrder (fun p hp => roundTrips_promise (h.bundles p hp)
    (hvalid.histories p hp)) none hnone (isChain_decide hvalid.promises)).bind ?_
  refine (roundTrips_len h.events).bind ?_
  refine (Codec.Paired.timesInOrder (fun e he => roundTrips_event (h.payloads e he)
    (hvalid.events e he)) none hnone (isChain_decide hvalid.sequences)).bind ?_
  exact (roundTrips_sequence t.finalSequence).map rfl

end PromiseDb
