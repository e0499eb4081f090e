import PromiseDb.Storage.DurableItems

/-!
# Written lengths

A writer refuses a length that its four-byte prefix cannot represent.  Hence the lengths in
whatever was written fit into their prefixes, and a transition that was written satisfies every
condition on lengths under which it is read back.
-/

namespace PromiseDb

open Codec

/-- Every length that a prefix can represent is within the bounds of a reader. -/
def ReaderLimits.Wide (limits : ReaderLimits) : Prop :=
  ∀ length, length < 2 ^ 32 → withinLimit limits.maxCollectionItems length = true ∧
    withinLimit limits.maxStringBytes length = true

/-- Without limits every length that can be written is read. -/
theorem wide_unlimited : ReaderLimits.unlimited.Wide := fun _ _ => ⟨rfl, rfl⟩

/-- The reader of transitions only bounds lengths by the size of the memory. -/
theorem wide_transitionLimits : Reader.transitionLimits.Wide := by
  intro length h
  have hle : length ≤ Reader.usizeMax := h.le.trans (by norm_num [Reader.usizeMax])
  exact ⟨decide_eq_true hle, decide_eq_true hle⟩

section Limits

variable {limits : ReaderLimits}

/-! ## Prefixes -/

/-- Writing a length requires that it fits any wide limit. -/
theorem requires_len (hwide : limits.Wide) (field : String) (length : Nat) :
    Requires (Writer.len field length) (CountFits limits length) := by
  intro out out' h
  by_cases hlt : length < 2 ^ 32
  · exact ⟨hlt, (hwide length hlt).1⟩
  · rw [fails_len (not_lt.mp hlt) out] at h
    cases h

/-- Writing bytes requires that their number fits any wide limit. -/
theorem requires_bytes (hwide : limits.Wide) (field : String) (value : List UInt8) :
    Requires (Writer.bytes field value) (CountFits limits value.length) :=
  (requires_len hwide field value.length).first

/-- Writing a string requires that its length fits any wide limit. -/
theorem requires_string (hwide : limits.Wide) (field value : String) :
    Requires (Writer.string field value) (StringFits limits value) :=
  (requires_bytes hwide field (utf8 value)).imp fun h => ⟨h, (hwide _ h.1).2⟩

/-! ## Domain values -/

/-- Writing a unit requires that its name fits any wide limit. -/
theorem requires_unit (hwide : limits.Wide) (value : ResourceUnit) :
    Requires (Writer.unit value) (StringFits limits value.name) :=
  (requires_string hwide _ value.name).first

/-- Writing a curve requires that its lengths fit any wide limits. -/
theorem requires_curve (hwide : limits.Wide) (value : CapacityCurve) :
    Requires (Writer.curve value) (CountFits limits value.segments.length) :=
  (requires_len hwide _ _).first

/-- Writing a bundle requires that its lengths fit any wide limits. -/
theorem requires_bundle (hwide : limits.Wide) (value : Bundle) :
    Requires (Writer.bundle value) (CountFits limits value.claims.length) :=
  (requires_len hwide _ _).first

/-- Writing a pool requires that its lengths fit any wide limits. -/
theorem requires_resourcePool (hwide : limits.Wide) (value : ResourcePool) :
    Requires (Writer.resourcePool value) (value.LengthsFit limits) := by
  apply Requires.second
  apply (requires_string hwide _ _).bind
  apply (requires_unit hwide _).bind
  exact requires_curve hwide _

/-- Writing a promise requires that its lengths fit any wide limits. -/
theorem requires_promise (hwide : limits.Wide) (value : Promise) :
    Requires (Writer.promise value) (value.LengthsFit limits) := by
  apply Requires.second
  apply Requires.second
  exact (requires_bundle hwide _).first

/-- Writing promise ids requires that their number fits any wide limit. -/
theorem requires_ids (hwide : limits.Wide) (field : String) (value : List PromiseId) :
    Requires (Writer.ids field value) (CountFits limits value.length) :=
  (requires_len hwide _ _).first

/-! ## Responses and events -/

/-- Writing a conflict requires that its lengths fit any wide limits. -/
theorem requires_conflict (hwide : limits.Wide) (value : AvailabilityConflict) :
    Requires (Writer.conflict value) (CountFits limits value.conflictingPromiseIds.length) := by
  apply Requires.second
  apply Requires.second
  apply Requires.second
  apply Requires.second
  apply Requires.second
  exact requires_ids hwide _ _

/-- Writing a list of conflicts requires that its lengths fit any wide limits. -/
theorem requires_conflicts (hwide : limits.Wide) (values : List AvailabilityConflict) :
    Requires (Writer.conflicts values) (ConflictsFit limits values) := by
  apply (requires_len hwide _ _).bind
  exact Requires.forM (requires_conflict hwide) values

/-- Writing a deficit requires that its lengths fit any wide limits. -/
theorem requires_deficit (hwide : limits.Wide) (value : CapacityDeficit) :
    Requires (Writer.deficit value) (CountFits limits value.affectedPromiseIds.length) := by
  apply Requires.second
  apply Requires.second
  apply Requires.second
  exact requires_ids hwide _ _

/-- Writing the outcome of a revision requires that its lengths fit any wide limits. -/
theorem requires_capacityOutcome (hwide : limits.Wide) (value : CapacityRevisionOutcome) :
    Requires (Writer.capacityOutcome value)
      ((CommandResult.capacityRevised value).LengthsFit limits) := by
  apply Requires.second
  refine Requires.imp ((requires_len hwide _ _).bind
    ((Requires.forM (requires_deficit hwide) value.deficits).bind (requires_ids hwide _ _))) ?_
  rintro ⟨hcount, hdeficits, hids⟩
  exact ⟨hcount, hids, hdeficits⟩

/-- Writing a conflict of a choice requires that its lengths fit any wide limits. -/
theorem requires_choiceConflict (hwide : limits.Wide) (value : ChoiceConflict) :
    Requires (Writer.choiceConflict value) (ConflictsFit limits value.conflicts) :=
  Requires.second (requires_conflicts hwide _)

/-- Writing a result requires that its lengths fit any wide limits. -/
theorem requires_result (hwide : limits.Wide) (value : CommandResult) :
    Requires (Writer.result value) (value.LengthsFit limits) := by
  cases value with
  | capacityRevised outcome => exact Requires.second (requires_capacityOutcome hwide outcome)
  | holdCompleted outcome =>
    cases outcome with
    | held id => exact Requires.trivial _
    | unavailable conflicts => exact Requires.second (Requires.second (requires_conflicts hwide _))
  | choiceCompleted outcome =>
    cases outcome with
    | held id index => exact Requires.trivial _
    | unavailable conflicts =>
      apply Requires.second
      apply Requires.second
      apply (requires_len hwide _ _).bind
      exact Requires.forM (requires_choiceConflict hwide) conflicts
  | promiseReplaced outcome =>
    cases outcome with
    | replaced id version => exact Requires.trivial _
    | unavailable conflicts => exact Requires.second (Requires.second (requires_conflicts hwide _))
  | resourcePoolCreated resourcePoolId => exact Requires.trivial _
  | slotCompleted outcome => exact Requires.trivial _
  | promiseCommitted id version => exact Requires.trivial _
  | promiseReleased id version => exact Requires.trivial _
  | expirationsProcessed count => exact Requires.trivial _

/-- Writing a response requires that its lengths fit any wide limits. -/
theorem requires_response (hwide : limits.Wide) (value : CommandResponse) :
    Requires (Writer.response value) (ResponseFits limits value) := by
  cases value with
  | ok result => exact Requires.second (requires_result hwide result)
  | error error => exact Requires.trivial _

/-- Writing an event requires that its lengths fit any wide limits. -/
theorem requires_event (hwide : limits.Wide) (value : Event) :
    Requires (Writer.event value) (value.data.LengthsFit limits) := by
  apply Requires.second
  apply Requires.second
  apply Requires.second
  cases value.data with
  | resourcePool resourcePoolId => exact Requires.trivial _
  | promise id version => exact Requires.trivial _
  | deficit resourcePoolId interval quantity affectedPromiseIds =>
    apply Requires.second
    apply Requires.second
    apply Requires.second
    apply Requires.second
    exact requires_ids hwide _ _

end Limits

/-! ## Commands and transitions -/

/-- Writing an operation requires that its lengths fit. -/
theorem requires_operation (value : CommandOperation) :
    Requires (Writer.operation value) value.LengthsFit := by
  have hwide := wide_unlimited
  cases value with
  | createResourcePool resourcePoolId displayName unit capacityCurve =>
    apply Requires.second
    apply Requires.second
    apply (requires_string hwide _ _).bind
    apply (requires_unit hwide _).bind
    exact requires_curve hwide _
  | reviseCapacity resourcePoolId capacityCurve mode =>
    exact Requires.second (Requires.second (requires_curve hwide _).first)
  | hold promiseId bundle expiresAt =>
    exact Requires.second (Requires.second (requires_bundle hwide _).first)
  | holdOneOf promiseId choice expiresAt =>
    apply Requires.second
    apply Requires.second
    apply Requires.first
    apply (requires_len hwide _ _).bind
    exact Requires.forM (requires_bundle hwide) choice.alternatives
  | holdFirstSlot promiseId relativeBundle earliestStart latestStart step expiresAt =>
    exact Requires.second (Requires.second (Requires.first (requires_len hwide _ _).first))
  | replace promiseId expectedVersion newBundle newState =>
    exact Requires.second (Requires.second (Requires.second (requires_bundle hwide _).first))
  | commit promiseId expectedVersion => exact Requires.trivial _
  | release promiseId expectedVersion => exact Requires.trivial _
  | processExpirations => exact Requires.trivial _

/-- The lengths in a command that was encoded fit into their prefixes. -/
theorem encodeCommand_lengthsFit {c : Command} {bytes : List UInt8}
    (h : encodeCommand c = .ok bytes) : c.LengthsFit := by
  have hwide := wide_unlimited
  obtain ⟨hclient, hkey, hoperation⟩ := Requires.written (Requires.second
    ((requires_string hwide _ _).bind ((requires_string hwide _ _).bind
      (requires_operation c.operation)))) h
  exact ⟨hclient, hkey, hoperation⟩

/-- What writing a transition requires, one part for each field with a length. -/
theorem requires_transition (t : DurableTransition) :
    Requires (Writer.transition t) (∃ commandBytes, encodeCommand t.command = .ok commandBytes ∧
      CountFits Reader.transitionLimits commandBytes.length ∧
      StringFits Reader.transitionLimits t.clientId.value ∧
      StringFits Reader.transitionLimits t.idempotencyKey.value ∧
      ResponseFits Reader.transitionLimits t.response ∧
      CountFits Reader.transitionLimits t.resourcePools.length ∧
      (∀ pool ∈ t.resourcePools, pool.LengthsFit Reader.transitionLimits) ∧
      CountFits Reader.transitionLimits t.promises.length ∧
      (∀ p ∈ t.promises, p.LengthsFit Reader.transitionLimits) ∧
      CountFits Reader.transitionLimits t.events.length ∧
      ∀ e ∈ t.events, e.data.LengthsFit Reader.transitionLimits) := by
  have hwide := wide_transitionLimits
  apply Requires.second
  apply Requires.lift
  intro commandBytes
  apply (requires_bytes hwide _ _).bind
  apply (requires_string hwide _ _).bind
  apply (requires_string hwide _ _).bind
  apply Requires.second
  apply (requires_response hwide _).bind
  apply (requires_len hwide _ _).bind
  apply (Requires.forM (requires_resourcePool hwide) _).bind
  apply (requires_len hwide _ _).bind
  apply (Requires.forM (requires_promise hwide) _).bind
  apply (requires_len hwide _ _).bind
  exact (Requires.forM (requires_event hwide) _).first

/-- The lengths in a transition that was encoded fit into their prefixes, and so does the length of
its encoded command. -/
theorem encodeTransition_lengthsFit {t : DurableTransition} {bytes : List UInt8}
    (h : encodeTransition t = .ok bytes) :
    t.LengthsFit ∧ ∃ commandBytes, encodeCommand t.command = .ok commandBytes ∧
      CountFits Reader.transitionLimits commandBytes.length := by
  obtain ⟨commandBytes, hcommand, hlength, hclient, hkey, hresponse, hpools, heach, hpromises,
    hbundles, hevents, hpayloads⟩ := (requires_transition t).written h
  exact ⟨⟨encodeCommand_lengthsFit hcommand, hclient, hkey, hresponse, hpools, heach, hpromises,
    hbundles, hevents, hpayloads⟩, commandBytes, hcommand, hlength⟩

/-! ## Recorded items -/

/-- What recovery checks of an item: its events carry its timestamp, and what is encoded of it is
decoded again. -/
structure TimestampedTransition.Recordable (item : TimestampedTransition) : Prop where
  timestamps : ∀ event ∈ item.transition.events, event.timestamp = item.timestamp
  decodes : ∀ bytes, encodeTransition item.transition = .ok bytes →
    decodeTransition bytes = .ok item.transition

/-- The durable items of a group that was prepared on a sound state pass the checks of recovery. -/
theorem Engine.recordable_prepareBatch {blake3 : List UInt8 → CommandHash} {e : Engine}
    (h : e.state.Sound) {commands : List (Command × Timestamp)} {prepared : PreparedBatch}
    (hprepared : prepareBatch blake3 e commands = .ok prepared) :
    ∀ item ∈ prepared.durableItems, item.Recordable := by
  rw [(prepareBatch_eq_ok hprepared).2.1]
  intro item hitem
  obtain ⟨⟨s, command, now⟩, hentry, rfl⟩ := List.mem_map.mp hitem
  have hs : s.Sound := firstSeen_invariant (P := EngineState.Sound)
    (fun s command now hs => sound_executeOnce hs command now) h _ hentry
  refine ⟨fun event hevent => ((transitionOf_events e.state s command now).2 event hevent).1, ?_⟩
  intro bytes hbytes
  obtain ⟨hfits, commandBytes, hcommand, hlength⟩ := encodeTransition_lengthsFit hbytes
  obtain ⟨bytes', hwrites, hinverts⟩ := roundTrips_transition hfits
    (transitionOf_numbers e.state s command now hfits) (transitionOf_valid e.state hs command now)
    hcommand hlength
  obtain rfl := Except.ok.inj (hbytes.symm.trans hwrites.written)
  exact (complete_of_inverts hinverts).1

end PromiseDb
