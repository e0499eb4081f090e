import PromiseDb.Storage.TransitionCodec

/-!
# Accepted bytes are written bytes

Whatever the readers of events, promises and responses accept is exactly what the writers write
for the value that was read, whatever bounds the readers have.  The only reader for which this
fails is that of a capacity curve, which normalizes the segments that it has read: there the
bytes are those of the stored segments.
-/

namespace PromiseDb

open Codec

/-! ## Integers and identities -/

/-- A run of bytes is read only from the bytes that are written for it. -/
theorem canonical_take {n : Nat} : Canonical Writer.raw (Reader.take n) := by
  intro input bytes rest h
  obtain ⟨-, rfl⟩ := Reader.take_eq_ok.mp h
  exact .raw bytes rest

/-- A value that is made of a number of bytes, and whose bytes are those. -/
theorem canonical_map {α : Type} {n : Nat} {write : α → StorageWriter} {f : List UInt8 → α}
    (hf : ∀ bytes, bytes.length = n → write (f bytes) = Writer.raw bytes) :
    Canonical write (Reader.take n >>= fun bytes => pure (f bytes)) := by
  intro input a rest h
  obtain ⟨bytes, mid, htake, h⟩ := Reader.bind_eq_ok.mp h
  obtain ⟨rfl, rfl⟩ := Reader.pure_eq_ok.mp h
  obtain ⟨hlength, -⟩ := Reader.take_eq_ok.mp htake
  rw [hf bytes hlength]
  exact canonical_take htake

/-- A byte is read only from the bytes that are written for it. -/
theorem canonical_byte : Canonical Writer.byte Reader.byte := by
  apply canonical_map
  intro bytes hlength
  obtain ⟨byte, rfl⟩ := List.length_eq_one_iff.mp hlength
  rfl

/-- An unsigned integer of 32 bits is read only from the bytes that are written for it. -/
theorem canonical_u32 : Canonical Writer.u32 Reader.u32 := by
  apply canonical_map
  intro bytes hlength
  rw [Writer.u32, BoundedInt.toLeBytes_ofLeBytes U32.width hlength]

/-- An unsigned integer of 64 bits is read only from the bytes that are written for it. -/
theorem canonical_u64 : Canonical Writer.u64 Reader.u64 := by
  apply canonical_map
  intro bytes hlength
  rw [Writer.u64, BoundedInt.toLeBytes_ofLeBytes U64.width hlength]

/-- A signed integer is read only from the bytes that are written for it. -/
theorem canonical_i64 : Canonical Writer.i64 Reader.i64 := by
  apply canonical_map
  intro bytes hlength
  rw [Writer.i64, BoundedInt.toLeBytes_ofLeBytes I64.width hlength]

/-- A pool id is read only from the bytes that are written for it. -/
theorem canonical_poolId : Canonical Writer.poolId Reader.poolId := by
  apply canonical_map
  intro bytes hlength
  rw [Writer.poolId, BoundedInt.toBeBytes_ofBeBytes U128.width hlength]

/-- A promise id is read only from the bytes that are written for it. -/
theorem canonical_promiseId : Canonical Writer.promiseId Reader.promiseId := by
  apply canonical_map
  intro bytes hlength
  rw [Writer.promiseId, BoundedInt.toBeBytes_ofBeBytes U128.width hlength]

/-- A sequence number is read only from the bytes that are written for it. -/
theorem canonical_sequence :
    Canonical (fun value : SequenceNumber => Writer.u64 value.get) Reader.sequence := by
  intro input value rest h
  obtain ⟨number, mid, hnumber, h⟩ := Reader.bind_eq_ok.mp h
  obtain ⟨rfl, rfl⟩ := Reader.pure_eq_ok.mp h
  exact canonical_u64 hnumber

/-- A command hash is read only from the bytes that are written for it. -/
theorem canonical_commandHash :
    Canonical (fun value : CommandHash => Writer.raw value.bytes) Reader.commandHash := by
  apply canonical_map
  intro bytes hlength
  have htake : bytes.takeD 32 0 = bytes := by
    rw [List.takeD_eq_take _ hlength.ge, ← hlength, List.take_length]
  simp only [CommandHash.fromBytes, htake]

/-- A number of attempts takes all sixteen bytes. -/
theorem canonical_attempts : Canonical Writer.attempts Reader.attempts := by
  intro input value rest h
  obtain ⟨bytes, mid, htake, h⟩ := Reader.bind_eq_ok.mp h
  split at h
  · cases h
  · obtain ⟨rfl, rfl⟩ := Reader.pure_eq_ok.mp h
    obtain ⟨hlength, -⟩ := Reader.take_eq_ok.mp htake
    rw [Writer.attempts, Bytes.le_ofLe_of_length hlength]
    exact canonical_take htake

/-- A count of expirations is read only from the bytes that are written for it. -/
theorem canonical_expiredCount : Canonical Writer.expiredCount Reader.expiredCount := by
  intro input value rest h
  obtain ⟨number, mid, hnumber, h⟩ := Reader.bind_eq_ok.mp h
  obtain ⟨rfl, rfl⟩ := Reader.pure_eq_ok.mp h
  have hval : ((number.val.toNat : ℕ) : ℤ) = number.val := Int.toNat_of_nonneg number.property.1
  rw [Writer.expiredCount, hval, BoundedInt.ofInt?_val]
  exact canonical_u64 hnumber

/-! ## Domain values -/

/-- A domain value that is handed on takes nothing. -/
theorem domain_eq_ok {α : Type} {x : Except DomainError α} {a : α} {input rest : List UInt8}
    (h : Reader.domain x input = .ok (a, rest)) : x = .ok a ∧ input = rest := by
  obtain ⟨hx, rfl⟩ := Reader.lift_eq_ok.mp h
  cases x with
  | error e => cases hx
  | ok value => exact ⟨congrArg Except.ok (Except.ok.inj hx), rfl⟩

/-- A check of what was read passes on what is there and reads nothing. -/
theorem orCorrupt_eq_ok {α : Type} {x : Option α} {reason : String} {a : α}
    {input rest : List UInt8} (h : Reader.orCorrupt x reason input = .ok (a, rest)) :
    x = some a ∧ input = rest := by
  obtain ⟨hx, rfl⟩ := Reader.lift_eq_ok.mp h
  cases x with
  | none => cases hx
  | some value => exact ⟨congrArg some (Except.ok.inj hx), rfl⟩

/-- A version is read only from the bytes that are written for it. -/
theorem canonical_version :
    Canonical (fun value : Version => Writer.u64 value.get) Reader.version := by
  intro input value rest h
  obtain ⟨number, mid, hnumber, h⟩ := Reader.bind_eq_ok.mp h
  obtain ⟨hnew, rfl⟩ := orCorrupt_eq_ok h
  unfold Version.new at hnew
  split at hnew
  · cases hnew
  · cases hnew
    exact canonical_u64 hnumber

/-- An interval is read only from the bytes that are written for it. -/
theorem canonical_interval : Canonical Writer.interval Reader.interval := by
  intro input value rest h
  obtain ⟨start, mid, hstart, h⟩ := Reader.bind_eq_ok.mp h
  obtain ⟨stop, mid', hstop, h⟩ := Reader.bind_eq_ok.mp h
  obtain ⟨hnew, rfl⟩ := domain_eq_ok h
  obtain ⟨rfl, rfl⟩ := Interval.new_eq_ok.mp hnew
  exact (canonical_i64 hstart).bind (canonical_i64 hstop)

/-- A capacity segment is read only from the bytes that are written for it. -/
theorem canonical_segment : Canonical Writer.segment Reader.segment := by
  intro input value rest h
  obtain ⟨interval, mid, hinterval, h⟩ := Reader.bind_eq_ok.mp h
  obtain ⟨capacity, mid', hcapacity, h⟩ := Reader.bind_eq_ok.mp h
  obtain ⟨rfl, rfl⟩ := Reader.pure_eq_ok.mp h
  exact (canonical_interval hinterval).bind (canonical_u64 hcapacity)

/-- A claim is read only from the bytes that are written for it. -/
theorem canonical_claim : Canonical Writer.claim Reader.claim := by
  intro input value rest h
  obtain ⟨poolId, mid, hpool, h⟩ := Reader.bind_eq_ok.mp h
  obtain ⟨interval, mid', hinterval, h⟩ := Reader.bind_eq_ok.mp h
  obtain ⟨quantity, mid'', hquantity, h⟩ := Reader.bind_eq_ok.mp h
  obtain ⟨hnew, rfl⟩ := domain_eq_ok h
  obtain ⟨rfl, rfl, rfl⟩ := Claim.new_eq_ok.mp hnew
  exact (canonical_poolId hpool).bind ((canonical_interval hinterval).bind (canonical_u64 hquantity))

/-- A promise state is read only from the bytes that are written for it. -/
theorem canonical_promiseState : Canonical Writer.promiseState Reader.promiseState := by
  intro input value rest h
  obtain ⟨tag, mid, htag, h⟩ := Reader.bind_eq_ok.mp h
  have hbyte := canonical_byte htag
  split at h
  · obtain ⟨expiresAt, mid', hexpires, h⟩ := Reader.bind_eq_ok.mp h
    obtain ⟨rfl, rfl⟩ := Reader.pure_eq_ok.mp h
    exact hbyte.bind (canonical_i64 hexpires)
  · obtain ⟨rfl, rfl⟩ := Reader.pure_eq_ok.mp h
    exact hbyte
  · obtain ⟨rfl, rfl⟩ := Reader.pure_eq_ok.mp h
    exact hbyte
  · obtain ⟨rfl, rfl⟩ := Reader.pure_eq_ok.mp h
    exact hbyte
  · cases h

/-- Every tag of a domain error is that of one error. -/
theorem canonical_domainError : Canonical Writer.domainError Reader.domainError := by
  intro input value rest h
  obtain ⟨tag, mid, htag, h⟩ := Reader.bind_eq_ok.mp h
  have hbyte := canonical_byte htag
  split at h
  all_goals
    first
    | obtain ⟨rfl, rfl⟩ := Reader.pure_eq_ok.mp h
      exact hbyte
    | cases h

/-- Every tag of an event kind is that of one kind. -/
theorem canonical_eventKind :
    Canonical (fun kind => Writer.byte (Writer.eventKindTag kind)) Reader.eventKind := by
  intro input value rest h
  obtain ⟨tag, mid, htag, h⟩ := Reader.bind_eq_ok.mp h
  have hbyte := canonical_byte htag
  split at h
  all_goals
    first
    | obtain ⟨rfl, rfl⟩ := Reader.pure_eq_ok.mp h
      exact hbyte
    | cases h

section Limits

variable {limits : ReaderLimits}

/-! ## Lengths and strings -/

/-- A length prefix is within the bound of the reader. -/
theorem count_eq_ok {field : String} {length : Nat} {input rest : List UInt8}
    (h : Reader.count limits field input = .ok (length, rest)) :
    Spells (Writer.len field length) input rest ∧
      withinLimit limits.maxCollectionItems length = true := by
  obtain ⟨number, mid, hnumber, h⟩ := Reader.bind_eq_ok.mp h
  split at h
  · rename_i hlimit
    obtain ⟨rfl, rfl⟩ := Reader.pure_eq_ok.mp h
    have hval : ((number.val.toNat : ℕ) : ℤ) = number.val := Int.toNat_of_nonneg number.property.1
    refine ⟨?_, hlimit⟩
    rw [Writer.len, hval, BoundedInt.ofInt?_val]
    exact canonical_u32 hnumber
  · cases h

/-- A length prefix has four bytes. -/
theorem count_lt {field : String} {length : Nat} {input rest : List UInt8}
    (h : Reader.count limits field input = .ok (length, rest)) : length < 2 ^ 32 := by
  obtain ⟨number, mid, -, h⟩ := Reader.bind_eq_ok.mp h
  split at h
  · obtain ⟨rfl, rfl⟩ := Reader.pure_eq_ok.mp h
    have hrange := number.property
    omega
  · cases h

/-- A count is read only from the bytes that are written for it. -/
theorem canonical_count (field : String) :
    Canonical (Writer.len field) (Reader.count limits field) := fun _ _ _ h => (count_eq_ok h).1

/-- The bytes that spell a string are those of the string. -/
theorem utf8_of_fromUTF8? {bytes : List UInt8} {s : String}
    (h : String.fromUTF8? ⟨bytes.toArray⟩ = some s) : utf8 s = bytes := by
  unfold String.fromUTF8? at h
  split at h
  · cases h
    rfl
  · cases h

/-- A string is within the bounds of the reader. -/
theorem string_eq_ok {field s : String} {input rest : List UInt8}
    (h : Reader.string limits field input = .ok (s, rest)) :
    Spells (Writer.string field s) input rest ∧
      withinLimit limits.maxStringBytes (utf8 s).length = true := by
  obtain ⟨length, mid, hcount, h⟩ := Reader.bind_eq_ok.mp h
  split at h
  · rename_i hlimit
    obtain ⟨bytes, mid', htake, h⟩ := Reader.bind_eq_ok.mp h
    obtain ⟨hvalue, rfl⟩ := Reader.lift_eq_ok.mp h
    obtain ⟨rfl, rfl⟩ := Reader.take_eq_ok.mp htake
    obtain rfl := utf8_of_fromUTF8? (Except.elim_eq_ok.mp hvalue)
    exact ⟨(canonical_count field hcount).bind (.raw _ _), hlimit⟩
  · cases h

/-- A string is read only from the bytes that are written for it. -/
theorem canonical_string (field : String) :
    Canonical (Writer.string field) (Reader.string limits field) := fun _ _ _ h => (string_eq_ok h).1

/-- A list behind its length. -/
theorem canonical_list {α : Type} {field : String} {write : α → StorageWriter}
    {read : StorageReader α} (h : Canonical write read) {input mid rest : List UInt8}
    {count : Nat} {l : List α} (hcount : Reader.count limits field input = .ok (count, mid))
    (hread : read.times count mid = .ok (l, rest)) :
    Spells (do Writer.len field l.length; l.forM write) input rest := by
  obtain ⟨rfl, hspells⟩ := h.times hread
  exact (canonical_count field hcount).bind hspells

/-- A bundle is read only from the bytes that are written for it. -/
theorem canonical_bundle : Canonical Writer.bundle (Reader.bundle limits) := by
  intro input value rest h
  obtain ⟨count, mid, hcount, h⟩ := Reader.bind_eq_ok.mp h
  obtain ⟨claims, mid', hclaims, h⟩ := Reader.bind_eq_ok.mp h
  obtain ⟨hnew, rfl⟩ := domain_eq_ok h
  obtain rfl := Bundle.new_eq_ok.mp hnew
  exact canonical_list canonical_claim hcount hclaims

/-- A unit whose name is within the bounds of the reader. -/
theorem unit_eq_ok {value : ResourceUnit} {input rest : List UInt8}
    (h : Reader.unit limits input = .ok (value, rest)) :
    Spells (Writer.unit value) input rest ∧
      withinLimit limits.maxStringBytes (utf8 value.name).length = true := by
  obtain ⟨name, mid, hname, h⟩ := Reader.bind_eq_ok.mp h
  obtain ⟨scale, mid', hscale, h⟩ := Reader.bind_eq_ok.mp h
  obtain ⟨hnew, rfl⟩ := domain_eq_ok h
  obtain ⟨rfl, rfl⟩ := ResourceUnit.new_eq_ok.mp hnew
  obtain ⟨hspells, hlimit⟩ := string_eq_ok hname
  exact ⟨hspells.bind (canonical_u64 hscale), hlimit⟩

/-! ## Promises and events -/

/-- A promise is read only from the bytes that are written for it. -/
theorem canonical_promise : Canonical Writer.promise (Reader.promise limits) := by
  intro input value rest h
  obtain ⟨id, r₁, hid, h⟩ := Reader.bind_eq_ok.mp h
  obtain ⟨state, r₂, hstate, h⟩ := Reader.bind_eq_ok.mp h
  obtain ⟨bundle, r₃, hbundle, h⟩ := Reader.bind_eq_ok.mp h
  obtain ⟨version, r₄, hversion, h⟩ := Reader.bind_eq_ok.mp h
  obtain ⟨created, r₅, hcreated, h⟩ := Reader.bind_eq_ok.mp h
  obtain ⟨updated, r₆, hupdated, h⟩ := Reader.bind_eq_ok.mp h
  obtain ⟨hrestore, rfl⟩ := domain_eq_ok h
  unfold Promise.restore at hrestore
  split at hrestore
  · cases hrestore
  · cases hrestore
    apply (canonical_promiseId hid).bind
    apply (canonical_promiseState hstate).bind
    apply (canonical_bundle hbundle).bind
    apply (canonical_version hversion).bind
    exact (canonical_sequence hcreated).bind (canonical_sequence hupdated)

/-- A list of promise ids is read only from the bytes that are written for it. -/
theorem canonical_ids (field : String) : Canonical (Writer.ids field) (Reader.ids limits field) := by
  intro input value rest h
  obtain ⟨count, mid, hcount, h⟩ := Reader.bind_eq_ok.mp h
  obtain ⟨rfl, hspells⟩ := canonical_promiseId.timesInOrder h
  exact (canonical_count field hcount).bind hspells

/-- The data of an event is read only from the bytes that are written for it. -/
theorem canonical_eventData : Canonical Writer.eventData (Reader.eventData limits) := by
  intro input value rest h
  obtain ⟨tag, mid, htag, h⟩ := Reader.bind_eq_ok.mp h
  have hbyte := canonical_byte htag
  split at h
  · obtain ⟨id, r₁, hid, h⟩ := Reader.bind_eq_ok.mp h
    obtain ⟨rfl, rfl⟩ := Reader.pure_eq_ok.mp h
    exact hbyte.bind (canonical_poolId hid)
  · obtain ⟨id, r₁, hid, h⟩ := Reader.bind_eq_ok.mp h
    obtain ⟨version, r₂, hversion, h⟩ := Reader.bind_eq_ok.mp h
    obtain ⟨rfl, rfl⟩ := Reader.pure_eq_ok.mp h
    exact hbyte.bind ((canonical_promiseId hid).bind (canonical_version hversion))
  · obtain ⟨id, r₁, hid, h⟩ := Reader.bind_eq_ok.mp h
    obtain ⟨interval, r₂, hinterval, h⟩ := Reader.bind_eq_ok.mp h
    obtain ⟨quantity, r₃, hquantity, h⟩ := Reader.bind_eq_ok.mp h
    obtain ⟨ids, r₄, hids, h⟩ := Reader.bind_eq_ok.mp h
    obtain ⟨rfl, rfl⟩ := Reader.pure_eq_ok.mp h
    apply hbyte.bind
    apply (canonical_poolId hid).bind
    apply (canonical_interval hinterval).bind
    exact (canonical_u64 hquantity).bind (canonical_ids _ hids)
  · cases h

/-- An event is read only from the bytes that are written for it. -/
theorem canonical_event : Canonical Writer.event (Reader.event limits) := by
  intro input value rest h
  obtain ⟨sequence, r₁, hsequence, h⟩ := Reader.bind_eq_ok.mp h
  obtain ⟨timestamp, r₂, htimestamp, h⟩ := Reader.bind_eq_ok.mp h
  obtain ⟨kind, r₃, hkind, h⟩ := Reader.bind_eq_ok.mp h
  obtain ⟨data, r₄, hdata, h⟩ := Reader.bind_eq_ok.mp h
  obtain ⟨hrestore, rfl⟩ := orCorrupt_eq_ok h
  unfold Event.restore at hrestore
  split at hrestore
  · cases hrestore
    apply (canonical_sequence hsequence).bind
    apply (canonical_i64 htimestamp).bind
    exact (canonical_eventKind hkind).bind (canonical_eventData hdata)
  · cases hrestore

/-! ## Responses -/

/-- A conflict is read only from the bytes that are written for it. -/
theorem canonical_conflict : Canonical Writer.conflict (Reader.conflict limits) := by
  intro input value rest h
  obtain ⟨id, r₁, hid, h⟩ := Reader.bind_eq_ok.mp h
  obtain ⟨interval, r₂, hinterval, h⟩ := Reader.bind_eq_ok.mp h
  obtain ⟨required, r₃, hrequired, h⟩ := Reader.bind_eq_ok.mp h
  obtain ⟨available, r₄, havailable, h⟩ := Reader.bind_eq_ok.mp h
  obtain ⟨deficit, r₅, hdeficit, h⟩ := Reader.bind_eq_ok.mp h
  obtain ⟨ids, r₆, hids, h⟩ := Reader.bind_eq_ok.mp h
  obtain ⟨hrestore, rfl⟩ := orCorrupt_eq_ok h
  unfold AvailabilityConflict.restore at hrestore
  split at hrestore
  · cases hrestore
    apply (canonical_poolId hid).bind
    apply (canonical_interval hinterval).bind
    apply (canonical_u64 hrequired).bind
    apply (canonical_u64 havailable).bind
    exact (canonical_u64 hdeficit).bind (canonical_ids _ hids)
  · cases hrestore

/-- A list of conflicts is read only from the bytes that are written for it. -/
theorem canonical_conflicts : Canonical Writer.conflicts (Reader.conflicts limits) := by
  intro input value rest h
  obtain ⟨count, mid, hcount, h⟩ := Reader.bind_eq_ok.mp h
  split at h
  · cases h
  · exact canonical_list canonical_conflict hcount h

/-- A deficit is read only from the bytes that are written for it. -/
theorem canonical_deficit : Canonical Writer.deficit (Reader.deficit limits) := by
  intro input value rest h
  obtain ⟨id, r₁, hid, h⟩ := Reader.bind_eq_ok.mp h
  obtain ⟨interval, r₂, hinterval, h⟩ := Reader.bind_eq_ok.mp h
  obtain ⟨quantity, r₃, hquantity, h⟩ := Reader.bind_eq_ok.mp h
  obtain ⟨ids, r₄, hids, h⟩ := Reader.bind_eq_ok.mp h
  obtain ⟨hrestore, rfl⟩ := orCorrupt_eq_ok h
  unfold CapacityDeficit.restore at hrestore
  split at hrestore
  · cases hrestore
    apply (canonical_poolId hid).bind
    apply (canonical_interval hinterval).bind
    exact (canonical_u64 hquantity).bind (canonical_ids _ hids)
  · cases hrestore

/-- The outcome of a revision is read only from the bytes that are written for it. -/
theorem canonical_capacityOutcome :
    Canonical Writer.capacityOutcome (Reader.capacityOutcome limits) := by
  intro input value rest h
  obtain ⟨sequence, r₁, hsequence, h⟩ := Reader.bind_eq_ok.mp h
  obtain ⟨count, r₂, hcount, h⟩ := Reader.bind_eq_ok.mp h
  obtain ⟨deficits, r₃, hdeficits, h⟩ := Reader.bind_eq_ok.mp h
  obtain ⟨ids, r₄, hids, h⟩ := Reader.bind_eq_ok.mp h
  obtain ⟨hrestore, rfl⟩ := orCorrupt_eq_ok h
  unfold CapacityRevisionOutcome.restore at hrestore
  split at hrestore
  · cases hrestore
    obtain ⟨rfl, hlist⟩ := canonical_deficit.times hdeficits
    apply (canonical_sequence hsequence).bind
    apply (canonical_count _ hcount).bind
    exact hlist.bind (canonical_ids _ hids)
  · cases hrestore

/-- A conflict of a choice is read only from the bytes that are written for it. -/
theorem canonical_choiceConflict (position : Nat) :
    Canonical Writer.choiceConflict (Reader.choiceConflict limits position) := by
  intro input value rest h
  obtain ⟨index, r₁, hindex, h⟩ := Reader.bind_eq_ok.mp h
  split at h
  · cases h
  · obtain ⟨conflicts, r₂, hconflicts, h⟩ := Reader.bind_eq_ok.mp h
    obtain ⟨hrestore, rfl⟩ := orCorrupt_eq_ok h
    unfold ChoiceConflict.restore at hrestore
    split at hrestore
    · cases hrestore
      exact (canonical_count _ hindex).bind (canonical_conflicts hconflicts)
    · cases hrestore

/-- The tag of a hold outcome and the outcome. -/
theorem canonical_holdOutcome {value : HoldOutcome} {input mid rest : List UInt8}
    (hbyte : Spells (Writer.byte 3) input mid)
    (h : Reader.holdOutcome limits mid = .ok (value, rest)) :
    Spells (Writer.result (.holdCompleted value)) input rest := by
  obtain ⟨tag, r₁, htag, h⟩ := Reader.bind_eq_ok.mp h
  have hinner := canonical_byte htag
  split at h
  · obtain ⟨id, r₂, hid, h⟩ := Reader.bind_eq_ok.mp h
    obtain ⟨rfl, rfl⟩ := Reader.pure_eq_ok.mp h
    exact hbyte.bind (hinner.bind (canonical_promiseId hid))
  · obtain ⟨conflicts, r₂, hconflicts, h⟩ := Reader.bind_eq_ok.mp h
    obtain ⟨rfl, rfl⟩ := Reader.pure_eq_ok.mp h
    exact hbyte.bind (hinner.bind (canonical_conflicts hconflicts))
  · cases h

/-- The tag of a choice outcome and the outcome. -/
theorem canonical_choiceOutcome {value : ChoiceOutcome} {input mid rest : List UInt8}
    (hbyte : Spells (Writer.byte 4) input mid)
    (h : Reader.choiceOutcome limits mid = .ok (value, rest)) :
    Spells (Writer.result (.choiceCompleted value)) input rest := by
  obtain ⟨tag, r₁, htag, h⟩ := Reader.bind_eq_ok.mp h
  have hinner := canonical_byte htag
  split at h
  · obtain ⟨id, r₂, hid, h⟩ := Reader.bind_eq_ok.mp h
    obtain ⟨index, r₃, hindex, h⟩ := Reader.bind_eq_ok.mp h
    obtain ⟨rfl, rfl⟩ := Reader.pure_eq_ok.mp h
    exact hbyte.bind (hinner.bind ((canonical_promiseId hid).bind (canonical_count _ hindex)))
  · obtain ⟨count, r₂, hcount, h⟩ := Reader.bind_eq_ok.mp h
    split at h
    · cases h
    · obtain ⟨values, r₃, hvalues, h⟩ := Reader.bind_eq_ok.mp h
      obtain ⟨rfl, rfl⟩ := Reader.pure_eq_ok.mp h
      obtain ⟨rfl, hlist⟩ := Canonical.timesFrom canonical_choiceConflict hvalues
      exact hbyte.bind (hinner.bind ((canonical_count _ hcount).bind hlist))
  · cases h

/-- The tag of a slot outcome and the outcome. -/
theorem canonical_slotOutcome {value : SlotOutcome} {input mid rest : List UInt8}
    (hbyte : Spells (Writer.byte 5) input mid) (h : Reader.slotOutcome mid = .ok (value, rest)) :
    Spells (Writer.result (.slotCompleted value)) input rest := by
  obtain ⟨tag, r₁, htag, h⟩ := Reader.bind_eq_ok.mp h
  have hinner := canonical_byte htag
  split at h
  · obtain ⟨id, r₂, hid, h⟩ := Reader.bind_eq_ok.mp h
    obtain ⟨start, r₃, hstart, h⟩ := Reader.bind_eq_ok.mp h
    obtain ⟨rfl, rfl⟩ := Reader.pure_eq_ok.mp h
    exact hbyte.bind (hinner.bind ((canonical_promiseId hid).bind (canonical_i64 hstart)))
  · obtain ⟨attempts, r₂, hattempts, h⟩ := Reader.bind_eq_ok.mp h
    obtain ⟨rfl, rfl⟩ := Reader.pure_eq_ok.mp h
    exact hbyte.bind (hinner.bind (canonical_attempts hattempts))
  · cases h

/-- The tag of a replace outcome and the outcome. -/
theorem canonical_replaceOutcome {value : ReplaceOutcome} {input mid rest : List UInt8}
    (hbyte : Spells (Writer.byte 8) input mid)
    (h : Reader.replaceOutcome limits mid = .ok (value, rest)) :
    Spells (Writer.result (.promiseReplaced value)) input rest := by
  obtain ⟨tag, r₁, htag, h⟩ := Reader.bind_eq_ok.mp h
  have hinner := canonical_byte htag
  split at h
  · obtain ⟨id, r₂, hid, h⟩ := Reader.bind_eq_ok.mp h
    obtain ⟨version, r₃, hversion, h⟩ := Reader.bind_eq_ok.mp h
    obtain ⟨rfl, rfl⟩ := Reader.pure_eq_ok.mp h
    exact hbyte.bind (hinner.bind ((canonical_promiseId hid).bind (canonical_version hversion)))
  · obtain ⟨conflicts, r₂, hconflicts, h⟩ := Reader.bind_eq_ok.mp h
    obtain ⟨rfl, rfl⟩ := Reader.pure_eq_ok.mp h
    exact hbyte.bind (hinner.bind (canonical_conflicts hconflicts))
  · cases h

/-- A result is read only from the bytes that are written for it. -/
theorem canonical_result : Canonical Writer.result (Reader.result limits) := by
  intro input value rest h
  obtain ⟨tag, mid, htag, h⟩ := Reader.bind_eq_ok.mp h
  have hbyte := canonical_byte htag
  split at h
  · obtain ⟨id, r₁, hid, h⟩ := Reader.bind_eq_ok.mp h
    obtain ⟨rfl, rfl⟩ := Reader.pure_eq_ok.mp h
    exact hbyte.bind (canonical_poolId hid)
  · obtain ⟨outcome, r₁, houtcome, h⟩ := Reader.bind_eq_ok.mp h
    obtain ⟨rfl, rfl⟩ := Reader.pure_eq_ok.mp h
    exact hbyte.bind (canonical_capacityOutcome houtcome)
  · obtain ⟨outcome, r₁, houtcome, h⟩ := Reader.bind_eq_ok.mp h
    obtain ⟨rfl, rfl⟩ := Reader.pure_eq_ok.mp h
    exact canonical_holdOutcome hbyte houtcome
  · obtain ⟨outcome, r₁, houtcome, h⟩ := Reader.bind_eq_ok.mp h
    obtain ⟨rfl, rfl⟩ := Reader.pure_eq_ok.mp h
    exact canonical_choiceOutcome hbyte houtcome
  · obtain ⟨outcome, r₁, houtcome, h⟩ := Reader.bind_eq_ok.mp h
    obtain ⟨rfl, rfl⟩ := Reader.pure_eq_ok.mp h
    exact canonical_slotOutcome hbyte houtcome
  · obtain ⟨id, r₁, hid, h⟩ := Reader.bind_eq_ok.mp h
    obtain ⟨version, r₂, hversion, h⟩ := Reader.bind_eq_ok.mp h
    obtain ⟨rfl, rfl⟩ := Reader.pure_eq_ok.mp h
    exact hbyte.bind ((canonical_promiseId hid).bind (canonical_version hversion))
  · obtain ⟨id, r₁, hid, h⟩ := Reader.bind_eq_ok.mp h
    obtain ⟨version, r₂, hversion, h⟩ := Reader.bind_eq_ok.mp h
    obtain ⟨rfl, rfl⟩ := Reader.pure_eq_ok.mp h
    exact hbyte.bind ((canonical_promiseId hid).bind (canonical_version hversion))
  · obtain ⟨outcome, r₁, houtcome, h⟩ := Reader.bind_eq_ok.mp h
    obtain ⟨rfl, rfl⟩ := Reader.pure_eq_ok.mp h
    exact canonical_replaceOutcome hbyte houtcome
  · obtain ⟨count, r₁, hcount, h⟩ := Reader.bind_eq_ok.mp h
    obtain ⟨rfl, rfl⟩ := Reader.pure_eq_ok.mp h
    exact hbyte.bind (canonical_expiredCount hcount)
  · cases h

/-- A response is read only from the bytes that are written for it. -/
theorem canonical_response : Canonical Writer.response (Reader.response limits) := by
  intro input value rest h
  obtain ⟨tag, mid, htag, h⟩ := Reader.bind_eq_ok.mp h
  have hbyte := canonical_byte htag
  split at h
  · obtain ⟨result, r₁, hresult, h⟩ := Reader.bind_eq_ok.mp h
    obtain ⟨rfl, rfl⟩ := Reader.pure_eq_ok.mp h
    exact hbyte.bind (canonical_result hresult)
  · obtain ⟨error, r₁, herror, h⟩ := Reader.bind_eq_ok.mp h
    obtain ⟨rfl, rfl⟩ := Reader.pure_eq_ok.mp h
    exact hbyte.bind (canonical_domainError herror)
  · cases h

end Limits

end PromiseDb
