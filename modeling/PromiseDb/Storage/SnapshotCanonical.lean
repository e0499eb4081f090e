import PromiseDb.Engine.Restore
import PromiseDb.Storage.CanonicalReaders
import PromiseDb.Storage.RecordStream
import PromiseDb.Storage.Snapshot

/-!
# Canonical snapshot files

A snapshot file that is accepted determines everything in it: the header fields, the digest and
the payload, with two exceptions.  The segments of a capacity curve are normalized when they are
read, so that a file may store a curve in a form that is never written; and the collections in an
entry are only bounded by the larger one of two limits, so that a file may be accepted although
it would be refused when it is written.  Encoding the accepted state gives the file back exactly
if neither is the case.
-/

namespace PromiseDb

open Snapshot Codec

/-! ## Stored pools -/

/-- A pool as it is stored, with its segments as they are. -/
structure StoredPool where
  id : ResourcePoolId
  displayName : String
  unit : ResourceUnit
  segments : List CapacitySegment

namespace SnapshotReader

section Limits

variable (limits : SnapshotLimits)

/-- Reads the segments of a curve. -/
def segments : StorageReader (List CapacitySegment) := do
  let count ← Reader.count limits.reader "capacity segments"
  Codec.Reader.times Reader.segment count

/-- Reads a pool without normalizing its curve. -/
def storedPool : StorageReader StoredPool := do
  let id ← Reader.poolId
  let displayName ← Reader.string limits.reader "display name"
  let unit ← Reader.unit limits.reader
  let segments ← segments limits
  pure ⟨id, displayName, unit, segments⟩

/-- The entries of a payload that hold collections of their own. -/
structure StoredItems where
  resourcePools : List StoredPool
  promises : List Promise
  events : List Event

/-- Reads these entries. -/
def storedItems : SnapshotReader StoredItems := do
  let resourcePools ← collection limits "resource pools" (storedPool limits)
  let promises ← collection limits "promises" (Reader.promise limits.reader)
  let events ← collection limits "events" (Reader.event limits.reader)
  pure ⟨resourcePools, promises, events⟩

end Limits

end SnapshotReader

/-- The payload of a snapshot file. -/
def Snapshot.payloadOf (bytes : List UInt8) : List UInt8 :=
  Bytes.slice bytes headerLen (bytes.length - checksumLen)

/-- The curves of a file are stored in normal form, and the collections in its entries are within
their limit. -/
def StoredCanonically (limits : SnapshotLimits) (bytes : List UInt8) : Prop :=
  ∀ items rest, SnapshotReader.storedItems limits (payloadOf bytes) = .ok (items, rest) →
    (∀ pool ∈ items.resourcePools, pool.segments.IsChain CapacitySegment.Separated ∧
      pool.segments.length ≤ limits.nested) ∧
    (∀ p ∈ items.promises, p.bundle.claims.length ≤ limits.nested) ∧
    ∀ e ∈ items.events, affectedCount e.data ≤ limits.nested

/-! ## Reading collections -/

namespace SnapshotReader

variable {α β : Type}

/-- Mapping the errors of a reader leaves what it reads as it was. -/
theorem mapCodec_eq_ok {r : StorageReader α} {input rest : List UInt8} {a : α} :
    mapCodec r input = .ok (a, rest) ↔ r input = .ok (a, rest) := by
  unfold mapCodec
  cases r input with
  | error e => simp [Except.mapError]
  | ok result => simp [Except.mapError]

/-- Mapping the errors of a repeated reader leaves what it reads as it was. -/
theorem times_mapCodec_eq_ok {r : StorageReader α} {n : Nat} {input rest : List UInt8}
    {l : List α} :
    Codec.Reader.times (mapCodec r) n input = .ok (l, rest) ↔ r.times n input = .ok (l, rest) := by
  induction n generalizing input l rest with
  | zero => simp only [Codec.Reader.times, Reader.pure_eq_ok]
  | succ n ih => simp only [Codec.Reader.times, Reader.bind_eq_ok, mapCodec_eq_ok, ih, Reader.pure_eq_ok]

variable {limits : SnapshotLimits}

/-- A collection is read as a bounded number of elements. -/
theorem collection_eq_ok {field : String} {r : StorageReader α} {input rest : List UInt8}
    {l : List α} : collection limits field r input = .ok (l, rest) ↔
      ∃ count mid, PromiseDb.Reader.count limits.reader field input = .ok (count, mid) ∧
        count ≤ limits.collections ∧ r.times count mid = .ok (l, rest) := by
  unfold collection topCount
  simp only [Reader.bind_eq_ok, mapCodec_eq_ok, times_mapCodec_eq_ok]
  constructor
  · rintro ⟨count, mid, ⟨value, mid', hvalue, hcheck⟩, hread⟩
    split at hcheck
    · rename_i hle
      obtain ⟨rfl, rfl⟩ := Reader.pure_eq_ok.mp hcheck
      exact ⟨value, mid', hvalue, hle, hread⟩
    · cases hcheck
  · rintro ⟨count, mid, hcount, hle, hread⟩
    refine ⟨count, mid, ⟨count, mid, hcount, ?_⟩, hread⟩
    rw [if_pos hle]
    rfl

/-- A collection whose elements are read canonically. -/
theorem canonical_collection {field : String} {write : α → StorageWriter} {r : StorageReader α}
    (h : Canonical write r) {input rest : List UInt8} {l : List α}
    (hread : collection limits field r input = .ok (l, rest)) :
    l.length ≤ limits.collections ∧
      Spells (do Writer.len field l.length; l.forM write) input rest := by
  obtain ⟨count, mid, hcount, hle, hread⟩ := collection_eq_ok.mp hread
  obtain ⟨rfl, -⟩ := h.times hread
  exact ⟨hle, canonical_list h hcount hread⟩

/-- Every element of a collection has what its reader gives it. -/
theorem yields_collection {field : String} {r : StorageReader α} {P : α → Prop} (h : Yields r P) :
    Yields (collection limits field r) fun l => ∀ a ∈ l, P a := by
  intro input l rest hread
  obtain ⟨count, mid, -, -, hread⟩ := collection_eq_ok.mp hread
  exact h.times count hread

/-- A recorded command is read only from the bytes that are written for it. -/
theorem canonical_idempotencyRecord :
    Canonical Writer.idempotencyRecord (idempotencyRecord limits) := by
  intro input value rest h
  obtain ⟨client, r₁, hclient, h⟩ := Reader.bind_eq_ok.mp h
  obtain ⟨key, r₂, hkey, h⟩ := Reader.bind_eq_ok.mp h
  obtain ⟨hash, r₃, hhash, h⟩ := Reader.bind_eq_ok.mp h
  obtain ⟨response, r₄, hresponse, h⟩ := Reader.bind_eq_ok.mp h
  obtain ⟨rfl, rfl⟩ := Reader.pure_eq_ok.mp h
  apply (canonical_string _ hclient).bind
  apply (canonical_string _ hkey).bind
  exact (canonical_commandHash hhash).bind (canonical_response hresponse)

/-- The strings of a record that was read are within their limit. -/
theorem yields_idempotencyRecord :
    Yields (idempotencyRecord limits) fun record => checkRecord limits record = .ok () := by
  intro input value rest h
  obtain ⟨client, r₁, hclient, h⟩ := Reader.bind_eq_ok.mp h
  obtain ⟨key, r₂, hkey, h⟩ := Reader.bind_eq_ok.mp h
  obtain ⟨hash, r₃, hhash, h⟩ := Reader.bind_eq_ok.mp h
  obtain ⟨response, r₄, hresponse, h⟩ := Reader.bind_eq_ok.mp h
  obtain ⟨rfl, rfl⟩ := Reader.pure_eq_ok.mp h
  have hclientFits := of_decide_eq_true (string_eq_ok hclient).2
  have hkeyFits := of_decide_eq_true (string_eq_ok hkey).2
  exact Except.bind_eq_ok.mpr ⟨⟨⟩, Except.ensure_eq_ok.mpr hclientFits,
    Except.ensure_eq_ok.mpr hkeyFits⟩

/-! ## Reading pools -/

/-- A pool that was read: as it is stored, and its bytes when it is written again.  They are never
longer than the stored bytes, and they are the stored bytes exactly if the curve is stored in
normal form. -/
structure Renews (stored : StoredPool) (pool : ResourcePool) (bytes written : List UInt8) :
    Prop where
  writes : Writes (Writer.resourcePool pool) written
  normalized : CapacityCurve.fromSorted stored.segments = .ok pool.capacityCurve
  shorter : written.length ≤ bytes.length
  normal : written.length = bytes.length → stored.segments.IsChain CapacitySegment.Separated
  same : stored.segments.IsChain CapacitySegment.Separated → written = bytes

/-- The bytes of a list of segments. -/
theorem writes_segments (l : List CapacitySegment) :
    ∃ bytes, bytes.length = 24 * l.length ∧ Writes (l.forM Writer.segment) bytes := by
  induction l with
  | nil => exact ⟨[], rfl, Writes.pure⟩
  | cons s l ih =>
    obtain ⟨back, hlength, hback⟩ := ih
    have hfront : Writes (Writer.segment s) (s.interval.start.toLeBytes 8 ++
        s.interval.stop.toLeBytes 8 ++ s.capacity.toLeBytes 8) :=
      ((Writes.raw _).bind (Writes.raw _)).bind (Writes.raw _)
    refine ⟨_, ?_, hfront.bind hback⟩
    simp only [List.length_append, BoundedInt.length_toLeBytes, hlength, List.length_cons]
    omega

/-- The bytes of a curve with a representable number of segments. -/
theorem writes_curve {l : List CapacitySegment} (h : l.length < 2 ^ 32) :
    ∃ bytes, bytes.length = 4 + 24 * l.length ∧
      Writes (do Writer.len "capacity segments" l.length; l.forM Writer.segment) bytes := by
  have hrange : (0 : ℤ) ≤ l.length ∧ (l.length : ℤ) ≤ 4294967295 := by omega
  have hlen : Writes (Writer.len "capacity segments" l.length)
      (BoundedInt.toLeBytes 4 ⟨_, hrange⟩) := by
    rw [Writer.len, BoundedInt.ofInt?_of_mem hrange]
    exact Writes.raw _
  obtain ⟨bytes, hlength, hbytes⟩ := writes_segments l
  refine ⟨_, ?_, hlen.bind hbytes⟩
  rw [List.length_append, BoundedInt.length_toLeBytes, hlength]

/-- A pool is read as it is stored, and then its curve is normalized. -/
theorem resourcePool_eq_ok {pool : ResourcePool} {input rest : List UInt8}
    (h : PromiseDb.Reader.resourcePool limits.reader input = .ok (pool, rest)) :
    checkString "display name" pool.displayName limits.strings = .ok () ∧
      checkString "unit name" pool.unit.name limits.strings = .ok () ∧
      ∃ stored bytes written, storedPool limits input = .ok (stored, rest) ∧
        input = bytes ++ rest ∧ Renews stored pool bytes written := by
  obtain ⟨id, r₁, hid, h⟩ := Reader.bind_eq_ok.mp h
  obtain ⟨name, r₂, hname, h⟩ := Reader.bind_eq_ok.mp h
  obtain ⟨unit, r₃, hunit, h⟩ := Reader.bind_eq_ok.mp h
  obtain ⟨curve, r₄, hcurve, h⟩ := Reader.bind_eq_ok.mp h
  obtain ⟨rfl, rfl⟩ := Reader.pure_eq_ok.mp h
  obtain ⟨count, r₅, hcount, hcurve⟩ := Reader.bind_eq_ok.mp hcurve
  obtain ⟨segments, r₆, hsegments, hcurve⟩ := Reader.bind_eq_ok.mp hcurve
  obtain ⟨hnormalized, rfl⟩ := domain_eq_ok hcurve
  obtain ⟨hlength, hsame, hchain⟩ := CapacityCurve.fromSorted_length hnormalized
  have hstored : storedPool limits input = .ok (⟨id, name, unit, segments⟩, r₆) :=
    Reader.bind_eq_ok.mpr ⟨id, r₁, hid, Reader.bind_eq_ok.mpr ⟨name, r₂, hname,
      Reader.bind_eq_ok.mpr ⟨unit, r₃, hunit, Reader.bind_eq_ok.mpr ⟨segments, r₆,
        Reader.bind_eq_ok.mpr ⟨count, r₅, hcount, hsegments⟩, rfl⟩⟩⟩⟩
  obtain ⟨idBytes, hidWrites, rfl⟩ := canonical_poolId hid
  obtain ⟨nameBytes, hnameWrites, rfl⟩ := canonical_string _ hname
  obtain ⟨unitBytes, hunitWrites, rfl⟩ := (unit_eq_ok hunit).1
  obtain ⟨bytes, hwrites, rfl⟩ := canonical_list canonical_segment hcount hsegments
  obtain ⟨rfl, -⟩ := canonical_segment.times hsegments
  have hlt := count_lt hcount
  obtain ⟨bytes', hlen', hwrites'⟩ := writes_curve (hlength.trans_lt hlt)
  have hlen : bytes.length = 4 + 24 * segments.length := by
    obtain ⟨all, hall, hwritesAll⟩ := writes_curve hlt
    rw [hwrites.unique hwritesAll, hall]
  refine ⟨Except.ensure_eq_ok.mpr (of_decide_eq_true (string_eq_ok hname).2),
    Except.ensure_eq_ok.mpr (of_decide_eq_true (unit_eq_ok hunit).2), _,
    idBytes ++ (nameBytes ++ (unitBytes ++ bytes)), idBytes ++ (nameBytes ++ (unitBytes ++ bytes')),
    hstored, by simp only [List.append_assoc], ?_⟩
  constructor
  · exact hidWrites.bind (hnameWrites.bind (hunitWrites.bind hwrites'))
  · exact hnormalized
  · simp only [List.length_append]
    omega
  · intro hall
    simp only [List.length_append] at hall
    exact hchain.mp (hsame (by omega))
  · intro hnormal
    rw [hchain.mpr hnormal] at hwrites'
    rw [hwrites.unique hwrites']

/-- Pools that were read: as they are stored, and their bytes when they are written again. -/
structure RenewsAll (stored : List StoredPool) (pools : List ResourcePool)
    (bytes written : List UInt8) : Prop where
  writes : Writes (pools.forM Writer.resourcePool) written
  normalized : List.Forall₂ (fun (pool : ResourcePool) (stored : StoredPool) =>
    CapacityCurve.fromSorted stored.segments = .ok pool.capacityCurve) pools stored
  shorter : written.length ≤ bytes.length
  normal : written.length = bytes.length →
    ∀ pool ∈ stored, pool.segments.IsChain CapacitySegment.Separated
  same : (∀ pool ∈ stored, pool.segments.IsChain CapacitySegment.Separated) → written = bytes

/-- One pool more. -/
theorem RenewsAll.cons {stored : StoredPool} {pool : ResourcePool} {bytes written : List UInt8}
    (h : Renews stored pool bytes written) {storedRest : List StoredPool}
    {rest : List ResourcePool} {bytesRest writtenRest : List UInt8}
    (hrest : RenewsAll storedRest rest bytesRest writtenRest) :
    RenewsAll (stored :: storedRest) (pool :: rest) (bytes ++ bytesRest)
      (written ++ writtenRest) := by
  have hshorter := h.shorter
  have hshorterRest := hrest.shorter
  constructor
  · exact h.writes.bind hrest.writes
  · exact .cons h.normalized hrest.normalized
  · rw [List.length_append, List.length_append]
    omega
  · intro hall
    rw [List.length_append, List.length_append] at hall
    intro pool hpool
    rcases List.mem_cons.mp hpool with rfl | hpool
    · exact h.normal (by omega)
    · exact hrest.normal (by omega) pool hpool
  · intro hnormal
    rw [h.same (hnormal _ List.mem_cons_self),
      hrest.same fun pool hpool => hnormal pool (List.mem_cons_of_mem _ hpool)]

/-- Pools are read as they are stored, and then their curves are normalized. -/
theorem times_resourcePool_eq_ok {n : Nat} {pools : List ResourcePool} {input rest : List UInt8}
    (h : (PromiseDb.Reader.resourcePool limits.reader).times n input = .ok (pools, rest)) :
    pools.length = n ∧ ∃ stored bytes written,
      (storedPool limits).times n input = .ok (stored, rest) ∧ input = bytes ++ rest ∧
      RenewsAll stored pools bytes written := by
  induction n generalizing input pools with
  | zero =>
    obtain ⟨rfl, rfl⟩ := Reader.pure_eq_ok.mp h
    refine ⟨rfl, [], [], [], rfl, rfl, Writes.pure, .nil, le_rfl, ?_, fun _ => rfl⟩
    intro _ pool hpool
    cases hpool
  | succ n ih =>
    obtain ⟨pool, mid, hpool, h⟩ := Reader.bind_eq_ok.mp h
    obtain ⟨others, mid', hothers, h⟩ := Reader.bind_eq_ok.mp h
    obtain ⟨rfl, rfl⟩ := Reader.pure_eq_ok.mp h
    obtain ⟨-, -, stored, bytes, written, hstored, rfl, hrenews⟩ := resourcePool_eq_ok hpool
    obtain ⟨hlength, storedRest, bytesRest, writtenRest, hstoredRest, rfl, hrenewsRest⟩ :=
      ih hothers
    refine ⟨congrArg Nat.succ hlength, stored :: storedRest, bytes ++ bytesRest,
      written ++ writtenRest, ?_, (List.append_assoc _ _ _).symm, hrenewsRest.cons hrenews⟩
    exact Reader.bind_eq_ok.mpr ⟨stored, _, hstored,
      Reader.bind_eq_ok.mpr ⟨storedRest, _, hstoredRest, rfl⟩⟩

/-- The strings of a pool that was read are within their limit. -/
theorem yields_resourcePool :
    Yields (PromiseDb.Reader.resourcePool limits.reader) fun pool =>
      checkString "display name" pool.displayName limits.strings = .ok () ∧
        checkString "unit name" pool.unit.name limits.strings = .ok () := by
  intro input pool rest h
  obtain ⟨hname, hunit, -⟩ := resourcePool_eq_ok h
  exact ⟨hname, hunit⟩

/-! ## Reading a payload -/

/-- What is known of a payload that was read. -/
structure Accepts (limits : SnapshotLimits) (p : Payload) (items : StoredItems)
    (bytes : List UInt8) : Prop where
  resourcePools : p.resourcePools.length ≤ limits.collections
  promises : p.promises.length ≤ limits.collections
  events : p.events.length ≤ limits.collections
  idempotencyRecords : p.idempotencyRecords.length ≤ limits.collections
  names : ∀ pool ∈ p.resourcePools,
    checkString "display name" pool.displayName limits.strings = .ok () ∧
      checkString "unit name" pool.unit.name limits.strings = .ok ()
  records : ∀ record ∈ p.idempotencyRecords, checkRecord limits record = .ok ()
  sameItems : items.promises = p.promises ∧ items.events = p.events
  normalized : List.Forall₂ (fun (pool : ResourcePool) (stored : StoredPool) =>
    CapacityCurve.fromSorted stored.segments = .ok pool.capacityCurve)
    p.resourcePools items.resourcePools
  /-- The bytes of the payload when it is written again. -/
  written : ∃ written : List UInt8, (∀ snapshot : EngineSnapshot,
      snapshot.resourcePools = p.resourcePools → snapshot.promises = p.promises →
      snapshot.events = p.events → snapshot.idempotencyRecords = p.idempotencyRecords →
      Writes (Writer.engineSnapshot snapshot) written) ∧
    (written = bytes ↔
      ∀ pool ∈ items.resourcePools, pool.segments.IsChain CapacitySegment.Separated)

/-- What a payload that is accepted is made of. -/
theorem payload_eq_ok {p : Payload} {input rest : List UInt8}
    (h : payload limits input = .ok (p, rest)) :
    ∃ items bytes mid, storedItems limits input = .ok (items, mid) ∧ input = bytes ++ rest ∧
      Accepts limits p items bytes := by
  obtain ⟨pools, r₁, hpools, h⟩ := Reader.bind_eq_ok.mp h
  obtain ⟨promises, r₂, hpromises, h⟩ := Reader.bind_eq_ok.mp h
  obtain ⟨events, r₃, hevents, h⟩ := Reader.bind_eq_ok.mp h
  obtain ⟨records, r₄, hrecords, h⟩ := Reader.bind_eq_ok.mp h
  obtain ⟨rfl, rfl⟩ := Reader.pure_eq_ok.mp h
  obtain ⟨count, r₅, hcount, hle, htimes⟩ := collection_eq_ok.mp hpools
  obtain ⟨rfl, stored, poolBytes, poolWritten, hstored, rfl, hrenews⟩ :=
    times_resourcePool_eq_ok htimes
  have hstoredPools : collection limits "resource pools" (storedPool limits) input =
      .ok (stored, r₁) :=
    collection_eq_ok.mpr ⟨_, _, hcount, hle, hstored⟩
  obtain ⟨hpromisesLe, promiseBytes, hpromiseWrites, rfl⟩ :=
    canonical_collection canonical_promise hpromises
  obtain ⟨heventsLe, eventBytes, heventWrites, rfl⟩ :=
    canonical_collection canonical_event hevents
  obtain ⟨hrecordsLe, recordBytes, hrecordWrites, rfl⟩ :=
    canonical_collection canonical_idempotencyRecord hrecords
  obtain ⟨countBytes, hcountWrites, rfl⟩ := canonical_count _ hcount
  have hitems : storedItems limits (countBytes ++ (poolBytes ++ (promiseBytes ++ (eventBytes ++
      (recordBytes ++ r₄))))) = .ok (⟨stored, promises, events⟩, recordBytes ++ r₄) :=
    Reader.bind_eq_ok.mpr ⟨stored, _, hstoredPools, Reader.bind_eq_ok.mpr ⟨promises, _, hpromises,
      Reader.bind_eq_ok.mpr ⟨events, _, hevents, rfl⟩⟩⟩
  refine ⟨_, countBytes ++ (poolBytes ++ (promiseBytes ++ (eventBytes ++ recordBytes))), _, hitems,
    by simp only [List.append_assoc], ?_⟩
  constructor
  · exact hle
  · exact hpromisesLe
  · exact heventsLe
  · exact hrecordsLe
  · exact yields_collection yields_resourcePool hpools
  · exact yields_collection yields_idempotencyRecord hrecords
  · exact ⟨rfl, rfl⟩
  · exact hrenews.normalized
  · refine ⟨countBytes ++ (poolWritten ++ (promiseBytes ++ (eventBytes ++ recordBytes))), ?_, ?_, ?_⟩
    · intro snapshot hp hpr he hr
      unfold Writer.engineSnapshot
      rw [hp, hpr, he, hr]
      apply hcountWrites.bind
      apply hrenews.writes.bind
      exact hpromiseWrites.bind_bind (heventWrites.bind_bind hrecordWrites)
    · intro heq
      apply hrenews.normal
      have hlength := congrArg List.length heq
      simp only [List.length_append] at hlength
      omega
    · intro hnormal
      rw [hrenews.same hnormal]

end SnapshotReader

/-! ## Headers -/

namespace Snapshot

/-- The first bytes of a file are the slices of its header. -/
theorem slices_of_header (bytes : List UInt8) :
    Bytes.slice bytes 0 4 ++ (Bytes.slice bytes 4 5 ++ (Bytes.slice bytes 5 6 ++
      (Bytes.slice bytes 6 8 ++ (Bytes.slice bytes 8 10 ++ (Bytes.slice bytes 10 16 ++
      (Bytes.slice bytes 16 24 ++ (Bytes.slice bytes 24 32 ++ (Bytes.slice bytes 32 48 ++
      (Bytes.slice bytes 48 52 ++ (Bytes.slice bytes 52 56 ++ (Bytes.slice bytes 56 64 ++
      (Bytes.slice bytes 64 72 ++ (Bytes.slice bytes 72 88 ++ (Bytes.slice bytes 88 96 ++
        Bytes.slice bytes 96 128)))))))))))))) = Bytes.slice bytes 0 128 := by
  repeat rw [Bytes.slice_append_slice]
  all_goals decide

/-- A header has its fixed length. -/
theorem length_header (totalLen payloadLen : U64) (file : SnapshotFile) :
    (header totalLen payloadLen file).length = headerLen := by
  simp [header, magic, headerLen]

/-- The sequence in a header. -/
def storedSequence (bytes : List UInt8) : SequenceNumber :=
  ⟨BoundedInt.ofLeBytes U64.width (Bytes.slice bytes 64 72)⟩

/-- The revision in a header. -/
def storedRevision (bytes : List UInt8) : PublicationRevision :=
  BoundedInt.ofLeBytes U128.width (Bytes.slice bytes 72 88)

/-- The sequence up to which events were pruned, in a header. -/
def storedPruned (bytes : List UInt8) : SequenceNumber :=
  ⟨BoundedInt.ofLeBytes U64.width (Bytes.slice bytes 88 96)⟩

/-- The lengths in a header that is accepted. -/
theorem checkLengths_eq_ok {bytes : List UInt8} {limits : SnapshotLimits}
    (h : checkLengths bytes limits = .ok ()) :
    ∃ totalLen payloadLen : U64, totalLen = BoundedInt.ofLeBytes U64.width (Bytes.slice bytes 16 24) ∧
      payloadLen = BoundedInt.ofLeBytes U64.width (Bytes.slice bytes 24 32) ∧
      totalLen ≤ limits.maxTotalBytes ∧ totalLenOf payloadLen.val.toNat = some totalLen ∧
      bytes.length = totalLen.val.toNat := by
  unfold checkLengths at h
  simp only [Except.bind_eq_ok, Except.ensure_eq_ok, Except.elim_eq_ok] at h
  obtain ⟨-, hlimit, expected, hexpected, -, htotal, hlength⟩ := h
  exact ⟨_, _, rfl, rfl, hlimit, htotal ▸ hexpected, hlength⟩

/-- A header that is accepted is the header of a file. -/
theorem checkHeader_eq_ok {bytes : List UInt8} {limits : SnapshotLimits} {uuid : U128}
    {semantics : U32} {watermark : U64}
    (h : checkHeader bytes limits uuid semantics watermark = .ok ()) :
    ∃ totalLen payloadLen : U64, headerLen ≤ bytes.length ∧ totalLen ≤ limits.maxTotalBytes ∧
      totalLenOf payloadLen.val.toNat = some totalLen ∧ bytes.length = totalLen.val.toNat ∧
      ∀ snapshot : EngineSnapshot, snapshot.sequence = storedSequence bytes →
        snapshot.publicationRevision = storedRevision bytes →
        snapshot.eventsPrunedThrough = storedPruned bytes →
        header totalLen payloadLen ⟨uuid, semantics, watermark, snapshot⟩ = bytes.take headerLen := by
  unfold checkHeader at h
  simp only [Except.bind_eq_ok, Except.ensure_eq_ok] at h
  obtain ⟨-, -, -, hlen, -, hmagic, -, hversion, -, hflags, -, hheaderLen, -, hchecksumLen, -,
    hreserved, u, hlengths, -, huuid, -, hsemantics, hwatermark⟩ := h
  obtain ⟨totalLen, payloadLen, htotal, hpayload, hlimit, hexpected, hlength⟩ :=
    checkLengths_eq_ok hlengths
  refine ⟨totalLen, payloadLen, hlen, hlimit, hexpected, hlength, ?_⟩
  intro snapshot hsequence hrevision hpruned
  have hslice (start stop : Nat) (hstop : stop ≤ 128) :
      (Bytes.slice bytes start stop).length = stop - start :=
    Bytes.length_slice (hstop.trans hlen)
  have hpadding (start stop : Nat) (hstop : stop ≤ 128)
      (hpart : ∀ value ∈ Bytes.slice bytes start stop, value ∈ Bytes.slice bytes 10 16 ++
        (Bytes.slice bytes 52 56 ++ Bytes.slice bytes 96 128)) :
      Bytes.slice bytes start stop = List.replicate (stop - start) 0 :=
    List.eq_replicate_iff.mpr ⟨hslice start stop hstop, fun value hvalue =>
      of_decide_eq_true (List.all_eq_true.mp hreserved value (hpart value hvalue))⟩
  have htake : bytes.take headerLen = Bytes.slice bytes 0 128 := rfl
  rw [htake, header, htotal, hpayload, ← huuid, ← hsemantics, ← hwatermark, hsequence, hrevision, hpruned,
    storedSequence, storedRevision, storedPruned,
    BoundedInt.toLeBytes_ofLeBytes U64.width (hslice 16 24 (by decide)),
    BoundedInt.toLeBytes_ofLeBytes U64.width (hslice 24 32 (by decide)),
    BoundedInt.toBeBytes_ofBeBytes U128.width (hslice 32 48 (by decide)),
    BoundedInt.toLeBytes_ofLeBytes U32.width (hslice 48 52 (by decide)),
    BoundedInt.toLeBytes_ofLeBytes U64.width (hslice 56 64 (by decide)),
    BoundedInt.toLeBytes_ofLeBytes U64.width (hslice 64 72 (by decide)),
    BoundedInt.toLeBytes_ofLeBytes U128.width (hslice 72 88 (by decide)),
    BoundedInt.toLeBytes_ofLeBytes U64.width (hslice 88 96 (by decide)),
    ← hmagic, ← Record.eq_singleton_of_headD (hslice 4 5 (by decide)) hversion,
    ← Record.eq_singleton_of_headD (hslice 5 6 (by decide)) hflags, ← hheaderLen, ← hchecksumLen,
    Bytes.le_ofLe_of_length (hslice 6 8 (by decide)),
    Bytes.le_ofLe_of_length (hslice 8 10 (by decide)),
    ← hpadding 10 16 (by decide) fun value hvalue => List.mem_append_left _ hvalue,
    ← hpadding 52 56 (by decide) fun value hvalue =>
      List.mem_append_right _ (List.mem_append_left _ hvalue),
    ← hpadding 96 128 (by decide) fun value hvalue =>
      List.mem_append_right _ (List.mem_append_right _ hvalue),
    slices_of_header]

section Hashing

variable {blake3 : List UInt8 → CommandHash}

/-- What a file that is accepted is made of. -/
theorem decode_eq_ok {bytes : List UInt8} {limits : SnapshotLimits} {uuid : U128} {semantics : U32}
    {watermark : U64} {decoded : DecodedSnapshot}
    (h : decode blake3 bytes limits uuid semantics watermark = .ok decoded) :
    limits.validate = .ok () ∧ decoded.walWatermark = watermark ∧
    ∃ (totalLen payloadLen : U64) (payload : SnapshotReader.Payload),
      totalLen ≤ limits.maxTotalBytes ∧ payloadLen.val = (payloadOf bytes).length ∧
      totalLenOf (payloadOf bytes).length = some totalLen ∧
      SnapshotReader.payload limits (payloadOf bytes) = .ok (payload, []) ∧
      decoded.engine.captureSnapshot.resourcePools = payload.resourcePools ∧
      decoded.engine.captureSnapshot.promises = payload.promises ∧
      decoded.engine.captureSnapshot.events = payload.events ∧
      decoded.engine.captureSnapshot.idempotencyRecords = payload.idempotencyRecords ∧
      let body := header totalLen payloadLen
        ⟨uuid, semantics, watermark, decoded.engine.captureSnapshot⟩ ++ payloadOf bytes
      bytes = body ++ (blake3 body).bytes := by
  unfold decode at h
  simp only [Except.bind_eq_ok, Except.ensure_eq_ok, Except.mapError_eq_ok] at h
  obtain ⟨⟨⟩, hvalid, ⟨⟩, hheader, -, hchecksum, ⟨payload, rest⟩, hpayload, -, hrest, engine,
    hengine, hdecoded⟩ := h
  obtain rfl := Except.ok.inj hdecoded
  obtain rfl : rest = [] := hrest
  have hcapture := Engine.capture_restore hengine
  obtain ⟨totalLen, payloadLen, hlen, hlimit, hexpected, hlength, hhead⟩ :=
    checkHeader_eq_ok hheader
  have htotal : (headerLen + payloadLen.val.toNat + checksumLen : ℤ) = totalLen.val :=
    BoundedInt.ofInt?_eq_some.mp hexpected
  have hpayloadLen : (payloadOf bytes).length = payloadLen.val.toNat := by
    rw [payloadOf, Bytes.length_slice (Nat.sub_le _ _), hlength]
    omega
  have hnonneg := payloadLen.property.1
  have hbound : headerLen ≤ bytes.length - checksumLen := by
    rw [hlength]
    omega
  have hbody : bytes.take headerLen ++ payloadOf bytes = bytes.take (bytes.length - checksumLen) :=
    Bytes.slice_append_slice bytes (Nat.zero_le _) hbound
  refine ⟨hvalid, rfl, totalLen, payloadLen, payload, hlimit, by omega, hpayloadLen ▸ hexpected,
    hpayload, ?_, ?_, ?_, ?_, ?_⟩
  · rw [hcapture]
  · rw [hcapture]
  · rw [hcapture]
  · rw [hcapture]
  · dsimp only
    rw [hhead _ (by rw [hcapture]; rfl) (by rw [hcapture]; rfl) (by rw [hcapture]; rfl), hbody,
      hchecksum, List.take_append_drop]

/-- What an encoded file is made of. -/
theorem encode_eq_ok {file : SnapshotFile} {limits : SnapshotLimits} {bytes : List UInt8} :
    encode blake3 file limits = .ok bytes ↔
      limits.validate = .ok () ∧
      file.engine.resourcePools.length ≤ limits.collections ∧
      file.engine.promises.length ≤ limits.collections ∧
      file.engine.events.length ≤ limits.collections ∧
      file.engine.idempotencyRecords.length ≤ limits.collections ∧
      (∀ pool ∈ file.engine.resourcePools, checkPool limits pool = .ok ()) ∧
      (∀ p ∈ file.engine.promises, p.bundle.claims.length ≤ limits.nested) ∧
      (∀ e ∈ file.engine.events, affectedCount e.data ≤ limits.nested) ∧
      (∀ record ∈ file.engine.idempotencyRecords, checkRecord limits record = .ok ()) ∧
      ∃ (payload : List UInt8) (payloadLen totalLen : U64),
        (Writer.engineSnapshot file.engine).written = .ok payload ∧
        payloadLen.val = payload.length ∧ totalLenOf payload.length = some totalLen ∧
        totalLen ≤ limits.maxTotalBytes ∧
        bytes = header totalLen payloadLen file ++ payload ++
          (blake3 (header totalLen payloadLen file ++ payload)).bytes := by
  unfold encode
  simp only [Except.bind_eq_ok, Except.ensure_eq_ok, Except.mapError_eq_ok, Except.elim_eq_ok,
    checkItems, List.forM_eq_ok, BoundedInt.ofInt?_eq_some]
  constructor
  · rintro ⟨⟨⟩, hvalid, -, hpools, -, hpromises, -, hevents, -, hrecords, -, hcheckPools, -,
      hcheckPromises, -, hcheckEvents, -, hcheckRecords, payload, hpayload, payloadLen, hpayloadLen,
      totalLen, htotal, -, hlimit, hbytes⟩
    exact ⟨hvalid, hpools, hpromises, hevents, hrecords, hcheckPools,
      fun p hp => Except.ensure_eq_ok.mp (hcheckPromises p hp),
      fun e he => Except.ensure_eq_ok.mp (hcheckEvents e he), hcheckRecords, payload, payloadLen,
      totalLen, hpayload, hpayloadLen.symm, htotal, hlimit, (Except.ok.inj hbytes).symm⟩
  · rintro ⟨hvalid, hpools, hpromises, hevents, hrecords, hcheckPools, hcheckPromises,
      hcheckEvents, hcheckRecords, payload, payloadLen, totalLen, hpayload, hpayloadLen, htotal,
      hlimit, rfl⟩
    exact ⟨⟨⟩, hvalid, ⟨⟩, hpools, ⟨⟩, hpromises, ⟨⟩, hevents, ⟨⟩, hrecords, ⟨⟩, hcheckPools, ⟨⟩,
      fun p hp => Except.ensure_eq_ok.mpr (hcheckPromises p hp), ⟨⟩,
      fun e he => Except.ensure_eq_ok.mpr (hcheckEvents e he), ⟨⟩, hcheckRecords, payload, hpayload,
      payloadLen, hpayloadLen.symm, totalLen, htotal, ⟨⟩, hlimit, rfl⟩

end Hashing

end Snapshot

/-! ## Encoding what was decoded -/

namespace Snapshot

variable {blake3 : List UInt8 → CommandHash}

/-- Encoding the state of an accepted file gives the file back exactly if the file stores its
curves in normal form and the collections in its entries are within their limit. -/
theorem encode_decoded_iff {bytes : List UInt8} {limits : SnapshotLimits} {uuid : U128}
    {semantics : U32} {watermark : U64} {decoded : DecodedSnapshot}
    (h : decode blake3 bytes limits uuid semantics watermark = .ok decoded) :
    encode blake3 ⟨uuid, semantics, watermark, decoded.engine.captureSnapshot⟩ limits =
      .ok bytes ↔ StoredCanonically limits bytes := by
  obtain ⟨hvalid, -, totalLen, payloadLen, payload, hlimit, hpayloadLen, htotal, hpayload, hpools,
    hpromises, hevents, hrecords, hbytes⟩ := decode_eq_ok h
  obtain ⟨items, stored, mid, hitems, hstored, haccepts⟩ := SnapshotReader.payload_eq_ok hpayload
  rw [List.append_nil] at hstored
  obtain ⟨written, hwrites, hnormal⟩ := haccepts.written
  have hwritten := (hwrites _ hpools hpromises hevents hrecords).written
  have hstoredCanonically : StoredCanonically limits bytes ↔
      (∀ pool ∈ items.resourcePools, pool.segments.IsChain CapacitySegment.Separated ∧
        pool.segments.length ≤ limits.nested) ∧
      (∀ p ∈ payload.promises, p.bundle.claims.length ≤ limits.nested) ∧
      ∀ e ∈ payload.events, affectedCount e.data ≤ limits.nested := by
    rw [← haccepts.sameItems.1, ← haccepts.sameItems.2]
    constructor
    · exact fun hall => hall items mid hitems
    · intro hall items' mid' hitems'
      obtain ⟨rfl, -⟩ := Prod.mk.inj (Except.ok.inj (hitems.symm.trans hitems'))
      exact hall
  rw [hstoredCanonically, encode_eq_ok]
  dsimp only
  rw [hpools, hpromises, hevents, hrecords]
  constructor
  · rintro ⟨-, -, -, -, -, hcheckPools, hcheckPromises, hcheckEvents, -, payload', payloadLen',
      totalLen', hpayload', hpayloadLen', htotal', -, hbytes'⟩
    obtain rfl := Except.ok.inj (hwritten.symm.trans hpayload')
    have hbody := List.append_inj_left' (hbytes'.symm.trans hbytes)
      ((blake3 _).length_bytes.trans (blake3 _).length_bytes.symm)
    have hsame : written = payloadOf bytes :=
      List.append_inj_right hbody ((length_header _ _ _).trans (length_header _ _ _).symm)
    have hchain := hnormal.mp (hsame.trans hstored)
    refine ⟨?_, hcheckPromises, hcheckEvents⟩
    intro stored' hstored'
    obtain ⟨pool, hpool, hcurve⟩ := haccepts.normalized.exists_left hstored'
    obtain ⟨⟨⟩, -, hpoolCheck⟩ := Except.bind_eq_ok.mp (hcheckPools pool hpool)
    obtain ⟨⟨⟩, -, hcount⟩ := Except.bind_eq_ok.mp hpoolCheck
    have hsegments := (CapacityCurve.fromSorted_length hcurve).2.2.mpr (hchain stored' hstored')
    refine ⟨hchain stored' hstored', ?_⟩
    rw [← hsegments]
    exact Except.ensure_eq_ok.mp hcount
  · rintro ⟨hstoredPools, hstoredPromises, hstoredEvents⟩
    have hchain : ∀ pool ∈ items.resourcePools,
        pool.segments.IsChain CapacitySegment.Separated := fun pool hpool => (hstoredPools pool hpool).1
    obtain rfl := hnormal.mpr hchain
    refine ⟨hvalid, haccepts.resourcePools, haccepts.promises, haccepts.events,
      haccepts.idempotencyRecords, ?_, hstoredPromises, hstoredEvents, haccepts.records, written,
      payloadLen, totalLen, hwritten, ?_, ?_, hlimit, ?_⟩
    · intro pool hpool
      obtain ⟨hname, hunit⟩ := haccepts.names pool hpool
      obtain ⟨stored', hstored', hcurve⟩ := haccepts.normalized.exists_right hpool
      have hle := (CapacityCurve.fromSorted_length hcurve).1
      exact Except.bind_eq_ok.mpr ⟨⟨⟩, hname, Except.bind_eq_ok.mpr ⟨⟨⟩, hunit,
        Except.ensure_eq_ok.mpr (hle.trans (hstoredPools stored' hstored').2)⟩⟩
    · rw [hpayloadLen, hstored]
    · rw [← hstored]
      exact htotal
    · rw [← hstored]
      exact hbytes

/-- Encoding the state of an accepted file gives the file back exactly if the file is stored
canonically; two files that are stored canonically and have the same state are the same. -/
theorem snapshot_canonical_iff (limits : SnapshotLimits) (uuid : U128) (semantics : U32)
    (watermark : U64) :
    (∀ bytes decoded, decode blake3 bytes limits uuid semantics watermark = .ok decoded →
      (encode blake3 ⟨uuid, semantics, watermark, decoded.engine.captureSnapshot⟩ limits =
        .ok bytes ↔ StoredCanonically limits bytes)) ∧
    ∀ bytes bytes' decoded decoded',
      decode blake3 bytes limits uuid semantics watermark = .ok decoded →
      decode blake3 bytes' limits uuid semantics watermark = .ok decoded' →
      decoded.engine.captureSnapshot = decoded'.engine.captureSnapshot →
      StoredCanonically limits bytes → StoredCanonically limits bytes' → bytes = bytes' := by
  constructor
  · exact fun bytes decoded h => encode_decoded_iff h
  · intro bytes bytes' decoded decoded' h h' hsame hcanonical hcanonical'
    have hencode := (encode_decoded_iff h).mpr hcanonical
    have hencode' := (encode_decoded_iff h').mpr hcanonical'
    rw [hsame] at hencode
    exact Except.ok.inj (hencode.symm.trans hencode')

/-! ## A file with a curve that is not in normal form -/

/-- A small 32-bit number. -/
def sampleU32 (n : Fin 1000) : U32 := ⟨n.val, by omega⟩

/-- A small 128-bit number. -/
def sampleU128 (n : Fin 1000) : U128 := ⟨n.val, by omega⟩

/-- The limits of the sample file. -/
def sampleLimits : SnapshotLimits :=
  ⟨Engine.sampleQuantity 999, sampleU32 10, sampleU32 100, sampleU32 10⟩

/-- A payload with one pool, whose capacity of five units is stored as two adjacent segments. -/
def splitPayload : List UInt8 :=
  Bytes.le 4 1 ++ Bytes.be 16 1 ++ Bytes.le 4 5 ++ utf8 "seats" ++ Bytes.le 4 4 ++ utf8 "seat" ++
    Bytes.le 8 1 ++ Bytes.le 4 2 ++ Bytes.le 8 0 ++ Bytes.le 8 10 ++ Bytes.le 8 5 ++
    Bytes.le 8 10 ++ Bytes.le 8 20 ++ Bytes.le 8 5 ++ List.replicate 12 0

/-- Everything before the digest of the sample file. -/
def splitBody : List UInt8 :=
  header (Engine.sampleQuantity 269) (Engine.sampleQuantity 109)
    ⟨sampleU128 7, sampleU32 1, Engine.sampleQuantity 0,
      ⟨[], [], [], [], .zero, sampleU128 0, .zero⟩⟩ ++ splitPayload

/-- The sample file. -/
def splitSnapshot : List UInt8 := splitBody ++ (Engine.sampleHash splitBody).bytes

/-- The sample file is accepted, but encoding its state gives a shorter file. -/
theorem splitSnapshot_decoded :
    ∃ decoded bytes, decode Engine.sampleHash splitSnapshot sampleLimits (sampleU128 7) (sampleU32 1)
        (Engine.sampleQuantity 0) = .ok decoded ∧
      encode Engine.sampleHash ⟨sampleU128 7, sampleU32 1, Engine.sampleQuantity 0,
        decoded.engine.captureSnapshot⟩ sampleLimits = .ok bytes ∧
      bytes.length = 245 := by
  have hlength : ((decode Engine.sampleHash splitSnapshot sampleLimits (sampleU128 7) (sampleU32 1)
      (Engine.sampleQuantity 0)).toOption.bind fun decoded =>
        (encode Engine.sampleHash ⟨sampleU128 7, sampleU32 1, Engine.sampleQuantity 0,
          decoded.engine.captureSnapshot⟩ sampleLimits).toOption).map
      (fun bytes => bytes.length) = some 245 := by
    decide +kernel
  obtain ⟨bytes, hbytes, hlen⟩ := Option.map_eq_some_iff.mp hlength
  obtain ⟨decoded, hdecoded, hencoded⟩ := Option.bind_eq_some_iff.mp hbytes
  exact ⟨decoded, bytes, Except.toOption_eq_some.mp hdecoded, Except.toOption_eq_some.mp hencoded,
    hlen⟩

/-- The snapshot with a split curve has 269 bytes. -/
theorem length_splitSnapshot : splitSnapshot.length = 269 := by
  rw [splitSnapshot, splitBody, List.length_append, List.length_append, length_header,
    (Engine.sampleHash _).length_bytes]
  decide

/-- The sample file is accepted, but it is not the file of its state. -/
theorem snapshot_not_canonical :
    ∃ decoded, decode Engine.sampleHash splitSnapshot sampleLimits (sampleU128 7) (sampleU32 1)
        (Engine.sampleQuantity 0) = .ok decoded ∧
      encode Engine.sampleHash ⟨sampleU128 7, sampleU32 1, Engine.sampleQuantity 0,
        decoded.engine.captureSnapshot⟩ sampleLimits ≠ .ok splitSnapshot := by
  obtain ⟨decoded, bytes, hdecoded, hencoded, hlength⟩ := splitSnapshot_decoded
  refine ⟨decoded, hdecoded, ?_⟩
  intro h
  have hlengths := congrArg List.length (Except.ok.inj (hencoded.symm.trans h))
  rw [hlength, length_splitSnapshot] at hlengths
  omega

/-- The sample file is not stored canonically. -/
theorem snapshot_canonical_iff_sample : ¬StoredCanonically sampleLimits splitSnapshot := by
  obtain ⟨decoded, bytes, hdecoded, hencoded, hlength⟩ := splitSnapshot_decoded
  have hiff := (@snapshot_canonical_iff Engine.sampleHash sampleLimits (sampleU128 7) (sampleU32 1)
    (Engine.sampleQuantity 0)).1 splitSnapshot decoded hdecoded
  rw [← hiff, hencoded]
  intro h
  have hlengths := congrArg List.length (Except.ok.inj h)
  rw [hlength, length_splitSnapshot] at hlengths
  omega

end Snapshot

end PromiseDb
