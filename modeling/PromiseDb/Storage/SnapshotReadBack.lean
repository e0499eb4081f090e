import PromiseDb.Storage.AcceptedLengths
import PromiseDb.Storage.SnapshotCanonical

/-!
# Reading back a snapshot

The encoder of snapshot files bounds the collections of the payload, the collections in its
entries and its strings, each by a limit of its own, and does not look into the cached responses.
The decoder reads all lengths under one bound for collections, the larger one of two limits, and
this includes the lengths of strings and of the lists in responses.  So the snapshot of a
reachable engine that was written is read back, and then gives the engine back, exactly if its
strings and its cached responses are within that bound as well.
-/

namespace PromiseDb

open Snapshot Codec Engine

/-! ## What the decoder bounds -/

/-- The lengths in a cached response that are within the bounds of the decoder. -/
@[mk_iff]
structure RecordReadable (limits : SnapshotLimits)
    (record : ClientId × IdempotencyKey × CommandHash × CommandResponse) : Prop where
  client : StringFits limits.reader record.1.value
  key : StringFits limits.reader record.2.1.value
  response : ResponseFits limits.reader record.2.2.2
  numbers : ResponseNumbersFit limits.reader record.2.2.2

instance RecordReadable.decidable (limits : SnapshotLimits)
    (record : ClientId × IdempotencyKey × CommandHash × CommandResponse) :
    Decidable (RecordReadable limits record) :=
  decidable_of_iff' _ (recordReadable_iff limits record)

/-- The strings and the cached responses of a state are within the bounds of the decoder. -/
@[mk_iff]
structure SnapshotReadable (limits : SnapshotLimits) (snapshot : EngineSnapshot) : Prop where
  pools : ∀ pool ∈ snapshot.resourcePools,
    StringFits limits.reader pool.displayName ∧ StringFits limits.reader pool.unit.name
  records : ∀ record ∈ snapshot.idempotencyRecords, RecordReadable limits record

instance SnapshotReadable.decidable (limits : SnapshotLimits) (snapshot : EngineSnapshot) :
    Decidable (SnapshotReadable limits snapshot) :=
  decidable_of_iff' _ (snapshotReadable_iff limits snapshot)

namespace SnapshotLimits

variable {limits : SnapshotLimits} {n : Nat}

/-- The decoder has one bound for all lengths. -/
theorem countFits_reader : CountFits limits.reader n ↔ n ≤ max limits.nested limits.collections := by
  have hnested := limits.maxNestedItems.property
  have hcollections := limits.maxCollectionItems.property
  have hreader : withinLimit limits.reader.maxCollectionItems n =
      decide (n ≤ max limits.nested limits.collections) := rfl
  rw [CountFits, hreader, decide_eq_true_iff, and_iff_right_iff_imp]
  intro hle
  unfold nested collections at hle
  omega

/-- What fits the nested limit fits the limit of the reader. -/
theorem countFits_nested (h : n ≤ limits.nested) : CountFits limits.reader n :=
  countFits_reader.mpr (h.trans (le_max_left _ _))

/-- What fits the limit of collections fits the limit of the reader. -/
theorem countFits_collections (h : n ≤ limits.collections) : CountFits limits.reader n :=
  countFits_reader.mpr (h.trans (le_max_right _ _))

end SnapshotLimits

/-! ## Collections that were written -/

namespace SnapshotReader

variable {limits : SnapshotLimits}

/-- A collection within its limit whose elements are read back is read back. -/
theorem collection_written {α : Type} (field : String) {write : α → StorageWriter}
    {r : StorageReader α} {l : List α} (hlength : l.length ≤ limits.collections)
    (h : ∀ a ∈ l, RoundTrips (write a) r a) :
    ∃ bytes, Writes (do Writer.len field l.length; l.forM write) bytes ∧
      ∀ rest, collection limits field r (bytes ++ rest) = .ok (l, rest) := by
  have hfits : CountFits limits.reader l.length := SnapshotLimits.countFits_collections hlength
  have hlen : RoundTrips (Writer.len field l.length) (Reader.count limits.reader field) l.length :=
    roundTrips_len hfits
  obtain ⟨count, hcount, hreadsCount⟩ := hlen
  obtain ⟨items, hitems, hreadsItems⟩ := Paired.times h
  refine ⟨count ++ items, hcount.bind hitems, ?_⟩
  intro rest
  apply collection_eq_ok.mpr
  refine ⟨l.length, items ++ rest, ?_, hlength, hreadsItems.whole rest⟩
  rw [List.append_assoc]
  exact hreadsCount.whole _

/-- A valid cached response within the bounds of the decoder is read back. -/
theorem roundTrips_idempotencyRecord
    {record : ClientId × IdempotencyKey × CommandHash × CommandResponse}
    (h : RecordReadable limits record) (hvalid : ResponseValid record.2.2.2) :
    RoundTrips (Writer.idempotencyRecord record) (idempotencyRecord limits) record := by
  refine (roundTrips_string h.client).bind ?_
  refine (roundTrips_string h.key).bind ?_
  refine (roundTrips_commandHash record.2.2.1).bind ?_
  exact (roundTrips_response h.response h.numbers hvalid).map rfl

/-- What is known of a cached response that was read. -/
theorem yields_recordReadable : Yields (idempotencyRecord limits) (RecordReadable limits) := by
  intro input value rest h
  obtain ⟨client, r₁, hclient, h⟩ := Reader.bind_eq_ok.mp h
  obtain ⟨key, r₂, hkey, h⟩ := Reader.bind_eq_ok.mp h
  obtain ⟨hash, r₃, -, h⟩ := Reader.bind_eq_ok.mp h
  obtain ⟨response, r₄, hresponse, h⟩ := Reader.bind_eq_ok.mp h
  obtain ⟨rfl, -⟩ := Reader.pure_eq_ok.mp h
  obtain ⟨hfits, hnumbers⟩ := yields_response hresponse
  exact ⟨yields_string _ hclient, yields_string _ hkey, hfits, hnumbers⟩

/-- The collections of a captured state, as they are read from a payload. -/
def capturedPayload (snapshot : EngineSnapshot) : Payload :=
  ⟨snapshot.resourcePools, snapshot.promises, snapshot.events, snapshot.idempotencyRecords⟩

/-- A payload that was read is within the bounds of the decoder. -/
theorem payload_readable {snapshot : EngineSnapshot} {input rest : List UInt8}
    (h : payload limits input = .ok (capturedPayload snapshot, rest)) :
    SnapshotReadable limits snapshot := by
  obtain ⟨pools, r₁, hpools, h⟩ := Reader.bind_eq_ok.mp h
  obtain ⟨promises, r₂, -, h⟩ := Reader.bind_eq_ok.mp h
  obtain ⟨events, r₃, -, h⟩ := Reader.bind_eq_ok.mp h
  obtain ⟨records, r₄, hrecords, h⟩ := Reader.bind_eq_ok.mp h
  obtain ⟨hsame, -⟩ := Reader.pure_eq_ok.mp h
  obtain ⟨rfl, -, -, rfl⟩ := Payload.mk.inj hsame
  exact ⟨yields_collection yields_poolStrings hpools,
    yields_collection yields_recordReadable hrecords⟩

/-- What the entries of a captured state satisfy. -/
structure EntriesValid (snapshot : EngineSnapshot) : Prop where
  histories : ∀ p ∈ snapshot.promises, p.Valid
  events : ∀ e ∈ snapshot.events, e.Valid
  responses : ∀ record ∈ snapshot.idempotencyRecords, ResponseValid record.2.2.2

/-- The limits that the encoder checks, without those for strings. -/
structure CountsWithin (limits : SnapshotLimits) (snapshot : EngineSnapshot) : Prop where
  resourcePools : snapshot.resourcePools.length ≤ limits.collections
  promises : snapshot.promises.length ≤ limits.collections
  events : snapshot.events.length ≤ limits.collections
  idempotencyRecords : snapshot.idempotencyRecords.length ≤ limits.collections
  curves : ∀ pool ∈ snapshot.resourcePools,
    pool.capacityCurve.segments.length ≤ limits.nested
  bundles : ∀ p ∈ snapshot.promises, p.bundle.claims.length ≤ limits.nested
  affected : ∀ e ∈ snapshot.events, affectedCount e.data ≤ limits.nested

/-- A payload within the limits of the encoder and the bounds of the decoder is read back. -/
theorem payload_written {snapshot : EngineSnapshot} (hcounts : CountsWithin limits snapshot)
    (hvalid : EntriesValid snapshot) (hreadable : SnapshotReadable limits snapshot) :
    ∃ bytes, Writes (Writer.engineSnapshot snapshot) bytes ∧
      payload limits bytes = .ok (capturedPayload snapshot, []) := by
  have hpool : ∀ pool ∈ snapshot.resourcePools,
      RoundTrips (Writer.resourcePool pool) (Reader.resourcePool limits.reader) pool := by
    intro pool hmem
    obtain ⟨hname, hunit⟩ := hreadable.pools pool hmem
    exact roundTrips_resourcePool
      ⟨hname, hunit, SnapshotLimits.countFits_nested (hcounts.curves pool hmem)⟩
  have hpromise : ∀ p ∈ snapshot.promises,
      RoundTrips (Writer.promise p) (Reader.promise limits.reader) p := by
    intro p hmem
    exact roundTrips_promise (SnapshotLimits.countFits_nested (hcounts.bundles p hmem))
      (hvalid.histories p hmem)
  have hevent : ∀ e ∈ snapshot.events,
      RoundTrips (Writer.event e) (Reader.event limits.reader) e := by
    intro e hmem
    apply roundTrips_event _ (hvalid.events e hmem)
    have hle := hcounts.affected e hmem
    cases hdata : e.data with
    | resourcePool id => trivial
    | promise id version => trivial
    | deficit id interval quantity ids =>
      rw [hdata] at hle
      exact SnapshotLimits.countFits_nested hle
  have hrecord : ∀ record ∈ snapshot.idempotencyRecords,
      RoundTrips (Writer.idempotencyRecord record) (idempotencyRecord limits) record :=
    fun record hmem =>
      roundTrips_idempotencyRecord (hreadable.records record hmem) (hvalid.responses record hmem)
  obtain ⟨poolBytes, hpools, hreadsPools⟩ :=
    collection_written "resource pools" hcounts.resourcePools hpool
  obtain ⟨promiseBytes, hpromises, hreadsPromises⟩ :=
    collection_written "promises" hcounts.promises hpromise
  obtain ⟨eventBytes, hevents, hreadsEvents⟩ :=
    collection_written "events" hcounts.events hevent
  obtain ⟨recordBytes, hrecords, hreadsRecords⟩ :=
    collection_written "idempotency records" hcounts.idempotencyRecords hrecord
  refine ⟨poolBytes ++ (promiseBytes ++ (eventBytes ++ recordBytes)), ?_, ?_⟩
  · exact hpools.bind_bind (hpromises.bind_bind (hevents.bind_bind hrecords))
  · have hlast := hreadsRecords []
    rw [List.append_nil] at hlast
    exact Reader.bind_eq_ok.mpr ⟨_, _, hreadsPools _, Reader.bind_eq_ok.mpr ⟨_, _,
      hreadsPromises _, Reader.bind_eq_ok.mpr ⟨_, _, hreadsEvents _,
        Reader.bind_eq_ok.mpr ⟨_, _, hlast, rfl⟩⟩⟩⟩

end SnapshotReader

/-! ## Headers that were written -/

namespace Snapshot

/-- The fields of a header, as they are sliced out of a file. -/
structure HeaderFields (total payload : U64) (file : SnapshotFile) (bytes : List UInt8) :
    Prop where
  magic : Bytes.slice bytes 0 4 = Snapshot.magic
  version : Bytes.slice bytes 4 5 = [1]
  flags : Bytes.slice bytes 5 6 = [0]
  headerLen : Bytes.slice bytes 6 8 = Bytes.le 2 Snapshot.headerLen
  checksumLen : Bytes.slice bytes 8 10 = Bytes.le 2 Snapshot.checksumLen
  totalLen : Bytes.slice bytes 16 24 = total.toLeBytes 8
  payloadLen : Bytes.slice bytes 24 32 = payload.toLeBytes 8
  databaseUuid : Bytes.slice bytes 32 48 = file.databaseUuid.toBeBytes 16
  semanticsVersion : Bytes.slice bytes 48 52 = file.semanticsVersion.toLeBytes 4
  walWatermark : Bytes.slice bytes 56 64 = file.walWatermark.toLeBytes 8
  sequence : Bytes.slice bytes 64 72 = file.engine.sequence.get.toLeBytes 8
  revision : Bytes.slice bytes 72 88 = file.engine.publicationRevision.toLeBytes 16
  pruned : Bytes.slice bytes 88 96 = file.engine.eventsPrunedThrough.get.toLeBytes 8
  reserved : Bytes.slice bytes 10 16 ++ (Bytes.slice bytes 52 56 ++ Bytes.slice bytes 96 128) =
    List.replicate 6 0 ++ (List.replicate 4 0 ++ List.replicate 32 0)

/-- The fields of a header are where they were written. -/
theorem headerFields_header (total payload : U64) (file : SnapshotFile) (rest : List UInt8) :
    HeaderFields total payload file (header total payload file ++ rest) := by
  have hlength : 128 ≤ (header total payload file ++ rest).length := by
    rw [List.length_append, length_header]
    exact Nat.le_add_right _ _
  have hslice (start stop : Nat) {field : List UInt8} (hstop : stop ≤ 128)
      (hfield : field.length = stop - start) :
      (Bytes.slice (header total payload file ++ rest) start stop).length = field.length :=
    (Bytes.length_slice (hstop.trans hlength)).trans hfield.symm
  have htake : Bytes.slice (header total payload file ++ rest) 0 128 =
      header total payload file := by
    show (header total payload file ++ rest).take headerLen = _
    rw [← length_header total payload file, List.take_left]
  have hfields := (slices_of_header _).trans htake
  generalize header total payload file ++ rest = bytes at hslice hfields
  unfold header at hfields
  -- the fields are compared one after the other
  obtain ⟨hmagic, hfields⟩ := List.append_inj hfields (hslice 0 4 (by decide) rfl)
  obtain ⟨hversion, hfields⟩ := List.append_inj hfields (hslice 4 5 (by decide) rfl)
  obtain ⟨hflags, hfields⟩ := List.append_inj hfields (hslice 5 6 (by decide) rfl)
  obtain ⟨hheaderLen, hfields⟩ := List.append_inj hfields
    (hslice 6 8 (by decide) (Bytes.length_le _ _))
  obtain ⟨hchecksumLen, hfields⟩ := List.append_inj hfields
    (hslice 8 10 (by decide) (Bytes.length_le _ _))
  obtain ⟨hreserved, hfields⟩ := List.append_inj hfields (hslice 10 16 (by decide) rfl)
  obtain ⟨htotal, hfields⟩ := List.append_inj hfields
    (hslice 16 24 (by decide) (BoundedInt.length_toLeBytes _ _))
  obtain ⟨hpayload, hfields⟩ := List.append_inj hfields
    (hslice 24 32 (by decide) (BoundedInt.length_toLeBytes _ _))
  obtain ⟨huuid, hfields⟩ := List.append_inj hfields
    (hslice 32 48 (by decide) (BoundedInt.length_toBeBytes _ _))
  obtain ⟨hsemantics, hfields⟩ := List.append_inj hfields
    (hslice 48 52 (by decide) (BoundedInt.length_toLeBytes _ _))
  obtain ⟨hreserved₂, hfields⟩ := List.append_inj hfields (hslice 52 56 (by decide) rfl)
  obtain ⟨hwatermark, hfields⟩ := List.append_inj hfields
    (hslice 56 64 (by decide) (BoundedInt.length_toLeBytes _ _))
  obtain ⟨hsequence, hfields⟩ := List.append_inj hfields
    (hslice 64 72 (by decide) (BoundedInt.length_toLeBytes _ _))
  obtain ⟨hrevision, hfields⟩ := List.append_inj hfields
    (hslice 72 88 (by decide) (BoundedInt.length_toLeBytes _ _))
  obtain ⟨hpruned, hreserved₃⟩ := List.append_inj hfields
    (hslice 88 96 (by decide) (BoundedInt.length_toLeBytes _ _))
  exact ⟨hmagic, hversion, hflags, hheaderLen, hchecksumLen, htotal, hpayload, huuid, hsemantics,
    hwatermark, hsequence, hrevision, hpruned, by rw [hreserved, hreserved₂, hreserved₃]⟩

/-- The header of a file that was written is accepted. -/
theorem checkHeader_written {total payload : U64} {file : SnapshotFile} {bytes : List UInt8}
    {limits : SnapshotLimits} (h : HeaderFields total payload file bytes)
    (hlength : bytes.length = total.val.toNat) (hheader : headerLen ≤ bytes.length)
    (htotal : totalLenOf payload.val.toNat = some total) (hlimit : total ≤ limits.maxTotalBytes) :
    checkHeader bytes limits file.databaseUuid file.semanticsVersion file.walWatermark = .ok () := by
  have hlengths : checkLengths bytes limits = .ok () := by
    unfold checkLengths
    rw [h.totalLen, h.payloadLen, BoundedInt.ofLeBytes_toLeBytes U64.width,
      BoundedInt.ofLeBytes_toLeBytes U64.width]
    simp only [Except.bind_eq_ok, Except.ensure_eq_ok, Except.elim_eq_ok]
    exact ⟨⟨⟩, hlimit, total, htotal, ⟨⟩, rfl, hlength⟩
  have hbound : bytes.length ≤ limits.maxTotalBytes.val.toNat := by
    have hle : total.val ≤ limits.maxTotalBytes.val := hlimit
    omega
  unfold checkHeader
  simp only [Except.bind_eq_ok, Except.ensure_eq_ok]
  rw [h.magic, h.version, h.flags, h.headerLen, h.checksumLen, h.databaseUuid, h.semanticsVersion,
    h.walWatermark, h.reserved, BoundedInt.ofBeBytes_toBeBytes U128.width,
    BoundedInt.ofLeBytes_toLeBytes U32.width, BoundedInt.ofLeBytes_toLeBytes U64.width]
  exact ⟨⟨⟩, hbound, ⟨⟩, hheader, ⟨⟩, rfl, ⟨⟩, rfl, ⟨⟩, rfl, ⟨⟩, by decide, ⟨⟩, by decide, ⟨⟩,
    by decide, ⟨⟩, hlengths, ⟨⟩, rfl, ⟨⟩, rfl, rfl⟩

/-! ## Files that were written -/

variable {blake3 : List UInt8 → CommandHash}

/-- A file that was written is accepted if its payload is read back and its state can be
restored. -/
theorem decode_encode {file : SnapshotFile} {limits : SnapshotLimits} {bytes payload : List UInt8}
    {engine : Engine} (hencode : encode blake3 file limits = .ok bytes)
    (hwritten : (Writer.engineSnapshot file.engine).written = .ok payload)
    (hread : SnapshotReader.payload limits payload =
      .ok (SnapshotReader.capturedPayload file.engine, []))
    (hrestore : restoreSnapshotUnindexed file.engine = .ok engine) :
    decode blake3 bytes limits file.databaseUuid file.semanticsVersion file.walWatermark =
      .ok ⟨file.walWatermark, engine⟩ := by
  obtain ⟨hvalid, -, -, -, -, -, -, -, -, payload', payloadLen, totalLen, hwritten', hpayloadLen,
    htotal, hlimit, rfl⟩ := encode_eq_ok.mp hencode
  obtain rfl := Except.ok.inj (hwritten.symm.trans hwritten')
  have hfields := headerFields_header totalLen payloadLen file
    (payload ++ (blake3 (header totalLen payloadLen file ++ payload)).bytes)
  have hdigest : (blake3 (header totalLen payloadLen file ++ payload)).bytes.length = checksumLen :=
    (blake3 _).length_bytes
  have hheader := length_header totalLen payloadLen file
  have hbody : (header totalLen payloadLen file ++ payload).length = headerLen + payload.length := by
    rw [List.length_append, hheader]
  rw [← List.append_assoc] at hfields
  have htotal' : (headerLen + payload.length + checksumLen : ℤ) = totalLen.val :=
    BoundedInt.ofInt?_eq_some.mp htotal
  have hpayloadNat : payloadLen.val.toNat = payload.length := by omega
  generalize hfile : header totalLen payloadLen file ++ payload ++
    (blake3 (header totalLen payloadLen file ++ payload)).bytes = bytes at hfields hencode ⊢
  have hlength : bytes.length = headerLen + payload.length + checksumLen := by
    rw [← hfile, List.length_append, hbody, hdigest]
  have hstart : bytes.length - checksumLen = (header totalLen payloadLen file ++ payload).length := by
    rw [hlength, hbody, Nat.add_sub_cancel]
  have htake : bytes.take (bytes.length - checksumLen) =
      header totalLen payloadLen file ++ payload := by
    rw [hstart, ← hfile, List.take_left]
  have hdrop : bytes.drop (bytes.length - checksumLen) =
      (blake3 (header totalLen payloadLen file ++ payload)).bytes := by
    rw [hstart, ← hfile, List.drop_left]
  have hslice : Bytes.slice bytes headerLen (bytes.length - checksumLen) = payload := by
    rw [← hfile, List.append_assoc]
    apply Bytes.slice_field hheader
    rw [← List.append_assoc, hfile, hstart, hbody, Nat.add_sub_cancel_left]
  have hchecked : checkHeader bytes limits file.databaseUuid file.semanticsVersion
      file.walWatermark = .ok () := by
    apply checkHeader_written hfields
    · omega
    · omega
    · rw [hpayloadNat]
      exact htotal
    · exact hlimit
  unfold decode
  simp only [Except.bind_eq_ok, Except.ensure_eq_ok, Except.mapError_eq_ok]
  rw [htake, hdrop, hslice, hfields.sequence, hfields.revision, hfields.pruned,
    BoundedInt.ofLeBytes_toLeBytes U64.width, BoundedInt.ofLeBytes_toLeBytes U64.width,
    BoundedInt.ofLeBytes_toLeBytes U128.width]
  exact ⟨⟨⟩, hvalid, ⟨⟩, hchecked, ⟨⟩, rfl, _, hread, ⟨⟩, rfl, engine, hrestore, rfl⟩

/-! ## Snapshots of reachable engines -/

/-- The entries of the snapshot of an engine in order are valid. -/
theorem entriesValid_capture {e : Engine} (h : e.state.Sound) :
    SnapshotReader.EntriesValid (captureSnapshot e) := by
  refine ⟨?_, h.references.events, ?_⟩
  · intro p hp
    obtain ⟨id, hlookup⟩ := OrderedMap.mem_vals.mp hp
    exact h.references.histories id p hlookup
  · intro record hrecord
    obtain ⟨entry, hentry, rfl⟩ := List.mem_map.mp hrecord
    exact (h.records entry.1 entry.2 (OrderedMap.mem_toList.mp hentry)).1

/-- What the encoder has checked. -/
theorem countsWithin_of_encode {file : SnapshotFile} {limits : SnapshotLimits}
    {bytes : List UInt8} (h : encode blake3 file limits = .ok bytes) :
    SnapshotReader.CountsWithin limits file.engine := by
  obtain ⟨-, hpools, hpromises, hevents, hrecords, hcheckPools, hbundles, haffected, -⟩ :=
    encode_eq_ok.mp h
  refine ⟨hpools, hpromises, hevents, hrecords, ?_, hbundles, haffected⟩
  intro pool hpool
  obtain ⟨⟨⟩, -, hcheck⟩ := Except.bind_eq_ok.mp (hcheckPools pool hpool)
  obtain ⟨⟨⟩, -, hcurve⟩ := Except.bind_eq_ok.mp hcheck
  exact Except.ensure_eq_ok.mp hcurve

/-- The snapshot of a reachable engine that was written is read back, and gives the engine back
without its timelines, exactly if its strings and its cached responses are within the bounds of
the decoder. -/
theorem read_back_iff {e : Engine} (h : Reachable blake3 e) {limits : SnapshotLimits}
    {uuid : U128} {semantics : U32} {watermark : U64} {bytes : List UInt8}
    (hencode : encode blake3 ⟨uuid, semantics, watermark, captureSnapshot e⟩ limits = .ok bytes) :
    (∃ decoded, decode blake3 bytes limits uuid semantics watermark = .ok decoded ∧
      decoded.walWatermark = watermark ∧ decoded.engine = e.unindexed) ↔
      SnapshotReadable limits (captureSnapshot e) := by
  constructor
  · rintro ⟨decoded, hdecode, -, hengine⟩
    obtain ⟨-, -, -, -, payload, -, -, -, hpayload, hpools, hpromises, hevents, hrecords, -⟩ :=
      decode_eq_ok hdecode
    have hcapture : captureSnapshot decoded.engine = captureSnapshot e := by
      rw [hengine]
      rfl
    have hsame : payload = SnapshotReader.capturedPayload (captureSnapshot e) := by
      rw [← hcapture, SnapshotReader.capturedPayload, hpools, hpromises, hevents, hrecords]
    rw [hsame] at hpayload
    exact SnapshotReader.payload_readable hpayload
  · intro hreadable
    obtain ⟨payload, hwrites, hread⟩ := SnapshotReader.payload_written
      (countsWithin_of_encode hencode) (entriesValid_capture h.sound) hreadable
    have hdecode := decode_encode hencode hwrites.written hread (restore_capture h.sound)
    exact ⟨⟨watermark, e.unindexed⟩, hdecode, rfl, rfl⟩

/-! ## A name that is longer than the collections -/

/-- Limits with strings of up to a hundred bytes and collections of a single element. -/
def tightLimits : SnapshotLimits :=
  ⟨Engine.sampleQuantity 999, sampleU32 1, sampleU32 100, sampleU32 1⟩

/-- The snapshot of an engine with one pool is written, but not accepted. -/
theorem tightSnapshot_rejected :
    ∃ bytes, encode sampleHash ⟨sampleU128 7, sampleU32 1, Engine.sampleQuantity 1,
        captureSnapshot sampleBefore⟩ tightLimits = .ok bytes ∧
      decode sampleHash bytes tightLimits (sampleU128 7) (sampleU32 1) (Engine.sampleQuantity 1) =
        .error (.malformedPayload (.invalidLength "display name" 5)) := by
  have hrejected : (encode sampleHash ⟨sampleU128 7, sampleU32 1, Engine.sampleQuantity 1,
      captureSnapshot sampleBefore⟩ tightLimits).toOption.map (fun bytes =>
        (decode sampleHash bytes tightLimits (sampleU128 7) (sampleU32 1)
          (Engine.sampleQuantity 1)).map fun _ => ()) =
      some (.error (.malformedPayload (.invalidLength "display name" 5))) := by
    decide +kernel
  obtain ⟨bytes, hbytes, hdecoded⟩ := Option.map_eq_some_iff.mp hrejected
  refine ⟨bytes, Except.toOption_eq_some.mp hbytes, ?_⟩
  generalize decode sampleHash bytes tightLimits (sampleU128 7) (sampleU32 1)
    (Engine.sampleQuantity 1) = r at hdecoded
  cases r with
  | error e => exact congrArg Except.error (Except.error.inj hdecoded)
  | ok decoded => cases hdecoded

/-- A reachable engine whose snapshot is written and then refused. -/
theorem read_back_fails :
    ∃ bytes, Reachable sampleHash sampleBefore ∧
      encode sampleHash ⟨sampleU128 7, sampleU32 1, Engine.sampleQuantity 1,
        captureSnapshot sampleBefore⟩ tightLimits = .ok bytes ∧
      ¬∃ decoded, decode sampleHash bytes tightLimits (sampleU128 7) (sampleU32 1)
        (Engine.sampleQuantity 1) = .ok decoded := by
  obtain ⟨bytes, hencode, hdecode⟩ := tightSnapshot_rejected
  refine ⟨bytes, ReachableBy.empty.apply trivial, hencode, ?_⟩
  rintro ⟨decoded, hdecoded⟩
  rw [hdecode] at hdecoded
  cases hdecoded

/-- The name of the pool is not within the bounds of the decoder. -/
theorem read_back_iff_sample : ¬SnapshotReadable tightLimits (captureSnapshot sampleBefore) := by
  obtain ⟨bytes, hencode, hdecode⟩ := tightSnapshot_rejected
  have hreachable : Reachable sampleHash sampleBefore := ReachableBy.empty.apply trivial
  rw [← read_back_iff hreachable hencode]
  rintro ⟨decoded, hdecoded, -⟩
  rw [hdecode] at hdecoded
  cases hdecoded

end Snapshot

end PromiseDb
