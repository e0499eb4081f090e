import PromiseDb.Storage.FileDatabase
import PromiseDb.Storage.RecordStream

/-!
# Manifests and segment headers

A manifest is kept in 96 bytes: the magic number, the format version, a zero byte, the length, the
identity of the database, the limits with the version of the state machine between them, zero bytes,
and the digest of everything before it.  Like a segment header it is accepted only in the form in
which it is written.
-/

namespace PromiseDb

/-- Why a manifest is not accepted. -/
inductive ManifestError
  | invalidLength (length : Nat)
  | invalidMagic (magic : List UInt8)
  | unsupportedVersion (version : UInt8)
  | invalidHeaderLength (length : Nat)
  | nonZeroReserved
  | invalidDatabaseUuid
  | unsupportedSemanticsVersion (version : U32)
  | checksumMismatch
  | invalidRecordLimit (limit : U32)
  | invalidSnapshotLimits
  deriving DecidableEq

namespace Manifest

/-- The number in the first four bytes of every manifest. -/
def magic : List UInt8 := [80, 68, 66, 77]

/-- The length of a manifest. -/
def len : Nat := 96

/-- The fields of a manifest before its checksum. -/
def fields (manifest : Manifest) : List UInt8 :=
  magic ++ ([2] ++ ([0] ++ (Bytes.le 2 len ++ (manifest.databaseUuid.toBeBytes 16 ++
    (manifest.recordLimits.maxRecordLen.toLeBytes 4 ++ (stateMachineSemanticsVersion.toLeBytes 4 ++
      (manifest.snapshotLimits.maxTotalBytes.toLeBytes 8 ++
        (manifest.snapshotLimits.maxCollectionItems.toLeBytes 4 ++
          (manifest.snapshotLimits.maxStringBytes.toLeBytes 4 ++
            (manifest.snapshotLimits.maxNestedItems.toLeBytes 4 ++ List.replicate 12 0))))))))))

section Hashing

variable (blake3 : List UInt8 → CommandHash)

/-- The bytes of a manifest. -/
def bytes (manifest : Manifest) : List UInt8 := manifest.fields ++ (blake3 manifest.fields).bytes

-- the version number of an identity, which another library computes
variable (getVersionNum : U128 → Nat)

/-- Validates the bytes of a manifest. -/
def read (bytes : List UInt8) : Except ManifestError Manifest := do
  Except.ensure (bytes.length = len) (.invalidLength bytes.length)
  let storedMagic := Bytes.slice bytes 0 4
  Except.ensure (storedMagic = magic) (.invalidMagic storedMagic)
  let version := (Bytes.slice bytes 4 5).headD 0
  Except.ensure (version = 2) (.unsupportedVersion version)
  let headerLength := Bytes.ofLe (Bytes.slice bytes 6 8)
  Except.ensure (headerLength = len) (.invalidHeaderLength headerLength)
  Except.ensure ((Bytes.slice bytes 5 6).headD 0 = 0 ∧
    (Bytes.slice bytes 52 64).all fun byte => decide (byte = 0)) .nonZeroReserved
  Except.ensure (Bytes.slice bytes 64 96 = (blake3 (bytes.take 64)).bytes) .checksumMismatch
  let uuid : U128 := BoundedInt.ofBeBytes U128.width (Bytes.slice bytes 8 24)
  Except.ensure (uuid.val ≠ 0 ∧ getVersionNum uuid = 4) .invalidDatabaseUuid
  let semantics : U32 := BoundedInt.ofLeBytes U32.width (Bytes.slice bytes 28 32)
  Except.ensure (semantics = stateMachineSemanticsVersion) (.unsupportedSemanticsVersion semantics)
  let maxRecordLen : U32 := BoundedInt.ofLeBytes U32.width (Bytes.slice bytes 24 28)
  let recordLimits ← (RecordLimits.new maxRecordLen).mapError fun _ =>
    .invalidRecordLimit maxRecordLen
  let snapshotLimits : SnapshotLimits :=
    { maxTotalBytes := BoundedInt.ofLeBytes U64.width (Bytes.slice bytes 32 40)
      maxCollectionItems := BoundedInt.ofLeBytes U32.width (Bytes.slice bytes 40 44)
      maxStringBytes := BoundedInt.ofLeBytes U32.width (Bytes.slice bytes 44 48)
      maxNestedItems := BoundedInt.ofLeBytes U32.width (Bytes.slice bytes 48 52) }
  snapshotLimits.validate.mapError fun _ => .invalidSnapshotLimits
  return ⟨uuid, recordLimits, snapshotLimits⟩

end Hashing

/-- A manifest that a database may have. -/
structure Valid (getVersionNum : U128 → Nat) (manifest : Manifest) : Prop where
  uuid : manifest.databaseUuid.val ≠ 0 ∧ getVersionNum manifest.databaseUuid = 4
  limits : manifest.snapshotLimits.validate = .ok ⟨⟩

variable {blake3 : List UInt8 → CommandHash}

/-! ## Places of fields -/

/-- The fields of a manifest take up 64 bytes. -/
theorem length_fields (manifest : Manifest) : manifest.fields.length = 64 := by
  simp [fields, magic]

/-- A manifest has its fixed length. -/
theorem length_bytes (manifest : Manifest) : (manifest.bytes blake3).length = len := by
  rw [bytes, List.length_append, length_fields, CommandHash.length_bytes]
  rfl

/-- Every field of a manifest is at its place. -/
theorem slices_bytes (manifest : Manifest) {checksum : List UInt8} (h : checksum.length = 32) :
    Bytes.slice (manifest.fields ++ checksum) 0 4 = magic ∧
    Bytes.slice (manifest.fields ++ checksum) 4 5 = [2] ∧
    Bytes.slice (manifest.fields ++ checksum) 5 6 = [0] ∧
    Bytes.slice (manifest.fields ++ checksum) 6 8 = Bytes.le 2 len ∧
    Bytes.slice (manifest.fields ++ checksum) 8 24 = manifest.databaseUuid.toBeBytes 16 ∧
    Bytes.slice (manifest.fields ++ checksum) 24 28 =
      manifest.recordLimits.maxRecordLen.toLeBytes 4 ∧
    Bytes.slice (manifest.fields ++ checksum) 28 32 = stateMachineSemanticsVersion.toLeBytes 4 ∧
    Bytes.slice (manifest.fields ++ checksum) 32 40 =
      manifest.snapshotLimits.maxTotalBytes.toLeBytes 8 ∧
    Bytes.slice (manifest.fields ++ checksum) 40 44 =
      manifest.snapshotLimits.maxCollectionItems.toLeBytes 4 ∧
    Bytes.slice (manifest.fields ++ checksum) 44 48 =
      manifest.snapshotLimits.maxStringBytes.toLeBytes 4 ∧
    Bytes.slice (manifest.fields ++ checksum) 48 52 =
      manifest.snapshotLimits.maxNestedItems.toLeBytes 4 ∧
    Bytes.slice (manifest.fields ++ checksum) 52 64 = List.replicate 12 0 ∧
    Bytes.slice (manifest.fields ++ checksum) 64 96 = checksum := by
  simp (disch := simp [len]) [fields, Bytes.slice, magic, List.drop_append, List.take_append,
    List.drop_of_length_le, h]

/-- The first bytes are made up of their fields. -/
theorem slice_fields (bytes : List UInt8) :
    Bytes.slice bytes 0 64 = Bytes.slice bytes 0 4 ++ (Bytes.slice bytes 4 5 ++
      (Bytes.slice bytes 5 6 ++ (Bytes.slice bytes 6 8 ++ (Bytes.slice bytes 8 24 ++
        (Bytes.slice bytes 24 28 ++ (Bytes.slice bytes 28 32 ++ (Bytes.slice bytes 32 40 ++
          (Bytes.slice bytes 40 44 ++ (Bytes.slice bytes 44 48 ++ (Bytes.slice bytes 48 52 ++
            Bytes.slice bytes 52 64)))))))))) := by
  rw [Bytes.slice_append_slice, Bytes.slice_append_slice, Bytes.slice_append_slice,
    Bytes.slice_append_slice, Bytes.slice_append_slice, Bytes.slice_append_slice,
    Bytes.slice_append_slice, Bytes.slice_append_slice, Bytes.slice_append_slice,
    Bytes.slice_append_slice, Bytes.slice_append_slice]
  all_goals decide

/-! ## Exactness -/

/-- A limit of records that is accepted is the one that was asked for. -/
theorem recordLimits_new_eq_ok {maxRecordLen : U32} {limits : RecordLimits} :
    RecordLimits.new maxRecordLen = .ok limits ↔ limits.maxRecordLen = maxRecordLen := by
  unfold RecordLimits.new
  constructor
  · intro h
    split at h
    · obtain rfl := Except.ok.inj h
      rfl
    · cases h
  · rintro rfl
    rw [dif_pos ⟨limits.min_le, limits.le_max, limits.aligned⟩]

/-- Bytes are read as a manifest exactly if the manifest is valid and they are its bytes. -/
theorem read_exact {getVersionNum : U128 → Nat} {bytes : List UInt8} {manifest : Manifest} :
    read blake3 getVersionNum bytes = .ok manifest ↔
      manifest.Valid getVersionNum ∧ bytes = manifest.bytes blake3 := by
  unfold read
  simp only [Except.bind_eq_ok, Except.ensure_eq_ok, Except.mapError_eq_ok, recordLimits_new_eq_ok]
  constructor
  · rintro ⟨-, hlength, -, hmagic, -, hversion, -, hlen, -, ⟨hzero, hreserved⟩, -, hchecksum, -,
      huuid, -, hsemantics, recordLimits, hrecordLimits, ⟨⟩, hlimits, hmanifest⟩
    have hsame := Except.ok.inj hmanifest
    have hslice (start stop : Nat) (h : stop ≤ 96) :
        (Bytes.slice bytes start stop).length = stop - start :=
      Bytes.length_slice (h.trans_eq hlength.symm)
    have hfront : bytes.take 64 = Bytes.slice bytes 0 64 := by
      rw [Bytes.slice, List.drop_zero]
    have hpadding : Bytes.slice bytes 52 64 = List.replicate 12 0 :=
      List.eq_replicate_iff.mpr ⟨hslice 52 64 (by decide), by simpa using hreserved⟩
    have hfields : Bytes.slice bytes 0 64 = manifest.fields := by
      rw [← hsame, fields]
      dsimp only
      rw [hrecordLimits, ← hsemantics,
        BoundedInt.toBeBytes_ofBeBytes U128.width (hslice 8 24 (by decide)),
        BoundedInt.toLeBytes_ofLeBytes U32.width (hslice 24 28 (by decide)),
        BoundedInt.toLeBytes_ofLeBytes U32.width (hslice 28 32 (by decide)),
        BoundedInt.toLeBytes_ofLeBytes U64.width (hslice 32 40 (by decide)),
        BoundedInt.toLeBytes_ofLeBytes U32.width (hslice 40 44 (by decide)),
        BoundedInt.toLeBytes_ofLeBytes U32.width (hslice 44 48 (by decide)),
        BoundedInt.toLeBytes_ofLeBytes U32.width (hslice 48 52 (by decide)), ← hmagic, ← hlen,
        ← Record.eq_singleton_of_headD (hslice 4 5 (by decide)) hversion,
        ← Record.eq_singleton_of_headD (hslice 5 6 (by decide)) hzero,
        Bytes.le_ofLe_of_length (hslice 6 8 (by decide)), ← hpadding]
      exact slice_fields bytes
    refine ⟨hsame ▸ ⟨huuid, hlimits⟩, ?_⟩
    rw [Manifest.bytes, ← hfields, ← hfront, ← hchecksum, hfront,
      Bytes.slice_append_slice bytes (by decide) (by decide)]
    exact (Bytes.slice_all (n := 96) hlength).symm
  · rintro ⟨⟨huuid, hlimits⟩, rfl⟩
    have htake : (manifest.bytes blake3).take 64 = manifest.fields := by
      rw [Manifest.bytes, ← length_fields manifest, List.take_left]
    obtain ⟨hmagic, hversion, hzero, hlen, huuidBytes, hrecordLen, hsemantics, htotal, hitems,
      hstring, hnested, hreserved, hchecksum⟩ :=
      slices_bytes manifest (CommandHash.length_bytes (blake3 manifest.fields))
    refine ⟨⟨⟩, length_bytes manifest, ?_⟩
    rw [htake, Manifest.bytes, hmagic, hversion, hzero, hlen, huuidBytes, hrecordLen, hsemantics,
      htotal, hitems, hstring, hnested, hreserved, hchecksum,
      BoundedInt.ofBeBytes_toBeBytes, BoundedInt.ofLeBytes_toLeBytes,
      BoundedInt.ofLeBytes_toLeBytes, BoundedInt.ofLeBytes_toLeBytes,
      BoundedInt.ofLeBytes_toLeBytes, BoundedInt.ofLeBytes_toLeBytes,
      BoundedInt.ofLeBytes_toLeBytes]
    exact ⟨⟨⟩, rfl, ⟨⟩, rfl, ⟨⟩, Bytes.ofLe_le_of_lt (by decide), ⟨⟩, ⟨rfl, rfl⟩, ⟨⟩, rfl, ⟨⟩,
      huuid, ⟨⟩, rfl, manifest.recordLimits, rfl, ⟨⟩, hlimits, rfl⟩

end Manifest

namespace Segment

variable {blake3 : List UInt8 → CommandHash}

/-- The fields of a segment header make up the bytes before its checksum. -/
theorem slice_headerFields (bytes : List UInt8) :
    Bytes.slice bytes 0 48 = Bytes.slice bytes 0 4 ++ (Bytes.slice bytes 4 5 ++
      (Bytes.slice bytes 5 6 ++ (Bytes.slice bytes 6 8 ++ (Bytes.slice bytes 8 24 ++
        (Bytes.slice bytes 24 32 ++ Bytes.slice bytes 32 48))))) := by
  rw [Bytes.slice_append_slice, Bytes.slice_append_slice, Bytes.slice_append_slice,
    Bytes.slice_append_slice, Bytes.slice_append_slice, Bytes.slice_append_slice]
  all_goals decide

/-- A segment is accepted exactly if it starts with the header of the database and the sequence. -/
theorem readHeader_exact {content : List UInt8} {databaseUuid : U128}
    {firstSequence : RecordSequence} :
    readHeader blake3 content databaseUuid = .ok firstSequence ↔
      header blake3 databaseUuid firstSequence <+: content := by
  constructor
  · intro h
    unfold readHeader at h
    simp only [Except.bind_eq_ok, Except.ensure_eq_ok, Except.elim_eq_ok,
      RecordSequence.new_eq_some] at h
    obtain ⟨-, hlong, -, hmagic, -, hversion, -, hflags, -, hlen, -, hreserved, -, hchecksum, -,
      huuid, hsequence⟩ := h
    have hlength : (content.take headerLen).length = 64 := List.length_take_of_le hlong
    generalize hbytes : content.take headerLen = bytes at *
    have hslice (start stop : Nat) (h : stop ≤ 64) :
        (Bytes.slice bytes start stop).length = stop - start :=
      Bytes.length_slice (h.trans_eq hlength.symm)
    have hfront : bytes.take 48 = Bytes.slice bytes 0 48 := by
      rw [Bytes.slice, List.drop_zero]
    have hpadding : Bytes.slice bytes 32 48 = List.replicate 16 0 :=
      List.eq_replicate_iff.mpr ⟨hslice 32 48 (by decide), by simpa using hreserved⟩
    have hfields : Bytes.slice bytes 0 48 = headerFields databaseUuid firstSequence := by
      rw [headerFields, ← huuid, ← hsequence,
        BoundedInt.toBeBytes_ofBeBytes U128.width (hslice 8 24 (by decide)),
        BoundedInt.toLeBytes_ofLeBytes U64.width (hslice 24 32 (by decide)), ← hmagic, ← hlen,
        ← Record.eq_singleton_of_headD (hslice 4 5 (by decide)) hversion,
        ← Record.eq_singleton_of_headD (hslice 5 6 (by decide)) hflags,
        Bytes.le_ofLe_of_length (hslice 6 8 (by decide)), ← hpadding]
      exact slice_headerFields bytes
    have hheader : bytes = header blake3 databaseUuid firstSequence := by
      rw [header, ← hfields, ← hfront, ← hchecksum, hfront,
        Bytes.slice_append_slice _ (by decide) (by decide)]
      exact (Bytes.slice_all (n := 64) hlength).symm
    rw [← hheader, ← hbytes]
    exact List.take_prefix _ _
  · rintro ⟨body, rfl⟩
    exact readHeader_header databaseUuid firstSequence body

end Segment

end PromiseDb
