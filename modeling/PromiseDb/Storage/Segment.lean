import PromiseDb.Storage.Record

/-!
# Segment headers

The log is kept in segments.  A segment starts with a header of 64 bytes: the magic number, the format
version, flags, its own length, the identity of the database, the sequence of the first record, zero
bytes, and the first sixteen bytes of the digest of everything before them.  Records follow.
-/

namespace PromiseDb

/-- Why a segment header is not accepted. -/
inductive SegmentHeaderError
  | truncated (expected actual : Nat)
  | invalidMagic (magic : List UInt8)
  | unsupportedVersion (version : UInt8)
  | unsupportedFlags (flags : UInt8)
  | invalidHeaderLength (length : Nat)
  | databaseUuidMismatch (expected actual : U128)
  | invalidFirstSequence (sequence : U64)
  | nonZeroReserved
  | checksumMismatch
  deriving DecidableEq

namespace Segment

/-- The number in the first four bytes of every segment. -/
def magic : List UInt8 := [80, 68, 66, 83]

/-- The length of a segment header. -/
def headerLen : Nat := 64

/-- The length of the checksum of a segment header. -/
def checksumLen : Nat := 16

/-- The fields of a segment header before its checksum. -/
def headerFields (databaseUuid : U128) (firstSequence : RecordSequence) : List UInt8 :=
  magic ++ ([1] ++ ([0] ++ (Bytes.le 2 headerLen ++ (databaseUuid.toBeBytes 16 ++
    (firstSequence.get.toLeBytes 8 ++ List.replicate 16 0)))))

section Hashing

variable (blake3 : List UInt8 → CommandHash)

/-- The header of a segment. -/
def header (databaseUuid : U128) (firstSequence : RecordSequence) : List UInt8 :=
  headerFields databaseUuid firstSequence ++
    (blake3 (headerFields databaseUuid firstSequence)).bytes.take checksumLen

/-- Validates the header of a segment and reads the sequence of its first record. -/
def readHeader (content : List UInt8) (databaseUuid : U128) :
    Except SegmentHeaderError RecordSequence := do
  Except.ensure (headerLen ≤ content.length) (.truncated headerLen content.length)
  let bytes := content.take headerLen
  let storedMagic := Bytes.slice bytes 0 4
  Except.ensure (storedMagic = magic) (.invalidMagic storedMagic)
  let version := (Bytes.slice bytes 4 5).headD 0
  Except.ensure (version = 1) (.unsupportedVersion version)
  let flags := (Bytes.slice bytes 5 6).headD 0
  Except.ensure (flags = 0) (.unsupportedFlags flags)
  let length := Bytes.ofLe (Bytes.slice bytes 6 8)
  Except.ensure (length = headerLen) (.invalidHeaderLength length)
  Except.ensure ((Bytes.slice bytes 32 48).all fun byte => decide (byte = 0)) .nonZeroReserved
  Except.ensure (Bytes.slice bytes 48 64 = (blake3 (bytes.take 48)).bytes.take checksumLen)
    .checksumMismatch
  let actual : U128 := BoundedInt.ofBeBytes U128.width (Bytes.slice bytes 8 24)
  Except.ensure (actual = databaseUuid) (.databaseUuidMismatch databaseUuid actual)
  let sequence : U64 := BoundedInt.ofLeBytes U64.width (Bytes.slice bytes 24 32)
  (RecordSequence.new sequence).elim (.error (.invalidFirstSequence sequence)) .ok

end Hashing

variable {blake3 : List UInt8 → CommandHash}

/-- The fields of a segment header take up 48 bytes. -/
theorem length_headerFields (databaseUuid : U128) (firstSequence : RecordSequence) :
    (headerFields databaseUuid firstSequence).length = 48 := by
  simp [headerFields, magic]

/-- A header has its fixed length. -/
theorem length_header (databaseUuid : U128) (firstSequence : RecordSequence) :
    (header blake3 databaseUuid firstSequence).length = headerLen := by
  rw [header, List.length_append, length_headerFields, List.length_take, CommandHash.length_bytes]
  rfl

/-- Every field of a header is at its place. -/
theorem slices_header (databaseUuid : U128) (firstSequence : RecordSequence)
    {checksum : List UInt8} (h : checksum.length = 16) :
    Bytes.slice (headerFields databaseUuid firstSequence ++ checksum) 0 4 = magic ∧
    Bytes.slice (headerFields databaseUuid firstSequence ++ checksum) 4 5 = [1] ∧
    Bytes.slice (headerFields databaseUuid firstSequence ++ checksum) 5 6 = [0] ∧
    Bytes.slice (headerFields databaseUuid firstSequence ++ checksum) 6 8 = Bytes.le 2 headerLen ∧
    Bytes.slice (headerFields databaseUuid firstSequence ++ checksum) 8 24 =
      databaseUuid.toBeBytes 16 ∧
    Bytes.slice (headerFields databaseUuid firstSequence ++ checksum) 24 32 =
      firstSequence.get.toLeBytes 8 ∧
    Bytes.slice (headerFields databaseUuid firstSequence ++ checksum) 32 48 =
      List.replicate 16 0 ∧
    Bytes.slice (headerFields databaseUuid firstSequence ++ checksum) 48 64 = checksum := by
  simp (disch := simp [headerLen]) [headerFields, Bytes.slice, magic, List.drop_append,
    List.take_append, List.drop_of_length_le, h]

/-- The header of a segment is accepted, whatever follows it. -/
theorem readHeader_header (databaseUuid : U128) (firstSequence : RecordSequence)
    (body : List UInt8) :
    readHeader blake3 (header blake3 databaseUuid firstSequence ++ body) databaseUuid =
      .ok firstSequence := by
  have hlength := @length_header blake3 databaseUuid firstSequence
  have htake : (header blake3 databaseUuid firstSequence ++ body).take headerLen =
      header blake3 databaseUuid firstSequence := by
    rw [← hlength, List.take_left]
  have hlong : headerLen ≤ (header blake3 databaseUuid firstSequence ++ body).length := by
    rw [List.length_append, hlength]
    exact Nat.le_add_right _ _
  have hchecksum : ((blake3 (headerFields databaseUuid firstSequence)).bytes.take
      checksumLen).length = 16 := by
    rw [List.length_take, CommandHash.length_bytes]
    rfl
  have hfields : (header blake3 databaseUuid firstSequence).take 48 =
      headerFields databaseUuid firstSequence := by
    rw [header, ← length_headerFields databaseUuid firstSequence, List.take_left]
  obtain ⟨hmagic, hversion, hflags, hlen, huuid, hsequence, hreserved, hstored⟩ :=
    slices_header databaseUuid firstSequence hchecksum
  unfold readHeader
  simp only [Except.bind_eq_ok, Except.ensure_eq_ok, Except.elim_eq_ok, htake, hfields]
  rw [header, hmagic, hversion, hflags, hlen, huuid, hsequence, hreserved, hstored,
    BoundedInt.ofBeBytes_toBeBytes U128.width, BoundedInt.ofLeBytes_toLeBytes U64.width]
  exact ⟨⟨⟩, hlong, ⟨⟩, rfl, ⟨⟩, rfl, ⟨⟩, rfl, ⟨⟩, by decide, ⟨⟩, by decide, ⟨⟩, rfl, ⟨⟩, rfl,
    RecordSequence.new_eq_some.mpr rfl⟩

end Segment

end PromiseDb
