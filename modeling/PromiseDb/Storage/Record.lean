import PromiseDb.Engine.Idempotency
import PromiseDb.Storage.Format

/-!
# Log records

A log record is a header of 32 bytes, an opaque payload, zero padding up to a multiple of eight
bytes, and the first sixteen bytes of the BLAKE3 digest of everything before them.  The header
holds the magic number, the format version, flags, its own length, the lengths of the record and
of the payload, the sequence of the record and its timestamp, all little-endian.  The digest
function is a parameter.

A reader takes one record after another from a stream and never resynchronizes: an empty rest is
a clean end, a shorter rest than the record needs is a partial tail, and everything else that is
not the next record is corrupt.
-/

namespace PromiseDb

/-! ## Records -/

namespace Record

/-- The number in the first four bytes of every record. -/
def magic : List UInt8 := [80, 68, 66, 87]

/-- The length of a record header. -/
def headerLen : Nat := 32

/-- The length of a record checksum. -/
def checksumLen : Nat := 16

/-- The least record length is in range. -/
theorem minRecordLen_range : (0 : ℤ) ≤ 48 ∧ (48 : ℤ) ≤ 4294967295 := by decide

/-- The greatest record length of the format is in range. -/
theorem formatMaxRecordLen_range : (0 : ℤ) ≤ 4294967288 ∧ (4294967288 : ℤ) ≤ 4294967295 := by decide

/-- The default of the greatest record length is in range. -/
theorem defaultMaxRecordLen_range : (0 : ℤ) ≤ 67108864 ∧ (67108864 : ℤ) ≤ 4294967295 := by decide

/-- The length of the smallest record. -/
def minRecordLen : U32 := ⟨48, minRecordLen_range⟩

/-- The largest multiple of eight that a length field holds. -/
def formatMaxRecordLen : U32 := ⟨4294967288, formatMaxRecordLen_range⟩

end Record

/-- A position in the order of records, starting at one. -/
structure RecordSequence where
  /-- The numeric representation. -/
  get : U64
  /-- Record sequences are not zero. -/
  get_ne_zero : get.val ≠ 0

namespace RecordSequence

/-- The sequence of the first record. -/
def first : RecordSequence := ⟨⟨1, U64.one_range⟩, U64.one_ne_zero⟩

/-- Creates a record sequence from a non-zero number. -/
def new (value : U64) : Option RecordSequence :=
  if h : value.val = 0 then none else some ⟨value, h⟩

/-- The following record sequence, if there is one. -/
def next (s : RecordSequence) : Option RecordSequence :=
  (s.get.checkedAdd ⟨1, U64.one_range⟩).bind new

/-- Record sequences are equal when their numbers are. -/
@[ext] theorem ext {s t : RecordSequence} (h : s.get.val = t.get.val) : s = t := by
  obtain ⟨s, hs⟩ := s
  obtain ⟨t, ht⟩ := t
  obtain rfl : s = t := Subtype.ext h
  rfl

/-- A record sequence is determined by its number. -/
theorem val_eq_val {s t : RecordSequence} : s.get.val = t.get.val ↔ s = t :=
  ⟨ext, fun h => by rw [h]⟩

instance (s t : RecordSequence) : Decidable (s = t) :=
  decidable_of_iff (s.get.val = t.get.val) val_eq_val

/-- A record sequence that is made has the number it is made from. -/
theorem new_eq_some {value : U64} {s : RecordSequence} : new value = some s ↔ value = s.get := by
  unfold new
  split
  · rename_i hzero
    simp only [reduceCtorEq, false_iff]
    rintro rfl
    exact s.get_ne_zero hzero
  · obtain ⟨get, hget⟩ := s
    simp only [Option.some.injEq, mk.injEq]

/-- The next sequence is one larger. -/
theorem next_eq_some {s t : RecordSequence} : s.next = some t ↔ s.get.val + 1 = t.get.val := by
  rw [next, Option.bind_eq_some_iff]
  constructor
  · rintro ⟨value, hvalue, hnew⟩
    rw [← new_eq_some.mp hnew]
    exact BoundedInt.checkedAdd_eq_some.mp hvalue
  · intro h
    exact ⟨t.get, BoundedInt.checkedAdd_eq_some.mpr h, new_eq_some.mpr rfl⟩

end RecordSequence

open Record

/-- The bound on the length of a record. -/
structure RecordLimits where
  /-- The largest accepted length. -/
  maxRecordLen : U32
  /-- The smallest record is accepted. -/
  min_le : minRecordLen ≤ maxRecordLen
  /-- The format can express the bound. -/
  le_max : maxRecordLen ≤ formatMaxRecordLen
  /-- Records have lengths divisible by eight. -/
  aligned : maxRecordLen.val % 8 = 0
  deriving DecidableEq

namespace RecordLimits

/-- Creates a bound, which the smallest record meets and the format can express. -/
def new (maxRecordLen : U32) : Except StorageError RecordLimits :=
  if h : minRecordLen ≤ maxRecordLen ∧ maxRecordLen ≤ formatMaxRecordLen ∧
      maxRecordLen.val % 8 = 0 then
    .ok ⟨maxRecordLen, h.1, h.2.1, h.2.2⟩
  else .error (.invalidRecordLimit maxRecordLen.val.toNat)

/-- The default of the greatest record length passes its own check. -/
theorem default_valid : minRecordLen ≤ (⟨67108864, defaultMaxRecordLen_range⟩ : U32) ∧
    (⟨67108864, defaultMaxRecordLen_range⟩ : U32) ≤ formatMaxRecordLen ∧
    (67108864 : ℤ) % 8 = 0 := by decide

/-- Records of at most 64 MiB. -/
def default : RecordLimits :=
  ⟨⟨67108864, defaultMaxRecordLen_range⟩, default_valid.1, default_valid.2.1, default_valid.2.2⟩

end RecordLimits

/-- The content of a record. -/
structure Record where
  recordSequence : RecordSequence
  timestamp : Timestamp
  payload : List UInt8
  deriving DecidableEq

/-! ## Encoding -/

namespace Record

/-- The number of zero bytes behind a payload. -/
def paddingLen (payloadLen : U32) : Nat := (8 - payloadLen.val.toNat % 8) % 8

/-- The length of a record, if a length field holds it. -/
def recordLenOf (payloadLen : U32) : Option U32 :=
  (minRecordLen.checkedAdd payloadLen).bind fun length =>
    BoundedInt.ofInt? (length.val + paddingLen payloadLen)

/-- The header of a record. -/
def header (recordLen payloadLen : U32) (recordSequence : RecordSequence)
    (timestamp : Timestamp) : List UInt8 :=
  magic ++ ([1] ++ ([0] ++ (Bytes.le 2 headerLen ++ (recordLen.toLeBytes 4 ++
    (payloadLen.toLeBytes 4 ++ (recordSequence.get.toLeBytes 8 ++ timestamp.toLeBytes 8))))))

section Hashing

variable (blake3 : List UInt8 → CommandHash)

/-- The checksum of the bytes of a record before it. -/
def checksum (bytes : List UInt8) : List UInt8 := (blake3 bytes).bytes.take checksumLen

/-- The bytes of a record, whose payload may fail to be written. -/
def framePayload (recordSequence : RecordSequence) (timestamp : Timestamp) (limits : RecordLimits)
    (writePayload : Except StorageError (List UInt8)) : Except StorageError (List UInt8) := do
  let payload ← writePayload
  let payloadLen ← (BoundedInt.ofInt? (payload.length : ℤ) : Option U32).elim
    (.error (.invalidLength "record payload" payload.length)) .ok
  let recordLen ← ((recordLenOf payloadLen).filter fun length =>
      decide (length ≤ formatMaxRecordLen)).elim
    (.error (.invalidLength "WAL record" (payload.length + 48))) .ok
  Except.ensure (recordLen ≤ limits.maxRecordLen)
    (.recordTooLarge 0 recordLen.val.toNat limits.maxRecordLen.val.toNat)
  let body := header recordLen payloadLen recordSequence timestamp ++
    (payload ++ List.replicate (paddingLen payloadLen) 0)
  .ok (body ++ checksum blake3 body)

/-- Frames a payload behind the bytes of a destination, which a failure leaves as they were. -/
def encodePayloadInto (recordSequence : RecordSequence) (timestamp : Timestamp)
    (limits : RecordLimits) (writePayload : Except StorageError (List UInt8)) :
    EStateM StorageError (List UInt8) PUnit := fun destination =>
  match framePayload blake3 recordSequence timestamp limits writePayload with
  | .ok bytes => .ok ⟨⟩ (destination ++ bytes)
  | .error e => .error e destination

/-- Encodes a record. -/
def encode (record : Record) (limits : RecordLimits) : Except StorageError (List UInt8) :=
  framePayload blake3 record.recordSequence record.timestamp limits (.ok record.payload)

/-! ## Reading -/

/-- The fields of a header. -/
structure ParsedHeader where
  recordLen : U32
  payloadLen : U32
  sequence : RecordSequence
  timestamp : Timestamp
  deriving DecidableEq

/-- A corrupt record at an offset. -/
def corrupt (offset : Nat) (reason : RecordCorruption) : StorageError :=
  .corruptWalRecord offset reason

/-- The sequence of a record must be the expected one. -/
def checkSequence (offset : Nat) (sequence : RecordSequence) :
    Option RecordSequence → Except StorageError PUnit
  | some expected => Except.ensure (sequence = expected)
      (corrupt offset (.sequenceMismatch expected.get.val.toNat sequence.get.val.toNat))
  | none => .error (corrupt offset .sequenceOverflow)

/-- Validates the fields of a header one after the other. -/
def parseHeader (header : List UInt8) (offset : Nat) (limits : RecordLimits)
    (expectedSequence : Option RecordSequence) : Except StorageError ParsedHeader := do
  let storedMagic := Bytes.slice header 0 4
  Except.ensure (storedMagic = magic) (corrupt offset (.invalidMagic storedMagic))
  let version := (Bytes.slice header 4 5).headD 0
  Except.ensure (version = 1) (.unsupportedRecordVersion offset version)
  let flags := (Bytes.slice header 5 6).headD 0
  Except.ensure (flags = 0) (corrupt offset (.unsupportedFlags flags))
  let storedLen := Bytes.ofLe (Bytes.slice header 6 8)
  Except.ensure (storedLen = headerLen) (corrupt offset (.invalidHeaderLength storedLen))
  let recordLen : U32 := BoundedInt.ofLeBytes U32.width (Bytes.slice header 8 12)
  Except.ensure (minRecordLen ≤ recordLen ∧ recordLen ≤ formatMaxRecordLen ∧ recordLen.val % 8 = 0)
    (corrupt offset (.invalidRecordLength recordLen.val.toNat))
  Except.ensure (recordLen ≤ limits.maxRecordLen)
    (.recordTooLarge offset recordLen.val.toNat limits.maxRecordLen.val.toNat)
  let payloadLen : U32 := BoundedInt.ofLeBytes U32.width (Bytes.slice header 12 16)
  Except.ensure (recordLenOf payloadLen = some recordLen)
    (corrupt offset (.invalidPayloadLength recordLen.val.toNat payloadLen.val.toNat))
  let sequenceValue : U64 := BoundedInt.ofLeBytes U64.width (Bytes.slice header 16 24)
  let sequence ← (RecordSequence.new sequenceValue).elim
    (.error (corrupt offset (.invalidSequence sequenceValue.val.toNat))) .ok
  checkSequence offset sequence expectedSequence
  let timestamp : Timestamp := BoundedInt.ofLeBytes I64.width (Bytes.slice header 24 32)
  .ok ⟨recordLen, payloadLen, sequence, timestamp⟩

/-- The padding must consist of zero bytes. -/
def checkPadding (offset : Nat) (padding : List UInt8) : Except StorageError PUnit :=
  match padding.zipIdx.find? fun entry => entry.1 ≠ 0 with
  | some (value, index) => .error (corrupt offset (.nonZeroPadding index value))
  | none => .ok ⟨⟩

/-- Validates the rest of a record behind its header. -/
def parseRemainder (header remainder : List UInt8) (offset : Nat) (parsed : ParsedHeader) :
    Except StorageError Record := do
  let payloadLen := parsed.payloadLen.val.toNat
  let checksumStart := payloadLen + paddingLen parsed.payloadLen
  checkPadding offset (Bytes.slice remainder payloadLen checksumStart)
  Except.ensure
    (remainder.drop checksumStart = checksum blake3 (header ++ remainder.take checksumStart))
    (corrupt offset .checksumMismatch)
  .ok ⟨parsed.sequence, parsed.timestamp, remainder.take payloadLen⟩

end Hashing

end Record

/-- A reader of records: the bytes that it has not read, the offset of the next record in the
stream, and the sequence that the next record must have. -/
structure RecordReader where
  reader : List UInt8
  limits : RecordLimits
  offset : Nat
  expectedSequence : Option RecordSequence
  deriving DecidableEq

/-- A reader at the start of a stream. -/
def RecordReader.withExpectedSequence (reader : List UInt8) (limits : RecordLimits)
    (expectedSequence : RecordSequence) : RecordReader :=
  ⟨reader, limits, 0, some expectedSequence⟩

/-- A reader at the start of a stream that starts with the first record. -/
def RecordReader.new (reader : List UInt8) (limits : RecordLimits) : RecordReader :=
  .withExpectedSequence reader limits .first

/-- Takes bytes until there are enough or none are left. -/
def RecordReader.readFully (length : Nat) (r : RecordReader) : List UInt8 × RecordReader :=
  (r.reader.take length, { r with reader := r.reader.drop length })

/-- Reads the next record, if there is one. -/
def RecordReader.readNext (blake3 : List UInt8 → CommandHash) :
    EStateM StorageError RecordReader (Option Record) := fun r =>
  let (header, r₁) := r.readFully headerLen
  if header.length = 0 then .ok none r₁
  else if header.length ≠ headerLen then
    .error (.partialTail r.offset headerLen header.length) r₁
  else
    match parseHeader header r.offset r.limits r.expectedSequence with
    | .error e => .error e r₁
    | .ok parsed =>
      let recordLen := parsed.recordLen.val.toNat
      let (remainder, r₂) := r₁.readFully (recordLen - headerLen)
      if remainder.length ≠ recordLen - headerLen then
        .error (.partialTail r.offset recordLen (headerLen + remainder.length)) r₂
      else
        match parseRemainder blake3 header remainder r.offset parsed with
        | .error e => .error e r₂
        | .ok record =>
          .ok (some record)
            { r₂ with offset := r.offset + recordLen, expectedSequence := parsed.sequence.next }

end PromiseDb
