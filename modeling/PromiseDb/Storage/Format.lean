import PromiseDb.Domain.Promise
import PromiseDb.Library.Codec

/-!
# The fields of the binary formats

The errors of the storage layer, and the writers and readers of the fields that the command
codec, the transition codec and the snapshots share.  Integers and length prefixes are
little-endian, identities are the sixteen bytes of a UUID, and domain values are read back
through their validating constructors.
-/

namespace PromiseDb

/-! ## Errors -/

/-- The structural reason a complete log record was rejected. -/
inductive RecordCorruption
  | invalidMagic (magic : List UInt8)
  | unsupportedFlags (flags : UInt8)
  | invalidHeaderLength (length : Nat)
  | invalidRecordLength (length : Nat)
  | invalidPayloadLength (recordLen payloadLen : Nat)
  | invalidSequence (sequence : Nat)
  | sequenceMismatch (expected actual : Nat)
  | sequenceOverflow
  | nonZeroPadding (index : Nat) (value : UInt8)
  | checksumMismatch
  deriving DecidableEq

/-- The errors of codecs, log backends and recovery. -/
inductive StorageError
  | io (kind message : String)
  | unsupportedVersion (version : UInt8)
  | unsupportedTransitionVersion (version : UInt8)
  | unsupportedRecordVersion (offset : Nat) (version : UInt8)
  | invalidTag (kind : String) (tag : UInt8)
  | invalidLength (field : String) (length : Nat)
  | segmentLengthOverflow (current append : Nat)
  | invalidRecordLimit (limit : Nat)
  | recordTooLarge (offset length max : Nat)
  | invalidUtf8
  | truncatedPayload
  | corruptRecord (reason : String)
  | corruptWalRecord (offset : Nat) (reason : RecordCorruption)
  | partialTail (offset expected actual : Nat)
  | domain (error : DomainError)
  deriving DecidableEq

/-- A program that appends an encoded value. -/
abbrev StorageWriter := Codec.Writer StorageError PUnit

/-- A program that reads an encoded value. -/
abbrev StorageReader := Codec.Reader StorageError

/-- A domain value, or the violated invariant. -/
def Reader.domain {α : Type} (value : Except DomainError α) : StorageReader α :=
  Codec.Reader.lift (value.mapError StorageError.domain)

/-- A value that is there, or a corrupt payload. -/
def Reader.orCorrupt {α : Type} (value : Option α) (reason : String) : StorageReader α :=
  Codec.Reader.lift (value.elim (.error (.corruptRecord reason)) .ok)

/-- The bounds that a reader puts on length prefixes, if any. -/
structure ReaderLimits where
  /-- The largest accepted count. -/
  maxCollectionItems : Option Nat
  /-- The largest accepted length of a string. -/
  maxStringBytes : Option Nat

/-- The reader of the command codec has no bounds of its own. -/
def ReaderLimits.unlimited : ReaderLimits := ⟨none, none⟩

/-- A length is within an optional bound. -/
def withinLimit (limit : Option Nat) (length : Nat) : Bool := 
  limit.all fun max => decide (length ≤ max)

/-- The bytes of a string. -/
def utf8 (s : String) : List UInt8 := s.toUTF8.data.toList

/-! ## Writers -/

namespace Writer

/-- Writes bytes as they are. -/
def raw (bytes : List UInt8) : StorageWriter := Codec.Writer.raw bytes

/-- Writes one byte. -/
def byte (value : UInt8) : StorageWriter := raw [value]

/-- Writes a 32-bit number. -/
def u32 (value : U32) : StorageWriter := raw (value.toLeBytes 4)

/-- Writes a 64-bit number. -/
def u64 (value : U64) : StorageWriter := raw (value.toLeBytes 8)

/-- Writes a signed 64-bit number. -/
def i64 (value : I64) : StorageWriter := raw (value.toLeBytes 8)

/-- Writes a length prefix. -/
def len (field : String) (length : Nat) : StorageWriter :=
  match (BoundedInt.ofInt? (length : ℤ) : Option U32) with
  | some value => u32 value
  | none => throw (.invalidLength field length)

/-- Writes bytes with their length. -/
def bytes (field : String) (value : List UInt8) : StorageWriter := do
  len field value.length
  raw value

/-- Writes a string with its length. -/
def string (field value : String) : StorageWriter := bytes field (utf8 value)

/-- Writes the identity of a pool. -/
def poolId (id : ResourcePoolId) : StorageWriter := raw (id.uuid.toBeBytes 16)

/-- Writes the identity of a promise. -/
def promiseId (id : PromiseId) : StorageWriter := raw (id.uuid.toBeBytes 16)

/-- Writes an interval. -/
def interval (value : Interval) : StorageWriter := do
  i64 value.start
  i64 value.stop

/-- Writes a unit. -/
def unit (value : ResourceUnit) : StorageWriter := do
  string "unit name" value.name
  u64 value.subunitsPerUnit

/-- Writes a segment of a curve. -/
def segment (value : CapacitySegment) : StorageWriter := do
  interval value.interval
  u64 value.capacity

/-- Writes a curve. -/
def curve (value : CapacityCurve) : StorageWriter := do
  len "capacity segments" value.segments.length
  value.segments.forM segment

/-- Writes a claim. -/
def claim (value : Claim) : StorageWriter := do
  poolId value.poolId
  interval value.interval
  u64 value.quantity

/-- Writes a bundle. -/
def bundle (value : Bundle) : StorageWriter := do
  len "bundle claims" value.claims.length
  value.claims.forM claim

end Writer

/-! ## Readers -/

namespace Reader

/-- Takes a number of bytes. -/
def take (length : Nat) : StorageReader (List UInt8) :=
  Codec.Reader.take .truncatedPayload length

/-- Reads one byte. -/
def byte : StorageReader UInt8 := do
  let bytes ← take 1
  pure (bytes.headD 0)

/-- Reads a 32-bit number. -/
def u32 : StorageReader U32 := do
  let bytes ← take 4
  pure (BoundedInt.ofLeBytes U32.width bytes)

/-- Reads a 64-bit number. -/
def u64 : StorageReader U64 := do
  let bytes ← take 8
  pure (BoundedInt.ofLeBytes U64.width bytes)

/-- Reads a signed 64-bit number. -/
def i64 : StorageReader I64 := do
  let bytes ← take 8
  pure (BoundedInt.ofLeBytes I64.width bytes)

/-- Reads the identity of a pool. -/
def poolId : StorageReader ResourcePoolId := do
  let bytes ← take 16
  pure ⟨BoundedInt.ofBeBytes U128.width bytes⟩

/-- Reads the identity of a promise. -/
def promiseId : StorageReader PromiseId := do
  let bytes ← take 16
  pure ⟨BoundedInt.ofBeBytes U128.width bytes⟩

/-- Reads an interval. -/
def interval : StorageReader Interval := do
  let start ← i64
  let stop ← i64
  domain (Interval.new start stop)

/-- Reads a segment of a curve. -/
def segment : StorageReader CapacitySegment := do
  let interval ← interval
  let capacity ← u64
  pure ⟨interval, capacity⟩

/-- Reads a claim. -/
def claim : StorageReader Claim := do
  let poolId ← poolId
  let interval ← interval
  let quantity ← u64
  domain (Claim.new poolId interval quantity)

/-- Reads a version, with the given complaint about zero. -/
def versionOr (reason : String) : StorageReader Version := do
  let value ← u64
  orCorrupt (Version.new value) reason

section Limits

variable (limits : ReaderLimits)

/-- Reads a length prefix. -/
def count (field : String) : StorageReader Nat := do
  let value ← u32
  if withinLimit limits.maxCollectionItems value.val.toNat then pure value.val.toNat
  else throw (.invalidLength field value.val.toNat)

/-- Reads bytes with their length. -/
def bytes (field : String) : StorageReader (List UInt8) := do
  let length ← count limits field
  take length

/-- Reads a string with its length. -/
def string (field : String) : StorageReader String := do
  let length ← count limits field
  if withinLimit limits.maxStringBytes length then
    let bytes ← take length
    Codec.Reader.lift ((String.fromUTF8? ⟨bytes.toArray⟩).elim (.error .invalidUtf8) .ok)
  else throw (.invalidLength field length)

/-- Reads a unit. -/
def unit : StorageReader ResourceUnit := do
  let name ← string limits "unit name"
  let subunitsPerUnit ← u64
  domain (ResourceUnit.new name subunitsPerUnit)

/-- Reads a curve, which is normalized again. -/
def curve : StorageReader CapacityCurve := do
  let count ← count limits "capacity segments"
  let segments ← Codec.Reader.times segment count
  domain (CapacityCurve.fromSorted segments)

/-- Reads a bundle. -/
def bundle : StorageReader Bundle := do
  let count ← count limits "bundle claims"
  let claims ← Codec.Reader.times claim count
  domain (Bundle.new claims)

end Limits

end Reader

/-! ## Reading back what was written -/

/-- The writer succeeds, and the reader reads the value back and notices any cut. -/
abbrev RoundTrips {α : Type} (w : StorageWriter) (r : StorageReader α) (a : α) : Prop :=
  Codec.Paired StorageError.truncatedPayload w r a

/-- A run of bytes is read back as it was written. -/
theorem roundTrips_raw (bytes : List UInt8) :
    RoundTrips (Writer.raw bytes) (Reader.take bytes.length) bytes :=
  Codec.Paired.raw _ bytes

/-- Bytes of a known number. -/
theorem roundTrips_take {bytes : List UInt8} {n : Nat} (h : bytes.length = n) :
    RoundTrips (Writer.raw bytes) (Reader.take n) bytes := by
  subst h
  exact roundTrips_raw bytes

/-- A byte is read back as it was written. -/
theorem roundTrips_byte (value : UInt8) : RoundTrips (Writer.byte value) Reader.byte value :=
  (roundTrips_take (n := 1) rfl).map rfl

/-- An unsigned integer of 32 bits is read back as it was written. -/
theorem roundTrips_u32 (value : U32) : RoundTrips (Writer.u32 value) Reader.u32 value := by
  apply (roundTrips_take (BoundedInt.length_toLeBytes 4 value)).map
  rw [BoundedInt.ofLeBytes_toLeBytes]

/-- An unsigned integer of 64 bits is read back as it was written. -/
theorem roundTrips_u64 (value : U64) : RoundTrips (Writer.u64 value) Reader.u64 value := by
  apply (roundTrips_take (BoundedInt.length_toLeBytes 8 value)).map
  rw [BoundedInt.ofLeBytes_toLeBytes]

/-- A signed integer is read back as it was written. -/
theorem roundTrips_i64 (value : I64) : RoundTrips (Writer.i64 value) Reader.i64 value := by
  apply (roundTrips_take (BoundedInt.length_toLeBytes 8 value)).map
  rw [BoundedInt.ofLeBytes_toLeBytes]

/-- A pool id is read back as it was written. -/
theorem roundTrips_poolId (id : ResourcePoolId) :
    RoundTrips (Writer.poolId id) Reader.poolId id := by
  apply (roundTrips_take (BoundedInt.length_toBeBytes 16 id.uuid)).map
  rw [BoundedInt.ofBeBytes_toBeBytes]

/-- A promise id is read back as it was written. -/
theorem roundTrips_promiseId (id : PromiseId) :
    RoundTrips (Writer.promiseId id) Reader.promiseId id := by
  apply (roundTrips_take (BoundedInt.length_toBeBytes 16 id.uuid)).map
  rw [BoundedInt.ofBeBytes_toBeBytes]

/-- A domain value that its constructor accepts. -/
theorem inverts_domain {α : Type} {x : Except DomainError α} {a : α} (h : x = .ok a) :
    Codec.Inverts StorageError.truncatedPayload (Reader.domain x) [] a := by
  subst h
  exact Codec.Inverts.pure a

/-- A check of what was read passes on what was written. -/
theorem inverts_orCorrupt {α : Type} {x : Option α} {a : α} {reason : String} (h : x = some a) :
    Codec.Inverts StorageError.truncatedPayload (Reader.orCorrupt x reason) [] a := by
  subst h
  exact Codec.Inverts.pure a

/-- An interval is read back as it was written. -/
theorem roundTrips_interval (value : Interval) :
    RoundTrips (Writer.interval value) Reader.interval value := by
  refine (roundTrips_i64 value.start).bind ?_
  exact (roundTrips_i64 value.stop).andThen (inverts_domain (Interval.new_eq_ok.mpr ⟨rfl, rfl⟩))

/-- A capacity segment is read back as it was written. -/
theorem roundTrips_segment (value : CapacitySegment) :
    RoundTrips (Writer.segment value) Reader.segment value := by
  refine (roundTrips_interval value.interval).bind ?_
  exact (roundTrips_u64 value.capacity).map rfl

/-- A claim is read back as it was written. -/
theorem roundTrips_claim (value : Claim) :
    RoundTrips (Writer.claim value) Reader.claim value := by
  refine (roundTrips_poolId value.poolId).bind ?_
  refine (roundTrips_interval value.interval).bind ?_
  exact (roundTrips_u64 value.quantity).andThen
    (inverts_domain (Claim.new_eq_ok.mpr ⟨rfl, rfl, rfl⟩))

/-- A version is read back as it was written. -/
theorem roundTrips_version (value : Version) (reason : String) :
    RoundTrips (Writer.u64 value.get) (Reader.versionOr reason) value := by
  refine (roundTrips_u64 value.get).andThen (inverts_orCorrupt ?_)
  exact dif_neg value.get_ne_zero

section Limits

variable (limits : ReaderLimits)

/-- A length that a four-byte prefix can represent and that the reader accepts. -/
def CountFits (length : Nat) : Prop :=
  length < 2 ^ 32 ∧ withinLimit limits.maxCollectionItems length = true

/-- A string whose length can be represented and is accepted. -/
def StringFits (s : String) : Prop :=
  CountFits limits (utf8 s).length ∧ withinLimit limits.maxStringBytes (utf8 s).length = true

instance (length : Nat) : Decidable (CountFits limits length) := inferInstanceAs (Decidable (_ ∧ _))

instance (s : String) : Decidable (StringFits limits s) := inferInstanceAs (Decidable (_ ∧ _))

variable {limits}

/-- A length that fits into its prefix and that the reader accepts. -/
theorem roundTrips_len {field : String} {length : Nat} (h : CountFits limits length) :
    RoundTrips (Writer.len field length) (Reader.count limits field) length := by
  obtain ⟨hfits, hlimit⟩ := h
  have hrange : (0 : ℤ) ≤ length ∧ (length : ℤ) ≤ 4294967295 := by omega
  have hwrite : Writer.len field length = Writer.u32 ⟨length, hrange⟩ := by
    rw [Writer.len, BoundedInt.ofInt?_of_mem hrange]
  rw [hwrite]
  apply (roundTrips_u32 ⟨length, hrange⟩).map
  simp [hlimit]

/-- A length that does not fit into its prefix is refused. -/
theorem fails_len {field : String} {length : Nat} (h : 2 ^ 32 ≤ length) :
    Codec.Fails (Writer.len field length) (.invalidLength field length) := by
  have hrange : ¬((0 : ℤ) ≤ length ∧ (length : ℤ) ≤ 4294967295) := by omega
  rw [Writer.len, BoundedInt.ofInt?_eq_none.mpr hrange]
  exact fun _ => rfl

/-- Bytes with their length. -/
theorem roundTrips_bytes {field : String} {value : List UInt8} (h : CountFits limits value.length) :
    RoundTrips (Writer.bytes field value) (Reader.bytes limits field) value :=
  (roundTrips_len h).bind (roundTrips_raw value)

/-- The bytes of a string spell the string. -/
theorem fromUTF8?_utf8 (s : String) : String.fromUTF8? ⟨(utf8 s).toArray⟩ = some s := by
  have hbytes : (⟨(utf8 s).toArray⟩ : ByteArray) = s.toByteArray := by simp [utf8]
  rw [hbytes, String.fromUTF8?, dif_pos s.isValidUTF8]
  rfl

/-- A string that fits its limit is read back as it was written. -/
theorem roundTrips_string {field value : String} (h : StringFits limits value) :
    RoundTrips (Writer.string field value) (Reader.string limits field) value := by
  refine (roundTrips_len h.1).bind ?_
  rw [if_pos h.2]
  apply (roundTrips_raw (utf8 value)).andThen
  apply Codec.Inverts.lift
  rw [fromUTF8?_utf8]
  rfl

/-- A string is written behind four bytes for its length. -/
theorem writes_string {field value : String} (h : (utf8 value).length < 2 ^ 32) :
    ∃ bytes, bytes.length = (utf8 value).length + 4 ∧
      Codec.Writes (Writer.string field value) bytes := by
  have hrange : (0 : ℤ) ≤ (utf8 value).length ∧ ((utf8 value).length : ℤ) ≤ 4294967295 := by
    omega
  have hlen : Codec.Writes (Writer.len field (utf8 value).length)
      (BoundedInt.toLeBytes 4 ⟨_, hrange⟩) := by
    rw [Writer.len, BoundedInt.ofInt?_of_mem hrange]
    exact Codec.Writes.raw _
  refine ⟨_, ?_, hlen.bind (Codec.Writes.raw (utf8 value))⟩
  rw [List.length_append, BoundedInt.length_toLeBytes, Nat.add_comm]

/-- A unit whose name fits its limit is read back as it was written. -/
theorem roundTrips_unit {value : ResourceUnit} (h : StringFits limits value.name) :
    RoundTrips (Writer.unit value) (Reader.unit limits) value := by
  refine (roundTrips_string h).bind ?_
  exact (roundTrips_u64 value.subunitsPerUnit).andThen
    (inverts_domain (ResourceUnit.new_eq_ok.mpr ⟨rfl, rfl⟩))

/-- A curve is in normal form, so normalizing its segments gives it back. -/
theorem roundTrips_curve {value : CapacityCurve} (h : CountFits limits value.segments.length) :
    RoundTrips (Writer.curve value) (Reader.curve limits) value := by
  refine (roundTrips_len h).bind ?_
  exact (Codec.Paired.times fun s _ => roundTrips_segment s).andThen
    (inverts_domain value.fromSorted_segments)

/-- A bundle whose lengths fit is read back as it was written. -/
theorem roundTrips_bundle {value : Bundle} (h : CountFits limits value.claims.length) :
    RoundTrips (Writer.bundle value) (Reader.bundle limits) value := by
  refine (roundTrips_len h).bind ?_
  exact (Codec.Paired.times fun c _ => roundTrips_claim c).andThen
    (inverts_domain (Bundle.new_eq_ok.mpr rfl))

end Limits

end PromiseDb
