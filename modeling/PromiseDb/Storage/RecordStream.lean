import PromiseDb.Engine.Reachable
import PromiseDb.Storage.Record

/-!
# Streams of log records

A record that is encoded is what the reader that expects its sequence reads next, whatever
follows it; every cut of it is a partial tail at its own offset; and every record that is read
was encoded by exactly the bytes that the reader consumed.  Along a stream this gives the records
that end before a cut, and for every stream the bytes behind the records that were read.
-/

namespace PromiseDb

open Record

namespace Record

/-! ## Lengths -/

/-- The length of a record is exact arithmetic on the length of its payload. -/
theorem recordLenOf_eq_some {payloadLen recordLen : U32} :
    recordLenOf payloadLen = some recordLen ↔
      recordLen.val.toNat = 48 + payloadLen.val.toNat + paddingLen payloadLen := by
  have hrange := recordLen.property
  have hpayload := payloadLen.property
  simp only [recordLenOf, Option.bind_eq_some_iff, BoundedInt.checkedAdd_eq_some,
    BoundedInt.ofInt?_eq_some, minRecordLen]
  constructor
  · rintro ⟨length, hlength, heq⟩
    omega
  · intro h
    exact ⟨⟨48 + payloadLen.val, by omega⟩, rfl, by show 48 + payloadLen.val + _ = _; omega⟩

/-- The length of a record is a multiple of eight that the format can express. -/
theorem recordLen_valid {payloadLen recordLen : U32} (h : recordLenOf payloadLen = some recordLen) :
    minRecordLen ≤ recordLen ∧ recordLen ≤ formatMaxRecordLen ∧ recordLen.val % 8 = 0 := by
  have hlen := recordLenOf_eq_some.mp h
  have hrange := recordLen.property
  have haligned : recordLen.val % 8 = 0 := by
    rw [paddingLen] at hlen
    omega
  refine ⟨?_, ?_, haligned⟩
  · show (48 : ℤ) ≤ recordLen.val
    omega
  · show recordLen.val ≤ 4294967288
    omega

/-- A header has its fixed length. -/
theorem length_header (recordLen payloadLen : U32) (sequence : RecordSequence)
    (timestamp : Timestamp) : (header recordLen payloadLen sequence timestamp).length = headerLen := by
  simp [header, magic, headerLen]

/-- A checksum has its fixed length. -/
theorem length_checksum (blake3 : List UInt8 → CommandHash) (bytes : List UInt8) :
    (checksum blake3 bytes).length = checksumLen := by
  rw [checksum, List.length_take, (blake3 bytes).length_bytes]
  rfl

/-! ## Headers -/

/-- Every field of a header is at its place. -/
theorem slices_header (recordLen payloadLen : U32) (sequence : RecordSequence)
    (timestamp : Timestamp) :
    Bytes.slice (header recordLen payloadLen sequence timestamp) 0 4 = magic ∧
    Bytes.slice (header recordLen payloadLen sequence timestamp) 4 5 = [1] ∧
    Bytes.slice (header recordLen payloadLen sequence timestamp) 5 6 = [0] ∧
    Bytes.slice (header recordLen payloadLen sequence timestamp) 6 8 = Bytes.le 2 headerLen ∧
    Bytes.slice (header recordLen payloadLen sequence timestamp) 8 12 = recordLen.toLeBytes 4 ∧
    Bytes.slice (header recordLen payloadLen sequence timestamp) 12 16 = payloadLen.toLeBytes 4 ∧
    Bytes.slice (header recordLen payloadLen sequence timestamp) 16 24 =
      sequence.get.toLeBytes 8 ∧
    Bytes.slice (header recordLen payloadLen sequence timestamp) 24 32 = timestamp.toLeBytes 8 := by
  simp (disch := simp [headerLen]) [header, Bytes.slice, magic, List.drop_append,
    List.take_append, List.drop_of_length_le, List.take_of_length_le]

/-- The bytes of a header are its slices. -/
theorem header_slices {bytes : List UInt8} (hlen : bytes.length = headerLen) :
    bytes = Bytes.slice bytes 0 4 ++ (Bytes.slice bytes 4 5 ++ (Bytes.slice bytes 5 6 ++
      (Bytes.slice bytes 6 8 ++ (Bytes.slice bytes 8 12 ++ (Bytes.slice bytes 12 16 ++
        (Bytes.slice bytes 16 24 ++ Bytes.slice bytes 24 32)))))) := by
  rw [Bytes.slice_append_slice, Bytes.slice_append_slice, Bytes.slice_append_slice,
    Bytes.slice_append_slice, Bytes.slice_append_slice, Bytes.slice_append_slice,
    Bytes.slice_append_slice, Bytes.slice_all (n := 32) hlen]
  all_goals decide

/-- One byte. -/
theorem eq_singleton_of_headD {bytes : List UInt8} {value : UInt8} (hlen : bytes.length = 1)
    (h : bytes.headD 0 = value) : bytes = [value] := by
  obtain ⟨byte, rfl⟩ := List.length_eq_one_iff.mp hlen
  rw [List.headD_cons] at h
  rw [h]

/-- The check of a sequence passes on the expected one only. -/
theorem checkSequence_eq_ok {offset : Nat} {sequence : RecordSequence}
    {expected : Option RecordSequence} {u : PUnit} :
    checkSequence offset sequence expected = .ok u ↔ expected = some sequence := by
  cases expected with
  | none => simp [checkSequence]
  | some expected =>
    simp only [checkSequence, Except.ensure_eq_ok, Option.some.injEq]
    exact eq_comm

/-- A header is accepted exactly if it is the header of a record that is within the limits and
has the expected sequence. -/
theorem parseHeader_eq_ok {bytes : List UInt8} (hlen : bytes.length = headerLen) {offset : Nat}
    {limits : RecordLimits} {expected : Option RecordSequence} {parsed : ParsedHeader} :
    parseHeader bytes offset limits expected = .ok parsed ↔
      bytes = header parsed.recordLen parsed.payloadLen parsed.sequence parsed.timestamp ∧
        recordLenOf parsed.payloadLen = some parsed.recordLen ∧
        parsed.recordLen ≤ limits.maxRecordLen ∧ expected = some parsed.sequence := by
  have hslice (start stop : Nat) (h : stop ≤ 32) :
      (Bytes.slice bytes start stop).length = stop - start :=
    Bytes.length_slice (h.trans_eq hlen.symm)
  rw [parseHeader]
  simp only [Except.bind_eq_ok, Except.ensure_eq_ok, Except.elim_eq_ok, checkSequence_eq_ok,
    RecordSequence.new_eq_some]
  constructor
  · rintro ⟨-, hmagic, -, hversion, -, hflags, -, hlength, -, -, -, hlimit, -, hrecord, sequence,
      hsequence, -, hexpected, hparsed⟩
    obtain rfl := Except.ok.inj hparsed
    refine ⟨?_, hrecord, hlimit, hexpected⟩
    rw [header, ← hsequence, BoundedInt.toLeBytes_ofLeBytes U32.width (hslice 8 12 (by decide)),
      BoundedInt.toLeBytes_ofLeBytes U32.width (hslice 12 16 (by decide)),
      BoundedInt.toLeBytes_ofLeBytes U64.width (hslice 16 24 (by decide)),
      BoundedInt.toLeBytes_ofLeBytes I64.width (hslice 24 32 (by decide)), ← hlength, ← hmagic,
      ← eq_singleton_of_headD (hslice 4 5 (by decide)) hversion,
      ← eq_singleton_of_headD (hslice 5 6 (by decide)) hflags,
      Bytes.le_ofLe_of_length (hslice 6 8 (by decide))]
    exact header_slices hlen
  · rintro ⟨rfl, hrecord, hlimit, rfl⟩
    obtain ⟨hmagic, hversion, hflags, hlength, hrecordLen, hpayloadLen, hsequence, htimestamp⟩ :=
      slices_header parsed.recordLen parsed.payloadLen parsed.sequence parsed.timestamp
    rw [hmagic, hversion, hflags, hlength, hrecordLen, hpayloadLen, hsequence, htimestamp,
      BoundedInt.ofLeBytes_toLeBytes, BoundedInt.ofLeBytes_toLeBytes,
      BoundedInt.ofLeBytes_toLeBytes, BoundedInt.ofLeBytes_toLeBytes]
    exact ⟨⟨⟩, rfl, ⟨⟩, rfl, ⟨⟩, rfl, ⟨⟩, Bytes.ofLe_le_of_lt (by decide), ⟨⟩,
      recordLen_valid hrecord, ⟨⟩, hlimit, ⟨⟩, hrecord, _, rfl, ⟨⟩, rfl, rfl⟩

/-! ## One record -/

section Hashing

variable {blake3 : List UInt8 → CommandHash}

/-- The bytes of a record before its checksum. -/
def body (recordLen payloadLen : U32) (record : Record) : List UInt8 :=
  header recordLen payloadLen record.recordSequence record.timestamp ++
    (record.payload ++ List.replicate (paddingLen payloadLen) 0)

/-- A record is encoded exactly if its length can be expressed and is within the limits. -/
theorem encode_eq_ok {record : Record} {limits : RecordLimits} {bytes : List UInt8} :
    encode blake3 record limits = .ok bytes ↔
      ∃ payloadLen recordLen : U32, (record.payload.length : ℤ) = payloadLen.val ∧
        recordLenOf payloadLen = some recordLen ∧ recordLen ≤ limits.maxRecordLen ∧
        bytes = body recordLen payloadLen record ++
          checksum blake3 (body recordLen payloadLen record) := by
  rw [encode, framePayload]
  simp only [Except.bind_eq_ok, Except.ok_bind, Except.ensure_eq_ok, Except.elim_eq_ok,
    BoundedInt.ofInt?_eq_some, Option.filter_eq_some_iff]
  constructor
  · rintro ⟨payloadLen, hpayload, recordLen, ⟨hrecord, -⟩, -, hlimit, hbytes⟩
    exact ⟨payloadLen, recordLen, hpayload, hrecord, hlimit, (Except.ok.inj hbytes).symm⟩
  · rintro ⟨payloadLen, recordLen, hpayload, hrecord, hlimit, rfl⟩
    exact ⟨payloadLen, hpayload, recordLen,
      ⟨hrecord, decide_eq_true (recordLen_valid hrecord).2.1⟩, ⟨⟩, hlimit, rfl⟩

/-- The padding is accepted exactly if it consists of zero bytes. -/
theorem checkPadding_eq_ok {offset n : Nat} {padding : List UInt8} (hlen : padding.length = n)
    {u : PUnit} : checkPadding offset padding = .ok u ↔ padding = List.replicate n 0 := by
  have hnone : (padding.zipIdx.find? fun entry => entry.1 ≠ 0) = none ↔
      padding = List.replicate n 0 := by
    rw [List.find?_eq_none, List.eq_replicate_iff, and_iff_right hlen]
    constructor
    · intro h byte hbyte
      obtain ⟨i, hi, rfl⟩ := List.mem_iff_getElem.mp hbyte
      have := h (padding[i], i) (List.mk_mem_zipIdx_iff_getElem?.mpr (List.getElem?_eq_getElem hi))
      simpa using this
    · rintro h ⟨byte, i⟩ hentry
      have hbyte : byte ∈ padding :=
        List.mem_of_getElem? (List.mk_mem_zipIdx_iff_getElem?.mp hentry)
      simp [h byte hbyte]
  rw [← hnone, checkPadding]
  split
  · rename_i hfound
    rw [hfound]
    simp
  · rename_i hfound
    rw [hfound]
    simp

/-- The rest of a record is accepted exactly if it is the payload, the padding and the checksum
that belong to the header. -/
theorem parseRemainder_eq_ok {front remainder : List UInt8} {offset : Nat} {parsed : ParsedHeader}
    {record : Record}
    (hlen : remainder.length =
      parsed.payloadLen.val.toNat + paddingLen parsed.payloadLen + checksumLen) :
    parseRemainder blake3 front remainder offset parsed = .ok record ↔
      record.recordSequence = parsed.sequence ∧ record.timestamp = parsed.timestamp ∧
        record.payload.length = parsed.payloadLen.val.toNat ∧
        remainder = record.payload ++ List.replicate (paddingLen parsed.payloadLen) 0 ++
          checksum blake3
            (front ++ (record.payload ++ List.replicate (paddingLen parsed.payloadLen) 0)) := by
  have htake : remainder.take (parsed.payloadLen.val.toNat + paddingLen parsed.payloadLen) =
      remainder.take parsed.payloadLen.val.toNat ++ Bytes.slice remainder
        parsed.payloadLen.val.toNat
        (parsed.payloadLen.val.toNat + paddingLen parsed.payloadLen) := by
    rw [Bytes.slice, Nat.add_sub_cancel_left, ← List.take_add]
  have hpadding : (Bytes.slice remainder parsed.payloadLen.val.toNat
      (parsed.payloadLen.val.toNat + paddingLen parsed.payloadLen)).length =
        paddingLen parsed.payloadLen := by
    rw [Bytes.length_slice (by omega), Nat.add_sub_cancel_left]
  rw [parseRemainder]
  simp only [Except.bind_eq_ok, Except.ensure_eq_ok, checkPadding_eq_ok hpadding]
  generalize parsed.payloadLen.val.toNat = p at *
  generalize paddingLen parsed.payloadLen = k at *
  constructor
  · rintro ⟨-, hzero, -, hchecksum, hrecord⟩
    obtain rfl := Except.ok.inj hrecord
    rw [htake, hzero] at hchecksum
    refine ⟨rfl, rfl, ?_, ?_⟩
    · rw [List.length_take]
      omega
    · rw [← hchecksum, ← hzero, ← htake, List.take_append_drop]
  · obtain ⟨sequence, timestamp, payload⟩ := record
    rintro ⟨rfl, rfl, rfl, rfl⟩
    have hbody : (payload ++ List.replicate k (0 : UInt8)).length = payload.length + k := by simp
    refine ⟨⟨⟩, ?_, ⟨⟩, ?_, ?_⟩
    · rw [List.append_assoc]
      exact Bytes.slice_field rfl (by simp)
    · rw [← hbody, List.drop_left, List.take_left]
    · rw [List.append_assoc, List.take_left]

/-- The length of an encoded record. -/
theorem length_encode {record : Record} {payloadLen recordLen : U32}
    (hpayload : (record.payload.length : ℤ) = payloadLen.val)
    (hrecord : recordLenOf payloadLen = some recordLen) :
    (body recordLen payloadLen record ++ checksum blake3 (body recordLen payloadLen record)).length =
      recordLen.val.toNat := by
  rw [recordLenOf_eq_some.mp hrecord, List.length_append, body, List.length_append, length_header,
    List.length_append, List.length_replicate, length_checksum, headerLen, checksumLen]
  omega

end Hashing

end Record

namespace RecordReader

variable {blake3 : List UInt8 → CommandHash}

/-- Nothing is read from an empty stream. -/
theorem readNext_nil (limits : RecordLimits) (offset : Nat) (expected : Option RecordSequence) :
    readNext blake3 ⟨[], limits, offset, expected⟩ = .ok none ⟨[], limits, offset, expected⟩ := rfl

/-- A stream that ends within a header is a partial tail. -/
theorem readNext_cut_header {bytes : List UInt8} (hpos : bytes ≠ []) (hlen : bytes.length < headerLen)
    (limits : RecordLimits) (offset : Nat) (expected : Option RecordSequence) :
    readNext blake3 ⟨bytes, limits, offset, expected⟩ =
      .error (.partialTail offset headerLen bytes.length) ⟨[], limits, offset, expected⟩ := by
  have htake : bytes.take headerLen = bytes := List.take_of_length_le hlen.le
  have hdrop : bytes.drop headerLen = [] := List.drop_of_length_le hlen.le
  have hzero : bytes.length ≠ 0 := by simpa using hpos
  simp only [readNext, readFully, htake, hdrop, if_neg hzero, if_pos hlen.ne]

section Header

variable {front : List UInt8} {limits : RecordLimits} {offset : Nat}
  {expected : Option RecordSequence} {parsed : ParsedHeader}

/-- A stream that ends within the rest of a record is a partial tail. -/
theorem readNext_cut_remainder (hlen : front.length = headerLen)
    (hparse : parseHeader front offset limits expected = .ok parsed) {remainder : List UInt8}
    (hshort : remainder.length < parsed.recordLen.val.toNat - headerLen) :
    readNext blake3 ⟨front ++ remainder, limits, offset, expected⟩ =
      .error (.partialTail offset parsed.recordLen.val.toNat (front ++ remainder).length)
        ⟨[], limits, offset, expected⟩ := by
  have hzero : headerLen ≠ 0 := by decide
  simp only [readNext, readFully, ← hlen, List.take_left, List.drop_left] at hzero hshort ⊢
  rw [if_neg hzero, if_neg (not_not.mpr rfl), hparse]
  simp only [List.take_of_length_le hshort.le, List.drop_of_length_le hshort.le,
    if_pos hshort.ne, List.length_append]

/-- A header that is not accepted. -/
theorem readNext_header_error (hlen : front.length = headerLen) {e : StorageError}
    (hparse : parseHeader front offset limits expected = .error e) (rest : List UInt8) :
    readNext blake3 ⟨front ++ rest, limits, offset, expected⟩ =
      .error e ⟨rest, limits, offset, expected⟩ := by
  have hzero : headerLen ≠ 0 := by decide
  simp only [readNext, readFully, ← hlen, List.take_left, List.drop_left] at hzero ⊢
  rw [if_neg hzero, if_neg (not_not.mpr rfl), hparse]

/-- A rest that is not accepted. -/
theorem readNext_remainder_error (hlen : front.length = headerLen)
    (hparse : parseHeader front offset limits expected = .ok parsed) {remainder : List UInt8}
    (hwhole : remainder.length = parsed.recordLen.val.toNat - headerLen) {e : StorageError}
    (hremainder : parseRemainder blake3 front remainder offset parsed = .error e)
    (rest : List UInt8) :
    readNext blake3 ⟨front ++ (remainder ++ rest), limits, offset, expected⟩ =
      .error e ⟨rest, limits, offset, expected⟩ := by
  have hzero : headerLen ≠ 0 := by decide
  simp only [readNext, readFully, ← hlen, List.take_left, List.drop_left] at hzero hwhole ⊢
  rw [if_neg hzero, if_neg (not_not.mpr rfl), hparse]
  simp only [← hwhole, List.take_left, List.drop_left, if_neg (not_not.mpr rfl), hremainder]

/-- A record with a header and a rest that are accepted is read. -/
theorem readNext_whole (hlen : front.length = headerLen)
    (hparse : parseHeader front offset limits expected = .ok parsed) {remainder : List UInt8}
    (hwhole : remainder.length = parsed.recordLen.val.toNat - headerLen) {record : Record}
    (hremainder : parseRemainder blake3 front remainder offset parsed = .ok record)
    (rest : List UInt8) :
    readNext blake3 ⟨front ++ (remainder ++ rest), limits, offset, expected⟩ =
      .ok (some record)
        ⟨rest, limits, offset + parsed.recordLen.val.toNat, parsed.sequence.next⟩ := by
  have hzero : headerLen ≠ 0 := by decide
  simp only [readNext, readFully, ← hlen, List.take_left, List.drop_left] at hzero hwhole ⊢
  rw [if_neg hzero, if_neg (not_not.mpr rfl), hparse]
  simp only [← hwhole, List.take_left, List.drop_left, if_neg (not_not.mpr rfl), hremainder]

end Header

/-- The two parts of an encoded record, and what the reader makes of them. -/
theorem encode_parts {record : Record} {limits : RecordLimits} {bytes : List UInt8}
    (h : encode blake3 record limits = .ok bytes) (offset : Nat) :
    ∃ front remainder parsed, bytes = front ++ remainder ∧ front.length = headerLen ∧
      parseHeader front offset limits (some record.recordSequence) = .ok parsed ∧
      remainder.length = parsed.recordLen.val.toNat - headerLen ∧
      bytes.length = parsed.recordLen.val.toNat ∧ parsed.sequence = record.recordSequence ∧
      parseRemainder blake3 front remainder offset parsed = .ok record := by
  obtain ⟨payloadLen, recordLen, hpayload, hrecord, hlimit, rfl⟩ := encode_eq_ok.mp h
  have hlength := @length_encode blake3 _ _ _ hpayload hrecord
  have hfront := length_header recordLen payloadLen record.recordSequence record.timestamp
  have hpayloadLen : record.payload.length = payloadLen.val.toNat := by omega
  refine ⟨_, record.payload ++ List.replicate (paddingLen payloadLen) 0 ++
    checksum blake3 (body recordLen payloadLen record),
    ⟨recordLen, payloadLen, record.recordSequence, record.timestamp⟩, ?_, hfront,
    (parseHeader_eq_ok hfront).mpr ⟨rfl, hrecord, hlimit, rfl⟩, ?_, hlength, rfl, ?_⟩
  · rw [body, List.append_assoc]
  · rw [body, List.append_assoc, List.length_append, hfront, ← body] at hlength
    exact Nat.eq_sub_of_add_eq' hlength
  · refine (parseRemainder_eq_ok ?_).mpr ⟨rfl, rfl, hpayloadLen, rfl⟩
    rw [List.length_append, List.length_append, List.length_replicate, length_checksum, hpayloadLen]

/-- An encoded record with the expected sequence is read, whatever follows it. -/
theorem readNext_encode {record : Record} {limits : RecordLimits} {bytes : List UInt8}
    (h : encode blake3 record limits = .ok bytes) (rest : List UInt8) (offset : Nat) :
    readNext blake3 ⟨bytes ++ rest, limits, offset, some record.recordSequence⟩ =
      .ok (some record) ⟨rest, limits, offset + bytes.length, record.recordSequence.next⟩ := by
  obtain ⟨front, remainder, parsed, rfl, hfront, hparse, hremainder, hlength, hsequence, hrest⟩ :=
    encode_parts h offset
  rw [List.append_assoc, readNext_whole hfront hparse hremainder hrest, hlength, hsequence]

/-- A cut record is a partial tail at its own offset. -/
theorem readNext_cut {record : Record} {limits : RecordLimits} {bytes : List UInt8}
    (h : encode blake3 record limits = .ok bytes) {tail : List UInt8} (htail : tail <+: bytes)
    (hpos : tail ≠ []) (hne : tail ≠ bytes) (offset : Nat) :
    readNext blake3 ⟨tail, limits, offset, some record.recordSequence⟩ =
      .error (.partialTail offset (if tail.length < headerLen then headerLen else bytes.length)
        tail.length) ⟨[], limits, offset, some record.recordSequence⟩ := by
  obtain ⟨front, remainder, parsed, rfl, hfront, hparse, hremainder, hlength, -, -⟩ :=
    encode_parts h offset
  by_cases hshort : tail.length < headerLen
  · rw [if_pos hshort]
    exact readNext_cut_header hpos hshort limits offset _
  · have hlt : tail.length < (front ++ remainder).length :=
      lt_of_le_of_ne htail.length_le fun heq => hne (htail.eq_of_length heq)
    obtain ⟨back, rfl⟩ : front <+: tail := by
      refine List.prefix_of_prefix_length_le (List.prefix_append front remainder) htail ?_
      omega
    rw [if_neg hshort, hlength]
    apply readNext_cut_remainder hfront hparse
    rw [List.length_append, List.length_append] at hlt
    omega

/-- A record that is read was encoded by exactly the bytes that were consumed. -/
theorem readNext_eq_some {r r' : RecordReader} {record : Record}
    (h : readNext blake3 r = .ok (some record) r') :
    ∃ bytes, encode blake3 record r.limits = .ok bytes ∧ r.reader = bytes ++ r'.reader ∧
      r.expectedSequence = some record.recordSequence ∧
      r' = ⟨r'.reader, r.limits, r.offset + bytes.length, record.recordSequence.next⟩ := by
  obtain ⟨reader, limits, offset, expected⟩ := r
  obtain rfl | hpos := eq_or_ne reader []
  · rw [readNext_nil] at h
    cases h
  obtain hshort | hlong := lt_or_ge reader.length headerLen
  · rw [readNext_cut_header hpos hshort] at h
    cases h
  obtain ⟨front, rest, hfront, rfl⟩ := List.exists_append_of_le_length hlong
  cases hparse : parseHeader front offset limits expected with
  | error e =>
    rw [readNext_header_error hfront hparse] at h
    cases h
  | ok parsed =>
    obtain hshort | hlong := lt_or_ge rest.length (parsed.recordLen.val.toNat - headerLen)
    · rw [readNext_cut_remainder hfront hparse hshort] at h
      cases h
    obtain ⟨remainder, rest, hwhole, rfl⟩ := List.exists_append_of_le_length hlong
    cases hremainder : parseRemainder blake3 front remainder offset parsed with
    | error e =>
      rw [readNext_remainder_error hfront hparse hwhole hremainder] at h
      cases h
    | ok read =>
      rw [readNext_whole hfront hparse hwhole hremainder] at h
      cases h
      obtain ⟨rfl, hrecord, hlimit, rfl⟩ := (parseHeader_eq_ok hfront).mp hparse
      have hlen := recordLenOf_eq_some.mp hrecord
      have hparts : remainder.length =
          parsed.payloadLen.val.toNat + paddingLen parsed.payloadLen + checksumLen := by
        rw [hwhole, hlen, headerLen, checksumLen]
        omega
      obtain ⟨hsequence, htimestamp, hpayload, rfl⟩ := (parseRemainder_eq_ok hparts).mp hremainder
      have hcast : (record.payload.length : ℤ) = parsed.payloadLen.val := by
        have := parsed.payloadLen.property.1
        omega
      refine ⟨_, encode_eq_ok.mpr ⟨parsed.payloadLen, parsed.recordLen, hcast, hrecord, hlimit, rfl⟩,
        ?_, ?_, ?_⟩
      · simp only [body, hsequence, htimestamp, List.append_assoc]
      · rw [hsequence]
      · rw [length_encode hcast hrecord, hsequence]

/-! ## Streams -/

/-- A reader reads records one after another. -/
inductive Reads (blake3 : List UInt8 → CommandHash) :
    RecordReader → List Record → RecordReader → Prop
  | done (r : RecordReader) : Reads blake3 r [] r
  | next {r r' r'' : RecordReader} {record : Record} {records : List Record}
      (first : readNext blake3 r = .ok (some record) r') (rest : Reads blake3 r' records r'') :
      Reads blake3 r (record :: records) r''

/-- Records with consecutive sequences, from an expected one on. -/
def Consecutive : Option RecordSequence → List Record → Prop
  | _, [] => True
  | expected, record :: rest =>
    expected = some record.recordSequence ∧ Consecutive record.recordSequence.next rest

/-- The sequence that is expected after records. -/
def sequenceAfter : Option RecordSequence → List Record → Option RecordSequence
  | expected, [] => expected
  | _, record :: rest => sequenceAfter record.recordSequence.next rest

/-- What follows consecutive records is consecutive. -/
theorem Consecutive.append {expected : Option RecordSequence} {front back : List Record}
    (h : Consecutive expected (front ++ back)) :
    Consecutive expected front ∧ Consecutive (sequenceAfter expected front) back := by
  induction front generalizing expected with
  | nil => exact ⟨trivial, h⟩
  | cons record rest ih =>
    obtain ⟨hfirst, hrest⟩ := h
    exact ⟨⟨hfirst, (ih hrest).1⟩, (ih hrest).2⟩

/-- Records that are encoded one behind the other. -/
def Encoded (blake3 : List UInt8 → CommandHash) (limits : RecordLimits) (records : List Record)
    (encodings : List (List UInt8)) : Prop :=
  List.Forall₂ (fun record bytes => encode blake3 record limits = .ok bytes) records encodings

/-- Encoded consecutive records are read back, whatever follows them. -/
theorem reads_encoded {limits : RecordLimits} {records : List Record}
    {encodings : List (List UInt8)} (h : Encoded blake3 limits records encodings)
    {expected : Option RecordSequence} (hconsecutive : Consecutive expected records)
    (rest : List UInt8) (offset : Nat) :
    Reads blake3 ⟨encodings.flatten ++ rest, limits, offset, expected⟩ records
      ⟨rest, limits, offset + encodings.flatten.length, sequenceAfter expected records⟩ := by
  induction h generalizing expected offset with
  | nil => exact .done _
  | cons hfirst hrest ih =>
    obtain ⟨rfl, hconsecutive⟩ := hconsecutive
    rw [List.flatten_cons, List.append_assoc, List.length_append, ← Nat.add_assoc]
    exact .next (readNext_encode hfirst _ offset) (ih hconsecutive _)

/-- Everything that a reader consumes is the encoding of what it reads. -/
theorem Reads.encoded {r r' : RecordReader} {records : List Record}
    (h : Reads blake3 r records r') :
    ∃ encodings, Encoded blake3 r.limits records encodings ∧
      r.reader = encodings.flatten ++ r'.reader ∧ Consecutive r.expectedSequence records ∧
      r' = ⟨r'.reader, r.limits, r.offset + encodings.flatten.length,
        sequenceAfter r.expectedSequence records⟩ := by
  induction h with
  | done r => exact ⟨[], .nil, rfl, trivial, rfl⟩
  | next first rest ih =>
    obtain ⟨bytes, hencode, hreader, hexpected, hstate⟩ := readNext_eq_some first
    obtain ⟨encodings, hencodings, hrest, hconsecutive, hfinal⟩ := ih
    rw [hstate] at hencodings hconsecutive hfinal
    refine ⟨bytes :: encodings, .cons hencode hencodings, ?_, ⟨hexpected, hconsecutive⟩, ?_⟩
    · rw [hreader, hrest, List.flatten_cons, List.append_assoc]
    · rw [hfinal, List.flatten_cons, List.length_append, Nat.add_assoc]
      rfl

/-- An encoded record is not empty. -/
theorem encode_ne_nil {record : Record} {limits : RecordLimits} {bytes : List UInt8}
    (h : encode blake3 record limits = .ok bytes) : bytes ≠ [] := by
  obtain ⟨front, remainder, parsed, rfl, hfront, -⟩ := encode_parts h 0
  intro hnil
  rw [(List.append_eq_nil_iff.mp hnil).1] at hfront
  cases hfront

/-- A cut of a concatenation falls behind some parts, and within the next one if it is not at its
start. -/
theorem exists_cut {parts : List (List UInt8)} (hparts : ∀ part ∈ parts, part ≠ [])
    {front : List UInt8} (h : front <+: parts.flatten) :
    ∃ k ≤ parts.length, ∃ tail, front = (parts.take k).flatten ++ tail ∧
      (tail = [] ∨ ∃ part more, parts.drop k = part :: more ∧ tail <+: part ∧ tail ≠ part) ∧
      ∀ j ≤ parts.length, (parts.take j).flatten.length ≤ front.length ↔ j ≤ k := by
  induction parts generalizing front with
  | nil =>
    obtain rfl := List.prefix_nil.mp h
    exact ⟨0, le_rfl, [], rfl, .inl rfl, fun j hj => ⟨fun _ => hj, fun _ => by simp⟩⟩
  | cons part rest ih =>
    rw [List.flatten_cons] at h
    by_cases hwhole : part <+: front
    · -- the first part is whole, and the cut falls into the others
      obtain ⟨front, rfl⟩ := hwhole
      obtain ⟨k, hk, tail, rfl, htail, hboundary⟩ := ih
        (fun p hp => hparts p (List.mem_cons_of_mem part hp))
        ((List.prefix_append_right_inj part).mp h)
      refine ⟨k + 1, Nat.succ_le_succ hk, tail, ?_, htail, ?_⟩
      · rw [List.take_succ_cons, List.flatten_cons, List.append_assoc]
      · intro j hj
        cases j with
        | zero => simp
        | succ j =>
          have := hboundary j (Nat.le_of_succ_le_succ hj)
          rw [List.take_succ_cons, List.flatten_cons, List.length_append, List.length_append]
          omega
    · -- the cut falls into the first part
      have hcut : front <+: part :=
        (List.prefix_or_prefix_of_prefix h (List.prefix_append part _)).resolve_right hwhole
      have hne : front ≠ part := by
        rintro rfl
        exact hwhole List.prefix_rfl
      have hlt : front.length < part.length :=
        lt_of_le_of_ne hcut.length_le fun heq => hne (hcut.eq_of_length heq)
      refine ⟨0, Nat.zero_le _, front, rfl, .inr ⟨part, rest, rfl, hcut, hne⟩, ?_⟩
      intro j hj
      cases j with
      | zero => simp
      | succ j =>
        rw [List.take_succ_cons, List.flatten_cons, List.length_append]
        omega

/-- A cut of an encoded stream: the records that end before it are read, and what is left of the
next one is a partial tail behind them. -/
theorem reads_cut {limits : RecordLimits} {records : List Record} {encodings : List (List UInt8)}
    (h : Encoded blake3 limits records encodings) {expected : Option RecordSequence}
    (hconsecutive : Consecutive expected records) {front : List UInt8}
    (hfront : front <+: encodings.flatten) :
    ∃ k ≤ records.length,
      (∀ j ≤ records.length, (encodings.take j).flatten.length ≤ front.length ↔ j ≤ k) ∧
      ∃ r, Reads blake3 ⟨front, limits, 0, expected⟩ (records.take k) r ∧
        r.offset = (encodings.take k).flatten.length ∧
        (front.length = r.offset → readNext blake3 r = .ok none r) ∧
        (front.length ≠ r.offset → ∃ length r',
          readNext blake3 r = .error (.partialTail r.offset length (front.length - r.offset)) r' ∧
            r'.offset = r.offset) := by
  have hne : ∀ part ∈ encodings, part ≠ [] := by
    intro part hpart
    obtain ⟨record, -, hencode⟩ := h.exists_left hpart
    exact encode_ne_nil hencode
  obtain ⟨k, hk, tail, rfl, htail, hboundary⟩ := exists_cut hne hfront
  rw [← h.length_eq] at hk hboundary
  have hparts : Encoded blake3 limits (records.take k) (encodings.take k) :=
    List.forall₂_take k h
  rw [← List.take_append_drop k records] at hconsecutive
  obtain ⟨htake, hdrop⟩ := hconsecutive.append
  refine ⟨k, hk, hboundary, _, reads_encoded hparts htake tail 0, Nat.zero_add _, ?_, ?_⟩
  · intro hlength
    have hzero : tail.length = 0 := by simpa using hlength
    rw [List.length_eq_zero_iff.mp hzero]
    exact readNext_nil _ _ _
  · intro hlength
    obtain rfl | ⟨part, more, hpart, hcut, hproper⟩ := htail
    · simp at hlength
    have hpos : tail ≠ [] := by
      rintro rfl
      simp at hlength
    have hrest : Encoded blake3 limits (records.drop k) (part :: more) :=
      hpart ▸ List.forall₂_drop k h
    cases hrecords : records.drop k with
    | nil =>
      rw [hrecords] at hrest
      cases hrest
    | cons record others =>
      rw [hrecords] at hrest hdrop
      obtain ⟨hencode, -⟩ := List.forall₂_cons.mp hrest
      have hread := @readNext_cut blake3 record limits part hencode tail hcut hpos hproper
        (0 + (encodings.take k).flatten.length)
      rw [← hdrop.1] at hread
      refine ⟨if tail.length < headerLen then headerLen else part.length,
        ⟨[], limits, 0 + (encodings.take k).flatten.length, sequenceAfter expected (records.take k)⟩,
        ?_, rfl⟩
      simpa only [List.length_append, Nat.zero_add, Nat.add_sub_cancel_left] using hread

/-- The framing of records is exact.  Consecutive records that are encoded one behind the other are
read back, and then the stream ends cleanly; of a cut stream exactly the records that end before
the cut are read, and then it ends cleanly if the cut is at a boundary, and in a partial tail at
the last boundary otherwise.  Conversely, whatever is read from a stream was encoded by exactly
the bytes that were consumed. -/
theorem record_framing_exact (blake3 : List UInt8 → CommandHash) (limits : RecordLimits) :
    (∀ (s : RecordSequence) (records : List Record) (encodings : List (List UInt8)),
      Consecutive (some s) records → Encoded blake3 limits records encodings →
      (∃ r, Reads blake3 (withExpectedSequence encodings.flatten limits s) records r ∧
        readNext blake3 r = .ok none r) ∧
      ∀ front, front <+: encodings.flatten →
        ∃ k ≤ records.length,
          (∀ j ≤ records.length,
            (encodings.take j).flatten.length ≤ front.length ↔ j ≤ k) ∧
          ∃ r, Reads blake3 (withExpectedSequence front limits s) (records.take k) r ∧
            r.offset = (encodings.take k).flatten.length ∧
            (front.length = r.offset → readNext blake3 r = .ok none r) ∧
            (front.length ≠ r.offset → ∃ length r',
              readNext blake3 r =
                .error (.partialTail r.offset length (front.length - r.offset)) r' ∧
              r'.offset = r.offset)) ∧
    ∀ (r r' : RecordReader) (records : List Record), Reads blake3 r records r' →
      ∃ encodings, Encoded blake3 r.limits records encodings ∧
        r.reader = encodings.flatten ++ r'.reader ∧
        r'.offset = r.offset + encodings.flatten.length := by
  refine ⟨?_, ?_⟩
  · intro s records encodings hconsecutive h
    have hwhole := reads_encoded h hconsecutive [] 0
    rw [List.append_nil] at hwhole
    exact ⟨⟨_, hwhole, readNext_nil _ _ _⟩, fun front hfront => reads_cut h hconsecutive hfront⟩
  · intro r r' records h
    obtain ⟨encodings, hencodings, hreader, -, hstate⟩ := h.encoded
    exact ⟨encodings, hencodings, hreader, by rw [hstate]⟩

/-- The second sequence is in range. -/
theorem sampleSecond_range : (0 : ℤ) ≤ 2 ∧ (2 : ℤ) ≤ 18446744073709551615 := by decide

/-- The second sequence is not zero. -/
theorem sampleSecond_ne_zero : (⟨2, sampleSecond_range⟩ : U64).val ≠ 0 := by decide

/-- The sequence of the second record. -/
def sampleSecond : RecordSequence := ⟨⟨2, sampleSecond_range⟩, sampleSecond_ne_zero⟩

/-- Two records, one of them without a payload. -/
def sampleRecords : List Record :=
  [⟨.first, Engine.sampleTime 0, [1, 2, 3]⟩, ⟨sampleSecond, Engine.sampleTime 1, []⟩]

/-- Two records, written, read back and run out. -/
theorem record_framing_exact_sample :
    ∃ encodings r, Encoded Engine.sampleHash .default sampleRecords encodings ∧
      Reads Engine.sampleHash (withExpectedSequence encodings.flatten .default .first)
        sampleRecords r ∧ readNext Engine.sampleHash r = .ok none r := by
  have hfirst : ∃ bytes, encode Engine.sampleHash
      ⟨.first, Engine.sampleTime 0, [1, 2, 3]⟩ .default = .ok bytes :=
    ⟨_, encode_eq_ok.mpr ⟨⟨3, by decide⟩, ⟨56, by decide⟩, rfl, by decide, by decide, rfl⟩⟩
  have hsecond : ∃ bytes, encode Engine.sampleHash
      ⟨sampleSecond, Engine.sampleTime 1, []⟩ .default = .ok bytes :=
    ⟨_, encode_eq_ok.mpr ⟨⟨0, by decide⟩, ⟨48, by decide⟩, rfl, by decide, by decide, rfl⟩⟩
  obtain ⟨first, hfirst⟩ := hfirst
  obtain ⟨second, hsecond⟩ := hsecond
  have h : Encoded Engine.sampleHash .default sampleRecords [first, second] :=
    .cons hfirst (.cons hsecond .nil)
  obtain ⟨r, hreads, hend⟩ := ((record_framing_exact Engine.sampleHash .default).1 .first
    sampleRecords [first, second] ⟨rfl, by decide, trivial⟩ h).1
  exact ⟨_, r, h, hreads, hend⟩

end RecordReader

end PromiseDb
