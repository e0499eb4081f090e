import PromiseDb.Storage.TransitionCodec

/-!
# Snapshot files

A snapshot file is a header of 128 bytes, the captured state, and the digest of everything before
it.  The header holds the magic number, the format version, flags, its own length, the length of
the digest, the lengths of the file and of the payload, the identity of the database, the version
of the state machine, the watermark, the sequence, the publication revision and the sequence up
to which events were pruned; everything else in it is zero.  The configured limits bound the file,
the collections of the payload, its strings and the collections nested in its entries.
-/

namespace PromiseDb

/-! ## Errors and limits -/

/-- The errors of reading and writing snapshot files. -/
inductive SnapshotError
  | truncated (expected actual : Nat)
  | invalidMagic (magic : List UInt8)
  | unsupportedVersion (version : UInt8)
  | unsupportedFlags (flags : UInt8)
  | malformedHeader (field : String)
  | nonZeroReserved
  | unsupportedSemanticsVersion (version : U32)
  | databaseUuidMismatch (expected actual : U128)
  | filenameWatermarkMismatch (filename header : U64)
  | checksumMismatch
  | invalidLimits (field : String) (value minimum : Nat)
  | limit (field : String) (value maximum : Nat)
  | malformedPayload (error : StorageError)
  | invalidEngineState
  deriving DecidableEq

/-- The limits of snapshot files. -/
structure SnapshotLimits where
  /-- The largest file. -/
  maxTotalBytes : U64
  /-- The largest collection of the payload. -/
  maxCollectionItems : U32
  /-- The longest string. -/
  maxStringBytes : U32
  /-- The largest collection in an entry. -/
  maxNestedItems : U32

namespace Snapshot

/-- The number in the first four bytes of every snapshot. -/
def magic : List UInt8 := [80, 68, 66, 78]

/-- The length of a snapshot header. -/
def headerLen : Nat := 128

/-- The length of a snapshot checksum. -/
def checksumLen : Nat := 32

end Snapshot

open Snapshot

namespace SnapshotLimits

/-- Every limit admits at least an empty snapshot. -/
def validate (limits : SnapshotLimits) : Except SnapshotError Unit := do
  Except.ensure (headerLen + checksumLen ≤ limits.maxTotalBytes.val.toNat)
    (.invalidLimits "maximum total bytes" limits.maxTotalBytes.val.toNat (headerLen + checksumLen))
  Except.ensure (limits.maxCollectionItems.val ≠ 0) (.invalidLimits "maximum collection items" 0 1)
  Except.ensure (limits.maxStringBytes.val ≠ 0) (.invalidLimits "maximum string bytes" 0 1)
  Except.ensure (limits.maxNestedItems.val ≠ 0) (.invalidLimits "maximum nested items" 0 1)

/-- The largest collection of the payload. -/
def collections (limits : SnapshotLimits) : Nat := limits.maxCollectionItems.val.toNat

/-- The longest string. -/
def strings (limits : SnapshotLimits) : Nat := limits.maxStringBytes.val.toNat

/-- The largest collection in an entry. -/
def nested (limits : SnapshotLimits) : Nat := limits.maxNestedItems.val.toNat

/-- The bounds of the reader of the payload, which has one bound for all collections. -/
def reader (limits : SnapshotLimits) : ReaderLimits :=
  ⟨some (max limits.nested limits.collections), some limits.strings⟩

end SnapshotLimits

/-- What a snapshot file is made of. -/
structure SnapshotFile where
  databaseUuid : U128
  semanticsVersion : U32
  walWatermark : U64
  engine : EngineSnapshot

/-- A validated snapshot and its state without timelines. -/
structure DecodedSnapshot where
  walWatermark : U64
  engine : Engine

/-! ## Writing -/

namespace Writer

/-- Writes a cached response with its identity and its hash. -/
def idempotencyRecord (value : ClientId × IdempotencyKey × CommandHash × CommandResponse) :
    StorageWriter := do
  string "client id" value.1.value
  string "idempotency key" value.2.1.value
  raw value.2.2.1.bytes
  response value.2.2.2

/-- Writes the payload of a snapshot. -/
def engineSnapshot (value : EngineSnapshot) : StorageWriter := do
  len "resource pools" value.resourcePools.length
  value.resourcePools.forM resourcePool
  len "promises" value.promises.length
  value.promises.forM promise
  len "events" value.events.length
  value.events.forM event
  len "idempotency records" value.idempotencyRecords.length
  value.idempotencyRecords.forM idempotencyRecord

end Writer

namespace Snapshot

/-- The number of elements of a collection is bounded. -/
def checkItems (field : String) (value maximum : Nat) : Except SnapshotError Unit :=
  Except.ensure (value ≤ maximum) (.limit field value maximum)

/-- The length of a string is bounded. -/
def checkString (field value : String) (maximum : Nat) : Except SnapshotError Unit :=
  Except.ensure ((utf8 value).length ≤ maximum) (.limit field (utf8 value).length maximum)

/-- The strings and the curve of a pool are bounded. -/
def checkPool (limits : SnapshotLimits) (pool : ResourcePool) : Except SnapshotError Unit := do
  checkString "display name" pool.displayName limits.strings
  checkString "unit name" pool.unit.name limits.strings
  checkItems "capacity segments" pool.capacityCurve.segments.length limits.nested

/-- The bundle of a promise is bounded. -/
def checkPromise (limits : SnapshotLimits) (promise : Promise) : Except SnapshotError Unit :=
  checkItems "bundle claims" promise.bundle.claims.length limits.nested

/-- The number of promises that the payload of an event lists. -/
def affectedCount : EventData → Nat
  | .deficit _ _ _ affectedPromiseIds => affectedPromiseIds.length
  | _ => 0

/-- The promises that a deficit event lists are bounded. -/
def checkEvent (limits : SnapshotLimits) (event : Event) : Except SnapshotError Unit :=
  checkItems "affected promise ids" (affectedCount event.data) limits.nested

/-- The strings of a cached response are bounded. -/
def checkRecord (limits : SnapshotLimits)
    (record : ClientId × IdempotencyKey × CommandHash × CommandResponse) :
    Except SnapshotError Unit := do
  checkString "client id" record.1.value limits.strings
  checkString "idempotency key" record.2.1.value limits.strings

/-- The header of a snapshot file. -/
def header (totalLen payloadLen : U64) (file : SnapshotFile) : List UInt8 :=
  magic ++ ([1] ++ ([0] ++ (Bytes.le 2 headerLen ++ (Bytes.le 2 checksumLen ++
    (List.replicate 6 0 ++ (totalLen.toLeBytes 8 ++ (payloadLen.toLeBytes 8 ++
      (file.databaseUuid.toBeBytes 16 ++ (file.semanticsVersion.toLeBytes 4 ++
        (List.replicate 4 0 ++ (file.walWatermark.toLeBytes 8 ++
          (file.engine.sequence.get.toLeBytes 8 ++ (file.engine.publicationRevision.toLeBytes 16 ++
            (file.engine.eventsPrunedThrough.get.toLeBytes 8 ++ List.replicate 32 0))))))))))))))

/-- The length of a file with a payload, if a 64-bit number holds it. -/
def totalLenOf (payloadLen : Nat) : Option U64 :=
  BoundedInt.ofInt? (headerLen + payloadLen + checksumLen : ℤ)

section Hashing

variable (blake3 : List UInt8 → CommandHash)

/-- Encodes a snapshot file. -/
def encode (file : SnapshotFile) (limits : SnapshotLimits) :
    Except SnapshotError (List UInt8) := do
  limits.validate
  checkItems "resource pools" file.engine.resourcePools.length limits.collections
  checkItems "promises" file.engine.promises.length limits.collections
  checkItems "events" file.engine.events.length limits.collections
  checkItems "idempotency records" file.engine.idempotencyRecords.length limits.collections
  file.engine.resourcePools.forM (checkPool limits)
  file.engine.promises.forM (checkPromise limits)
  file.engine.events.forM (checkEvent limits)
  file.engine.idempotencyRecords.forM (checkRecord limits)
  let payload ← (Writer.engineSnapshot file.engine).written.mapError .malformedPayload
  let payloadLen ← (BoundedInt.ofInt? (payload.length : ℤ) : Option U64).elim
    (.error (.limit "payload bytes" 18446744073709551615 limits.maxTotalBytes.val.toNat)) .ok
  let totalLen ← (totalLenOf payload.length).elim
    (.error (.limit "total bytes" 18446744073709551615 limits.maxTotalBytes.val.toNat)) .ok
  Except.ensure (totalLen ≤ limits.maxTotalBytes)
    (.limit "total bytes" totalLen.val.toNat limits.maxTotalBytes.val.toNat)
  let bytes := header totalLen payloadLen file ++ payload
  .ok (bytes ++ (blake3 bytes).bytes)

end Hashing

end Snapshot

/-! ## Reading -/

/-- A program that reads a part of a snapshot. -/
abbrev SnapshotReader := Codec.Reader SnapshotError

namespace SnapshotReader

/-- Reads a stored value. -/
def mapCodec {α : Type} (r : StorageReader α) : SnapshotReader α := fun bytes =>
  (r bytes).mapError .malformedPayload

section Limits

variable (limits : SnapshotLimits)

/-- Reads the number of elements of a collection of the payload. -/
def topCount (field : String) : SnapshotReader Nat := do
  let value ← mapCodec (Reader.count limits.reader field)
  if value ≤ limits.collections then pure value else throw (.limit field value limits.collections)

/-- Reads a collection of the payload. -/
def collection {α : Type} (field : String) (r : StorageReader α) : SnapshotReader (List α) := do
  let count ← topCount limits field
  Codec.Reader.times (mapCodec r) count

/-- Reads a cached response with its identity and its hash. -/
def idempotencyRecord :
    StorageReader (ClientId × IdempotencyKey × CommandHash × CommandResponse) := do
  let client ← Reader.string limits.reader "client id"
  let key ← Reader.string limits.reader "idempotency key"
  let hash ← Reader.commandHash
  let response ← Reader.response limits.reader
  pure (⟨client⟩, ⟨key⟩, hash, response)

/-- The collections of a payload. -/
structure Payload where
  resourcePools : List ResourcePool
  promises : List Promise
  events : List Event
  idempotencyRecords : List (ClientId × IdempotencyKey × CommandHash × CommandResponse)

/-- Reads the payload of a snapshot. -/
def payload : SnapshotReader Payload := do
  let resourcePools ← collection limits "resource pools" (Reader.resourcePool limits.reader)
  let promises ← collection limits "promises" (Reader.promise limits.reader)
  let events ← collection limits "events" (Reader.event limits.reader)
  let idempotencyRecords ← collection limits "idempotency records" (idempotencyRecord limits)
  pure ⟨resourcePools, promises, events, idempotencyRecords⟩

end Limits

end SnapshotReader

namespace Snapshot

/-- The lengths in a header agree with each other and with the file. -/
def checkLengths (bytes : List UInt8) (limits : SnapshotLimits) : Except SnapshotError Unit := do
  let totalLen : U64 := BoundedInt.ofLeBytes U64.width (Bytes.slice bytes 16 24)
  let payloadLen : U64 := BoundedInt.ofLeBytes U64.width (Bytes.slice bytes 24 32)
  Except.ensure (totalLen ≤ limits.maxTotalBytes)
    (.limit "total bytes" totalLen.val.toNat limits.maxTotalBytes.val.toNat)
  let expectedTotal ← (totalLenOf payloadLen.val.toNat).elim
    (.error (.malformedHeader "payload_len")) .ok
  Except.ensure (totalLen = expectedTotal) (.malformedHeader "total_len")
  Except.ensure (bytes.length = totalLen.val.toNat)
    (.truncated totalLen.val.toNat bytes.length)

/-- The fields of a header that do not depend on the state. -/
def checkHeader (bytes : List UInt8) (limits : SnapshotLimits) (expectedUuid : U128)
    (expectedSemantics : U32) (filenameWatermark : U64) : Except SnapshotError Unit := do
  Except.ensure (bytes.length ≤ limits.maxTotalBytes.val.toNat)
    (.limit "total bytes" bytes.length limits.maxTotalBytes.val.toNat)
  Except.ensure (headerLen ≤ bytes.length) (.truncated headerLen bytes.length)
  let storedMagic := Bytes.slice bytes 0 4
  Except.ensure (storedMagic = magic) (.invalidMagic storedMagic)
  let version := (Bytes.slice bytes 4 5).headD 0
  Except.ensure (version = 1) (.unsupportedVersion version)
  let flags := (Bytes.slice bytes 5 6).headD 0
  Except.ensure (flags = 0) (.unsupportedFlags flags)
  Except.ensure (Bytes.ofLe (Bytes.slice bytes 6 8) = headerLen) (.malformedHeader "header_len")
  Except.ensure (Bytes.ofLe (Bytes.slice bytes 8 10) = checksumLen)
    (.malformedHeader "checksum_len")
  let reserved := Bytes.slice bytes 10 16 ++ (Bytes.slice bytes 52 56 ++ Bytes.slice bytes 96 128)
  Except.ensure (reserved.all fun value => decide (value = 0)) .nonZeroReserved
  checkLengths bytes limits
  let databaseUuid : U128 := BoundedInt.ofBeBytes U128.width (Bytes.slice bytes 32 48)
  Except.ensure (databaseUuid = expectedUuid) (.databaseUuidMismatch expectedUuid databaseUuid)
  let semanticsVersion : U32 := BoundedInt.ofLeBytes U32.width (Bytes.slice bytes 48 52)
  Except.ensure (semanticsVersion = expectedSemantics)
    (.unsupportedSemanticsVersion semanticsVersion)
  let walWatermark : U64 := BoundedInt.ofLeBytes U64.width (Bytes.slice bytes 56 64)
  Except.ensure (walWatermark = filenameWatermark)
    (.filenameWatermarkMismatch filenameWatermark walWatermark)

section Hashing

variable (blake3 : List UInt8 → CommandHash)

/-- Decodes a snapshot file. -/
def decode (bytes : List UInt8) (limits : SnapshotLimits) (expectedUuid : U128)
    (expectedSemantics : U32) (filenameWatermark : U64) :
    Except SnapshotError DecodedSnapshot := do
  limits.validate
  checkHeader bytes limits expectedUuid expectedSemantics filenameWatermark
  let checksumStart := bytes.length - checksumLen
  Except.ensure ((blake3 (bytes.take checksumStart)).bytes = bytes.drop checksumStart)
    .checksumMismatch
  let (payload, rest) ← SnapshotReader.payload limits (Bytes.slice bytes headerLen checksumStart)
  Except.ensure (rest = [])
    (.malformedPayload (.corruptRecord "trailing snapshot payload bytes"))
  let snapshot : EngineSnapshot :=
    { resourcePools := payload.resourcePools
      promises := payload.promises
      events := payload.events
      idempotencyRecords := payload.idempotencyRecords
      sequence := ⟨BoundedInt.ofLeBytes U64.width (Bytes.slice bytes 64 72)⟩
      publicationRevision := BoundedInt.ofLeBytes U128.width (Bytes.slice bytes 72 88)
      eventsPrunedThrough := ⟨BoundedInt.ofLeBytes U64.width (Bytes.slice bytes 88 96)⟩ }
  let engine ← (Engine.restoreSnapshotUnindexed snapshot).mapError fun _ => .invalidEngineState
  .ok ⟨filenameWatermark, engine⟩

end Hashing

end Snapshot

end PromiseDb
