import PromiseDb.Engine.Command
import PromiseDb.Library.Bytes

/-!
# Command hashes and cached responses

The hash of an operation is a digest of its canonical representation: explicit tags, fixed-width
little-endian integers, explicit lengths, and claims in sorted order.  The identity of the client
and the key are not part of it; they are the key under which the hash and the first response are
cached.  The digest function is an arbitrary function of the written bytes.
-/

namespace PromiseDb

/-- A 32-byte digest. -/
structure CommandHash where
  /-- The bytes of the digest. -/
  bytes : List UInt8
  /-- A digest has 32 bytes. -/
  length_bytes : bytes.length = 32
  deriving DecidableEq

/-- The data retained to answer an exact command retry. -/
structure IdempotencyRecord where
  /-- The hash of the first operation. -/
  commandHash : CommandHash
  /-- The response to the first operation. -/
  response : CommandResponse

/-! ## Canonical representations -/

/-- The bytes that separate command hashes from other digests. -/
def commandHashDomain : List UInt8 := "promisedb-command-v1".toUTF8.toList ++ [0]

/-- Writes a length. -/
def hashLength (length : Nat) : List UInt8 := Bytes.le 8 length

/-- Writes a string with its length. -/
def hashString (s : String) : List UInt8 :=
  hashLength s.toUTF8.toList.length ++ s.toUTF8.toList

/-- Writes an unsigned integer. -/
def hashU64 (x : U64) : List UInt8 := x.toLeBytes 8

/-- Writes a signed integer. -/
def hashI64 (x : I64) : List UInt8 := x.toLeBytes 8

/-- Writes the sixteen bytes of an identity. -/
def hashUuid (uuid : Uuid) : List UInt8 := uuid.toBeBytes 16

/-- Writes a version. -/
def hashVersion (v : Version) : List UInt8 := hashU64 v.get

/-- Writes an interval. -/
def hashInterval (i : Interval) : List UInt8 := hashI64 i.start ++ hashI64 i.stop

/-- Writes a unit. -/
def hashUnit (u : ResourceUnit) : List UInt8 := hashString u.name ++ hashU64 u.subunitsPerUnit

/-- Writes the segments of a curve. -/
def hashCapacityCurve (c : CapacityCurve) : List UInt8 :=
  hashLength c.segments.length ++
    c.segments.flatMap fun s => hashInterval s.interval ++ hashU64 s.capacity

/-- Writes a claim. -/
def hashClaim (c : Claim) : List UInt8 :=
  hashUuid c.poolId.uuid ++ hashInterval c.interval ++ hashU64 c.quantity

/-- The key by which the claims of a bundle are sorted. -/
def Claim.sortKey (c : Claim) : ResourcePoolId ×ₗ Timestamp ×ₗ Timestamp ×ₗ Quantity :=
  toLex (c.poolId, toLex (c.interval.start, toLex (c.interval.stop, c.quantity)))

/-- Writes a bundle. -/
def hashBundle (b : Bundle) : List UInt8 :=
  let claims := b.claims.insertionSort fun c d => c.sortKey ≤ d.sortKey
  hashLength claims.length ++ claims.flatMap hashClaim

/-- Writes a choice. -/
def hashChoice (c : Choice) : List UInt8 :=
  hashLength c.alternatives.length ++ c.alternatives.flatMap hashBundle

/-- Writes a relative claim. -/
def hashRelativeClaim (c : RelativeClaim) : List UInt8 :=
  hashUuid c.poolId.uuid ++ hashI64 c.startOffset ++ hashI64 c.endOffset ++ hashU64 c.quantity

/-- The key by which the claims of a relative bundle are sorted. -/
def RelativeClaim.sortKey (c : RelativeClaim) : ResourcePoolId ×ₗ I64 ×ₗ I64 ×ₗ Quantity :=
  toLex (c.poolId, toLex (c.startOffset, toLex (c.endOffset, c.quantity)))

/-- Writes a relative bundle. -/
def hashRelativeBundle (b : RelativeBundle) : List UInt8 :=
  let claims := b.claims.insertionSort fun c d => c.sortKey ≤ d.sortKey
  hashLength claims.length ++ claims.flatMap hashRelativeClaim

/-- Writes a revision mode. -/
def hashRevisionMode : CapacityRevisionMode → List UInt8
  | .strict => [1]
  | .force => [2]

/-- Writes a replacement state. -/
def hashReplacementState : ReplacementState → List UInt8
  | .held expiresAt => [1] ++ hashI64 expiresAt
  | .committed => [2]

/-- The tag of an operation. -/
def operationTag : CommandOperation → UInt8
  | .createResourcePool .. => 1
  | .reviseCapacity .. => 2
  | .hold .. => 3
  | .commit .. => 4
  | .release .. => 5
  | .replace .. => 6
  | .processExpirations => 7
  | .holdOneOf .. => 8
  | .holdFirstSlot .. => 9

/-- Writes the operands of an operation. -/
def canonicalOperands : CommandOperation → List UInt8
  | .createResourcePool resourcePoolId displayName unit capacityCurve =>
    hashUuid resourcePoolId.uuid ++ hashString displayName ++ hashUnit unit ++
      hashCapacityCurve capacityCurve
  | .reviseCapacity resourcePoolId capacityCurve mode =>
    hashUuid resourcePoolId.uuid ++ hashCapacityCurve capacityCurve ++ hashRevisionMode mode
  | .hold promiseId bundle expiresAt =>
    hashUuid promiseId.uuid ++ hashBundle bundle ++ hashI64 expiresAt
  | .holdOneOf promiseId choice expiresAt =>
    hashUuid promiseId.uuid ++ hashChoice choice ++ hashI64 expiresAt
  | .holdFirstSlot promiseId relativeBundle earliestStart latestStart step expiresAt =>
    hashUuid promiseId.uuid ++ hashRelativeBundle relativeBundle ++ hashI64 earliestStart ++
      hashI64 latestStart ++ hashI64 step ++ hashI64 expiresAt
  | .commit promiseId expectedVersion => hashUuid promiseId.uuid ++ hashVersion expectedVersion
  | .release promiseId expectedVersion => hashUuid promiseId.uuid ++ hashVersion expectedVersion
  | .replace promiseId expectedVersion newBundle newState =>
    hashUuid promiseId.uuid ++ hashVersion expectedVersion ++ hashBundle newBundle ++
      hashReplacementState newState
  | .processExpirations => []

/-- The canonical representation of an operation. -/
def canonicalOperation (operation : CommandOperation) : List UInt8 :=
  operationTag operation :: canonicalOperands operation

/-- Hashes an operation by its canonical representation. -/
def hashOperation (blake3 : List UInt8 → CommandHash) (operation : CommandOperation) :
    CommandHash :=
  blake3 (commandHashDomain ++ canonicalOperation operation)

end PromiseDb
