import PromiseDb.Storage.Layout

/-!
# Open databases

What an open database knows about its files: the active segment with its length, and the sequence of
the next record.  A failure in the middle of a rotation can leave a database that still writes to the
segment that was sealed.
-/

namespace PromiseDb

open Database

variable {blake3 : List UInt8 → CommandHash}

namespace Shape

/-- The identity, the limits and the next sequence of a database are the ones of its files. -/
structure Handled (manifest : Manifest) (shape : Shape) (db : FileDatabase blake3) : Prop where
  databaseUuid : db.backend.databaseUuid = manifest.databaseUuid
  recordLimits : db.recordLimits = manifest.recordLimits
  walLimits : db.backend.recordLimits = manifest.recordLimits
  snapshotLimits : db.backend.snapshotLimits = manifest.snapshotLimits
  durability : db.durability = .sync
  next : db.nextRecordSequence = shape.next
  expected : db.backend.expectedSequence = shape.next

/-- The log goes on in the active segment. -/
structure Attached (shape : Shape) (wal : SegmentedWal blake3) : Prop where
  active : wal.active = shape.active
  length : shape.start ≠ none → wal.activeLen = Segment.headerLen + shape.records.length
  hasRecords : shape.start ≠ none → (wal.activeHasRecords = true ↔ shape.records ≠ [])

end Shape

/-- The configuration of an open database, and what it expects next. -/
structure FileDatabase.Configured (manifest : Manifest) (db : FileDatabase blake3) : Prop where
  databaseUuid : db.backend.databaseUuid = manifest.databaseUuid
  recordLimits : db.recordLimits = manifest.recordLimits
  walLimits : db.backend.recordLimits = manifest.recordLimits
  durability : db.durability = .sync
  expected : db.backend.expectedSequence = db.nextRecordSequence

/-- An open database over a shape has the configuration of its files. -/
theorem Shape.Handled.configured {manifest : Manifest} {shape : Shape} {db : FileDatabase blake3}
    (h : shape.Handled manifest db) : db.Configured manifest :=
  ⟨h.databaseUuid, h.recordLimits, h.walLimits, h.durability, h.expected.trans h.next.symm⟩

/-- An open database over the files of a history.  As long as it is not poisoned, it knows what the
files hold. -/
structure Live (manifest : Manifest) (history : List TimestampedTransition)
    (db : FileDatabase blake3) : Prop where
  fault : db.backend.files.fault = none
  recorded : Recorded blake3 history db.engine
  closed : Closed blake3 manifest history db.backend.files.state
  healthy : db.poisoned = false → ∃ shape, Shape.Of blake3 manifest.recordLimits history shape ∧
    shape.In blake3 manifest [] db.backend.files.state ∧ shape.Handled manifest db ∧
    shape.Attached db.backend

end PromiseDb
