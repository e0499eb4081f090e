import PromiseDb.Storage.Files
import PromiseDb.Storage.Recovery
import PromiseDb.Storage.Segment
import PromiseDb.Storage.Snapshot

/-!
# File databases

A file database keeps its log in segments, of which the last one is active, and its snapshots next to
them.  An append goes to the active segment, unless that segment has records and would grow beyond its
target: then a new segment is created under a temporary name, synced and renamed.  A snapshot is
created behind a rotation in the same way, and then everything that it covers is removed.  Opening a
database removes what was left under temporary names, decodes the latest snapshot, replays the
segments behind it, cuts a partial record off the last one, and removes the segments before it.
-/

namespace PromiseDb

open Faults

/-! ## Errors and options -/

/-- Limits are equal if their fields are. -/
theorem SnapshotLimits.eq_of_fields (a b : SnapshotLimits) :
    (a.maxTotalBytes = b.maxTotalBytes ∧ a.maxCollectionItems = b.maxCollectionItems ∧
      a.maxStringBytes = b.maxStringBytes ∧ a.maxNestedItems = b.maxNestedItems) ↔ a = b := by
  obtain ⟨a₁, a₂, a₃, a₄⟩ := a
  obtain ⟨b₁, b₂, b₃, b₄⟩ := b
  rw [SnapshotLimits.mk.injEq]

instance : DecidableEq SnapshotLimits := fun a b =>
  decidable_of_iff _ (SnapshotLimits.eq_of_fields a b)

/-- Why a file database was not opened, or a snapshot not created. -/
inductive FileDatabaseError
  /-- A call has failed. -/
  | io (operation : String) (kind : IoErrorKind)
  /-- The limits of snapshots do not admit an empty snapshot. -/
  | invalidSnapshotLimits
  | recordLimitsMismatch (persisted requested : RecordLimits)
  | snapshotLimitsMismatch (persisted requested : SnapshotLimits)
  | invalidSegmentTarget (target minimum : Nat)
  /-- A name in the directory of the log is not one of a segment. -/
  | invalidSegmentName (name : FileName)
  | missingSegments
  | segmentHeader (name : FileName) (source : SegmentHeaderError)
  | segmentNameSequence (name : FileName) (filenameSequence headerSequence : RecordSequence)
  | segmentSequence (name : FileName) (expected : Option RecordSequence) (actual : RecordSequence)
  /-- A name in the directory of the snapshots is not one of a snapshot. -/
  | invalidSnapshotName (name : FileName)
  | snapshot (name : FileName) (source : SnapshotError)
  /-- A snapshot was installed, but what it covers was not removed. -/
  | snapshotCommittedCleanup (name : FileName) (watermark : U64) (operation : String)
      (kind : IoErrorKind)
  /-- The log has failed before. -/
  | snapshotPoisoned
  | segmentRecovery (name : FileName) (physicalOffset : Nat) (isSealed : Bool)
      (source : RecoveryError)

/-- The smallest target of a segment: a header and the smallest record. -/
def minSegmentTarget : Nat := Segment.headerLen + Record.minRecordLen.val.toNat

/-- The version of the semantics is in range. -/
theorem semanticsVersion_range : (0 : ℤ) ≤ 1 ∧ (1 : ℤ) ≤ 4294967295 := by decide

/-- The version of the state machine. -/
def stateMachineSemanticsVersion : U32 := ⟨1, semanticsVersion_range⟩

/-- The configuration of a file database. -/
structure FileDatabaseOptions where
  durability : Durability
  recordLimits : RecordLimits
  /-- The length at which a segment with records is not appended to any more. -/
  segmentTarget : U64
  snapshotLimits : SnapshotLimits

namespace FileDatabaseOptions

/-- The limits and the target must admit something. -/
def validate (options : FileDatabaseOptions) : Except FileDatabaseError Unit := do
  options.snapshotLimits.validate.mapError fun _ => .invalidSnapshotLimits
  Except.ensure (minSegmentTarget ≤ options.segmentTarget.val.toNat)
    (.invalidSegmentTarget options.segmentTarget.val.toNat minSegmentTarget)

/-- The part of the configuration that every database has. -/
def databaseOptions (options : FileDatabaseOptions) : DatabaseOptions :=
  ⟨options.durability, options.recordLimits⟩

end FileDatabaseOptions

/-- What is kept about a database for as long as it exists. -/
structure Manifest where
  databaseUuid : U128
  recordLimits : RecordLimits
  snapshotLimits : SnapshotLimits

/-! ## The segmented log -/

/-- A log of segments. -/
structure SegmentedWal (blake3 : List UInt8 → CommandHash) where
  databaseUuid : U128
  /-- The sequence that names the active segment. -/
  active : RecordSequence
  activeLen : Nat
  activeHasRecords : Bool
  segmentTarget : U64
  recordLimits : RecordLimits
  expectedSequence : Option RecordSequence
  snapshotLimits : SnapshotLimits
  files : FileSystem

/-- A database whose log is kept in segments. -/
abbrev FileDatabase (blake3 : List UInt8 → CommandHash) := Database (SegmentedWal blake3)

section Hashing

variable (blake3 : List UInt8 → CommandHash)

/-- Creates a segment without records under a temporary name and renames it. -/
def createSegmentAtomic (databaseUuid : U128) (firstSequence : RecordSequence) :
    FileCalls PUnit := do
  FileCalls.createNew (.segmentTemp firstSequence)
  FileCalls.write (.segmentTemp firstSequence) (Segment.header blake3 databaseUuid firstSequence)
  FileCalls.sync (.segmentTemp firstSequence)
  FileCalls.rename (.segmentTemp firstSequence) (.segment firstSequence)
  FileCalls.syncDirectory

namespace SegmentedWal

/-- Reads records up to the end, at most as many as there is fuel. -/
def readRecords : Nat → RecordReader → Except StorageError RecordReader
  | 0, _ => .error .truncatedPayload
  | fuel + 1, reader =>
    match RecordReader.readNext blake3 reader with
    | .error e _ => .error e
    | .ok none reader' => .ok reader'
    | .ok (some _) reader' => readRecords fuel reader'

variable {blake3}

/-- The sequences of the first record of a batch and of the one behind its last. -/
def inspectBatch (wal : SegmentedWal blake3) (bytes : List UInt8) :
    Except StorageError (RecordSequence × Option RecordSequence) := do
  let expected ← wal.expectedSequence.elim (.error (Record.corrupt 0 .sequenceOverflow)) .ok
  match RecordReader.readNext blake3 (.withExpectedSequence bytes wal.recordLimits expected) with
  | .error e _ => .error e
  | .ok none _ => .error (.invalidLength "WAL append batch" 0)
  | .ok (some first) reader => do
    let last ← readRecords blake3 (bytes.length + 1) reader
    return (first.recordSequence, last.expectedSequence)

/-- Runs calls on the files of the log. -/
def onFiles {α : Type} (operation : String) (x : FileCalls α) :
    EStateM StorageError (SegmentedWal blake3) α :=
  x.within files (fun wal files => { wal with files }) fun kind => .io kind.text operation

/-- Goes on with a new active segment. -/
def rotate (firstSequence : RecordSequence) : EStateM StorageError (SegmentedWal blake3) PUnit := do
  let wal ← get
  onFiles "create segment" (createSegmentAtomic blake3 wal.databaseUuid firstSequence)
  onFiles "open segment" (FileCalls.openFile (.segment firstSequence))
  modify fun wal =>
    { wal with active := firstSequence, activeLen := Segment.headerLen, activeHasRecords := false }

/-- Appends a batch of records to the active segment, or to a new one. -/
def append (bytes : List UInt8) : EStateM StorageError (SegmentedWal blake3) PUnit := do
  let wal ← get
  let (firstSequence, nextSequence) ← ofExcept (wal.inspectBatch bytes)
  let projected := wal.activeLen + bytes.length
  ofExcept (Except.ensure (projected < 2 ^ 64)
    (.segmentLengthOverflow wal.activeLen bytes.length))
  let rotates := wal.activeHasRecords && decide (wal.segmentTarget.val.toNat < projected)
  let resultingLen := if rotates then Segment.headerLen + bytes.length else projected
  ofExcept (Except.ensure (resultingLen < 2 ^ 64)
    (.segmentLengthOverflow Segment.headerLen bytes.length))
  if rotates then rotate firstSequence
  let wal ← get
  onFiles "append" (FileCalls.write (.segment wal.active) bytes)
  modify fun wal =>
    { wal with
      activeLen := resultingLen
      activeHasRecords := true
      expectedSequence := nextSequence }

instance : WalBackend (SegmentedWal blake3) where
  append := append
  flush := pure ⟨⟩
  sync := get >>= fun wal => onFiles "sync" (FileCalls.sync (.segment wal.active))

end SegmentedWal

end Hashing

/-! ## Opening -/

namespace FileDatabase

/-- Runs calls on the files. -/
def io {α : Type} (operation : String) (x : FileCalls α) :
    EStateM FileDatabaseError FileSystem α :=
  x.within id (fun _ files => files) (.io operation)

/-- Whether a name is the temporary one of a segment. -/
def isSegmentTemp : FileName → Bool
  | .segmentTemp _ => true
  | _ => false

/-- Removes the segments that were not renamed. -/
def cleanupSegmentTemps (listing : Listing) : EStateM FileDatabaseError FileSystem PUnit := do
  let names ← io "read WAL directory" (FileCalls.readDir listing FileName.inWal)
  names.forM fun name => do
    io "read WAL directory entry" FileCalls.entry
    if isSegmentTemp name then io "remove temporary WAL segment" (FileCalls.remove name)
  if names.any isSegmentTemp then io "sync directory" FileCalls.syncDirectory

/-- Removes the snapshot that was not renamed, if there is one. -/
def cleanupSnapshotTemp : FileCalls PUnit := fun files =>
  match FileCalls.remove .snapshotTemp files with
  | .ok _ files => FileCalls.syncDirectory files
  | .error .notFound files => .ok ⟨⟩ files
  | .error kind files => .error kind files

/-- The largest watermark among the names of snapshots. -/
def latestWatermark (latest : Option U64) : List FileName → Except FileDatabaseError (Option U64)
  | [] => .ok latest
  | .snapshot watermark :: names =>
    latestWatermark (if latest.all (· < watermark) then some watermark else latest) names
  | name :: _ => .error (.invalidSnapshotName name)

section Hashing

variable (blake3 : List UInt8 → CommandHash)

/-- Decodes the latest snapshot, if there is one. -/
def loadLatestSnapshot (listing : Listing) (manifest : Manifest) :
    EStateM FileDatabaseError FileSystem (Option DecodedSnapshot) := do
  io "remove temporary snapshot" cleanupSnapshotTemp
  let names ← io "read snapshot directory" (FileCalls.readDir listing FileName.inSnapshots)
  let latest ← ofExcept (latestWatermark none names)
  match latest with
  | none => return none
  | some watermark => do
    let bytes ← io "read snapshot" (FileCalls.read (.snapshot watermark))
    ofExcept (Except.ensure (bytes.length ≤ manifest.snapshotLimits.maxTotalBytes.val.toNat)
      (.snapshot (.snapshot watermark) (.limit "total bytes" bytes.length
        manifest.snapshotLimits.maxTotalBytes.val.toNat)))
    let decoded ← ofExcept ((Snapshot.decode blake3 bytes manifest.snapshotLimits
      manifest.databaseUuid stateMachineSemanticsVersion watermark).mapError
        (.snapshot (.snapshot watermark)))
    return some decoded

/-- The segments from a sequence on, and the names of those before it. -/
def readSegmentEntries (databaseUuid : U128) (minimumSequence : U64) :
    List FileName → EStateM FileDatabaseError FileSystem (List RecordSequence × List FileName)
  | [] => return ([], [])
  | name :: names => do
    io "read WAL directory entry" FileCalls.entry
    match name with
    | .segment filenameSequence =>
      if filenameSequence.get < minimumSequence then do
        let (segments, obsolete) ← readSegmentEntries databaseUuid minimumSequence names
        return (segments, name :: obsolete)
      else do
        let content ← io "read segment header" (FileCalls.read name)
        let headerSequence ← ofExcept ((Segment.readHeader blake3 content databaseUuid).mapError
          (.segmentHeader name))
        ofExcept (Except.ensure (filenameSequence = headerSequence)
          (.segmentNameSequence name filenameSequence headerSequence))
        let (segments, obsolete) ← readSegmentEntries databaseUuid minimumSequence names
        return (headerSequence :: segments, obsolete)
    | _ => throw (.invalidSegmentName name)

/-- The segments from a sequence on in the order of their records, and the names of those before
it. -/
def readSegments (listing : Listing) (databaseUuid : U128) (minimumSequence : U64) :
    EStateM FileDatabaseError FileSystem (List RecordSequence × List FileName) := do
  let names ← io "read WAL directory" (FileCalls.readDir listing FileName.inWal)
  let (segments, obsolete) ← readSegmentEntries blake3 databaseUuid minimumSequence names
  if segments = [] then throw .missingSegments
  return (segments.insertionSort (· ≤ ·), obsolete)

/-- Recovers one segment.  A partial record is cut off the last one. -/
def recoverSegment (limits : RecordLimits) (segment : RecordSequence) (isSealed : Bool)
    (recovery : EngineRecovery) :
    EStateM FileDatabaseError FileSystem (EngineRecovery × Nat) := do
  ofExcept (Except.ensure (recovery.nextRecordSequence = some segment)
    (.segmentSequence (.segment segment) recovery.nextRecordSequence segment))
  let content ← io "open WAL segment for recovery" (FileCalls.read (.segment segment))
  match EngineRecovery.feed blake3 (content.drop Segment.headerLen) limits recovery with
  | .ok offset recovery => return (recovery, offset)
  | .error source recovery =>
    if !isSealed && source.isPartialTail then do
      io "open segment for tail repair" (FileCalls.openFile (.segment segment))
      io "truncate partial WAL tail" (FileCalls.setLen (.segment segment)
        (Segment.headerLen + source.lastValidOffset))
      io "sync repaired WAL segment" (FileCalls.sync (.segment segment))
      return (recovery, source.lastValidOffset)
    else throw (.segmentRecovery (.segment segment) (Segment.headerLen + source.offset) isSealed
      source)

/-- Recovers the segments one after another. -/
def recoverSegments (limits : RecordLimits) : List RecordSequence → EngineRecovery → Nat →
    EStateM FileDatabaseError FileSystem (EngineRecovery × Nat)
  | [], recovery, offset => return (recovery, offset)
  | segment :: segments, recovery, _ => do
    let (recovery, offset) ← recoverSegment blake3 limits segment (decide (segments ≠ [])) recovery
    recoverSegments limits segments recovery offset

/-- The last watermark is in range. -/
theorem watermarkLast_range : (0 : ℤ) ≤ 18446744073709551615 ∧
    (18446744073709551615 : ℤ) ≤ 18446744073709551615 := by decide

/-- The watermark of a snapshot that covers all records there can be. -/
def lastWatermark : U64 := ⟨18446744073709551615, watermarkLast_range⟩

/-- The sequence behind a watermark, if there is one. -/
def successor (watermark : U64) : Option RecordSequence :=
  (watermark.checkedAdd ⟨1, U64.one_range⟩).bind RecordSequence.new

/-- The first sequence that a snapshot does not cover, or the first of all if it covers every one. -/
def minimumSequence (loaded : Option DecodedSnapshot) : U64 :=
  loaded.elim RecordSequence.first.get fun value =>
    (value.walWatermark.checkedAdd ⟨1, U64.one_range⟩).getD RecordSequence.first.get

/-- Recovery over a snapshot, if there is one. -/
def startRecovery : Option DecodedSnapshot → EngineRecovery
  | none => .new
  | some value =>
    match successor value.walWatermark with
    | some next => .withExpected next value.engine
    | none => .fromExhaustedSnapshot value.engine

/-- The log of a database that goes on in an active segment. -/
def walAt (manifest : Manifest) (options : FileDatabaseOptions) (active : RecordSequence)
    (activeLen : Nat) (expectedSequence : Option RecordSequence) (files : FileSystem) :
    SegmentedWal blake3 where
  databaseUuid := manifest.databaseUuid
  active
  activeLen
  activeHasRecords := decide (Segment.headerLen < activeLen)
  segmentTarget := options.segmentTarget
  recordLimits := options.recordLimits
  expectedSequence
  snapshotLimits := options.snapshotLimits
  files

/-- Creates a database in an empty directory, behind its lock and its manifest. -/
def create (manifest : Manifest) (options : FileDatabaseOptions) :
    EStateM FileDatabaseError FileSystem (FileDatabase blake3) := do
  ofExcept options.validate
  io "create initial WAL segment" (createSegmentAtomic blake3 manifest.databaseUuid .first)
  io "open active WAL segment" (FileCalls.openFile (.segment .first))
  let files ← get
  return .new (walAt blake3 manifest options .first Segment.headerLen (some .first) files)
    options.databaseOptions

/-- Opens a database, behind its lock and its manifest. -/
def openDatabase (listing : Listing) (manifest : Manifest) (options : FileDatabaseOptions) :
    EStateM FileDatabaseError FileSystem (FileDatabase blake3) := do
  ofExcept options.validate
  ofExcept (Except.ensure (manifest.recordLimits = options.recordLimits)
    (.recordLimitsMismatch manifest.recordLimits options.recordLimits))
  ofExcept (Except.ensure (manifest.snapshotLimits = options.snapshotLimits)
    (.snapshotLimitsMismatch manifest.snapshotLimits options.snapshotLimits))
  cleanupSegmentTemps listing
  let loaded ← loadLatestSnapshot blake3 listing manifest
  let exhausted := loaded.any fun value => decide (value.walWatermark = lastWatermark)
  let (segments, obsolete) ← readSegments blake3 listing manifest.databaseUuid
    (minimumSequence loaded)
  let active := segments.getLastD .first
  let (recovery, finalValidOffset) ←
    if exhausted then pure (startRecovery loaded, 0)
    else recoverSegments blake3 options.recordLimits segments (startRecovery loaded) 0
  let outcome ← ofExcept ((recovery.finish finalValidOffset).mapError fun source =>
    .segmentRecovery (.segment active) (Segment.headerLen + source.offset) false source)
  obsolete.forM fun name => io "remove obsolete WAL prefix" (FileCalls.remove name)
  if obsolete ≠ [] then io "sync directory" FileCalls.syncDirectory
  let content ← io "inspect active WAL segment" (FileCalls.read (.segment active))
  io "open active WAL segment" (FileCalls.openFile (.segment active))
  let files ← get
  return {
    engine := outcome.engine
    backend := walAt blake3 manifest options active content.length outcome.nextRecordSequence files
    durability := options.durability
    recordLimits := options.recordLimits
    nextRecordSequence := outcome.nextRecordSequence
    poisoned := false }

/-- The last step of opening: the log goes on in the active segment. -/
def openActive (manifest : Manifest) (options : FileDatabaseOptions) (active : RecordSequence)
    (outcome : RecoveryOutcome) : EStateM FileDatabaseError FileSystem (FileDatabase blake3) := do
  let content ← io "inspect active WAL segment" (FileCalls.read (.segment active))
  io "open active WAL segment" (FileCalls.openFile (.segment active))
  let files ← get
  return {
    engine := outcome.engine
    backend := walAt blake3 manifest options active content.length outcome.nextRecordSequence files
    durability := options.durability
    recordLimits := options.recordLimits
    nextRecordSequence := outcome.nextRecordSequence
    poisoned := false }

/-- The steps of opening behind the recovery of the records. -/
def goOn (manifest : Manifest) (options : FileDatabaseOptions) (active : RecordSequence)
    (obsolete : List FileName) (outcome : RecoveryOutcome) :
    EStateM FileDatabaseError FileSystem (FileDatabase blake3) := do
  obsolete.forM fun name => io "remove obsolete WAL prefix" (FileCalls.remove name)
  if obsolete ≠ [] then io "sync directory" FileCalls.syncDirectory
  openActive blake3 manifest options active outcome

/-- The steps of opening behind the latest snapshot. -/
def openBehind (listing : Listing) (manifest : Manifest) (options : FileDatabaseOptions)
    (loaded : Option DecodedSnapshot) :
    EStateM FileDatabaseError FileSystem (FileDatabase blake3) := do
  let exhausted := loaded.any fun value => decide (value.walWatermark = lastWatermark)
  let (segments, obsolete) ← readSegments blake3 listing manifest.databaseUuid
    (minimumSequence loaded)
  let active := segments.getLastD .first
  let (recovery, finalValidOffset) ←
    if exhausted then pure (startRecovery loaded, 0)
    else recoverSegments blake3 options.recordLimits segments (startRecovery loaded) 0
  let outcome ← ofExcept ((recovery.finish finalValidOffset).mapError fun source =>
    .segmentRecovery (.segment active) (Segment.headerLen + source.offset) false source)
  goOn blake3 manifest options active obsolete outcome

/-- Opening is its checks, its cleanup, the latest snapshot and what lies behind that. -/
theorem openDatabase_eq (listing : Listing) (manifest : Manifest)
    (options : FileDatabaseOptions) :
    openDatabase blake3 listing manifest options = (do
      ofExcept options.validate
      ofExcept (Except.ensure (manifest.recordLimits = options.recordLimits)
        (.recordLimitsMismatch manifest.recordLimits options.recordLimits))
      ofExcept (Except.ensure (manifest.snapshotLimits = options.snapshotLimits)
        (.snapshotLimitsMismatch manifest.snapshotLimits options.snapshotLimits))
      cleanupSegmentTemps listing
      let loaded ← loadLatestSnapshot blake3 listing manifest
      openBehind blake3 listing manifest options loaded) := rfl

end Hashing

/-! ## Snapshots -/

/-- What was done to create a snapshot. -/
structure SnapshotOutcome where
  name : FileName
  watermark : U64
  segmentsRemoved : Nat
  olderSnapshotsRemoved : Nat
  bytes : Nat

/-- The watermark of a snapshot: the sequence before the next one. -/
def snapshotWatermark (next : Option RecordSequence) : U64 :=
  next.elim lastWatermark fun sequence =>
    (sequence.get.checkedSub ⟨1, U64.one_range⟩).getD lastWatermark

variable {blake3 : List UInt8 → CommandHash}

/-- Runs calls on the files of a database. -/
def onFiles {α : Type} (f : IoErrorKind → FileDatabaseError) (x : FileCalls α) :
    EStateM FileDatabaseError (FileDatabase blake3) α :=
  x.within (fun db => db.backend.files)
    (fun db files => { db with backend := { db.backend with files := files } }) f

/-- Removes the listed files but one. -/
def removeOthers (kept : FileName) (names : List FileName) : FileCalls PUnit :=
  names.forM fun name => do
    FileCalls.entry
    if name ≠ kept then FileCalls.remove name

/-- Writes a snapshot under its temporary name and renames it. -/
def installSnapshot (watermark : U64) (bytes : List UInt8) : FileCalls PUnit := do
  cleanupSnapshotTemp
  FileCalls.createNew .snapshotTemp
  FileCalls.write .snapshotTemp bytes
  FileCalls.sync .snapshotTemp
  FileCalls.rename .snapshotTemp (.snapshot watermark)
  FileCalls.syncDirectory

/-- Removes a part of the directory but one file, and counts what was removed. -/
def compact (listing : Listing) (part : FileName → Bool) (kept : FileName) : FileCalls Nat := do
  let names ← FileCalls.readDir listing part
  removeOthers kept names
  FileCalls.syncDirectory
  return (names.filter fun name => decide (name ≠ kept)).length

/-- Rotates the log of a database. -/
def rotate (next : RecordSequence) : EStateM FileDatabaseError (FileDatabase blake3) PUnit :=
  (SegmentedWal.rotate next).within Database.backend
    (fun db backend => { db with backend := backend }) fun _ => .io "rotate WAL before snapshot" .other

/-- Creates a snapshot and removes what it covers. -/
def createSnapshot (listing : Listing) :
    EStateM FileDatabaseError (FileDatabase blake3) SnapshotOutcome := do
  let db ← get
  if db.poisoned = true then throw .snapshotPoisoned
  let watermark := snapshotWatermark db.nextRecordSequence
  match db.nextRecordSequence with
  | some next => if db.backend.activeHasRecords then rotate next
  | none => pure ⟨⟩
  let bytes ← ofExcept ((Snapshot.encode blake3
    { databaseUuid := db.backend.databaseUuid
      semanticsVersion := stateMachineSemanticsVersion
      walWatermark := watermark
      engine := Engine.captureSnapshot db.engine } db.backend.snapshotLimits).mapError
        (.snapshot (.snapshot watermark)))
  onFiles (.io "install snapshot") (installSnapshot watermark bytes)
  let db ← get
  let segmentsRemoved ← onFiles
    (.snapshotCommittedCleanup (.snapshot watermark) watermark "remove covered WAL segment")
    (compact listing FileName.inWal (.segment db.backend.active))
  let olderSnapshotsRemoved ← onFiles
    (.snapshotCommittedCleanup (.snapshot watermark) watermark "remove older snapshot")
    (compact listing FileName.inSnapshots (.snapshot watermark))
  return ⟨.snapshot watermark, watermark, segmentsRemoved, olderSnapshotsRemoved, bytes.length⟩

/-- What a snapshot of a database holds. -/
def snapshotFile (db : FileDatabase blake3) : SnapshotFile where
  databaseUuid := db.backend.databaseUuid
  semanticsVersion := stateMachineSemanticsVersion
  walWatermark := snapshotWatermark db.nextRecordSequence
  engine := Engine.captureSnapshot db.engine

/-- The last steps of creating a snapshot: what it covers is removed. -/
def removeCovered (listing : Listing) (watermark : U64) (length : Nat) :
    EStateM FileDatabaseError (FileDatabase blake3) SnapshotOutcome := do
  let db ← get
  let segmentsRemoved ← onFiles
    (.snapshotCommittedCleanup (.snapshot watermark) watermark "remove covered WAL segment")
    (compact listing FileName.inWal (.segment db.backend.active))
  let olderSnapshotsRemoved ← onFiles
    (.snapshotCommittedCleanup (.snapshot watermark) watermark "remove older snapshot")
    (compact listing FileName.inSnapshots (.snapshot watermark))
  return ⟨.snapshot watermark, watermark, segmentsRemoved, olderSnapshotsRemoved, length⟩

/-- The steps of creating a snapshot behind the rotation. -/
def installCaptured (listing : Listing) (file : SnapshotFile) (limits : SnapshotLimits) :
    EStateM FileDatabaseError (FileDatabase blake3) SnapshotOutcome := do
  let bytes ← ofExcept ((Snapshot.encode blake3 file limits).mapError
    (.snapshot (.snapshot file.walWatermark)))
  onFiles (.io "install snapshot") (installSnapshot file.walWatermark bytes)
  removeCovered listing file.walWatermark bytes.length

/-- A snapshot is created by rotating the log, if it has records, and installing what was captured
before. -/
theorem createSnapshot_eq (listing : Listing) :
    @createSnapshot blake3 listing = (do
      let db ← get
      if db.poisoned = true then throw .snapshotPoisoned
      match db.nextRecordSequence with
      | some next => if db.backend.activeHasRecords then rotate next
      | none => pure ⟨⟩
      installCaptured listing db.snapshotFile db.backend.snapshotLimits) := rfl

end FileDatabase

end PromiseDb
