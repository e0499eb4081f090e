import PromiseDb.Storage.SnapshotCreation

/-!
# Runs of a file database

A file database is created, executes groups of commands, creates snapshots, is stopped or crashes at
any call, also while it is being opened, and is opened again.  Its history is made of the records of
the acknowledged groups, and of those of a group in the middle of which it was stopped that are
complete in the files.  As long as no group restores a pool, every snapshot can be read back, and the
log does not go on before a segment that a failed snapshot has left, opening recovers exactly the
history.
-/

namespace PromiseDb

open Database Faults

variable {blake3 : List UInt8 → CommandHash} {faulty : Prop} {manifest : Manifest}
  {history : List TimestampedTransition} {shape : Shape} {first : RecordSequence}
  {db db' : FileDatabase blake3} {d : Directory}

/-! ## Runs -/

/-- A database over its life: it is open, or there are only its files. -/
inductive Site (blake3 : List UInt8 → CommandHash)
  | opened (db : FileDatabase blake3)
  | closed (d : Directory)

/-- No command of a group gives a pool a curve that it had before. -/
def RestoresNone (db : FileDatabase blake3) (commands : List (Command × Timestamp)) : Prop :=
  ∀ entry ∈ Engine.firstSeen blake3 db.engine.state commands,
    ¬Engine.RestoresPool blake3 db.engine.state entry.1 entry.2.1 entry.2.2

/-- No segment lies behind the one in which the log goes on. -/
def GoesOnLast (db : FileDatabase blake3) : Prop :=
  ∀ first, FileName.segment first ∈ db.backend.files.state → first ≤ db.backend.active

/-- The runs of a file database with their histories.  The database is created without a failing call,
and it syncs every group (`FileDatabaseOptions.Matches`).  Later on one call of an operation may fail,
or the machine may crash at it.  Names change durably at once; a crash keeps, of the bytes that were
appended to a file since it was synced, a part from the front, and what is left after a stop is
stable (`Directory.Cut`).  A group that has failed leaves a database that does not write any more, so
that the run goes on with its files.

Three things are excluded, since the history is not recovered after them: a group that gives a pool a
curve back that it had before (`RestoresNone`), a snapshot of a state that is not within the bounds of
the decoder (`ReadsBack`), and going on after a failed snapshot that has left a segment behind the
active one (`GoesOnLast`). -/
inductive FileRun (blake3 : List UInt8 → CommandHash) (manifest : Manifest) :
    List TimestampedTransition → Site blake3 → Prop
  | created {options : FileDatabaseOptions} (hoptions : options.Matches manifest)
      {db : FileDatabase blake3} {files : FileSystem}
      (hcreate : FileDatabase.create blake3 manifest options ⟨∅, none⟩ = .ok db files) :
      FileRun blake3 manifest [] (.opened db)
  | acknowledged {history : List TimestampedTransition} {db db' : FileDatabase blake3}
      (before : FileRun blake3 manifest history (.opened db))
      {commands : List (Command × Timestamp)} {prepared : PreparedBatch}
      {responses : List CommandResponse}
      (hprepared : Engine.prepareBatch blake3 db.engine commands = .ok prepared)
      (hrestores : RestoresNone db commands)
      (happlied : applyBatch blake3 commands db = .ok responses db') :
      FileRun blake3 manifest (history ++ prepared.durableItems) (.opened db')
  | refused {history : List TimestampedTransition} {db db' : FileDatabase blake3}
      (before : FileRun blake3 manifest history (.opened db))
      {commands : List (Command × Timestamp)} {error : DatabaseError}
      (happlied : applyBatch blake3 commands db = .error error db') :
      FileRun blake3 manifest history (.opened db')
  | groupStopped {history : List TimestampedTransition} {db : FileDatabase blake3}
      (before : FileRun blake3 manifest history (.opened db))
      {commands : List (Command × Timestamp)} {prepared : PreparedBatch}
      (hprepared : Engine.prepareBatch blake3 db.engine commands = .ok prepared)
      (hrestores : RestoresNone db commands) {fault : Option Faults.Fault} {d : Directory}
      (hcut : (applyBatch blake3 commands
        (db.withFault fault)).finalState.backend.files.state.Cut d) :
      FileRun blake3 manifest (history ++ prepared.durableItems.take
        (recordsLeft blake3 manifest.recordLimits db prepared.durableItems d)) (.closed d)
  | snapshot {history : List TimestampedTransition} {db : FileDatabase blake3}
      (before : FileRun blake3 manifest history (.opened db)) (hreads : ReadsBack db)
      (listing : Listing) :
      FileRun blake3 manifest history
        (.opened (FileDatabase.createSnapshot listing db).finalState)
  | snapshotFailed {history : List TimestampedTransition} {db db' : FileDatabase blake3}
      (before : FileRun blake3 manifest history (.opened db)) (hreads : ReadsBack db)
      {listing : Listing} {fault : Option Faults.Fault} {error : FileDatabaseError}
      (hfailed : FileDatabase.createSnapshot listing (db.withFault fault) = .error error db')
      (hpast : db'.backend.files.fault = none) (hlast : GoesOnLast db') :
      FileRun blake3 manifest history (.opened db')
  | snapshotStopped {history : List TimestampedTransition} {db : FileDatabase blake3}
      (before : FileRun blake3 manifest history (.opened db)) (hreads : ReadsBack db)
      {listing : Listing} {fault : Option Faults.Fault} {d : Directory}
      (hcut : (FileDatabase.createSnapshot listing
        (db.withFault fault)).finalState.backend.files.state.Cut d) :
      FileRun blake3 manifest history (.closed d)
  | stopped {history : List TimestampedTransition} {db : FileDatabase blake3}
      (before : FileRun blake3 manifest history (.opened db)) {d : Directory}
      (hcut : db.backend.files.state.Cut d) : FileRun blake3 manifest history (.closed d)
  | reopened {history : List TimestampedTransition} {d : Directory}
      (before : FileRun blake3 manifest history (.closed d)) {listing : Listing}
      {options : FileDatabaseOptions} (hoptions : options.Matches manifest)
      {db : FileDatabase blake3} {files : FileSystem}
      (hopen : FileDatabase.openDatabase blake3 listing manifest options ⟨d, none⟩ =
        .ok db files) :
      FileRun blake3 manifest history (.opened db)
  | openingStopped {history : List TimestampedTransition} {d d' : Directory}
      (before : FileRun blake3 manifest history (.closed d)) {listing : Listing}
      {options : FileDatabaseOptions} (hoptions : options.Matches manifest)
      {fault : Option Faults.Fault}
      (hcut : (FileDatabase.openDatabase blake3 listing manifest options
        ⟨d, fault⟩).finalState.state.Cut d') :
      FileRun blake3 manifest history (.closed d')

/-! ## Creation -/

/-- A database that is created has one segment without records. -/
def Shape.initial : Shape where
  selected := none
  base := .empty
  sealedSegments := []
  active := .first
  records := []
  next := some .first

/-- The files of a new database stand for the empty history. -/
theorem Shape.initial_of {limits : RecordLimits} : Shape.initial.Of blake3 limits [] := by
  refine ⟨le_rfl, rfl, fun start hstart => ?_, nofun⟩
  obtain rfl : RecordSequence.first = start := Option.some.inj hstart
  exact ⟨[], [], .nil _, .nil _, rfl⟩

/-- The first segment of a new database is all there is. -/
theorem Shape.initial_in {d : Directory} (hnames : ∀ name ∈ d, name = .segmentTemp .first) :
    Shape.initial.In blake3 manifest [] (d.insert (.segment .first)
      (.synced (Segment.header blake3 manifest.databaseUuid .first))) := by
  have hother (name : FileName) (hname : name ≠ .segmentTemp .first)
      (hmem : name ∈ d.insert (.segment .first)
        (.synced (Segment.header blake3 manifest.databaseUuid .first))) : name = .segment .first := by
    rcases OrderedMap.mem_insert_iff.mp hmem with heq | hmem
    · exact heq.symm
    · exact absurd (hnames name hmem) hname
  refine ⟨⟨?_, ?_, nofun⟩, OrderedMap.mem_insert_iff.mpr (.inl rfl), ?_, ?_⟩
  · intro first file hfile
    have hfirst := hother (.segment first) nofun (OrderedMap.mem_iff_lookup.mpr ⟨file, hfile⟩)
    rw [hfirst, OrderedMap.lookup_insert_self] at hfile
    refine ⟨[], ?_⟩
    rw [FileName.segment.inj hfirst, List.append_nil]
    exact (Option.some.inj hfile).symm
  · intro watermark hmem
    cases hother (.snapshot watermark) nofun hmem
  · intro start hstart entry hentry
    obtain rfl := List.mem_singleton.mp hentry
    rw [List.append_nil]
    show (d.insert (.segment .first) _)[FileName.segment .first]? = _
    rw [OrderedMap.lookup_insert_self]
    exact congrArg (fun bytes => some (File.synced bytes)) (List.append_nil _).symm
  · intro start hstart first hle hmem
    rw [FileName.segment.inj (hother (.segment first) nofun hmem)]
    exact List.mem_singleton_self _

/-- The history of an empty engine. -/
theorem recorded_empty : Recorded blake3 [] .empty :=
  ⟨Engine.historyIs_empty, fun _ h => absurd h List.not_mem_nil⟩

/-- A database that was created in an empty directory has the empty history. -/
theorem Live.created {options : FileDatabaseOptions} (hoptions : options.Matches manifest)
    {files : FileSystem}
    (hcreate : FileDatabase.create blake3 manifest options ⟨∅, none⟩ = .ok db files) :
    Live manifest [] db := by
  have hsegment : Faults.Spec False
      (fun d : Directory => ∀ name ∈ d, name = .segmentTemp .first)
      (createSegmentAtomic blake3 manifest.databaseUuid .first)
      (fun _ => Shape.initial.In blake3 manifest []) (fun _ => True) := by
    refine spec_createSegmentAtomic ?_ ?_ (fun d hd => Shape.initial_in hd) (fun _ _ => trivial)
      nofun
    · intro d file hd name hmem
      rcases OrderedMap.mem_insert_iff.mp hmem with heq | hmem
      · exact heq.symm
      · exact hd name hmem
    · exact fun d hd name hmem => hd name (Std.ExtTreeMap.mem_of_mem_erase hmem)
  have hspec : Faults.Spec False (fun d : Directory => ∀ name ∈ d, name = .segmentTemp .first)
      (FileDatabase.create blake3 manifest options) (fun db _ => Live manifest [] db)
      (fun _ => True) := by
    unfold FileDatabase.create
    refine EStateM.Spec.andThen (EStateM.spec_ofExcept_ok hoptions.valid fun _ h => h) ?_
    refine EStateM.Spec.andThen hsegment.renamed ?_
    refine EStateM.Spec.andThen
      (FileCalls.spec_openFile (fun d hd => hd.active) nofun).renamed ?_
    refine EStateM.Spec.bind (EStateM.spec_get
      (R := fun files w => files = w ∧ Upto False (Shape.initial.In blake3 manifest []) w)
        fun w h => ⟨rfl, h⟩) fun files => ?_
    refine EStateM.spec_pure ?_
    rintro w ⟨rfl, hfault, hin⟩
    refine ⟨hfault, ?_, recorded_empty,
      ⟨⟨_, recorded_empty⟩, Shape.initial, [], Shape.initial_of, hin, .inl rfl⟩,
      fun _ => ⟨Shape.initial, Shape.initial_of, hin, ?_, ?_⟩⟩
    · by_contra hne
      exact hfault hne
    · exact ⟨rfl, hoptions.recordLimits, hoptions.recordLimits, hoptions.snapshotLimits,
        hoptions.durability, rfl, rfl⟩
    · exact ⟨rfl, fun _ => rfl, fun _ => ⟨nofun, fun hne => absurd rfl hne⟩⟩
  exact (hspec.of_ok hcreate ⟨fun hne => hne rfl,
    fun name hmem => absurd hmem Std.ExtTreeMap.not_mem_empty⟩).2

/-! ## Opening -/

/-- Opening the files of a history without a failure recovers it. -/
theorem Closed.opens (h : Closed blake3 manifest history d) (listing : Listing)
    {options : FileDatabaseOptions} (hoptions : options.Matches manifest) :
    ∃ shape tail db d', Shape.Of blake3 manifest.recordLimits history shape ∧
      shape.In blake3 manifest tail d ∧
      FileDatabase.openDatabase blake3 listing manifest options ⟨d, none⟩ = .ok db ⟨d', none⟩ ∧
      db.backend.files.fault = none ∧ Opened manifest history shape db d' := by
  obtain ⟨⟨e, hrecorded⟩, shape, tail, hof, hin, htail⟩ := h
  have hspec : Faults.Spec False (shape.In blake3 manifest tail)
      (FileDatabase.openDatabase blake3 listing manifest options)
      (fun db d => (db.backend.files.fault ≠ none → False) ∧ Opened manifest history shape db d)
      (fun _ => False) :=
    (spec_openDatabase hoptions hof htail hrecorded).weaken (fun _ h => h) (fun _ _ h => h)
      fun w hw => hw.imp And.left
  obtain ⟨db, d', hrun, hfault, hopened⟩ := hspec.ok hin
  refine ⟨shape, tail, db, d', hof, hin, hrun, ?_, hopened⟩
  by_contra hne
  exact hfault hne

/-- A database that was opened goes on with the history. -/
theorem Opened.live {shape : Shape} (h : Opened manifest history shape db d)
    (hfault : db.backend.files.fault = none) : Live manifest history db := by
  obtain ⟨shape', hof, hin, hhandled, hattached⟩ := h.shape
  rw [← h.files] at hin
  exact ⟨hfault, h.recorded, ⟨⟨_, h.recorded⟩, shape', [], hof, hin, .inl rfl⟩,
    fun _ => ⟨shape', hof, hin, hhandled, hattached⟩⟩

/-- Opening that is stopped at any call changes nothing about the history. -/
theorem Closed.openingStopped (h : Closed blake3 manifest history d) {listing : Listing}
    {options : FileDatabaseOptions} (hoptions : options.Matches manifest)
    {fault : Option Faults.Fault} {d' : Directory}
    (hcut : (FileDatabase.openDatabase blake3 listing manifest options
      ⟨d, fault⟩).finalState.state.Cut d') : Closed blake3 manifest history d' := by
  obtain ⟨⟨e, hrecorded⟩, shape, tail, hof, hin, htail⟩ := h
  have hspec : Faults.Spec True (shape.In blake3 manifest tail)
      (FileDatabase.openDatabase blake3 listing manifest options)
      (fun db d => (db.backend.files.fault ≠ none → True) ∧ Opened manifest history shape db d)
      (fun d => True ∧ Closed blake3 manifest history d) :=
    spec_openDatabase hoptions hof htail hrecorded
  obtain ⟨db, w, hrun, -, -, hopened⟩ | ⟨error, w, hrun, -, -, hclosed⟩ :=
    hspec ⟨d, fault⟩ ⟨fun _ => trivial, hin⟩
  · rw [hrun] at hcut
    obtain ⟨shape', hof', hin', -⟩ := hopened.shape
    have hclosed : Closed blake3 manifest history w.state :=
      ⟨⟨_, hrecorded⟩, shape', [], hof', hin', .inl rfl⟩
    exact (hclosed.cut hcut).1
  · rw [hrun] at hcut
    exact (hclosed.cut hcut).1

/-! ## Failed snapshots -/

/-- After a snapshot that has failed the log goes on, unless the next segment is there already. -/
theorem Live.snapshotFailed (h : Live manifest history db) (hdecodes : DecodesBack db)
    {listing : Listing} {fault : Option Faults.Fault} {error : FileDatabaseError}
    (hfailed : FileDatabase.createSnapshot listing (db.withFault fault) = .error error db')
    (hpast : db'.backend.files.fault = none) (hlast : GoesOnLast db') :
    Live manifest history db' := by
  cases hpoisoned : db.poisoned with
  | true =>
    have hrefused : (db.withFault fault).poisoned = true := hpoisoned
    rw [FileDatabase.createSnapshot_poisoned hrefused] at hfailed
    obtain ⟨-, rfl⟩ := EStateM.Result.error.inj hfailed
    refine ⟨hpast, h.recorded, h.closed, fun hhealthy => ?_⟩
    rw [hrefused] at hhealthy
    cases hhealthy
  | false =>
    obtain ⟨shape, hkept⟩ : ∃ shape, Shape.Kept True manifest history shape (db.withFault fault) :=
      h.kept hpoisoned True fun _ => trivial
    have hspec := hkept.spec_createSnapshot hpoisoned h.recorded hdecodes listing
    obtain ⟨⟨backend, rfl⟩, ⟨shape', hkept'⟩ | ⟨-, -, shape', hstranded⟩⟩ :=
      hspec.of_error hfailed rfl
    · exact hkept'.live hpast h.recorded
    · -- the new segment is there
      obtain ⟨first, hnext, -, hin⟩ := hstranded.files
      have hless := hstranded.of.active_lt hnext hstranded.full
      have hle := hlast first hin.active
      rw [hstranded.attached.active] at hle
      exact absurd hle (not_le.mpr hless)

/-! ## A small database -/

/-- A group of one command gives no pool a curve that it had before. -/
theorem restoresNone_single (db : FileDatabase blake3) (command : Command) (now : Timestamp) :
    RestoresNone db [(command, now)] := by
  intro entry hentry
  cases hrecord : db.engine.state.idempotencyRecords[command.identity]? with
  | some record =>
    rw [Engine.firstSeen, hrecord] at hentry
    exact absurd hentry List.not_mem_nil
  | none =>
    rw [Engine.firstSeen, hrecord] at hentry
    rw [List.mem_singleton.mp hentry]
    exact Engine.not_restoresPool_self _ command now

/-- A group without revisions gives no pool a curve that it had before. -/
theorem restoresNone_of_no_revisions (db : FileDatabase blake3) {commands : List (Command × Timestamp)}
    (hnone : ∀ entry ∈ commands, ∀ id curve mode,
      entry.1.operation ≠ .reviseCapacity id curve mode) : RestoresNone db commands := by
  rintro entry hentry ⟨id, curve, mode, hoperation, -⟩
  have hmem := (Engine.firstSeen_sublist db.engine.state commands).subset
    (List.mem_map_of_mem hentry)
  exact hnone _ hmem id curve mode hoperation

/-- The manifest of a small database. -/
def sampleManifest : Manifest := ⟨Snapshot.sampleU128 7, .default, Snapshot.sampleLimits⟩

/-- Its configuration. -/
def sampleFileOptions : FileDatabaseOptions :=
  ⟨.sync, .default, Engine.sampleQuantity 999, Snapshot.sampleLimits⟩

/-- A database that was just created. -/
def sampleDatabase : Option (FileDatabase Engine.sampleHash) :=
  EStateM.run' (FileDatabase.create Engine.sampleHash sampleManifest sampleFileOptions) ⟨∅, none⟩

/-- A group that holds a promise on a pool that does not exist. -/
def sampleRejected : List (Command × Timestamp) := [(Engine.sampleHold, Engine.sampleTime 0)]

/-- A group that creates the pool. -/
def sampleCreation : List (Command × Timestamp) := [(Engine.sampleCreate, Engine.sampleTime 0)]

/-- A new database after its first group. -/
def sampleUsed : Option (FileDatabase Engine.sampleHash) :=
  sampleDatabase.map fun db => (applyBatch Engine.sampleHash sampleRejected db).finalState

/-- The options match the manifest. -/
theorem sampleFileOptions_matches : sampleFileOptions.Matches sampleManifest := ⟨rfl, rfl, rfl, rfl⟩

/-- The creation of the small database is a run. -/
theorem sampleDatabase_run : ∃ db, sampleDatabase = some db ∧
    FileRun Engine.sampleHash sampleManifest [] (.opened db) := by
  have hcreated : sampleDatabase.isSome = true := by
    decide +kernel
  unfold sampleDatabase EStateM.run' EStateM.run at *
  cases hcreate : FileDatabase.create Engine.sampleHash sampleManifest sampleFileOptions
      ⟨∅, none⟩ with
  | error error files =>
    rw [hcreate] at hcreated
    cases hcreated
  | ok db files => exact ⟨db, rfl, .created sampleFileOptions_matches hcreate⟩

/-- The first group of the small database continues the run. -/
theorem sampleUsed_run : ∃ history db, sampleUsed = some db ∧ history.length = 1 ∧
    FileRun Engine.sampleHash sampleManifest history (.opened db) := by
  have happly : (sampleDatabase.map fun db =>
      (EStateM.run' (applyBatch Engine.sampleHash sampleRejected) db).isSome) = some true := by
    decide +kernel
  have hprepared : (sampleDatabase.map fun db => (Engine.prepareBatch Engine.sampleHash db.engine
      sampleRejected).toOption.map fun prepared => prepared.durableItems.length) =
        some (some 1) := by
    decide +kernel
  obtain ⟨db, hdatabase, hnew⟩ := sampleDatabase_run
  unfold sampleUsed
  rw [hdatabase] at happly hprepared ⊢
  replace hprepared := Option.some.inj hprepared
  dsimp only at hprepared
  obtain ⟨responses, db', hgroup⟩ := EStateM.exists_ok_of_isSome (Option.some.inj happly)
  obtain ⟨prepared, hprepare, -⟩ := applyBatch_acknowledged hgroup
  rw [hprepare] at hprepared
  refine ⟨_, db', ?_, Option.some.inj hprepared, hnew.acknowledged hprepare
    (restoresNone_single db Engine.sampleHold (Engine.sampleTime 0)) hgroup⟩
  rw [Option.map_some, hgroup, EStateM.Result.finalState_ok]

/-! ## Every run -/

/-- What is known of a database, be it open or not. -/
def Site.Safe (manifest : Manifest) (history : List TimestampedTransition) : Site blake3 → Prop
  | opened db => Live manifest history db
  | closed d => Closed blake3 manifest history d

/-- In every run the files stand for the history. -/
theorem FileRun.safe {site : Site blake3} (h : FileRun blake3 manifest history site) :
    site.Safe manifest history := by
  induction h with
  | created hoptions hcreate => exact Live.created hoptions hcreate
  | acknowledged before hprepared hrestores happlied ih =>
    exact Live.applied ih happlied hprepared hrestores
  | refused before happlied ih => exact Live.refused ih happlied
  | groupStopped before hprepared hrestores hcut ih =>
    exact Live.crashed ih hprepared hrestores hcut
  | snapshot before hreads listing ih =>
    exact Live.snapshot ih (hreads.decodes (Live.recorded ih).is.sound) listing
  | snapshotFailed before hreads hfailed hpast hlast ih =>
    exact Live.snapshotFailed ih (hreads.decodes (Live.recorded ih).is.sound) hfailed hpast hlast
  | snapshotStopped before hreads hcut ih =>
    exact Live.snapshotCrashed ih (hreads.decodes (Live.recorded ih).is.sound) _ hcut
  | stopped before hcut ih => exact (Closed.cut (Live.closed ih) hcut).1
  | @reopened history d before listing options hoptions db files hopen ih =>
    obtain ⟨shape, tail, db', d', -, -, hrun, hfault, hopened⟩ := Closed.opens ih listing hoptions
    rw [hopen] at hrun
    obtain ⟨rfl, -⟩ := EStateM.Result.ok.inj hrun
    exact hopened.live hfault
  | openingStopped before hoptions hcut ih => exact Closed.openingStopped ih hoptions hcut

/-- What is recovered from the files of a history: its state, the sequence behind its last record, and
the state of the latest snapshot as the one after the first records. -/
structure Recovers (manifest : Manifest) (history : List TimestampedTransition) (d : Directory)
    (db : FileDatabase blake3) : Prop where
  healthy : db.poisoned = false
  state : Engine.installAll blake3 .empty history = .ok db.engine.unindexed
  index : db.engine.state.IndexExact
  next : Database.sequenceIndex db.nextRecordSequence = history.length
  expected : db.backend.expectedSequence = db.nextRecordSequence
  covered : ∃ selected : Option U64,
    (∀ watermark, FileName.snapshot watermark ∈ d → ∃ last ∈ selected, watermark ≤ last) ∧
    ∀ watermark ∈ selected, ∃ file base recovered,
      d[FileName.snapshot watermark]? = some file ∧
      Snapshot.decode blake3 file.content manifest.snapshotLimits manifest.databaseUuid
        stateMachineSemanticsVersion watermark = .ok ⟨watermark, base⟩ ∧
      watermark.val.toNat ≤ history.length ∧
      Engine.installAll blake3 .empty (history.take watermark.val.toNat) = .ok base ∧
      Engine.installAll blake3 base (history.drop watermark.val.toNat) = .ok recovered ∧
      Engine.rebuildSlackTimelines recovered = .ok db.engine

/-- A database that was opened has recovered what the files stand for. -/
theorem Opened.replays {shape : Shape} {tail : List UInt8} {d' : Directory}
    (h : Opened manifest history shape db d') (hof : shape.Of blake3 manifest.recordLimits history)
    (hin : shape.In blake3 manifest tail d) : Recovers manifest history d db where
  healthy := h.healthy
  state := h.recorded.is.installed
  index := h.recorded.is.sound.index
  next := by
    rw [h.next]
    exact hof.sequenceIndex_next
  expected := by
    obtain ⟨shape', -, -, hhandled, -⟩ := h.shape
    exact hhandled.expected.trans hhandled.next.symm
  covered := by
    refine ⟨shape.selected, hin.intact.latest, fun watermark hselected => ?_⟩
    obtain ⟨bytes, hbytes, -, hdecode⟩ := hin.intact.snapshot watermark hselected
    obtain ⟨recovered, hreplay, hrebuild⟩ := h.replayed
    have hcovered : shape.covered = watermark.val.toNat := by
      rw [Shape.covered, Option.mem_def.mp hselected]
      rfl
    rw [hcovered] at hreplay
    have hbase := hof.base
    rw [hcovered] at hbase
    rw [← File.content_synced bytes] at hdecode
    exact ⟨_, shape.base, recovered, hbytes, hdecode, hcovered ▸ hof.covers, hbase, hreplay,
      hrebuild⟩

/-- Closed files are opened, and recovered. -/
theorem Closed.recovered (h : Closed blake3 manifest history d) (listing : Listing)
    {options : FileDatabaseOptions} (hoptions : options.Matches manifest) :
    ∃ db d', FileDatabase.openDatabase blake3 listing manifest options ⟨d, none⟩ = .ok db ⟨d', none⟩ ∧
      Recovers manifest history d db := by
  obtain ⟨shape, tail, db, d', hof, hin, hrun, -, hopened⟩ := h.opens listing hoptions
  exact ⟨db, d', hrun, hopened.replays hof hin⟩

/-- However a file database was run, stopped and opened, opening its files recovers exactly its
history: no record of an acknowledged group is lost, none is there twice, and the log goes on behind
the last one. -/
theorem FileRun.recovers (h : FileRun blake3 manifest history (.closed d)) (listing : Listing)
    {options : FileDatabaseOptions} (hoptions : options.Matches manifest) :
    ∃ db d', FileDatabase.openDatabase blake3 listing manifest options ⟨d, none⟩ = .ok db ⟨d', none⟩ ∧
      Recovers manifest history d db := by
  have hclosed : Closed blake3 manifest history d := h.safe
  exact hclosed.recovered listing hoptions

/-- The machine crashes before the second group of the small database is synced. -/
theorem fileRun_recovers_sample : ∃ history d, history ≠ [] ∧
    FileRun Engine.sampleHash sampleManifest history (.closed d) ∧
    ∃ db d', FileDatabase.openDatabase Engine.sampleHash .sorted sampleManifest sampleFileOptions
      ⟨d, none⟩ = .ok db ⟨d', none⟩ ∧ Recovers sampleManifest history d db := by
  have hsecond : (sampleUsed.map fun db => (Engine.prepareBatch Engine.sampleHash db.engine
      sampleCreation).toOption.isSome) = some true := by
    decide +kernel
  obtain ⟨history, db, hused, hlength, hrun⟩ := sampleUsed_run
  rw [hused] at hsecond
  cases hprepare : Engine.prepareBatch Engine.sampleHash db.engine sampleCreation with
  | error error =>
    rw [Option.map_some, hprepare] at hsecond
    cases hsecond
  | ok prepared =>
    have hstopped := hrun.groupStopped hprepare
      (restoresNone_single db Engine.sampleCreate (Engine.sampleTime 0))
      (Directory.cut_keepAppended 0 (applyBatch Engine.sampleHash sampleCreation
        (FileDatabase.withFault db (some ⟨1, .crash⟩))).finalState.backend.files.state)
    refine ⟨_, _, ?_, hstopped, hstopped.recovers .sorted sampleFileOptions_matches⟩
    intro hnil
    have hempty := congrArg List.length hnil
    rw [List.length_append, hlength, List.length_nil] at hempty
    omega

/-! ## Open databases -/

/-- A log that goes on in the active segment of its files goes on in the last one. -/
theorem Shape.Kept.goesOnLast (h : shape.Kept faulty manifest history db)
    (hnext : shape.next = some first) : GoesOnLast db := by
  intro other hmem
  obtain ⟨start, hstart⟩ := Option.ne_none_iff_exists'.mp (h.of.start_ne_none hnext)
  have hactive : shape.active ∈ shape.firsts :=
    List.mem_append_right _ (List.mem_singleton_self _)
  have hstartle := h.of.start_le hstart hactive
  rw [h.attached.active]
  by_cases hle : start ≤ other
  · exact h.of.le_active hstart (h.files.2.names start hstart other hle hmem)
  · exact (not_le.mp hle).le.trans hstartle

end PromiseDb
