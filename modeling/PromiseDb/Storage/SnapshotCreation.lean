import PromiseDb.Storage.FileGroups
import PromiseDb.Storage.Opening
import PromiseDb.Storage.SnapshotReadBack

/-!
# Creating snapshots

A snapshot of an open database is created behind a rotation, installed under its name, and then the
segments and the snapshots that it covers are removed.  Wherever this is stopped, the files stand for
the same history.  A failure in the middle of the rotation may leave the database with a segment that
it does not know of: the log is stranded in the segment before.
-/

namespace PromiseDb

open Database Faults

variable {blake3 : List UInt8 → CommandHash} {faulty : Prop}

/-! ## Calls on the files -/

/-- A snapshot is written under its temporary name and renamed. -/
theorem spec_installSnapshot {watermark : U64} {bytes : List UInt8} {K K' C : Directory → Prop}
    (hinsert : ∀ d file, K d → K (d.insert .snapshotTemp file))
    (herase : ∀ d, K d → K (d.erase .snapshotTemp))
    (hrename : ∀ d, K d → K' (d.insert (.snapshot watermark) (.synced bytes)))
    (hC : faulty → ∀ d, K d → C d) (hC' : faulty → ∀ d, K' d → C d) :
    Faults.Spec faulty K (FileDatabase.installSnapshot watermark bytes) (fun _ => K') C := by
  have htemp (file : File) : faulty → ∀ d : Directory,
      K d ∧ d[FileName.snapshotTemp]? = some file → C d := fun hfaulty d h => hC hfaulty d h.1
  have hthere (file : File) : ∀ d : Directory,
      K d ∧ d[FileName.snapshotTemp]? = some file → FileName.snapshotTemp ∈ d :=
    fun d h => OrderedMap.mem_iff_lookup.mpr ⟨file, h.2⟩
  unfold FileDatabase.installSnapshot
  refine EStateM.Spec.andThen (spec_cleanupSnapshotTemp herase hC) ?_
  refine EStateM.Spec.andThen (FileCalls.spec_createNew
    (Q := fun d => K d ∧ d[FileName.snapshotTemp]? = some (.synced [])) ?_
    (fun d h hmem => absurd hmem h.2) (fun hfaulty d h => hC hfaulty d h.1) (htemp _)) ?_
  · rintro d ⟨hd, -⟩ -
    exact ⟨hinsert d _ hd, OrderedMap.lookup_insert_self _ _ _⟩
  refine EStateM.Spec.andThen (FileCalls.spec_change
    (Q := fun d => K d ∧ d[FileName.snapshotTemp]? = some ⟨[], bytes⟩) (hthere _) ?_ (htemp _)
      (htemp _)) ?_
  · rintro d file ⟨hd, hold⟩ hfile
    rw [hold] at hfile
    obtain rfl := Option.some.inj hfile
    exact ⟨hinsert d _ hd, OrderedMap.lookup_insert_self _ _ _⟩
  refine EStateM.Spec.andThen (FileCalls.spec_change
    (Q := fun d => K d ∧ d[FileName.snapshotTemp]? = some (.synced bytes)) (hthere _) ?_ (htemp _)
      (htemp _)) ?_
  · rintro d file ⟨hd, hold⟩ hfile
    rw [hold] at hfile
    obtain rfl := Option.some.inj hfile
    exact ⟨hinsert d _ hd, OrderedMap.lookup_insert_self _ _ _⟩
  refine EStateM.Spec.andThen (FileCalls.spec_rename (Q := K') (hthere _) ?_ (htemp _) hC') ?_
  · rintro d file ⟨hd, hold⟩ hfile
    rw [hold] at hfile
    obtain rfl := Option.some.inj hfile
    exact hrename _ (herase d hd)
  exact FileCalls.spec_syncDirectory hC'

/-- Of a part of the directory only one file is kept. -/
theorem spec_compact {listing : Listing} {part : FileName → Bool} {kept : FileName}
    {K C : Directory → Prop}
    (herase : ∀ d name, part name = true → name ≠ kept → K d → K (d.erase name))
    (hC : faulty → ∀ d, K d → C d) :
    Faults.Spec faulty K (FileDatabase.compact listing part kept)
      (fun _ d => K d ∧ ∀ name ∈ d, part name = true → name = kept) C := by
  unfold FileDatabase.compact FileDatabase.removeOthers
  refine EStateM.Spec.bind (R := fun names => Upto faulty fun d =>
    (names.Nodup ∧ ∀ name ∈ names, part name = true) ∧
      Removed K (fun name => part name = true ∧ name ≠ kept) names [] d) ?_ fun names => ?_
  · refine FileCalls.spec_readDir ?_ hC fun hfaulty names d h => hC hfaulty d h.2.keeps
    intro d hd
    exact ⟨⟨Directory.nodup_list _ _ _, fun name hname => (Directory.mem_list.mp hname).2⟩,
      Removed.start hd fun name hname => hname.1⟩
  refine Faults.Spec.fact ?_
  rintro ⟨hnodup, hpart⟩
  have hloop : Faults.Spec faulty
      (Removed K (fun name => part name = true ∧ name ≠ kept) names [])
      (names.forM fun name => do
        FileCalls.entry
        if name ≠ kept then FileCalls.remove name)
      (fun _ => Removed K (fun name => part name = true ∧ name ≠ kept) names names) C := by
    refine EStateM.Spec.forM (I := fun done => Upto faulty
      (Removed K (fun name => part name = true ∧ name ≠ kept) names done)) ?_
    intro done name rest hnames
    have hnew : name ∉ done := by
      rw [hnames, List.nodup_append] at hnodup
      exact fun hdone => hnodup.2.2 name hdone name List.mem_cons_self rfl
    have hlisted : name ∈ names := by
      rw [hnames]
      exact List.mem_append_right _ List.mem_cons_self
    refine EStateM.Spec.andThen
      (FileCalls.spec_entry fun hfaulty d h => hC hfaulty d h.keeps) ?_
    refine EStateM.Spec.ite ?_ ?_
    · intro hother
      refine FileCalls.spec_remove (fun d h => h.there _ hlisted hnew) ?_
        (fun hfaulty d h => hC hfaulty d h.keeps) fun hfaulty d h => hC hfaulty d h.keeps
      intro d h
      exact h.erase (herase d name (hpart name hlisted) hother h.keeps)
    · intro hother
      exact EStateM.spec_pure fun w h => h.imp fun h => h.skip fun hname => hother hname.2
  refine EStateM.Spec.andThen hloop ?_
  refine EStateM.Spec.andThen
    (FileCalls.spec_syncDirectory fun hfaulty d h => hC hfaulty d h.keeps) ?_
  refine EStateM.spec_pure fun w h => h.imp fun h => ⟨h.keeps, fun name hname hin => ?_⟩
  by_contra hne
  exact h.not_mem ⟨hin, hne⟩ hname

/-! ## The database as a state -/

variable {manifest : Manifest} {history : List TimestampedTransition} {shape : Shape}
  {db db' : FileDatabase blake3} {first : RecordSequence}

/-- The files of a database have a shape, and the log goes on in its active segment. -/
structure Shape.Kept (faulty : Prop) (manifest : Manifest) (history : List TimestampedTransition)
    (shape : Shape) (db : FileDatabase blake3) : Prop where
  of : shape.Of blake3 manifest.recordLimits history
  handled : shape.Handled manifest db
  attached : shape.Attached db.backend
  files : Upto faulty (shape.In blake3 manifest []) db.backend.files

/-- The next segment is there, but the log goes on in the one that was active before. -/
structure Shape.Stranded (faulty : Prop) (manifest : Manifest)
    (history : List TimestampedTransition) (shape : Shape) (db : FileDatabase blake3) : Prop where
  of : shape.Of blake3 manifest.recordLimits history
  handled : shape.Handled manifest db
  attached : shape.Attached db.backend
  full : shape.records ≠ []
  files : ∃ first, shape.next = some first ∧
    Upto faulty ((shape.rotated first).In blake3 manifest []) db.backend.files

/-- A database that is as before but for its log. -/
def OnBackend (db : FileDatabase blake3) (A : FileDatabase blake3 → Prop)
    (db' : FileDatabase blake3) : Prop :=
  (∃ backend, db' = { db with backend := backend }) ∧ A db'

/-- Less is known of the log. -/
theorem OnBackend.imp {A B : FileDatabase blake3 → Prop} (h : OnBackend db A db')
    (himp : A db' → B db') : OnBackend db B db' :=
  ⟨h.1, himp h.2⟩

/-- What is known of the log does not depend on its files. -/
theorem Shape.Kept.withFiles (h : shape.Kept faulty manifest history db) {files : FileSystem}
    {shape' : Shape} (hof : shape'.Of blake3 manifest.recordLimits history)
    (hnext : shape'.next = shape.next) (hactive : shape'.active = shape.active)
    (hrecords : shape'.records = shape.records) (hstart : shape'.start ≠ none → shape.start ≠ none)
    (hfiles : Upto faulty (shape'.In blake3 manifest []) files) :
    shape'.Kept faulty manifest history
      ({ db with backend := { db.backend with files := files } } : FileDatabase blake3) := by
  obtain ⟨huuid, hrecord, hwal, hsnapshot, hdurability, hnext', hexpected⟩ := h.handled
  rw [← hnext] at hnext' hexpected
  refine ⟨hof, ⟨huuid, hrecord, hwal, hsnapshot, hdurability, hnext', hexpected⟩,
    ⟨h.attached.active.trans hactive.symm, fun hne => ?_, fun hne => ?_⟩, hfiles⟩
  · rw [hrecords]
    exact h.attached.length (hstart hne)
  · rw [hrecords]
    exact h.attached.hasRecords (hstart hne)

/-- Calls on the files of a database that end. -/
theorem FileDatabase.onFiles_of_ok {α : Type} {x : FileCalls α} {a : α} {files : FileSystem}
    (hrun : x db.backend.files = .ok a files) (f : IoErrorKind → FileDatabaseError) :
    FileDatabase.onFiles f x db =
      .ok a { db with backend := { db.backend with files := files } } := by
  unfold FileDatabase.onFiles EStateM.within
  rw [hrun]

/-- Calls on the files of a database that fail. -/
theorem FileDatabase.onFiles_of_error {α : Type} {x : FileCalls α} {e : IoErrorKind}
    {files : FileSystem} (hrun : x db.backend.files = .error e files)
    (f : IoErrorKind → FileDatabaseError) :
    FileDatabase.onFiles f x db =
      .error (f e) { db with backend := { db.backend with files := files } } := by
  unfold FileDatabase.onFiles EStateM.within
  rw [hrun]

/-- Calls on the files of a database whose shape they may change. -/
theorem spec_onDatabaseFiles {α : Type} {x : FileCalls α} {A C : Directory → Prop}
    {B : α → Directory → Prop} (hx : Faults.Spec faulty A x B C)
    (f : IoErrorKind → FileDatabaseError) {P C' : FileDatabase blake3 → Prop}
    {Q : α → FileDatabase blake3 → Prop} (hP : ∀ db, P db → Upto faulty A db.backend.files)
    (hQ : ∀ db a files, P db → Upto faulty (B a) files →
      Q a { db with backend := { db.backend with files := files } })
    (hC : ∀ db files, P db → Upto faulty C files →
      C' { db with backend := { db.backend with files := files } }) :
    EStateM.Spec P (FileDatabase.onFiles f x) Q C' := by
  refine EStateM.Spec.within fun db hdb => ?_
  refine hx.weaken ?_ (fun a s hB => hQ db a s hdb hB) fun s hs => hC db s hdb hs
  rintro s rfl
  exact hP db hdb

/-! ## Rotation -/

/-- An active segment without records starts with the next sequence. -/
theorem Shape.Of.active_eq {limits : RecordLimits} (hof : shape.Of blake3 limits history)
    (hnext : shape.next = some first) (hrecords : shape.records = []) : shape.active = first := by
  obtain ⟨start, hstart⟩ := Option.ne_none_iff_exists'.mp (hof.start_ne_none hnext)
  obtain ⟨items, rest, -, hlogged, -⟩ := hof.logged start hstart
  rw [hnext, hrecords] at hlogged
  have hitems : rest = [] := by
    by_contra hne
    exact (hlogged.nonempty hne).2 rfl
  rw [hitems] at hlogged
  cases hlogged
  rfl

/-- The rotation of a database makes a new segment active, or is stopped. -/
theorem Shape.Kept.spec_rotate (h : shape.Kept faulty manifest history db)
    (hnext : shape.next = some first) (hfull : shape.records ≠ []) :
    EStateM.Spec (fun s => s = db) (FileDatabase.rotate first)
      (fun _ => OnBackend db ((shape.rotated first).Kept faulty manifest history))
      (OnBackend db fun s => shape.Kept faulty manifest history s ∨
        (faulty ∧ shape.Stranded faulty manifest history s)) := by
  obtain ⟨start, hstart⟩ := Option.ne_none_iff_exists'.mp (h.of.start_ne_none hnext)
  have hless := h.of.active_lt hnext hfull
  obtain ⟨huuid, hrecord, hwal, hsnapshot, hdurability, hnext', hexpected⟩ := h.handled
  have hrotate : EStateM.Spec (OnFiles db.backend (Upto faulty (shape.In blake3 manifest [])))
      (SegmentedWal.rotate first)
      (fun _ => OnFiles ({ db.backend with
        active := first, activeLen := Segment.headerLen, activeHasRecords := false } :
          SegmentedWal blake3)
          (Upto faulty ((shape.rotated first).In blake3 manifest [])))
      (OnFiles db.backend (Upto faulty fun d => shape.In blake3 manifest [] d ∨
        (faulty ∧ (shape.rotated first).In blake3 manifest [] d))) :=
    PromiseDb.spec_rotate huuid (fun d file hd => hd.insert_temp file nofun nofun)
      (fun d hd => hd.erase id) (fun d hd => hd.rotate (h.of.sorted hstart) hless)
      (fun d hd => hd.active) (fun d hd => .inl hd) fun hfaulty d hd => .inr ⟨hfaulty, hd⟩
  unfold FileDatabase.rotate
  refine EStateM.Spec.within fun db' hdb' => ?_
  subst hdb'
  refine hrotate.weaken ?_ ?_ ?_
  · rintro s rfl
    exact ⟨⟨db'.backend.files, rfl⟩, h.files⟩
  · rintro _ s ⟨⟨files, rfl⟩, hfiles⟩
    refine ⟨⟨_, rfl⟩, h.of.rotate hnext hless,
      ⟨huuid, hrecord, hwal, hsnapshot, hdurability, hnext'.trans hnext, hexpected.trans hnext⟩,
      ⟨rfl, fun _ => rfl, fun _ => ⟨nofun, fun hne => absurd rfl hne⟩⟩, hfiles⟩
  · rintro s ⟨⟨files, rfl⟩, hfault, hfiles⟩
    have hhandled : shape.Handled manifest
        ({ db' with backend := ({ db'.backend with files := files } : SegmentedWal blake3) } :
          FileDatabase blake3) :=
      ⟨huuid, hrecord, hwal, hsnapshot, hdurability, hnext', hexpected⟩
    have hattached : shape.Attached
        ({ db'.backend with files := files } : SegmentedWal blake3) :=
      ⟨h.attached.active, h.attached.length, h.attached.hasRecords⟩
    refine ⟨⟨_, rfl⟩, ?_⟩
    rcases hfiles with hin | ⟨hfaulty, hin⟩
    · exact .inl ⟨h.of, hhandled, hattached, hfault, hin⟩
    · exact .inr ⟨hfaulty, h.of, hhandled, hattached, hfull, first, hnext, hfault, hin⟩

/-- The rotation of a stranded database makes the segment active that is there already, or is stopped
again. -/
theorem Shape.Stranded.spec_rotate (h : shape.Stranded faulty manifest history db)
    (hnext : shape.next = some first) :
    EStateM.Spec (fun s => s = db) (FileDatabase.rotate first)
      (fun _ => OnBackend db ((shape.rotated first).Kept faulty manifest history))
      (OnBackend db (shape.Stranded faulty manifest history)) := by
  obtain ⟨first', hnext', hfiles⟩ := h.files
  obtain rfl : first' = first := Option.some.inj (hnext'.symm.trans hnext)
  have hless := h.of.active_lt hnext h.full
  obtain ⟨start, hstart⟩ := Option.ne_none_iff_exists'.mp (h.of.start_ne_none hnext)
  obtain ⟨huuid, hrecord, hwal, hsnapshot, hdurability, hhandled, hexpected⟩ := h.handled
  have hrotate : EStateM.Spec
      (OnFiles db.backend (Upto faulty ((shape.rotated first').In blake3 manifest [])))
      (SegmentedWal.rotate first')
      (fun _ => OnFiles ({ db.backend with
        active := first', activeLen := Segment.headerLen, activeHasRecords := false } :
          SegmentedWal blake3)
          (Upto faulty ((shape.rotated first').In blake3 manifest [])))
      (OnFiles db.backend (Upto faulty ((shape.rotated first').In blake3 manifest []))) := by
    refine PromiseDb.spec_rotate huuid (fun d file hd => hd.insert_temp file nofun nofun)
      (fun d hd => hd.erase id) (fun d hd => ?_) (fun d hd => hd.active) (fun d hd => hd)
      fun _ d hd => hd
    -- the segment is written once more
    have hlookup := hd.contents start hstart (first', []) (List.mem_append_right _
      (List.mem_singleton_self _))
    rw [List.append_nil] at hlookup
    rwa [OrderedMap.insert_eq_self hlookup]
  unfold FileDatabase.rotate
  refine EStateM.Spec.within fun db' hdb' => ?_
  subst hdb'
  refine hrotate.weaken ?_ ?_ ?_
  · rintro s rfl
    exact ⟨⟨db'.backend.files, rfl⟩, hfiles⟩
  · rintro _ s ⟨⟨files, rfl⟩, hfiles⟩
    exact ⟨⟨_, rfl⟩, h.of.rotate hnext hless,
      ⟨huuid, hrecord, hwal, hsnapshot, hdurability, hhandled.trans hnext, hexpected.trans hnext⟩,
      ⟨rfl, fun _ => rfl, fun _ => ⟨nofun, fun hne => absurd rfl hne⟩⟩, hfiles⟩
  · rintro s ⟨⟨files, rfl⟩, hfiles⟩
    exact ⟨⟨_, rfl⟩, h.of, ⟨huuid, hrecord, hwal, hsnapshot, hdurability, hhandled, hexpected⟩,
      ⟨h.attached.active, h.attached.length, h.attached.hasRecords⟩, h.full, first', hnext, hfiles⟩

/-! ## Snapshots -/

/-- The snapshot of a sound engine is read back if it is within the bounds of the decoder. -/
theorem Snapshot.decode_captured {e : Engine} (h : e.state.Sound) {limits : SnapshotLimits}
    {uuid : U128} {semantics : U32} {watermark : U64} {bytes : List UInt8}
    (hencode : Snapshot.encode blake3 ⟨uuid, semantics, watermark, Engine.captureSnapshot e⟩ limits =
      .ok bytes)
    (hreadable : SnapshotReadable limits (Engine.captureSnapshot e)) :
    Snapshot.decode blake3 bytes limits uuid semantics watermark =
      .ok ⟨watermark, e.unindexed⟩ := by
  obtain ⟨payload, hwrites, hread⟩ := SnapshotReader.payload_written
    (Snapshot.countsWithin_of_encode hencode) (Snapshot.entriesValid_capture h) hreadable
  have hdecode :=
    Snapshot.decode_encode hencode hwrites.written hread (Engine.restore_capture h)
  exact hdecode

/-- A snapshot that was written is not longer than its limits allow. -/
theorem Snapshot.length_encode {file : SnapshotFile} {limits : SnapshotLimits} {bytes : List UInt8}
    (hencode : Snapshot.encode blake3 file limits = .ok bytes) :
    bytes.length ≤ limits.maxTotalBytes.val.toNat := by
  obtain ⟨-, -, -, -, -, -, -, -, -, payload, payloadLen, totalLen, -, -, htotal, hlimit, rfl⟩ :=
    Snapshot.encode_eq_ok.mp hencode
  have htotal' : (Snapshot.headerLen + payload.length + Snapshot.checksumLen : ℤ) = totalLen.val :=
    BoundedInt.ofInt?_eq_some.mp htotal
  have hdigest := (blake3 (Snapshot.header totalLen payloadLen file ++ payload)).length_bytes
  have hlimit' : totalLen.val ≤ limits.maxTotalBytes.val := hlimit
  rw [List.length_append, List.length_append, Snapshot.length_header, hdigest]
  show Snapshot.headerLen + payload.length + Snapshot.checksumLen ≤ _
  omega

/-- The snapshot of a database is within the bounds of the decoder. -/
def ReadsBack (db : FileDatabase blake3) : Prop :=
  SnapshotReadable db.backend.snapshotLimits (Engine.captureSnapshot db.engine)

instance ReadsBack.decidable (db : FileDatabase blake3) : Decidable (ReadsBack db) :=
  inferInstanceAs (Decidable (SnapshotReadable _ _))

/-- The snapshot of a database decodes to what was encoded. -/
def DecodesBack (db : FileDatabase blake3) : Prop :=
  ∀ bytes, Snapshot.encode blake3 db.snapshotFile db.backend.snapshotLimits = .ok bytes →
    Snapshot.decode blake3 bytes db.backend.snapshotLimits db.backend.databaseUuid
      stateMachineSemanticsVersion db.snapshotFile.walWatermark =
        .ok ⟨db.snapshotFile.walWatermark, db.engine.unindexed⟩

/-- A snapshot within the bounds of the decoder decodes to what was encoded. -/
theorem ReadsBack.decodes (h : ReadsBack db) (hsound : db.engine.state.Sound) : DecodesBack db :=
  fun _ hencode => Snapshot.decode_captured hsound hencode h

/-- A shape whose active segment has no records is a rotated one. -/
theorem Shape.Kept.rotated (h : shape.Kept faulty manifest history db)
    (hempty : ∀ next, shape.next = some next → shape.records = []) : shape.Rotated := by
  intro next hnext
  exact ⟨h.of.active_eq hnext (hempty next hnext), hempty next hnext, h.of.start_ne_none hnext⟩

/-- After a snapshot the files have the shape of the snapshot, and nothing else is left. -/
structure Shape.Compacted (shape : Shape) (outcome : FileDatabase.SnapshotOutcome)
    (history : List TimestampedTransition) (d : Directory) : Prop where
  name : outcome.name = .snapshot outcome.watermark
  selected : shape.selected = some outcome.watermark
  covers : outcome.watermark.val = history.length
  names : ∀ name ∈ d, name = .segment shape.active ∨ name = outcome.name

/-- A snapshot begins with a rotation. -/
def FileDatabase.RotatesBefore (db : FileDatabase blake3) (next : RecordSequence) : Prop :=
  db.nextRecordSequence = some next ∧ db.backend.activeHasRecords = true

/-- Where the creation of a snapshot may be stopped: the log goes on, or the rotation has failed and
the log is stranded. -/
def SnapshotStopped (faulty : Prop) (manifest : Manifest) (history : List TimestampedTransition)
    (db db' : FileDatabase blake3) : Prop :=
  (∃ shape, Shape.Kept faulty manifest history shape db') ∨
    (faulty ∧ (∃ next e, db.RotatesBefore next ∧ FileDatabase.rotate next db = .error e db') ∧
      ∃ shape, Shape.Stranded faulty manifest history shape db')

/-- A segment that is not active is not needed behind a snapshot. -/
theorem Shape.not_uses_snapshotted {base : Engine} {name : FileName}
    (hpart : name.inWal = true) (hother : name ≠ .segment shape.active) :
    ¬(shape.snapshotted base).Uses name := by
  cases name with
  | segment first =>
    intro huse
    exact hother (congrArg FileName.segment (List.mem_singleton.mp huse))
  | segmentTemp first => exact id
  | snapshot watermark => cases hpart
  | snapshotTemp => cases hpart

/-- An older snapshot is not needed either. -/
theorem Shape.not_uses_older {name : FileName} {watermark : U64}
    (hselected : shape.selected = some watermark) (hpart : name.inSnapshots = true)
    (hother : name ≠ .snapshot watermark) : ¬shape.Uses name := by
  cases name with
  | segment first => cases hpart
  | segmentTemp first => cases hpart
  | snapshot other =>
    intro huse
    have hsame : shape.selected = some other := huse
    rw [hselected] at hsame
    exact hother (congrArg FileName.snapshot (Option.some.inj hsame).symm)
  | snapshotTemp => exact id

/-- Behind a snapshot the log goes on as long as there is a next sequence. -/
theorem Shape.snapshotted_start {base : Engine} :
    (shape.snapshotted base).start = shape.next :=
  FileDatabase.successor_snapshotWatermark shape.next

/-- The files of a database are changed behind the snapshot that they have. -/
theorem Shape.Kept.changed (h : OnBackend db (shape.Kept faulty manifest history) db')
    {files : FileSystem} (hfiles : Upto faulty (shape.In blake3 manifest []) files) :
    OnBackend db (shape.Kept faulty manifest history)
      { db' with backend := { db'.backend with files := files } } := by
  obtain ⟨⟨backend, rfl⟩, hkept⟩ := h
  exact ⟨⟨_, rfl⟩, hkept.withFiles hkept.of rfl rfl rfl id hfiles⟩

/-- Behind a snapshot everything else is removed but the active segment. -/
theorem Shape.Kept.spec_removeCovered {watermark : U64} (hselected : shape.selected = some watermark)
    (hunused : ∀ name, name.inWal = true → name ≠ .segment shape.active → ¬shape.Uses name)
    (hcovers : watermark.val = history.length) (listing : Listing) (length : Nat) :
    EStateM.Spec (OnBackend db (shape.Kept faulty manifest history))
      (FileDatabase.removeCovered listing watermark length)
      (fun outcome => OnBackend db fun s => ∃ shape', Shape.Kept faulty manifest history shape' s ∧
        shape'.Compacted outcome history s.backend.files.state)
      (OnBackend db (shape.Kept faulty manifest history)) := by
  unfold FileDatabase.removeCovered
  refine EStateM.Spec.bind (R := fun a s => a.backend.active = shape.active ∧
    OnBackend db (shape.Kept faulty manifest history) s) (EStateM.spec_get ?_) fun a =>
      EStateM.Spec.fact fun ha => ?_
  · intro s hs
    exact ⟨hs.2.attached.active, hs⟩
  rw [ha]
  have hwal : Faults.Spec faulty (shape.In blake3 manifest [])
      (FileDatabase.compact listing FileName.inWal (.segment shape.active))
      (fun _ d => shape.In blake3 manifest [] d ∧
        ∀ name ∈ d, name.inWal = true → name = .segment shape.active)
      (shape.In blake3 manifest []) :=
    spec_compact (fun d name hpart hother hd => hd.erase (hunused name hpart hother))
      fun _ d hd => hd
  refine EStateM.Spec.bind (R := fun _ s => OnBackend db (shape.Kept faulty manifest history) s ∧
      ∀ name ∈ s.backend.files.state, name.inWal = true → name = .segment shape.active)
    (spec_onDatabaseFiles hwal _ (fun s hs => hs.2.files) ?_ ?_) fun segmentsRemoved => ?_
  · intro s _ files hs hfiles
    exact ⟨Shape.Kept.changed hs (hfiles.imp And.left), hfiles.2.2⟩
  · intro s files hs hfiles
    exact Shape.Kept.changed hs hfiles
  have hsnapshots : Faults.Spec faulty (fun d => shape.In blake3 manifest [] d ∧
        ∀ name ∈ d, name.inWal = true → name = .segment shape.active)
      (FileDatabase.compact listing FileName.inSnapshots (.snapshot watermark))
      (fun _ d => (shape.In blake3 manifest [] d ∧
        ∀ name ∈ d, name.inWal = true → name = .segment shape.active) ∧
          ∀ name ∈ d, name.inSnapshots = true → name = .snapshot watermark)
      (shape.In blake3 manifest []) := by
    refine spec_compact ?_ fun _ d hd => hd.1
    rintro d name hpart hother ⟨hin, hnames⟩
    refine ⟨hin.erase (Shape.not_uses_older hselected hpart hother), ?_⟩
    intro other hmem hinWal
    exact hnames other (Std.ExtTreeMap.mem_of_mem_erase hmem) hinWal
  refine EStateM.Spec.bind (R := fun _ s => OnBackend db (shape.Kept faulty manifest history) s ∧
      ∀ name ∈ s.backend.files.state, name = .segment shape.active ∨ name = .snapshot watermark)
    (spec_onDatabaseFiles hsnapshots _ (fun s hs => ⟨hs.1.2.files.1, hs.1.2.files.2, hs.2⟩) ?_ ?_)
      fun olderSnapshotsRemoved => ?_
  · intro s _ files hs hfiles
    refine ⟨Shape.Kept.changed hs.1 (hfiles.imp fun hin => hin.1.1), fun name hname => ?_⟩
    by_cases hpart : name.inWal = true
    · exact .inl (hfiles.2.1.2 name hname hpart)
    · refine .inr (hfiles.2.2 name hname ?_)
      rw [FileName.inSnapshots, Bool.eq_false_iff.mpr hpart]
      rfl
  · intro s files hs hfiles
    exact Shape.Kept.changed hs.1 hfiles
  refine EStateM.spec_pure ?_
  rintro s ⟨hs, hnames⟩
  exact hs.imp fun hkept => ⟨shape, hkept, rfl, hselected, hcovers, hnames⟩

/-- Behind a rotation a snapshot is encoded and installed, and what it covers is removed. -/
theorem Shape.Kept.spec_install (h : shape.Kept faulty manifest history db')
    (hbackend : ∃ backend, db' = { db with backend := backend }) (hrotated : shape.Rotated)
    (hhandled : db.backend.databaseUuid = manifest.databaseUuid ∧
      db.backend.snapshotLimits = manifest.snapshotLimits)
    (hrecorded : Recorded blake3 history db.engine) (hdecodes : DecodesBack db)
    (hnext : db.nextRecordSequence = shape.next) (listing : Listing) :
    EStateM.Spec (fun s => s = db')
      (FileDatabase.installCaptured listing db.snapshotFile db.backend.snapshotLimits)
      (fun outcome => OnBackend db fun s => ∃ shape', Shape.Kept faulty manifest history shape' s ∧
        shape'.Compacted outcome history s.backend.files.state)
      (OnBackend db fun s => ∃ shape, Shape.Kept faulty manifest history shape s) := by
  have hof := h.of.snapshot hrotated hrecorded.is.installed
  have hstart : (shape.snapshotted db.engine.unindexed).start ≠ none → shape.start ≠ none := by
    intro hne
    rw [Shape.snapshotted_start] at hne
    obtain ⟨next, hnext⟩ := Option.ne_none_iff_exists'.mp hne
    exact h.of.start_ne_none hnext
  have hwatermark : db.snapshotFile.walWatermark = FileDatabase.snapshotWatermark shape.next :=
    congrArg FileDatabase.snapshotWatermark hnext
  unfold FileDatabase.installCaptured
  rw [hwatermark]
  refine EStateM.Spec.bind (R := fun bytes s => (bytes.length ≤
    manifest.snapshotLimits.maxTotalBytes.val.toNat ∧ Snapshot.decode blake3 bytes
      manifest.snapshotLimits manifest.databaseUuid stateMachineSemanticsVersion
        (FileDatabase.snapshotWatermark shape.next) =
          .ok ⟨FileDatabase.snapshotWatermark shape.next, db.engine.unindexed⟩) ∧ s = db')
    (EStateM.spec_ofExcept ?_ ?_) fun bytes => EStateM.Spec.fact ?_
  · intro bytes hbytes s hs
    have hencode := Except.mapError_eq_ok.mp hbytes
    have hlength := Snapshot.length_encode hencode
    have hdecode := hdecodes bytes hencode
    rw [hhandled.2] at hlength hdecode
    rw [hhandled.1, hwatermark] at hdecode
    exact ⟨⟨hlength, hdecode⟩, hs⟩
  · rintro e he s rfl
    exact ⟨hbackend, shape, h⟩
  rintro ⟨hlength, hdecode⟩
  have hinstall : Faults.Spec faulty (shape.In blake3 manifest [])
      (FileDatabase.installSnapshot (FileDatabase.snapshotWatermark shape.next) bytes)
      (fun _ => (shape.snapshotted db.engine.unindexed).In blake3 manifest [])
      (fun d => shape.In blake3 manifest [] d ∨
        (shape.snapshotted db.engine.unindexed).In blake3 manifest [] d) :=
    spec_installSnapshot (fun d file hd => hd.insert_temp file nofun nofun)
      (fun d hd => hd.erase id) (fun d hd => hd.snapshot h.of hrotated hlength hdecode)
      (fun _ d hd => .inl hd) fun _ d hd => .inr hd
  refine EStateM.Spec.andThen
    (R := OnBackend db ((shape.snapshotted db.engine.unindexed).Kept faulty manifest history))
    (spec_onDatabaseFiles hinstall _ ?_ ?_ ?_) ?_
  · rintro s rfl
    exact h.files
  · rintro s ⟨⟩ files rfl hfiles
    obtain ⟨backend, rfl⟩ := hbackend
    exact ⟨⟨_, rfl⟩, h.withFiles hof rfl rfl rfl hstart hfiles⟩
  · rintro s files rfl ⟨hfault, hfiles⟩
    obtain ⟨backend, rfl⟩ := hbackend
    refine ⟨⟨_, rfl⟩, ?_⟩
    rcases hfiles with hin | hin
    · exact ⟨shape, h.withFiles h.of rfl rfl rfl id ⟨hfault, hin⟩⟩
    · exact ⟨_, h.withFiles hof rfl rfl rfl hstart ⟨hfault, hin⟩⟩
  refine (Shape.Kept.spec_removeCovered rfl (fun name => Shape.not_uses_snapshotted) ?_ listing
    bytes.length).weaken (fun _ hs => hs) (fun _ _ hs => hs) fun s hs =>
      hs.imp fun hkept => ⟨_, hkept⟩
  rw [FileDatabase.snapshotWatermark_val, h.of.sequenceIndex_next]

/-- A snapshot of an open database is created, or its creation is stopped. -/
theorem Shape.Kept.spec_createSnapshot (h : shape.Kept faulty manifest history db)
    (hhealthy : db.poisoned = false) (hrecorded : Recorded blake3 history db.engine)
    (hdecodes : DecodesBack db) (listing : Listing) :
    EStateM.Spec (fun s => s = db) (FileDatabase.createSnapshot listing)
      (fun outcome => OnBackend db fun s => ∃ shape', Shape.Kept faulty manifest history shape' s ∧
        shape'.Compacted outcome history s.backend.files.state)
      (OnBackend db (SnapshotStopped faulty manifest history db)) := by
  have hsame : ∃ backend, db = { db with backend := backend } := ⟨db.backend, rfl⟩
  have hlimits := And.intro h.handled.databaseUuid h.handled.snapshotLimits
  have hnext := h.handled.next
  rw [FileDatabase.createSnapshot_eq]
  refine EStateM.Spec.bind (R := fun a s => a = db ∧ s = db)
    (EStateM.spec_get fun s hs => ⟨hs, hs⟩) fun a => EStateM.Spec.fact ?_
  rintro rfl
  refine EStateM.Spec.ite (fun hpoisoned => ?_) fun _ => ?_
  · rw [hhealthy] at hpoisoned
    cases hpoisoned
  cases hcase : a.nextRecordSequence with
  | none =>
    have hrotated : shape.Rotated := fun next hsome => by
      rw [← hnext, hcase] at hsome
      cases hsome
    exact (h.spec_install hsame hrotated hlimits hrecorded hdecodes hnext listing).weaken
      (fun _ hs => hs) (fun _ _ hs => hs) fun _ hs => hs.imp .inl
  | some next =>
    rw [hcase] at hnext
    have hstart := h.of.start_ne_none hnext.symm
    refine EStateM.Spec.ite (fun hhas => ?_) fun hhas => ?_
    · -- the active segment is sealed first
      have hfull := (h.attached.hasRecords hstart).mp hhas
      refine EStateM.Spec.andThen ((h.spec_rotate hnext.symm hfull).run.weaken (fun _ hs => hs)
        (fun _ _ hs => hs.2) ?_) ?_
      · rintro s ⟨⟨e, hrun⟩, hs⟩
        refine hs.imp ?_
        rintro (hkept | ⟨hfaulty, hstranded⟩)
        · exact .inl ⟨shape, hkept⟩
        · exact .inr ⟨hfaulty, ⟨next, e, ⟨hcase, hhas⟩, hrun⟩, shape, hstranded⟩
      · refine EStateM.Spec.states ?_
        rintro s ⟨hbackend, hkept⟩
        have hrotated := hkept.rotated fun _ _ => rfl
        exact (hkept.spec_install hbackend hrotated hlimits hrecorded hdecodes hcase
          listing).weaken (fun _ hs => hs) (fun _ _ hs => hs) fun _ hs => hs.imp .inl
    · have hempty : shape.records = [] := by
        by_contra hne
        exact hhas ((h.attached.hasRecords hstart).mpr hne)
      have hrotated := h.rotated fun _ _ => hempty
      exact (h.spec_install hsame hrotated hlimits hrecorded hdecodes (hcase.trans hnext)
        listing).weaken (fun _ hs => hs) (fun _ _ hs => hs) fun _ hs => hs.imp .inl

/-- A poisoned database refuses to create a snapshot. -/
theorem FileDatabase.createSnapshot_poisoned (h : db.poisoned = true) {listing : Listing} :
    FileDatabase.createSnapshot listing db = .error .snapshotPoisoned db := by
  unfold FileDatabase.createSnapshot
  rw [EStateM.get_bind_apply, h]
  rfl

/-! ## Open databases -/

/-- What is known of an open database is kept if its log goes on. -/
theorem Shape.Kept.live (h : shape.Kept faulty manifest history db')
    (hfault : db'.backend.files.fault = none) (hrecorded : Recorded blake3 history db'.engine) :
    Live manifest history db' :=
  ⟨hfault, hrecorded, ⟨⟨_, hrecorded⟩, shape, [], h.of, h.files.2, .inl rfl⟩,
    fun _ => ⟨shape, h.of, h.files.2, h.handled, h.attached⟩⟩

/-- The log of an open database goes on in the active segment. -/
theorem Live.kept (h : Live manifest history db) (hhealthy : db.poisoned = false) (faulty : Prop)
    {fault : Option Faults.Fault} (hfault : fault ≠ none → faulty) :
    ∃ shape, Shape.Kept faulty manifest history shape (db.withFault fault) := by
  obtain ⟨shape, hof, hin, hhandled, hattached⟩ := h.healthy hhealthy
  exact ⟨shape, hof,
    ⟨hhandled.databaseUuid, hhandled.recordLimits, hhandled.walLimits, hhandled.snapshotLimits,
      hhandled.durability, hhandled.next, hhandled.expected⟩,
    ⟨hattached.active, hattached.length, hattached.hasRecords⟩, hfault, hin⟩

/-- Creating a snapshot, whether it succeeds or is refused, changes nothing about the history. -/
theorem Live.snapshot (h : Live manifest history db) (hdecodes : DecodesBack db)
    (listing : Listing) :
    Live manifest history (FileDatabase.createSnapshot listing db).finalState := by
  cases hpoisoned : db.poisoned with
  | true =>
    rw [FileDatabase.createSnapshot_poisoned hpoisoned]
    exact h
  | false =>
    obtain ⟨shape, hkept⟩ : ∃ shape, Shape.Kept False manifest history shape db :=
      h.kept hpoisoned False fun hne => hne h.fault
    obtain ⟨outcome, db', hrun, ⟨backend, rfl⟩, shape', hkept', -⟩ |
      ⟨e, db', hrun, ⟨backend, rfl⟩, ⟨shape', hkept'⟩ | hfaulty⟩ :=
      hkept.spec_createSnapshot hpoisoned h.recorded hdecodes listing db rfl
    · rw [hrun]
      exact hkept'.live (Decidable.not_not.mp hkept'.files.1) h.recorded
    · rw [hrun]
      exact hkept'.live (Decidable.not_not.mp hkept'.files.1) h.recorded
    · exact hfaulty.1.elim

/-- The files of a stranded log stand for the history. -/
theorem Shape.Stranded.closed (h : shape.Stranded faulty manifest history db')
    (hrecorded : Recorded blake3 history db'.engine) :
    Closed blake3 manifest history db'.backend.files.state := by
  obtain ⟨first, hnext, -, hin⟩ := h.files
  have hless := h.of.active_lt hnext h.full
  exact ⟨⟨_, hrecorded⟩, _, [], h.of.rotate hnext hless, hin, .inl rfl⟩

/-- Files of which the creation of a snapshot may have been stopped stand for the history. -/
theorem SnapshotStopped.closed (h : SnapshotStopped faulty manifest history db db')
    (hrecorded : Recorded blake3 history db'.engine) :
    Closed blake3 manifest history db'.backend.files.state := by
  rcases h with ⟨shape, hkept⟩ | ⟨-, -, shape, hstranded⟩
  · exact ⟨⟨_, hrecorded⟩, shape, [], hkept.of, hkept.files.2, .inl rfl⟩
  · exact hstranded.closed hrecorded

/-- A crash while a snapshot is created changes nothing about the history. -/
theorem Live.snapshotCrashed (h : Live manifest history db) (hdecodes : DecodesBack db)
    (listing : Listing) {fault : Option Faults.Fault} {d : Directory}
    (hcut : (FileDatabase.createSnapshot listing
      (db.withFault fault)).finalState.backend.files.state.Cut d) :
    Closed blake3 manifest history d := by
  cases hpoisoned : db.poisoned with
  | true =>
    have hrefused : (db.withFault fault).poisoned = true := hpoisoned
    rw [FileDatabase.createSnapshot_poisoned hrefused] at hcut
    exact (h.closed.cut hcut).1
  | false =>
    obtain ⟨shape, hkept⟩ : ∃ shape, Shape.Kept True manifest history shape (db.withFault fault) :=
      h.kept hpoisoned True fun _ => trivial
    obtain ⟨outcome, db', hrun, ⟨backend, rfl⟩, shape', hkept', -⟩ |
      ⟨e, db', hrun, ⟨backend, rfl⟩, hstopped⟩ :=
      hkept.spec_createSnapshot hpoisoned h.recorded hdecodes listing _ rfl
    · rw [hrun] at hcut
      have hstopped : SnapshotStopped True manifest history (db.withFault fault)
          ({ db.withFault fault with backend := backend } : FileDatabase blake3) :=
        .inl ⟨shape', hkept'⟩
      exact ((hstopped.closed h.recorded).cut hcut).1
    · rw [hrun] at hcut
      exact ((hstopped.closed h.recorded).cut hcut).1

end PromiseDb
