import PromiseDb.Storage.FileRuns

/-!
# What an open database refuses

An open file database on which no call fails may still refuse.  A segment cannot be longer than the
lengths there are, and a new segment cannot be created while its temporary name is taken, which it
stays behind a rotation that has failed.  These are the only reasons why a group that is ready to be
written is not acknowledged.  Besides the limits of the format the second one is the only reason why
a snapshot is not created.
-/

namespace PromiseDb

open Database Faults

variable {blake3 : List UInt8 → CommandHash}

/-! ## Groups that are ready -/

namespace Database

variable {B : Type} [WalBackend B] {limits : RecordLimits} {start next : Option RecordSequence}
  {items : List TimestampedTransition} {bytes : List UInt8}

/-- Items that can be logged are framed behind whatever is there. -/
theorem frameItems_logged (h : Logged blake3 limits start items bytes next) :
    ∃ sequences, assignSequences start items.length = .ok (sequences, next) ∧
      ∀ before, frameItems blake3 limits (items.zip sequences) before =
        .ok ⟨⟩ (before ++ bytes) := by
  induction h with
  | nil start =>
    refine ⟨[], rfl, fun before => ?_⟩
    rw [List.append_nil]
    rfl
  | @cons sequence item payload bytes rest items next encoded framed others ih =>
    obtain ⟨sequences, hassigned, hframed⟩ := ih
    refine ⟨sequence :: sequences, ?_, fun before => ?_⟩
    · rw [List.length_cons, assignSequences, Option.elim_some, Except.ok_bind, hassigned]
      rfl
    · have hfirst : Record.encodePayloadInto blake3 sequence item.timestamp limits
          (encodeTransition item.transition) before = .ok ⟨⟩ (before ++ bytes) := by
        unfold Record.encodePayloadInto
        rw [framePayload_eq_ok.mpr ⟨payload, encoded, framed⟩]
      rw [← List.append_assoc, ← hframed (before ++ bytes)]
      exact EStateM.bind_of_ok hfirst

/-- Items that can be logged are framed. -/
theorem framed_logged (h : Logged blake3 limits start items bytes next) :
    ∃ sequences, assignSequences start items.length = .ok (sequences, next) ∧
      framed blake3 limits (items.zip sequences) = .ok bytes := by
  obtain ⟨sequences, hassigned, hframed⟩ := frameItems_logged h
  refine ⟨sequences, hassigned, ?_⟩
  unfold framed
  rw [hframed []]
  rfl

variable {db : Database B} {commands : List (Command × Timestamp)} {prepared : PreparedBatch}

/-- A group that is ready is written, and then acknowledged or not. -/
theorem Ready.applyBatch (h : Ready blake3 db commands prepared bytes next) :
    (∀ backend, persist bytes db.durability db.backend = .ok ⟨⟩ backend →
      applyBatch blake3 commands db = .ok (Engine.publishBatch db.engine prepared).1
        { db with
          backend := backend
          engine := (Engine.publishBatch db.engine prepared).2
          nextRecordSequence := next }) ∧
    ∀ error backend, persist bytes db.durability db.backend = .error error backend →
      applyBatch blake3 commands db =
        .error (.indeterminate error) { db with backend := backend, poisoned := true } := by
  obtain ⟨hhealthy, hprepares, hdurable, hlogged⟩ := h
  obtain ⟨sequences, hassigned, hframed⟩ := framed_logged hlogged
  have hpublishes := Engine.canPublish_prepareBatch hprepares
  have hcommands : commands ≠ [] := by
    rintro rfl
    cases hprepares
    exact hdurable rfl
  have hpoisoned : ¬db.poisoned = true := by
    rw [hhealthy]
    exact Bool.false_ne_true
  unfold Database.applyBatch
  rw [EStateM.get_bind_apply, if_neg hpoisoned]
  dsimp only
  rw [if_neg hcommands, hprepares]
  simp only [Except.mapError]
  rw [EStateM.bind_of_ok (EStateM.ofExcept_ok _ _), if_neg hdurable, hpublishes,
    EStateM.bind_of_ok (EStateM.ofExcept_ok _ _), hassigned,
    EStateM.bind_of_ok (EStateM.ofExcept_ok _ _)]
  dsimp only
  rw [hframed, EStateM.bind_of_ok (EStateM.ofExcept_ok _ _)]
  refine ⟨fun backend hpersist => ?_, fun error backend hpersist => ?_⟩
  · rw [hpersist]
    rfl
  · rw [hpersist]
    rfl

end Database

/-! ## New segments -/

variable {uuid : U128} {first : RecordSequence}

/-- As long as its temporary name is free, a segment is created. -/
theorem spec_createSegmentAtomic_free :
    Faults.Spec False (fun d => FileName.segmentTemp first ∉ d)
      (createSegmentAtomic blake3 uuid first) (fun _ d => FileName.segment first ∈ d)
      (fun _ => False) := by
  have hthere : ∀ d : Directory, FileName.segmentTemp first ∈ d →
      FileName.segmentTemp first ∈ d := fun _ h => h
  have hchanged (f : File → File) : ∀ (d : Directory) (file : File),
      FileName.segmentTemp first ∈ d → d[FileName.segmentTemp first]? = some file →
      FileName.segmentTemp first ∈ d.insert (.segmentTemp first) (f file) :=
    fun d file _ _ => OrderedMap.mem_insert_iff.mpr (.inl rfl)
  unfold createSegmentAtomic
  refine EStateM.Spec.andThen (FileCalls.spec_createNew
    (Q := fun d => FileName.segmentTemp first ∈ d)
    (fun d _ _ => OrderedMap.mem_insert_iff.mpr (.inl rfl)) (fun d h hmem => h hmem) nofun nofun) ?_
  refine EStateM.Spec.andThen (FileCalls.spec_change
    (Q := fun d => FileName.segmentTemp first ∈ d) hthere (hchanged _) nofun nofun) ?_
  refine EStateM.Spec.andThen (FileCalls.spec_change
    (Q := fun d => FileName.segmentTemp first ∈ d) hthere (hchanged _) nofun nofun) ?_
  refine EStateM.Spec.andThen (FileCalls.spec_rename
    (Q := fun d => FileName.segment first ∈ d) hthere
    (fun d file _ _ => OrderedMap.mem_insert_iff.mpr (.inl rfl)) nofun nofun) ?_
  exact FileCalls.spec_syncDirectory nofun

/-- While its temporary name is taken, a segment is not created. -/
theorem createSegmentAtomic_taken {files : FileSystem} (hfault : files.fault = none)
    (htaken : FileName.segmentTemp first ∈ files.state) :
    createSegmentAtomic blake3 uuid first files = .error .alreadyExists files := by
  have hcreate : FileCalls.createNew (.segmentTemp first) files =
      .error .alreadyExists files := by
    unfold FileCalls.createNew FileCalls.io call
    rw [hfault]
    dsimp only
    rw [if_pos (OrderedMap.contains_iff.mpr htaken)]
    rfl
  unfold createSegmentAtomic
  exact EStateM.bind_of_error hcreate

/-! ## Rotations and appends -/

variable {wal : SegmentedWal blake3} {bytes : List UInt8} {next : Option RecordSequence}

/-- The active segment is there, and no call is going to fail. -/
def SegmentedWal.Writable (wal : SegmentedWal blake3) : Prop :=
  Upto False (fun d => FileName.segment wal.active ∈ d) wal.files

/-- Where nothing can fail, nothing has failed. -/
theorem OnFiles.false {wal' : SegmentedWal blake3}
    (h : OnFiles wal (Upto False fun _ => False) wal') : False := h.2.2

/-- As long as the temporary name of the next segment is free, the log is rotated. -/
theorem spec_rotate_free :
    EStateM.Spec (OnFiles wal (Upto False fun d => FileName.segmentTemp first ∉ d))
      (SegmentedWal.rotate first) (fun _ => SegmentedWal.Writable) (fun _ => False) := by
  unfold SegmentedWal.rotate
  refine EStateM.Spec.bind spec_getWal fun wal' => EStateM.Spec.fact ?_
  rintro ⟨files, rfl⟩
  refine EStateM.Spec.andThen ((spec_onFiles _ spec_createSegmentAtomic_free _).weaken
    (fun _ h => h) (fun _ _ h => h) fun _ h => h.false) ?_
  refine EStateM.Spec.andThen ((spec_onFiles _ (FileCalls.spec_openFile (fun _ h => h) nofun)
    _).weaken (fun _ h => h) (fun _ _ h => h) fun _ h => h.false) ?_
  refine EStateM.spec_modify ?_
  rintro s ⟨⟨files, rfl⟩, hfiles⟩
  exact hfiles

/-- While it is taken, the log is not rotated. -/
theorem rotate_taken (hfault : wal.files.fault = none)
    (htaken : FileName.segmentTemp first ∈ wal.files.state) :
    SegmentedWal.rotate first wal =
      .error (.io IoErrorKind.alreadyExists.text "create segment") wal := by
  have hcreate : SegmentedWal.onFiles "create segment"
      (createSegmentAtomic blake3 wal.databaseUuid first) wal =
        .error (.io IoErrorKind.alreadyExists.text "create segment") wal := by
    unfold SegmentedWal.onFiles EStateM.within
    rw [createSegmentAtomic_taken hfault htaken]
  unfold SegmentedWal.rotate
  rw [EStateM.get_bind_apply]
  exact EStateM.bind_of_error hcreate

/-- A batch is written to an active segment that is there. -/
theorem spec_write_free {len : Nat} :
    EStateM.Spec SegmentedWal.Writable
      (do
        let wal ← get
        SegmentedWal.onFiles "append" (FileCalls.write (.segment wal.active) bytes)
        modify fun wal => { wal with
          activeLen := len, activeHasRecords := true, expectedSequence := next })
      (fun _ => @SegmentedWal.Writable blake3) (fun _ => False) := by
  refine EStateM.Spec.states fun s hs => ?_
  have hstart : ∀ s', s' = s →
      OnFiles s (Upto False fun d => FileName.segment s.active ∈ d) s' := by
    rintro _ rfl
    exact ⟨⟨_, rfl⟩, hs⟩
  have hwrite : Faults.Spec False (fun d => FileName.segment s.active ∈ d)
      (FileCalls.write (.segment s.active) bytes) (fun _ d => FileName.segment s.active ∈ d)
      (fun _ => False) :=
    FileCalls.spec_change (fun _ h => h)
      (fun _ _ _ _ => OrderedMap.mem_insert_iff.mpr (.inl rfl)) nofun nofun
  refine EStateM.Spec.weaken (EStateM.Spec.bind spec_getWal fun wal' => EStateM.Spec.fact ?_)
    hstart (fun _ _ h => h) (fun _ h => h)
  rintro ⟨files, rfl⟩
  refine EStateM.Spec.andThen ((spec_onFiles s hwrite _).weaken (fun _ h => h) (fun _ _ h => h)
    fun _ h => h.false) ?_
  refine EStateM.spec_modify ?_
  rintro s' ⟨⟨files, rfl⟩, hfiles⟩
  exact hfiles

/-- A batch that the active segment can hold, or that can go to a new one, is appended. -/
theorem spec_append_free (hinspect : wal.inspectBatch bytes = .ok (first, next))
    (hlength : wal.activeLen + bytes.length < 2 ^ 64) (hheader : Segment.headerLen ≤ wal.activeLen) :
    EStateM.Spec (OnFiles wal (Upto False fun d => FileName.segment wal.active ∈ d ∧
        (wal.rotates bytes = true → FileName.segmentTemp first ∉ d)))
      (SegmentedWal.append bytes) (fun _ => SegmentedWal.Writable) (fun _ => False) := by
  unfold SegmentedWal.append
  refine EStateM.Spec.bind spec_getWal fun wal' => EStateM.Spec.fact ?_
  rintro ⟨files, rfl⟩
  refine EStateM.Spec.value hinspect ?_
  refine EStateM.Spec.andThen (EStateM.spec_ensure hlength) ?_
  refine EStateM.Spec.andThen (EStateM.spec_ensure ?_) ?_
  · dsimp only
    split
    · omega
    · exact hlength
  refine EStateM.Spec.ite ?_ ?_
  · intro hrotates
    have hrotate := @spec_rotate_free blake3 first wal
    refine EStateM.Spec.andThen (hrotate.weaken (fun s hs => ?_) (fun _ _ h => h) fun _ h => h)
      spec_write_free
    exact hs.imp fun h => h.imp fun h => h.2 hrotates
  · intro hstays
    refine spec_write_free.weaken (fun s hs => ?_) (fun _ _ h => h) fun _ h => h
    obtain ⟨⟨files, rfl⟩, hfiles⟩ := hs
    exact hfiles.imp And.left

/-- A batch that is too long for a segment is not appended. -/
theorem append_tooLong (hinspect : wal.inspectBatch bytes = .ok (first, next))
    (hlength : ¬wal.activeLen + bytes.length < 2 ^ 64) :
    SegmentedWal.append bytes wal =
      .error (.segmentLengthOverflow wal.activeLen bytes.length) wal := by
  unfold SegmentedWal.append
  rw [EStateM.get_bind_apply, hinspect, EStateM.bind_of_ok (EStateM.ofExcept_ok _ _)]
  refine EStateM.bind_of_error ?_
  rw [Except.ensure, if_neg hlength]
  rfl

/-- A batch for which the log cannot be rotated is not appended. -/
theorem append_taken (hinspect : wal.inspectBatch bytes = .ok (first, next))
    (hlength : wal.activeLen + bytes.length < 2 ^ 64) (hheader : Segment.headerLen ≤ wal.activeLen)
    (hrotates : wal.rotates bytes = true) (hfault : wal.files.fault = none)
    (htaken : FileName.segmentTemp first ∈ wal.files.state) :
    SegmentedWal.append bytes wal =
      .error (.io IoErrorKind.alreadyExists.text "create segment") wal := by
  have hnew : Segment.headerLen + bytes.length < 2 ^ 64 := by omega
  have hrotate := rotate_taken hfault htaken
  unfold SegmentedWal.append
  rw [EStateM.get_bind_apply, hinspect, EStateM.bind_of_ok (EStateM.ofExcept_ok _ _)]
  dsimp only
  rw [Except.ensure, if_pos hlength, EStateM.bind_of_ok (EStateM.ofExcept_ok _ _)]
  have hcondition : (wal.activeHasRecords &&
      decide (wal.segmentTarget.val.toNat < wal.activeLen + bytes.length)) = true := hrotates
  rw [if_pos hcondition, if_pos hcondition, Except.ensure, if_pos hnew,
    EStateM.bind_of_ok (EStateM.ofExcept_ok _ _)]
  exact EStateM.bind_of_error hrotate

/-- What is needed to write a batch: no segment gets too long, and the temporary name of a new one
is free. -/
def SegmentedWal.Admits (wal : SegmentedWal blake3) (first : RecordSequence) (bytes : List UInt8) :
    Prop :=
  wal.activeLen + bytes.length < 2 ^ 64 ∧
    (wal.rotates bytes = true → FileName.segmentTemp first ∉ wal.files.state)

/-- A batch that is admitted is appended and made stable. -/
theorem spec_persist_free (hinspect : wal.inspectBatch bytes = .ok (first, next))
    (hlength : wal.activeLen + bytes.length < 2 ^ 64) (hheader : Segment.headerLen ≤ wal.activeLen) :
    EStateM.Spec (OnFiles wal (Upto False fun d => FileName.segment wal.active ∈ d ∧
        (wal.rotates bytes = true → FileName.segmentTemp first ∉ d)))
      (persist bytes .sync) (fun _ => SegmentedWal.Writable) (fun _ => False) := by
  refine EStateM.Spec.andThen (spec_append_free hinspect hlength hheader) ?_
  refine EStateM.Spec.states fun s hs => ?_
  have hsync : Faults.Spec False (fun d => FileName.segment s.active ∈ d)
      (FileCalls.sync (.segment s.active)) (fun _ d => FileName.segment s.active ∈ d)
      (fun _ => False) :=
    FileCalls.spec_change (fun _ h => h)
      (fun _ _ _ _ => OrderedMap.mem_insert_iff.mpr (.inl rfl)) nofun nofun
  have hstart : ∀ s', s' = s →
      OnFiles s (Upto False fun d => FileName.segment s.active ∈ d) s' := by
    rintro _ rfl
    exact ⟨⟨_, rfl⟩, hs⟩
  refine EStateM.Spec.weaken (EStateM.Spec.bind spec_getWal fun wal' => EStateM.Spec.fact ?_)
    hstart (fun _ _ h => h) (fun _ h => h)
  rintro ⟨files, rfl⟩
  refine (spec_onFiles s hsync _).weaken (fun _ h => h) ?_ fun _ h => h.false
  rintro _ s' ⟨⟨files, rfl⟩, hfiles⟩
  exact hfiles

/-- A batch that is not admitted leaves the log as it is. -/
theorem persist_refused (hinspect : wal.inspectBatch bytes = .ok (first, next))
    (hheader : Segment.headerLen ≤ wal.activeLen) (hfault : wal.files.fault = none)
    (hrefuses : ¬wal.Admits first bytes) :
    ∃ error, persist bytes .sync wal = .error error wal := by
  by_cases hlength : wal.activeLen + bytes.length < 2 ^ 64
  · have htaken : wal.rotates bytes = true ∧ FileName.segmentTemp first ∈ wal.files.state := by
      by_contra hne
      exact hrefuses ⟨hlength, fun hrotates htaken => hne ⟨hrotates, htaken⟩⟩
    exact ⟨_, EStateM.bind_of_error
      (append_taken hinspect hlength hheader htaken.1 hfault htaken.2)⟩
  · exact ⟨_, EStateM.bind_of_error (append_tooLong hinspect hlength)⟩

/-! ## Groups in a run -/

variable {manifest : Manifest} {history : List TimestampedTransition} {db db' : FileDatabase blake3}
  {commands : List (Command × Timestamp)} {prepared : PreparedBatch}

/-- A group that is ready is acknowledged exactly if the log admits it, when the active segment is
there and no call is going to fail.  Otherwise nothing is written, and the database is poisoned. -/
theorem acknowledged_iff_admits (hready : Ready blake3 db commands prepared bytes next)
    (hfault : db.backend.files.fault = none) (hconfigured : db.Configured manifest)
    (hfirst : db.nextRecordSequence = some first) (hheader : Segment.headerLen ≤ db.backend.activeLen)
    (hactive : FileName.segment db.backend.active ∈ db.backend.files.state) :
    ((∃ responses db', applyBatch blake3 commands db = .ok responses db') ↔
      db.backend.Admits first bytes) ∧
    ∀ error db', applyBatch blake3 commands db = .error error db' →
      db' = { db with poisoned := true } := by
  have hlogged := hready.logged
  rw [hfirst, hconfigured.recordLimits] at hlogged
  have hinspect := inspectBatch_logged hlogged hready.durable
    (hconfigured.expected.trans hfirst) hconfigured.walLimits
  obtain ⟨hacknowledged, hfailed⟩ := hready.applyBatch
  by_cases hadmits : db.backend.Admits first bytes
  · obtain ⟨u, backend, hrun, -⟩ | ⟨e, backend, -, hfalse⟩ :=
      spec_persist_free hinspect hadmits.1 hheader db.backend
        ⟨⟨_, rfl⟩, fun hne => hne hfault, hactive, hadmits.2⟩
    · rw [← hconfigured.durability] at hrun
      have happlied := hacknowledged backend hrun
      refine ⟨⟨fun _ => hadmits, fun _ => ⟨_, _, happlied⟩⟩, fun error db' herror => ?_⟩
      rw [happlied] at herror
      cases herror
    · exact hfalse.elim
  · obtain ⟨error, hrun⟩ := persist_refused hinspect hheader hfault hadmits
    rw [← hconfigured.durability] at hrun
    have happlied := hfailed error db.backend hrun
    refine ⟨⟨?_, fun h => absurd h hadmits⟩, fun error' db' herror => ?_⟩
    · rintro ⟨responses, db', hok⟩
      rw [happlied] at hok
      cases hok
    · rw [happlied] at herror
      exact (EStateM.Result.error.inj herror).2.symm

/-- While the temporary name of the next segment is taken, the log of a database is not rotated. -/
theorem FileDatabase.rotate_taken (hfault : db.backend.files.fault = none)
    (htaken : FileName.segmentTemp first ∈ db.backend.files.state) :
    FileDatabase.rotate first db = .error (.io "rotate WAL before snapshot" .other) db := by
  unfold FileDatabase.rotate EStateM.within
  rw [PromiseDb.rotate_taken hfault htaken]

/-- No call of a database is going to fail. -/
def FileDatabase.Faultless (db : FileDatabase blake3) : Prop :=
  Upto False (fun _ => True) db.backend.files

/-- As long as the temporary name of the next segment is free, the log of a database is rotated. -/
theorem FileDatabase.spec_rotate_free (hfault : db.backend.files.fault = none)
    (hfree : FileName.segmentTemp first ∉ db.backend.files.state) :
    EStateM.Spec (fun s => s = db) (FileDatabase.rotate first)
      (fun _ s => (∃ backend, s = { db with backend := backend }) ∧ s.Faultless)
      (fun _ => False) := by
  unfold FileDatabase.rotate
  refine EStateM.Spec.within fun s hs => ?_
  subst hs
  have hrotate := @PromiseDb.spec_rotate_free blake3 first s.backend
  refine hrotate.weaken ?_ ?_ fun _ h => h
  · rintro _ rfl
    exact ⟨⟨_, rfl⟩, fun hne => hne hfault, hfree⟩
  · rintro _ backend hwritable
    exact ⟨⟨backend, rfl⟩, hwritable.imp fun _ => trivial⟩

/-- Calls on the files of a database that cannot fail. -/
theorem FileDatabase.spec_onFiles_free {α : Type} {x : FileCalls α}
    (hx : Faults.Spec False (fun _ => True) x (fun _ _ => True) (fun _ => False))
    (f : IoErrorKind → FileDatabaseError) :
    EStateM.Spec FileDatabase.Faultless (@FileDatabase.onFiles blake3 α f x)
      (fun _ => FileDatabase.Faultless) (fun _ => False) :=
  spec_onDatabaseFiles hx f (fun _ h => h) (fun _ _ _ _ hfiles => hfiles)
    fun _ _ _ hfiles => hfiles.2

/-- A snapshot that can be encoded is installed, and what it covers is removed. -/
theorem FileDatabase.spec_install_free (file : SnapshotFile) {limits : SnapshotLimits}
    (hencode : Snapshot.encode blake3 file limits = .ok bytes) (listing : Listing) :
    EStateM.Spec FileDatabase.Faultless (FileDatabase.installCaptured listing file limits)
      (fun _ => @FileDatabase.Faultless blake3) (fun _ => False) := by
  have hcompact (part : FileName → Bool) (kept : FileName) :
      Faults.Spec False (fun _ => True) (FileDatabase.compact listing part kept)
        (fun _ _ => True) (fun _ => False) :=
    (spec_compact (fun _ _ _ _ _ => trivial) nofun).weaken (fun _ h => h)
      (fun _ _ h => h.imp fun _ => trivial) fun _ h => h
  unfold FileDatabase.installCaptured FileDatabase.removeCovered
  refine EStateM.Spec.value (Except.mapError_eq_ok.mpr hencode) ?_
  refine EStateM.Spec.andThen (FileDatabase.spec_onFiles_free
    (spec_installSnapshot (fun _ _ _ => trivial) (fun _ _ => trivial) (fun _ _ => trivial)
      nofun nofun) _) ?_
  refine EStateM.Spec.bind (EStateM.spec_get (R := fun _ => FileDatabase.Faultless)
    fun _ h => h) fun db' => ?_
  refine EStateM.Spec.bind (FileDatabase.spec_onFiles_free (hcompact _ _) _) fun removed => ?_
  refine EStateM.Spec.bind (FileDatabase.spec_onFiles_free (hcompact _ _) _) fun older => ?_
  exact EStateM.spec_pure fun _ h => h

/-- The snapshot of a database can be created: it is within the limits, and if there are records to
be covered in the active segment the temporary name of the next one is free. -/
structure FileDatabase.Snapshottable (db : FileDatabase blake3) : Prop where
  healthy : db.poisoned = false
  free : ∀ next, db.nextRecordSequence = some next → db.backend.activeHasRecords = true →
    FileName.segmentTemp next ∉ db.backend.files.state
  encodes : ∃ bytes, Snapshot.encode blake3 db.snapshotFile db.backend.snapshotLimits = .ok bytes

/-- A snapshot that can be created is created when no call fails. -/
theorem FileDatabase.Snapshottable.created (h : db.Snapshottable)
    (hfault : db.backend.files.fault = none) (listing : Listing) :
    ∃ outcome db', FileDatabase.createSnapshot listing db = .ok outcome db' := by
  obtain ⟨hhealthy, hfree, bytes, hencode⟩ := h
  have hspec : EStateM.Spec (fun s => s = db) (FileDatabase.createSnapshot listing)
      (fun _ => FileDatabase.Faultless) (fun _ => False) := by
    have hfaultless : db.Faultless := ⟨fun hne => hne hfault, trivial⟩
    have hinstall := FileDatabase.spec_install_free db.snapshotFile hencode listing
    rw [FileDatabase.createSnapshot_eq]
    refine EStateM.Spec.bind (R := fun a s => a = db ∧ s = db)
      (EStateM.spec_get fun s hs => ⟨hs, hs⟩) fun a => EStateM.Spec.fact ?_
    rintro rfl
    refine EStateM.Spec.ite (fun hpoisoned => ?_) fun _ => ?_
    · rw [hhealthy] at hpoisoned
      cases hpoisoned
    cases hcase : a.nextRecordSequence with
    | none => exact hinstall.weaken (fun s hs => hs ▸ hfaultless) (fun _ _ h => h) fun _ h => h
    | some next =>
      refine EStateM.Spec.ite (fun hhas => ?_) fun _ => ?_
      · refine EStateM.Spec.andThen ((FileDatabase.spec_rotate_free hfault
          (hfree next hcase hhas)).weaken (fun _ h => h) (fun _ _ h => h.2) fun _ h => h) hinstall
      · exact hinstall.weaken (fun s hs => hs ▸ hfaultless) (fun _ _ h => h) fun _ h => h
  obtain ⟨outcome, db', hrun, -⟩ | ⟨e, db', -, hfalse⟩ := hspec db rfl
  · exact ⟨outcome, db', hrun⟩
  · exact hfalse.elim

end PromiseDb
