import PromiseDb.Storage.Refusals

/-!
# Files with the same contents

What a program does depends on the bytes of the files, and not on how many of them are stable.  So a
database goes through the same states whether or not it syncs its groups, as long as nothing crashes.
-/

namespace PromiseDb

open Database Faults

/-! ## Files -/

/-- Directories with the same files, which hold the same bytes. -/
def Directory.SameContents (d d' : Directory) : Prop :=
  OrderedMap.Rel (fun file file' => file.content = file'.content) d d'

/-- The same failure lies ahead of files with the same contents. -/
abbrev SameFiles : FileSystem → FileSystem → Prop := Alike Directory.SameContents

/-- What a program does on the files depends on their contents only. -/
abbrev ByContents {ε α : Type} (x : EStateM ε FileSystem α) : Prop := EStateM.Agree SameFiles Eq x x

/-- A directory has the same contents as itself. -/
theorem Directory.SameContents.refl (d : Directory) : d.SameContents d := by
  intro name
  cases d[name]? with
  | none => exact .none
  | some file => exact .some rfl

/-- The sides do not matter. -/
theorem Directory.SameContents.symm {d d' : Directory} (h : d.SameContents d') :
    d'.SameContents d := by
  intro name
  have hfile := h name
  generalize d[name]? = file, d'[name]? = file' at hfile
  cases hfile with
  | none => exact .none
  | some hcontent => exact .some hcontent.symm

/-- Syncing a file does not change what it holds. -/
theorem Directory.SameContents.sync {d d' : Directory} (h : d.SameContents d') {name : FileName}
    {file : File} (hfile : d[name]? = some file) :
    Directory.SameContents (d.insert name (.synced file.content)) d' := by
  intro other
  rw [OrderedMap.lookup_insert]
  split
  · rename_i heq
    subst heq
    have hsame := h name
    rw [hfile] at hsame
    generalize d'[name]? = file' at hsame
    cases hsame with
    | some hcontent => exact .some ((File.content_synced _).trans hcontent)
  · exact h other

namespace FileCalls

/-- A call on files with the same contents. -/
theorem byContents_io {α : Type} {f : Directory → Except IoErrorKind (α × Directory)}
    (h : ∀ d d' : Directory, d.SameContents d' →
      Except.Agree (fun a b => a.1 = b.1 ∧ a.2.SameContents b.2) (f d) (f d')) :
    ByContents (io f) :=
  agree_call h

/-- A change of a file that depends on its content. -/
theorem byContents_change {f : File → File} {name : FileName}
    (hf : ∀ file file', file.content = file'.content → (f file).content = (f file').content) :
    ByContents (change name f) := by
  refine byContents_io fun d d' h => ?_
  have hfile := h name
  generalize d[name]? = file, d'[name]? = file' at hfile
  cases hfile with
  | none => exact .error _
  | some hcontent => exact .ok ⟨rfl, h.insert name (hf _ _ hcontent)⟩

/-- A file is created. -/
theorem byContents_createNew (name : FileName) : ByContents (createNew name) := by
  refine byContents_io fun d d' h => ?_
  rw [h.contains_eq name]
  exact .ite (.error _) (.ok ⟨rfl, h.insert name rfl⟩)

/-- Bytes are appended to a file. -/
theorem byContents_write (name : FileName) (bytes : List UInt8) : ByContents (write name bytes) := by
  refine byContents_change fun file file' hcontent => ?_
  have happend (file : File) :
      ({ file with appended := file.appended ++ bytes } : File).content = file.content ++ bytes :=
    (List.append_assoc _ _ _).symm
  rw [happend, happend, hcontent]

/-- A file is synced. -/
theorem byContents_sync (name : FileName) : ByContents (sync name) := by
  refine byContents_change fun file file' hcontent => ?_
  rw [File.content_synced, File.content_synced, hcontent]

/-- A file is given a length. -/
theorem byContents_setLen (name : FileName) (length : Nat) : ByContents (setLen name length) := by
  refine byContents_change fun file file' hcontent => ?_
  rw [File.content_synced, File.content_synced, hcontent]

/-- A file is renamed. -/
theorem byContents_rename (source target : FileName) : ByContents (rename source target) := by
  refine byContents_io fun d d' h => ?_
  have hfile := h source
  generalize d[source]? = file, d'[source]? = file' at hfile
  cases hfile with
  | none => exact .error _
  | some hcontent => exact .ok ⟨rfl, (h.erase source).insert target hcontent⟩

/-- A file is removed. -/
theorem byContents_remove (name : FileName) : ByContents (remove name) := by
  refine byContents_io fun d d' h => ?_
  rw [h.contains_eq name]
  exact .ite (.ok ⟨rfl, h.erase name⟩) (.error _)

/-- A file is read. -/
theorem byContents_read (name : FileName) : ByContents (read name) := by
  refine byContents_io fun d d' h => ?_
  have hfile := h name
  generalize d[name]? = file, d'[name]? = file' at hfile
  cases hfile with
  | none => exact .error _
  | some hcontent => exact .ok ⟨hcontent, h⟩

/-- A directory is synced. -/
theorem byContents_syncDirectory : ByContents syncDirectory :=
  byContents_io fun _ _ h => .ok ⟨rfl, h⟩

/-- An entry is looked at. -/
theorem byContents_entry : ByContents entry := byContents_io fun _ _ h => .ok ⟨rfl, h⟩

/-- A directory is listed. -/
theorem byContents_readDir (listing : Listing) (part : FileName → Bool) :
    ByContents (readDir listing part) := by
  refine byContents_io fun d d' h => .ok ⟨?_, h⟩
  rw [Directory.list, Directory.list, h.keys_eq]

/-- A file is opened. -/
theorem byContents_openFile (name : FileName) : ByContents (openFile name) := by
  refine byContents_io fun d d' h => ?_
  rw [h.contains_eq name]
  exact .ite (.ok ⟨rfl, h⟩) (.error _)

end FileCalls

/-- A program before two others that agree. -/
theorem ByContents.bind {ε α β β' : Type} {S : β → β' → Prop} {x : EStateM ε FileSystem α}
    {f : α → EStateM ε FileSystem β} {g : α → EStateM ε FileSystem β'} (h : ByContents x)
    (hfg : ∀ a, EStateM.Agree SameFiles S (f a) (g a)) :
    EStateM.Agree SameFiles S (x >>= f) (x >>= g) :=
  EStateM.Agree.bind h fun a a' ha => by
    subst ha
    exact hfg a

/-- A value that does not depend on the files. -/
theorem byContents_pure {ε α : Type} (a : α) : ByContents (pure a : EStateM ε FileSystem α) :=
  .pure rfl

/-- A value that may be missing. -/
theorem byContents_ofExcept {ε α : Type} (v : Except ε α) :
    ByContents (ofExcept v : EStateM ε FileSystem α) :=
  .ofExcept .rfl

/-- Calls, and the operation of which they are a part. -/
theorem ByContents.io {α : Type} {x : FileCalls α} (hx : ByContents x) (operation : String) :
    ByContents (FileDatabase.io operation x) :=
  hx.within _ (fun _ _ h => h) fun _ _ _ _ _ h => h

/-! ## Logs -/

variable {blake3 : List UInt8 → CommandHash}

/-- A segment is created. -/
theorem byContents_createSegmentAtomic (uuid : U128) (first : RecordSequence) :
    ByContents (createSegmentAtomic blake3 uuid first) := by
  unfold createSegmentAtomic
  refine (FileCalls.byContents_createNew _).bind fun _ => ?_
  refine (FileCalls.byContents_write _ _).bind fun _ => ?_
  refine (FileCalls.byContents_sync _).bind fun _ => ?_
  refine (FileCalls.byContents_rename _ _).bind fun _ => ?_
  exact FileCalls.byContents_syncDirectory

namespace SegmentedWal

/-- Logs that differ in what is stable of their files. -/
def SameContents (wal wal' : SegmentedWal blake3) : Prop :=
  ∃ files, SameFiles wal.files files ∧ wal' = { wal with files := files }

/-- Calls on the files of a log. -/
theorem agree_onFiles {α : Type} {x : FileCalls α} (hx : ByContents x) (operation : String) :
    EStateM.Agree SameContents Eq (@onFiles blake3 α operation x) (onFiles operation x) := by
  refine hx.within _ ?_ ?_
  · rintro wal _ ⟨files, hfiles, rfl⟩
    exact hfiles
  · rintro wal _ files files' ⟨-, -, rfl⟩ hfiles
    exact ⟨files', hfiles, rfl⟩

/-- A log is rotated. -/
theorem agree_rotate (first : RecordSequence) :
    EStateM.Agree SameContents (fun _ _ => True) (@rotate blake3 first) (rotate first) := by
  refine EStateM.Agree.get_bind ?_
  rintro wal _ ⟨files, hfiles, rfl⟩
  refine (agree_onFiles (byContents_createSegmentAtomic _ _) _).bind fun _ _ _ => ?_
  refine (agree_onFiles (FileCalls.byContents_openFile _) _).bind fun _ _ _ => ?_
  refine .modify ?_
  rintro wal _ ⟨files, hfiles, rfl⟩
  exact ⟨files, hfiles, rfl⟩

/-- A batch is appended. -/
theorem agree_append (bytes : List UInt8) :
    EStateM.Agree SameContents (fun _ _ => True) (@append blake3 bytes) (append bytes) := by
  refine EStateM.Agree.get_bind ?_
  rintro wal _ ⟨files, hfiles, rfl⟩
  refine EStateM.Agree.bind (R := Eq) (.ofExcept .rfl) ?_
  rintro ⟨first, next⟩ _ rfl
  refine EStateM.Agree.bind (R := Eq) (.ofExcept .rfl) fun _ _ _ => ?_
  refine EStateM.Agree.bind (R := Eq) (.ofExcept .rfl) fun _ _ _ => ?_
  have hwrite {len : Nat} : EStateM.Agree (@SameContents blake3) (fun _ _ => True)
      (do
        let wal ← get
        onFiles "append" (FileCalls.write (.segment wal.active) bytes)
        modify fun wal => { wal with
          activeLen := len, activeHasRecords := true, expectedSequence := next })
      (do
        let wal ← get
        onFiles "append" (FileCalls.write (.segment wal.active) bytes)
        modify fun wal => { wal with
          activeLen := len, activeHasRecords := true, expectedSequence := next }) := by
    refine EStateM.Agree.get_bind ?_
    rintro wal _ ⟨files, hfiles, rfl⟩
    refine (agree_onFiles (FileCalls.byContents_write _ _) _).bind fun _ _ _ => ?_
    refine .modify ?_
    rintro wal _ ⟨files, hfiles, rfl⟩
    exact ⟨files, hfiles, rfl⟩
  exact .ite ((agree_rotate first).bind fun _ _ _ => hwrite) hwrite

end SegmentedWal

/-! ## Snapshots -/

namespace FileDatabase

/-- The temporary snapshot is removed. -/
theorem byContents_cleanupSnapshotTemp : ByContents cleanupSnapshotTemp := by
  intro s t hst
  have hremove := FileCalls.byContents_remove .snapshotTemp s t hst
  unfold cleanupSnapshotTemp
  generalize FileCalls.remove .snapshotTemp s = x, FileCalls.remove .snapshotTemp t = y at hremove
  cases hremove with
  | ok _ h => exact FileCalls.byContents_syncDirectory _ _ h
  | error e h =>
    cases e with
    | notFound => exact .ok rfl h
    | alreadyExists => exact .error _ h
    | other => exact .error _ h

/-- A snapshot is installed. -/
theorem byContents_installSnapshot (watermark : U64) (bytes : List UInt8) :
    ByContents (installSnapshot watermark bytes) := by
  unfold installSnapshot
  refine byContents_cleanupSnapshotTemp.bind fun _ => ?_
  refine (FileCalls.byContents_createNew _).bind fun _ => ?_
  refine (FileCalls.byContents_write _ _).bind fun _ => ?_
  refine (FileCalls.byContents_sync _).bind fun _ => ?_
  refine (FileCalls.byContents_rename _ _).bind fun _ => ?_
  exact FileCalls.byContents_syncDirectory

/-- Files are removed. -/
theorem byContents_compact (listing : Listing) (part : FileName → Bool) (kept : FileName) :
    ByContents (compact listing part kept) := by
  unfold compact removeOthers
  refine (FileCalls.byContents_readDir _ _).bind fun names => ?_
  refine ByContents.bind (.forM (fun name => ?_) names) fun _ => ?_
  · refine FileCalls.byContents_entry.bind fun _ => ?_
    exact .ite (FileCalls.byContents_remove _) (byContents_pure _)
  · exact FileCalls.byContents_syncDirectory.bind fun _ => byContents_pure _

/-- Databases that differ in what is stable of their files, and in whether they sync their groups. -/
def SameContents (db db' : FileDatabase blake3) : Prop :=
  ∃ durability backend, db.backend.SameContents backend ∧
    db' = { db with durability := durability, backend := backend }

/-- Calls on the files of a database. -/
theorem agree_onFiles {α : Type} {x : FileCalls α} (hx : ByContents x)
    (f : IoErrorKind → FileDatabaseError) :
    EStateM.Agree SameContents Eq (@onFiles blake3 α f x) (onFiles f x) := by
  refine hx.within _ ?_ ?_
  · rintro db _ ⟨durability, _, ⟨files, hfiles, rfl⟩, rfl⟩
    exact hfiles
  · rintro db _ files files' ⟨durability, _, ⟨-, -, rfl⟩, rfl⟩ hfiles
    exact ⟨durability, _, ⟨files', hfiles, rfl⟩, rfl⟩

/-- The log of a database is rotated. -/
theorem agree_rotate (next : RecordSequence) :
    EStateM.Agree SameContents (fun _ _ => True) (@rotate blake3 next) (rotate next) := by
  refine (SegmentedWal.agree_rotate next).within _ ?_ ?_
  · rintro db _ ⟨durability, backend, hbackend, rfl⟩
    exact hbackend
  · rintro db _ wal wal' ⟨durability, backend, -, rfl⟩ hwal
    exact ⟨durability, wal', hwal, rfl⟩

/-- What a snapshot covers is removed. -/
theorem agree_removeCovered (listing : Listing) (watermark : U64) (length : Nat) :
    EStateM.Agree SameContents Eq (@removeCovered blake3 listing watermark length)
      (removeCovered listing watermark length) := by
  refine EStateM.Agree.get_bind ?_
  rintro db _ ⟨durability, _, ⟨files, hfiles, rfl⟩, rfl⟩
  refine (agree_onFiles (byContents_compact _ _ _) _).bind ?_
  rintro removed _ rfl
  refine (agree_onFiles (byContents_compact _ _ _) _).bind ?_
  rintro older _ rfl
  exact .pure rfl

/-- A snapshot is created. -/
theorem agree_createSnapshot (listing : Listing) :
    EStateM.Agree SameContents Eq (@createSnapshot blake3 listing)
      (createSnapshot listing) := by
  rw [createSnapshot_eq]
  refine EStateM.Agree.get_bind ?_
  rintro ⟨engine, wal, durability, limits, next, poisoned⟩ _ ⟨_, _, ⟨files, hfiles, rfl⟩, rfl⟩
  have hinstall (file : SnapshotFile) : EStateM.Agree SameContents Eq
      (@installCaptured blake3 listing file wal.snapshotLimits)
      (installCaptured listing file wal.snapshotLimits) := by
    refine EStateM.Agree.bind (R := Eq) (.ofExcept .rfl) ?_
    rintro bytes _ rfl
    refine (agree_onFiles (byContents_installSnapshot _ _) _).bind fun _ _ _ => ?_
    exact agree_removeCovered _ _ _
  refine .ite (.throw _) ?_
  cases next with
  | none => exact hinstall _
  | some next => exact .ite ((agree_rotate next).bind fun _ _ _ => hinstall _) (hinstall _)

/-! ## Opening -/

/-- The temporary segments are removed. -/
theorem byContents_cleanupSegmentTemps (listing : Listing) :
    ByContents (cleanupSegmentTemps listing) := by
  unfold cleanupSegmentTemps
  refine ((FileCalls.byContents_readDir _ _).io _).bind fun names => ?_
  refine ByContents.bind (.forM (fun name => ?_) names) fun _ => ?_
  · refine (FileCalls.byContents_entry.io _).bind fun _ => ?_
    exact .ite ((FileCalls.byContents_remove _).io _) (byContents_pure _)
  · exact .ite (FileCalls.byContents_syncDirectory.io _) (byContents_pure _)

/-- The latest snapshot is decoded. -/
theorem byContents_loadLatestSnapshot (listing : Listing) (manifest : Manifest) :
    ByContents (loadLatestSnapshot blake3 listing manifest) := by
  unfold loadLatestSnapshot
  refine (byContents_cleanupSnapshotTemp.io _).bind fun _ => ?_
  refine ((FileCalls.byContents_readDir _ _).io _).bind fun names => ?_
  refine (byContents_ofExcept _).bind fun latest => ?_
  cases latest with
  | none => exact byContents_pure _
  | some watermark =>
    refine ((FileCalls.byContents_read _).io _).bind fun bytes => ?_
    refine (byContents_ofExcept _).bind fun _ => ?_
    exact (byContents_ofExcept _).bind fun decoded => byContents_pure _

/-- The headers of the segments are read. -/
theorem byContents_readSegmentEntries (uuid : U128) (minimum : U64) (names : List FileName) :
    ByContents (readSegmentEntries blake3 uuid minimum names) := by
  induction names with
  | nil => exact byContents_pure _
  | cons name names ih =>
    unfold readSegmentEntries
    refine (FileCalls.byContents_entry.io _).bind fun _ => ?_
    cases name with
    | segment sequence =>
      refine .ite (ih.bind fun rest => byContents_pure _) ?_
      refine ((FileCalls.byContents_read _).io _).bind fun content => ?_
      refine (byContents_ofExcept _).bind fun header => ?_
      refine (byContents_ofExcept _).bind fun _ => ?_
      exact ih.bind fun rest => byContents_pure _
    | segmentTemp sequence => exact .throw _
    | snapshot watermark => exact .throw _
    | snapshotTemp => exact .throw _

/-- The segments are listed. -/
theorem byContents_readSegments (listing : Listing) (uuid : U128) (minimum : U64) :
    ByContents (readSegments blake3 listing uuid minimum) := by
  unfold readSegments
  refine ((FileCalls.byContents_readDir _ _).io _).bind fun names => ?_
  refine (byContents_readSegmentEntries _ _ _).bind fun entries => ?_
  exact .ite (.throw _) (byContents_pure _)

/-- A segment is recovered. -/
theorem byContents_recoverSegment (limits : RecordLimits) (segment : RecordSequence)
    (isSealed : Bool) (recovery : EngineRecovery) :
    ByContents (recoverSegment blake3 limits segment isSealed recovery) := by
  unfold recoverSegment
  refine (byContents_ofExcept _).bind fun _ => ?_
  refine ((FileCalls.byContents_read _).io _).bind fun content => ?_
  cases EngineRecovery.feed blake3 (content.drop Segment.headerLen) limits recovery with
  | ok offset recovery => exact byContents_pure _
  | error source recovery =>
    refine .ite ?_ (.throw _)
    refine ((FileCalls.byContents_openFile _).io _).bind fun _ => ?_
    refine ((FileCalls.byContents_setLen _ _).io _).bind fun _ => ?_
    exact ((FileCalls.byContents_sync _).io _).bind fun _ => byContents_pure _

/-- The segments are recovered. -/
theorem byContents_recoverSegments (limits : RecordLimits) (segments : List RecordSequence)
    (recovery : EngineRecovery) (offset : Nat) :
    ByContents (recoverSegments blake3 limits segments recovery offset) := by
  induction segments generalizing recovery offset with
  | nil => exact byContents_pure _
  | cons segment segments ih =>
    exact (byContents_recoverSegment _ _ _ _).bind fun recovered => ih _ _

/-- A database goes on in its active segment, whether or not it is going to sync its groups. -/
theorem agree_openActive (manifest : Manifest) (options : FileDatabaseOptions)
    (durability : Durability) (active : RecordSequence) (outcome : RecoveryOutcome) :
    EStateM.Agree SameFiles SameContents (openActive blake3 manifest options active outcome)
      (openActive blake3 manifest { options with durability := durability } active outcome) := by
  refine ((FileCalls.byContents_read _).io _).bind fun content => ?_
  refine ((FileCalls.byContents_openFile _).io _).bind fun _ => ?_
  refine EStateM.Agree.get_bind fun files files' hfiles => .pure ?_
  exact ⟨durability, _, ⟨files', hfiles, rfl⟩, rfl⟩

/-- The steps of opening behind the recovery of the records. -/
theorem agree_goOn (manifest : Manifest) (options : FileDatabaseOptions) (durability : Durability)
    (active : RecordSequence) (obsolete : List FileName) (outcome : RecoveryOutcome) :
    EStateM.Agree SameFiles SameContents (goOn blake3 manifest options active obsolete outcome)
      (goOn blake3 manifest { options with durability := durability } active obsolete outcome) := by
  have hactive := @agree_openActive blake3 manifest options durability active outcome
  refine ByContents.bind (.forM (fun name => (FileCalls.byContents_remove _).io _) obsolete)
    fun _ => ?_
  exact .ite ((FileCalls.byContents_syncDirectory.io _).bind fun _ => hactive) hactive

/-- The steps of opening behind the latest snapshot. -/
theorem agree_openBehind (listing : Listing) (manifest : Manifest) (options : FileDatabaseOptions)
    (durability : Durability) (loaded : Option DecodedSnapshot) :
    EStateM.Agree SameFiles SameContents (openBehind blake3 listing manifest options loaded)
      (openBehind blake3 listing manifest { options with durability := durability } loaded) := by
  refine (byContents_readSegments _ _ _).bind fun segments => ?_
  refine .ite (ByContents.bind (byContents_pure _) fun recovered => ?_)
    ((byContents_recoverSegments _ _ _ _).bind fun recovered => ?_)
  · exact (byContents_ofExcept _).bind fun outcome => agree_goOn _ _ _ _ _ _
  · exact (byContents_ofExcept _).bind fun outcome => agree_goOn _ _ _ _ _ _

/-- A database is opened, whether or not it is going to sync its groups. -/
theorem agree_openDatabase (listing : Listing) (manifest : Manifest) (options : FileDatabaseOptions)
    (durability : Durability) :
    EStateM.Agree SameFiles SameContents (openDatabase blake3 listing manifest options)
      (openDatabase blake3 listing manifest { options with durability := durability }) := by
  rw [openDatabase_eq, openDatabase_eq]
  refine (byContents_ofExcept _).bind fun _ => ?_
  refine (byContents_ofExcept _).bind fun _ => ?_
  refine (byContents_ofExcept _).bind fun _ => ?_
  refine (byContents_cleanupSegmentTemps _).bind fun _ => ?_
  exact (byContents_loadLatestSnapshot _ _).bind fun loaded => agree_openBehind _ _ _ _ _

/-- A database is created, whether or not it is going to sync its groups. -/
theorem agree_create (manifest : Manifest) (options : FileDatabaseOptions)
    (durability : Durability) :
    EStateM.Agree SameFiles SameContents (create blake3 manifest options)
      (create blake3 manifest { options with durability := durability }) := by
  refine (byContents_ofExcept _).bind fun _ => ?_
  refine ((byContents_createSegmentAtomic _ _).io _).bind fun _ => ?_
  refine ((FileCalls.byContents_openFile _).io _).bind fun _ => ?_
  refine EStateM.Agree.get_bind fun files files' hfiles => .pure ?_
  exact ⟨durability, _, ⟨files', hfiles, rfl⟩, rfl⟩

end FileDatabase

/-! ## Groups -/

namespace SegmentedWal

variable {wal wal' wal'' : SegmentedWal blake3} {bytes : List UInt8}

/-- No failure lies ahead. -/
def Faultless (wal : SegmentedWal blake3) : Prop := Upto False (fun _ => True) wal.files

/-- Calls on the files of a log on which no failure lies ahead. -/
theorem spec_onFiles_faultless {α : Type} {x : FileCalls α} {Q : Directory → Prop}
    (hx : Faults.Spec False (fun _ => True) x (fun _ => Q) (fun _ => True)) (operation : String) :
    EStateM.Spec (@Faultless blake3) (onFiles operation x)
      (fun _ wal => Upto False Q wal.files) Faultless := by
  refine EStateM.Spec.within fun wal hwal => ?_
  refine hx.weaken ?_ (fun _ _ h => h) fun _ h => h
  rintro files rfl
  exact hwal

/-- A rotation on which no failure lies ahead leaves none. -/
theorem spec_rotate_faultless (first : RecordSequence) :
    EStateM.Spec (@Faultless blake3) (rotate first) (fun _ => Faultless) Faultless := by
  have hcall {α : Type} {f : Directory → Except IoErrorKind (α × Directory)} :
      Faults.Spec False (fun _ => True) (FileCalls.io f) (fun _ _ => True) (fun _ => True) :=
    spec_call (fun _ _ _ _ _ => trivial) (fun _ _ _ _ => trivial) nofun nofun
  have hcreate (uuid : U128) : Faults.Spec False (fun _ => True)
      (createSegmentAtomic blake3 uuid first) (fun _ _ => True) (fun _ => True) := by
    unfold createSegmentAtomic FileCalls.write FileCalls.sync
    refine EStateM.Spec.andThen hcall ?_
    refine EStateM.Spec.andThen hcall ?_
    refine EStateM.Spec.andThen hcall ?_
    exact EStateM.Spec.andThen hcall hcall
  unfold rotate
  refine EStateM.Spec.bind (EStateM.spec_get (R := fun _ => Faultless) fun _ h => h) fun wal => ?_
  refine EStateM.Spec.andThen (spec_onFiles_faultless (hcreate _) _) ?_
  refine EStateM.Spec.andThen (spec_onFiles_faultless (Q := fun _ => True) hcall _) ?_
  exact EStateM.spec_modify fun _ h => h

/-- A batch that was appended without a failure has been written to a file that is there. -/
theorem spec_append_faultless (bytes : List UInt8) :
    EStateM.Spec (@Faultless blake3) (append bytes) (fun _ => Writable) Faultless := by
  have hpure {α : Type} {v : Except StorageError α} :
      EStateM.Spec (@Faultless blake3) (ofExcept v) (fun _ => Faultless) Faultless :=
    EStateM.spec_ofExcept (fun _ _ _ h => h) fun _ _ _ h => h
  have hwrite {len : Nat} {next : Option RecordSequence} : EStateM.Spec (@Faultless blake3)
      (do
        let wal ← get
        onFiles "append" (FileCalls.write (.segment wal.active) bytes)
        modify fun wal => { wal with
          activeLen := len, activeHasRecords := true, expectedSequence := next })
      (fun _ => Writable) Faultless := by
    refine EStateM.Spec.states fun s hs => ?_
    have hthere : Faults.Spec False (fun _ => True) (FileCalls.write (.segment s.active) bytes)
        (fun _ d => FileName.segment s.active ∈ d) (fun _ => True) := by
      unfold FileCalls.write FileCalls.change FileCalls.io
      refine spec_call ?_ (fun _ _ _ _ => trivial) nofun nofun
      intro d _ u d' h
      cases hfile : d[FileName.segment s.active]? with
      | none =>
        rw [hfile] at h
        cases h
      | some file =>
        rw [hfile] at h
        cases h
        exact OrderedMap.mem_insert_iff.mpr (.inl rfl)
    refine EStateM.Spec.weaken (P := OnFiles s (Upto False fun _ => True))
      (EStateM.Spec.bind spec_getWal fun wal => EStateM.Spec.fact ?_) ?_ (fun _ _ h => h)
        fun _ h => h
    · rintro ⟨files, rfl⟩
      refine EStateM.Spec.andThen ((spec_onFiles s hthere _).weaken (fun _ h => h)
        (fun _ _ h => h) fun _ h => h.2) ?_
      refine EStateM.spec_modify ?_
      rintro s' ⟨⟨files, rfl⟩, hfiles⟩
      exact hfiles
    · rintro _ rfl
      exact ⟨⟨_, rfl⟩, hs⟩
  unfold append
  refine EStateM.Spec.bind (EStateM.spec_get (R := fun _ => Faultless) fun _ h => h) fun wal => ?_
  refine EStateM.Spec.bind hpure fun sequences => ?_
  refine EStateM.Spec.andThen hpure ?_
  refine EStateM.Spec.andThen hpure ?_
  refine EStateM.Spec.ite (fun _ => ?_) fun _ => hwrite
  exact EStateM.Spec.andThen (spec_rotate_faultless _) hwrite

/-- The sides do not matter. -/
theorem SameContents.symm (h : wal.SameContents wal') : wal'.SameContents wal := by
  obtain ⟨files, hfiles, rfl⟩ := h
  exact ⟨wal.files, ⟨hfiles.1.symm, hfiles.2.symm⟩, rfl⟩

/-- Behind an append without a failure nothing is lost, whatever is asked for after it. -/
theorem SameContents.persist {u : PUnit} (hsame : wal'.SameContents wal'')
    (happend : append bytes wal = .ok u wal') (hthere : wal'.Writable) (durability : Durability) :
    ∃ wal₁, persist bytes durability wal = .ok ⟨⟩ wal₁ ∧ wal₁.SameContents wal'' ∧
      wal₁.Faultless := by
  have hfaultless : wal'.Faultless := hthere.imp fun _ => trivial
  cases durability with
  | none => exact ⟨wal', EStateM.bind_of_ok happend, hsame, hfaultless⟩
  | flush => exact ⟨wal', EStateM.bind_of_ok happend, hsame, hfaultless⟩
  | sync =>
    obtain ⟨files, hfiles, rfl⟩ := hsame
    have hsync : Faults.Spec False (fun d => d = wal'.files.state)
        (FileCalls.sync (.segment wal'.active)) (fun _ d => d.SameContents files.state)
        (fun _ => False) := by
      refine FileCalls.spec_change ?_ ?_ nofun nofun
      · rintro d rfl
        exact hthere.2
      · rintro d file rfl hfile
        exact hfiles.1.sync hfile
    obtain ⟨⟨⟩, w, hrun, hfault, hcontents⟩ | ⟨-, -, -, -, hfalse⟩ :=
      hsync wal'.files ⟨hthere.1, rfl⟩
    · refine ⟨{ wal' with files := w }, ?_, ⟨files, ⟨hcontents, ?_⟩, rfl⟩, hfault, trivial⟩
      · refine (EStateM.bind_of_ok happend).trans ?_
        show onFiles "sync" (FileCalls.sync (.segment wal'.active)) wal' = _
        rw [onFiles, EStateM.within, hrun]
      · have hnone : w.fault = none := not_ne_iff.mp hfault
        rw [hnone, ← hfiles.2, not_ne_iff.mp hthere.1]
    · exact hfalse.elim

/-- Persisting a batch without a failure does the same, whatever is asked for after it. -/
theorem agree_persist (h : wal.SameContents wal') (hfaultless : wal.Faultless)
    (bytes : List UInt8) (durability durability' : Durability) :
    EStateM.Result.Agree (fun s t => s.SameContents t ∧ s.Faultless) (fun _ _ => True)
      (persist bytes durability wal) (persist bytes durability' wal') := by
  have hfaultless' : wal'.Faultless := by
    obtain ⟨files, hfiles, rfl⟩ := h
    refine ⟨?_, trivial⟩
    rw [← hfiles.2]
    exact hfaultless.1
  have hagree := agree_append bytes wal wal' h
  obtain ⟨u, wal₁, hrun, hthere⟩ | ⟨e, wal₁, hrun, hfaultless₁⟩ :=
    spec_append_faultless bytes wal hfaultless
  · obtain ⟨u', wal₁', hrun', hthere'⟩ | ⟨e, wal₁', hrun', -⟩ :=
      spec_append_faultless bytes wal' hfaultless'
    · rw [hrun, hrun'] at hagree
      cases hagree with
      | ok _ hsame =>
        obtain ⟨wal₂, hpersist, hsame₂, hfaultless₂⟩ := hsame.persist hrun hthere durability
        obtain ⟨wal₂', hpersist', hsame₂', -⟩ := hsame₂.symm.persist hrun' hthere' durability'
        rw [hpersist, hpersist']
        exact .ok trivial ⟨hsame₂'.symm, hfaultless₂⟩
    · rw [hrun, hrun'] at hagree
      cases hagree
  · obtain ⟨u', wal₁', hrun', -⟩ | ⟨e', wal₁', hrun', -⟩ :=
      spec_append_faultless bytes wal' hfaultless'
    · rw [hrun, hrun'] at hagree
      cases hagree
    · have hfails : persist bytes durability wal = .error e wal₁ := EStateM.bind_of_error hrun
      have hfails' : persist bytes durability' wal' = .error e' wal₁' := EStateM.bind_of_error hrun'
      rw [hrun, hrun'] at hagree
      rw [hfails, hfails']
      cases hagree with
      | error e hsame => exact .error e ⟨hsame, hfaultless₁⟩

end SegmentedWal

/-- Groups do the same, whether or not they are synced, as long as no failure lies ahead. -/
theorem FileDatabase.agree_applyBatch (commands : List (Command × Timestamp)) :
    EStateM.Agree (fun db db' : FileDatabase blake3 => db.SameContents db' ∧ db.backend.Faultless) Eq
      (applyBatch blake3 commands) (applyBatch blake3 commands) := by
  refine EStateM.Agree.get_bind ?_
  rintro ⟨engine, wal, durability, limits, next, poisoned⟩ _
    ⟨⟨durability', wal', hsame, rfl⟩, hfaultless⟩
  refine .ite (.throw _) (.ite (.pure rfl) ?_)
  refine EStateM.Agree.bind (R := Eq) (.ofExcept .rfl) ?_
  rintro prepared _ rfl
  refine .ite (.pure rfl) ?_
  refine EStateM.Agree.bind (R := Eq) (.ofExcept .rfl) fun _ _ _ => ?_
  refine EStateM.Agree.bind (R := Eq) (.ofExcept .rfl) ?_
  rintro assigned _ rfl
  refine EStateM.Agree.bind (R := Eq) (.ofExcept .rfl) ?_
  rintro bytes _ rfl
  have hpersist := SegmentedWal.agree_persist hsame hfaultless bytes durability durability'
  dsimp only
  generalize persist bytes durability wal = x, persist bytes durability' wal' = y at hpersist
  cases hpersist with
  | ok _ hwal =>
    exact (EStateM.Agree.set ⟨⟨durability', _, hwal.1, rfl⟩, hwal.2⟩).bind fun _ _ _ => .pure rfl
  | error e hwal =>
    exact (EStateM.Agree.set ⟨⟨durability', _, hwal.1, rfl⟩, hwal.2⟩).bind fun _ _ _ => .throw _

end PromiseDb
