import PromiseDb.Storage.OpeningSpares
import PromiseDb.Storage.StandingDatabases

/-!
# Snapshots that cannot be read back

The creation of a snapshot that does not decode to what was encoded may fail when the snapshot has got
its name already.  Then no later group removes it, and the files are not recovered.
-/

namespace PromiseDb

open Database Faults

variable {blake3 : List UInt8 → CommandHash} {manifest : Manifest}
  {history items : List TimestampedTransition} {db db' db₁ : FileDatabase blake3}
  {d : Directory} {watermark : U64} {bytes : List UInt8}

/-! ## The latest snapshot -/

/-- No snapshot lies behind a watermark. -/
def SnapshotsUpTo (watermark : U64) (d : Directory) : Prop :=
  ∀ other, FileName.snapshot other ∈ d → other ≤ watermark

/-- The latest snapshot holds some bytes. -/
structure LatestHolds (watermark : U64) (bytes : List UInt8) (d : Directory) : Prop where
  file : d[FileName.snapshot watermark]? = some (.synced bytes)
  upTo : SnapshotsUpTo watermark d

/-- A property of files that does not depend on any file but snapshots. -/
structure OfSnapshots (K : Directory → Prop) : Prop where
  insert : ∀ d file, ∀ name, (∀ watermark, name ≠ FileName.snapshot watermark) → K d →
    K (d.insert name file)
  erase : ∀ d, ∀ name, (∀ watermark, name ≠ FileName.snapshot watermark) → K d → K (d.erase name)

/-- Where the snapshots lie. -/
theorem ofSnapshots_upTo (watermark : U64) : OfSnapshots (SnapshotsUpTo watermark) where
  insert d file name hname hd other hmem := by
    rcases OrderedMap.mem_insert_iff.mp hmem with heq | hmem
    · exact absurd heq (hname other)
    · exact hd other hmem
  erase d name hname hd other hmem := hd other (Std.ExtTreeMap.mem_of_mem_erase hmem)

/-- What the latest snapshot holds. -/
theorem ofSnapshots_latest (watermark : U64) (bytes : List UInt8) :
    OfSnapshots (LatestHolds watermark bytes) where
  insert d file name hname hd := by
    refine ⟨?_, (ofSnapshots_upTo watermark).insert d file name hname hd.upTo⟩
    rw [OrderedMap.lookup_insert, if_neg (hname watermark)]
    exact hd.file
  erase d name hname hd := by
    refine ⟨?_, (ofSnapshots_upTo watermark).erase d name hname hd.upTo⟩
    rw [OrderedMap.lookup_erase, if_neg (hname watermark)]
    exact hd.file

/-- A snapshot that gets its name is the latest one. -/
theorem SnapshotsUpTo.insert (h : SnapshotsUpTo watermark d) (bytes : List UInt8) :
    LatestHolds watermark bytes (d.insert (.snapshot watermark) (.synced bytes)) := by
  refine ⟨OrderedMap.lookup_insert_self _ _ _, fun other hmem => ?_⟩
  rcases OrderedMap.mem_insert_iff.mp hmem with heq | hmem
  · exact (FileName.snapshot.inj heq).ge
  · exact h other hmem

/-- The latest snapshot stays when others are removed. -/
theorem LatestHolds.erase (h : LatestHolds watermark bytes d) {name : FileName}
    (hname : name ≠ .snapshot watermark) : LatestHolds watermark bytes (d.erase name) := by
  refine ⟨?_, fun other hmem => h.upTo other (Std.ExtTreeMap.mem_of_mem_erase hmem)⟩
  rw [OrderedMap.lookup_erase, if_neg hname]
  exact h.file

/-- The rotation of a log leaves the snapshots alone. -/
theorem OfSnapshots.unrotated {K : Directory → Prop} (h : OfSnapshots K) (first : RecordSequence) :
    Unrotated first K where
  insert_temp d file hd := h.insert d file _ nofun hd
  erase_temp d hd := h.erase d _ nofun hd
  insert d file hd := h.insert d file _ nofun hd

/-! ## Snapshots that fail late -/

variable {call : Faults.Fault} {error : FileDatabaseError} {listing : Listing}

/-- What a snapshot covers is removed without it. -/
theorem LatestHolds.spec_removeCovered (listing : Listing) (watermark : U64) (bytes : List UInt8)
    (length : Nat) :
    EStateM.Spec
      (fun s : FileDatabase blake3 => Upto True (LatestHolds watermark bytes) s.backend.files)
      (FileDatabase.removeCovered listing watermark length)
      (fun _ s => Upto True (LatestHolds watermark bytes) s.backend.files)
      (fun s => Upto True (LatestHolds watermark bytes) s.backend.files) := by
  have hcompact {part : FileName → Bool} {kept : FileName}
      (h : ∀ name, part name = true → name ≠ kept → name ≠ .snapshot watermark)
      (f : IoErrorKind → FileDatabaseError) : EStateM.Spec
        (fun s : FileDatabase blake3 => Upto True (LatestHolds watermark bytes) s.backend.files)
        (FileDatabase.onFiles f (FileDatabase.compact listing part kept))
        (fun _ s => Upto True (LatestHolds watermark bytes) s.backend.files)
        (fun s => Upto True (LatestHolds watermark bytes) s.backend.files) :=
    spec_onDatabaseFiles (spec_compact (fun d name hpart hother hd => hd.erase (h name hpart hother))
      fun _ _ hd => hd) f (fun _ h => h) (fun _ _ _ _ h => h.imp And.left) fun _ _ _ h => h
  unfold FileDatabase.removeCovered
  refine EStateM.Spec.bind
    (R := fun _ s => Upto True (LatestHolds watermark bytes) s.backend.files)
    (EStateM.spec_get fun _ h => h) fun db => ?_
  refine EStateM.Spec.bind (hcompact ?_ _) fun removed => ?_
  · rintro name hpart - rfl
    cases hpart
  refine EStateM.Spec.bind (hcompact (fun _ _ hother => hother) _) fun older => ?_
  exact EStateM.spec_pure fun _ h => h

/-- A snapshot whose installation fails when it has got its name is the latest one. -/
theorem FileDatabase.installFailed_latest {made extra : Nat} {file : SnapshotFile}
    {limits : SnapshotLimits} (hfiles : Ahead call made (fun d =>
      SnapshotsUpTo file.walWatermark d ∧ cleanupCalls d = extra) db.backend.files)
    (hat : InstallsAt (made + extra + 3) call)
    (hencode : Snapshot.encode blake3 file limits = .ok bytes)
    (hfailed : FileDatabase.installCaptured listing file limits db = .error error db₁)
    (hmet : db₁.backend.files.fault = none) :
    LatestHolds file.walWatermark bytes db₁.backend.files.state := by
  have hsnapshots := ofSnapshots_upTo file.walWatermark
  have hahead := @ahead_installSnapshot call made extra _ (LatestHolds file.walWatermark bytes)
    (fun d file' hd => hsnapshots.insert d file' _ nofun hd)
    (fun d hd => hsnapshots.erase d _ nofun hd)
    file.walWatermark bytes (fun d hd => hd.insert bytes) db.backend.files hfiles
  rw [FileDatabase.installCaptured, hencode] at hfailed
  rcases EStateM.bind_eq_error.mp hfailed with hencoded | ⟨_, _, hencoded, hrest⟩
  · cases hencoded
  obtain ⟨rfl, rfl⟩ := EStateM.Result.ok.inj hencoded
  obtain ⟨u, w, hrun, n, -, -, hlatest⟩ | ⟨e, w, hrun, hmet'⟩ := hahead
  · -- the covered files were being removed
    rw [EStateM.bind_of_ok (FileDatabase.onFiles_of_ok hrun _)] at hrest
    have hspec := @LatestHolds.spec_removeCovered blake3 listing file.walWatermark bytes bytes.length
    exact (hspec.of_error hrest ⟨fun _ => trivial, hlatest⟩).2
  · rw [EStateM.bind_of_error (FileDatabase.onFiles_of_error hrun _)] at hrest
    obtain ⟨-, rfl⟩ := EStateM.Result.error.inj hrest
    exact ((hmet' hmet).resolve_right fun hearly => hearly.1 hat).2

/-- A snapshot whose creation fails when it has got its name is the latest one. -/
theorem FileDatabase.snapshotFailed_latest (hfault : db.backend.files.fault = some call)
    (hhealthy : db.poisoned = false) (hat : InstallsAt db.callsBefore call)
    (hupTo : SnapshotsUpTo db.snapshotFile.walWatermark db.backend.files.state)
    (hencode : Snapshot.encode blake3 db.snapshotFile db.backend.snapshotLimits = .ok bytes)
    (hfailed : FileDatabase.createSnapshot listing db = .error error db₁)
    (hmet : db₁.backend.files.fault = none) :
    LatestHolds db.snapshotFile.walWatermark bytes db₁.backend.files.state := by
  by_cases hdue : ∃ next, db.RotatesBefore next
  · obtain ⟨next, hrotates⟩ := hdue
    rw [FileDatabase.callsBefore_of_rotates hrotates] at hat
    rw [FileDatabase.createSnapshot_of_rotates hhealthy hrotates] at hfailed
    have hK : Unrotated next fun d => SnapshotsUpTo db.snapshotFile.walWatermark d ∧
        cleanupCalls d = cleanupCalls db.backend.files.state :=
      ((ofSnapshots_upTo _).unrotated next).and (unrotated_cleanupCalls _)
    have hspec := ahead_rotate hK ⟨hupTo, rfl⟩ hfault
    rcases EStateM.bind_eq_error.mp hfailed with hrotate | ⟨u, s, hrotate, hinstall⟩
    · obtain ⟨hless, -⟩ := (hspec.of_error hrotate rfl).2 hmet
      rcases hat with hat | rfl
      · omega
      · have hless' : 6 + cleanupCalls db.backend.files.state + 3 < 6 := hless
        omega
    · exact FileDatabase.installFailed_latest (hspec.of_ok hrotate rfl) hat hencode hinstall hmet
  · rw [FileDatabase.callsBefore_of_not_rotates hdue, ← Nat.zero_add (cleanupCalls _)] at hat
    rw [FileDatabase.createSnapshot_of_not_rotates hhealthy hdue] at hfailed
    exact FileDatabase.installFailed_latest
      ⟨call.remaining, Nat.zero_add _, hfault, hupTo, rfl⟩ hat hencode hfailed hmet

/-! ## Later groups -/

section Groups

variable {K : Directory → Prop}

/-- The creation of a segment leaves the snapshots alone. -/
theorem OfSnapshots.keeps_createSegmentAtomic (h : OfSnapshots K) (uuid : U128)
    (first : RecordSequence) : Keeps K (createSegmentAtomic blake3 uuid first) := by
  unfold createSegmentAtomic
  refine EStateM.Spec.andThen (FileCalls.spec_createNew (Q := K)
    (fun d hd _ => h.insert d _ _ nofun hd) (fun _ hd _ => hd) (fun _ _ hd => hd)
      fun _ _ hd => hd) ?_
  refine EStateM.Spec.andThen (FileCalls.spec_changeFile (Q := K)
    (fun d file hd _ => h.insert d _ _ nofun hd) (fun _ hd => hd) fun _ hd => hd) ?_
  refine EStateM.Spec.andThen (FileCalls.spec_changeFile (Q := K)
    (fun d file hd _ => h.insert d _ _ nofun hd) (fun _ hd => hd) fun _ hd => hd) ?_
  refine EStateM.Spec.andThen ?_ FileCalls.keeps_syncDirectory
  unfold FileCalls.rename FileCalls.io
  refine keeps_call fun d u d' hd hcall => ?_
  cases hfile : d[FileName.segmentTemp first]? with
  | none =>
    rw [hfile] at hcall
    cases hcall
  | some file =>
    rw [hfile] at hcall
    cases hcall
    exact h.insert _ _ _ nofun (h.erase d _ nofun hd)

/-- Calls on the files of a log that keep a property of them. -/
theorem spec_onFiles_keeps {α : Type} {x : FileCalls α} (hx : Keeps K x) (operation : String) :
    EStateM.Spec (fun s : SegmentedWal blake3 => Upto True K s.files)
      (SegmentedWal.onFiles operation x) (fun _ s => Upto True K s.files)
      (fun s => Upto True K s.files) := by
  refine EStateM.Spec.within fun wal hwal => ?_
  refine EStateM.Spec.weaken hx ?_ (fun _ _ h => h) fun _ h => h
  rintro files rfl
  exact hwal

/-- An append leaves the snapshots alone. -/
theorem OfSnapshots.spec_append (h : OfSnapshots K) (bytes : List UInt8) :
    EStateM.Spec (fun s : SegmentedWal blake3 => Upto True K s.files) (SegmentedWal.append bytes)
      (fun _ s => Upto True K s.files) (fun s => Upto True K s.files) := by
  have hpure {α : Type} {v : Except StorageError α} :
      EStateM.Spec (fun s : SegmentedWal blake3 => Upto True K s.files) (ofExcept v)
        (fun _ s => Upto True K s.files) (fun s => Upto True K s.files) :=
    EStateM.spec_ofExcept (fun _ _ _ h => h) fun _ _ _ h => h
  have hget : EStateM.Spec (fun s : SegmentedWal blake3 => Upto True K s.files)
      (get : EStateM StorageError (SegmentedWal blake3) (SegmentedWal blake3))
      (fun _ s => Upto True K s.files) (fun s => Upto True K s.files) :=
    EStateM.spec_get fun _ h => h
  have hrotate (first : RecordSequence) :
      EStateM.Spec (fun s : SegmentedWal blake3 => Upto True K s.files) (SegmentedWal.rotate first)
        (fun _ s => Upto True K s.files) (fun s => Upto True K s.files) := by
    unfold SegmentedWal.rotate
    refine EStateM.Spec.bind hget fun wal => ?_
    refine EStateM.Spec.andThen (spec_onFiles_keeps (h.keeps_createSegmentAtomic _ _) _) ?_
    refine EStateM.Spec.andThen (spec_onFiles_keeps FileCalls.keeps_openFile _) ?_
    exact EStateM.spec_modify fun _ h => h
  have hwrite (wal : SegmentedWal blake3) : Keeps K (FileCalls.write (.segment wal.active) bytes) :=
    FileCalls.spec_changeFile (fun d file hd _ => h.insert d _ _ nofun hd) (fun _ hd => hd)
      fun _ hd => hd
  unfold SegmentedWal.append
  refine EStateM.Spec.bind hget fun wal => ?_
  refine EStateM.Spec.bind hpure fun sequences => ?_
  refine EStateM.Spec.andThen hpure ?_
  refine EStateM.Spec.andThen hpure ?_
  refine EStateM.Spec.ite (fun _ => EStateM.Spec.andThen (hrotate _) ?_) fun _ => ?_
  · refine EStateM.Spec.bind hget fun wal => ?_
    exact EStateM.Spec.andThen (spec_onFiles_keeps (hwrite wal) _) (EStateM.spec_modify fun _ h => h)
  · refine EStateM.Spec.bind hget fun wal => ?_
    exact EStateM.Spec.andThen (spec_onFiles_keeps (hwrite wal) _) (EStateM.spec_modify fun _ h => h)

/-- A batch that is persisted leaves the snapshots alone. -/
theorem OfSnapshots.persisted (h : OfSnapshots K) {wal wal' : SegmentedWal blake3}
    (hK : K wal.files.state) {u : PUnit} {durability : Durability}
    (hpersist : PromiseDb.persist bytes durability wal = .ok u wal') : K wal'.files.state := by
  have hsync (wal : SegmentedWal blake3) : Keeps K (FileCalls.sync (.segment wal.active)) :=
    FileCalls.spec_changeFile (fun d file hd _ => h.insert d _ _ nofun hd) (fun _ hd => hd)
      fun _ hd => hd
  have hspec : EStateM.Spec (fun s : SegmentedWal blake3 => Upto True K s.files)
      (PromiseDb.persist bytes durability) (fun _ s => Upto True K s.files)
      (fun s => Upto True K s.files) := by
    refine EStateM.Spec.andThen (h.spec_append bytes) ?_
    cases durability with
    | none => exact EStateM.spec_pure fun _ h => h
    | flush => exact EStateM.spec_pure fun _ h => h
    | sync =>
      refine EStateM.Spec.bind
        (R := fun _ (s : SegmentedWal blake3) => Upto True K s.files)
        (EStateM.spec_get fun _ h => h) fun wal => ?_
      exact spec_onFiles_keeps (hsync wal) _
  exact (hspec.of_ok hpersist ⟨fun _ => trivial, hK⟩).2

/-- Acknowledged groups leave the snapshots alone. -/
theorem OfSnapshots.acknowledged (h : OfSnapshots K) {groups : List (List (Command × Timestamp))}
    (hgroups : AcknowledgedGroups blake3 db groups items db') (hK : K db.backend.files.state) :
    K db'.backend.files.state := by
  induction hgroups with
  | none db => exact hK
  | group hprepared hrestores happlied others ih =>
    refine ih ?_
    obtain ⟨prepared', -, -, ⟨-, -, rfl⟩ | ⟨bytes, next, backend, -, hpersist, rfl⟩⟩ :=
      applyBatch_acknowledged happlied
    · exact hK
    · exact h.persisted hK hpersist

end Groups

/-! ## Recovery -/

/-- Files whose latest snapshot does not decode to what was encoded are not recovered. -/
theorem LatestHolds.not_recovers {base : Engine}
    (h : LatestHolds watermark bytes d) (hlength : watermark.val = history.length)
    (hinstalled : Engine.installAll blake3 .empty history = .ok base)
    (hdecode : Snapshot.decode blake3 bytes manifest.snapshotLimits manifest.databaseUuid
      stateMachineSemanticsVersion watermark ≠ .ok ⟨watermark, base⟩) :
    ¬Recovers manifest (history ++ items) d db := by
  intro hrecovers
  obtain ⟨selected, hlatest, hcovered⟩ := hrecovers.covered
  obtain ⟨last, hselected, hle⟩ :=
    hlatest watermark (OrderedMap.mem_iff_lookup.mpr ⟨_, h.file⟩)
  obtain ⟨file, base', recovered, hfile, hdecode', -, hbase, -⟩ := hcovered last hselected
  obtain rfl : last = watermark :=
    le_antisymm (h.upTo last (OrderedMap.mem_iff_lookup.mpr ⟨_, hfile⟩)) hle
  rw [h.file] at hfile
  obtain rfl := Option.some.inj hfile
  rw [File.content_synced] at hdecode'
  have htake : (history ++ items).take last.val.toNat = history := by
    rw [hlength, Int.toNat_natCast, List.take_left]
  rw [htake, hinstalled] at hbase
  obtain rfl := Except.ok.inj hbase
  exact hdecode hdecode'

/-- No snapshot of a history lies behind the one that covers all of it. -/
theorem Shape.In.upTo {shape : Shape} {tail : List UInt8} {limits : RecordLimits}
    (h : shape.In blake3 manifest tail d) (hof : shape.Of blake3 limits history)
    (hlength : watermark.val = history.length) : SnapshotsUpTo watermark d := by
  intro other hmem
  obtain ⟨last, hselected, hle⟩ := h.intact.latest other hmem
  refine hle.trans ?_
  have hcovers := hof.covers
  have hcovered : shape.covered = last.val.toNat := by
    rw [Shape.covered, Option.mem_def.mp hselected]
    rfl
  show last.val ≤ watermark.val
  have hpos := last.property.1
  omega

/-- After the creation of a snapshot that does not decode to what was encoded has failed when the
snapshot had got its name, nothing is recovered any more. -/
theorem Standing.not_recovered (h : Standing manifest history db) (hhealthy : db.poisoned = false)
    {fault : Option Faults.Fault} (hinstalls : db.Installs fault) (hdecodes : ¬DecodesBack db)
    (hfailed : FileDatabase.createSnapshot listing (db.withFault fault) = .error error db₁)
    (hmet : db₁.backend.files.fault = none) {groups : List (List (Command × Timestamp))}
    {db₂ : FileDatabase blake3} (hgroups : AcknowledgedGroups blake3 db₁ groups items db₂) :
    ¬Recovers manifest (history ++ items) db₂.backend.files.state db' := by
  obtain ⟨call, hcall, hat⟩ := hinstalls
  obtain ⟨shape, hstands⟩ : ∃ shape, Shape.Stands True manifest history shape (db.withFault fault) :=
    h.stands hhealthy fun _ => trivial
  obtain ⟨bytes, hencode, hdecode⟩ : ∃ bytes,
      Snapshot.encode blake3 db.snapshotFile db.backend.snapshotLimits = .ok bytes ∧
      Snapshot.decode blake3 bytes db.backend.snapshotLimits db.backend.databaseUuid
        stateMachineSemanticsVersion db.snapshotFile.walWatermark ≠
          .ok ⟨db.snapshotFile.walWatermark, db.engine.unindexed⟩ := by
    by_contra hnone
    refine hdecodes fun bytes hencode => ?_
    by_contra hdecode
    exact hnone ⟨bytes, hencode, hdecode⟩
  have hlength : db.snapshotFile.walWatermark.val = history.length := by
    refine (FileDatabase.snapshotWatermark_val db.nextRecordSequence).trans ?_
    rw [← hstands.of.sequenceIndex_next]
    exact congrArg sequenceIndex hstands.handled.next
  have hupTo : SnapshotsUpTo db.snapshotFile.walWatermark db.backend.files.state := by
    rcases hstands with hkept | hstranded
    · exact hkept.files.2.upTo hkept.of hlength
    · obtain ⟨first, hnext, -, hin⟩ := hstranded.files
      have hless := hstranded.of.active_lt hnext hstranded.full
      exact hin.upTo (hstranded.of.rotate hnext hless) hlength
  have hlatest : LatestHolds db.snapshotFile.walWatermark bytes db₁.backend.files.state := by
    show LatestHolds (db.withFault fault).snapshotFile.walWatermark bytes _
    exact FileDatabase.snapshotFailed_latest hcall hhealthy hat hupTo hencode hfailed hmet
  have huuid : db.backend.databaseUuid = manifest.databaseUuid := hstands.handled.databaseUuid
  have hlimits : db.backend.snapshotLimits = manifest.snapshotLimits := hstands.handled.snapshotLimits
  rw [huuid, hlimits] at hdecode
  exact ((ofSnapshots_latest _ _).acknowledged hgroups hlatest).not_recovers hlength
    h.recorded.is.installed hdecode

end PromiseDb
