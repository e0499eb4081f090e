import PromiseDb.Storage.SameContents
import PromiseDb.Storage.StandingDatabases

/-!
# Runs without crashes

As long as the machine does not crash, a file database does not have to sync its groups: it goes
through the same states as one that does.
-/

namespace PromiseDb

open Database Faults

variable {blake3 : List UInt8 → CommandHash} {manifest : Manifest}
  {history items : List TimestampedTransition} {db db' db₀ : FileDatabase blake3}
  {d d' : Directory} {groups : List (List (Command × Timestamp))}

/-! ## Runs -/

/-- A configuration matches the manifest, whatever is asked for after a group. -/
def FileDatabaseOptions.Fits (options : FileDatabaseOptions) (manifest : Manifest) : Prop :=
  FileDatabaseOptions.Matches { options with durability := .sync } manifest

/-- The runs of an open file database with their histories, whatever is asked for after a group, in
which the machine does not crash any more: they go on from a database that syncs its groups (`FileRun`),
or from the creation of one.  Groups are acknowledged or refused, snapshots are created or fail at one
call, and the files are opened again.  A group gives no pool a curve back that it had before, and if it
has records and the log is stranded it moves the log on to a new segment; a snapshot that gets its name
decodes to what was encoded. -/
inductive QuietRun (blake3 : List UInt8 → CommandHash) (manifest : Manifest) :
    List TimestampedTransition → FileDatabase blake3 → Prop
  | synced {history : List TimestampedTransition} {db : FileDatabase blake3}
      (before : FileRun blake3 manifest history (.opened db)) : QuietRun blake3 manifest history db
  | created {options : FileDatabaseOptions} (hoptions : options.Fits manifest)
      {db : FileDatabase blake3} {files : FileSystem}
      (hcreate : FileDatabase.create blake3 manifest options ⟨∅, none⟩ = .ok db files) :
      QuietRun blake3 manifest [] db
  | acknowledged {history : List TimestampedTransition} {db db' : FileDatabase blake3}
      (before : QuietRun blake3 manifest history db)
      {commands : List (Command × Timestamp)} {prepared : PreparedBatch}
      {responses : List CommandResponse}
      (hprepared : Engine.prepareBatch blake3 db.engine commands = .ok prepared)
      (hrestores : RestoresNone db commands)
      (hmoves : db.IsStranded → db.movesOn [commands] = true)
      (happlied : applyBatch blake3 commands db = .ok responses db') :
      QuietRun blake3 manifest (history ++ prepared.durableItems) db'
  | refused {history : List TimestampedTransition} {db db' : FileDatabase blake3}
      (before : QuietRun blake3 manifest history db)
      {commands : List (Command × Timestamp)} {error : DatabaseError}
      (happlied : applyBatch blake3 commands db = .error error db') :
      QuietRun blake3 manifest history db'
  | snapshot {history : List TimestampedTransition} {db : FileDatabase blake3}
      (before : QuietRun blake3 manifest history db) (hdecodes : DecodesBack db) (listing : Listing) :
      QuietRun blake3 manifest history (FileDatabase.createSnapshot listing db).finalState
  | snapshotFailed {history : List TimestampedTransition} {db db' : FileDatabase blake3}
      (before : QuietRun blake3 manifest history db)
      {listing : Listing} {fault : Option Faults.Fault} {error : FileDatabaseError}
      (hdecodes : db.Installs fault → DecodesBack db)
      (hfailed : FileDatabase.createSnapshot listing (db.withFault fault) = .error error db')
      (hmet : db'.backend.files.fault = none) : QuietRun blake3 manifest history db'
  | reopened {history : List TimestampedTransition} {db db' : FileDatabase blake3}
      (before : QuietRun blake3 manifest history db) {listing : Listing}
      {options : FileDatabaseOptions} (hoptions : options.Fits manifest) {files : FileSystem}
      (hopen : FileDatabase.openDatabase blake3 listing manifest options
        ⟨db.backend.files.state, none⟩ = .ok db' files) :
      QuietRun blake3 manifest history db'

/-! ## Databases that sync their groups -/

namespace FileDatabase.SameContents

/-- A database has the same contents as itself. -/
theorem refl (db : FileDatabase blake3) : FileDatabase.SameContents db db :=
  ⟨db.durability, db.backend, ⟨db.backend.files, ⟨.refl _, rfl⟩, rfl⟩, rfl⟩

/-- The files have the same contents. -/
theorem files (h : FileDatabase.SameContents db db₀) : SameFiles db.backend.files db₀.backend.files := by
  obtain ⟨durability, _, ⟨files, hfiles, rfl⟩, rfl⟩ := h
  exact hfiles

/-- The same failure lies ahead. -/
theorem withFault (h : FileDatabase.SameContents db db₀) (fault : Option Faults.Fault) :
    FileDatabase.SameContents (db.withFault fault) (db₀.withFault fault) := by
  obtain ⟨durability, _, ⟨files, hfiles, rfl⟩, rfl⟩ := h
  exact ⟨durability, _, ⟨{ files with fault := fault }, ⟨hfiles.1, rfl⟩, rfl⟩, rfl⟩

/-- The engines are the same. -/
theorem engine (h : FileDatabase.SameContents db db₀) : db₀.engine = db.engine := by
  obtain ⟨durability, _, -, rfl⟩ := h
  rfl

/-- The logs are stranded alike. -/
theorem isStranded (h : FileDatabase.SameContents db db₀) : db.IsStranded ↔ db₀.IsStranded := by
  obtain ⟨durability, _, ⟨files, hfiles, rfl⟩, rfl⟩ := h
  exact exists_congr fun next => and_congr_right fun _ => hfiles.1.mem_iff _

/-- The same groups are acknowledged. -/
theorem acknowledges (h : FileDatabase.SameContents db db₀)
    (hfault : db₀.backend.files.fault = none) {commands : List (Command × Timestamp)}
    {responses : List CommandResponse} (happlied : applyBatch blake3 commands db = .ok responses db') :
    ∃ db₀', applyBatch blake3 commands db₀ = .ok responses db₀' ∧
      FileDatabase.SameContents db' db₀' ∧ db₀'.backend.files.fault = none := by
  have hagree := FileDatabase.agree_applyBatch commands db db₀
    ⟨h, fun hne => hne (h.files.2.trans hfault), trivial⟩
  rw [happlied] at hagree
  obtain ⟨_, db₀', hrun, rfl, hsame, hfaultless⟩ := hagree.of_ok
  exact ⟨db₀', hrun, hsame, hsame.files.2.symm.trans (not_ne_iff.mp hfaultless.1)⟩

/-- The same groups are refused. -/
theorem refuses (h : FileDatabase.SameContents db db₀)
    (hfault : db₀.backend.files.fault = none) {commands : List (Command × Timestamp)}
    {error : DatabaseError} (happlied : applyBatch blake3 commands db = .error error db') :
    ∃ db₀', applyBatch blake3 commands db₀ = .error error db₀' ∧
      FileDatabase.SameContents db' db₀' := by
  have hagree := FileDatabase.agree_applyBatch commands db db₀
    ⟨h, fun hne => hne (h.files.2.trans hfault), trivial⟩
  rw [happlied] at hagree
  obtain ⟨db₀', hrun, hsame, -⟩ := hagree.of_error
  exact ⟨db₀', hrun, hsame⟩

/-- The same snapshots fail. -/
theorem snapshotFails (h : FileDatabase.SameContents db db₀) {listing : Listing}
    {fault : Option Faults.Fault} {error : FileDatabaseError}
    (hfailed : FileDatabase.createSnapshot listing (db.withFault fault) = .error error db') :
    ∃ db₀', FileDatabase.createSnapshot listing (db₀.withFault fault) = .error error db₀' ∧
      FileDatabase.SameContents db' db₀' := by
  have hagree := FileDatabase.agree_createSnapshot listing _ _ (h.withFault fault)
  rw [hfailed] at hagree
  exact hagree.of_error

/-- The same groups are acknowledged one after another. -/
theorem acknowledged (h : FileDatabase.SameContents db db₀) (hfault : db₀.backend.files.fault = none)
    (hgroups : AcknowledgedGroups blake3 db groups items db') :
    ∃ db₀', AcknowledgedGroups blake3 db₀ groups items db₀' ∧
      FileDatabase.SameContents db' db₀' := by
  induction hgroups generalizing db₀ with
  | none db => exact ⟨db₀, .none db₀, h⟩
  | group hprepared hrestores happlied others ih =>
    obtain ⟨middle, happlied', hmiddle, hfaultless⟩ := h.acknowledges hfault happlied
    obtain ⟨db₀', hothers, hsame⟩ := ih hmiddle hfaultless
    refine ⟨db₀', .group ?_ ?_ happlied' hothers, hsame⟩
    · rwa [h.engine]
    · rwa [RestoresNone, h.engine]

/-- The same group moves on to a new segment. -/
theorem movesOn (h : FileDatabase.SameContents db db₀)
    (groups : List (List (Command × Timestamp))) : db.movesOn groups = db₀.movesOn groups := by
  obtain ⟨durability, _, ⟨files, hfiles, rfl⟩, rfl⟩ := h
  exact (FileDatabase.movesOn_congr files durability groups).symm

/-- The log is stranded by the same failures. -/
theorem strands (h : FileDatabase.SameContents db db₀) (fault : Option Faults.Fault) :
    db.Strands fault ↔ db₀.Strands fault := by
  obtain ⟨durability, _, ⟨files, hfiles, rfl⟩, rfl⟩ := h
  refine exists_congr fun next => and_congr_right fun _ => or_congr_right (and_congr ?_ ?_)
  · exact hfiles.1.mem_iff _
  · exact or_congr_left (hfiles.1.mem_iff _)

/-- A snapshot gets its name before the same failures. -/
theorem installs (h : FileDatabase.SameContents db db₀) (fault : Option Faults.Fault) :
    db.Installs fault ↔ db₀.Installs fault := by
  obtain ⟨durability, _, ⟨files, hfiles, rfl⟩, rfl⟩ := h
  have hcalls : cleanupCalls db.backend.files.state = cleanupCalls files.state := by
    simp only [cleanupCalls, hfiles.1.mem_iff]
  simp only [FileDatabase.Installs, FileDatabase.callsBefore, hcalls]

/-- The same snapshots decode to what was encoded. -/
theorem decodesBack (h : FileDatabase.SameContents db db₀) : DecodesBack db ↔ DecodesBack db₀ := by
  obtain ⟨durability, _, ⟨files, hfiles, rfl⟩, rfl⟩ := h
  rfl

/-- The sides do not matter. -/
theorem symm (h : FileDatabase.SameContents db db₀) : FileDatabase.SameContents db₀ db := by
  obtain ⟨durability, backend, hbackend, rfl⟩ := h
  exact ⟨db.durability, db.backend, hbackend.symm, rfl⟩

end FileDatabase.SameContents

/-- Files with the same contents are opened in the same way. -/
theorem Directory.SameContents.opens (h : d.SameContents d') {listing : Listing}
    {options : FileDatabaseOptions} (durability : Durability) {files : FileSystem}
    (hopen : FileDatabase.openDatabase blake3 listing manifest options ⟨d, none⟩ = .ok db files) :
    ∃ db₀ files', FileDatabase.openDatabase blake3 listing manifest
        { options with durability := durability } ⟨d', none⟩ = .ok db₀ files' ∧
      FileDatabase.SameContents db db₀ ∧ SameFiles files files' := by
  have hagree := @FileDatabase.agree_openDatabase blake3 listing manifest options durability
    ⟨d, none⟩ ⟨d', none⟩ ⟨h, rfl⟩
  rw [hopen] at hagree
  exact hagree.of_ok

/-- Files that stand for a history are opened by a database that goes on with it. -/
theorem Closed.reopened (h : Closed blake3 manifest history d') (hd : d.SameContents d')
    {listing : Listing} {options : FileDatabaseOptions} (hoptions : options.Fits manifest)
    {files : FileSystem}
    (hopen : FileDatabase.openDatabase blake3 listing manifest options ⟨d, none⟩ = .ok db files) :
    ∃ db₀, Live manifest history db₀ ∧ FileDatabase.SameContents db db₀ := by
  obtain ⟨db₀, files', hopen', hsame, -⟩ := hd.opens .sync hopen
  obtain ⟨shape, tail, db₁, d₁, -, -, hrun, hfault, hopened⟩ := h.opens listing hoptions
  rw [hopen'] at hrun
  obtain ⟨rfl, -⟩ := EStateM.Result.ok.inj hrun
  exact ⟨db₀, hopened.live hfault, hsame⟩

/-- A run without crashes is like one of a database that syncs its groups. -/
theorem QuietRun.like_synced (h : QuietRun blake3 manifest history db) :
    ∃ db₀, Standing manifest history db₀ ∧ FileDatabase.SameContents db db₀ := by
  induction h with
  | @synced history db before =>
    have hlive : Live manifest history db := before.safe
    exact ⟨db, hlive.standing, .refl db⟩
  | @created options hoptions db files hcreate =>
    have hagree := @FileDatabase.agree_create blake3 manifest options .sync
      ⟨∅, none⟩ ⟨∅, none⟩ ⟨.refl ∅, rfl⟩
    rw [hcreate] at hagree
    obtain ⟨db₀, files', hrun, hsame, -⟩ := hagree.of_ok
    exact ⟨db₀, (Live.created hoptions hrun).standing, hsame⟩
  | @acknowledged history db db' before commands prepared responses hprepared hrestores hmoves happlied
      ih =>
    obtain ⟨db₀, hstanding, hsame⟩ := ih
    have hgroup : AcknowledgedGroups blake3 db [commands] (prepared.durableItems ++ []) db' :=
      .group hprepared hrestores happlied (.none db')
    obtain ⟨db₀', hgroup₀, hsame'⟩ := hsame.acknowledged hstanding.fault hgroup
    rw [List.append_nil] at hgroup₀
    rw [hsame.isStranded, hsame.movesOn] at hmoves
    exact ⟨db₀', hstanding.acknowledged hgroup₀ hmoves, hsame'⟩
  | @refused history db db' before commands error happlied ih =>
    obtain ⟨db₀, hstanding, hsame⟩ := ih
    obtain ⟨db₀', happlied', hsame'⟩ := hsame.refuses hstanding.fault happlied
    exact ⟨db₀', hstanding.refused happlied', hsame'⟩
  | @snapshot history db before hdecodes listing ih =>
    obtain ⟨db₀, hstanding, hsame⟩ := ih
    exact ⟨_, hstanding.snapshot (hsame.decodesBack.mp hdecodes) listing,
      (FileDatabase.agree_createSnapshot listing db db₀ hsame).finalState⟩
  | @snapshotFailed history db db' before listing fault error hdecodes hfailed hmet ih =>
    obtain ⟨db₀, hstanding, hsame⟩ := ih
    obtain ⟨db₀', hfailed', hsame'⟩ := hsame.snapshotFails hfailed
    rw [hsame.installs, hsame.decodesBack] at hdecodes
    exact ⟨db₀', hstanding.snapshotFailed hdecodes hfailed' (hsame'.files.2.symm.trans hmet), hsame'⟩
  | @reopened history db db' before listing options hoptions files hopen ih =>
    obtain ⟨db₀, hstanding, hsame⟩ := ih
    obtain ⟨db₀', hlive, hsame'⟩ := hstanding.closed.reopened hsame.files.1 hoptions hopen
    exact ⟨db₀', hlive.standing, hsame'⟩

end PromiseDb
