import PromiseDb.Engine.ForcedRevisions
import PromiseDb.Storage.RunAnswers

/-!
# Crashes between calls

A file database whose calls never fail, but whose machine may crash between any two of them.  The runs
leave open which groups are admitted.  If no group gives a pool a curve back, then every open succeeds
and recovers exactly the history, whatever replacements the groups contain.  If all groups are
admitted, a database can be created and used, without any crash, such that it is not opened again:
after a group that takes a capacity away and gives it back, the replayed pool is without capacity, and
a replacement that was accepted where the old claim stops then leaves a slack that the index does not
hold.
-/

namespace PromiseDb

open Database Faults

variable {blake3 : List UInt8 → CommandHash} {manifest : Manifest}
  {admits : FileDatabase blake3 → List (Command × Timestamp) → Prop}
  {history : List TimestampedTransition} {db db' : FileDatabase blake3} {d : Directory}

/-! ## Runs -/

/-- The runs of a file database in which no call fails and every snapshot decodes to what was encoded,
with their histories.  An operation is carried out, or the machine crashes behind some of its calls;
then a part from the front of what was appended to a file since it was synced is left.  An acknowledged
group appends its records to the history, and a group during which the machine crashes those of its
records that are complete in the files; nothing else changes the history. -/
inductive CrashRun (blake3 : List UInt8 → CommandHash) (manifest : Manifest)
    (admits : FileDatabase blake3 → List (Command × Timestamp) → Prop) :
    List TimestampedTransition → Site blake3 → Prop
  | created {options : FileDatabaseOptions} (hoptions : options.Matches manifest)
      {db : FileDatabase blake3} {files : FileSystem}
      (hcreate : FileDatabase.create blake3 manifest options ⟨∅, none⟩ = .ok db files) :
      CrashRun blake3 manifest admits [] (.opened db)
  | acknowledged {history : List TimestampedTransition} {db db' : FileDatabase blake3}
      (before : CrashRun blake3 manifest admits history (.opened db))
      {commands : List (Command × Timestamp)} {prepared : PreparedBatch}
      {responses : List CommandResponse}
      (hprepared : Engine.prepareBatch blake3 db.engine commands = .ok prepared)
      (hadmits : admits db commands)
      (happlied : applyBatch blake3 commands db = .ok responses db') :
      CrashRun blake3 manifest admits (history ++ prepared.durableItems) (.opened db')
  | refused {history : List TimestampedTransition} {db db' : FileDatabase blake3}
      (before : CrashRun blake3 manifest admits history (.opened db))
      {commands : List (Command × Timestamp)} {error : DatabaseError}
      (happlied : applyBatch blake3 commands db = .error error db') :
      CrashRun blake3 manifest admits history (.opened db')
  | groupCrashed {history : List TimestampedTransition} {db : FileDatabase blake3}
      (before : CrashRun blake3 manifest admits history (.opened db))
      {commands : List (Command × Timestamp)} {prepared : PreparedBatch}
      (hprepared : Engine.prepareBatch blake3 db.engine commands = .ok prepared)
      (hadmits : admits db commands) {calls : Nat} {d : Directory}
      (hcut : (applyBatch blake3 commands
        (db.withFault (some ⟨calls, .crash⟩))).finalState.backend.files.state.Cut d) :
      CrashRun blake3 manifest admits (history ++ prepared.durableItems.take
        (recordsLeft blake3 manifest.recordLimits db prepared.durableItems d)) (.closed d)
  | snapshot {history : List TimestampedTransition} {db : FileDatabase blake3}
      (before : CrashRun blake3 manifest admits history (.opened db)) (hdecodes : DecodesBack db)
      (listing : Listing) :
      CrashRun blake3 manifest admits history
        (.opened (FileDatabase.createSnapshot listing db).finalState)
  | snapshotCrashed {history : List TimestampedTransition} {db : FileDatabase blake3}
      (before : CrashRun blake3 manifest admits history (.opened db)) (hdecodes : DecodesBack db)
      {listing : Listing} {calls : Nat} {d : Directory}
      (hcut : (FileDatabase.createSnapshot listing
        (db.withFault (some ⟨calls, .crash⟩))).finalState.backend.files.state.Cut d) :
      CrashRun blake3 manifest admits history (.closed d)
  | crashed {history : List TimestampedTransition} {db : FileDatabase blake3}
      (before : CrashRun blake3 manifest admits history (.opened db)) {d : Directory}
      (hcut : db.backend.files.state.Cut d) : CrashRun blake3 manifest admits history (.closed d)
  | reopened {history : List TimestampedTransition} {d : Directory}
      (before : CrashRun blake3 manifest admits history (.closed d)) {listing : Listing}
      {options : FileDatabaseOptions} (hoptions : options.Matches manifest)
      {db : FileDatabase blake3} {files : FileSystem}
      (hopen : FileDatabase.openDatabase blake3 listing manifest options ⟨d, none⟩ =
        .ok db files) :
      CrashRun blake3 manifest admits history (.opened db)
  | openingCrashed {history : List TimestampedTransition} {d d' : Directory}
      (before : CrashRun blake3 manifest admits history (.closed d)) {listing : Listing}
      {options : FileDatabaseOptions} (hoptions : options.Matches manifest) {calls : Nat}
      (hcut : (FileDatabase.openDatabase blake3 listing manifest options
        ⟨d, some ⟨calls, .crash⟩⟩).finalState.state.Cut d') :
      CrashRun blake3 manifest admits history (.closed d')

/-- If no admitted group restores a pool, the files stand for the history. -/
theorem CrashRun.safe {site : Site blake3} (h : CrashRun blake3 manifest admits history site)
    (hadmits : ∀ db commands, admits db commands → RestoresNone db commands) :
    site.Safe manifest history := by
  induction h with
  | created hoptions hcreate => exact Live.created hoptions hcreate
  | acknowledged before hprepared hadmitted happlied ih =>
    exact Live.applied ih happlied hprepared (hadmits _ _ hadmitted)
  | refused before happlied ih => exact Live.refused ih happlied
  | groupCrashed before hprepared hadmitted hcut ih =>
    exact Live.crashed ih hprepared (hadmits _ _ hadmitted) hcut
  | snapshot before hdecodes listing ih => exact Live.snapshot ih hdecodes listing
  | snapshotCrashed before hdecodes hcut ih => exact Live.snapshotCrashed ih hdecodes _ hcut
  | crashed before hcut ih => exact (Closed.cut (Live.closed ih) hcut).1
  | @reopened history d before listing options hoptions db files hopen ih =>
    obtain ⟨shape, tail, db', d', -, -, hrun, hfault, hopened⟩ := Closed.opens ih listing hoptions
    rw [hopen] at hrun
    obtain ⟨rfl, -⟩ := EStateM.Result.ok.inj hrun
    exact hopened.live hfault
  | openingCrashed before hoptions hcut ih => exact Closed.openingStopped ih hoptions hcut

/-- In every run whose groups restore no pool, every open succeeds and recovers exactly the history:
the latest snapshot covers as many records as its watermark says, the records behind it are replayed,
and the log goes on with the next sequence. -/
theorem crashRun_recovers (h : CrashRun blake3 manifest RestoresNone history (.closed d))
    (listing : Listing) {options : FileDatabaseOptions} (hoptions : options.Matches manifest) :
    ∃ db d', FileDatabase.openDatabase blake3 listing manifest options ⟨d, none⟩ = .ok db ⟨d', none⟩ ∧
      Recovers manifest history d db := by
  have hclosed : Closed blake3 manifest history d := h.safe fun _ _ hrestores => hrestores
  exact hclosed.recovered listing hoptions

/-! ## A run that is recovered -/

/-- A database after further groups, as far as they are acknowledged. -/
def acknowledgedAll (db : FileDatabase blake3) :
    List (List (Command × Timestamp)) → Option (FileDatabase blake3)
  | [] => some db
  | commands :: rest =>
    if (EStateM.run' (applyBatch blake3 commands) db).isSome then
      acknowledgedAll (applyBatch blake3 commands db).finalState rest
    else none

/-- Acknowledged groups continue a run. -/
theorem CrashRun.acknowledgedAll (h : CrashRun blake3 manifest admits history (.opened db))
    {groups : List (List (Command × Timestamp))} (hadmits : ∀ db, ∀ commands ∈ groups,
      admits db commands) (hall : PromiseDb.acknowledgedAll db groups = some db') :
    ∃ items, CrashRun blake3 manifest admits (history ++ items) (.opened db') := by
  induction groups generalizing history db with
  | nil =>
    obtain rfl := Option.some.inj hall
    exact ⟨[], by simpa using h⟩
  | cons commands rest ih =>
    unfold PromiseDb.acknowledgedAll at hall
    split at hall
    swap
    · cases hall
    rename_i hanswered
    obtain ⟨responses, after, happlied⟩ := EStateM.exists_ok_of_isSome hanswered
    rw [happlied, EStateM.Result.finalState_ok] at hall
    obtain ⟨prepared, hprepared, -⟩ := applyBatch_acknowledged happlied
    have hnext := h.acknowledged hprepared (hadmits db commands List.mem_cons_self) happlied
    obtain ⟨items, hrun⟩ := ih hnext (fun db commands hmem =>
      hadmits db commands (List.mem_cons_of_mem _ hmem)) hall
    exact ⟨prepared.durableItems ++ items, by simpa using hrun⟩

/-- The creation of the small database is a run without failing calls. -/
theorem sampleDatabase_crashRun
    (admits : FileDatabase Engine.sampleHash → List (Command × Timestamp) → Prop) :
    ∃ db, sampleDatabase = some db ∧
      CrashRun Engine.sampleHash sampleManifest admits [] (.opened db) := by
  have hcreated : sampleDatabase.isSome = true := by
    decide +kernel
  obtain ⟨db, hdb⟩ := Option.isSome_iff_exists.mp hcreated
  obtain ⟨files, hcreate⟩ := EStateM.exists_ok_of_run'_eq_some hdb
  exact ⟨db, hdb, .created sampleFileOptions_matches hcreate⟩

/-- A group behind the small life: a promise is committed, a hold is refused, and nothing expires. -/
def sampleSequel : List (Command × Timestamp) :=
  [(Engine.sampleCommand "commit" (.commit Engine.samplePromiseId .initial), Engine.sampleTime 3),
    (Engine.sampleCommand "late" Engine.sampleHold.operation, Engine.sampleTime 4),
    (Engine.sampleCommand "expire" .processExpirations, Engine.sampleTime 5)]

/-- The small life revises no capacity. -/
theorem sampleLife_no_revisions : ∀ entry ∈ sampleLife, ∀ id curve mode,
    entry.1.operation ≠ .reviseCapacity id curve mode := by
  simp [sampleLife, Engine.sampleHold, Engine.sampleCreate, Engine.sampleCommand]

/-- Neither does the group behind it. -/
theorem sampleSequel_no_revisions : ∀ entry ∈ sampleSequel, ∀ id curve mode,
    entry.1.operation ≠ .reviseCapacity id curve mode := by
  simp [sampleSequel, Engine.sampleHold, Engine.sampleCommand]

/-- The small life in one group. -/
def sampleGrouped : Option (FileDatabase Engine.sampleHash) :=
  sampleDatabase.bind fun db => acknowledgedAll db [sampleLife]

/-- The files after a crash in the middle of removing what a snapshot covers. -/
def sampleSnapshotCrashed : Option Directory :=
  sampleGrouped.map fun db => (FileDatabase.createSnapshot .sorted
    (FileDatabase.withFault db (some ⟨14, .crash⟩))).finalState.backend.files.state.keepAppended 0

/-- The database that is opened after that. -/
def sampleReopened : Option (FileDatabase Engine.sampleHash) :=
  sampleSnapshotCrashed.bind fun d => EStateM.run'
    (FileDatabase.openDatabase Engine.sampleHash .sorted sampleManifest sampleFileOptions) ⟨d, none⟩

/-- The files after a crash that cuts the second group within its last record. -/
def sampleGroupCrashed : Option Directory :=
  sampleReopened.map fun db => (applyBatch Engine.sampleHash sampleSequel
    (FileDatabase.withFault db (some ⟨1, .crash⟩))).finalState.backend.files.state.keepAppended 700

/-- The first group is acknowledged, the machine crashes while a snapshot removes the first segment,
the files are opened, and the machine crashes again before the second group is synced: two of its
three records are recovered behind the snapshot. -/
theorem crashRun_recovers_sample : ∃ history d, history.length = 5 ∧
    CrashRun Engine.sampleHash sampleManifest RestoresNone history (.closed d) ∧
    (∃ h, FileName.snapshot ⟨3, h⟩ ∈ d) ∧
    ∃ db d', FileDatabase.openDatabase Engine.sampleHash .sorted sampleManifest sampleFileOptions
      ⟨d, none⟩ = .ok db ⟨d', none⟩ ∧ Recovers sampleManifest history d db := by
  have hreads : (sampleGrouped.map fun db => decide (ReadsBack db)) = some true := by
    decide +kernel
  have hprepared : (sampleReopened.map fun db => (Engine.prepareBatch Engine.sampleHash db.engine
      sampleSequel).toOption.isSome) = some true := by
    decide +kernel
  have hlast : (sampleGroupCrashed.map fun d => (d.contains (.snapshot ⟨3, by decide⟩),
      (EStateM.run' (FileDatabase.openDatabase Engine.sampleHash .sorted sampleManifest
        sampleFileOptions) ⟨d, none⟩).map fun db => sequenceIndex db.nextRecordSequence)) =
      some (true, some 5) := by
    decide +kernel
  obtain ⟨db, hdatabase, hnew⟩ := sampleDatabase_crashRun RestoresNone
  -- the first group, and the crash while the snapshot is created
  obtain ⟨grouped, hgrouped, hreads⟩ := Option.map_eq_some_iff.mp hreads
  have hlife : acknowledgedAll db [sampleLife] = some grouped := by
    unfold sampleGrouped at hgrouped
    rwa [hdatabase, Option.bind_some] at hgrouped
  obtain ⟨items, hrun⟩ := hnew.acknowledgedAll (fun db commands hcommands => by
    rw [List.mem_singleton.mp hcommands]
    exact restoresNone_of_no_revisions db sampleLife_no_revisions) hlife
  have hsound := (Live.recorded (hrun.safe fun _ _ h => h)).is.sound
  have hcrashed := hrun.snapshotCrashed ((of_decide_eq_true hreads : ReadsBack _).decodes hsound)
    (Directory.cut_keepAppended 0 (FileDatabase.createSnapshot .sorted
      (FileDatabase.withFault grouped (some ⟨14, .crash⟩))).finalState.backend.files.state)
  -- the files are opened
  obtain ⟨reopened, hreopened, hprepared⟩ := Option.map_eq_some_iff.mp hprepared
  have hopens := hreopened
  unfold sampleReopened sampleSnapshotCrashed at hopens
  rw [hgrouped, Option.map_some, Option.bind_some] at hopens
  obtain ⟨files, hopen⟩ := EStateM.exists_ok_of_run'_eq_some hopens
  have hgoes := hcrashed.reopened sampleFileOptions_matches hopen
  -- the second group
  obtain ⟨prepared, hprepare⟩ := Option.isSome_iff_exists.mp hprepared
  have hcut := hgoes.groupCrashed (Except.toOption_eq_some.mp hprepare)
    (restoresNone_of_no_revisions reopened sampleSequel_no_revisions)
    (Directory.cut_keepAppended 700 (applyBatch Engine.sampleHash sampleSequel
      (FileDatabase.withFault reopened (some ⟨1, .crash⟩))).finalState.backend.files.state)
  unfold sampleGroupCrashed at hlast
  rw [hreopened, Option.map_some, Option.map_some] at hlast
  obtain ⟨hsnapshot, hnext⟩ := Prod.mk.inj (Option.some.inj hlast)
  obtain ⟨opened, d', hopens, hrecovers⟩ := crashRun_recovers hcut .sorted sampleFileOptions_matches
  refine ⟨_, _, ?_, hcut, ⟨_, OrderedMap.contains_iff.mp hsnapshot⟩, opened, d', hopens, hrecovers⟩
  obtain ⟨opened', hopened, hnext⟩ := Option.map_eq_some_iff.mp hnext
  obtain ⟨files, hsame⟩ := EStateM.exists_ok_of_run'_eq_some hopened
  rw [hopens] at hsame
  obtain ⟨rfl, -⟩ := EStateM.Result.ok.inj hsame
  exact_mod_cast hrecovers.next.symm.trans hnext

/-! ## A run that is not recovered -/

/-- A pool is created; the largest quantity is held on its later ten ticks, and two units on its
earlier ones, which are then left without capacity; one group takes all capacity away and gives the
later ten ticks theirs back; last, the two units are replaced by two units on all twenty ticks. -/
def sampleRestoringGroups : List (List (Command × Timestamp)) :=
  [[(Engine.sampleCommand "create" (.createResourcePool Engine.samplePoolId "seats"
      Engine.sampleUnit Engine.sampleSteepCurve), Engine.sampleTime 0)],
    [(Engine.sampleCommand "full" (.hold Engine.sampleFullPromiseId
      ⟨[Engine.sampleFullClaim], Engine.sampleFullClaims_ne_nil⟩ (Engine.sampleTime 50)),
      Engine.sampleTime 1)],
    [(Engine.sampleCommand "hold" (.hold Engine.samplePromiseId (Engine.sampleBundle 0 10 2
      Engine.sample_ten_pos Engine.sample_two_pos) (Engine.sampleTime 50)), Engine.sampleTime 2)],
    [(Engine.sampleCommand "force" (.reviseCapacity Engine.samplePoolId Engine.sampleLateCurve
      .force), Engine.sampleTime 3)],
    [(Engine.sampleCommand "away" (.reviseCapacity Engine.samplePoolId .empty .force),
        Engine.sampleTime 4),
      (Engine.sampleCommand "back" (.reviseCapacity Engine.samplePoolId Engine.sampleLateCurve
        .force), Engine.sampleTime 4)],
    [(Engine.sampleCommand "replace" (.replace Engine.samplePromiseId .initial
      (Engine.sampleBundle 0 20 2 Engine.sample_twenty_pos Engine.sample_two_pos) .committed),
      Engine.sampleTime 5)]]

/-- The database after these groups. -/
def sampleRestored : Option (FileDatabase Engine.sampleHash) :=
  sampleDatabase.bind fun db => acknowledgedAll db sampleRestoringGroups

/-- All six groups are acknowledged and synced, and nothing else is done, but the files are not
opened again. -/
theorem crashRun_not_recovered : ∃ history d,
    CrashRun Engine.sampleHash sampleManifest (fun _ _ => True) history (.closed d) ∧
    ∃ error files, FileDatabase.openDatabase Engine.sampleHash .sorted sampleManifest
      sampleFileOptions ⟨d, none⟩ = .error error files := by
  have hfails : (sampleRestored.map fun db => (EStateM.run' (FileDatabase.openDatabase
      Engine.sampleHash .sorted sampleManifest sampleFileOptions)
        ⟨db.backend.files.state.keepAppended 0, none⟩).isNone) = some true := by
    decide +kernel
  obtain ⟨db, hdatabase, hnew⟩ := sampleDatabase_crashRun fun _ _ => True
  obtain ⟨restored, hrestored, hfails⟩ := Option.map_eq_some_iff.mp hfails
  have hgroups : acknowledgedAll db sampleRestoringGroups = some restored := by
    unfold sampleRestored at hrestored
    rwa [hdatabase, Option.bind_some] at hrestored
  obtain ⟨items, hrun⟩ := hnew.acknowledgedAll (fun _ _ _ => trivial) hgroups
  exact ⟨_, _, hrun.crashed (Directory.cut_keepAppended 0 _),
    EStateM.exists_error_of_isNone hfails⟩

end PromiseDb
