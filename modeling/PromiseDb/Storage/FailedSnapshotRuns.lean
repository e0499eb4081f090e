import PromiseDb.Storage.CrashRuns
import PromiseDb.Storage.QuietRuns
import PromiseDb.Storage.SpoiledSnapshots

/-!
# Runs after a failed snapshot

Whatever a file database asks for after a group, and whichever call of the creation of a snapshot
fails, there is an exact condition under which the groups that it acknowledges later are recovered.
-/

namespace PromiseDb

open Database Faults

variable {blake3 : List UInt8 → CommandHash} {manifest : Manifest}
  {history items : List TimestampedTransition} {db db' db₀ db₁ db₂ : FileDatabase blake3}
  {d d' : Directory} {groups : List (List (Command × Timestamp))}

/-! ## Files with the same contents -/

/-- What is recovered does not depend on what is stable of the files. -/
theorem Recovers.alike (h : Recovers manifest history d' db₀) (hd : d.SameContents d')
    (hdb : FileDatabase.SameContents db db₀) : Recovers manifest history d db := by
  obtain ⟨durability, _, ⟨files, hfiles, rfl⟩, rfl⟩ := hdb
  obtain ⟨hhealthy, hstate, hindex, hnext, hexpected, selected, hlatest, hcovered⟩ := h
  refine ⟨hhealthy, hstate, hindex, hnext, hexpected, selected, fun watermark hmem => ?_, ?_⟩
  · exact hlatest watermark ((hd.mem_iff _).mp hmem)
  · intro watermark hselected
    obtain ⟨file, base, recovered, hfile, hdecode, hrest⟩ := hcovered watermark hselected
    have hsame := hd (FileName.snapshot watermark)
    rw [hfile] at hsame
    cases hfile' : d[FileName.snapshot watermark]? with
    | none =>
      rw [hfile'] at hsame
      cases hsame
    | some file' =>
      rw [hfile'] at hsame
      have hcontent : file'.content = file.content := by
        cases hsame with
        | some hcontent => exact hcontent
      rw [← hcontent] at hdecode
      exact ⟨file', base, recovered, rfl, hdecode, hrest⟩

/-- Closed files are recovered whatever is stable of them. -/
theorem Closed.recovered_alike (h : Closed blake3 manifest history d') (hd : d.SameContents d')
    (listing : Listing) {options : FileDatabaseOptions} (hoptions : options.Fits manifest) :
    ∃ db files, FileDatabase.openDatabase blake3 listing manifest options ⟨d, none⟩ = .ok db files ∧
      Recovers manifest history d db := by
  obtain ⟨db₀, d₁, hopen, hrecovers⟩ := h.recovered listing hoptions
  have hagree := @FileDatabase.agree_openDatabase blake3 listing manifest options .sync
    ⟨d, none⟩ ⟨d', none⟩ ⟨hd, rfl⟩
  cases hrun : FileDatabase.openDatabase blake3 listing manifest options ⟨d, none⟩ with
  | error e files =>
    rw [hrun, hopen] at hagree
    cases hagree
  | ok db files =>
    rw [hrun, hopen] at hagree
    cases hagree with
    | ok hsame => exact ⟨db, files, rfl, hrecovers.alike hd hsame⟩

/-! ## Runs -/

/-- After the creation of a snapshot has failed, the groups that are acknowledged are recovered exactly
if the log is not stranded, or the first of these groups that has records moves it on, and the snapshot
has not got its name, or decodes to what was encoded. -/
theorem QuietRun.snapshot_failure_iff (h : QuietRun blake3 manifest history db)
    (hhealthy : db.poisoned = false) {fault : Option Faults.Fault} {error : FileDatabaseError}
    {listing : Listing}
    (hfailed : FileDatabase.createSnapshot listing (db.withFault fault) = .error error db₁)
    (hmet : db₁.backend.files.fault = none)
    (hgroups : AcknowledgedGroups blake3 db₁ groups items db₂) (listing' : Listing)
    {options : FileDatabaseOptions} (hoptions : options.Fits manifest) :
    (∃ db' files, FileDatabase.openDatabase blake3 listing' manifest options
      ⟨db₂.backend.files.state, none⟩ = .ok db' files ∧
        Recovers manifest (history ++ items) db₂.backend.files.state db') ↔
      (db.Strands fault → db.movesOn groups = true) ∧ (db.Installs fault → DecodesBack db) := by
  -- a database that syncs its groups goes through the same states
  obtain ⟨db₀, hstanding, hsame⟩ := h.like_synced
  obtain ⟨db₀₁, hfailed₀, hsame₁⟩ := hsame.snapshotFails hfailed
  have hmet₀ : db₀₁.backend.files.fault = none := hsame₁.files.2.symm.trans hmet
  obtain ⟨db₀₂, hgroups₀, hsame₂⟩ := hsame₁.acknowledged hmet₀ hgroups
  have hhealthy₀ : db₀.poisoned = false := by
    obtain ⟨durability, _, -, rfl⟩ := hsame
    exact hhealthy
  have hopens {db' : FileDatabase blake3} {files : FileSystem}
      (hopen : FileDatabase.openDatabase blake3 listing' manifest options
        ⟨db₂.backend.files.state, none⟩ = .ok db' files) : ∃ db₀' files',
      FileDatabase.openDatabase blake3 listing' manifest { options with durability := .sync }
        ⟨db₀₂.backend.files.state, none⟩ = .ok db₀' files' ∧ FileDatabase.SameContents db' db₀' := by
    obtain ⟨db₀', files', hopen₀, hsame', -⟩ := hsame₂.files.1.opens .sync hopen
    exact ⟨db₀', files', hopen₀, hsame'⟩
  rw [hsame.strands, hsame.movesOn, hsame.installs, hsame.decodesBack]
  by_cases hdecodes₀ : db₀.Installs fault → DecodesBack db₀
  swap
  · -- a snapshot that does not decode has got its name
    obtain ⟨hinstalls, hnot⟩ := not_forall.mp hdecodes₀
    refine ⟨?_, fun hcond => absurd hcond.2 hdecodes₀⟩
    rintro ⟨db', files, hopen, hrecovers⟩
    obtain ⟨db₀', files', -, hsame'⟩ := hopens hopen
    exact absurd (hrecovers.alike hsame₂.files.1.symm hsame'.symm)
      (hstanding.not_recovered hhealthy₀ hinstalls hnot hfailed₀ hmet₀ hgroups₀)
  refine Iff.trans ?_ (and_iff_left hdecodes₀).symm
  rcases hstanding.snapshotFailed_cases hhealthy₀ hdecodes₀ hfailed₀ hmet₀ with
    ⟨hstrands, hlive₁⟩ | ⟨hstrands, ⟨files, rfl⟩, shape, hstranded⟩
  · refine ⟨fun _ hs => absurd hs hstrands, fun _ => ?_⟩
    exact (hlive₁.acknowledged hgroups₀).closed.recovered_alike hsame₂.files.1 listing' hoptions
  · rcases hstranded.acknowledged hmet₀ hstanding.recorded hgroups₀ with
      ⟨hmoves, hkept⟩ | ⟨hstays, hjammed⟩
    · rw [FileDatabase.movesOn_congr] at hmoves
      have hclosed : Closed blake3 manifest (history ++ items) db₀₂.backend.files.state :=
        hkept.elim Live.closed fun h => h.1.closed h.2
      exact ⟨fun _ _ => hmoves, fun _ => hclosed.recovered_alike hsame₂.files.1 listing' hoptions⟩
    · rw [FileDatabase.movesOn_congr] at hstays
      constructor
      · rintro ⟨db', files', hopen, -⟩
        obtain ⟨db₀', files₀', hopen₀, -⟩ := hopens hopen
        exact absurd hopen₀ (hjammed.not_opened listing' hoptions)
      · intro hmoves
        rw [hmoves hstrands] at hstays
        cases hstays

/-! ## Small databases -/

/-- Groups that are acknowledged one after another, if they restore no pool. -/
theorem acknowledgedGroups_of_all (hrestores : ∀ db : FileDatabase blake3, ∀ commands ∈ groups,
    RestoresNone db commands) (hall : acknowledgedAll db groups = some db') :
    ∃ items, AcknowledgedGroups blake3 db groups items db' := by
  induction groups generalizing db with
  | nil =>
    obtain rfl := Option.some.inj hall
    exact ⟨[], .none db⟩
  | cons commands rest ih =>
    unfold acknowledgedAll at hall
    split at hall
    swap
    · cases hall
    rename_i hanswered
    obtain ⟨responses, after, happlied⟩ := EStateM.exists_ok_of_isSome hanswered
    rw [happlied, EStateM.Result.finalState_ok] at hall
    obtain ⟨prepared, hprepared, -⟩ := applyBatch_acknowledged happlied
    obtain ⟨items, hrest⟩ := ih (fun db commands hmem =>
      hrestores db commands (List.mem_cons_of_mem _ hmem)) hall
    exact ⟨_, .group hprepared (hrestores db commands List.mem_cons_self) happlied hrest⟩

/-- A configuration with small segments, which does not even flush. -/
def sampleLooseOptions : FileDatabaseOptions :=
  ⟨.none, .default, Engine.sampleQuantity 300, Snapshot.sampleLimits⟩

/-- The configuration fits the manifest. -/
theorem sampleLooseOptions_fits : sampleLooseOptions.Fits sampleManifest := ⟨rfl, rfl, rfl, rfl⟩

/-- A database that was just created with it. -/
def sampleLoose : Option (FileDatabase Engine.sampleHash) :=
  EStateM.run' (FileDatabase.create Engine.sampleHash sampleManifest sampleLooseOptions) ⟨∅, none⟩

/-- That database after the small life. -/
def sampleLooseUsed : Option (FileDatabase Engine.sampleHash) :=
  sampleLoose.map fun db => (applyBatch Engine.sampleHash sampleLife db).finalState

/-- The opening of the new segment fails. -/
def sampleOpeningFault : Option Faults.Fault := some ⟨5, .after⟩

/-- What is known of that database: its snapshot fails behind the rename of the new segment, and a
group that was executed before and one that is new are acknowledged then. -/
def looseChecked (db : FileDatabase Engine.sampleHash) : Bool :=
  let failed := (FileDatabase.createSnapshot .sorted
    (FileDatabase.withFault db sampleOpeningFault)).finalState
  decide (db.poisoned = false) && db.nextRecordSequence.isSome && db.backend.activeHasRecords &&
  decide (db.callsBefore = 10) &&
  (EStateM.run' (FileDatabase.createSnapshot .sorted)
    (FileDatabase.withFault db sampleOpeningFault)).isNone &&
  failed.backend.files.fault.isNone && (acknowledgedAll failed [sampleLife, sampleSequel]).isSome &&
  FileDatabase.movesOn db [sampleLife, sampleSequel]

/-- The opening of the new segment fails, so that the log is stranded.  Then a group is answered from
what is cached, and another one outgrows the old segment: all is recovered. -/
theorem QuietRun.snapshot_failure_iff_sample :
    ∃ (history items : List TimestampedTransition) (db db₁ db₂ : FileDatabase Engine.sampleHash)
      (error : FileDatabaseError),
      db.Strands sampleOpeningFault ∧ QuietRun Engine.sampleHash sampleManifest history db ∧
      FileDatabase.createSnapshot .sorted (db.withFault sampleOpeningFault) = .error error db₁ ∧
      AcknowledgedGroups Engine.sampleHash db₁ [sampleLife, sampleSequel] items db₂ ∧
      ∃ db' files, FileDatabase.openDatabase Engine.sampleHash .sorted sampleManifest
        sampleLooseOptions ⟨db₂.backend.files.state, none⟩ = .ok db' files ∧
          Recovers sampleManifest (history ++ items) db₂.backend.files.state db' := by
  have hchecked : sampleLooseUsed.map looseChecked = some true := by
    decide +kernel
  have hfirst : (sampleLoose.map fun db => (db.backend.activeHasRecords,
      (EStateM.run' (applyBatch Engine.sampleHash sampleLife) db).isSome)) = some (false, true) := by
    decide +kernel
  have hnone (db : FileDatabase Engine.sampleHash) :
      ∀ commands ∈ [sampleLife, sampleSequel], RestoresNone db commands := by
    intro commands hmem
    rcases List.mem_cons.mp hmem with rfl | hmem
    · exact restoresNone_of_no_revisions db sampleLife_no_revisions
    · rw [List.mem_singleton.mp hmem]
      exact restoresNone_of_no_revisions db sampleSequel_no_revisions
  obtain ⟨db, hused, hchecked⟩ := Option.map_eq_some_iff.mp hchecked
  obtain ⟨new, hnew, rfl⟩ := Option.map_eq_some_iff.mp hused
  obtain ⟨files, hcreate⟩ := EStateM.exists_ok_of_run'_eq_some hnew
  rw [hnew] at hfirst
  obtain ⟨hempty, hlife⟩ := Prod.mk.inj (Option.some.inj hfirst)
  obtain ⟨responses, db, happlied⟩ := EStateM.exists_ok_of_isSome hlife
  obtain ⟨prepared, hprepared, -⟩ := applyBatch_acknowledged happlied
  rw [happlied, EStateM.Result.finalState_ok] at hchecked
  have hrun := (QuietRun.created sampleLooseOptions_fits hcreate).acknowledged hprepared
    (hnone new sampleLife List.mem_cons_self) (fun hstranded => ?_) happlied
  swap
  · obtain ⟨next, ⟨-, hhas⟩, -⟩ := hstranded
    rw [hempty] at hhas
    cases hhas
  -- the snapshot fails, and the groups are acknowledged
  obtain ⟨hchecked, hmoves⟩ := Bool.and_eq_true_iff.mp hchecked
  obtain ⟨hchecked, hall⟩ := Bool.and_eq_true_iff.mp hchecked
  obtain ⟨hchecked, hmet⟩ := Bool.and_eq_true_iff.mp hchecked
  obtain ⟨hchecked, hfails⟩ := Bool.and_eq_true_iff.mp hchecked
  obtain ⟨hchecked, hcalls⟩ := Bool.and_eq_true_iff.mp hchecked
  obtain ⟨hchecked, hhas⟩ := Bool.and_eq_true_iff.mp hchecked
  obtain ⟨hhealthy, hnext⟩ := Bool.and_eq_true_iff.mp hchecked
  replace hhealthy := of_decide_eq_true hhealthy
  replace hcalls := of_decide_eq_true hcalls
  obtain ⟨next, hnext⟩ := Option.isSome_iff_exists.mp hnext
  obtain ⟨error, db₁, hfailed⟩ := EStateM.exists_error_of_isNone hfails
  rw [hfailed, EStateM.Result.finalState_error] at hmet hall
  obtain ⟨db₂, hall⟩ := Option.isSome_iff_exists.mp hall
  obtain ⟨items, hgroups⟩ := acknowledgedGroups_of_all hnone hall
  have hearly : ¬FileDatabase.Installs db sampleOpeningFault := by
    rintro ⟨call, hcall, hat⟩
    obtain rfl := Option.some.inj hcall
    rw [hcalls] at hat
    exact not_installsAt (by decide) hat
  refine ⟨_, items, db, db₁, db₂, error, ⟨next, ⟨hnext, hhas⟩, .inl ⟨_, rfl, .inr (.inr rfl)⟩⟩, hrun,
    hfailed, hgroups, ?_⟩
  rw [hrun.snapshot_failure_iff hhealthy hfailed (Option.isNone_iff_eq_none.mp hmet) hgroups .sorted
    sampleLooseOptions_fits]
  exact ⟨fun _ => hmoves, fun hinstalls => absurd hinstalls hearly⟩

/-- The files after the small database has been used, its snapshot has failed behind the rename of the
new segment, and a group has been acknowledged. -/
def sampleStrandedFiles : Option Directory :=
  sampleStranded.map fun db => (applyBatch Engine.sampleHash sampleCreation
    db).finalState.backend.files.state

/-- A group is acknowledged and synced, a snapshot fails since the directory is not synced behind the
rename of the new segment, and another group is acknowledged and synced; then the files are not opened
any more. -/
theorem QuietRun.snapshot_failure_not_recovered :
    ∃ (history : List TimestampedTransition) (db db₁ db₂ : FileDatabase Engine.sampleHash)
      (error : FileDatabaseError) (responses : List CommandResponse),
      QuietRun Engine.sampleHash sampleManifest history db ∧ db.poisoned = false ∧
      FileDatabase.createSnapshot .sorted (db.withFault sampleFault) = .error error db₁ ∧
      db₁.backend.files.fault = none ∧
      applyBatch Engine.sampleHash sampleCreation db₁ = .ok responses db₂ ∧
      ∃ error files, FileDatabase.openDatabase Engine.sampleHash .sorted sampleManifest
        sampleFileOptions ⟨db₂.backend.files.state, none⟩ = .error error files := by
  have hfails : (sampleUsed.map fun db => (decide (db.poisoned = false),
      (EStateM.run' (FileDatabase.createSnapshot .sorted)
        (FileDatabase.withFault db sampleFault)).isNone)) = some (true, true) := by
    decide +kernel
  have hgroup : (sampleStranded.map fun db => (db.backend.files.fault.isNone,
      (EStateM.run' (applyBatch Engine.sampleHash sampleCreation) db).isSome)) =
        some (true, true) := by
    decide +kernel
  have hopens : (sampleStrandedFiles.map fun d => (EStateM.run' (FileDatabase.openDatabase
      Engine.sampleHash .sorted sampleManifest sampleFileOptions) ⟨d, none⟩).isNone) = some true := by
    decide +kernel
  obtain ⟨history, db, hused, -, hrun⟩ := sampleUsed_run
  unfold sampleStrandedFiles at hopens
  unfold sampleStranded at hgroup hopens
  rw [hused] at hfails hgroup hopens
  obtain ⟨hhealthy, hfails⟩ := Prod.mk.inj (Option.some.inj hfails)
  obtain ⟨error, db₁, hfailed⟩ := EStateM.exists_error_of_isNone hfails
  rw [Option.map_some, hfailed, EStateM.Result.finalState_error] at hgroup hopens
  obtain ⟨hmet, hacknowledged⟩ := Prod.mk.inj (Option.some.inj hgroup)
  obtain ⟨responses, db₂, happlied⟩ := EStateM.exists_ok_of_isSome hacknowledged
  rw [Option.map_some, happlied] at hopens
  exact ⟨history, db, db₁, db₂, error, responses, .synced hrun, of_decide_eq_true hhealthy, hfailed,
    Option.isNone_iff_eq_none.mp hmet, happlied,
    EStateM.exists_error_of_isNone (Option.some.inj hopens)⟩

end PromiseDb
