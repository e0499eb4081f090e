import PromiseDb.Storage.Refusals
import PromiseDb.Storage.StrandedLogs

/-!
# Failed snapshots

The creation of a snapshot meets a failure at one of its calls, and the database goes on.  Which call
it is decides whether the log is stranded: a rotation is due, and its segment has been renamed but has
not become active.  A log that is stranded already stays so until a rotation ends.
-/

namespace PromiseDb

open Database Faults

variable {blake3 : List UInt8 → CommandHash} {faulty : Prop} {manifest : Manifest}
  {history items : List TimestampedTransition} {shape : Shape} {db db' : FileDatabase blake3}
  {first : RecordSequence} {d : Directory}

/-! ## The calls of a rotation -/

/-- Where a rotation fails such that its segment is left behind: at the rename, with its effect, at
the sync of the directory, or at the opening of the segment. -/
def StrandsAt (fault : Faults.Fault) : Prop :=
  fault = ⟨3, .after⟩ ∨ fault.remaining = 4 ∨ fault.remaining = 5

instance : DecidablePred StrandsAt := fun _ => inferInstanceAs (Decidable (_ ∨ _ ∨ _))

/-- Such a call belongs to the rotation. -/
theorem StrandsAt.lt {fault : Faults.Fault} (h : StrandsAt fault) : fault.remaining < 6 := by
  rcases h with rfl | h | h
  · decide
  · omega
  · omega

/-- The rotation has failed, and the new segment is there exactly if it has failed where it leaves the
segment behind, or the segment was there before. -/
def LeftBehind (fault : Faults.Fault) (there : Prop) (first : RecordSequence) (d : Directory) : Prop :=
  fault.remaining < 6 ∧ (FileName.segment first ∈ d ↔ StrandsAt fault ∨ there)

/-- What the creation of a segment does not change. -/
structure Unrotated (first : RecordSequence) (K : Directory → Prop) : Prop where
  insert_temp : ∀ d file, K d → K (d.insert (.segmentTemp first) file)
  erase_temp : ∀ d, K d → K (d.erase (.segmentTemp first))
  insert : ∀ d file, K d → K (d.insert (.segment first) file)

/-- What is not changed by two reasons. -/
theorem Unrotated.and {K K' : Directory → Prop} (h : Unrotated first K) (h' : Unrotated first K') :
    Unrotated first fun d => K d ∧ K' d where
  insert_temp d file hd := ⟨h.insert_temp d file hd.1, h'.insert_temp d file hd.2⟩
  erase_temp d hd := ⟨h.erase_temp d hd.1, h'.erase_temp d hd.2⟩
  insert d file hd := ⟨h.insert d file hd.1, h'.insert d file hd.2⟩

/-- Behind as many calls as a segment takes, the segment is there; a fault at one of them leaves it
behind or not. -/
theorem ahead_createSegmentAtomic (uuid : U128) (fault : Faults.Fault) {there : Prop}
    {K : Directory → Prop} (hK : Unrotated first K) :
    EStateM.Spec (Ahead fault 0 fun d => K d ∧ (FileName.segment first ∈ d ↔ there))
      (createSegmentAtomic blake3 uuid first)
      (fun _ => Ahead fault 5 fun d => K d ∧ FileName.segment first ∈ d)
      (Met (LeftBehind fault there first)) := by
  have hleft : ∀ failure, ∀ n < 3, fault = ⟨n, failure⟩ → ∀ d : Directory,
      (FileName.segment first ∈ d ↔ there) → LeftBehind fault there first d := by
    rintro failure n hn rfl d hd
    refine ⟨Nat.lt_trans hn (by decide), hd.trans (or_iff_right ?_).symm⟩
    simp only [StrandsAt, Faults.Fault.mk.injEq]
    omega
  have hbehind : ∀ d : Directory, fault.remaining < 6 → StrandsAt fault →
      FileName.segment first ∈ d → LeftBehind fault there first d :=
    fun d hless hat hd => ⟨hless, iff_of_true hd (.inl hat)⟩
  have hstays : ∀ (d : Directory) (file : File), K d → (FileName.segment first ∈ d ↔ there) →
      (K (d.insert (.segmentTemp first) file) ∧
        (FileName.segment first ∈ d.insert (.segmentTemp first) file ↔ there)) ∧
        FileName.segmentTemp first ∈ d.insert (.segmentTemp first) file := by
    intro d file hk hd
    simp [hd, hK.insert_temp d file hk]
  have htemp : ∀ d : Directory, (K d ∧ (FileName.segment first ∈ d ↔ there)) ∧
      FileName.segmentTemp first ∈ d → FileName.segmentTemp first ∈ d := fun _ h => h.2
  unfold createSegmentAtomic
  refine EStateM.Spec.andThen ((FileCalls.effect_createNew
    (Q := fun d => (K d ∧ (FileName.segment first ∈ d ↔ there)) ∧ FileName.segmentTemp first ∈ d)
      fun d hd _ => hstays d _ hd.1 hd.2).ahead ?_ ?_) ?_
  · exact fun h d hd => hleft _ 0 (by decide) h d hd.2
  · exact fun h => ⟨fun _ d hd => hleft _ 0 (by decide) h d hd.1.2,
      fun d hd => hleft _ 0 (by decide) h d hd.1.2⟩
  refine EStateM.Spec.andThen ((FileCalls.effect_change
    (Q := fun d => (K d ∧ (FileName.segment first ∈ d ↔ there)) ∧ FileName.segmentTemp first ∈ d) htemp
      fun d file hd _ => hstays d _ hd.1.1 hd.1.2).ahead ?_ ?_) ?_
  · exact fun h d hd => hleft _ 1 (by decide) h d hd.1.2
  · exact fun h => ⟨fun _ d hd => hleft _ 1 (by decide) h d hd.1.2, fun _ hd => hd.elim⟩
  refine EStateM.Spec.andThen ((FileCalls.effect_change
    (Q := fun d => (K d ∧ (FileName.segment first ∈ d ↔ there)) ∧ FileName.segmentTemp first ∈ d) htemp
      fun d file hd _ => hstays d _ hd.1.1 hd.1.2).ahead ?_ ?_) ?_
  · exact fun h d hd => hleft _ 2 (by decide) h d hd.1.2
  · exact fun h => ⟨fun _ d hd => hleft _ 2 (by decide) h d hd.1.2, fun _ hd => hd.elim⟩
  -- the rename
  refine EStateM.Spec.andThen ((FileCalls.effect_rename
    (Q := fun d => K d ∧ FileName.segment first ∈ d) htemp
      fun d file hd _ => ⟨hK.insert _ file (hK.erase_temp d hd.1.1),
        OrderedMap.mem_insert_iff.mpr (.inl rfl)⟩).ahead ?_ ?_) ?_
  · rintro rfl d hd
    simp [LeftBehind, hd.1, StrandsAt]
  · rintro rfl
    exact ⟨fun _ d hd => hbehind d (by decide) (.inl rfl) hd.2, fun _ hd => hd.elim⟩
  refine FileCalls.effect_syncDirectory.ahead ?_ ?_
  · rintro rfl d hd
    exact hbehind d (by decide) (.inr (.inl rfl)) hd.2
  · rintro rfl
    exact ⟨fun _ d hd => hbehind d (by decide) (.inr (.inl rfl)) hd.2, fun _ hd => hd.elim⟩

/-- A rotation that ends has made six calls; one that meets a fault has changed nothing but files, and
has left its segment behind or not. -/
theorem ahead_rotate {fault : Faults.Fault} {K : Directory → Prop} (hK : Unrotated first K)
    (hstart : K db.backend.files.state) (hfault : db.backend.files.fault = some fault) :
    EStateM.Spec (fun s => s = db) (FileDatabase.rotate first)
      (fun _ s => Ahead fault 6 K s.backend.files)
      (fun s => (∃ files, s = { db with backend := { db.backend with files := files } }) ∧
        Met (LeftBehind fault (FileName.segment first ∈ db.backend.files.state) first)
          s.backend.files) := by
  obtain ⟨there, hthere⟩ : ∃ there, FileName.segment first ∈ db.backend.files.state ↔ there :=
    ⟨_, Iff.rfl⟩
  rw [propext hthere]
  have hopen : EStateM.Spec (Ahead fault 5 fun d => K d ∧ FileName.segment first ∈ d)
      (FileCalls.openFile (.segment first))
      (fun _ => Ahead fault 6 fun d => K d ∧ FileName.segment first ∈ d)
      (Met (LeftBehind fault there first)) := by
    refine (FileCalls.effect_openFile fun _ hd => hd.2).ahead ?_ ?_
    · rintro rfl d hd
      exact ⟨by decide, iff_of_true hd.2 (.inl (.inr (.inr rfl)))⟩
    · rintro rfl
      exact ⟨fun _ d hd => ⟨by decide, iff_of_true hd.2 (.inl (.inr (.inr rfl)))⟩,
        fun _ hd => hd.elim⟩
  have hrotate : EStateM.Spec
      (OnFiles db.backend (Ahead fault 0 fun d => K d ∧ (FileName.segment first ∈ d ↔ there)))
      (SegmentedWal.rotate first) (fun _ s => Ahead fault 6 K s.files)
      (OnFiles db.backend (Met (LeftBehind fault there first))) := by
    unfold SegmentedWal.rotate
    refine EStateM.Spec.bind spec_getWal fun wal => EStateM.Spec.fact fun _ => ?_
    refine EStateM.Spec.andThen (spec_onFiles _ (ahead_createSegmentAtomic _ fault hK) _) ?_
    refine EStateM.Spec.andThen (spec_onFiles _ hopen _) ?_
    refine EStateM.spec_modify ?_
    rintro s ⟨-, n, hn, hfault, hk, -⟩
    exact ⟨n, hn, hfault, hk⟩
  refine EStateM.Spec.within fun s hs => ?_
  subst hs
  refine hrotate.weaken ?_ (fun _ _ h => h) ?_
  · rintro wal rfl
    exact ⟨⟨s.backend.files, rfl⟩, fault.remaining, Nat.zero_add _, hfault, hstart, hthere⟩
  · rintro wal ⟨⟨files, rfl⟩, hmet⟩
    exact ⟨⟨files, rfl⟩, hmet⟩

/-! ## The calls of an installation -/

/-- How many calls it takes to remove the temporary snapshot. -/
def cleanupCalls (d : Directory) : Nat := if FileName.snapshotTemp ∈ d then 2 else 1

/-- A call behind as many others as come before the snapshot gets its name, or the one that gives it
its name with effect. -/
def InstallsAt (calls : Nat) (fault : Faults.Fault) : Prop :=
  calls < fault.remaining ∨ fault = ⟨calls, .after⟩

instance (calls : Nat) (fault : Faults.Fault) : Decidable (InstallsAt calls fault) :=
  inferInstanceAs (Decidable (_ ∨ _))

/-- A call before those is not such a one. -/
theorem not_installsAt {calls made : Nat} {failure : Faults.Failure} (h : made < calls) :
    ¬InstallsAt calls ⟨made, failure⟩ := by
  rintro (hless | heq)
  · exact absurd hless (not_lt.mpr h.le)
  · exact absurd (Faults.Fault.mk.inj heq).1 h.ne

/-- Calls that were made before count as well. -/
theorem InstallsAt.behind {calls made n : Nat} {fault : Faults.Fault}
    (h : InstallsAt calls ⟨n, fault.failure⟩) (hn : made + n = fault.remaining) :
    InstallsAt (made + calls) fault := by
  obtain ⟨remaining, failure⟩ := fault
  obtain rfl : made + n = remaining := hn
  refine h.imp (Nat.add_lt_add_left · made) fun heq => ?_
  obtain ⟨rfl, rfl⟩ := Faults.Fault.mk.inj heq
  rfl

/-- It takes at least one. -/
theorem cleanupCalls_pos (d : Directory) : 0 < cleanupCalls d := by
  unfold cleanupCalls
  split
  · decide
  · decide

/-- The temporary snapshot is removed by one call or two. -/
theorem ahead_cleanupSnapshotTemp {fault : Faults.Fault} {calls extra : Nat} {K : Directory → Prop}
    (herase : ∀ d, K d → K (d.erase .snapshotTemp)) :
    EStateM.Spec (Ahead fault calls fun d => K d ∧ cleanupCalls d = extra)
      FileDatabase.cleanupSnapshotTemp
      (fun _ => Ahead fault (calls + extra) fun d => K d ∧ FileName.snapshotTemp ∉ d)
      (Met fun d => fault.remaining < calls + extra ∧ K d) := by
  have hsync : EStateM.Spec
      (Ahead fault (calls + 1) fun d => K d ∧ FileName.snapshotTemp ∉ d) FileCalls.syncDirectory
      (fun _ => Ahead fault (calls + 2) fun d => K d ∧ FileName.snapshotTemp ∉ d)
      (Met fun d => fault.remaining < calls + 2 ∧ K d) := by
    refine FileCalls.effect_syncDirectory.ahead ?_ ?_
    · rintro rfl d hd
      exact ⟨Nat.lt_succ_self _, hd.1⟩
    · rintro rfl
      exact ⟨fun _ d hd => ⟨Nat.lt_succ_self _, hd.1⟩, fun _ hd => hd.elim⟩
  intro w hw
  have hcases := hw.call_cases IoErrorKind.other fun d =>
    if d.contains FileName.snapshotTemp = true then .ok (PUnit.unit, d.erase .snapshotTemp)
    else .error .notFound
  obtain ⟨-, -, -, hd, rfl⟩ := hw
  obtain ⟨n, hn, hrun⟩ | ⟨hmet, w', hfailed, hstate⟩ := hcases
  · by_cases hthere : FileName.snapshotTemp ∈ w.state
    · -- it is removed, and the directory is synced
      have hclean : FileDatabase.cleanupSnapshotTemp w = FileCalls.syncDirectory
          ⟨w.state.erase .snapshotTemp, some ⟨n, fault.failure⟩⟩ := by
        rw [if_pos (OrderedMap.contains_iff.mpr hthere)] at hrun
        unfold FileDatabase.cleanupSnapshotTemp FileCalls.remove FileCalls.io
        rw [hrun]
        rfl
      have hgone : FileName.snapshotTemp ∉ w.state.erase .snapshotTemp := by
        rw [OrderedMap.not_mem_iff_lookup, OrderedMap.lookup_erase_self]
      rw [hclean, cleanupCalls, if_pos hthere]
      exact hsync _ ⟨n, hn, rfl, herase w.state hd, hgone⟩
    · have hclean : FileDatabase.cleanupSnapshotTemp w =
          .ok ⟨⟩ ⟨w.state, some ⟨n, fault.failure⟩⟩ := by
        rw [if_neg fun h => hthere (OrderedMap.contains_iff.mp h)] at hrun
        unfold FileDatabase.cleanupSnapshotTemp FileCalls.remove FileCalls.io
        rw [hrun]
        rfl
      rw [hclean, cleanupCalls, if_neg hthere]
      exact .inl ⟨⟨⟩, _, rfl, n, hn, rfl, hd, hthere⟩
  · have hclean : FileDatabase.cleanupSnapshotTemp w = .error .other w' := by
      unfold FileDatabase.cleanupSnapshotTemp FileCalls.remove FileCalls.io
      rw [hfailed]
    have hpos := cleanupCalls_pos w.state
    refine .inr ⟨.other, w', hclean, fun hnone => ⟨by omega, ?_⟩⟩
    obtain ⟨-, hsame⟩ | ⟨-, hsame⟩ := hstate hnone
    · rwa [hsame]
    · rw [hsame]
      split
      · exact herase w.state hd
      · exact hd

/-- The installation of a snapshot that meets its fault has given the snapshot its name, or has changed
nothing but the temporary snapshot. -/
theorem ahead_installSnapshot {fault : Faults.Fault} {calls extra : Nat} {K K' : Directory → Prop}
    (hinsert : ∀ d file, K d → K (d.insert .snapshotTemp file))
    (herase : ∀ d, K d → K (d.erase .snapshotTemp)) {watermark : U64} {bytes : List UInt8}
    (hrename : ∀ d, K d → K' (d.insert (.snapshot watermark) (.synced bytes))) :
    EStateM.Spec (Ahead fault calls fun d => K d ∧ cleanupCalls d = extra)
      (FileDatabase.installSnapshot watermark bytes)
      (fun _ => Ahead fault (calls + extra + 5) K')
      (Met fun d => (InstallsAt (calls + extra + 3) fault ∧ K' d) ∨
        (¬InstallsAt (calls + extra + 3) fault ∧ K d)) := by
  have hthere (file : File) : ∀ d : Directory, K d ∧ d[FileName.snapshotTemp]? = some file →
      FileName.snapshotTemp ∈ d := fun d h => OrderedMap.mem_iff_lookup.mpr ⟨file, h.2⟩
  have hstays : ∀ (d : Directory) (file : File), K d → K (d.insert .snapshotTemp file) ∧
      (d.insert .snapshotTemp file)[FileName.snapshotTemp]? = some file :=
    fun d file hd => ⟨hinsert d file hd, OrderedMap.lookup_insert_self _ _ _⟩
  have hearly {made : Nat} {failure : Failure} (hless : made < calls + extra + 3)
      (h : fault = ⟨made, failure⟩) : ¬InstallsAt (calls + extra + 3) fault :=
    h ▸ not_installsAt hless
  unfold FileDatabase.installSnapshot
  refine EStateM.Spec.andThen ((ahead_cleanupSnapshotTemp herase).weaken (fun _ h => h)
    (fun _ _ h => h) fun _ h hnone => ?_) ?_
  · exact .inr ⟨not_installsAt (by have := (h hnone).1; omega), (h hnone).2⟩
  refine EStateM.Spec.andThen ((FileCalls.effect_createNew
    (Q := fun d => K d ∧ d[FileName.snapshotTemp]? = some (.synced []))
      fun d hd _ => hstays d _ hd.1).ahead ?_ ?_) ?_
  · exact fun h d hd => .inr ⟨hearly (by omega) h, hd.1⟩
  · exact fun h => ⟨fun _ d hd => .inr ⟨hearly (by omega) h, hd.1⟩,
      fun d hd => .inr ⟨hearly (by omega) h, hd.1.1⟩⟩
  refine EStateM.Spec.andThen ((FileCalls.effect_change
    (Q := fun d => K d ∧ d[FileName.snapshotTemp]? = some ⟨[], bytes⟩) (hthere _) ?_).ahead ?_ ?_) ?_
  · rintro d file ⟨hd, hold⟩ hfile
    rw [hold] at hfile
    obtain rfl := Option.some.inj hfile
    exact hstays d _ hd
  · exact fun h d hd => .inr ⟨hearly (by omega) h, hd.1⟩
  · exact fun h => ⟨fun _ d hd => .inr ⟨hearly (by omega) h, hd.1⟩, fun _ hd => hd.elim⟩
  refine EStateM.Spec.andThen ((FileCalls.effect_change
    (Q := fun d => K d ∧ d[FileName.snapshotTemp]? = some (.synced bytes)) (hthere _) ?_).ahead
      ?_ ?_) ?_
  · rintro d file ⟨hd, hold⟩ hfile
    rw [hold] at hfile
    obtain rfl := Option.some.inj hfile
    exact hstays d _ hd
  · exact fun h d hd => .inr ⟨hearly (by omega) h, hd.1⟩
  · exact fun h => ⟨fun _ d hd => .inr ⟨hearly (by omega) h, hd.1⟩, fun _ hd => hd.elim⟩
  -- the rename
  refine EStateM.Spec.andThen ((FileCalls.effect_rename (Q := K') (hthere _) ?_).ahead ?_ ?_) ?_
  · rintro d file ⟨hd, hold⟩ hfile
    rw [hold] at hfile
    obtain rfl := Option.some.inj hfile
    exact hrename _ (herase d hd)
  · rintro rfl d hd
    refine .inr ⟨?_, hd.1⟩
    rintro (hless | heq)
    · exact absurd hless (lt_irrefl _)
    · cases heq
  · exact fun h => ⟨fun _ _ hd => .inl ⟨.inr h, hd⟩, fun _ hd => hd.elim⟩
  refine FileCalls.effect_syncDirectory.ahead ?_ ?_
  · rintro rfl d hd
    exact .inl ⟨.inl (Nat.lt_succ_self _), hd⟩
  · rintro rfl
    exact ⟨fun _ d hd => .inl ⟨.inl (Nat.lt_succ_self _), hd⟩, fun _ hd => hd.elim⟩

/-! ## Failures of a snapshot -/

/-- The log goes on in a segment with records although the segment of the next record is there. -/
def FileDatabase.IsStranded (db : FileDatabase blake3) : Prop :=
  ∃ next, db.RotatesBefore next ∧ FileName.segment next ∈ db.backend.files.state

/-- The creation of a snapshot begins with a rotation that leaves its segment behind, or that does not
end although the segment is there already. -/
def FileDatabase.Strands (db : FileDatabase blake3) (fault : Option Faults.Fault) : Prop :=
  ∃ next, db.RotatesBefore next ∧ ((∃ call ∈ fault, StrandsAt call) ∨
    FileName.segment next ∈ db.backend.files.state ∧
      (FileName.segmentTemp next ∈ db.backend.files.state ∨ ∃ call ∈ fault, call.remaining < 6))

/-- How many calls are made before the snapshot gets its name. -/
def FileDatabase.callsBefore (db : FileDatabase blake3) : Nat :=
  (if db.nextRecordSequence ≠ none ∧ db.backend.activeHasRecords = true then 6 else 0) +
    cleanupCalls db.backend.files.state + 3

/-- The failing call is met when the snapshot has its name. -/
def FileDatabase.Installs (db : FileDatabase blake3) (fault : Option Faults.Fault) : Prop :=
  ∃ call ∈ fault, InstallsAt db.callsBefore call

variable {db₁ : FileDatabase blake3} {error : FileDatabaseError} {fault : Option Faults.Fault}

/-- Behind a rotation the installation of a snapshot fails, and the log goes on.  The snapshot has to
decode to what was encoded only if it has got its name. -/
theorem Shape.Kept.installFailed (h : shape.Kept faulty manifest history db')
    (hbackend : ∃ backend, db' = { db with backend := backend }) (hrotated : shape.Rotated)
    (hhandled : db.backend.databaseUuid = manifest.databaseUuid ∧
      db.backend.snapshotLimits = manifest.snapshotLimits)
    (hrecorded : Recorded blake3 history db.engine) (hnext : db.nextRecordSequence = shape.next)
    (hdecodes : (∃ call ∈ db'.backend.files.fault,
      InstallsAt (cleanupCalls db'.backend.files.state + 3) call) → DecodesBack db)
    {listing : Listing}
    (hfailed : FileDatabase.installCaptured listing db.snapshotFile db.backend.snapshotLimits db' =
      .error error db₁) (hmet : db₁.backend.files.fault = none) :
    OnBackend db (fun s => ∃ shape, Shape.Kept faulty manifest history shape s) db₁ := by
  by_cases hback : DecodesBack db
  · have hspec := h.spec_install hbackend hrotated hhandled hrecorded hback hnext listing
    exact hspec.of_error hfailed rfl
  · cases hencode : Snapshot.encode blake3 db.snapshotFile db.backend.snapshotLimits with
    | error e =>
      rw [FileDatabase.installCaptured, hencode] at hfailed
      obtain ⟨-, rfl⟩ := EStateM.Result.error.inj hfailed
      exact ⟨hbackend, shape, h⟩
    | ok bytes =>
      cases hfault : db'.backend.files.fault with
      | none =>
        have hspec := FileDatabase.spec_install_free db.snapshotFile hencode listing
        exact (hspec.of_error hfailed ⟨fun hne => hne hfault, trivial⟩).elim
      | some call =>
        have hearly : ¬InstallsAt (0 + cleanupCalls db'.backend.files.state + 3) call := by
          intro hat
          rw [Nat.zero_add] at hat
          exact hback (hdecodes ⟨call, hfault, hat⟩)
        have hahead := @ahead_installSnapshot call 0 _ (shape.In blake3 manifest []) (fun _ => True)
          (fun d file hd => hd.insert_temp file nofun nofun) (fun d hd => hd.erase id)
          db.snapshotFile.walWatermark bytes (fun _ _ => trivial) db'.backend.files
          ⟨call.remaining, Nat.zero_add _, hfault, h.files.2, rfl⟩
        obtain ⟨u, w, -, n, hn, -⟩ | ⟨e, w, hrun, hkeeps⟩ := hahead
        · exact absurd (.inl (by omega)) hearly
        rw [FileDatabase.installCaptured, hencode] at hfailed
        rcases EStateM.bind_eq_error.mp hfailed with hencoded | ⟨_, _, hencoded, hrest⟩
        · cases hencoded
        obtain ⟨rfl, rfl⟩ := EStateM.Result.ok.inj hencoded
        rw [EStateM.bind_of_error (FileDatabase.onFiles_of_error hrun _)] at hrest
        obtain ⟨-, rfl⟩ := EStateM.Result.error.inj hrest
        have hin := ((hkeeps hmet).resolve_left fun hlate => hearly hlate.1).2
        obtain ⟨backend, rfl⟩ := hbackend
        exact ⟨⟨_, rfl⟩, shape, h.withFiles h.of rfl rfl rfl id
          ⟨fun hne => absurd hmet hne, hin⟩⟩

/-- The creation of a snapshot is a rotation and an installation. -/
theorem FileDatabase.createSnapshot_of_rotates {next : RecordSequence}
    (hhealthy : db.poisoned = false) (hrotates : db.RotatesBefore next) (listing : Listing) :
    FileDatabase.createSnapshot listing db = (FileDatabase.rotate next >>= fun _ =>
      FileDatabase.installCaptured listing db.snapshotFile db.backend.snapshotLimits) db := by
  obtain ⟨hnext, hhas⟩ := hrotates
  rw [FileDatabase.createSnapshot_eq, EStateM.get_bind_apply, hhealthy, hnext, hhas]
  rfl

/-- Where no rotation is due it is an installation only. -/
theorem FileDatabase.createSnapshot_of_not_rotates (hhealthy : db.poisoned = false)
    (hrotates : ¬∃ next, db.RotatesBefore next) (listing : Listing) :
    FileDatabase.createSnapshot listing db =
      FileDatabase.installCaptured listing db.snapshotFile db.backend.snapshotLimits db := by
  rw [FileDatabase.createSnapshot_eq, EStateM.get_bind_apply, hhealthy]
  cases hnext : db.nextRecordSequence with
  | none => rfl
  | some next =>
    have hhas : db.backend.activeHasRecords = false :=
      Bool.eq_false_iff.mpr fun hhas => hrotates ⟨next, hnext, hhas⟩
    rw [hhas]
    rfl

/-- The creation of a segment leaves the temporary snapshot alone. -/
theorem unrotated_cleanupCalls (calls : Nat) : Unrotated first fun d => cleanupCalls d = calls where
  insert_temp d file h := by
    rw [← h]
    simp [cleanupCalls]
  erase_temp d h := by
    rw [← h]
    simp [cleanupCalls]
  insert d file h := by
    rw [← h]
    simp [cleanupCalls]

/-- A rotation that ends has found the temporary name of its segment free. -/
theorem FileDatabase.temp_free_of_rotate {next : RecordSequence} {u : PUnit}
    (hrotate : FileDatabase.rotate next db = .ok u db₁) :
    FileName.segmentTemp next ∉ db.backend.files.state := by
  intro htaken
  have hcreate (uuid : U128) : Faults.Spec True (fun d => FileName.segmentTemp next ∈ d)
      (createSegmentAtomic blake3 uuid next) (fun _ _ => False) (fun _ => True) := by
    unfold createSegmentAtomic
    refine EStateM.Spec.andThen (FileCalls.spec_createNew (Q := fun _ => False)
      (fun d hd hnot => hnot hd) (fun _ _ _ => trivial) (fun _ _ _ => trivial)
        fun _ _ _ => trivial) ?_
    rintro w ⟨-, hfalse⟩
    exact hfalse.elim
  have hlog : EStateM.Spec
      (OnFiles db.backend (Upto True fun d => FileName.segmentTemp next ∈ d))
      (SegmentedWal.rotate next) (fun _ _ => False) (fun _ => True) := by
    unfold SegmentedWal.rotate
    refine EStateM.Spec.bind spec_getWal fun wal => EStateM.Spec.fact fun _ => ?_
    refine EStateM.Spec.andThen ((spec_onFiles db.backend (hcreate _) _).weaken (fun _ h => h)
      (fun _ _ h => h) fun _ _ => trivial) ?_
    rintro w ⟨-, -, hfalse⟩
    exact hfalse.elim
  have hspec : EStateM.Spec (fun s => s = db) (FileDatabase.rotate next) (fun _ _ => False)
      (fun _ => True) := by
    refine EStateM.Spec.within fun s hs => hlog.weaken ?_ (fun _ _ h => h) fun _ h => h
    rintro _ rfl
    exact ⟨⟨s.backend.files, hs ▸ rfl⟩, fun _ => trivial, hs ▸ htaken⟩
  exact hspec.of_ok hrotate rfl

/-- A rotation that has failed has stranded the log or not. -/
theorem Shape.Kept.rotateFailed {next : RecordSequence} {e : FileDatabaseError}
    (h : shape.Kept (fault ≠ none) manifest history db) (hfault : db.backend.files.fault = fault)
    (hrotates : db.RotatesBefore next)
    (hrotate : FileDatabase.rotate next db = .error e db₁)
    (hmet : db₁.backend.files.fault = none) :
    (¬db.Strands fault ∧ OnBackend db (shape.Kept (fault ≠ none) manifest history) db₁) ∨
      (db.Strands fault ∧
        (∃ files, db₁ = { db with backend := { db.backend with files := files } }) ∧
        shape.Stranded (fault ≠ none) manifest history db₁) := by
  have hshape : shape.next = some next := h.handled.next.symm.trans hrotates.1
  have hfull := (h.attached.hasRecords (h.of.start_ne_none hshape)).mp hrotates.2
  have hless := h.of.active_lt hshape hfull
  have hnew := h.files.2.next_not_mem h.of hshape hless
  have hfirst (hstrands : db.Strands fault) : ∃ call ∈ fault, StrandsAt call := by
    obtain ⟨next', hrotates', hat | ⟨hthere, -⟩⟩ := hstrands
    · exact hat
    · obtain rfl := Option.some.inj (hrotates'.1.symm.trans hrotates.1)
      exact absurd hthere hnew
  obtain ⟨hbackend, hstopped⟩ := (h.spec_rotate hshape hfull).of_error hrotate rfl
  cases fault with
  | none =>
    refine .inl ⟨fun hstrands => ?_, hbackend,
      hstopped.resolve_right fun hstranded => hstranded.1 rfl⟩
    obtain ⟨call, hcall, -⟩ := hfirst hstrands
    cases hcall
  | some call =>
    obtain ⟨hfiles, hleft⟩ :=
      (ahead_rotate (unrotated_cleanupCalls _) rfl hfault).of_error hrotate rfl
    have hthere := (hleft hmet).2
    rw [or_iff_left hnew] at hthere
    rcases hstopped with hkept | ⟨-, hstranded⟩
    · -- the next segment would be the last one
      refine .inl ⟨fun hstrands => ?_, hbackend, hkept⟩
      obtain ⟨call', hcall', hat⟩ := hfirst hstrands
      obtain rfl := Option.some.inj hcall'
      have hlast := hkept.goesOnLast hshape next (hthere.mpr hat)
      rw [hkept.attached.active] at hlast
      exact absurd hless (not_lt.mpr hlast)
    · obtain ⟨first, hfirst, -, hin⟩ := hstranded.files
      obtain rfl := Option.some.inj (hshape.symm.trans hfirst)
      exact .inr ⟨⟨next, hrotates, .inl ⟨call, rfl, hthere.mp hin.active⟩⟩, hfiles, hstranded⟩

/-- A log that is stranded stays so when its rotation fails. -/
theorem Shape.Stranded.rotateFailed {next : RecordSequence} {e : FileDatabaseError}
    (h : shape.Stranded (fault ≠ none) manifest history db) (hfault : db.backend.files.fault = fault)
    (hrotates : db.RotatesBefore next)
    (hrotate : FileDatabase.rotate next db = .error e db₁)
    (hmet : db₁.backend.files.fault = none) :
    db.Strands fault ∧ (∃ files, db₁ = { db with backend := { db.backend with files := files } }) ∧
      shape.Stranded (fault ≠ none) manifest history db₁ := by
  have hshape : shape.next = some next := h.handled.next.symm.trans hrotates.1
  have hthere : FileName.segment next ∈ db.backend.files.state := by
    obtain ⟨first, hfirst, -, hin⟩ := h.files
    obtain rfl := Option.some.inj (hshape.symm.trans hfirst)
    exact hin.active
  obtain ⟨-, hstranded⟩ := (h.spec_rotate hshape).of_error hrotate rfl
  cases fault with
  | none =>
    -- only the temporary name can be in the way
    have htaken : FileName.segmentTemp next ∈ db.backend.files.state := by
      by_contra hfree
      exact (FileDatabase.spec_rotate_free hfault hfree).of_error hrotate rfl
    rw [FileDatabase.rotate_taken hfault htaken] at hrotate
    obtain ⟨-, rfl⟩ := EStateM.Result.error.inj hrotate
    exact ⟨⟨next, hrotates, .inr ⟨hthere, .inl htaken⟩⟩, ⟨db.backend.files, rfl⟩, hstranded⟩
  | some call =>
    obtain ⟨hfiles, hleft⟩ :=
      (ahead_rotate (unrotated_cleanupCalls _) rfl hfault).of_error hrotate rfl
    exact ⟨⟨next, hrotates, .inr ⟨hthere, .inr ⟨call, rfl, (hleft hmet).1⟩⟩⟩, hfiles, hstranded⟩

/-! ## Databases whose log may be stranded -/

/-- The log of a database goes on in its last segment, or it is stranded. -/
def Shape.Stands (faulty : Prop) (manifest : Manifest) (history : List TimestampedTransition)
    (shape : Shape) (db : FileDatabase blake3) : Prop :=
  shape.Kept faulty manifest history db ∨ shape.Stranded faulty manifest history db

/-- Its records are the history. -/
theorem Shape.Stands.of (h : shape.Stands faulty manifest history db) :
    shape.Of blake3 manifest.recordLimits history :=
  h.elim Shape.Kept.of Shape.Stranded.of

/-- Its configuration is the one of its files. -/
theorem Shape.Stands.handled (h : shape.Stands faulty manifest history db) :
    shape.Handled manifest db :=
  h.elim Shape.Kept.handled Shape.Stranded.handled

/-- It writes to the active segment. -/
theorem Shape.Stands.attached (h : shape.Stands faulty manifest history db) :
    shape.Attached db.backend :=
  h.elim Shape.Kept.attached Shape.Stranded.attached

/-- Behind a rotation the log goes on in its last segment. -/
theorem Shape.Stands.rotate {next : RecordSequence} {u : PUnit}
    (h : shape.Stands faulty manifest history db) (hrotates : db.RotatesBefore next)
    (hrotate : FileDatabase.rotate next db = .ok u db₁) :
    OnBackend db ((shape.rotated next).Kept faulty manifest history) db₁ := by
  have hshape : shape.next = some next := h.handled.next.symm.trans hrotates.1
  have hfull := (h.attached.hasRecords (h.of.start_ne_none hshape)).mp hrotates.2
  rcases h with hkept | hstranded
  · exact (hkept.spec_rotate hshape hfull).of_ok hrotate rfl
  · exact (hstranded.spec_rotate hshape).of_ok hrotate rfl

/-- How many calls come before the name of the snapshot if there is a rotation. -/
theorem FileDatabase.callsBefore_of_rotates {next : RecordSequence}
    (hrotates : db.RotatesBefore next) :
    db.callsBefore = 6 + cleanupCalls db.backend.files.state + 3 := by
  have hnext : db.nextRecordSequence ≠ none := by
    rw [hrotates.1]
    exact Option.some_ne_none _
  rw [FileDatabase.callsBefore, if_pos ⟨hnext, hrotates.2⟩]

/-- How many calls come before it if there is none. -/
theorem FileDatabase.callsBefore_of_not_rotates (hrotates : ¬∃ next, db.RotatesBefore next) :
    db.callsBefore = cleanupCalls db.backend.files.state + 3 := by
  rw [FileDatabase.callsBefore, if_neg, Nat.zero_add]
  rintro ⟨hnext, hhas⟩
  obtain ⟨next, hnext⟩ := Option.ne_none_iff_exists'.mp hnext
  exact hrotates ⟨next, hnext, hhas⟩

/-- After a snapshot has met a failure the log is stranded if its rotation strands it, and goes on
otherwise. -/
theorem Shape.Stands.snapshotFailed (h : shape.Stands (fault ≠ none) manifest history db)
    (hfault : db.backend.files.fault = fault) (hhealthy : db.poisoned = false)
    (hrecorded : Recorded blake3 history db.engine) (hdecodes : db.Installs fault → DecodesBack db)
    {listing : Listing} (hfailed : FileDatabase.createSnapshot listing db = .error error db₁)
    (hmet : db₁.backend.files.fault = none) :
    (¬db.Strands fault ∧ OnBackend db
      (fun s => ∃ shape, Shape.Kept (fault ≠ none) manifest history shape s) db₁) ∨
    (db.Strands fault ∧
      (∃ files, db₁ = { db with backend := { db.backend with files := files } }) ∧
      ∃ shape, Shape.Stranded (fault ≠ none) manifest history shape db₁) := by
  have hhandled := And.intro h.handled.databaseUuid h.handled.snapshotLimits
  by_cases hdue : ∃ next, db.RotatesBefore next
  · obtain ⟨next, hrotates⟩ := hdue
    rw [FileDatabase.createSnapshot_of_rotates hhealthy hrotates] at hfailed
    rcases EStateM.bind_eq_error.mp hfailed with hrotate | ⟨u, s, hrotate, hinstall⟩
    · rcases h with hkept | hstranded
      · exact (hkept.rotateFailed hfault hrotates hrotate hmet).imp
          (And.imp_right fun hkept => hkept.imp fun hkept => ⟨shape, hkept⟩)
          (And.imp_right (And.imp_right fun hstranded => ⟨shape, hstranded⟩))
      · obtain ⟨hstrands, hfiles, hstranded'⟩ :=
          hstranded.rotateFailed hfault hrotates hrotate hmet
        exact .inr ⟨hstrands, hfiles, shape, hstranded'⟩
    · -- the rotation has ended, and the installation has failed
      obtain ⟨hbackend, hkept⟩ := h.rotate hrotates hrotate
      have hfree := FileDatabase.temp_free_of_rotate hrotate
      have hahead : ∀ call ∈ fault, Ahead call 6
          (fun d => cleanupCalls d = cleanupCalls db.backend.files.state) s.backend.files :=
        fun call hcall =>
          (ahead_rotate (unrotated_cleanupCalls _) rfl (hfault.trans hcall)).of_ok hrotate rfl
      refine .inl ⟨?_, hkept.installFailed hbackend (hkept.rotated fun _ _ => rfl) hhandled
        hrecorded hrotates.1 ?_ hinstall hmet⟩
      · have hless : ∀ call ∈ fault, ¬call.remaining < 6 := by
          intro call hcall
          obtain ⟨n, hn, -⟩ := hahead call hcall
          omega
        rintro ⟨next', hrotates', ⟨call, hcall, hat⟩ | ⟨-, htaken | ⟨call, hcall, hearly⟩⟩⟩
        · exact hless call hcall hat.lt
        · obtain rfl := Option.some.inj (hrotates'.1.symm.trans hrotates.1)
          exact hfree htaken
        · exact hless call hcall hearly
      · rintro ⟨later, hlater, hat⟩
        obtain ⟨call, hcall⟩ := Option.ne_none_iff_exists'.mp
          (hkept.files.1 (Option.ne_none_iff_exists'.mpr ⟨later, hlater⟩))
        obtain ⟨n, hn, hsome, hcleanup⟩ := hahead call hcall
        obtain rfl := Option.some.inj (hlater.symm.trans hsome)
        refine hdecodes ⟨call, hcall, ?_⟩
        rw [FileDatabase.callsBefore_of_rotates hrotates, ← hcleanup, Nat.add_assoc]
        exact hat.behind hn
  · have hempty : ∀ next, shape.next = some next → shape.records = [] := by
      intro next hshape
      by_contra hfull
      exact hdue ⟨next, h.handled.next.trans hshape,
        (h.attached.hasRecords (h.of.start_ne_none hshape)).mpr hfull⟩
    have hkept : shape.Kept (fault ≠ none) manifest history db := by
      refine h.resolve_right fun hstranded => ?_
      obtain ⟨first, hfirst, -⟩ := hstranded.files
      exact hstranded.full (hempty first hfirst)
    have hrotated : shape.Rotated := hkept.rotated hempty
    rw [FileDatabase.createSnapshot_of_not_rotates hhealthy hdue] at hfailed
    refine .inl ⟨fun hstrands => hdue (hstrands.imp fun _ h => h.1), ?_⟩
    refine hkept.installFailed ⟨_, rfl⟩ hrotated hhandled hrecorded h.handled.next ?_ hfailed hmet
    rintro ⟨call, hcall, hat⟩
    refine hdecodes ⟨call, hfault ▸ hcall, ?_⟩
    rwa [FileDatabase.callsBefore_of_not_rotates hdue]

end PromiseDb
