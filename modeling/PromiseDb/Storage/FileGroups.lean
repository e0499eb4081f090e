import PromiseDb.Storage.Appending

/-!
# Groups on a file database

A group that is acknowledged continues the history of an open file database with its records.  One
that is refused leaves the files as they are, and one in the middle of which the machine crashes
leaves some of its records.
-/

namespace PromiseDb

open Database Faults

variable {blake3 : List UInt8 → CommandHash} {faulty : Prop} {manifest : Manifest}
  {history items : List TimestampedTransition} {shape : Shape} {db : FileDatabase blake3}
  {first : RecordSequence} {next : Option RecordSequence} {bytes : List UInt8}

/-! ## Where a group is written -/

/-- Items have a first sequence, and their records have bytes. -/
theorem Database.Logged.nonempty {limits : RecordLimits} {start : Option RecordSequence}
    (h : Logged blake3 limits start items bytes next) (hitems : items ≠ []) :
    (∃ first, start = some first) ∧ bytes ≠ [] := by
  cases h with
  | nil => exact absurd rfl hitems
  | @cons sequence item payload front rest items _ encoded framed others =>
    refine ⟨⟨sequence, rfl⟩, fun hnil => ?_⟩
    exact RecordReader.encode_ne_nil framed (List.append_eq_nil_iff.mp hnil).1

/-- Records that have bytes lead to a later sequence. -/
theorem Database.Logged.lt {limits : RecordLimits} {start : RecordSequence}
    (h : Logged blake3 limits (some start) items bytes (some first)) (hbytes : bytes ≠ []) :
    start < first := by
  have hindex := h.sequenceIndex
  have hstart : Database.sequenceIndex (some start) = start.get.val - 1 := rfl
  have hfirst : Database.sequenceIndex (some first) = first.get.val - 1 := rfl
  have hitems : items ≠ [] := by
    rintro rfl
    cases h
    exact hbytes rfl
  have hpos := List.length_pos_of_ne_nil hitems
  rw [RecordSequence.lt_iff]
  omega

/-- The last record that is there comes before the next one. -/
theorem Shape.Of.active_lt {limits : RecordLimits} (hof : shape.Of blake3 limits history)
    (hnext : shape.next = some first) (hrecords : shape.records ≠ []) : shape.active < first := by
  cases hstart : shape.start with
  | none =>
    have hnone := (hof.exhausted hstart).2
    rw [hnext] at hnone
    cases hnone
  | some start =>
    obtain ⟨before, rest, -, hlogged, -⟩ := hof.logged start hstart
    rw [hnext] at hlogged
    exact hlogged.lt hrecords

/-- A sequence is left, so that not every record there can be is covered. -/
theorem Shape.Of.start_ne_none {limits : RecordLimits} (hof : shape.Of blake3 limits history)
    (hnext : shape.next = some first) : shape.start ≠ none := by
  intro hstart
  have hnone := (hof.exhausted hstart).2
  rw [hnext] at hnone
  cases hnone

/-- The active segment is the last one of a shape. -/
theorem Shape.Of.le_active {limits : RecordLimits} (hof : shape.Of blake3 limits history)
    {start other : RecordSequence} (hstart : shape.start = some start)
    (hother : other ∈ shape.firsts) : other ≤ shape.active := by
  have hsorted := hof.sorted hstart
  rw [Shape.firsts, List.pairwise_append] at hsorted
  rw [Shape.firsts, List.mem_append, List.mem_singleton] at hother
  rcases hother with hother | rfl
  · exact (hsorted.2.2 other hother _ (List.mem_singleton_self _)).le
  · exact le_rfl

/-- The segment of the next record is not there as long as the active one has records. -/
theorem Shape.In.next_not_mem {limits : RecordLimits} {tail : List UInt8} {d : Directory}
    (h : shape.In blake3 manifest tail d) (hof : shape.Of blake3 limits history)
    (hnext : shape.next = some first) (hless : shape.active < first) :
    FileName.segment first ∉ d := by
  intro hmem
  obtain ⟨start, hstart⟩ := Option.ne_none_iff_exists'.mp (hof.start_ne_none hnext)
  have hactive : shape.active ∈ shape.firsts :=
    List.mem_append_right _ (List.mem_singleton_self _)
  have hfound := h.names start hstart first ((hof.start_le hstart hactive).trans hless.le) hmem
  exact absurd (hof.le_active hstart hfound) (not_le.mpr hless)

/-- A new segment behind the active one adds nothing to the log. -/
theorem At.rotate {limits : RecordLimits} {length : ℤ} {d : Directory}
    (h : At blake3 manifest shape length d) (hof : shape.Of blake3 limits history)
    (hnext : shape.next = some first) (hless : shape.active < first) :
    At blake3 manifest (shape.rotated first) length (d.insert (.segment first)
      (.synced (Segment.header blake3 manifest.databaseUuid first))) := by
  obtain ⟨start, hstart⟩ := Option.ne_none_iff_exists'.mp (hof.start_ne_none hnext)
  have hsorted := hof.sorted hstart
  have hnew := h.1.next_not_mem hof hnext hless
  refine ⟨h.1.rotate hsorted hless, ?_⟩
  rw [Directory.logLength_insert_segment, OrderedMap.not_mem_iff_lookup.mp hnew, Option.elim_none,
    File.content_synced, Segment.length_header, h.2]
  ring

/-- A database that is attached to the active segment writes to it, or to the one that a rotation
makes active. -/
theorem Shape.Attached.target {wal : SegmentedWal blake3} (hattached : shape.Attached wal)
    {limits : RecordLimits} (hof : shape.Of blake3 limits history)
    (hnext : shape.next = some first) (bytes : List UInt8) :
    ∃ shape', wal.Target manifest shape shape' first bytes ∧ shape'.next = some first ∧
      shape'.Of blake3 limits history := by
  have hstart := hof.start_ne_none hnext
  cases hrotates : wal.rotates bytes with
  | false =>
    refine ⟨shape, ⟨hstart, fun _ => ⟨rfl, hattached.active, hattached.length hstart⟩, ?_⟩, hnext,
      hof⟩
    intro hcontra
    rw [hrotates] at hcontra
    cases hcontra
  | true =>
    have hhas : wal.activeHasRecords = true := (Bool.and_eq_true_iff.mp hrotates).1
    have hless := hof.active_lt hnext ((hattached.hasRecords hstart).mp hhas)
    refine ⟨shape.rotated first, ⟨hstart, ?_, ?_⟩, rfl, hof.rotate hnext hless⟩
    · intro hcontra
      rw [hrotates] at hcontra
      cases hcontra
    · exact fun _ => ⟨rfl, rfl, fun length d h => h.rotate hof hnext hless⟩

/-! ## Persisting a group -/

section Groups

variable {commands : List (Command × Timestamp)} {prepared : PreparedBatch}

/-- Persisting a group on an open database ends behind its records, or is stopped. -/
theorem Shape.Handled.persist {shape' : Shape} (hhandled : shape.Handled manifest db)
    (hin : shape.In blake3 manifest [] db.backend.files.state)
    (hfault : db.backend.files.fault ≠ none → faulty)
    (hready : Ready blake3 db commands prepared bytes next)
    (hfirst : db.nextRecordSequence = some first)
    (htarget : db.backend.Target manifest shape shape' first bytes) :
    (∃ backend, persist bytes db.durability db.backend = .ok ⟨⟩ backend ∧
      OnFiles (db.backend.behind shape' bytes next) (Upto faulty
        (Written blake3 manifest shape' db.backend.files.state.logLength bytes [])) backend) ∨
    ∃ e backend, persist bytes db.durability db.backend = .error e backend ∧
      Upto faulty (@Stopped blake3 faulty manifest shape shape' db.backend.files.state.logLength
        bytes) backend.files := by
  have hlogged := hready.logged
  rw [hhandled.recordLimits, hfirst] at hlogged
  have hexpected : db.backend.expectedSequence = some first := by
    rw [hhandled.expected, ← hhandled.next, hfirst]
  have hstart : OnFiles db.backend (Upto faulty
      (At blake3 manifest shape db.backend.files.state.logLength)) db.backend :=
    ⟨⟨db.backend.files, rfl⟩, hfault, hin, rfl⟩
  rw [hhandled.durability]
  obtain ⟨u, backend, hrun, hwritten⟩ | ⟨e, backend, hrun, hstopped⟩ :=
    spec_persist hlogged hready.durable hhandled.databaseUuid hexpected hhandled.walLimits htarget
      db.backend hstart
  · exact .inl ⟨backend, hrun, hwritten⟩
  · exact .inr ⟨e, backend, hrun, hstopped⟩

/-- The records of a group that was persisted continue what the files stand for. -/
theorem Shape.Handled.published {shape' : Shape} (hhandled : shape.Handled manifest db)
    (hready : Ready blake3 db commands prepared bytes next)
    (hfirst : db.nextRecordSequence = some first) (hnext : shape'.next = some first)
    (hof : shape'.Of blake3 manifest.recordLimits history) {length : ℤ}
    {backend : SegmentedWal blake3}
    (hwritten : OnFiles (db.backend.behind shape' bytes next) (Upto faulty
      (Written blake3 manifest shape' length bytes [])) backend) (engine : Engine) :
    (shape'.extended bytes next).Of blake3 manifest.recordLimits
      (history ++ prepared.durableItems) ∧
    (shape'.extended bytes next).In blake3 manifest [] backend.files.state ∧
    (shape'.extended bytes next).Handled manifest
      { db with backend := backend, engine := engine, nextRecordSequence := next } ∧
    (shape'.extended bytes next).Attached backend := by
  obtain ⟨⟨files, rfl⟩, hfault, hfiles⟩ := hwritten
  have hstart := hof.start_ne_none hnext
  obtain ⟨start, hsome⟩ := Option.ne_none_iff_exists'.mp hstart
  have hlogged := hready.logged
  rw [hhandled.recordLimits, hfirst, ← hnext] at hlogged
  have hbytes : bytes ≠ [] := (hlogged.nonempty hready.durable).2
  refine ⟨hof.extend hstart hlogged, (hfiles.extend hstart (hof.sorted hsome) next).1, ?_, ?_⟩
  · exact ⟨hhandled.databaseUuid, hhandled.recordLimits, hhandled.walLimits,
      hhandled.snapshotLimits, hhandled.durability, rfl, rfl⟩
  · refine ⟨rfl, fun _ => rfl, fun _ => ⟨fun _ => ?_, fun _ => rfl⟩⟩
    exact fun hnil => hbytes (List.append_eq_nil_iff.mp hnil).2

/-- The history of a group that was published. -/
theorem Recorded.published {e : Engine} (h : Recorded blake3 history e)
    (hprepared : Engine.prepareBatch blake3 e commands = .ok prepared)
    (hrestores : ∀ entry ∈ Engine.firstSeen blake3 e.state commands,
      ¬Engine.RestoresPool blake3 e.state entry.1 entry.2.1 entry.2.2) :
    Recorded blake3 (history ++ prepared.durableItems) (Engine.publishBatch e prepared).2 := by
  refine ⟨h.is.publish hprepared hrestores, fun item hitem => ?_⟩
  rcases List.mem_append.mp hitem with hitem | hitem
  · exact h.recordable item hitem
  · exact Engine.recordable_prepareBatch h.is.sound hprepared item hitem

/-- A group that was persisted continues the history of an open database. -/
theorem Shape.Handled.applied {shape' : Shape} (hhandled : shape.Handled manifest db)
    (hin : shape.In blake3 manifest [] db.backend.files.state)
    (hfault : db.backend.files.fault = none) (hrecorded : Recorded blake3 history db.engine)
    (hready : Ready blake3 db commands prepared bytes next)
    (hrestores : ∀ entry ∈ Engine.firstSeen blake3 db.engine.state commands,
      ¬Engine.RestoresPool blake3 db.engine.state entry.1 entry.2.1 entry.2.2)
    (hfirst : db.nextRecordSequence = some first)
    (htarget : db.backend.Target manifest shape shape' first bytes)
    (hnext : shape'.next = some first) (hof : shape'.Of blake3 manifest.recordLimits history)
    {backend : SegmentedWal blake3}
    (hpersist : PromiseDb.persist bytes db.durability db.backend = .ok ⟨⟩ backend) :
    Live manifest (history ++ prepared.durableItems)
      { db with
        backend := backend
        engine := (Engine.publishBatch db.engine prepared).2
        nextRecordSequence := next } ∧
      backend.active = shape'.active := by
  have hrecorded' := hrecorded.published hready.prepares hrestores
  obtain ⟨backend', hrun, hwritten⟩ | ⟨e, backend', hrun, -⟩ :=
    hhandled.persist hin (fun hne : _ ≠ none => (hne hfault : False)) hready hfirst htarget
  · rw [hpersist] at hrun
    obtain ⟨-, rfl⟩ := EStateM.Result.ok.inj hrun
    obtain ⟨hof', hin', hhandled', hattached'⟩ := hhandled.published hready hfirst hnext hof hwritten
      (Engine.publishBatch db.engine prepared).2
    refine ⟨⟨?_, hrecorded', ⟨⟨_, hrecorded'⟩, _, [], hof', hin', .inl rfl⟩,
      fun _ => ⟨_, hof', hin', hhandled', hattached'⟩⟩, hattached'.active⟩
    by_contra hne
    exact hwritten.2.1 hne
  · rw [hpersist] at hrun
    cases hrun

/-! ## Groups that are applied -/

variable {responses : List CommandResponse} {db' : FileDatabase blake3}

/-- An acknowledged group continues the history. -/
theorem Live.applied (h : Live manifest history db)
    (happlied : applyBatch blake3 commands db = .ok responses db')
    (hprepared : Engine.prepareBatch blake3 db.engine commands = .ok prepared)
    (hrestores : ∀ entry ∈ Engine.firstSeen blake3 db.engine.state commands,
      ¬Engine.RestoresPool blake3 db.engine.state entry.1 entry.2.1 entry.2.2) :
    Live manifest (history ++ prepared.durableItems) db' := by
  obtain ⟨prepared', hprepared', -, hcases⟩ := applyBatch_acknowledged happlied
  obtain rfl : prepared' = prepared := Except.ok.inj (hprepared'.symm.trans hprepared)
  obtain ⟨hdurable, -, rfl⟩ | ⟨bytes, next, backend, hready, hpersist, rfl⟩ := hcases
  · rw [hdurable, List.append_nil]
    exact h
  · obtain ⟨shape, hof, hin, hhandled, hattached⟩ := h.healthy hready.healthy
    obtain ⟨⟨first, hfirst⟩, -⟩ := hready.logged.nonempty hready.durable
    have hnext : shape.next = some first := hhandled.next.symm.trans hfirst
    obtain ⟨shape', htarget, hnext', hof'⟩ := hattached.target hof hnext bytes
    exact (hhandled.applied hin h.fault h.recorded hready hrestores hfirst htarget hnext' hof'
      hpersist).1

/-- A group that is refused changes nothing about the history. -/
theorem Live.refused {error : DatabaseError} (h : Live manifest history db)
    (happlied : applyBatch blake3 commands db = .error error db') : Live manifest history db' := by
  obtain ⟨error, -, herror⟩ | ⟨-, prepared, -, -, hok⟩ |
    ⟨prepared, bytes, next, error, backend, hready, hpersist, herror⟩ |
    ⟨prepared, bytes, next, backend, -, -, hok⟩ := applyBatch_cases blake3 db commands
  · rw [herror] at happlied
    obtain ⟨-, rfl⟩ := EStateM.Result.error.inj happlied
    exact h
  · rw [hok] at happlied
    cases happlied
  · rw [herror] at happlied
    obtain ⟨-, rfl⟩ := EStateM.Result.error.inj happlied
    obtain ⟨shape, hof, hin, hhandled, hattached⟩ := h.healthy hready.healthy
    obtain ⟨⟨first, hfirst⟩, -⟩ := hready.logged.nonempty hready.durable
    obtain ⟨shape', htarget, -, -⟩ :=
      hattached.target hof (hhandled.next.symm.trans hfirst) bytes
    obtain ⟨backend', hrun, -⟩ | ⟨e, backend', hrun, hfault, hstopped⟩ :=
      hhandled.persist hin (fun hne : _ ≠ none => (hne h.fault : False)) hready hfirst htarget
    · rw [hpersist] at hrun
      cases hrun
    · rw [hpersist] at hrun
      obtain ⟨-, rfl⟩ := EStateM.Result.error.inj hrun
      have hkept : At blake3 manifest shape db.backend.files.state.logLength backend.files.state :=
        hstopped.resolve_right fun hfaulty => hfaulty.1
      refine ⟨?_, h.recorded, ⟨⟨_, h.recorded⟩, shape, [], hof, hkept.1, .inl rfl⟩, nofun⟩
      by_contra hne
      exact hfault hne
  · rw [hok] at happlied
    cases happlied

/-! ## Crashes -/

/-- A database that is going to meet a failure. -/
def FileDatabase.withFault (db : FileDatabase blake3) (fault : Option Faults.Fault) :
    FileDatabase blake3 :=
  { db with backend := { db.backend with files := { db.backend.files with fault := fault } } }

variable (blake3) in
/-- How many records of a group are complete in the files that a crash has left. -/
def recordsLeft (limits : RecordLimits) (db : FileDatabase blake3)
    (items : List TimestampedTransition) (d : Directory) : Nat :=
  completeRecords blake3 limits db.nextRecordSequence items
    (d.logLength - db.backend.files.state.logLength).toNat

/-- A crash changes nothing about files that stand for a history, and no record is added. -/
theorem Closed.cut {d d' : Directory} (h : Closed blake3 manifest history d) (hcut : d.Cut d') :
    Closed blake3 manifest history d' ∧ d'.logLength = d.logLength := by
  obtain ⟨hrecorded, shape, tail, hof, hin, htail⟩ := h
  refine ⟨⟨hrecorded, shape, tail, hof, hin.cut hcut, htail⟩, Directory.logLength_cut hcut ?_⟩
  intro first file hfile
  obtain ⟨bytes, hbytes⟩ := hin.intact.headers first file hfile
  exact ⟨_, hbytes⟩

/-- If the log has not grown, no record of a group is there. -/
theorem Closed.recordsLeft {d d' : Directory} {limits : RecordLimits}
    (h : Closed blake3 manifest history d)
    (hlength : d.logLength = db.backend.files.state.logLength) (hcut : d.Cut d')
    (items : List TimestampedTransition) :
    Closed blake3 manifest (history ++ items.take (recordsLeft blake3 limits db items d')) d' := by
  obtain ⟨hclosed, hsame⟩ := h.cut hcut
  unfold PromiseDb.recordsLeft
  rw [hsame, hlength, sub_self, Int.toNat_zero, completeRecords_zero, List.take_zero,
    List.append_nil]
  exact hclosed

/-- The first items of a group continue the history. -/
theorem Recorded.part {e : Engine} (h : Recorded blake3 history e)
    (hprepared : Engine.prepareBatch blake3 e commands = .ok prepared)
    (hrestores : ∀ entry ∈ Engine.firstSeen blake3 e.state commands,
      ¬Engine.RestoresPool blake3 e.state entry.1 entry.2.1 entry.2.2) {k : Nat}
    (hk : k ≤ prepared.durableItems.length) :
    ∃ e', Recorded blake3 (history ++ prepared.durableItems.take k) e' := by
  refine ⟨_, h.is.part hprepared hrestores hk, fun item hitem => ?_⟩
  rcases List.mem_append.mp hitem with hitem | hitem
  · exact h.recordable item hitem
  · exact Engine.recordable_prepareBatch h.is.sound hprepared item (List.mem_of_mem_take hitem)

/-- Wherever a group was stopped, a crash leaves some of its records. -/
theorem Stopped.crashed {shape' : Shape} {d d' : Directory}
    (h : @Stopped blake3 faulty manifest shape shape' db.backend.files.state.logLength bytes d)
    (hof : shape.Of blake3 manifest.recordLimits history)
    (hof' : shape'.Of blake3 manifest.recordLimits history) (hstart : shape'.start ≠ none)
    (hnext : shape'.next = db.nextRecordSequence)
    (hlogged : Logged blake3 manifest.recordLimits db.nextRecordSequence items bytes next)
    (hpart : ∀ k ≤ items.length, ∃ e, Recorded blake3 (history ++ items.take k) e)
    (hcut : d.Cut d') :
    Closed blake3 manifest
      (history ++ items.take (recordsLeft blake3 manifest.recordLimits db items d')) d' := by
  have hrecorded : ∃ e, Recorded blake3 history e := by
    have hnone := hpart 0 (Nat.zero_le _)
    rwa [List.take_zero, List.append_nil] at hnone
  rcases h with hkept | ⟨-, hrotated | ⟨front, back, hbytes, old, hold, rfl⟩⟩
  · have hclosed : Closed blake3 manifest history d :=
      ⟨hrecorded, shape, [], hof, hkept.1, .inl rfl⟩
    exact hclosed.recordsLeft hkept.2 hcut items
  · have hclosed : Closed blake3 manifest history d :=
      ⟨hrecorded, shape', [], hof', hrotated.1, .inl rfl⟩
    exact hclosed.recordsLeft hrotated.2 hcut items
  · have htorn : Torn blake3 manifest history db.nextRecordSequence
        db.backend.files.state.logLength bytes (old.insert (.segment shape'.active)
          ⟨Segment.header blake3 manifest.databaseUuid shape'.active ++
            (shape'.records ++ front), back⟩) :=
      ⟨shape', old, front, back, hof', hold.1, hnext, hstart, hold.2, hbytes, rfl⟩
    exact htorn.cut ⟨next, hlogged⟩ hpart hcut

/-- A crash in the middle of a group leaves some of its records. -/
theorem Live.crashed (h : Live manifest history db)
    (hprepared : Engine.prepareBatch blake3 db.engine commands = .ok prepared)
    (hrestores : ∀ entry ∈ Engine.firstSeen blake3 db.engine.state commands,
      ¬Engine.RestoresPool blake3 db.engine.state entry.1 entry.2.1 entry.2.2)
    {fault : Option Faults.Fault} {d : Directory}
    (hcut : (applyBatch blake3 commands (db.withFault fault)).finalState.backend.files.state.Cut d) :
    Closed blake3 manifest (history ++ prepared.durableItems.take
      (recordsLeft blake3 manifest.recordLimits db prepared.durableItems d)) d := by
  have hpart : ∀ k ≤ prepared.durableItems.length,
      ∃ e, Recorded blake3 (history ++ prepared.durableItems.take k) e :=
    fun k hk => h.recorded.part hprepared hrestores hk
  -- what a group that was going to be written may leave
  have hstopped : ∀ (bytes : List UInt8) (next : Option RecordSequence),
      Ready blake3 (db.withFault fault) commands prepared bytes next →
      (∀ backend, (persist bytes db.durability (db.withFault fault).backend).finalState = backend →
        backend.files.state.Cut d) →
      Closed blake3 manifest (history ++ prepared.durableItems.take
        (recordsLeft blake3 manifest.recordLimits db prepared.durableItems d)) d := by
    intro bytes next hready hcut
    obtain ⟨shape, hof, hin, hhandled, hattached⟩ := h.healthy hready.healthy
    obtain ⟨⟨first, hfirst⟩, -⟩ := hready.logged.nonempty hready.durable
    have hsame : db.nextRecordSequence = some first := hfirst
    obtain ⟨shape', htarget, hnext', hof'⟩ :=
      hattached.target hof (hhandled.next.symm.trans hsame) bytes
    have hlogged : Logged blake3 manifest.recordLimits db.nextRecordSequence
        prepared.durableItems bytes next := by
      rw [← hhandled.recordLimits]
      exact hready.logged
    have hhandled' : shape.Handled manifest (db.withFault fault) :=
      ⟨hhandled.databaseUuid, hhandled.recordLimits, hhandled.walLimits, hhandled.snapshotLimits,
        hhandled.durability, hhandled.next, hhandled.expected⟩
    have htarget' : (db.withFault fault).backend.Target manifest shape shape' first bytes :=
      ⟨htarget.start, htarget.stays, htarget.rotates⟩
    obtain ⟨backend, hrun, ⟨files, hbackend⟩, -, hwritten⟩ | ⟨e, backend, hrun, -, hstop⟩ :=
      hhandled'.persist hin (fun _ => True.intro) hready hfirst htarget'
    · have hstop : @Stopped blake3 True manifest shape shape' db.backend.files.state.logLength
          bytes backend.files.state := by
        rw [hbackend]
        exact .inr ⟨trivial, .inr ⟨bytes, [], (List.append_nil _).symm, hbackend ▸ hwritten⟩⟩
      exact hstop.crashed hof hof' htarget.start (hnext'.trans hsame.symm) hlogged hpart
        (hcut _ (congrArg EStateM.Result.finalState hrun))
    · exact hstop.crashed hof hof' htarget.start (hnext'.trans hsame.symm) hlogged hpart
        (hcut _ (congrArg EStateM.Result.finalState hrun))
  obtain ⟨error, -, herror⟩ | ⟨-, prepared', -, -, hok⟩ |
    ⟨prepared', bytes, next, error, backend, hready, hpersist, herror⟩ |
    ⟨prepared', bytes, next, backend, hready, hpersist, hok⟩ :=
    applyBatch_cases blake3 (db.withFault fault) commands
  · rw [herror] at hcut
    exact h.closed.recordsLeft rfl hcut _
  · rw [hok] at hcut
    exact h.closed.recordsLeft rfl hcut _
  · have hsame : prepared' = prepared := Except.ok.inj (hready.prepares.symm.trans hprepared)
    rw [herror] at hcut
    rw [hsame] at hready
    refine hstopped bytes next hready ?_
    rintro _ rfl
    have hpersist' : persist bytes db.durability (db.withFault fault).backend =
        .error error backend := hpersist
    rw [hpersist']
    exact hcut
  · have hsame : prepared' = prepared := Except.ok.inj (hready.prepares.symm.trans hprepared)
    rw [hok] at hcut
    rw [hsame] at hready
    refine hstopped bytes next hready ?_
    rintro _ rfl
    have hpersist' : persist bytes db.durability (db.withFault fault).backend =
        .ok ⟨⟩ backend := hpersist
    rw [hpersist']
    exact hcut

end Groups

end PromiseDb
