import PromiseDb.Storage.FailedSnapshots

/-!
# Databases that may be stranded

All that an open database has acknowledged is recovered from its files as long as its log goes on in
the last segment, or is stranded but has not got a record since.  Groups and snapshots, created or
failed, lead from such a database to such a database, unless a group with records stays in the segment
in which the log is stranded.
-/

namespace PromiseDb

open Database Faults

variable {blake3 : List UInt8 → CommandHash} {faulty : Prop} {manifest : Manifest}
  {history items : List TimestampedTransition} {shape : Shape} {db db' db₁ : FileDatabase blake3}
  {first : RecordSequence} {fault : Option Faults.Fault}

/-! ## Acknowledged groups -/

variable (blake3) in
/-- Groups that are acknowledged one after another, none of which restores a pool, with their
records. -/
inductive AcknowledgedGroups : FileDatabase blake3 → List (List (Command × Timestamp)) →
    List TimestampedTransition → FileDatabase blake3 → Prop
  | none (db : FileDatabase blake3) : AcknowledgedGroups db [] [] db
  | group {db db' db'' : FileDatabase blake3} {commands : List (Command × Timestamp)}
      {rest : List (List (Command × Timestamp))} {prepared : PreparedBatch}
      {responses : List CommandResponse} {items : List TimestampedTransition}
      (hprepared : Engine.prepareBatch blake3 db.engine commands = .ok prepared)
      (hrestores : RestoresNone db commands)
      (happlied : applyBatch blake3 commands db = .ok responses db')
      (others : AcknowledgedGroups db' rest items db'') :
      AcknowledgedGroups db (commands :: rest) (prepared.durableItems ++ items) db''

variable (blake3) in
/-- The bytes that a group appends to the log, if it has records. -/
def groupRecords (db : FileDatabase blake3) (commands : List (Command × Timestamp)) :
    Option (List UInt8) :=
  (Engine.prepareBatch blake3 db.engine commands).toOption.bind fun prepared =>
    if prepared.durableItems = [] then none
    else (assignSequences db.nextRecordSequence prepared.durableItems.length).toOption.bind
      fun assigned =>
        (framed blake3 db.recordLimits (prepared.durableItems.zip assigned.1)).toOption

/-- Whether the first group that has records, if there is one, does not fit into the active segment any
more. -/
def FileDatabase.movesOn (db : FileDatabase blake3) : List (List (Command × Timestamp)) → Bool
  | [] => true
  | commands :: rest => (groupRecords blake3 db commands).elim (db.movesOn rest) db.backend.rotates

variable {commands : List (Command × Timestamp)} {groups : List (List (Command × Timestamp))}
  {prepared : PreparedBatch} {bytes : List UInt8} {next : Option RecordSequence}

/-- A group without records appends nothing. -/
theorem groupRecords_eq_none (hprepared : Engine.prepareBatch blake3 db.engine commands = .ok prepared)
    (hdurable : prepared.durableItems = []) : groupRecords blake3 db commands = none := by
  rw [groupRecords, hprepared]
  exact if_pos hdurable

/-- A group that is ready appends its records. -/
theorem groupRecords_of_ready (h : Ready blake3 db commands prepared bytes next) :
    groupRecords blake3 db commands = some bytes := by
  obtain ⟨sequences, hassigned, hframed⟩ := h.logged.framed
  rw [groupRecords, h.prepares]
  show (if prepared.durableItems = [] then none else _) = _
  rw [if_neg h.durable, hassigned]
  show (framed blake3 db.recordLimits (prepared.durableItems.zip sequences)).toOption = _
  rw [hframed]
  rfl

/-- Whether a group moves on does not depend on the files. -/
theorem FileDatabase.movesOn_congr (files : FileSystem) (durability : Durability)
    (groups : List (List (Command × Timestamp))) :
    FileDatabase.movesOn ({ db with
      durability := durability
      backend := { db.backend with files := files } } : FileDatabase blake3) groups =
        db.movesOn groups := by
  induction groups with
  | nil => rfl
  | cons commands rest ih =>
    rw [movesOn, movesOn, ih]
    rfl

/-- Acknowledged groups continue the history. -/
theorem Live.acknowledged (h : Live manifest history db)
    (hgroups : AcknowledgedGroups blake3 db groups items db') :
    Live manifest (history ++ items) db' := by
  induction hgroups generalizing history with
  | none db => rwa [List.append_nil]
  | group hprepared hrestores happlied others ih =>
    rw [← List.append_assoc]
    exact ih (h.applied happlied hprepared hrestores)

/-- Acknowledged groups do not free a jammed log. -/
theorem Jammed.acknowledged (h : Jammed manifest db)
    (hgroups : AcknowledgedGroups blake3 db groups items db') : Jammed manifest db' := by
  induction hgroups with
  | none db => exact h
  | group hprepared hrestores happlied others ih =>
    refine ih ?_
    obtain ⟨prepared', -, -, ⟨-, -, rfl⟩ | ⟨bytes, next, backend, hready, hpersist, rfl⟩⟩ :=
      applyBatch_acknowledged happlied
    · exact h
    · cases hrotates : SegmentedWal.rotates _ bytes with
      | true => exact h.rotates hready hrotates hpersist
      | false => exact h.stays hready hrestores hrotates hpersist

/-- Behind a stranded log the acknowledged groups are kept if the first one with records moves on to
the new segment, and jam the log otherwise. -/
theorem Shape.Stranded.acknowledged (h : shape.Stranded faulty manifest history db)
    (hfault : db.backend.files.fault = none) (hrecorded : Recorded blake3 history db.engine)
    (hgroups : AcknowledgedGroups blake3 db groups items db') :
    (db.movesOn groups = true ∧ (Live manifest (history ++ items) db' ∨
        shape.Stranded faulty manifest (history ++ items) db' ∧
          Recorded blake3 (history ++ items) db'.engine)) ∨
      db.movesOn groups = false ∧ Jammed manifest db' := by
  induction hgroups with
  | none db =>
    rw [List.append_nil]
    exact .inl ⟨rfl, .inr ⟨h, hrecorded⟩⟩
  | @group db db₁ db₂ commands rest prepared responses items hprepared hrestores happlied others ih =>
    obtain ⟨prepared', hsame, -, hcases⟩ := applyBatch_acknowledged happlied
    obtain rfl : prepared' = prepared := Except.ok.inj (hsame.symm.trans hprepared)
    rw [FileDatabase.movesOn]
    obtain ⟨hdurable, -, rfl⟩ | ⟨bytes, next, backend, hready, hpersist, rfl⟩ := hcases
    · -- nothing was written
      rw [groupRecords_eq_none hprepared hdurable, hdurable, List.nil_append]
      exact ih h hfault hrecorded
    · rw [groupRecords_of_ready hready, Option.elim_some, ← List.append_assoc]
      cases hrotates : db.backend.rotates bytes with
      | true =>
        have hlive := (h.rotates hfault hrecorded hready hrestores hrotates hpersist).1
        exact .inl ⟨rfl, .inl (hlive.acknowledged others)⟩
      | false =>
        have hjammed := (h.stays hfault hrecorded hready hrestores hrotates hpersist).1
        exact .inr ⟨rfl, hjammed.acknowledged others⟩

/-! ## Open databases -/

/-- An open database over the files of a history.  As long as it is not poisoned, it knows what the
files hold, but for a segment in which its log is stranded. -/
structure Standing (manifest : Manifest) (history : List TimestampedTransition)
    (db : FileDatabase blake3) : Prop where
  fault : db.backend.files.fault = none
  recorded : Recorded blake3 history db.engine
  closed : Closed blake3 manifest history db.backend.files.state
  healthy : db.poisoned = false → ∃ shape, Shape.Stands False manifest history shape db

/-- A database whose log goes on in the last segment. -/
theorem Live.standing (h : Live manifest history db) : Standing manifest history db := by
  refine ⟨h.fault, h.recorded, h.closed, fun hhealthy => ?_⟩
  obtain ⟨shape, hof, hin, hhandled, hattached⟩ := h.healthy hhealthy
  exact ⟨shape, .inl ⟨hof, hhandled, hattached, fun hne => hne h.fault, hin⟩⟩

/-- A database on which no failure lies ahead. -/
theorem Shape.Stands.standing (h : shape.Stands faulty manifest history db)
    (hfault : db.backend.files.fault = none) (hrecorded : Recorded blake3 history db.engine) :
    Standing manifest history db := by
  rcases h with hkept | hstranded
  · exact (hkept.live hfault hrecorded).standing
  · obtain ⟨first, hnext, -, hin⟩ := hstranded.files
    refine ⟨hfault, hrecorded, hstranded.closed hrecorded, fun _ => ⟨shape, .inr ?_⟩⟩
    exact ⟨hstranded.of, hstranded.handled, hstranded.attached, hstranded.full, first, hnext,
      fun hne => hne hfault, hin⟩

/-- The log goes on in the last segment, or it is stranded. -/
theorem Standing.cases (h : Standing manifest history db) : Live manifest history db ∨
    db.poisoned = false ∧ ∃ shape, Shape.Stranded False manifest history shape db := by
  cases hpoisoned : db.poisoned with
  | true =>
    refine .inl ⟨h.fault, h.recorded, h.closed, fun hhealthy => ?_⟩
    rw [hpoisoned] at hhealthy
    cases hhealthy
  | false =>
    obtain ⟨shape, hkept | hstranded⟩ := h.healthy hpoisoned
    · exact .inl (hkept.live h.fault h.recorded)
    · exact .inr ⟨rfl, shape, hstranded⟩

/-- A failure may lie ahead. -/
theorem Standing.stands (h : Standing manifest history db) (hhealthy : db.poisoned = false)
    (hfault : fault ≠ none → faulty) :
    ∃ shape, Shape.Stands faulty manifest history shape (db.withFault fault) := by
  rcases h.cases with hlive | ⟨-, shape, hstranded⟩
  · obtain ⟨shape, hkept⟩ := hlive.kept hhealthy faulty hfault
    exact ⟨shape, .inl hkept⟩
  · obtain ⟨first, hnext, -, hin⟩ := hstranded.files
    obtain ⟨huuid, hrecord, hwal, hsnapshot, hdurability, hnext', hexpected⟩ := hstranded.handled
    exact ⟨shape, .inr ⟨hstranded.of,
      ⟨huuid, hrecord, hwal, hsnapshot, hdurability, hnext', hexpected⟩,
      ⟨hstranded.attached.active, hstranded.attached.length, hstranded.attached.hasRecords⟩,
      hstranded.full, first, hnext, hfault, hin⟩⟩

/-- The segment of the next record of a stranded log is there. -/
theorem Shape.Stranded.isStranded (h : shape.Stranded faulty manifest history db) :
    db.IsStranded := by
  obtain ⟨first, hnext, -, hin⟩ := h.files
  exact ⟨first, ⟨h.handled.next.trans hnext,
    (h.attached.hasRecords (h.of.start_ne_none hnext)).mpr h.full⟩, hin.active⟩

/-! ## Groups -/

/-- Acknowledged groups continue the history of a database, unless the first one with records stays in
the segment in which the log is stranded. -/
theorem Standing.acknowledged (h : Standing manifest history db)
    (hgroups : AcknowledgedGroups blake3 db groups items db')
    (hmoves : db.IsStranded → db.movesOn groups = true) :
    Standing manifest (history ++ items) db' := by
  rcases h.cases with hlive | ⟨-, shape, hstranded⟩
  · exact (hlive.acknowledged hgroups).standing
  · rcases hstranded.acknowledged h.fault h.recorded hgroups with
      ⟨-, hlive | ⟨hstranded', hrecorded⟩⟩ | ⟨hstays, -⟩
    · exact hlive.standing
    · obtain ⟨first, -, hfault, -⟩ := hstranded'.files
      exact Shape.Stands.standing (.inr hstranded') (not_ne_iff.mp hfault) hrecorded
    · rw [hmoves hstranded.isStranded] at hstays
      cases hstays

/-- A group that is refused on a stranded log leaves the files as they are. -/
theorem Shape.Stranded.refused {error : DatabaseError}
    (h : shape.Stranded False manifest history db) (hrecorded : Recorded blake3 history db.engine)
    (happlied : applyBatch blake3 commands db = .error error db') :
    Standing manifest history db' := by
  obtain ⟨first, hnext, hfault, hin⟩ := h.files
  replace hfault := not_ne_iff.mp hfault
  have hstart := h.of.start_ne_none hnext
  obtain ⟨error', -, herror⟩ | ⟨-, prepared, -, -, hok⟩ |
    ⟨prepared, bytes, next, error', backend, hready, -, -⟩ |
    ⟨prepared, bytes, next, backend, -, -, hok⟩ := applyBatch_cases blake3 db commands
  · rw [herror] at happlied
    obtain ⟨-, rfl⟩ := EStateM.Result.error.inj happlied
    exact Shape.Stands.standing (.inr h) hfault hrecorded
  · rw [hok] at happlied
    cases happlied
  · have hheader : Segment.headerLen ≤ db.backend.activeLen := by
      rw [h.attached.length hstart]
      exact Nat.le_add_right _ _
    have hactive : FileName.segment db.backend.active ∈ db.backend.files.state := by
      obtain ⟨start, hstart⟩ := Option.ne_none_iff_exists'.mp hstart
      rw [h.attached.active]
      refine OrderedMap.mem_iff_lookup.mpr
        ⟨_, hin.contents start hstart (shape.active, shape.records) ?_⟩
      exact List.mem_append_left _ (List.mem_append_right _ (List.mem_singleton_self _))
    obtain rfl := (acknowledged_iff_admits hready hfault h.handled.configured
      (h.handled.next.trans hnext) hheader hactive).2 error db' happlied
    exact ⟨hfault, hrecorded, h.closed hrecorded, nofun⟩
  · rw [hok] at happlied
    cases happlied

/-- A group that is refused changes nothing about the history. -/
theorem Standing.refused {error : DatabaseError} (h : Standing manifest history db)
    (happlied : applyBatch blake3 commands db = .error error db') :
    Standing manifest history db' := by
  rcases h.cases with hlive | ⟨-, shape, hstranded⟩
  · exact (hlive.refused happlied).standing
  · exact hstranded.refused h.recorded happlied

/-! ## Snapshots -/

/-- After a snapshot has met a failure, the log goes on in the last segment, or it is stranded. -/
theorem Standing.snapshotFailed_cases (h : Standing manifest history db)
    (hhealthy : db.poisoned = false) (hdecodes : db.Installs fault → DecodesBack db)
    {listing : Listing} {error : FileDatabaseError}
    (hfailed : FileDatabase.createSnapshot listing (db.withFault fault) = .error error db₁)
    (hmet : db₁.backend.files.fault = none) :
    (¬db.Strands fault ∧ Live manifest history db₁) ∨
    (db.Strands fault ∧
      (∃ files, db₁ = { db with backend := { db.backend with files := files } }) ∧
      ∃ shape, Shape.Stranded (fault ≠ none) manifest history shape db₁) := by
  obtain ⟨shape, hstands⟩ : ∃ shape, Shape.Stands (fault ≠ none) manifest history shape
      (db.withFault fault) := h.stands hhealthy id
  rcases hstands.snapshotFailed rfl hhealthy h.recorded hdecodes hfailed hmet with
    ⟨hstrands, ⟨backend, rfl⟩, shape', hkept⟩ | ⟨hstrands, hfiles, hstranded⟩
  · exact .inl ⟨hstrands, hkept.live hmet h.recorded⟩
  · exact .inr ⟨hstrands, hfiles, hstranded⟩

/-- A snapshot that has failed changes nothing about the history. -/
theorem Standing.snapshotFailed (h : Standing manifest history db)
    (hdecodes : db.Installs fault → DecodesBack db) {listing : Listing} {error : FileDatabaseError}
    (hfailed : FileDatabase.createSnapshot listing (db.withFault fault) = .error error db₁)
    (hmet : db₁.backend.files.fault = none) : Standing manifest history db₁ := by
  cases hpoisoned : db.poisoned with
  | true =>
    -- nothing was tried
    have hrefused : (db.withFault fault).poisoned = true := hpoisoned
    rw [FileDatabase.createSnapshot_poisoned hrefused] at hfailed
    obtain ⟨-, rfl⟩ := EStateM.Result.error.inj hfailed
    refine ⟨hmet, h.recorded, h.closed, fun hhealthy => ?_⟩
    rw [hrefused] at hhealthy
    cases hhealthy
  | false =>
    rcases h.snapshotFailed_cases hpoisoned hdecodes hfailed hmet with
      ⟨-, hlive⟩ | ⟨-, ⟨files, rfl⟩, shape, hstranded⟩
    · exact hlive.standing
    · exact Shape.Stands.standing (.inr hstranded) hmet h.recorded

/-- Creating a snapshot, whether it succeeds or is refused, changes nothing about the history. -/
theorem Standing.snapshot (h : Standing manifest history db) (hdecodes : DecodesBack db)
    (listing : Listing) :
    Standing manifest history (FileDatabase.createSnapshot listing db).finalState := by
  rcases h.cases with hlive | ⟨hhealthy, shape, hstranded⟩
  · exact (hlive.snapshot hdecodes listing).standing
  obtain ⟨next, hrotates, -⟩ := hstranded.isStranded
  rw [FileDatabase.createSnapshot_of_rotates hhealthy hrotates]
  cases hrotate : FileDatabase.rotate next db with
  | error e s =>
    rw [EStateM.bind_of_error hrotate, EStateM.Result.finalState_error]
    have hspec := hstranded.spec_rotate (hstranded.handled.next.symm.trans hrotates.1)
    obtain ⟨⟨backend, rfl⟩, hstranded'⟩ := hspec.of_error hrotate rfl
    obtain ⟨first, -, hfault, -⟩ := hstranded'.files
    exact Shape.Stands.standing (.inr hstranded') (not_ne_iff.mp hfault) h.recorded
  | ok u s =>
    rw [EStateM.bind_of_ok hrotate]
    obtain ⟨hbackend, hkept⟩ := Shape.Stands.rotate (.inr hstranded) hrotates hrotate
    have hlive {s' : FileDatabase blake3}
        (hs : OnBackend db (fun s => ∃ shape, Shape.Kept False manifest history shape s) s') :
        Standing manifest history s' := by
      obtain ⟨⟨backend, rfl⟩, shape', hkept'⟩ := hs
      exact (hkept'.live (not_ne_iff.mp hkept'.files.1) h.recorded).standing
    obtain ⟨outcome, s', hrun, hs⟩ | ⟨e, s', hrun, hs⟩ :=
      hkept.spec_install hbackend (hkept.rotated fun _ _ => rfl)
        ⟨hstranded.handled.databaseUuid, hstranded.handled.snapshotLimits⟩ h.recorded hdecodes
        hrotates.1 listing s rfl
    · rw [hrun, EStateM.Result.finalState_ok]
      exact hlive (hs.imp fun ⟨shape', hkept', _⟩ => ⟨shape', hkept'⟩)
    · rw [hrun, EStateM.Result.finalState_error]
      exact hlive hs

end PromiseDb
