import PromiseDb.Storage.FileRuns

/-!
# Stranded logs

A rotation that fails after its segment was renamed leaves a database that goes on in the segment
before, and the failed snapshot does not poison it.  The next group of records decides: if it grows
out of the old segment, a new rotation replaces the stranded segment and the log goes on.  Otherwise
its records come before a segment that does not follow them, and the files cannot be opened any more.
-/

namespace PromiseDb

open Database Faults

variable {blake3 : List UInt8 → CommandHash} {faulty : Prop} {manifest : Manifest}
  {history items : List TimestampedTransition} {shape : Shape} {db : FileDatabase blake3}
  {first : RecordSequence} {next : Option RecordSequence} {bytes : List UInt8} {d : Directory}

/-! ## Blocked logs -/

variable (blake3) in
/-- Behind the segments of a history there is another one. -/
structure Shape.Behind (manifest : Manifest) (history : List TimestampedTransition) (shape : Shape)
    (first : RecordSequence) (d : Directory) : Prop where
  of : shape.Of blake3 manifest.recordLimits history
  intact : shape.Intact blake3 manifest d
  start : shape.start ≠ none
  contents : ∀ entry ∈ shape.segments [], d[FileName.segment entry.1]? =
    some (.synced (Segment.header blake3 manifest.databaseUuid entry.1 ++ entry.2))
  less : shape.active < first
  there : .segment first ∈ d
  names : ∀ start ∈ shape.start, ∀ other, start ≤ other → .segment other ∈ d →
    other ∈ shape.firsts ∨ first ≤ other

/-- Only the segments and the snapshots matter. -/
theorem Shape.Behind.congr {d' : Directory} (h : shape.Behind blake3 manifest history first d)
    (hsegments : ∀ other, d'[FileName.segment other]? = d[FileName.segment other]?)
    (hsnapshots : ∀ watermark, d'[FileName.snapshot watermark]? =
      d[FileName.snapshot watermark]?) :
    shape.Behind blake3 manifest history first d' where
  of := h.of
  intact := by
    refine ⟨fun other file hfile => ?_, fun watermark hmem => ?_, fun watermark hselected => ?_⟩
    · rw [hsegments] at hfile
      exact h.intact.headers other file hfile
    · rw [OrderedMap.mem_iff_lookup, hsnapshots] at hmem
      exact h.intact.latest watermark (OrderedMap.mem_iff_lookup.mpr hmem)
    · rw [hsnapshots]
      exact h.intact.snapshot watermark hselected
  start := h.start
  contents := by
    intro entry hentry
    rw [hsegments]
    exact h.contents entry hentry
  less := h.less
  there := by
    rw [OrderedMap.mem_iff_lookup, hsegments]
    exact OrderedMap.mem_iff_lookup.mp h.there
  names := by
    intro start hstart other hle hmem
    rw [OrderedMap.mem_iff_lookup, hsegments] at hmem
    exact h.names start hstart other hle (OrderedMap.mem_iff_lookup.mpr hmem)

/-- A file under a temporary name does not matter. -/
theorem Shape.Behind.erase_temp (h : shape.Behind blake3 manifest history first d)
    {name : FileName} (hsegment : ∀ other, name ≠ .segment other)
    (hsnapshot : ∀ watermark, name ≠ .snapshot watermark) :
    shape.Behind blake3 manifest history first (d.erase name) :=
  h.congr (fun other => OrderedMap.lookup_erase_of_ne d (hsegment other))
    fun watermark => OrderedMap.lookup_erase_of_ne d (hsnapshot watermark)

/-- Such a file may be written. -/
theorem Shape.Behind.insert_temp (h : shape.Behind blake3 manifest history first d)
    {name : FileName} (file : File) (hsegment : ∀ other, name ≠ .segment other)
    (hsnapshot : ∀ watermark, name ≠ .snapshot watermark) :
    shape.Behind blake3 manifest history first (d.insert name file) :=
  h.congr (fun other => OrderedMap.lookup_insert_of_ne d (hsegment other) file)
    fun watermark => OrderedMap.lookup_insert_of_ne d (hsnapshot watermark) file

/-- A segment further behind may be written. -/
theorem Shape.Behind.insert_further (h : shape.Behind blake3 manifest history first d)
    {other : RecordSequence} (hless : first < other) (bytes : List UInt8) :
    shape.Behind blake3 manifest history first (d.insert (.segment other)
      (.synced (Segment.header blake3 manifest.databaseUuid other ++ bytes))) where
  of := h.of
  intact := h.intact.insert_segment other bytes
  start := h.start
  contents := by
    intro entry hentry
    obtain ⟨start, hstart⟩ := Option.ne_none_iff_exists'.mp h.start
    have hfirsts : entry.1 ∈ shape.firsts := by
      rw [← shape.map_segments []]
      exact List.mem_map_of_mem hentry
    have hbefore : entry.1 ≠ other := ((h.of.le_active hstart hfirsts).trans_lt
      (h.less.trans hless)).ne
    rw [OrderedMap.lookup_insert_of_ne d fun heq => hbefore (FileName.segment.inj heq).symm]
    exact h.contents entry hentry
  less := h.less
  there := OrderedMap.mem_insert_iff.mpr (.inr h.there)
  names := by
    intro start hstart another hle hmem
    rcases OrderedMap.mem_insert_iff.mp hmem with heq | hmem
    · exact .inr (FileName.segment.inj heq ▸ hless.le)
    · exact h.names start hstart another hle hmem

/-- Records may be written to the active segment of the history. -/
theorem Shape.Behind.extend (h : shape.Behind blake3 manifest history first d)
    (hlogged : Logged blake3 manifest.recordLimits shape.next items bytes next) :
    (shape.extended bytes next).Behind blake3 manifest (history ++ items) first
      (d.insert (.segment shape.active) (.synced (Segment.header blake3 manifest.databaseUuid
        shape.active ++ (shape.records ++ bytes)))) where
  of := h.of.extend h.start hlogged
  intact := by
    have hintact : (shape.extended bytes next).Intact blake3 manifest d :=
      ⟨h.intact.headers, h.intact.latest, h.intact.snapshot⟩
    exact hintact.insert_segment _ _
  start := h.start
  contents := by
    intro entry hentry
    rw [Shape.segments, List.mem_append, List.mem_singleton] at hentry
    rcases hentry with hentry | rfl
    · obtain ⟨start, hstart⟩ := Option.ne_none_iff_exists'.mp h.start
      have hsorted := h.of.sorted hstart
      rw [Shape.firsts, List.pairwise_append] at hsorted
      have hbefore := hsorted.2.2 entry.1 (List.mem_map_of_mem hentry) _
        (List.mem_singleton_self _)
      have hname : FileName.segment shape.active ≠ .segment entry.1 :=
        fun heq => hbefore.ne (FileName.segment.inj heq).symm
      rw [OrderedMap.lookup_insert_of_ne d hname]
      exact h.contents entry (List.mem_append_left _ hentry)
    · show (d.insert (.segment shape.active) _)[FileName.segment shape.active]? = _
      rw [OrderedMap.lookup_insert_self]
      exact congrArg (fun records => some (File.synced
        (Segment.header blake3 manifest.databaseUuid shape.active ++ records)))
          (List.append_nil _).symm
  less := h.less
  there := OrderedMap.mem_insert_iff.mpr (.inr h.there)
  names := by
    intro start hstart other hle hmem
    rcases OrderedMap.mem_insert_iff.mp hmem with heq | hmem
    · rw [← FileName.segment.inj heq]
      exact .inl (List.mem_append_right _ (List.mem_singleton_self _))
    · exact h.names start hstart other hle hmem

/-- Behind the segments of a stranded log there is the new one. -/
theorem Shape.In.behind (h : (shape.rotated first).In blake3 manifest [] d)
    (hof : shape.Of blake3 manifest.recordLimits history) {start : RecordSequence}
    (hstart : shape.start = some start) (hless : shape.active < first) :
    shape.Behind blake3 manifest history first d where
  of := hof
  intact := ⟨h.intact.headers, h.intact.latest, h.intact.snapshot⟩
  start := hstart ▸ Option.some_ne_none start
  contents := fun entry hentry =>
    h.contents start hstart entry (List.mem_append_left _ (by
      simpa [Shape.segments, Shape.rotated] using hentry))
  less := hless
  there := h.active
  names := by
    intro start' hstart' other hle hmem
    have hfirsts : (shape.rotated first).firsts = shape.firsts ++ [first] := by
      simp [Shape.firsts, Shape.rotated]
    have hfound := h.names start' hstart' other hle hmem
    rw [hfirsts, List.mem_append, List.mem_singleton] at hfound
    exact hfound.imp_right fun heq => heq.ge

variable (blake3) in
/-- Behind the segments of a history there is one that does not go on with the next record. -/
structure Shape.Blocked (manifest : Manifest) (history : List TimestampedTransition) (shape : Shape)
    (first : RecordSequence) (d : Directory) : Prop where
  behind : shape.Behind blake3 manifest history first d
  next : shape.next ≠ some first

/-- The segment that blocks the log is found behind the others. -/
theorem Shape.Behind.sorted_firstFrom (h : shape.Behind blake3 manifest history first d)
    {start : RecordSequence} (hstart : shape.start = some start) (listing : Listing) :
    ∃ others, ((d.list listing FileName.inWal).filterMap
      (FileName.firstFrom start.get)).insertionSort (· ≤ ·) =
        shape.sealedSegments.map Prod.fst ++ shape.active :: first :: others := by
  generalize hfound : ((d.list listing FileName.inWal).filterMap
    (FileName.firstFrom start.get)).insertionSort (· ≤ ·) = found
  have hmem (other : RecordSequence) :
      other ∈ found ↔ FileName.segment other ∈ d ∧ start ≤ other := by
    rw [← hfound, (List.perm_insertionSort (· ≤ ·) _).mem_iff, mem_firstFrom]
    rfl
  have hstrict : found.Pairwise (· < ·) := by
    have hnodup := (List.perm_insertionSort (· ≤ ·) _).nodup_iff.mpr
      (nodup_firstFrom listing d start.get)
    have hsorted := List.pairwise_insertionSort (· ≤ ·)
      ((d.list listing FileName.inWal).filterMap (FileName.firstFrom start.get))
    rw [hfound] at hnodup hsorted
    exact (hsorted.and hnodup).imp fun {a b} h => lt_of_le_of_ne h.1 h.2
  have hactive : shape.active ∈ shape.firsts :=
    List.mem_append_right _ (List.mem_singleton_self _)
  have hbelow : ∀ other ∈ shape.firsts, other ≤ shape.active :=
    fun other hother => h.of.le_active hstart hother
  have hfirst : start ≤ first := (h.of.start_le hstart hactive).trans h.less.le
  refine ⟨found.filter (first < ·), ?_⟩
  have hsplit : shape.sealedSegments.map Prod.fst ++ shape.active :: first ::
      found.filter (first < ·) = shape.firsts ++ first :: found.filter (first < ·) := by
    rw [Shape.firsts, List.append_assoc, List.singleton_append]
  rw [hsplit]
  refine List.Pairwise.eq_of_mem_iff hstrict ?_ fun other => ?_
  · rw [List.pairwise_append, List.pairwise_cons]
    refine ⟨h.of.sorted hstart, ⟨fun other hother => ?_, hstrict.filter _⟩, ?_⟩
    · exact of_decide_eq_true (List.mem_filter.mp hother).2
    · intro other hother behind hbehind
      have hless := (hbelow other hother).trans_lt h.less
      rcases List.mem_cons.mp hbehind with rfl | hbehind
      · exact hless
      · exact hless.trans (of_decide_eq_true (List.mem_filter.mp hbehind).2)
  · rw [List.mem_append, List.mem_cons, List.mem_filter, hmem]
    constructor
    · rintro ⟨hthere, hle⟩
      rcases h.names start hstart other hle hthere with hother | hother
      · exact .inl hother
      · rcases hother.eq_or_lt with rfl | hless
        · exact .inr (.inl rfl)
        · exact .inr (.inr ⟨⟨hthere, hle⟩, decide_eq_true hless⟩)
    · rintro (hother | rfl | hother)
      · refine ⟨?_, h.of.start_le hstart hother⟩
        rw [← shape.map_segments []] at hother
        obtain ⟨entry, hentry, rfl⟩ := List.mem_map.mp hother
        exact OrderedMap.mem_iff_lookup.mpr ⟨_, h.contents entry hentry⟩
      · exact ⟨h.there, hfirst⟩
      · exact hother.1

/-- Complete segments are recovered before the others. -/
theorem spec_recoverSegments_before {limits : RecordLimits} {C : Directory → Prop} {uuid : U128}
    {start active : RecordSequence} {segments : List (RecordSequence × List UInt8)}
    {rest : List TimestampedTransition} {records : List UInt8} {e e' : Engine}
    (hsealed : Sealed blake3 limits start segments items active)
    (hlogged : Logged blake3 limits (some active) rest records next)
    (hitems : ∀ item ∈ items ++ rest, item.Recordable)
    (hinstall : Engine.installAll blake3 e (items ++ rest) = .ok e')
    (hcontents : ∀ entry ∈ segments ++ [(active, records)],
      d[FileName.segment entry.1]? = some (.synced (Segment.header blake3 uuid entry.1 ++ entry.2)))
    (hC : faulty → ∀ d', d' = d → C d') {others : List RecordSequence}
    {Q : EngineRecovery × Nat → Directory → Prop}
    (hothers : Faults.Spec faulty (fun d' => d' = d)
      (FileDatabase.recoverSegments blake3 limits others ⟨e', next⟩ records.length) Q C)
    (offset : Nat) :
    Faults.Spec faulty (fun d' => d' = d)
      (FileDatabase.recoverSegments blake3 limits (segments.map Prod.fst ++ active :: others)
        ⟨e, some start⟩ offset) Q C := by
  induction hsealed generalizing e offset with
  | nil start =>
    have hactive := spec_recoverSegment_sealed hlogged hitems hinstall
      (hcontents _ (List.mem_singleton_self _)) hC (decide (others ≠ []))
    show Faults.Spec faulty _ (FileDatabase.recoverSegment blake3 limits start
      (decide (others ≠ [])) ⟨e, some start⟩ >>= fun r =>
        FileDatabase.recoverSegments blake3 limits others r.1 r.2) _ C
    exact Faults.Spec.reads hactive hothers
  | @cons first second last items more bytes segments logged less sealedOthers ih =>
    rw [List.append_assoc, Engine.installAll_append] at hinstall
    obtain ⟨e₁, hfirst, hinstall⟩ := Except.bind_eq_ok.mp hinstall
    have hrest := ih hlogged (fun item hitem => hitems item (by
      rw [List.append_assoc]
      exact List.mem_append_right _ hitem)) hinstall
      (fun entry hentry => hcontents entry (List.mem_cons_of_mem _ hentry)) bytes.length
    have hsegment := spec_recoverSegment_sealed logged
      (fun item hitem => hitems item (List.mem_append_left _ (List.mem_append_left _ hitem))) hfirst
      (hcontents _ List.mem_cons_self) hC
      (decide (segments.map Prod.fst ++ last :: others ≠ []))
    show Faults.Spec faulty _ (FileDatabase.recoverSegment blake3 limits first
      (decide (segments.map Prod.fst ++ last :: others ≠ [])) ⟨e, some first⟩ >>= fun r =>
        FileDatabase.recoverSegments blake3 limits (segments.map Prod.fst ++ last :: others)
          r.1 r.2) _ C
    exact Faults.Spec.reads hsegment hrest

/-- Files whose log is blocked are never opened. -/
theorem Shape.Blocked.spec_openDatabase {e : Engine} (hrecorded : Recorded blake3 history e)
    (listing : Listing) (options : FileDatabaseOptions) (hoptions : options.Matches manifest) :
    Faults.Spec faulty (shape.Blocked blake3 manifest history first)
      (FileDatabase.openDatabase blake3 listing manifest options) (fun _ _ => False)
      (fun _ => True) := by
  rw [FileDatabase.openDatabase_eq]
  refine EStateM.Spec.andThen (EStateM.spec_ofExcept_ok hoptions.valid fun _ h => h) ?_
  refine EStateM.Spec.andThen (EStateM.spec_ensure hoptions.recordLimits.symm) ?_
  refine EStateM.Spec.andThen (EStateM.spec_ensure hoptions.snapshotLimits.symm) ?_
  refine EStateM.Spec.andThen (spec_cleanupSegmentTemps ?_ fun _ _ _ => trivial) ?_
  · exact fun d other h => ⟨h.behind.erase_temp nofun nofun, h.next⟩
  refine EStateM.Spec.bind (spec_loadLatestSnapshot (fun d hd => hd.1.behind.intact) ?_
    fun _ _ _ => trivial) fun loaded => ?_
  · rintro d ⟨h, htemps⟩
    exact ⟨⟨h.behind.erase_temp nofun nofun, h.next⟩,
      fun other hmem => htemps other (Std.ExtTreeMap.mem_of_mem_erase hmem)⟩
  refine Faults.Spec.fact ?_
  rintro rfl
  refine Faults.Spec.known fun d hd => ?_
  obtain ⟨⟨h, hnext⟩, htemps⟩ := hd
  obtain ⟨start, hstart⟩ := Option.ne_none_iff_exists'.mp h.start
  obtain ⟨hexhausted, hminimum, hbegin⟩ := h.of.loaded_start hstart
  have hactive : shape.active ∈ shape.firsts :=
    List.mem_append_right _ (List.mem_singleton_self _)
  have hsome : ∃ other, FileName.segment other ∈ d ∧
      FileDatabase.minimumSequence shape.loaded ≤ other.get := by
    refine ⟨first, h.there, ?_⟩
    rw [hminimum]
    exact (h.of.start_le hstart hactive).trans h.less.le
  unfold FileDatabase.openBehind
  refine Faults.Spec.reads (spec_readSegments h.intact htemps hsome fun _ _ _ => trivial) ?_
  dsimp only
  obtain ⟨others, hfound⟩ := h.sorted_firstFrom hstart listing
  rw [hexhausted, hminimum, hbegin, hfound]
  refine EStateM.Spec.ite (fun h => absurd h Bool.false_ne_true) fun _ => ?_
  obtain ⟨items, rest, hsealed, hlogged, hdrop⟩ := h.of.logged start hstart
  have hreplay := h.of.replay hrecorded.is
  rw [hdrop] at hreplay
  have hitems : ∀ item ∈ items ++ rest, item.Recordable := by
    intro item hitem
    rw [← hdrop] at hitem
    exact hrecorded.recordable item (List.mem_of_mem_drop hitem)
  have hcontents := h.contents
  rw [Shape.segments, List.append_nil] at hcontents
  -- the segment that blocks the log is not the one that is expected
  have hblocked : Faults.Spec faulty (fun d' => d' = d)
      (FileDatabase.recoverSegments blake3 manifest.recordLimits (first :: others)
        ⟨e.unindexed, shape.next⟩ shape.records.length) (fun _ _ => False) (fun _ => True) := by
    unfold FileDatabase.recoverSegments FileDatabase.recoverSegment
    refine EStateM.Spec.bind (R := fun _ _ => False)
      (EStateM.Spec.bind (R := fun _ _ => False) (EStateM.spec_ofExcept ?_ ?_) ?_) ?_
    · intro u hu
      exact absurd (Except.ensure_eq_ok.mp hu) hnext
    · exact fun _ _ w hw => hw.imp fun _ => trivial
    · exact fun _ _ hfalse => hfalse.elim
    · exact fun _ _ hfalse => hfalse.elim
  rw [← hoptions.recordLimits] at hsealed hlogged hblocked
  refine EStateM.Spec.bind (spec_recoverSegments_before hsealed hlogged hitems hreplay hcontents
    (fun _ _ _ => trivial) hblocked 0) fun r => ?_
  exact fun _ hfalse => hfalse.2.elim

/-- Files whose log is blocked are not opened, though no call fails. -/
theorem Shape.Blocked.not_opened {d : Directory} (h : shape.Blocked blake3 manifest history first d)
    {e : Engine} (hrecorded : Recorded blake3 history e) (listing : Listing)
    {options : FileDatabaseOptions} (hoptions : options.Matches manifest)
    {db : FileDatabase blake3} {files : FileSystem} :
    FileDatabase.openDatabase blake3 listing manifest options ⟨d, none⟩ ≠ .ok db files := by
  intro hopen
  have hnever : Faults.Spec False (shape.Blocked blake3 manifest history first)
      (FileDatabase.openDatabase blake3 listing manifest options) (fun _ _ => False)
      (fun _ => True) := Shape.Blocked.spec_openDatabase hrecorded listing options hoptions
  obtain ⟨db', w, -, -, hfalse⟩ | ⟨error, w, hfails, -⟩ := hnever ⟨d, none⟩ ⟨fun hne => hne rfl, h⟩
  · exact hfalse.elim
  · rw [hopen] at hfails
    cases hfails

/-! ## Groups behind a failed rotation -/

/-- The log when a batch has been written to its active segment. -/
def SegmentedWal.wrote (wal : SegmentedWal blake3) (length : Nat) (next : Option RecordSequence) :
    SegmentedWal blake3 :=
  { wal with activeLen := length, activeHasRecords := true, expectedSequence := next }

/-- A batch is written to an active segment of which the content is known. -/
theorem spec_writeOnto {wal : SegmentedWal blake3} {K : Directory → Prop} {old : List UInt8}
    (length : Nat) (hfile : ∀ d, K d → d[FileName.segment wal.active]? = some (.synced old)) :
    EStateM.Spec (OnFiles wal (Upto False K))
      (do
        let wal ← get
        SegmentedWal.onFiles "append" (FileCalls.write (.segment wal.active) bytes)
        modify fun wal => { wal with
          activeLen := length, activeHasRecords := true, expectedSequence := next })
      (fun _ => OnFiles (wal.wrote length next) (Upto False fun d' =>
        ∃ d, K d ∧ d' = d.insert (.segment wal.active) ⟨old, bytes⟩))
      (fun _ => True) := by
  refine EStateM.Spec.bind spec_getWal fun wal' => EStateM.Spec.fact ?_
  rintro ⟨files, rfl⟩
  have hwrite : Faults.Spec False K (FileCalls.write (.segment wal.active) bytes)
      (fun _ d' => ∃ d, K d ∧ d' = d.insert (.segment wal.active) ⟨old, bytes⟩)
      (fun _ => True) := by
    refine FileCalls.spec_change ?_ ?_ nofun nofun
    · exact fun d hd => OrderedMap.mem_iff_lookup.mpr ⟨_, hfile d hd⟩
    · intro d file hd hlookup
      rw [hfile d hd] at hlookup
      obtain rfl := Option.some.inj hlookup
      exact ⟨d, hd, rfl⟩
  refine EStateM.Spec.andThen ((spec_onFiles wal hwrite "append").weaken (fun _ h => h)
    (fun _ _ h => h) fun _ _ => trivial) ?_
  refine EStateM.spec_modify ?_
  rintro s ⟨⟨files, rfl⟩, hfiles⟩
  exact ⟨⟨files, rfl⟩, hfiles⟩

/-- A batch is persisted behind the content of the active segment, or of the one that a rotation makes
active, whatever the other files are. -/
theorem spec_persist_onto {limits : RecordLimits} {wal wal' : SegmentedWal blake3}
    {K K' : Directory → Prop} {old : List UInt8}
    (hlogged : Logged blake3 limits (some first) items bytes next) (hitems : items ≠ [])
    (hexpected : wal.expectedSequence = some first) (hlimits : wal.recordLimits = limits)
    (hrotates : wal.rotates bytes = true → EStateM.Spec (OnFiles wal (Upto False K))
      (SegmentedWal.rotate first) (fun _ => OnFiles wal' (Upto False K')) (fun _ => True))
    (hstays : wal.rotates bytes = false → wal' = wal ∧ ∀ d, K d → K' d)
    (hfile : ∀ d, K' d → d[FileName.segment wal'.active]? = some (.synced old)) :
    EStateM.Spec (OnFiles wal (Upto False K)) (persist bytes .sync)
      (fun _ s => ∃ length, OnFiles (wal'.wrote length next) (Upto False fun d' =>
        ∃ d, K' d ∧ d' = d.insert (.segment wal'.active) (.synced (old ++ bytes))) s)
      (fun _ => True) := by
  have happend : EStateM.Spec (OnFiles wal (Upto False K)) (SegmentedWal.append bytes)
      (fun _ s => ∃ length, OnFiles (wal'.wrote length next) (Upto False fun d' =>
        ∃ d, K' d ∧ d' = d.insert (.segment wal'.active) ⟨old, bytes⟩) s)
      (fun _ => True) := by
    unfold SegmentedWal.append
    refine EStateM.Spec.bind spec_getWal fun wal₁ => EStateM.Spec.fact ?_
    rintro ⟨files, rfl⟩
    refine EStateM.Spec.value (inspectBatch_logged hlogged hitems hexpected hlimits) ?_
    refine EStateM.Spec.andThen (EStateM.spec_ofExcept (fun _ _ _ h => h) fun _ _ _ _ => trivial) ?_
    refine EStateM.Spec.andThen (EStateM.spec_ofExcept (fun _ _ _ h => h) fun _ _ _ _ => trivial) ?_
    refine EStateM.Spec.ite (fun hcondition => ?_) fun hcondition => ?_
    · refine EStateM.Spec.andThen (hrotates hcondition) ?_
      exact (spec_writeOnto _ hfile).weaken (fun _ h => h) (fun _ _ h => ⟨_, h⟩) fun _ h => h
    · have hnot : ¬wal.rotates bytes = true := hcondition
      obtain ⟨rfl, himp⟩ := hstays (Bool.eq_false_iff.mpr hnot)
      exact (spec_writeOnto _ hfile).weaken (fun _ h => h.imp fun h => h.imp (himp _))
        (fun _ _ h => ⟨_, h⟩) fun _ h => h
  refine EStateM.Spec.andThen happend ?_
  refine EStateM.Spec.bind (EStateM.spec_get (R := fun wal₁ s => wal₁ = s ∧
    ∃ length, OnFiles (wal'.wrote length next) (Upto False fun d' =>
      ∃ d, K' d ∧ d' = d.insert (.segment wal'.active) ⟨old, bytes⟩) s)
        fun s h => ⟨rfl, h⟩) fun wal₁ => ?_
  refine EStateM.Spec.states ?_
  rintro s ⟨rfl, length, ⟨files, rfl⟩, hfiles⟩
  have hsync : Faults.Spec False
      (fun d' => ∃ d, K' d ∧ d' = d.insert (.segment wal'.active) ⟨old, bytes⟩)
      (FileCalls.sync (.segment wal'.active))
      (fun _ d' => ∃ d, K' d ∧ d' = d.insert (.segment wal'.active) (.synced (old ++ bytes)))
      (fun _ => True) := by
    refine FileCalls.spec_change ?_ ?_ nofun nofun
    · rintro d' ⟨d, -, rfl⟩
      exact OrderedMap.mem_insert_iff.mpr (.inl rfl)
    · rintro d' file ⟨d, hd, rfl⟩ hlookup
      rw [OrderedMap.lookup_insert_self] at hlookup
      obtain rfl := Option.some.inj hlookup
      rw [OrderedMap.insert_insert]
      exact ⟨d, hd, rfl⟩
  refine (spec_onFiles (wal'.wrote length next) hsync "sync").weaken ?_ (fun _ _ h => ⟨_, h⟩)
    fun _ _ => trivial
  rintro s rfl
  exact ⟨⟨files, rfl⟩, hfiles⟩

variable {commands : List (Command × Timestamp)} {prepared : PreparedBatch}

/-- A group that grows out of the old segment replaces the stranded one, and the log goes on. -/
theorem Shape.Stranded.rotates {db : FileDatabase blake3}
    (h : shape.Stranded faulty manifest history db) (hfault : db.backend.files.fault = none)
    (hrecorded : Recorded blake3 history db.engine)
    (hready : Ready blake3 db commands prepared bytes next) (hrestores : RestoresNone db commands)
    (hrotates : db.backend.rotates bytes = true) {backend : SegmentedWal blake3}
    (hpersist : PromiseDb.persist bytes db.durability db.backend = .ok ⟨⟩ backend) :
    Live manifest (history ++ prepared.durableItems)
      ({ db with
        backend := backend
        engine := (Engine.publishBatch db.engine prepared).2
        nextRecordSequence := next } : FileDatabase blake3) ∧
      db.backend.active < backend.active := by
  obtain ⟨first, hnext, -, hin⟩ := h.files
  have hless := h.of.active_lt hnext h.full
  have hstart := h.of.start_ne_none hnext
  obtain ⟨huuid, hrecord, hwal, hsnapshot, hdurability, hnext', hexpected⟩ := h.handled
  have hhandled : (shape.rotated first).Handled manifest db :=
    ⟨huuid, hrecord, hwal, hsnapshot, hdurability, hnext'.trans hnext, hexpected.trans hnext⟩
  have htarget : db.backend.Target manifest (shape.rotated first) (shape.rotated first) first
      bytes := by
    refine ⟨hstart, fun hstays => ?_, fun _ => ⟨rfl, rfl, fun length d hd => ?_⟩⟩
    · rw [hrotates] at hstays
      cases hstays
    · -- the stranded segment is written once more
      have hlookup := hd.lookup_active hstart
      rw [Shape.rotated, List.append_nil] at hlookup
      rwa [OrderedMap.insert_eq_self hlookup]
  obtain ⟨hlive, hactive⟩ := hhandled.applied hin hfault hrecorded hready hrestores
    (hnext'.trans hnext) htarget rfl (h.of.rotate hnext hless) hpersist
  refine ⟨hlive, ?_⟩
  rw [hactive, h.attached.active]
  exact hless

/-! ## Logs past a segment that does not follow -/

/-- The log has gone on past a segment that does not go on with it: in the segment before, or in one
that was created later. -/
structure Jammed (manifest : Manifest) (db : FileDatabase blake3) : Prop where
  fault : db.backend.files.fault = none
  configured : db.Configured manifest
  blocked : ∃ history shape first,
    Shape.Blocked blake3 manifest history shape first db.backend.files.state ∧
    (∀ next ∈ db.nextRecordSequence, first < next) ∧
    ((db.backend.active = shape.active ∧ shape.next = db.nextRecordSequence ∧
        Recorded blake3 history db.engine) ∨
      (first < db.backend.active ∧ .segment db.backend.active ∈ db.backend.files.state ∧
        ∃ e, Recorded blake3 history e))

/-- The files of such a log are never opened. -/
theorem Jammed.not_opened (h : Jammed manifest db) (listing : Listing)
    {options : FileDatabaseOptions} (hoptions : options.Matches manifest)
    {db' : FileDatabase blake3} {files : FileSystem} :
    FileDatabase.openDatabase blake3 listing manifest options
      ⟨db.backend.files.state, none⟩ ≠ .ok db' files := by
  obtain ⟨history, shape, first, hblocked, -, hwhere⟩ := h.blocked
  obtain ⟨e, hrecorded⟩ : ∃ e, Recorded blake3 history e := by
    rcases hwhere with ⟨-, -, hrecorded⟩ | ⟨-, -, hrecorded⟩
    · exact ⟨_, hrecorded⟩
    · exact hrecorded
  exact hblocked.not_opened hrecorded listing hoptions

/-- A group that stays in the old segment jams the log. -/
theorem Shape.Stranded.stays {db : FileDatabase blake3}
    (h : shape.Stranded faulty manifest history db) (hfault : db.backend.files.fault = none)
    (hrecorded : Recorded blake3 history db.engine)
    (hready : Ready blake3 db commands prepared bytes next) (hrestores : RestoresNone db commands)
    (hstays : db.backend.rotates bytes = false) {backend : SegmentedWal blake3}
    (hpersist : PromiseDb.persist bytes db.durability db.backend = .ok ⟨⟩ backend) :
    Jammed manifest
      ({ db with
        backend := backend
        engine := (Engine.publishBatch db.engine prepared).2
        nextRecordSequence := next } : FileDatabase blake3) ∧
      backend.active = db.backend.active := by
  obtain ⟨first, hnext, -, hin⟩ := h.files
  have hless := h.of.active_lt hnext h.full
  have hstart := h.of.start_ne_none hnext
  obtain ⟨start, hsome⟩ := Option.ne_none_iff_exists'.mp hstart
  obtain ⟨huuid, hrecord, hwal, hsnapshot, hdurability, hnext', hexpected⟩ := h.handled
  have hlogged := hready.logged
  rw [hnext', hnext, hrecord] at hlogged
  have hbytes : bytes ≠ [] := (hlogged.nonempty hready.durable).2
  have hfile : db.backend.files.state[FileName.segment db.backend.active]? = some
      (.synced (Segment.header blake3 manifest.databaseUuid shape.active ++ shape.records)) := by
    rw [h.attached.active]
    refine hin.contents start hsome (shape.active, shape.records) ?_
    exact List.mem_append_left _ (List.mem_append_right _ (List.mem_singleton_self _))
  have hspec := spec_persist_onto (K := fun d => d = db.backend.files.state) hlogged hready.durable
    (hexpected.trans hnext) hwal (fun hcontra => by rw [hstays] at hcontra; cases hcontra)
    (fun _ => ⟨rfl, fun _ h => h⟩) (fun d hd => hd ▸ hfile)
  rw [hdurability] at hpersist
  obtain ⟨length, ⟨files, rfl⟩, hpast, d, rfl, hfiles⟩ :=
    hspec.of_ok hpersist ⟨⟨db.backend.files, rfl⟩, fun hne => hne hfault, rfl⟩
  have hlater : ∀ n ∈ next, first < n := by
    rintro n rfl
    exact hlogged.lt hbytes
  have hbehind := (hin.behind h.of hsome hless).extend (hnext ▸ hlogged)
  refine ⟨⟨not_ne_iff.mp hpast, ⟨huuid, hrecord, hwal, hdurability, rfl⟩,
    history ++ prepared.durableItems, shape.extended bytes next, first,
    ⟨?_, fun hcontra => lt_irrefl _ (hlater first hcontra)⟩, hlater,
    .inl ⟨h.attached.active, rfl, hrecorded.published hready.prepares hrestores⟩⟩, rfl⟩
  rw [← List.append_assoc, ← h.attached.active] at hbehind
  rw [hfiles]
  rwa [← h.attached.active]

/-- What the active segment of such a log holds. -/
theorem Jammed.exists_old {db : FileDatabase blake3} (h : Jammed manifest db) :
    ∃ old, db.backend.files.state[FileName.segment db.backend.active]? =
      some (.synced (Segment.header blake3 manifest.databaseUuid db.backend.active ++ old)) := by
  obtain ⟨history, shape, blocker, ⟨hbehind, -⟩, -, hwhere⟩ := h.blocked
  rcases hwhere with ⟨hactive, -, -⟩ | ⟨-, hmem, -⟩
  · rw [hactive]
    exact ⟨_, hbehind.contents _ (List.mem_append_right _ (List.mem_singleton_self _))⟩
  · obtain ⟨file, hfile⟩ := OrderedMap.mem_iff_lookup.mp hmem
    obtain ⟨old, rfl⟩ := hbehind.intact.headers _ file hfile
    exact ⟨old, hfile⟩

/-- A group that stays in the active segment does not free a jammed log. -/
theorem Jammed.stays {db : FileDatabase blake3} (h : Jammed manifest db)
    (hready : Ready blake3 db commands prepared bytes next) (hrestores : RestoresNone db commands)
    (hstays : db.backend.rotates bytes = false) {backend : SegmentedWal blake3}
    (hpersist : PromiseDb.persist bytes db.durability db.backend = .ok ⟨⟩ backend) :
    Jammed manifest
      ({ db with
        backend := backend
        engine := (Engine.publishBatch db.engine prepared).2
        nextRecordSequence := next } : FileDatabase blake3) := by
  obtain ⟨old, hold⟩ := h.exists_old
  obtain ⟨history, shape, blocker, ⟨hbehind, hnext⟩, hlater, hwhere⟩ := h.blocked
  obtain ⟨huuid, hrecord, hwal, hdurability, hexpected⟩ := h.configured
  have hlogged := hready.logged
  obtain ⟨⟨first, hfirst⟩, hbytes⟩ := hlogged.nonempty hready.durable
  rw [hrecord] at hlogged
  have hpast : ∀ n ∈ next, blocker < n := by
    rintro n rfl
    rw [hfirst] at hlogged
    exact (hlater first hfirst).trans (hlogged.lt hbytes)
  have hspec := spec_persist_onto (K := fun d => d = db.backend.files.state) (hfirst ▸ hlogged)
    hready.durable (hexpected.trans hfirst) hwal
    (fun hcontra => by rw [hstays] at hcontra; cases hcontra)
    (fun _ => ⟨rfl, fun _ h => h⟩) (fun d hd => hd ▸ hold)
  rw [hdurability] at hpersist
  obtain ⟨length, ⟨files, rfl⟩, hfault, d, rfl, hfiles⟩ :=
    hspec.of_ok hpersist ⟨⟨db.backend.files, rfl⟩, fun hne => hne h.fault, rfl⟩
  refine ⟨not_ne_iff.mp hfault, ⟨huuid, hrecord, hwal, hdurability, rfl⟩, ?_⟩
  rw [List.append_assoc] at hfiles
  rcases hwhere with ⟨hactive, hsame, hrecorded⟩ | ⟨hbefore, -, hrecorded⟩
  · -- the history goes on in the segment before
    have hrecords : old = shape.records := by
      have hcontents := hbehind.contents _ (List.mem_append_right _ (List.mem_singleton_self _))
      rw [hactive, hcontents, List.append_nil] at hold
      have hbytes' := congrArg File.stable (Option.some.inj hold)
      exact (List.append_cancel_left hbytes').symm
    refine ⟨_, shape.extended bytes next, blocker,
      ⟨?_, fun hcontra => lt_irrefl _ (hpast blocker hcontra)⟩, hpast,
      .inl ⟨hactive, rfl, hrecorded.published hready.prepares hrestores⟩⟩
    rw [hfiles, hactive, hrecords]
    exact hbehind.extend (hsame ▸ hlogged)
  · refine ⟨history, shape, blocker, ⟨?_, hnext⟩, hpast, .inr ⟨hbefore, ?_, hrecorded⟩⟩
    · rw [hfiles]
      exact hbehind.insert_further hbefore (old ++ bytes)
    · rw [hfiles]
      exact OrderedMap.mem_insert_iff.mpr (.inl rfl)

/-- Neither does a group that goes to a new segment. -/
theorem Jammed.rotates {db : FileDatabase blake3} (h : Jammed manifest db)
    (hready : Ready blake3 db commands prepared bytes next)
    (hrotates : db.backend.rotates bytes = true) {backend : SegmentedWal blake3}
    (hpersist : PromiseDb.persist bytes db.durability db.backend = .ok ⟨⟩ backend) :
    Jammed manifest
      ({ db with
        backend := backend
        engine := (Engine.publishBatch db.engine prepared).2
        nextRecordSequence := next } : FileDatabase blake3) := by
  obtain ⟨history, shape, blocker, ⟨hbehind, hnext⟩, hlater, hwhere⟩ := h.blocked
  obtain ⟨huuid, hrecord, hwal, hdurability, hexpected⟩ := h.configured
  have hlogged := hready.logged
  obtain ⟨⟨first, hfirst⟩, hbytes⟩ := hlogged.nonempty hready.durable
  rw [hrecord, hfirst] at hlogged
  have hless : blocker < first := hlater first hfirst
  have hrotate : EStateM.Spec (OnFiles db.backend (Upto False
      (shape.Behind blake3 manifest history blocker))) (SegmentedWal.rotate first)
      (fun _ => OnFiles ({ db.backend with
        active := first, activeLen := Segment.headerLen, activeHasRecords := false } :
          SegmentedWal blake3)
        (Upto False fun d => shape.Behind blake3 manifest history blocker d ∧
          d[FileName.segment first]? =
            some (.synced (Segment.header blake3 manifest.databaseUuid first))))
      (fun _ => True) := by
    refine (spec_rotate huuid (C := fun _ => True)
      (fun d file hd => hd.insert_temp file nofun nofun)
      (fun d hd => hd.erase_temp nofun nofun) (fun d hd => ⟨?_, ?_⟩)
      (fun d hd => OrderedMap.mem_iff_lookup.mpr ⟨_, hd.2⟩) (fun _ _ => trivial)
      fun _ _ _ => trivial).weaken (fun _ h => h) (fun _ _ h => h) fun _ _ => trivial
    · have hcreated := hd.insert_further hless []
      rwa [List.append_nil] at hcreated
    · exact OrderedMap.lookup_insert_self _ _ _
  have hspec := spec_persist_onto hlogged hready.durable (hexpected.trans hfirst) hwal
    (fun _ => hrotate) (fun hcontra => by rw [hrotates] at hcontra; cases hcontra) (fun d hd => hd.2)
  rw [hdurability] at hpersist
  obtain ⟨length, ⟨files, rfl⟩, hfault, d, ⟨hd, -⟩, hfiles⟩ :=
    hspec.of_ok hpersist ⟨⟨db.backend.files, rfl⟩, fun hne => hne h.fault, hbehind⟩
  refine ⟨not_ne_iff.mp hfault, ⟨huuid, hrecord, hwal, hdurability, rfl⟩, history, shape,
    blocker, ⟨?_, hnext⟩, ?_, .inr ⟨hless, ?_, ?_⟩⟩
  · rw [hfiles]
    exact hd.insert_further hless bytes
  · rintro n rfl
    exact hless.trans (hlogged.lt hbytes)
  · rw [hfiles]
    exact OrderedMap.mem_insert_iff.mpr (.inl rfl)
  · rcases hwhere with ⟨-, -, hrecorded⟩ | ⟨-, -, hrecorded⟩
    · exact ⟨_, hrecorded⟩
    · exact hrecorded

/-! ## Failed snapshots -/

variable {db₁ db₂ : FileDatabase blake3} {responses : List CommandResponse}
  {error : FileDatabaseError} {fault : Option Faults.Fault}

/-- A rotation fails after its rename. -/
def sampleFault : Option Faults.Fault := some ⟨4, .before⟩

/-- That database after a snapshot that has failed. -/
def sampleStranded : Option (FileDatabase Engine.sampleHash) :=
  sampleUsed.map fun db => (FileDatabase.createSnapshot .sorted
    (FileDatabase.withFault db sampleFault)).finalState

end PromiseDb
