import PromiseDb.Storage.TornRecords

/-!
# Appending to the log

A group of records goes to the active segment, or to a new one if the active one would grow too long.
Wherever this is stopped, the files stand for the history with some of the records of the group.
-/

namespace PromiseDb

open Database Faults

variable {blake3 : List UInt8 → CommandHash} {faulty : Prop}

/-! ## New segments -/

/-- A segment is created under a temporary name and renamed.  The temporary name may be taken. -/
theorem spec_createSegmentAtomic {uuid : U128} {first : RecordSequence} {K K' C : Directory → Prop}
    (hinsert : ∀ d file, K d → K (d.insert (.segmentTemp first) file))
    (herase : ∀ d, K d → K (d.erase (.segmentTemp first)))
    (hrename : ∀ d, K d →
      K' (d.insert (.segment first) (.synced (Segment.header blake3 uuid first))))
    (hC : ∀ d, K d → C d) (hC' : faulty → ∀ d, K' d → C d) :
    Faults.Spec faulty K (createSegmentAtomic blake3 uuid first) (fun _ => K') C := by
  have htemp (file : File) : faulty → ∀ d : Directory,
      K d ∧ d[FileName.segmentTemp first]? = some file → C d := fun _ d h => hC d h.1
  have hthere (file : File) : ∀ d : Directory,
      K d ∧ d[FileName.segmentTemp first]? = some file → FileName.segmentTemp first ∈ d :=
    fun d h => OrderedMap.mem_iff_lookup.mpr ⟨file, h.2⟩
  unfold createSegmentAtomic
  refine EStateM.Spec.andThen (FileCalls.spec_createNew
    (Q := fun d => K d ∧ d[FileName.segmentTemp first]? = some (.synced [])) ?_
    (fun d h _ => hC d h) (fun _ => hC) (htemp _)) ?_
  · intro d hd _
    exact ⟨hinsert d _ hd, OrderedMap.lookup_insert_self _ _ _⟩
  refine EStateM.Spec.andThen (FileCalls.spec_change
    (Q := fun d => K d ∧ d[FileName.segmentTemp first]? =
      some ⟨[], Segment.header blake3 uuid first⟩) (hthere _) ?_ (htemp _) (htemp _)) ?_
  · rintro d file ⟨hd, hold⟩ hfile
    rw [hold] at hfile
    obtain rfl := Option.some.inj hfile
    exact ⟨hinsert d _ hd, OrderedMap.lookup_insert_self _ _ _⟩
  refine EStateM.Spec.andThen (FileCalls.spec_change
    (Q := fun d => K d ∧ d[FileName.segmentTemp first]? =
      some (.synced (Segment.header blake3 uuid first))) (hthere _) ?_ (htemp _) (htemp _)) ?_
  · rintro d file ⟨hd, hold⟩ hfile
    rw [hold] at hfile
    obtain rfl := Option.some.inj hfile
    exact ⟨hinsert d _ hd, OrderedMap.lookup_insert_self _ _ _⟩
  refine EStateM.Spec.andThen (FileCalls.spec_rename (Q := K') (hthere _) ?_ (htemp _) hC') ?_
  · rintro d file ⟨hd, hold⟩ hfile
    rw [hold] at hfile
    obtain rfl := Option.some.inj hfile
    exact hrename _ (herase d hd)
  exact FileCalls.spec_syncDirectory hC'

/-! ## The log as a state -/

/-- The log is as before but for its files. -/
def OnFiles (wal : SegmentedWal blake3) (A : FileSystem → Prop) (wal' : SegmentedWal blake3) : Prop :=
  (∃ files, wal' = { wal with files := files }) ∧ A wal'.files

/-- Less is known of the files. -/
theorem OnFiles.imp {wal wal' : SegmentedWal blake3} {A B : FileSystem → Prop}
    (h : OnFiles wal A wal') (himp : A wal'.files → B wal'.files) : OnFiles wal B wal' :=
  ⟨h.1, himp h.2⟩

/-- Calls on the files of the log. -/
theorem spec_onFiles {α : Type} (wal : SegmentedWal blake3) {A C : FileSystem → Prop}
    {B : α → FileSystem → Prop} {x : FileCalls α} (h : EStateM.Spec A x B C) (operation : String) :
    EStateM.Spec (OnFiles wal A) (SegmentedWal.onFiles operation x) (fun a => OnFiles wal (B a))
      (OnFiles wal C) := by
  refine EStateM.Spec.within fun wal' hwal => ?_
  obtain ⟨⟨files, rfl⟩, hA⟩ := hwal
  exact h.weaken (fun s hs => hs ▸ hA) (fun a s hB => ⟨⟨s, rfl⟩, hB⟩) fun s hC => ⟨⟨s, rfl⟩, hC⟩

/-- The state of the log is read. -/
theorem spec_getWal {wal : SegmentedWal blake3} {A : FileSystem → Prop}
    {C : SegmentedWal blake3 → Prop} :
    EStateM.Spec (ε := StorageError) (OnFiles wal A) get
      (fun wal' s => (∃ files, wal' = { wal with files := files }) ∧ OnFiles wal A s) C :=
  EStateM.spec_get fun _ h => ⟨h.1, h⟩

/-- A rotation makes a new segment active. -/
theorem spec_rotate {wal : SegmentedWal blake3} {uuid : U128} (huuid : wal.databaseUuid = uuid)
    {first : RecordSequence} {K K' C : Directory → Prop}
    (hinsert : ∀ d file, K d → K (d.insert (.segmentTemp first) file))
    (herase : ∀ d, K d → K (d.erase (.segmentTemp first)))
    (hrename : ∀ d, K d →
      K' (d.insert (.segment first) (.synced (Segment.header blake3 uuid first))))
    (hthere : ∀ d, K' d → FileName.segment first ∈ d)
    (hC : ∀ d, K d → C d) (hC' : faulty → ∀ d, K' d → C d) :
    EStateM.Spec (OnFiles wal (Upto faulty K)) (SegmentedWal.rotate first)
      (fun _ => OnFiles { wal with
        active := first, activeLen := Segment.headerLen, activeHasRecords := false }
          (Upto faulty K'))
      (OnFiles wal (Upto faulty C)) := by
  unfold SegmentedWal.rotate
  refine EStateM.Spec.bind spec_getWal fun wal' => EStateM.Spec.fact ?_
  rintro ⟨files, rfl⟩
  have hcreate : Faults.Spec faulty K (createSegmentAtomic blake3 wal.databaseUuid first)
      (fun _ => K') C := by
    rw [huuid]
    exact spec_createSegmentAtomic hinsert herase hrename hC hC'
  refine EStateM.Spec.andThen (spec_onFiles _ hcreate _) ?_
  refine EStateM.Spec.andThen (spec_onFiles _ (FileCalls.spec_openFile hthere hC') _) ?_
  refine EStateM.spec_modify ?_
  rintro s ⟨⟨files, rfl⟩, hfiles⟩
  exact ⟨⟨files, rfl⟩, hfiles⟩

/-! ## Batches -/

/-- The records of a batch are all read. -/
theorem readRecords_logged {limits : RecordLimits} {start next : Option RecordSequence}
    {items : List TimestampedTransition} {bytes : List UInt8}
    (h : Logged blake3 limits start items bytes next) {fuel : Nat} (hfuel : bytes.length < fuel)
    (offset : Nat) :
    SegmentedWal.readRecords blake3 fuel ⟨bytes, limits, offset, start⟩ =
      .ok ⟨[], limits, offset + bytes.length, next⟩ := by
  induction h generalizing fuel offset with
  | nil start =>
    obtain ⟨fuel, rfl⟩ : ∃ n, fuel = n + 1 := ⟨fuel - 1, by omega⟩
    rfl
  | @cons sequence item payload bytes rest items next encoded framed others ih =>
    obtain ⟨fuel, rfl⟩ : ∃ n, fuel = n + 1 := ⟨fuel - 1, by omega⟩
    have hpos : 0 < bytes.length := List.length_pos_of_ne_nil (RecordReader.encode_ne_nil framed)
    have hless : rest.length < fuel := by
      rw [List.length_append] at hfuel
      omega
    rw [SegmentedWal.readRecords, RecordReader.readNext_encode framed rest offset]
    dsimp only
    rw [ih hless, List.length_append, Nat.add_assoc]

/-- The sequences of a batch are found. -/
theorem inspectBatch_logged {wal : SegmentedWal blake3} {limits : RecordLimits}
    {first : RecordSequence} {next : Option RecordSequence} {items : List TimestampedTransition}
    {bytes : List UInt8} (hlogged : Logged blake3 limits (some first) items bytes next)
    (hitems : items ≠ []) (hexpected : wal.expectedSequence = some first)
    (hlimits : wal.recordLimits = limits) : wal.inspectBatch bytes = .ok (first, next) := by
  cases hlogged with
  | nil => exact absurd rfl hitems
  | @cons _ item payload bytes rest items _ encoded framed others =>
    unfold SegmentedWal.inspectBatch
    rw [hexpected, hlimits]
    have hread := RecordReader.readNext_encode framed rest 0
    have hfuel : rest.length < (bytes ++ rest).length + 1 := by
      rw [List.length_append]
      omega
    have hrest := readRecords_logged others hfuel (0 + bytes.length)
    rw [Option.elim_some, Except.ok_bind]
    unfold RecordReader.withExpectedSequence
    rw [hread]
    dsimp only
    rw [hrest]
    rfl

/-! ## Appends -/

/-- Whether a batch goes to a new segment. -/
def SegmentedWal.rotates (wal : SegmentedWal blake3) (bytes : List UInt8) : Bool :=
  wal.activeHasRecords && decide (wal.segmentTarget.val.toNat < wal.activeLen + bytes.length)

variable (blake3) in
/-- The files have a shape, and the log has a length. -/
def At (manifest : Manifest) (shape : Shape) (length : ℤ) (d : Directory) : Prop :=
  shape.In blake3 manifest [] d ∧ d.logLength = length

variable (blake3) in
/-- Bytes have been added to the active segment of a shape, and the first ones are stable. -/
def Written (manifest : Manifest) (shape : Shape) (length : ℤ) (front back : List UInt8)
    (d : Directory) : Prop :=
  ∃ old, At blake3 manifest shape length old ∧ d = old.insert (.segment shape.active)
    ⟨Segment.header blake3 manifest.databaseUuid shape.active ++ (shape.records ++ front), back⟩

/-- Where a batch is going to be written: to the active segment of the files, or to the one that a
rotation makes active. -/
structure SegmentedWal.Target (manifest : Manifest) (shape shape' : Shape)
    (wal : SegmentedWal blake3) (first : RecordSequence) (bytes : List UInt8) : Prop where
  start : shape'.start ≠ none
  stays : wal.rotates bytes = false → shape' = shape ∧ wal.active = shape.active ∧
    wal.activeLen = Segment.headerLen + shape.records.length
  rotates : wal.rotates bytes = true → shape'.active = first ∧ shape'.records = [] ∧
    ∀ length d, At blake3 manifest shape length d → At blake3 manifest shape' length
      (d.insert (.segment first) (.synced (Segment.header blake3 manifest.databaseUuid first)))

variable {manifest : Manifest} {shape shape' : Shape} {length : ℤ} {wal : SegmentedWal blake3}
  {first : RecordSequence} {next : Option RecordSequence} {items : List TimestampedTransition}
  {bytes : List UInt8}

/-- A temporary file, once written, leaves the layout as it was. -/
theorem At.insert_temp {d : Directory} (h : At blake3 manifest shape length d) {name : FileName}
    (file : File) (hsegment : ∀ first, name ≠ .segment first)
    (hsnapshot : ∀ watermark, name ≠ .snapshot watermark) :
    At blake3 manifest shape length (d.insert name file) :=
  ⟨h.1.insert_temp file hsegment hsnapshot, (d.logLength_insert_temp hsegment file).trans h.2⟩

/-- A file that the layout does not use may be removed. -/
theorem At.erase_temp {d : Directory} (h : At blake3 manifest shape length d) {name : FileName}
    (huse : ¬shape.Uses name) (hsegment : ∀ first, name ≠ .segment first) :
    At blake3 manifest shape length (d.erase name) :=
  ⟨h.1.erase huse, (d.logLength_erase_temp hsegment).trans h.2⟩

/-- What the active segment of a shape holds. -/
theorem At.lookup_active {d : Directory} (h : At blake3 manifest shape length d)
    (hstart : shape.start ≠ none) : d[FileName.segment shape.active]? =
      some (.synced (Segment.header blake3 manifest.databaseUuid shape.active ++ shape.records)) := by
  obtain ⟨start, hstart⟩ := Option.ne_none_iff_exists'.mp hstart
  have hactive := h.1.contents start hstart (shape.active, shape.records ++ [])
    (List.mem_append_right _ (List.mem_singleton_self _))
  rwa [List.append_nil] at hactive

/-- A batch is written behind the records of the active segment. -/
theorem spec_writeActive (hstart : shape.start ≠ none) {C : Directory → Prop}
    (hC : faulty → ∀ d, At blake3 manifest shape length d → C d)
    (hC' : faulty → ∀ d, Written blake3 manifest shape length [] bytes d → C d) :
    Faults.Spec faulty (At blake3 manifest shape length)
      (FileCalls.write (.segment shape.active) bytes)
      (fun _ => Written blake3 manifest shape length [] bytes) C := by
  refine FileCalls.spec_change (fun d h => h.1.active) ?_ hC hC'
  intro d file h hfile
  rw [h.lookup_active hstart] at hfile
  obtain rfl := Option.some.inj hfile
  refine ⟨d, h, ?_⟩
  rw [List.append_nil]
  rfl

/-- The log behind a written batch. -/
def SegmentedWal.behind (wal : SegmentedWal blake3) (shape : Shape) (bytes : List UInt8)
    (next : Option RecordSequence) : SegmentedWal blake3 :=
  { wal with
    active := shape.active
    activeLen := Segment.headerLen + (shape.records ++ bytes).length
    activeHasRecords := true
    expectedSequence := next }

/-- A batch is written to the active segment, and the log takes note of it. -/
theorem spec_writeBatch (hstart : shape.start ≠ none) (hactive : wal.active = shape.active)
    {len : Nat} (hlen : len = Segment.headerLen + (shape.records ++ bytes).length)
    {C : Directory → Prop} (hC : faulty → ∀ d, At blake3 manifest shape length d → C d)
    (hC' : faulty → ∀ d, Written blake3 manifest shape length [] bytes d → C d) :
    EStateM.Spec (OnFiles wal (Upto faulty (At blake3 manifest shape length)))
      (do
        let wal ← get
        SegmentedWal.onFiles "append" (FileCalls.write (.segment wal.active) bytes)
        modify fun wal => { wal with
          activeLen := len, activeHasRecords := true, expectedSequence := next })
      (fun _ => OnFiles (wal.behind shape bytes next)
        (Upto faulty (Written blake3 manifest shape length [] bytes)))
      (fun wal' => Upto faulty C wal'.files) := by
  refine EStateM.Spec.bind spec_getWal fun wal' => EStateM.Spec.fact ?_
  rintro ⟨files, rfl⟩
  have hwrite := spec_onFiles wal (spec_writeActive hstart hC hC') "append"
  rw [← hactive] at hwrite
  refine EStateM.Spec.andThen (hwrite.weaken (fun _ h => h) (fun _ _ h => h) fun _ h => h.2) ?_
  refine EStateM.spec_modify ?_
  rintro s ⟨⟨files, rfl⟩, hfiles⟩
  refine ⟨⟨files, ?_⟩, hfiles⟩
  rw [SegmentedWal.behind, ← hactive, hlen]

/-- A batch is appended, or refused before anything is written. -/
theorem spec_append (hlogged : Logged blake3 manifest.recordLimits (some first) items bytes next)
    (hitems : items ≠ []) (huuid : wal.databaseUuid = manifest.databaseUuid)
    (hexpected : wal.expectedSequence = some first)
    (hlimits : wal.recordLimits = manifest.recordLimits)
    (htarget : wal.Target manifest shape shape' first bytes) :
    EStateM.Spec (OnFiles wal (Upto faulty (At blake3 manifest shape length)))
      (SegmentedWal.append bytes)
      (fun _ => OnFiles (wal.behind shape' bytes next)
        (Upto faulty (Written blake3 manifest shape' length [] bytes)))
      (fun wal' => Upto faulty (fun d => At blake3 manifest shape length d ∨
        (faulty ∧ (At blake3 manifest shape' length d ∨
          Written blake3 manifest shape' length [] bytes d))) wal'.files) := by
  have hkeep : ∀ s, OnFiles wal (Upto faulty (At blake3 manifest shape length)) s →
      Upto faulty (fun d => At blake3 manifest shape length d ∨
        (faulty ∧ (At blake3 manifest shape' length d ∨
          Written blake3 manifest shape' length [] bytes d))) s.files :=
    fun s h => h.2.imp fun h => .inl h
  unfold SegmentedWal.append
  refine EStateM.Spec.bind spec_getWal fun wal' => EStateM.Spec.fact ?_
  rintro ⟨files, rfl⟩
  refine EStateM.Spec.value (inspectBatch_logged hlogged hitems hexpected hlimits) ?_
  refine EStateM.Spec.andThen
    (EStateM.spec_ofExcept (fun _ _ _ h => h) fun _ _ s h => hkeep s h) ?_
  refine EStateM.Spec.andThen
    (EStateM.spec_ofExcept (fun _ _ _ h => h) fun _ _ s h => hkeep s h) ?_
  refine EStateM.Spec.ite ?_ ?_
  · intro hcondition
    have hrotates : wal.rotates bytes = true := hcondition
    obtain ⟨hactive, hrecords, hcreated⟩ := htarget.rotates hrotates
    have hthere (d : Directory) (h : At blake3 manifest shape' length d) :
        FileName.segment first ∈ d := by
      rw [← hactive]
      exact h.1.active
    refine EStateM.Spec.andThen ((spec_rotate huuid
      (C := fun d => At blake3 manifest shape length d ∨
        (faulty ∧ (At blake3 manifest shape' length d ∨
          Written blake3 manifest shape' length [] bytes d)))
      (fun d file h => h.insert_temp file nofun nofun) (fun d h => h.erase_temp id nofun)
      (hcreated length) hthere (fun d h => .inl h) fun hfaulty d h => .inr ⟨hfaulty, .inl h⟩).weaken
        (fun _ h => h) (fun _ _ h => h) fun _ h => h.2) ?_
    have hlen : (if wal.rotates bytes = true then Segment.headerLen + bytes.length else
        wal.activeLen + bytes.length) = Segment.headerLen + (shape'.records ++ bytes).length := by
      rw [if_pos hrotates, hrecords, List.nil_append]
    exact spec_writeBatch htarget.start hactive.symm hlen
      (fun hfaulty d h => .inr ⟨hfaulty, .inl h⟩) fun hfaulty d h => .inr ⟨hfaulty, .inr h⟩
  · intro hcondition
    have hstays : ¬wal.rotates bytes = true := hcondition
    obtain ⟨rfl, hactive, hlength⟩ := htarget.stays (Bool.eq_false_iff.mpr hstays)
    have hlen : (if wal.rotates bytes = true then Segment.headerLen + bytes.length else
        wal.activeLen + bytes.length) = Segment.headerLen + (shape'.records ++ bytes).length := by
      rw [if_neg hstays, hlength, List.length_append, Nat.add_assoc]
    exact spec_writeBatch htarget.start hactive hlen
      (fun hfaulty d h => .inr ⟨hfaulty, .inl h⟩) fun hfaulty d h => .inr ⟨hfaulty, .inr h⟩

/-! ## Persisting -/

/-- A batch that was written becomes stable. -/
theorem spec_syncActive {C : Directory → Prop}
    (hC : faulty → ∀ d, Written blake3 manifest shape length [] bytes d → C d)
    (hC' : faulty → ∀ d, Written blake3 manifest shape length bytes [] d → C d) :
    Faults.Spec faulty (Written blake3 manifest shape length [] bytes)
      (FileCalls.sync (.segment shape.active))
      (fun _ => Written blake3 manifest shape length bytes []) C := by
  refine FileCalls.spec_change ?_ ?_ hC hC'
  · rintro d ⟨old, h, rfl⟩
    exact OrderedMap.mem_insert_iff.mpr (.inl rfl)
  · rintro d file ⟨old, h, rfl⟩ hfile
    rw [OrderedMap.lookup_insert_self] at hfile
    obtain rfl := Option.some.inj hfile
    have hcontent : File.content ⟨Segment.header blake3 manifest.databaseUuid shape.active ++
        (shape.records ++ []), bytes⟩ =
        Segment.header blake3 manifest.databaseUuid shape.active ++ (shape.records ++ bytes) := by
      rw [List.append_nil]
      exact List.append_assoc _ _ _
    refine ⟨old, h, ?_⟩
    rw [OrderedMap.insert_insert, hcontent]
    rfl

/-- Stable records are counted. -/
theorem Written.extend {d : Directory} (h : Written blake3 manifest shape length bytes [] d)
    (hstart : shape.start ≠ none) (hsorted : shape.firsts.Pairwise (· < ·))
    (next : Option RecordSequence) :
    At blake3 manifest (shape.extended bytes next) (length + bytes.length) d := by
  obtain ⟨old, hold, rfl⟩ := h
  have hin := hold.1.insert_active hsorted (bytes ++ [])
  have hextended := hin.extend next
  rw [List.append_nil] at hextended
  refine ⟨hextended, ?_⟩
  rw [← hold.2]
  exact hold.1.logLength_insert_active hstart bytes

/-- Where a batch that is not persisted may have been stopped. -/
def Stopped (faulty : Prop) (manifest : Manifest) (shape shape' : Shape) (length : ℤ)
    (bytes : List UInt8) (d : Directory) : Prop :=
  At blake3 manifest shape length d ∨ (faulty ∧ (At blake3 manifest shape' length d ∨
    ∃ front back, bytes = front ++ back ∧ Written blake3 manifest shape' length front back d))

/-- A batch is appended and made stable, or refused before anything is written. -/
theorem spec_persist (hlogged : Logged blake3 manifest.recordLimits (some first) items bytes next)
    (hitems : items ≠ []) (huuid : wal.databaseUuid = manifest.databaseUuid)
    (hexpected : wal.expectedSequence = some first)
    (hlimits : wal.recordLimits = manifest.recordLimits)
    (htarget : wal.Target manifest shape shape' first bytes) :
    EStateM.Spec (OnFiles wal (Upto faulty (At blake3 manifest shape length)))
      (persist bytes .sync)
      (fun _ => OnFiles (wal.behind shape' bytes next)
        (Upto faulty (Written blake3 manifest shape' length bytes [])))
      (fun wal' => Upto faulty (@Stopped blake3 faulty manifest shape shape' length bytes)
        wal'.files) := by
  have happend := @spec_append blake3 faulty manifest shape shape' length wal first next items bytes
    hlogged hitems huuid hexpected hlimits htarget
  refine EStateM.Spec.andThen (happend.weaken (fun _ h => h) (fun _ _ h => h) ?_) ?_
  · rintro s ⟨hfault, hkept | ⟨hfaulty, hrotated | hwritten⟩⟩
    · exact ⟨hfault, .inl hkept⟩
    · exact ⟨hfault, .inr ⟨hfaulty, .inl hrotated⟩⟩
    · exact ⟨hfault, .inr ⟨hfaulty, .inr ⟨[], bytes, rfl, hwritten⟩⟩⟩
  · refine EStateM.Spec.bind spec_getWal fun wal' => EStateM.Spec.fact ?_
    rintro ⟨files, rfl⟩
    have hsync := spec_onFiles (wal.behind shape' bytes next) (spec_syncActive
      (fun hfaulty d h => (.inr ⟨hfaulty, .inr ⟨[], bytes, rfl, h⟩⟩ :
        @Stopped blake3 faulty manifest shape shape' length bytes d))
      (fun hfaulty d h => .inr ⟨hfaulty, .inr ⟨bytes, [], (List.append_nil _).symm, h⟩⟩)) "sync"
    exact hsync.weaken (fun _ h => h) (fun _ _ h => h) fun _ h => h.2

end PromiseDb
