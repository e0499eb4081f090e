import PromiseDb.Storage.Handles
import PromiseDb.Storage.LongestPrefix
import PromiseDb.Storage.SnapshotCanonical

/-!
# What opening leaves of arbitrary files

Opening a directory, whatever is in it, whether it succeeds or not, and wherever it is stopped,
touches little: it removes files with temporary names and segments below the watermark of a snapshot
that decodes, and it cuts off the bytes behind the last complete record of a segment, but only if
these bytes end within a frame.  All other files keep their contents.
-/

namespace PromiseDb

open Faults

variable {blake3 : List UInt8 → CommandHash}

/-! ## The fate of a file -/

/-- Whether a name is given to files that are being written. -/
def FileName.isTemporary : FileName → Bool
  | segmentTemp _ => true
  | snapshotTemp => true
  | _ => false

/-- What may have become of a file. -/
inductive Fate (limits : RecordLimits) (covered : RecordSequence → Prop) (name : FileName)
    (file : File) : Option File → Prop
  | kept {file' : File} (content : file'.content = file.content) :
      Fate limits covered name file (some file')
  | temporary (temporary : name.isTemporary = true) : Fate limits covered name file none
  | covered {first : RecordSequence} (segment : name = .segment first) (covers : covered first) :
      Fate limits covered name file none
  | repaired {first : RecordSequence} {length : Nat} {expected : Option RecordSequence}
      {file' : File} (segment : name = .segment first)
      (content : file'.content = file.content.take length)
      (incomplete : RecordReader.EndsWithin limits expected (file.content.drop length)) :
      Fate limits covered name file (some file')

/-- Every file of one directory has a fate in the other, in which there are no further files. -/
structure Spares (limits : RecordLimits) (covered : RecordSequence → Prop) (d₀ d : Directory) :
    Prop where
  names : ∀ name ∈ d, name ∈ d₀
  fates : ∀ (name : FileName) (file : File), d₀[name]? = some file →
    Fate limits covered name file d[name]?

/-- The files without temporary names are all untouched. -/
structure Untouched (d₀ d : Directory) : Prop where
  names : ∀ name ∈ d, name ∈ d₀
  files : ∀ (name : FileName) (file : File), d₀[name]? = some file → d[name]? = some file ∨
    name.isTemporary = true ∧ d[name]? = none

section Fates

variable {limits : RecordLimits} {covered covered' : RecordSequence → Prop} {d₀ d : Directory}

/-- Nothing is touched at first. -/
theorem Untouched.refl (d : Directory) : Untouched d d :=
  ⟨fun _ h => h, fun _ _ h => .inl h⟩

/-- A removed file is not among the others. -/
theorem mem_of_mem_erase {name other : FileName} (h : name ∈ d.erase other) : name ∈ d :=
  Std.ExtTreeMap.mem_of_mem_erase h

/-- A file with a temporary name is removed. -/
theorem Untouched.erase (h : Untouched d₀ d) {name : FileName} (hname : name.isTemporary = true) :
    Untouched d₀ (d.erase name) where
  names := fun other hother => h.names other (mem_of_mem_erase hother)
  files := by
    intro other file hfile
    rw [OrderedMap.lookup_erase]
    split
    · rename_i heq
      exact .inr ⟨heq ▸ hname, rfl⟩
    · exact h.files other file hfile

/-- Untouched files are spared. -/
theorem Untouched.spares (h : Untouched d₀ d) : Spares limits covered d₀ d where
  names := h.names
  fates := by
    intro name file hfile
    rcases h.files name file hfile with hsame | ⟨htemporary, hnone⟩
    · rw [hsame]
      exact .kept rfl
    · rw [hnone]
      exact .temporary htemporary

/-- A segment is removed that is covered. -/
theorem Spares.erase (h : Spares limits covered d₀ d) {first : RecordSequence}
    (hcovered : covered first) : Spares limits covered d₀ (d.erase (.segment first)) where
  names := fun other hother => h.names other (mem_of_mem_erase hother)
  fates := by
    intro name file hfile
    rw [OrderedMap.lookup_erase]
    split
    · rename_i heq
      exact .covered heq.symm hcovered
    · exact h.fates name file hfile

/-- A file is written again with the same content. -/
theorem Spares.insert (h : Spares limits covered d₀ d) {name : FileName} {file file' : File}
    (hfile : d[name]? = some file) (hcontent : file'.content = file.content) :
    Spares limits covered d₀ (d.insert name file') where
  names := by
    intro other hother
    rcases OrderedMap.mem_insert_iff.mp hother with rfl | hother
    · exact h.names _ (OrderedMap.mem_iff_lookup.mpr ⟨file, hfile⟩)
    · exact h.names other hother
  fates := by
    intro other before hbefore
    have hfate := h.fates other before hbefore
    rw [OrderedMap.lookup_insert]
    split
    · rename_i heq
      rw [← heq, hfile] at hfate
      cases hfate with
      | kept hsame => exact .kept (hcontent.trans hsame)
      | repaired hsegment hcut hincomplete =>
        exact .repaired (heq ▸ hsegment) (hcontent.trans hcut) hincomplete
    · exact hfate

/-- A segment is cut off behind its last complete record. -/
theorem Untouched.repair (h : Untouched d₀ d) {first : RecordSequence} {file file' : File}
    (hfile : d[FileName.segment first]? = some file) {length : Nat}
    (hcontent : file'.content = file.content.take length) {expected : Option RecordSequence}
    (hincomplete : RecordReader.EndsWithin limits expected (file.content.drop length)) :
    Spares limits covered d₀ (d.insert (.segment first) file') where
  names := by
    intro other hother
    rcases OrderedMap.mem_insert_iff.mp hother with rfl | hother
    · exact h.names _ (OrderedMap.mem_iff_lookup.mpr ⟨file, hfile⟩)
    · exact h.names other hother
  fates := by
    intro other before hbefore
    rw [OrderedMap.lookup_insert]
    split
    · rename_i heq
      rcases h.files other before hbefore with hsame | ⟨-, hnone⟩
      · rw [← heq, hfile] at hsame
        obtain rfl := Option.some.inj hsame
        exact .repaired heq.symm hcontent hincomplete
      · rw [← heq, hfile] at hnone
        cases hnone
    · exact (@Untouched.spares limits covered d₀ d h).fates other before hbefore

/-- More segments are covered. -/
theorem Spares.mono (h : Spares limits covered d₀ d) (hcovered : ∀ first, covered first →
    covered' first) : Spares limits covered' d₀ d where
  names := h.names
  fates := by
    intro name file hfile
    have hfate := h.fates name file hfile
    generalize d[name]? = current at hfate ⊢
    cases hfate with
    | kept hcontent => exact .kept hcontent
    | temporary htemporary => exact .temporary htemporary
    | covered hsegment hcovers => exact .covered hsegment (hcovered _ hcovers)
    | repaired hsegment hcontent hincomplete => exact .repaired hsegment hcontent hincomplete

end Fates

/-! ## Calls -/

namespace FileCalls

variable {I : Directory → Prop} {name : FileName}

/-- Changing a file, if it is there. -/
theorem spec_changeFile {Q C : Directory → Prop} {f : File → File}
    (h : ∀ d file, I d → d[name]? = some file → Q (d.insert name (f file)))
    (hI : ∀ d, I d → C d) (hQ : ∀ d, Q d → C d) :
    Faults.Spec True I (change name f) (fun _ => Q) C := by
  unfold change io
  refine spec_call (fun d hd u d' hcall => ?_) (fun d hd _ _ => hI d hd) (fun _ => hI)
    fun _ _ => hQ
  cases hfile : d[name]? with
  | none =>
    rw [hfile] at hcall
    cases hcall
  | some file =>
    rw [hfile] at hcall
    obtain ⟨-, rfl⟩ := Prod.mk.inj (Except.ok.inj hcall)
    exact h d file hd hfile

/-- Removing a file keeps what its absence keeps. -/
theorem keeps_remove (h : ∀ d, I d → I (d.erase name)) : Keeps I (remove name) := by
  unfold remove io
  refine keeps_call fun d u d' hd hcall => ?_
  split at hcall
  · obtain ⟨-, rfl⟩ := Prod.mk.inj (Except.ok.inj hcall)
    exact h d hd
  · cases hcall

/-- Opening a file keeps everything. -/
theorem keeps_openFile : Keeps I (openFile name) := by
  unfold openFile io
  refine keeps_call fun d u d' hd hcall => ?_
  split at hcall
  · obtain ⟨-, rfl⟩ := Prod.mk.inj (Except.ok.inj hcall)
    exact hd
  · cases hcall

/-- Syncing a directory keeps everything. -/
theorem keeps_syncDirectory : Keeps I syncDirectory := by
  unfold syncDirectory io
  refine keeps_call fun d u d' hd hcall => ?_
  obtain ⟨-, rfl⟩ := Prod.mk.inj (Except.ok.inj hcall)
  exact hd

/-- Looking at an entry keeps everything. -/
theorem keeps_entry : Keeps I entry := by
  unfold entry io
  refine keeps_call fun d u d' hd hcall => ?_
  obtain ⟨-, rfl⟩ := Prod.mk.inj (Except.ok.inj hcall)
  exact hd

/-- Listing the names keeps everything. -/
theorem keeps_readDir {listing : Listing} {part : FileName → Bool} :
    Keeps I (readDir listing part) := by
  unfold readDir io
  refine keeps_call fun d names d' hd hcall => ?_
  obtain ⟨-, rfl⟩ := Prod.mk.inj (Except.ok.inj hcall)
  exact hd

/-- Reading a file keeps everything, and what is read is there. -/
theorem spec_readFile {C : Directory → Prop} (hC : ∀ d, I d → C d) : Faults.Spec True I (read name)
    (fun bytes d => I d ∧ ∃ file, d[name]? = some file ∧ file.content = bytes) C := by
  unfold read io
  refine spec_call (fun d hd bytes d' hcall => ?_) (fun d hd _ _ => hC d hd) (fun _ => hC)
    fun _ _ d hd => hC d hd.1
  cases hfile : d[name]? with
  | none =>
    rw [hfile] at hcall
    cases hcall
  | some file =>
    rw [hfile] at hcall
    obtain ⟨rfl, rfl⟩ := Prod.mk.inj (Except.ok.inj hcall)
    exact ⟨hd, file, hfile, rfl⟩

/-- Reading a file keeps everything. -/
theorem keeps_read : Keeps I (read name) :=
  (spec_readFile fun _ h => h).weaken (fun _ h => h) (fun _ _ h => h.imp And.left) fun _ h => h

end FileCalls

/-! ## Opening -/

namespace FileDatabase

section Opening

variable {I : Directory → Prop}

/-- Removing the temporary names of segments. -/
theorem keeps_cleanupSegmentTemps (h : ∀ d first, I d → I (d.erase (.segmentTemp first)))
    (listing : Listing) : Keeps I (cleanupSegmentTemps listing) := by
  unfold cleanupSegmentTemps
  refine EStateM.Spec.bind FileCalls.keeps_readDir.renamed fun names => ?_
  have hloop : Keeps I (names.forM fun name => do
      io "read WAL directory entry" FileCalls.entry
      if isSegmentTemp name then
        io "remove temporary WAL segment" (FileCalls.remove name)) := by
    refine EStateM.Spec.forM (I := fun _ => Upto True I) fun done name rest hnames => ?_
    refine EStateM.Spec.andThen FileCalls.keeps_entry.renamed ?_
    refine EStateM.Spec.ite (fun htemp => ?_) fun _ => EStateM.spec_pure fun _ hw => hw
    cases name with
    | segmentTemp first => exact (FileCalls.keeps_remove fun d => h d first).renamed
    | segment first => cases htemp
    | snapshot watermark => cases htemp
    | snapshotTemp => cases htemp
  refine EStateM.Spec.andThen hloop ?_
  exact EStateM.Spec.ite (fun _ => FileCalls.keeps_syncDirectory.renamed)
    fun _ => EStateM.spec_pure fun _ hw => hw

/-- Removing the temporary name of a snapshot. -/
theorem keeps_cleanupSnapshotTemp (h : ∀ d, I d → I (d.erase .snapshotTemp)) :
    Keeps I cleanupSnapshotTemp := by
  intro w hw
  unfold cleanupSnapshotTemp
  obtain ⟨u, w', hrun, hw'⟩ | ⟨e, w', hrun, hw'⟩ := FileCalls.keeps_remove h w hw
  · rw [hrun]
    exact FileCalls.keeps_syncDirectory w' hw'
  · rw [hrun]
    cases e with
    | notFound => exact .inl ⟨⟨⟩, w', rfl, hw'⟩
    | alreadyExists => exact .inr ⟨.alreadyExists, w', rfl, hw'⟩
    | other => exact .inr ⟨.other, w', rfl, hw'⟩

/-- A snapshot that was loaded is among the files, and decodes. -/
theorem spec_loadSnapshot {manifest : Manifest} (h : ∀ d, I d → I (d.erase .snapshotTemp))
    (listing : Listing) :
    Faults.Spec True I (loadLatestSnapshot blake3 listing manifest)
      (fun loaded d => I d ∧ ∀ value ∈ loaded, ∃ file,
        d[FileName.snapshot value.walWatermark]? = some file ∧
        Snapshot.decode blake3 file.content manifest.snapshotLimits manifest.databaseUuid
          stateMachineSemanticsVersion value.walWatermark = .ok value) I := by
  unfold loadLatestSnapshot
  refine EStateM.Spec.andThen (keeps_cleanupSnapshotTemp h).renamed ?_
  refine EStateM.Spec.bind FileCalls.keeps_readDir.renamed fun names => ?_
  refine EStateM.Spec.bind (keeps_ofExcept _) fun latest => ?_
  cases latest with
  | none =>
    refine EStateM.spec_pure fun w hw => hw.imp fun hI => ⟨hI, nofun⟩
  | some watermark =>
    refine EStateM.Spec.bind (FileCalls.spec_readFile fun _ h => h).renamed fun bytes => ?_
    refine EStateM.Spec.bind (R := fun _ => Upto True fun d => I d ∧
      ∃ file, d[FileName.snapshot watermark]? = some file ∧ file.content = bytes)
      (EStateM.spec_ofExcept (fun _ _ _ hw => hw) fun _ _ _ hw => hw.imp And.left) fun _ => ?_
    refine EStateM.Spec.bind (R := fun value => Upto True fun d => I d ∧ ∃ file,
      d[FileName.snapshot value.walWatermark]? = some file ∧
      Snapshot.decode blake3 file.content manifest.snapshotLimits manifest.databaseUuid
        stateMachineSemanticsVersion value.walWatermark = .ok value) ?_ fun value => ?_
    · refine EStateM.spec_ofExcept (fun value hdecode w hw => hw.imp ?_)
        fun _ _ _ hw => hw.imp And.left
      rintro ⟨hI, file, hfile, rfl⟩
      have hdecode := Except.mapError_eq_ok.mp hdecode
      obtain rfl : value.walWatermark = watermark := (Snapshot.decode_eq_ok hdecode).2.1
      exact ⟨hI, file, hfile, hdecode⟩
    · refine EStateM.spec_pure fun w hw => hw.imp fun hI => ⟨hI.1, fun value' hvalue => ?_⟩
      rw [← Option.some.inj hvalue]
      exact hI.2

/-- The segments that are not looked at start before the sequence. -/
theorem spec_segmentEntries (databaseUuid : U128) (minimum : U64) (names : List FileName) :
    Faults.Spec True I (readSegmentEntries blake3 databaseUuid minimum names)
      (fun r d => (∀ name ∈ r.2, ∃ first, name = .segment first ∧ first.get < minimum) ∧ I d) I := by
  induction names with
  | nil => exact EStateM.spec_pure fun w hw => hw.imp fun hI => ⟨nofun, hI⟩
  | cons name names ih =>
    unfold readSegmentEntries
    refine EStateM.Spec.andThen FileCalls.keeps_entry.renamed ?_
    cases name with
    | segment first =>
      refine EStateM.Spec.ite (fun hbefore => ?_) fun _ => ?_
      · refine EStateM.Spec.bind ih fun r => ?_
        refine EStateM.spec_pure fun w hw => hw.imp fun h => ⟨fun name hname => ?_, h.2⟩
        rcases List.mem_cons.mp hname with rfl | hname
        · exact ⟨first, rfl, hbefore⟩
        · exact h.1 name hname
      · refine EStateM.Spec.bind FileCalls.keeps_read.renamed fun content => ?_
        refine EStateM.Spec.bind (keeps_ofExcept _) fun header => ?_
        refine EStateM.Spec.bind (keeps_ofExcept _) fun _ => ?_
        refine EStateM.Spec.bind ih fun r => ?_
        exact EStateM.spec_pure fun w hw => hw
    | segmentTemp first => exact EStateM.spec_throw fun _ hw => hw
    | snapshot watermark => exact EStateM.spec_throw fun _ hw => hw
    | snapshotTemp => exact EStateM.spec_throw fun _ hw => hw

/-- The segments are read. -/
theorem spec_segments (listing : Listing) (databaseUuid : U128) (minimum : U64) :
    Faults.Spec True I (readSegments blake3 listing databaseUuid minimum)
      (fun r d => (∀ name ∈ r.2, ∃ first, name = .segment first ∧ first.get < minimum) ∧ I d) I := by
  unfold readSegments
  refine EStateM.Spec.bind FileCalls.keeps_readDir.renamed fun names => ?_
  refine EStateM.Spec.bind (spec_segmentEntries databaseUuid minimum names) fun r => ?_
  refine EStateM.Spec.ite (fun _ => ?_) fun _ => ?_
  · exact EStateM.spec_throw fun _ hw => hw.imp And.right
  · exact EStateM.spec_pure fun _ hw => hw

/-- Recovering a segment touches nothing, or cuts off an incomplete frame if the segment is the last
one. -/
theorem spec_recoverSegment {limits : RecordLimits} {covered : RecordSequence → Prop}
    {d₀ : Directory} (segment : RecordSequence) (isSealed : Bool) (recovery : EngineRecovery) :
    Faults.Spec True (Untouched d₀)
      (recoverSegment blake3 limits segment isSealed recovery)
      (fun _ d => Spares limits covered d₀ d ∧ (isSealed = true → Untouched d₀ d))
      (Spares limits covered d₀) := by
  unfold recoverSegment
  by_cases hnext : recovery.nextRecordSequence = some segment
  swap
  · refine EStateM.Spec.bind (R := fun _ _ => False)
      (EStateM.spec_ofExcept (fun u hu => ?_) fun _ _ w hw => hw.imp Untouched.spares)
      fun _ w hfalse => hfalse.elim
    exact absurd (Except.ensure_eq_ok.mp hu) hnext
  refine EStateM.Spec.andThen (EStateM.spec_ensure hnext) ?_
  refine EStateM.Spec.bind (FileCalls.spec_readFile fun _ h => h.spares).renamed fun content => ?_
  obtain ⟨e, next⟩ := recovery
  obtain rfl : next = some segment := hnext
  obtain ⟨records, encodings, rest, e', hlongest, hdone, hfails⟩ :=
    @EngineRecovery.feed_exact blake3 (content.drop Segment.headerLen) limits segment e
  by_cases hrest : rest = []
  · rw [hdone hrest]
    exact EStateM.spec_pure fun w hw => hw.imp fun h => ⟨h.1.spares, fun _ => h.1⟩
  obtain ⟨error, next, hrun, hoffset, htail, -⟩ := hfails hrest
  rw [hrun]
  refine EStateM.Spec.ite (fun hrepair => ?_) fun _ => ?_
  swap
  · exact EStateM.spec_throw fun w hw => hw.imp fun h => h.1.spares
  -- the rest ends within a frame
  obtain ⟨hlast, hincomplete⟩ := Bool.and_eq_true_iff.mp hrepair
  obtain ⟨-, hends⟩ := htail hincomplete
  have hdrop : content.drop (Segment.headerLen + encodings.flatten.length) = rest := by
    rw [← List.drop_drop, hlongest.split, List.drop_left]
  have hlength : Segment.headerLen + encodings.flatten.length ≤ content.length := by
    by_contra hless
    rw [List.drop_of_length_le (Nat.le_of_not_le hless)] at hdrop
    exact hrest hdrop.symm
  have hcut : content.takeD (Segment.headerLen + encodings.flatten.length) 0 =
      content.take (Segment.headerLen + encodings.flatten.length) :=
    List.takeD_eq_take 0 hlength
  rw [hoffset]
  refine EStateM.Spec.andThen (FileCalls.keeps_openFile.fails fun d h => h.1.spares).renamed ?_
  refine EStateM.Spec.andThen (R := Upto True (Spares limits covered d₀))
    (FileCalls.spec_changeFile ?_ (fun d h => h.1.spares) fun _ h => h).renamed ?_
  · rintro d file ⟨huntouched, file', hfile', hcontent⟩ hfile
    rw [hfile] at hfile'
    obtain rfl := Option.some.inj hfile'
    refine huntouched.repair hfile ?_ (hcontent ▸ hdrop.symm ▸ hends)
    rw [File.content_synced, hcontent, hcut]
  refine EStateM.Spec.andThen (FileCalls.spec_changeFile ?_ (fun _ h => h) fun _ h => h).renamed ?_
  · exact fun d file h hfile => h.insert hfile (File.content_synced _)
  refine EStateM.spec_pure fun w hw => hw.imp fun h => ⟨h, fun hsealed => ?_⟩
  rw [hsealed] at hlast
  cases hlast

/-- Recovering the segments touches nothing but the last one. -/
theorem spec_recoverAll {limits : RecordLimits} {covered : RecordSequence → Prop}
    {d₀ : Directory} (segments : List RecordSequence) (recovery : EngineRecovery) (offset : Nat) :
    Faults.Spec True (Untouched d₀) (recoverSegments blake3 limits segments recovery offset)
      (fun _ => Spares limits covered d₀) (Spares limits covered d₀) := by
  induction segments generalizing recovery offset with
  | nil => exact EStateM.spec_pure fun w hw => hw.imp Untouched.spares
  | cons segment segments ih =>
    unfold recoverSegments
    refine EStateM.Spec.bind
      (spec_recoverSegment segment (decide (segments ≠ [])) recovery) fun r => ?_
    cases segments with
    | nil => exact EStateM.spec_pure fun w hw => hw.imp And.left
    | cons next others =>
      exact (ih r.1 r.2).weaken (fun w hw => hw.imp fun h => h.2 rfl) (fun _ _ h => h) fun _ h => h

variable (blake3) in
/-- A segment starts at or before the watermark of a snapshot that decodes. -/
def CoveredBySnapshot (manifest : Manifest) (d : Directory) (first : RecordSequence) : Prop :=
  ∃ value file, d[FileName.snapshot value.walWatermark]? = some file ∧
    Snapshot.decode blake3 file.content manifest.snapshotLimits manifest.databaseUuid
      stateMachineSemanticsVersion value.walWatermark = .ok value ∧
    first.get ≤ value.walWatermark

/-- A sequence before the first one that is looked at is covered. -/
theorem le_of_lt_minimumSequence {loaded : Option DecodedSnapshot} {first : RecordSequence}
    (h : first.get < minimumSequence loaded) : ∃ value ∈ loaded, first.get ≤ value.walWatermark := by
  have hfirst : ¬first.get < RecordSequence.first.get := by
    intro hless
    have hvalue : first.get.val < 1 := hless
    have hnonneg := first.get.property.1
    exact first.get_ne_zero (by omega)
  cases loaded with
  | none => exact absurd h hfirst
  | some value =>
    refine ⟨value, rfl, ?_⟩
    unfold minimumSequence at h
    rw [Option.elim_some] at h
    cases hnext : value.walWatermark.checkedAdd ⟨1, U64.one_range⟩ with
    | none =>
      rw [hnext] at h
      exact absurd h hfirst
    | some next =>
      rw [hnext, Option.getD_some] at h
      have hsum := BoundedInt.checkedAdd_eq_some.mp hnext
      have hless : first.get.val < next.val := h
      show first.get.val ≤ value.walWatermark.val
      have hone : (⟨1, U64.one_range⟩ : U64).val = 1 := rfl
      omega

/-- What was loaded from untouched files covers segments of the files as they were. -/
theorem covered_of_loaded {manifest : Manifest} {d₀ d : Directory} (h : Untouched d₀ d)
    {loaded : Option DecodedSnapshot}
    (hloaded : ∀ value ∈ loaded, ∃ file, d[FileName.snapshot value.walWatermark]? = some file ∧
      Snapshot.decode blake3 file.content manifest.snapshotLimits manifest.databaseUuid
        stateMachineSemanticsVersion value.walWatermark = .ok value)
    {first : RecordSequence} (hfirst : first.get < minimumSequence loaded) :
    CoveredBySnapshot blake3 manifest d₀ first := by
  obtain ⟨value, hvalue, hle⟩ := le_of_lt_minimumSequence hfirst
  obtain ⟨file, hfile, hdecode⟩ := hloaded value hvalue
  obtain ⟨file₀, hfile₀⟩ := OrderedMap.mem_iff_lookup.mp
    (h.names _ (OrderedMap.mem_iff_lookup.mpr ⟨file, hfile⟩))
  rcases h.files _ file₀ hfile₀ with hsame | ⟨htemporary, -⟩
  · rw [hfile] at hsame
    obtain rfl := Option.some.inj hsame
    exact ⟨value, file, hfile₀, hdecode, hle⟩
  · cases htemporary

/-- Going on in the active segment changes no file. -/
theorem keeps_openActive (manifest : Manifest) (options : FileDatabaseOptions)
    (active : RecordSequence) (outcome : RecoveryOutcome) :
    Keeps I (openActive blake3 manifest options active outcome) := by
  unfold openActive
  refine EStateM.Spec.bind FileCalls.keeps_read.renamed fun content => ?_
  refine EStateM.Spec.andThen FileCalls.keeps_openFile.renamed ?_
  refine EStateM.Spec.bind (EStateM.spec_get fun _ hw => hw) fun files => ?_
  exact EStateM.spec_pure fun _ hw => hw

/-- Behind the recovery only obsolete segments are removed. -/
theorem keeps_goOn {obsolete : List FileName} (h : ∀ name ∈ obsolete, ∀ d, I d → I (d.erase name))
    (manifest : Manifest) (options : FileDatabaseOptions) (active : RecordSequence)
    (outcome : RecoveryOutcome) :
    Keeps I (goOn blake3 manifest options active obsolete outcome) := by
  have hloop : Keeps I
      (obsolete.forM fun name => io "remove obsolete WAL prefix" (FileCalls.remove name)) := by
    refine EStateM.Spec.forM (I := fun _ => Upto True I) fun done name rest hnames => ?_
    have hname : name ∈ obsolete := by
      rw [hnames]
      exact List.mem_append_right _ List.mem_cons_self
    exact (FileCalls.keeps_remove (h name hname)).renamed
  unfold goOn
  refine EStateM.Spec.andThen hloop ?_
  refine EStateM.Spec.ite (fun _ => ?_) fun _ => keeps_openActive manifest options active outcome
  exact EStateM.Spec.andThen FileCalls.keeps_syncDirectory.renamed
    (keeps_openActive manifest options active outcome)

/-- Behind the snapshot nothing is removed but segments that it covers. -/
theorem spec_openBehind {manifest : Manifest} {options : FileDatabaseOptions}
    {covered : RecordSequence → Prop} {d : Directory} {loaded : Option DecodedSnapshot}
    (hcovered : ∀ first : RecordSequence, first.get < minimumSequence loaded → covered first)
    (listing : Listing) :
    Faults.Spec True (Untouched d) (openBehind blake3 listing manifest options loaded)
      (fun _ => Spares options.recordLimits covered d)
      (Spares options.recordLimits covered d) := by
  have hspares (d' : Directory) (h : Untouched d d') :
      Spares options.recordLimits covered d d' := h.spares
  unfold openBehind
  refine EStateM.Spec.bind (R := fun r => Upto True fun d' => (∀ name ∈ r.2, ∃ first,
    name = .segment first ∧ covered first) ∧ Untouched d d') ?_ fun r => ?_
  · refine EStateM.Spec.weaken (spec_segments listing manifest.databaseUuid (minimumSequence loaded))
      (fun _ h => h) (fun r w hw => hw.imp fun h => ⟨fun name hname => ?_, h.2⟩)
      fun w hw => hw.imp (hspares w.state)
    obtain ⟨first, hsegment, hbefore⟩ := h.1 name hname
    exact ⟨first, hsegment, hcovered first hbefore⟩
  obtain ⟨segments, obsolete⟩ := r
  refine Faults.Spec.fact fun hobsolete => ?_
  dsimp only at hobsolete ⊢
  have hgoOn (outcome : RecoveryOutcome) :
      Keeps (Spares options.recordLimits covered d)
        (goOn blake3 manifest options (segments.getLastD .first) obsolete outcome) := by
    refine keeps_goOn (fun name hname d' h => ?_) manifest options _ outcome
    obtain ⟨first, rfl, hfirst⟩ := hobsolete name hname
    exact h.erase hfirst
  refine EStateM.Spec.ite (fun _ => ?_) fun _ => ?_
  · refine EStateM.Spec.bind (R := fun _ => Upto True (Spares options.recordLimits covered d))
      (EStateM.spec_pure fun w hw => hw.imp (hspares w.state)) fun _ => ?_
    exact EStateM.Spec.bind (keeps_ofExcept _) hgoOn
  · refine EStateM.Spec.bind (spec_recoverAll _ _ _) fun _ => ?_
    exact EStateM.Spec.bind (keeps_ofExcept _) hgoOn

/-- Opening a directory, whatever is in it and wherever it is stopped, removes nothing but temporary
files and segments that a snapshot covers, cuts off nothing but an incomplete frame, and leaves the
contents of all other files as they are. -/
theorem openDatabase_spares (listing : Listing) (manifest : Manifest)
    (options : FileDatabaseOptions) (d : Directory) (fault : Option Faults.Fault) :
    Spares options.recordLimits (CoveredBySnapshot blake3 manifest d) d
      (openDatabase blake3 listing manifest options ⟨d, fault⟩).finalState.state := by
  have hspares (d' : Directory) (h : Untouched d d') :
      Spares options.recordLimits (CoveredBySnapshot blake3 manifest d) d d' := h.spares
  refine Faults.Spec.finalState (P := Untouched d) ?_ (.refl d) fault
  rw [openDatabase_eq]
  refine EStateM.Spec.andThen ((keeps_ofExcept _).fails hspares) ?_
  refine EStateM.Spec.andThen ((keeps_ofExcept _).fails hspares) ?_
  refine EStateM.Spec.andThen ((keeps_ofExcept _).fails hspares) ?_
  refine EStateM.Spec.andThen
    ((keeps_cleanupSegmentTemps (fun d' first h => h.erase rfl) listing).fails hspares) ?_
  refine EStateM.Spec.bind (R := fun loaded => Upto True fun d' => (∀ first : RecordSequence,
    first.get < minimumSequence loaded → CoveredBySnapshot blake3 manifest d first) ∧
      Untouched d d') ?_ fun loaded => ?_
  · refine EStateM.Spec.weaken (spec_loadSnapshot (fun d' h => h.erase rfl) listing)
      (fun _ h => h) (fun loaded w hw => hw.imp fun h => ⟨fun first hfirst => ?_, h.1⟩)
      fun w hw => hw.imp (hspares w.state)
    exact covered_of_loaded h.1 h.2 hfirst
  exact Faults.Spec.fact fun hcovered => spec_openBehind hcovered listing

end Opening

end FileDatabase

end PromiseDb
