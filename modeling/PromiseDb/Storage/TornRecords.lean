import PromiseDb.Storage.Handles

/-!
# Torn records

A crash in the middle of an append leaves some of the bytes of a group.  The records that are complete
among them belong to the history of the database, and what is left of the next one is cut off when the
database is opened.
-/

namespace PromiseDb

open Database

variable {blake3 : List UInt8 → CommandHash}

/-! ## Complete records -/

variable (blake3) in
/-- The record of an item. -/
def frameItem (limits : RecordLimits) (sequence : RecordSequence) (item : TimestampedTransition) :
    Except StorageError (List UInt8) := do
  let payload ← encodeTransition item.transition
  Record.encode blake3 ⟨sequence, item.timestamp, payload⟩ limits

variable (blake3) in
/-- How many records of the items are complete within a number of bytes. -/
def completeRecords (limits : RecordLimits) :
    Option RecordSequence → List TimestampedTransition → Nat → Nat
  | some sequence, item :: items, length =>
    match frameItem blake3 limits sequence item with
    | .ok bytes =>
      if bytes.length ≤ length then
        completeRecords limits sequence.next items (length - bytes.length) + 1
      else 0
    | .error _ => 0
  | _, _, _ => 0

/-- There are no more records than items. -/
theorem completeRecords_le (limits : RecordLimits) (start : Option RecordSequence)
    (items : List TimestampedTransition) (length : Nat) :
    completeRecords blake3 limits start items length ≤ items.length := by
  induction items generalizing start length with
  | nil =>
    cases start with
    | none => exact le_rfl
    | some sequence => exact le_rfl
  | cons item items ih =>
    cases start with
    | none => exact Nat.zero_le _
    | some sequence =>
      unfold completeRecords
      split
      · split
        · exact Nat.succ_le_succ (ih _ _)
        · exact Nat.zero_le _
      · exact Nat.zero_le _

/-- Without bytes there is no complete record. -/
theorem completeRecords_zero (limits : RecordLimits) (start : Option RecordSequence)
    (items : List TimestampedTransition) : completeRecords blake3 limits start items 0 = 0 := by
  cases start with
  | none =>
    unfold completeRecords
    rfl
  | some sequence =>
    cases items with
    | nil => rfl
    | cons item items =>
      unfold completeRecords
      cases hframe : frameItem blake3 limits sequence item with
      | error error => rfl
      | ok bytes =>
        obtain ⟨payload, -, hencode⟩ := Except.bind_eq_ok.mp hframe
        have hpos := List.length_pos_of_ne_nil (RecordReader.encode_ne_nil hencode)
        exact if_neg (by omega)

/-- Some of the bytes of records are complete records and a part of the next one. -/
theorem Database.Logged.torn {limits : RecordLimits} {start next : Option RecordSequence}
    {items : List TimestampedTransition} {bytes part : List UInt8}
    (h : Logged blake3 limits start items bytes next) (hpart : part <+: bytes) :
    ∃ front tail middle, part = front ++ tail ∧
      Logged blake3 limits start
        (items.take (completeRecords blake3 limits start items part.length)) front middle ∧
      EngineRecovery.CutFrame blake3 limits middle tail := by
  induction h generalizing part with
  | nil start =>
    obtain rfl := List.prefix_nil.mp hpart
    rw [List.take_nil]
    exact ⟨[], [], start, rfl, .nil start, .inl rfl⟩
  | @cons sequence item payload bytes rest items next encoded framed others ih =>
    have hframe : frameItem blake3 limits sequence item = .ok bytes :=
      Except.bind_eq_ok.mpr ⟨payload, encoded, framed⟩
    unfold completeRecords
    rw [hframe]
    dsimp only
    by_cases hlong : bytes.length ≤ part.length
    · -- the first record is complete
      obtain ⟨part', rfl⟩ : bytes <+: part :=
        List.prefix_of_prefix_length_le (List.prefix_append bytes rest) hpart hlong
      have hrest : part' <+: rest := (List.prefix_append_right_inj bytes).mp hpart
      obtain ⟨front, tail, middle, rfl, hlogged, htail⟩ := ih hrest
      rw [if_pos hlong, List.length_append, Nat.add_sub_cancel_left, List.take_succ_cons]
      exact ⟨bytes ++ front, tail, middle, (List.append_assoc _ _ _).symm,
        .cons encoded framed hlogged, htail⟩
    · -- it is not
      have hfirst : part <+: bytes :=
        List.prefix_of_prefix_length_le hpart (List.prefix_append bytes rest) (by omega)
      rw [if_neg hlong, List.take_zero]
      refine ⟨[], part, some sequence, rfl, .nil _, .inr ?_⟩
      refine ⟨⟨sequence, item.timestamp, payload⟩, bytes, rfl, framed, hfirst, ?_⟩
      rintro rfl
      exact hlong le_rfl

/-! ## The length of the log -/

/-- How many bytes of records a file holds. -/
def FileName.recordLength : FileName → File → ℤ
  | segment _, file => file.content.length - Segment.headerLen
  | _, _ => 0

/-- A file that is not a segment holds none. -/
theorem FileName.recordLength_eq_zero {name : FileName} (hname : ∀ first, name ≠ .segment first)
    (file : File) : name.recordLength file = 0 := by
  cases name with
  | segment first => exact absurd rfl (hname first)
  | segmentTemp first => rfl
  | snapshot watermark => rfl
  | snapshotTemp => rfl

/-- How many bytes of records the segments hold. -/
def Directory.logLength (d : Directory) : ℤ := OrderedMap.sumOn d FileName.recordLength

namespace Directory

variable {d d' : Directory}

/-- A file that is not a segment does not count. -/
theorem logLength_insert_temp (d : Directory) {name : FileName}
    (hname : ∀ first, name ≠ .segment first) (file : File) :
    logLength (d.insert name file) = d.logLength := by
  have hold : d[name]?.elim 0 name.recordLength = 0 := by
    cases d[name]? with
    | none => rfl
    | some old => exact FileName.recordLength_eq_zero hname old
  unfold logLength
  rw [OrderedMap.sumOn_insert, hold, FileName.recordLength_eq_zero hname, sub_zero, add_zero]

/-- Removing a file that is no segment leaves the length of the log as it was. -/
theorem logLength_erase_temp (d : Directory) {name : FileName}
    (hname : ∀ first, name ≠ .segment first) : logLength (d.erase name) = d.logLength := by
  have hold : d[name]?.elim 0 name.recordLength = 0 := by
    cases d[name]? with
    | none => rfl
    | some old => exact FileName.recordLength_eq_zero hname old
  unfold logLength
  rw [OrderedMap.sumOn_erase, hold, sub_zero]

/-- A segment that is written anew. -/
theorem logLength_insert_segment (d : Directory) (first : RecordSequence) (file : File) :
    logLength (d.insert (.segment first) file) = d.logLength -
      d[FileName.segment first]?.elim 0 (fun old => (old.content.length : ℤ) - Segment.headerLen) +
        (file.content.length - Segment.headerLen) := by
  unfold logLength
  rw [OrderedMap.sumOn_insert]
  rfl

/-- A crash does not change the length of a log of which all bytes are stable. -/
theorem logLength_cut (hcut : d.Cut d') (hsynced : ∀ first file,
    d[FileName.segment first]? = some file → ∃ bytes, file = .synced bytes) :
    d'.logLength = d.logLength := by
  unfold logLength
  refine (OrderedMap.Rel.sumOn_eq hcut fun name file file' hfile hrel => ?_).symm
  cases name with
  | segment first =>
    obtain ⟨bytes, rfl⟩ := hsynced first file hfile
    obtain ⟨part, hpart, rfl⟩ := hrel
    obtain rfl := List.prefix_nil.mp hpart
    have hsame : File.synced ((File.synced bytes).stable ++ []) = .synced bytes :=
      congrArg File.synced (List.append_nil bytes)
    rw [hsame]
  | segmentTemp first => rfl
  | snapshot watermark => rfl
  | snapshotTemp => rfl

/-- A crash keeps a part of the bytes that were appended to a file. -/
theorem Cut.settle {name : FileName} {stable appended : List UInt8}
    (hcut : Cut (d.insert name ⟨stable, appended⟩) d') :
    ∃ part, part <+: appended ∧ Cut (d.insert name (.synced (stable ++ part))) d' := by
  have hname := hcut name
  rw [OrderedMap.lookup_insert_self] at hname
  cases hfile : d'[name]? with
  | none =>
    rw [hfile] at hname
    cases hname
  | some file =>
    rw [hfile] at hname
    cases hname with
    | some hrel =>
      obtain ⟨part, hpart, rfl⟩ := hrel
      refine ⟨part, hpart, fun other => ?_⟩
      rw [OrderedMap.lookup_insert]
      split
      · rename_i heq
        rw [← heq, hfile]
        exact .some ⟨[], List.nil_prefix, congrArg File.synced (List.append_nil _).symm⟩
      · rename_i hne
        have hother := hcut other
        rwa [OrderedMap.lookup_insert_of_ne d hne] at hother

end Directory

/-! ## Torn appends -/

variable {manifest : Manifest} {history items : List TimestampedTransition}
  {next : Option RecordSequence} {length : ℤ} {bytes : List UInt8} {d d' : Directory}

variable (blake3) in
/-- Bytes have been appended to the active segment, the first of which are stable. -/
def Torn (manifest : Manifest) (history : List TimestampedTransition)
    (next : Option RecordSequence) (length : ℤ) (bytes : List UInt8) (d : Directory) : Prop :=
  ∃ (shape : Shape) (old : Directory) (front back : List UInt8),
    shape.Of blake3 manifest.recordLimits history ∧ shape.In blake3 manifest [] old ∧
    shape.next = next ∧ shape.start ≠ none ∧ old.logLength = length ∧ bytes = front ++ back ∧
    d = old.insert (.segment shape.active)
      ⟨Segment.header blake3 manifest.databaseUuid shape.active ++ (shape.records ++ front), back⟩

/-- The length of the log when the active segment has got a tail. -/
theorem Shape.In.logLength_insert_active {shape : Shape} (h : shape.In blake3 manifest [] d)
    (hstart : shape.start ≠ none) (tail : List UInt8) :
    Directory.logLength (d.insert (.segment shape.active)
      (.synced (Segment.header blake3 manifest.databaseUuid shape.active ++
        (shape.records ++ tail)))) = d.logLength + tail.length := by
  obtain ⟨start, hstart⟩ := Option.ne_none_iff_exists'.mp hstart
  have hactive := h.contents start hstart (shape.active, shape.records ++ [])
    (List.mem_append_right _ (List.mem_singleton_self _))
  rw [Directory.logLength_insert_segment, hactive, Option.elim_some, File.content_synced,
    File.content_synced]
  simp only [List.length_append, Segment.length_header, List.length_nil]
  push_cast
  ring

/-- After a crash in the middle of an append, the complete records belong to the history. -/
theorem Torn.cut (h : Torn blake3 manifest history next length bytes d)
    (hlogged : ∃ after, Logged blake3 manifest.recordLimits next items bytes after)
    (hrecorded : ∀ k ≤ items.length, ∃ e, Recorded blake3 (history ++ items.take k) e)
    (hcut : d.Cut d') :
    Closed blake3 manifest (history ++ items.take (completeRecords blake3 manifest.recordLimits next
      items (d'.logLength - length).toNat)) d' := by
  obtain ⟨shape, old, front, back, hof, hin, rfl, hstart, rfl, rfl, rfl⟩ := h
  obtain ⟨after, hlogged⟩ := hlogged
  obtain ⟨part, hpart, hcut⟩ := hcut.settle
  have hkept : front ++ part <+: front ++ back := (List.prefix_append_right_inj front).mpr hpart
  rw [List.append_assoc, List.append_assoc] at hcut
  obtain ⟨start, hsome⟩ := Option.ne_none_iff_exists'.mp hstart
  have htail := hin.insert_active (hof.sorted hsome) (front ++ part)
  have hlength : (d'.logLength - old.logLength).toNat = (front ++ part).length := by
    rw [Directory.logLength_cut hcut, hin.logLength_insert_active hstart, add_sub_cancel_left,
      Int.toNat_natCast]
    intro first file hfile
    obtain ⟨bytes, hbytes⟩ := htail.intact.headers first file hfile
    exact ⟨_, hbytes⟩
  obtain ⟨records, rest, middle, hsplit, hcomplete, hrest⟩ := hlogged.torn hkept
  rw [hlength]
  have hclosed := htail.cut hcut
  rw [hsplit] at hclosed
  exact ⟨hrecorded _ (completeRecords_le _ _ _ _), _, rest, hof.extend hstart hcomplete,
    hclosed.extend middle, hrest⟩

end PromiseDb
