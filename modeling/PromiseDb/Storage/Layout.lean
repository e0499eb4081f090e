import PromiseDb.Storage.FileDatabase

/-!
# What the files of a database hold

The latest snapshot covers the first records of the history of a database, the sealed segments hold
the ones behind it, and the active segment holds the last ones and, after a crash, a part of one
more.  Everything else that is found in the directories does not matter: segments whose records are
all covered, older snapshots, and files under temporary names.
-/

namespace PromiseDb

open Database

variable {blake3 : List UInt8 → CommandHash}

/-! ## Sequences -/

/-- Record sequences are ordered as their numbers are. -/
theorem RecordSequence.le_iff {s t : RecordSequence} : s ≤ t ↔ s.get.val ≤ t.get.val := Iff.rfl

/-- Record sequences are strictly ordered as their numbers are. -/
theorem RecordSequence.lt_iff {s t : RecordSequence} : s < t ↔ s.get.val < t.get.val := Iff.rfl

/-- The sequence behind a watermark is one further. -/
theorem FileDatabase.successor_eq_some {watermark : U64} {s : RecordSequence} :
    FileDatabase.successor watermark = some s ↔ s.get.val = watermark.val + 1 := by
  rw [FileDatabase.successor, Option.bind_eq_some_iff]
  constructor
  · rintro ⟨value, hvalue, hnew⟩
    rw [← RecordSequence.new_eq_some.mp hnew]
    exact (BoundedInt.checkedAdd_eq_some.mp hvalue).symm
  · intro h
    exact ⟨s.get, BoundedInt.checkedAdd_eq_some.mpr h.symm, RecordSequence.new_eq_some.mpr rfl⟩

/-- Behind the last watermark there is no sequence. -/
theorem FileDatabase.successor_eq_none {watermark : U64} :
    FileDatabase.successor watermark = none ↔ watermark = FileDatabase.lastWatermark := by
  have hrange := watermark.property
  constructor
  · intro hnone
    apply Subtype.ext
    show watermark.val = 18446744073709551615
    by_contra hne
    have hval : (0 : ℤ) ≤ watermark.val + 1 ∧ watermark.val + 1 ≤ 18446744073709551615 := by omega
    have hzero : (⟨watermark.val + 1, hval⟩ : U64).val ≠ 0 := by
      show watermark.val + 1 ≠ 0
      omega
    have hsome : FileDatabase.successor watermark = some ⟨⟨watermark.val + 1, hval⟩, hzero⟩ :=
      FileDatabase.successor_eq_some.mpr rfl
    rw [hnone] at hsome
    cases hsome
  · intro hlast
    rw [Option.eq_none_iff_forall_not_mem]
    intro s hs
    have hnext := FileDatabase.successor_eq_some.mp hs
    have hbound := s.get.property
    rw [hlast] at hnext
    have hmax : FileDatabase.lastWatermark.val = 18446744073709551615 := rfl
    omega

/-- The watermark of a snapshot is the number of sequences before the next one. -/
theorem FileDatabase.snapshotWatermark_val (next : Option RecordSequence) :
    (FileDatabase.snapshotWatermark next).val = sequenceIndex next := by
  cases next with
  | none => rfl
  | some s =>
    have hzero := s.get_ne_zero
    have hrange := s.get.property
    have hval : (0 : ℤ) ≤ s.get.val - 1 ∧ s.get.val - 1 ≤ 18446744073709551615 := by omega
    have hsub : s.get.checkedSub ⟨1, U64.one_range⟩ = some ⟨s.get.val - 1, hval⟩ :=
      BoundedInt.checkedSub_eq_some.mpr rfl
    show ((s.get.checkedSub ⟨1, U64.one_range⟩).getD FileDatabase.lastWatermark).val =
      s.get.val - 1
    rw [hsub]
    rfl

/-- Behind the watermark of a snapshot is the next sequence. -/
theorem FileDatabase.successor_snapshotWatermark (next : Option RecordSequence) :
    FileDatabase.successor (FileDatabase.snapshotWatermark next) = next := by
  have hval := FileDatabase.snapshotWatermark_val next
  cases next with
  | none => exact FileDatabase.successor_eq_none.mpr rfl
  | some s =>
    rw [FileDatabase.successor_eq_some, hval]
    exact (sub_add_cancel s.get.val 1).symm

/-! ## Sealed segments -/

variable (blake3) in
/-- Segments of complete records, each of which goes on where the one before it ends, up to the
segment that starts with `last`. -/
inductive Sealed (limits : RecordLimits) : RecordSequence → List (RecordSequence × List UInt8) →
    List TimestampedTransition → RecordSequence → Prop
  | nil (start : RecordSequence) : Sealed limits start [] [] start
  | cons {first second last : RecordSequence} {items rest : List TimestampedTransition}
      {bytes : List UInt8} {segments : List (RecordSequence × List UInt8)}
      (logged : Logged blake3 limits (some first) items bytes (some second))
      (less : first < second) (others : Sealed limits second segments rest last) :
      Sealed limits first ((first, bytes) :: segments) (items ++ rest) last

namespace Sealed

variable {limits : RecordLimits} {start last : RecordSequence}
  {segments : List (RecordSequence × List UInt8)} {items : List TimestampedTransition}

/-- The segments go forward. -/
theorem le (h : Sealed blake3 limits start segments items last) : start ≤ last := by
  induction h with
  | nil start => exact le_rfl
  | cons logged less others ih => exact less.le.trans ih

/-- Every segment starts in between. -/
theorem firsts (h : Sealed blake3 limits start segments items last) :
    ∀ first ∈ segments.map Prod.fst, start ≤ first ∧ first < last := by
  induction h with
  | nil start => exact fun _ h => by cases h
  | @cons first second last items rest bytes segments logged less others ih =>
    intro other hother
    rw [List.map_cons, List.mem_cons] at hother
    rcases hother with rfl | hother
    · exact ⟨le_rfl, less.trans_le others.le⟩
    · obtain ⟨hle, hlt⟩ := ih other hother
      exact ⟨less.le.trans hle, hlt⟩

/-- The segments are in the order of their names. -/
theorem sorted (h : Sealed blake3 limits start segments items last) :
    (segments.map Prod.fst ++ [last]).Pairwise (· < ·) := by
  induction h with
  | nil start => exact List.pairwise_singleton _ _
  | @cons first second last items rest bytes segments logged less others ih =>
    rw [List.map_cons, List.cons_append, List.pairwise_cons]
    refine ⟨fun other hother => ?_, ih⟩
    rw [List.mem_append, List.mem_singleton] at hother
    rcases hother with hother | rfl
    · exact less.trans_le (others.firsts other hother).1
    · exact less.trans_le others.le

/-- One more segment is sealed. -/
theorem snoc (h : Sealed blake3 limits start segments items last)
    {more : List TimestampedTransition} {bytes : List UInt8} {next : RecordSequence}
    (hlogged : Logged blake3 limits (some last) more bytes (some next)) (hless : last < next) :
    Sealed blake3 limits start (segments ++ [(last, bytes)]) (items ++ more) next := by
  induction h with
  | nil start =>
    have hnil : Sealed blake3 limits next [] [] next := .nil next
    have hcons := Sealed.cons hlogged hless hnil
    rwa [List.append_nil] at hcons
  | cons logged less others ih =>
    rw [List.append_assoc]
    exact .cons logged less (ih hlogged hless)

/-- There is one sequence for each record. -/
theorem sequenceIndex (h : Sealed blake3 limits start segments items last) :
    Database.sequenceIndex (some last) = Database.sequenceIndex (some start) + items.length := by
  induction h with
  | nil start => exact (add_zero _).symm
  | cons logged less others ih =>
    rw [ih, logged.sequenceIndex, List.length_append]
    push_cast
    ring

end Sealed

/-! ## Shapes -/

/-- What the files stand for: the watermark and the state of the latest snapshot, the sealed segments
behind it, the active segment with its complete records, and the sequence of the next record. -/
structure Shape where
  selected : Option U64
  base : Engine
  sealedSegments : List (RecordSequence × List UInt8)
  active : RecordSequence
  records : List UInt8
  next : Option RecordSequence

namespace Shape

/-- How many records the snapshot covers. -/
def covered (shape : Shape) : Nat := shape.selected.elim 0 fun watermark => watermark.val.toNat

/-- The first sequence that the snapshot does not cover, if there is one. -/
def start (shape : Shape) : Option RecordSequence :=
  shape.selected.elim (some .first) FileDatabase.successor

/-- The segments from that sequence on, with a tail behind the last record. -/
def segments (shape : Shape) (tail : List UInt8) : List (RecordSequence × List UInt8) :=
  shape.sealedSegments ++ [(shape.active, shape.records ++ tail)]

/-- The names of the segments. -/
def firsts (shape : Shape) : List RecordSequence :=
  shape.sealedSegments.map Prod.fst ++ [shape.active]

/-- The segments of a layout are named by their first sequences. -/
theorem map_segments (shape : Shape) (tail : List UInt8) :
    (shape.segments tail).map Prod.fst = shape.firsts := by
  rw [segments, firsts, List.map_append, List.map_singleton]

/-- The files that are needed. -/
def Uses (shape : Shape) : FileName → Prop
  | .segment first => first ∈ shape.firsts
  | .snapshot watermark => watermark ∈ shape.selected
  | .segmentTemp _ => False
  | .snapshotTemp => False

variable (blake3) in
/-- The shape stands for a history: the snapshot for its first records, and the segments for the
others. -/
structure Of (limits : RecordLimits) (history : List TimestampedTransition) (shape : Shape) :
    Prop where
  covers : shape.covered ≤ history.length
  base : Engine.installAll blake3 .empty (history.take shape.covered) = .ok shape.base
  logged : ∀ start, shape.start = some start → ∃ items rest,
    Sealed blake3 limits start shape.sealedSegments items shape.active ∧
    Logged blake3 limits (some shape.active) rest shape.records shape.next ∧
    history.drop shape.covered = items ++ rest
  exhausted : shape.start = none → history.length = shape.covered ∧ shape.next = none

variable (blake3) in
/-- Every segment has its header, and the latest snapshot can be read back. -/
structure Intact (manifest : Manifest) (shape : Shape) (d : Directory) : Prop where
  headers : ∀ first file, d[FileName.segment first]? = some file →
    ∃ bytes, file = .synced (Segment.header blake3 manifest.databaseUuid first ++ bytes)
  latest : ∀ watermark, .snapshot watermark ∈ d → ∃ last ∈ shape.selected, watermark ≤ last
  snapshot : ∀ watermark ∈ shape.selected, ∃ bytes,
    d[FileName.snapshot watermark]? = some (.synced bytes) ∧
    bytes.length ≤ manifest.snapshotLimits.maxTotalBytes.val.toNat ∧
    Snapshot.decode blake3 bytes manifest.snapshotLimits manifest.databaseUuid
      stateMachineSemanticsVersion watermark = .ok ⟨watermark, shape.base⟩

variable (blake3) in
/-- The files have the shape, with a tail behind the last record. -/
structure In (manifest : Manifest) (shape : Shape) (tail : List UInt8) (d : Directory) : Prop where
  intact : shape.Intact blake3 manifest d
  active : .segment shape.active ∈ d
  contents : ∀ start ∈ shape.start, ∀ entry ∈ shape.segments tail,
    d[FileName.segment entry.1]? =
      some (.synced (Segment.header blake3 manifest.databaseUuid entry.1 ++ entry.2))
  names : ∀ start ∈ shape.start, ∀ first, start ≤ first → .segment first ∈ d →
    first ∈ shape.firsts

/-! ## Shapes of a history -/

variable {limits : RecordLimits} {history : List TimestampedTransition} {shape : Shape}

/-- Behind a snapshot there is the number of records that it covers, and one sequence less. -/
theorem sequenceIndex_start (shape : Shape) : sequenceIndex shape.start = shape.covered := by
  unfold start covered
  cases shape.selected with
  | none => rfl
  | some watermark =>
    have hpos := watermark.property.1
    show sequenceIndex (FileDatabase.successor watermark) = (watermark.val.toNat : ℤ)
    cases hnext : FileDatabase.successor watermark with
    | none =>
      rw [FileDatabase.successor_eq_none] at hnext
      rw [hnext]
      rfl
    | some s =>
      have hs := FileDatabase.successor_eq_some.mp hnext
      show s.get.val - 1 = (watermark.val.toNat : ℤ)
      omega

/-- The next sequence is the one behind the history. -/
theorem Of.sequenceIndex_next (h : shape.Of blake3 limits history) :
    sequenceIndex shape.next = history.length := by
  have hstart := shape.sequenceIndex_start
  cases hs : shape.start with
  | none =>
    obtain ⟨hlength, hnext⟩ := h.exhausted hs
    rw [hs] at hstart
    rw [hnext, hlength]
    exact hstart
  | some start =>
    obtain ⟨items, rest, hsealed, hlogged, hdrop⟩ := h.logged start hs
    have hlength := congrArg List.length hdrop
    rw [List.length_drop, List.length_append] at hlength
    have hcovers := h.covers
    rw [hs] at hstart
    rw [hlogged.sequenceIndex, hsealed.sequenceIndex, hstart]
    omega

/-- The segments start with the first sequence that is not covered, and every one is found. -/
theorem Of.sorted (h : shape.Of blake3 limits history) {start : RecordSequence}
    (hstart : shape.start = some start) : shape.firsts.Pairwise (· < ·) := by
  obtain ⟨items, rest, hsealed, -, -⟩ := h.logged start hstart
  exact hsealed.sorted

/-- No segment is covered. -/
theorem Of.start_le (h : shape.Of blake3 limits history) {start : RecordSequence}
    (hstart : shape.start = some start) {first : RecordSequence} (hfirst : first ∈ shape.firsts) :
    start ≤ first := by
  obtain ⟨items, rest, hsealed, -, -⟩ := h.logged start hstart
  rw [firsts, List.mem_append, List.mem_singleton] at hfirst
  rcases hfirst with hfirst | rfl
  · exact (hsealed.firsts first hfirst).1
  · exact hsealed.le

/-! ## Changes of the files -/

variable {manifest : Manifest} {tail : List UInt8} {d d' : Directory}

/-- The shape only depends on the files that are needed, if there is no other segment and no other
snapshot. -/
theorem In.of_agree (h : shape.In blake3 manifest tail d)
    (hsegments : ∀ first file, d'[FileName.segment first]? = some file →
      d[FileName.segment first]? = some file)
    (hsnapshots : ∀ watermark, FileName.snapshot watermark ∈ d' → FileName.snapshot watermark ∈ d)
    (huses : ∀ name, shape.Uses name → d'[name]? = d[name]?) :
    shape.In blake3 manifest tail d' where
  intact := by
    refine ⟨fun first file hfile => h.intact.headers first file (hsegments first file hfile),
      fun watermark hmem => h.intact.latest watermark (hsnapshots watermark hmem), ?_⟩
    intro watermark hselected
    obtain ⟨bytes, hbytes, hlength, hdecode⟩ := h.intact.snapshot watermark hselected
    exact ⟨bytes, (huses (.snapshot watermark) hselected).trans hbytes, hlength, hdecode⟩
  active := by
    obtain ⟨file, hfile⟩ := OrderedMap.mem_iff_lookup.mp h.active
    have huse : shape.Uses (.segment shape.active) :=
      List.mem_append_right _ (List.mem_singleton_self _)
    exact OrderedMap.mem_iff_lookup.mpr ⟨file, (huses _ huse).trans hfile⟩
  contents := by
    intro start hstart entry hentry
    have huse : shape.Uses (.segment entry.1) := by
      show entry.1 ∈ shape.firsts
      rw [← shape.map_segments tail]
      exact List.mem_map_of_mem hentry
    exact (huses _ huse).trans (h.contents start hstart entry hentry)
  names := by
    intro start hstart first hle hmem
    obtain ⟨file, hfile⟩ := OrderedMap.mem_iff_lookup.mp hmem
    exact h.names start hstart first hle
      (OrderedMap.mem_iff_lookup.mpr ⟨file, hsegments first file hfile⟩)

/-- A file that is not needed is removed. -/
theorem In.erase (h : shape.In blake3 manifest tail d) {name : FileName}
    (hname : ¬shape.Uses name) : shape.In blake3 manifest tail (d.erase name) := by
  have hlookup (other : FileName) (file : File) (hother : (d.erase name)[other]? = some file) :
      d[other]? = some file := by
    rw [OrderedMap.lookup_erase] at hother
    split at hother
    · cases hother
    · exact hother
  refine h.of_agree (fun first file => hlookup _ file) ?_ ?_
  · intro watermark hmem
    obtain ⟨file, hfile⟩ := OrderedMap.mem_iff_lookup.mp hmem
    exact OrderedMap.mem_iff_lookup.mpr ⟨file, hlookup _ file hfile⟩
  · intro other hother
    apply OrderedMap.lookup_erase_of_ne
    rintro rfl
    exact hname hother

/-- A file under a temporary name is written. -/
theorem In.insert_temp (h : shape.In blake3 manifest tail d) {name : FileName} (file : File)
    (hsegment : ∀ first, name ≠ .segment first) (hsnapshot : ∀ watermark, name ≠ .snapshot watermark) :
    shape.In blake3 manifest tail (d.insert name file) := by
  refine h.of_agree ?_ ?_ ?_
  · intro first other hother
    rwa [OrderedMap.lookup_insert_of_ne d (hsegment first)] at hother
  · intro watermark hmem
    obtain ⟨other, hother⟩ := OrderedMap.mem_iff_lookup.mp hmem
    rw [OrderedMap.lookup_insert_of_ne d (hsnapshot watermark)] at hother
    exact OrderedMap.mem_iff_lookup.mpr ⟨other, hother⟩
  · intro other hother
    apply OrderedMap.lookup_insert_of_ne
    rintro rfl
    cases name with
    | segment first => exact hsegment first rfl
    | snapshot watermark => exact hsnapshot watermark rfl
    | segmentTemp first => exact hother
    | snapshotTemp => exact hother

/-- A file of which all bytes are stable is not changed by a crash. -/
theorem cut_synced {name : FileName} {bytes : List UInt8} (hcut : d.Cut d')
    (h : d[name]? = some (.synced bytes)) : d'[name]? = some (.synced bytes) := by
  have hrel := hcut name
  rw [h] at hrel
  cases hd' : d'[name]? with
  | none =>
    rw [hd'] at hrel
    cases hrel
  | some file =>
    rw [hd'] at hrel
    cases hrel with
    | some hfile =>
      obtain ⟨part, hpart, rfl⟩ := hfile
      rw [List.prefix_nil.mp hpart]
      exact congrArg some (congrArg File.synced (List.append_nil bytes))

/-- A crash changes nothing about the shape. -/
theorem In.cut (h : shape.In blake3 manifest tail d) (hcut : d.Cut d') :
    shape.In blake3 manifest tail d' := by
  have hsegment (first : RecordSequence) (file : File)
      (hfile : d'[FileName.segment first]? = some file) :
      d[FileName.segment first]? = some file := by
    have hmem : FileName.segment first ∈ d :=
      (hcut.mem_iff _).mpr (OrderedMap.mem_iff_lookup.mpr ⟨file, hfile⟩)
    obtain ⟨old, hold⟩ := OrderedMap.mem_iff_lookup.mp hmem
    obtain ⟨bytes, rfl⟩ := h.intact.headers first old hold
    rw [cut_synced hcut hold] at hfile
    rw [hold, hfile]
  refine h.of_agree hsegment (fun watermark hmem => (hcut.mem_iff _).mpr hmem) ?_
  intro name huse
  cases name with
  | segment first =>
    have hmem : FileName.segment first ∈ d' → d'[FileName.segment first]? =
        d[FileName.segment first]? := by
      intro hmem
      obtain ⟨file, hfile⟩ := OrderedMap.mem_iff_lookup.mp hmem
      rw [hfile, hsegment first file hfile]
    by_cases hthere : FileName.segment first ∈ d'
    · exact hmem hthere
    · have hold : FileName.segment first ∉ d := fun hold => hthere ((hcut.mem_iff _).mp hold)
      rw [OrderedMap.not_mem_iff_lookup.mp hthere, OrderedMap.not_mem_iff_lookup.mp hold]
  | snapshot watermark =>
    obtain ⟨bytes, hbytes, -⟩ := h.intact.snapshot watermark huse
    rw [hbytes, cut_synced hcut hbytes]
  | segmentTemp first => exact huse.elim
  | snapshotTemp => exact huse.elim

/-- More records are in the active segment. -/
def extended (shape : Shape) (bytes : List UInt8) (next : Option RecordSequence) : Shape :=
  { shape with records := shape.records ++ bytes, next := next }

/-- A part of the tail is counted to the records. -/
theorem In.extend {part : List UInt8} (h : shape.In blake3 manifest (part ++ tail) d)
    (next : Option RecordSequence) :
    (shape.extended part next).In blake3 manifest tail d where
  intact := ⟨h.intact.headers, h.intact.latest, h.intact.snapshot⟩
  active := h.active
  contents := by
    intro start hstart entry hentry
    refine h.contents start hstart entry ?_
    rw [segments] at hentry ⊢
    rwa [extended, List.append_assoc] at hentry
  names := h.names

/-- A segment is written. -/
theorem Intact.insert_segment (h : shape.Intact blake3 manifest d) (first : RecordSequence)
    (bytes : List UInt8) :
    shape.Intact blake3 manifest (d.insert (.segment first)
      (.synced (Segment.header blake3 manifest.databaseUuid first ++ bytes))) where
  headers := by
    intro other file hfile
    rw [OrderedMap.lookup_insert] at hfile
    split at hfile
    · rename_i hname
      obtain rfl := FileName.segment.inj hname
      exact ⟨bytes, (Option.some.inj hfile).symm⟩
    · exact h.headers other file hfile
  latest := by
    intro watermark hmem
    have hname : FileName.segment first ≠ .snapshot watermark := nofun
    exact h.latest watermark ((OrderedMap.mem_insert_iff.mp hmem).resolve_left hname)
  snapshot := by
    intro watermark hselected
    have hname : FileName.segment first ≠ .snapshot watermark := nofun
    rw [OrderedMap.lookup_insert_of_ne d hname]
    exact h.snapshot watermark hselected

/-- What the sealed segments hold is not changed by a segment behind them. -/
theorem In.lookup_insert_segment (h : shape.In blake3 manifest tail d) {start : RecordSequence}
    (hstart : start ∈ shape.start) {first : RecordSequence} (file : File)
    {entry : RecordSequence × List UInt8} (hentry : entry ∈ shape.segments tail)
    (hless : entry.1 < first) :
    (d.insert (.segment first) file)[FileName.segment entry.1]? =
      some (.synced (Segment.header blake3 manifest.databaseUuid entry.1 ++ entry.2)) := by
  have hname : FileName.segment first ≠ .segment entry.1 := by
    intro heq
    exact hless.ne (FileName.segment.inj heq).symm
  rw [OrderedMap.lookup_insert_of_ne d hname]
  exact h.contents start hstart entry hentry

/-- The active segment gets another tail. -/
theorem In.insert_active (h : shape.In blake3 manifest tail d)
    (hsorted : shape.firsts.Pairwise (· < ·)) (tail' : List UInt8) :
    shape.In blake3 manifest tail' (d.insert (.segment shape.active)
      (.synced (Segment.header blake3 manifest.databaseUuid shape.active ++
        (shape.records ++ tail')))) where
  intact := h.intact.insert_segment _ _
  active := OrderedMap.mem_insert_iff.mpr (.inl rfl)
  contents := by
    intro start hstart entry hentry
    rw [segments, List.mem_append, List.mem_singleton] at hentry
    rcases hentry with hentry | rfl
    · have hless : entry.1 < shape.active := by
        rw [firsts, List.pairwise_append] at hsorted
        exact hsorted.2.2 entry.1 (List.mem_map_of_mem hentry) _ (List.mem_singleton_self _)
      exact h.lookup_insert_segment hstart _ (List.mem_append_left _ hentry) hless
    · exact OrderedMap.lookup_insert_self d _ _
  names := by
    intro start hstart first hle hmem
    rcases OrderedMap.mem_insert_iff.mp hmem with heq | hmem
    · rw [← FileName.segment.inj heq]
      exact List.mem_append_right _ (List.mem_singleton_self _)
    · exact h.names start hstart first hle hmem

/-- The active segment is sealed, and a new one is active. -/
def rotated (shape : Shape) (next : RecordSequence) : Shape where
  selected := shape.selected
  base := shape.base
  sealedSegments := shape.sealedSegments ++ [(shape.active, shape.records)]
  active := next
  records := []
  next := some next

/-- A new active segment is created. -/
theorem In.rotate (h : shape.In blake3 manifest [] d) (hsorted : shape.firsts.Pairwise (· < ·))
    {next : RecordSequence} (hless : shape.active < next) :
    (shape.rotated next).In blake3 manifest [] (d.insert (.segment next)
      (.synced (Segment.header blake3 manifest.databaseUuid next))) where
  intact := by
    have hintact : (shape.rotated next).Intact blake3 manifest d :=
      ⟨h.intact.headers, h.intact.latest, h.intact.snapshot⟩
    have hinsert := hintact.insert_segment next []
    rwa [List.append_nil] at hinsert
  active := OrderedMap.mem_insert_iff.mpr (.inl rfl)
  contents := by
    intro start hstart entry hentry
    rw [segments, List.mem_append, List.mem_singleton] at hentry
    rcases hentry with hentry | rfl
    · have hold : entry ∈ shape.segments [] := by
        rw [segments, List.append_nil]
        exact hentry
      have hfirst : entry.1 ∈ shape.firsts := by
        rw [← shape.map_segments []]
        exact List.mem_map_of_mem hold
      have hle : entry.1 ≤ shape.active := by
        rw [firsts, List.mem_append, List.mem_singleton] at hfirst
        rcases hfirst with hfirst | heq
        · rw [firsts, List.pairwise_append] at hsorted
          exact (hsorted.2.2 entry.1 hfirst _ (List.mem_singleton_self _)).le
        · exact heq.le
      exact h.lookup_insert_segment hstart _ hold (hle.trans_lt hless)
    · show (d.insert (.segment next) _)[FileName.segment next]? = _
      rw [OrderedMap.lookup_insert_self]
      exact congrArg (fun bytes => some (File.synced bytes)) (List.append_nil _).symm
  names := by
    intro start hstart first hle hmem
    rcases OrderedMap.mem_insert_iff.mp hmem with heq | hmem
    · rw [← FileName.segment.inj heq]
      exact List.mem_append_right _ (List.mem_singleton_self _)
    · have hold := h.names start hstart first hle hmem
      rw [firsts] at hold ⊢
      rw [rotated, List.map_append, List.map_singleton]
      exact List.mem_append_left _ hold

/-- A rotation keeps what the files stand for. -/
theorem Of.rotate (h : shape.Of blake3 limits history) {next : RecordSequence}
    (hnext : shape.next = some next) (hless : shape.active < next) :
    (shape.rotated next).Of blake3 limits history where
  covers := h.covers
  base := h.base
  logged := by
    intro start hstart
    obtain ⟨items, rest, hsealed, hlogged, hdrop⟩ := h.logged start hstart
    rw [hnext] at hlogged
    refine ⟨items ++ rest, [], hsealed.snoc hlogged hless, .nil _, ?_⟩
    rw [List.append_nil]
    exact hdrop
  exhausted := by
    intro hstart
    have hnone := (h.exhausted hstart).2
    rw [hnext] at hnone
    cases hnone

/-- More records continue the history. -/
theorem Of.extend (h : shape.Of blake3 limits history) (hstart : shape.start ≠ none)
    {items : List TimestampedTransition} {bytes : List UInt8} {next : Option RecordSequence}
    (hlogged : Logged blake3 limits shape.next items bytes next) :
    (shape.extended bytes next).Of blake3 limits (history ++ items) where
  covers := by
    rw [List.length_append]
    exact h.covers.trans (Nat.le_add_right _ _)
  base := by
    show Engine.installAll blake3 .empty ((history ++ items).take shape.covered) = .ok shape.base
    rw [List.take_append_of_le_length h.covers]
    exact h.base
  logged := by
    intro start hsome
    obtain ⟨before, rest, hsealed, hrest, hdrop⟩ := h.logged start hsome
    refine ⟨before, rest ++ items, hsealed, hrest.append hlogged, ?_⟩
    show (history ++ items).drop shape.covered = _
    rw [List.drop_append_of_le_length h.covers, hdrop, List.append_assoc]
  exhausted := fun hnone => absurd hnone hstart

/-- A snapshot covers every record. -/
def snapshotted (shape : Shape) (base : Engine) : Shape where
  selected := some (FileDatabase.snapshotWatermark shape.next)
  base := base
  sealedSegments := []
  active := shape.active
  records := shape.records
  next := shape.next

/-- No record follows the ones of the sealed segments. -/
def Rotated (shape : Shape) : Prop :=
  ∀ next, shape.next = some next → shape.active = next ∧ shape.records = [] ∧ shape.start ≠ none

/-- The snapshot of a history stands for it. -/
theorem Of.snapshot (h : shape.Of blake3 limits history) (hrotated : shape.Rotated) {base : Engine}
    (hbase : Engine.installAll blake3 .empty history = .ok base) :
    (shape.snapshotted base).Of blake3 limits history := by
  have hcovered : (shape.snapshotted base).covered = history.length := by
    show (FileDatabase.snapshotWatermark shape.next).val.toNat = history.length
    rw [FileDatabase.snapshotWatermark_val, h.sequenceIndex_next, Int.toNat_natCast]
  have hstart : (shape.snapshotted base).start = shape.next :=
    FileDatabase.successor_snapshotWatermark shape.next
  refine ⟨hcovered.le, ?_, ?_, ?_⟩
  · rw [hcovered, List.take_length]
    exact hbase
  · intro start hnext
    rw [hstart] at hnext
    obtain ⟨hactive, hrecords, -⟩ := hrotated start hnext
    rw [hcovered, List.drop_length]
    refine ⟨[], [], ?_, ?_, rfl⟩
    · show Sealed blake3 limits start [] [] shape.active
      rw [hactive]
      exact .nil start
    · show Logged blake3 limits (some shape.active) [] shape.records shape.next
      rw [hrecords, hnext, hactive]
      exact .nil _
  · intro hnone
    rw [hstart] at hnone
    exact ⟨hcovered.symm, hnone⟩

/-- A snapshot that covers every record is installed. -/
theorem In.snapshot (h : shape.In blake3 manifest [] d) (hof : shape.Of blake3 limits history)
    (hrotated : shape.Rotated) {base : Engine} {bytes : List UInt8}
    (hlength : bytes.length ≤ manifest.snapshotLimits.maxTotalBytes.val.toNat)
    (hdecode : Snapshot.decode blake3 bytes manifest.snapshotLimits manifest.databaseUuid
      stateMachineSemanticsVersion (FileDatabase.snapshotWatermark shape.next) =
        .ok ⟨FileDatabase.snapshotWatermark shape.next, base⟩) :
    (shape.snapshotted base).In blake3 manifest []
      (d.insert (.snapshot (FileDatabase.snapshotWatermark shape.next)) (.synced bytes)) := by
  have hlookup (first : RecordSequence) :
      (d.insert (.snapshot (FileDatabase.snapshotWatermark shape.next))
        (.synced bytes))[FileName.segment first]? = d[FileName.segment first]? := by
    have hname : FileName.snapshot (FileDatabase.snapshotWatermark shape.next) ≠ .segment first :=
      nofun
    exact OrderedMap.lookup_insert_of_ne d hname _
  have hmem (first : RecordSequence) :
      FileName.segment first ∈ d.insert (.snapshot (FileDatabase.snapshotWatermark shape.next))
        (.synced bytes) ↔ FileName.segment first ∈ d := by
    rw [OrderedMap.mem_iff_lookup, OrderedMap.mem_iff_lookup, hlookup]
  have hstart : (shape.snapshotted base).start = shape.next :=
    FileDatabase.successor_snapshotWatermark shape.next
  refine ⟨⟨?_, ?_, ?_⟩, (hmem _).mpr h.active, ?_, ?_⟩
  · intro first file hfile
    rw [hlookup] at hfile
    exact h.intact.headers first file hfile
  · -- every older snapshot covers no more than all records
    intro watermark hold
    refine ⟨_, rfl, ?_⟩
    rcases OrderedMap.mem_insert_iff.mp hold with heq | hold
    · exact (FileName.snapshot.inj heq).symm.le
    · obtain ⟨last, hlast, hle⟩ := h.intact.latest watermark hold
      refine hle.trans ?_
      show last.val ≤ (FileDatabase.snapshotWatermark shape.next).val
      have hcovered : shape.covered = last.val.toNat := by
        rw [covered, Option.mem_def.mp hlast]
        rfl
      have hcovers := hof.covers
      have hpos := last.property.1
      rw [FileDatabase.snapshotWatermark_val, hof.sequenceIndex_next]
      omega
  · intro watermark hselected
    obtain rfl := Option.some.inj hselected
    exact ⟨bytes, OrderedMap.lookup_insert_self d _ _, hlength, hdecode⟩
  · intro start hnext entry hentry
    rw [hstart] at hnext
    obtain ⟨-, -, hsome⟩ := hrotated start hnext
    obtain ⟨old, hold⟩ := Option.ne_none_iff_exists'.mp hsome
    rw [hlookup]
    exact h.contents old hold entry (List.mem_append_right _ hentry)
  · intro start hnext first hle hfirst
    rw [hstart] at hnext
    obtain ⟨hactive, -, hsome⟩ := hrotated start hnext
    obtain ⟨old, hold⟩ := Option.ne_none_iff_exists'.mp hsome
    have hactiveOld : shape.active ∈ shape.firsts :=
      List.mem_append_right _ (List.mem_singleton_self _)
    have hbelow := (hof.start_le hold hactiveOld).trans (hactive.le.trans hle)
    have hfound := h.names old hold first hbelow ((hmem first).mp hfirst)
    rw [firsts, List.mem_append, List.mem_singleton] at hfound
    rcases hfound with hfound | rfl
    · have hsorted := hof.sorted hold
      rw [firsts, List.pairwise_append] at hsorted
      have hless := hsorted.2.2 first hfound _ (List.mem_singleton_self _)
      exact absurd (hactive.le.trans hle) (not_le.mpr hless)
    · exact List.mem_singleton_self _

end Shape

/-! ## Closed databases -/

variable (blake3) in
/-- A history of items that were executed, and that can be decoded. -/
structure Recorded (history : List TimestampedTransition) (e : Engine) : Prop where
  is : Engine.HistoryIs blake3 history e
  recordable : ∀ item ∈ history, item.Recordable

variable (blake3) in
/-- The files of a database that is not open stand for a history, with at most a part of a record
behind it. -/
def Closed (manifest : Manifest) (history : List TimestampedTransition) (d : Directory) : Prop :=
  (∃ e, Recorded blake3 history e) ∧ ∃ shape tail,
    Shape.Of blake3 manifest.recordLimits history shape ∧ shape.In blake3 manifest tail d ∧
      EngineRecovery.CutFrame blake3 manifest.recordLimits shape.next tail

/-- The configuration that a database is opened with goes with what is kept about it. -/
structure FileDatabaseOptions.Matches (options : FileDatabaseOptions) (manifest : Manifest) :
    Prop where
  valid : options.validate = .ok ()
  recordLimits : options.recordLimits = manifest.recordLimits
  snapshotLimits : options.snapshotLimits = manifest.snapshotLimits
  durability : options.durability = .sync

end PromiseDb
