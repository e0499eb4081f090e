import PromiseDb.Storage.Handles

/-!
# Opening a database

Opening keeps what the files stand for at every point where it may be stopped, and if it is not
stopped it recovers the history, at most a part of a record cut off behind it.
-/

namespace PromiseDb

open Database Faults

variable {blake3 : List UInt8 → CommandHash} {faulty : Prop}

/-! ## Removing files -/

/-- Some of the listed files have been looked at, and those that were to be removed are removed. -/
structure Removed (K : Directory → Prop) (removes : FileName → Prop) (names done : List FileName)
    (d : Directory) : Prop where
  keeps : K d
  there : ∀ name ∈ names, name ∉ done → name ∈ d
  listed : ∀ name ∈ d, removes name → name ∈ names ∧ name ∉ done

namespace Removed

variable {K : Directory → Prop} {removes : FileName → Prop} {names done : List FileName}
  {name : FileName} {d : Directory}

/-- A listed file is removed. -/
theorem erase (h : Removed K removes names done d) (hkeeps : K (d.erase name)) :
    Removed K removes names (done ++ [name]) (d.erase name) where
  keeps := hkeeps
  there := by
    intro other hother hnew
    rw [List.mem_append, List.mem_singleton, not_or] at hnew
    obtain ⟨file, hfile⟩ := OrderedMap.mem_iff_lookup.mp (h.there other hother hnew.1)
    refine OrderedMap.mem_iff_lookup.mpr ⟨file, ?_⟩
    rwa [OrderedMap.lookup_erase_of_ne d fun heq => hnew.2 heq.symm]
  listed := by
    intro other hother hremoves
    obtain ⟨file, hfile⟩ := OrderedMap.mem_iff_lookup.mp hother
    rw [OrderedMap.lookup_erase] at hfile
    split at hfile
    · cases hfile
    · rename_i hne
      obtain ⟨hlisted, hnew⟩ :=
        h.listed other (OrderedMap.mem_iff_lookup.mpr ⟨file, hfile⟩) hremoves
      refine ⟨hlisted, ?_⟩
      rw [List.mem_append, List.mem_singleton, not_or]
      exact ⟨hnew, fun heq => hne heq.symm⟩

/-- A listed file is not removed. -/
theorem skip (h : Removed K removes names done d) (hname : ¬removes name) :
    Removed K removes names (done ++ [name]) d where
  keeps := h.keeps
  there := by
    intro other hother hnew
    rw [List.mem_append, not_or] at hnew
    exact h.there other hother hnew.1
  listed := by
    intro other hother hremoves
    obtain ⟨hlisted, hnew⟩ := h.listed other hother hremoves
    refine ⟨hlisted, ?_⟩
    rw [List.mem_append, List.mem_singleton, not_or]
    refine ⟨hnew, ?_⟩
    rintro rfl
    exact hname hremoves

/-- Before anything is removed, what is to be removed is listed. -/
theorem start {listing : Listing} {part : FileName → Bool} (hkeeps : K d)
    (hpart : ∀ other, removes other → part other = true) :
    Removed K removes (d.list listing part) [] d where
  keeps := hkeeps
  there := fun _ hlisted _ => (Directory.mem_list.mp hlisted).1
  listed := fun _ hmem hremoves =>
    ⟨Directory.mem_list.mpr ⟨hmem, hpart _ hremoves⟩, List.not_mem_nil⟩

/-- Afterwards nothing is left of what was to be removed. -/
theorem not_mem (h : Removed K removes names names d) (hremoves : removes name) : name ∉ d :=
  fun hname => (h.listed name hname hremoves).2 (h.listed name hname hremoves).1

end Removed

/-! ## Temporary names -/

/-- The segments that were not renamed are removed. -/
theorem spec_cleanupSegmentTemps {K : Directory → Prop} {C : Directory → Prop} {listing : Listing}
    (herase : ∀ d first, K d → K (d.erase (.segmentTemp first))) (hC : faulty → ∀ d, K d → C d) :
    Faults.Spec faulty K (FileDatabase.cleanupSegmentTemps listing)
      (fun _ d => K d ∧ ∀ first, FileName.segmentTemp first ∉ d) C := by
  have hwhere (name : FileName) (h : FileDatabase.isSegmentTemp name = true) :
      ∃ first, name = .segmentTemp first := by
    cases name with
    | segmentTemp first => exact ⟨first, rfl⟩
    | segment first => cases h
    | snapshot watermark => cases h
    | snapshotTemp => cases h
  unfold FileDatabase.cleanupSegmentTemps
  refine EStateM.Spec.bind (R := fun names => Upto faulty fun d => names.Nodup ∧
    Removed K (fun name => FileDatabase.isSegmentTemp name = true) names [] d) ?_ fun names => ?_
  · refine (FileCalls.spec_readDir ?_ hC fun hfaulty names d h => hC hfaulty d h.2.keeps).renamed
    intro d hd
    refine ⟨Directory.nodup_list _ _ _, Removed.start hd ?_⟩
    intro name hname
    obtain ⟨first, rfl⟩ := hwhere name hname
    rfl
  · refine Faults.Spec.fact fun hnodup => ?_
    have hloop : Faults.Spec faulty
        (Removed K (fun name => FileDatabase.isSegmentTemp name = true) names [])
        (names.forM fun name => do
          FileDatabase.io "read WAL directory entry" FileCalls.entry
          if FileDatabase.isSegmentTemp name then
            FileDatabase.io "remove temporary WAL segment" (FileCalls.remove name))
        (fun _ => Removed K (fun name => FileDatabase.isSegmentTemp name = true) names names) C := by
      refine EStateM.Spec.forM (I := fun done => Upto faulty
        (Removed K (fun name => FileDatabase.isSegmentTemp name = true) names done)) ?_
      intro done name rest hnames
      have hnew : name ∉ done := by
        rw [hnames, List.nodup_append] at hnodup
        exact fun hdone => hnodup.2.2 name hdone name List.mem_cons_self rfl
      have hlisted : name ∈ names := by
        rw [hnames]
        exact List.mem_append_right _ List.mem_cons_self
      refine EStateM.Spec.andThen
        (FileCalls.spec_entry fun hfaulty d h => hC hfaulty d h.keeps).renamed ?_
      refine EStateM.Spec.ite ?_ ?_
      · intro htemp
        obtain ⟨first, rfl⟩ := hwhere name htemp
        refine (FileCalls.spec_remove (fun d h => h.there _ hlisted hnew) ?_
          (fun hfaulty d h => hC hfaulty d h.keeps) fun hfaulty d h => hC hfaulty d h.keeps).renamed
        intro d h
        exact h.erase (herase d first h.keeps)
      · intro htemp
        exact EStateM.spec_pure fun w h => h.imp fun h => h.skip htemp
    refine EStateM.Spec.andThen hloop ?_
    have hend (d : Directory)
        (h : Removed K (fun name => FileDatabase.isSegmentTemp name = true) names names d) :
        K d ∧ ∀ first, FileName.segmentTemp first ∉ d :=
      ⟨h.keeps, fun first => h.not_mem rfl⟩
    refine EStateM.Spec.ite ?_ ?_
    · intro hany
      exact (FileCalls.spec_syncDirectory fun hfaulty d h => hC hfaulty d h.keeps).renamed.weaken
        (fun _ h => h) (fun _ _ h => h.imp (hend _)) fun _ h => h
    · intro hany
      exact EStateM.spec_pure fun w h => h.imp (hend _)

/-- The snapshot that was not renamed is removed. -/
theorem spec_cleanupSnapshotTemp {K : Directory → Prop} {C : Directory → Prop}
    (herase : ∀ d, K d → K (d.erase .snapshotTemp)) (hC : faulty → ∀ d, K d → C d) :
    Faults.Spec faulty K FileDatabase.cleanupSnapshotTemp
      (fun _ d => K d ∧ FileName.snapshotTemp ∉ d) C := by
  refine Faults.Spec.known fun d hd => ?_
  rintro w ⟨hfault, rfl⟩
  obtain ⟨fault, hless, hrun⟩ | ⟨hsome, d', fault, hrun, hd'⟩ := call_cases IoErrorKind.other
    (fun d : Directory => if d.contains FileName.snapshotTemp = true then
      .ok (PUnit.unit, d.erase .snapshotTemp) else .error .notFound) w
  · have hfault' : fault ≠ none → faulty := fun h => hfault (hless h)
    by_cases hthere : FileName.snapshotTemp ∈ w.state
    · -- it is removed, and the directory is synced
      have hgone : FileName.snapshotTemp ∉ w.state.erase .snapshotTemp := by
        rw [OrderedMap.not_mem_iff_lookup, OrderedMap.lookup_erase_self]
      have hsync : Faults.Spec faulty (fun d => K d ∧ FileName.snapshotTemp ∉ d)
          FileCalls.syncDirectory (fun _ d => K d ∧ FileName.snapshotTemp ∉ d) C :=
        FileCalls.spec_syncDirectory fun hfaulty d h => hC hfaulty d h.1
      rw [if_pos (OrderedMap.contains_iff.mpr hthere)] at hrun
      have hclean : FileDatabase.cleanupSnapshotTemp w =
          FileCalls.syncDirectory ⟨w.state.erase .snapshotTemp, fault⟩ := by
        unfold FileDatabase.cleanupSnapshotTemp FileCalls.remove FileCalls.io
        rw [hrun]
        rfl
      rw [hclean]
      exact hsync _ ⟨hfault', herase _ hd, hgone⟩
    · rw [if_neg fun h => hthere (OrderedMap.contains_iff.mp h)] at hrun
      refine .inl ⟨⟨⟩, ⟨w.state, fault⟩, ?_, hfault', hd, hthere⟩
      unfold FileDatabase.cleanupSnapshotTemp FileCalls.remove FileCalls.io
      rw [hrun]
      rfl
  · have hfaulty : faulty := hfault hsome
    refine .inr ⟨.other, ⟨d', fault⟩, ?_, fun _ => hfaulty, hC hfaulty d' ?_⟩
    · unfold FileDatabase.cleanupSnapshotTemp FileCalls.remove FileCalls.io
      rw [hrun]
    · rcases hd' with rfl | ⟨a, ha⟩
      · exact hd
      · split at ha
        · obtain ⟨-, rfl⟩ := Prod.mk.inj (Except.ok.inj ha)
          exact herase _ hd
        · cases ha

/-! ## The latest snapshot -/

/-- Among the names of snapshots the latest one is found. -/
theorem latestWatermark_eq {selected latest : Option U64} {names : List FileName}
    (hnames : ∀ name ∈ names, ∃ watermark, name = .snapshot watermark ∧
      ∃ last ∈ selected, watermark ≤ last)
    (hlatest : ∀ watermark ∈ latest, ∃ last ∈ selected, watermark ≤ last)
    (hfound : ∀ last ∈ selected, latest = some last ∨ .snapshot last ∈ names) :
    FileDatabase.latestWatermark latest names = .ok selected := by
  induction names generalizing latest with
  | nil =>
    rw [FileDatabase.latestWatermark]
    cases selected with
    | none =>
      cases latest with
      | none => rfl
      | some watermark =>
        obtain ⟨last, hlast, -⟩ := hlatest watermark rfl
        cases hlast
    | some last => rw [(hfound last rfl).resolve_right List.not_mem_nil]
  | cons name names ih =>
    obtain ⟨watermark, rfl, last, hlast, hle⟩ := hnames name List.mem_cons_self
    rw [FileDatabase.latestWatermark]
    refine ih (fun name hname => hnames name (List.mem_cons_of_mem _ hname)) ?_ ?_
    · intro other hother
      split at hother
      · obtain rfl := Option.some.inj hother
        exact ⟨last, hlast, hle⟩
      · exact hlatest other hother
    · intro last' hlast'
      obtain rfl : last = last' := Option.mem_unique hlast hlast'
      by_cases hlater : latest.all (· < watermark) = true
      · rw [if_pos hlater]
        rcases hfound last hlast with heq | hmem
        · rw [heq, Option.all_some, decide_eq_true_iff] at hlater
          exact absurd hle (not_le.mpr hlater)
        · rcases List.mem_cons.mp hmem with heq | hmem
          · exact .inl (congrArg some (FileName.snapshot.inj heq).symm)
          · exact .inr hmem
      · rw [if_neg hlater]
        rcases hfound last hlast with heq | hmem
        · exact .inl heq
        · rcases List.mem_cons.mp hmem with heq | hmem
          · -- the latest one so far is not before the last one
            obtain rfl := FileName.snapshot.inj heq
            cases latest with
            | none => exact absurd rfl hlater
            | some current =>
              rw [Option.all_some, decide_eq_true_iff, not_lt] at hlater
              obtain ⟨last', hlast', hcurrent⟩ := hlatest current rfl
              obtain rfl : last = last' := Option.mem_unique hlast hlast'
              exact .inl (congrArg some (le_antisymm hcurrent hlater))
          · exact .inr hmem

/-- The decoded snapshot of a shape. -/
def Shape.loaded (shape : Shape) : Option DecodedSnapshot :=
  shape.selected.map fun watermark => ⟨watermark, shape.base⟩

variable {manifest : Manifest} {shape : Shape} {tail : List UInt8} {history : List TimestampedTransition}

/-- The latest snapshot is decoded. -/
theorem spec_loadLatestSnapshot {K C : Directory → Prop} {listing : Listing}
    (hintact : ∀ d, K d → shape.Intact blake3 manifest d)
    (herase : ∀ d, K d → K (d.erase .snapshotTemp)) (hC : faulty → ∀ d, K d → C d) :
    Faults.Spec faulty K (FileDatabase.loadLatestSnapshot blake3 listing manifest)
      (fun loaded d => loaded = shape.loaded ∧ K d) C := by
  unfold FileDatabase.loadLatestSnapshot
  refine EStateM.Spec.andThen (spec_cleanupSnapshotTemp herase hC).renamed ?_
  refine Faults.Spec.known fun d hd => ?_
  obtain ⟨hkeeps, hgone⟩ := hd
  have hCd : faulty → ∀ d', d' = d → C d' := by
    rintro hfaulty d' rfl
    exact hC hfaulty _ hkeeps
  refine Faults.Spec.reads (b := d.list listing FileName.inSnapshots)
    (FileCalls.spec_readDir ?_ hCd fun hfaulty _ d' h => hCd hfaulty d' h.2).renamed ?_
  · rintro d' rfl
    exact ⟨rfl, rfl⟩
  have hlatest : FileDatabase.latestWatermark none (d.list listing FileName.inSnapshots) =
      .ok shape.selected := by
    refine latestWatermark_eq ?_ nofun ?_
    · intro name hname
      obtain ⟨hmem, hpart⟩ := Directory.mem_list.mp hname
      cases name with
      | snapshot watermark => exact ⟨watermark, rfl, (hintact d hkeeps).latest watermark hmem⟩
      | segment first => cases hpart
      | segmentTemp first => cases hpart
      | snapshotTemp => exact absurd hmem hgone
    · intro last hlast
      obtain ⟨bytes, hbytes, -⟩ := (hintact d hkeeps).snapshot last hlast
      exact .inr (Directory.mem_list.mpr
        ⟨OrderedMap.mem_iff_lookup.mpr ⟨_, hbytes⟩, rfl⟩)
  refine Faults.Spec.reads (b := shape.selected)
    (EStateM.spec_ofExcept_ok hlatest fun w h => ⟨h.1, rfl, h.2⟩) ?_
  have hsnapshot := (hintact d hkeeps).snapshot
  unfold Shape.loaded
  cases hselected : shape.selected with
  | none =>
    refine EStateM.spec_pure ?_
    rintro w ⟨hfault, rfl⟩
    exact ⟨hfault, rfl, hkeeps⟩
  | some watermark =>
    obtain ⟨bytes, hbytes, hlength, hdecode⟩ := hsnapshot watermark hselected
    refine Faults.Spec.reads (b := bytes)
      (FileCalls.spec_read ?_ hCd fun hfaulty _ d' h => hCd hfaulty d' h.2).renamed ?_
    · rintro d' rfl
      exact ⟨_, hbytes, File.content_synced bytes, rfl⟩
    refine EStateM.Spec.andThen (EStateM.spec_ensure hlength) ?_
    refine Faults.Spec.reads (b := ⟨watermark, shape.base⟩)
      (EStateM.spec_ofExcept_ok (Except.mapError_eq_ok.mpr hdecode) fun w h => ⟨h.1, rfl, h.2⟩) ?_
    refine EStateM.spec_pure ?_
    rintro w ⟨hfault, rfl⟩
    exact ⟨hfault, rfl, hkeeps⟩

/-! ## The segments -/

/-- The first sequence of a segment that starts at a sequence or behind it. -/
def FileName.firstFrom (minimum : U64) : FileName → Option RecordSequence
  | segment first => if first.get < minimum then none else some first
  | _ => none

/-- Whether a name is the one of a segment that starts before a sequence. -/
def FileName.startsBefore (minimum : U64) : FileName → Bool
  | segment first => decide (first.get < minimum)
  | _ => false

/-- The name of a segment gives its first sequence, from the least one asked for on. -/
theorem FileName.firstFrom_eq_some {minimum : U64} {name : FileName} {first : RecordSequence} :
    name.firstFrom minimum = some first ↔ name = .segment first ∧ minimum ≤ first.get := by
  cases name with
  | segment other =>
    have hfirst : FileName.firstFrom minimum (.segment other) =
        if other.get < minimum then none else some other := rfl
    rw [hfirst, FileName.segment.injEq]
    split
    · rename_i hbefore
      constructor
      · exact nofun
      · rintro ⟨rfl, hle⟩
        exact absurd hbefore (not_lt.mpr hle)
    · rename_i hbefore
      rw [Option.some.injEq]
      constructor
      · rintro rfl
        exact ⟨rfl, not_lt.mp hbefore⟩
      · exact fun h => h.1
  | segmentTemp other => exact ⟨nofun, nofun⟩
  | snapshot watermark => exact ⟨nofun, nofun⟩
  | snapshotTemp => exact ⟨nofun, nofun⟩

/-- The listed segments are read and sorted out. -/
theorem spec_readSegmentEntries {d : Directory} {C : Directory → Prop} {minimum : U64}
    (hintact : shape.Intact blake3 manifest d) {names : List FileName}
    (hnames : ∀ name ∈ names, name ∈ d ∧ ∃ first, name = .segment first)
    (hC : faulty → ∀ d', d' = d → C d') :
    Faults.Spec faulty (fun d' => d' = d)
      (FileDatabase.readSegmentEntries blake3 manifest.databaseUuid minimum names)
      (fun r d' => r = (names.filterMap (FileName.firstFrom minimum),
        names.filter (FileName.startsBefore minimum)) ∧ d' = d) C := by
  induction names with
  | nil => exact EStateM.spec_pure fun w h => ⟨h.1, rfl, h.2⟩
  | cons name names ih =>
    obtain ⟨hmem, first, rfl⟩ := hnames name List.mem_cons_self
    have hrest := ih fun name hname => hnames name (List.mem_cons_of_mem _ hname)
    unfold FileDatabase.readSegmentEntries
    refine EStateM.Spec.andThen (FileCalls.spec_entry hC).renamed ?_
    refine EStateM.Spec.ite ?_ ?_
    · intro hbefore
      refine Faults.Spec.reads hrest ?_
      refine EStateM.spec_pure fun w h => ⟨h.1, ?_, h.2⟩
      have hfirst : FileName.firstFrom minimum (.segment first) = none := if_pos hbefore
      have hstarts : FileName.startsBefore minimum (.segment first) = true :=
        decide_eq_true hbefore
      rw [List.filterMap_cons_none hfirst, List.filter_cons_of_pos hstarts]
    · intro hbefore
      obtain ⟨file, hfile⟩ := OrderedMap.mem_iff_lookup.mp hmem
      obtain ⟨bytes, rfl⟩ := hintact.headers first file hfile
      refine Faults.Spec.reads
        (b := Segment.header blake3 manifest.databaseUuid first ++ bytes)
        (FileCalls.spec_read ?_ hC fun hfaulty _ d' h => hC hfaulty d' h.2).renamed ?_
      · rintro d' rfl
        exact ⟨_, hfile, File.content_synced _, rfl⟩
      refine Faults.Spec.reads (b := first) (EStateM.spec_ofExcept_ok
        (Except.mapError_eq_ok.mpr (Segment.readHeader_header _ _ _)) fun w h => ⟨h.1, rfl, h.2⟩) ?_
      refine EStateM.Spec.andThen (EStateM.spec_ensure rfl) ?_
      refine Faults.Spec.reads hrest ?_
      refine EStateM.spec_pure fun w h => ⟨h.1, ?_, h.2⟩
      have hfirst : FileName.firstFrom minimum (.segment first) = some first := if_neg hbefore
      have hstarts : ¬FileName.startsBefore minimum (.segment first) = true := by
        exact fun h => hbefore (of_decide_eq_true h)
      rw [List.filterMap_cons_some hfirst, List.filter_cons_of_neg hstarts]

/-- What is listed of the segments. -/
theorem mem_firstFrom {listing : Listing} {d : Directory} {minimum : U64}
    {first : RecordSequence} :
    first ∈ (d.list listing FileName.inWal).filterMap (FileName.firstFrom minimum) ↔
      FileName.segment first ∈ d ∧ minimum ≤ first.get := by
  rw [List.mem_filterMap]
  constructor
  · rintro ⟨name, hname, hfirst⟩
    obtain ⟨rfl, hle⟩ := FileName.firstFrom_eq_some.mp hfirst
    exact ⟨(Directory.mem_list.mp hname).1, hle⟩
  · rintro ⟨hmem, hle⟩
    exact ⟨.segment first, Directory.mem_list.mpr ⟨hmem, rfl⟩,
      FileName.firstFrom_eq_some.mpr ⟨rfl, hle⟩⟩

/-- Every segment is listed once. -/
theorem nodup_firstFrom (listing : Listing) (d : Directory) (minimum : U64) :
    ((d.list listing FileName.inWal).filterMap (FileName.firstFrom minimum)).Nodup := by
  refine List.Nodup.filterMap ?_ (Directory.nodup_list listing FileName.inWal d)
  intro a b first ha hb
  rw [(FileName.firstFrom_eq_some.mp ha).1, (FileName.firstFrom_eq_some.mp hb).1]

/-- The segments behind the snapshot are the ones of the shape, in their order. -/
theorem sorted_firstFrom {listing : Listing} {d : Directory}
    (hof : shape.Of blake3 manifest.recordLimits history) (hin : shape.In blake3 manifest tail d)
    {start : RecordSequence} (hstart : shape.start = some start) :
    ((d.list listing FileName.inWal).filterMap
      (FileName.firstFrom start.get)).insertionSort (· ≤ ·) = shape.firsts := by
  have hnodup := (List.perm_insertionSort (· ≤ ·) _).nodup_iff.mpr
    (nodup_firstFrom listing d start.get)
  have hsorted := List.pairwise_insertionSort (· ≤ ·)
    ((d.list listing FileName.inWal).filterMap (FileName.firstFrom start.get))
  have hstrict := (hsorted.and hnodup).imp fun {a b} h => lt_of_le_of_ne h.1 h.2
  refine List.Pairwise.eq_of_mem_iff hstrict (hof.sorted hstart) fun first => ?_
  rw [(List.perm_insertionSort (· ≤ ·) _).mem_iff, mem_firstFrom]
  constructor
  · rintro ⟨hmem, hle⟩
    exact hin.names start hstart first hle hmem
  · intro hfirst
    refine ⟨?_, hof.start_le hstart hfirst⟩
    rw [← shape.map_segments tail] at hfirst
    obtain ⟨entry, hentry, rfl⟩ := List.mem_map.mp hfirst
    exact OrderedMap.mem_iff_lookup.mpr ⟨_, hin.contents start hstart entry hentry⟩

/-- The segments are found. -/
theorem spec_readSegments {d : Directory} {C : Directory → Prop} {minimum : U64}
    {listing : Listing} (hintact : shape.Intact blake3 manifest d)
    (htemps : ∀ first, FileName.segmentTemp first ∉ d)
    (hsome : ∃ first, FileName.segment first ∈ d ∧ minimum ≤ first.get)
    (hC : faulty → ∀ d', d' = d → C d') :
    Faults.Spec faulty (fun d' => d' = d)
      (FileDatabase.readSegments blake3 listing manifest.databaseUuid minimum)
      (fun r d' => r =
        (((d.list listing FileName.inWal).filterMap
          (FileName.firstFrom minimum)).insertionSort (· ≤ ·),
        (d.list listing FileName.inWal).filter (FileName.startsBefore minimum)) ∧ d' = d) C := by
  have hnames : ∀ name ∈ d.list listing FileName.inWal,
      name ∈ d ∧ ∃ first, name = .segment first := by
    intro name hname
    obtain ⟨hmem, hpart⟩ := Directory.mem_list.mp hname
    refine ⟨hmem, ?_⟩
    cases name with
    | segment first => exact ⟨first, rfl⟩
    | segmentTemp first => exact absurd hmem (htemps first)
    | snapshot watermark => cases hpart
    | snapshotTemp => cases hpart
  unfold FileDatabase.readSegments
  refine Faults.Spec.reads (b := d.list listing FileName.inWal)
    (FileCalls.spec_readDir ?_ hC fun hfaulty _ d' h => hC hfaulty d' h.2).renamed ?_
  · rintro d' rfl
    exact ⟨rfl, rfl⟩
  refine Faults.Spec.reads (spec_readSegmentEntries hintact hnames hC) ?_
  refine EStateM.Spec.ite ?_ ?_
  · intro hnone
    obtain ⟨first, hmem, hle⟩ := hsome
    have hfirst : first ∈ (d.list listing FileName.inWal).filterMap
        (FileName.firstFrom minimum) := mem_firstFrom.mpr ⟨hmem, hle⟩
    rw [hnone] at hfirst
    cases hfirst
  · intro hnone
    exact EStateM.spec_pure fun w h => ⟨h.1, rfl, h.2⟩

/-! ## The records -/

section Recovering

variable {limits : RecordLimits} {d : Directory} {C : Directory → Prop}

/-- What is behind the header of a segment. -/
theorem drop_header (uuid : U128) (first : RecordSequence) (bytes : List UInt8) :
    (Segment.header blake3 uuid first ++ bytes).drop Segment.headerLen = bytes := by
  rw [← @Segment.length_header blake3 uuid first, List.drop_left]

/-- The records of a sealed segment are recovered. -/
theorem spec_recoverSegment_sealed {uuid : U128} {first : RecordSequence}
    {next : Option RecordSequence} {items : List TimestampedTransition} {bytes : List UInt8}
    {e e' : Engine} (hlogged : Logged blake3 limits (some first) items bytes next)
    (hitems : ∀ item ∈ items, item.Recordable)
    (hinstall : Engine.installAll blake3 e items = .ok e')
    (hfile : d[FileName.segment first]? = some (.synced (Segment.header blake3 uuid first ++ bytes)))
    (hC : faulty → ∀ d', d' = d → C d') (isSealed : Bool) :
    Faults.Spec faulty (fun d' => d' = d)
      (FileDatabase.recoverSegment blake3 limits first isSealed ⟨e, some first⟩)
      (fun r d' => r = (⟨e', next⟩, bytes.length) ∧ d' = d) C := by
  have hfeed := (EngineRecovery.feed_logged hlogged hitems hinstall (.inl rfl)).1 rfl
  rw [List.append_nil] at hfeed
  unfold FileDatabase.recoverSegment
  refine EStateM.Spec.andThen (EStateM.spec_ensure rfl) ?_
  refine Faults.Spec.reads (b := Segment.header blake3 uuid first ++ bytes)
    (FileCalls.spec_read ?_ hC fun hfaulty _ d' h => hC hfaulty d' h.2).renamed ?_
  · rintro d' rfl
    exact ⟨_, hfile, File.content_synced _, rfl⟩
  rw [drop_header, hfeed]
  exact EStateM.spec_pure fun w h => ⟨h.1, rfl, h.2⟩

/-- The records of the active segment are recovered, and a part of one more is cut off. -/
theorem spec_recoverSegment_active {uuid : U128} {first : RecordSequence}
    {next : Option RecordSequence} {items : List TimestampedTransition} {bytes tail : List UInt8}
    {e e' : Engine} (hlogged : Logged blake3 limits (some first) items bytes next)
    (hitems : ∀ item ∈ items, item.Recordable)
    (hinstall : Engine.installAll blake3 e items = .ok e')
    (htail : EngineRecovery.CutFrame blake3 limits next tail)
    (hfile : d[FileName.segment first]? =
      some (.synced (Segment.header blake3 uuid first ++ (bytes ++ tail))))
    (hC : faulty → ∀ d', d' = d → C d')
    (hC' : faulty → ∀ d', d' = d.insert (.segment first)
      (.synced (Segment.header blake3 uuid first ++ bytes)) → C d') :
    Faults.Spec faulty (fun d' => d' = d)
      (FileDatabase.recoverSegment blake3 limits first false ⟨e, some first⟩)
      (fun r d' => r = (⟨e', next⟩, bytes.length) ∧ d' = d.insert (.segment first)
        (.synced (Segment.header blake3 uuid first ++ bytes))) C := by
  by_cases hempty : tail = []
  · rw [hempty, List.append_nil] at hfile
    rw [OrderedMap.insert_eq_self hfile]
    exact spec_recoverSegment_sealed hlogged hitems hinstall hfile hC false
  · obtain ⟨length, hfeed⟩ := (EngineRecovery.feed_logged hlogged hitems hinstall htail).2 hempty
    have hcut : (Segment.header blake3 uuid first ++ (bytes ++ tail)).takeD
        (Segment.headerLen + bytes.length) 0 = Segment.header blake3 uuid first ++ bytes := by
      have hlength : Segment.headerLen + bytes.length =
          (Segment.header blake3 uuid first ++ bytes).length := by
        rw [List.length_append, Segment.length_header]
      rw [hlength, ← List.append_assoc, List.takeD_left]
    unfold FileDatabase.recoverSegment
    refine EStateM.Spec.andThen (EStateM.spec_ensure rfl) ?_
    refine Faults.Spec.reads (b := Segment.header blake3 uuid first ++ (bytes ++ tail))
      (FileCalls.spec_read ?_ hC fun hfaulty _ d' h => hC hfaulty d' h.2).renamed ?_
    · rintro d' rfl
      exact ⟨_, hfile, File.content_synced _, rfl⟩
    rw [drop_header, hfeed]
    refine EStateM.Spec.ite (fun hrepair => ?_) fun hrepair => absurd rfl hrepair
    refine EStateM.Spec.andThen (FileCalls.spec_openFile ?_ hC).renamed ?_
    · rintro d' rfl
      exact OrderedMap.mem_iff_lookup.mpr ⟨_, hfile⟩
    refine EStateM.Spec.andThen (FileCalls.spec_change ?_ ?_ hC hC').renamed ?_
    · rintro d' rfl
      exact OrderedMap.mem_iff_lookup.mpr ⟨_, hfile⟩
    · rintro d' file rfl hfile'
      rw [hfile] at hfile'
      obtain rfl := Option.some.inj hfile'
      rw [File.content_synced]
      exact congrArg (fun content => d'.insert (.segment first) (.synced content)) hcut
    refine EStateM.Spec.andThen (FileCalls.spec_change ?_ ?_ hC' hC').renamed ?_
    · rintro d' rfl
      exact OrderedMap.mem_insert_iff.mpr (.inl rfl)
    · rintro d' file rfl hfile'
      rw [OrderedMap.lookup_insert_self] at hfile'
      obtain rfl := Option.some.inj hfile'
      rw [File.content_synced]
      exact OrderedMap.insert_eq_self (OrderedMap.lookup_insert_self _ _ _)
    exact EStateM.spec_pure fun w h => ⟨h.1, rfl, h.2⟩

/-- The segments are recovered one after another. -/
theorem spec_recoverSegments {uuid : U128} {start active : RecordSequence}
    {segments : List (RecordSequence × List UInt8)} {next : Option RecordSequence}
    {items rest : List TimestampedTransition} {records tail : List UInt8} {e e' : Engine}
    (hsealed : Sealed blake3 limits start segments items active)
    (hlogged : Logged blake3 limits (some active) rest records next)
    (hitems : ∀ item ∈ items ++ rest, item.Recordable)
    (hinstall : Engine.installAll blake3 e (items ++ rest) = .ok e')
    (htail : EngineRecovery.CutFrame blake3 limits next tail)
    (hcontents : ∀ entry ∈ segments ++ [(active, records ++ tail)],
      d[FileName.segment entry.1]? = some (.synced (Segment.header blake3 uuid entry.1 ++ entry.2)))
    (hC : faulty → ∀ d', d' = d → C d')
    (hC' : faulty → ∀ d', d' = d.insert (.segment active)
      (.synced (Segment.header blake3 uuid active ++ records)) → C d') (offset : Nat) :
    Faults.Spec faulty (fun d' => d' = d)
      (FileDatabase.recoverSegments blake3 limits (segments.map Prod.fst ++ [active])
        ⟨e, some start⟩ offset)
      (fun r d' => r = (⟨e', next⟩, records.length) ∧ d' = d.insert (.segment active)
        (.synced (Segment.header blake3 uuid active ++ records))) C := by
  induction hsealed generalizing e offset with
  | nil start =>
    have hactive := spec_recoverSegment_active hlogged hitems hinstall htail
      (hcontents _ (List.mem_singleton_self _)) hC hC'
    show Faults.Spec faulty _ (FileDatabase.recoverSegment blake3 limits start false
      ⟨e, some start⟩ >>= fun r => pure (r.1, r.2)) _ C
    refine EStateM.Spec.bind hactive fun r => ?_
    exact EStateM.spec_pure fun w h => h
  | @cons first second last items others bytes segments logged less sealedOthers ih =>
    rw [List.append_assoc, Engine.installAll_append] at hinstall
    obtain ⟨e₁, hfirst, hinstall⟩ := Except.bind_eq_ok.mp hinstall
    have hothers := ih hlogged (fun item hitem => hitems item (by
      rw [List.append_assoc]
      exact List.mem_append_right _ hitem)) hinstall
      (fun entry hentry => hcontents entry (List.mem_cons_of_mem _ hentry)) hC' bytes.length
    have hsegment := spec_recoverSegment_sealed logged
      (fun item hitem => hitems item (List.mem_append_left _ (List.mem_append_left _ hitem))) hfirst
      (hcontents _ List.mem_cons_self) hC
      (decide (segments.map Prod.fst ++ [last] ≠ []))
    show Faults.Spec faulty _ (FileDatabase.recoverSegment blake3 limits first
      (decide (segments.map Prod.fst ++ [last] ≠ [])) ⟨e, some first⟩ >>= fun r =>
        FileDatabase.recoverSegments blake3 limits (segments.map Prod.fst ++ [last]) r.1 r.2) _ C
    exact Faults.Spec.reads hsegment hothers

end Recovering

/-! ## Opening -/

/-- The records behind the snapshot are replayed over its state. -/
theorem Shape.Of.replay {limits : RecordLimits} (hof : shape.Of blake3 limits history) {e : Engine}
    (he : Engine.HistoryIs blake3 history e) :
    Engine.installAll blake3 shape.base (history.drop shape.covered) = .ok e.unindexed := by
  have hall := he.installed
  rw [← List.take_append_drop shape.covered history, Engine.installAll_append] at hall
  obtain ⟨base, hbase, hrest⟩ := Except.bind_eq_ok.mp hall
  rw [hof.base] at hbase
  obtain rfl := Except.ok.inj hbase
  exact hrest

/-- What the loaded snapshot says about the records behind it. -/
theorem Shape.Of.loaded_start {limits : RecordLimits} (hof : shape.Of blake3 limits history)
    {start : RecordSequence} (hstart : shape.start = some start) :
    shape.loaded.any (fun value => decide (value.walWatermark = FileDatabase.lastWatermark)) =
      false ∧
    FileDatabase.minimumSequence shape.loaded = start.get ∧
    FileDatabase.startRecovery shape.loaded = ⟨shape.base, some start⟩ := by
  have hbase := hof.base
  unfold Shape.start at hstart
  unfold Shape.covered at hbase
  unfold Shape.loaded
  cases hselected : shape.selected with
  | none =>
    rw [hselected] at hstart hbase
    obtain rfl := Option.some.inj hstart
    have hempty : Engine.empty = shape.base := Except.ok.inj hbase
    refine ⟨rfl, rfl, ?_⟩
    rw [← hempty]
    rfl
  | some watermark =>
    rw [hselected] at hstart
    replace hstart : FileDatabase.successor watermark = some start := hstart
    have hnext := FileDatabase.successor_eq_some.mp hstart
    have hadd : watermark.checkedAdd ⟨1, U64.one_range⟩ = some start.get :=
      BoundedInt.checkedAdd_eq_some.mpr hnext.symm
    refine ⟨?_, ?_, ?_⟩
    · rw [Option.map_some, Option.any_some, decide_eq_false_iff_not]
      intro hlast
      rw [FileDatabase.successor_eq_none.mpr hlast] at hstart
      cases hstart
    · show (watermark.checkedAdd ⟨1, U64.one_range⟩).getD _ = start.get
      rw [hadd]
      rfl
    · show FileDatabase.startRecovery (some ⟨watermark, shape.base⟩) = _
      unfold FileDatabase.startRecovery
      dsimp only
      rw [hstart]
      rfl

/-- What the loaded snapshot says if no sequence is left. -/
theorem Shape.loaded_exhausted (hstart : shape.start = none) :
    shape.loaded.any (fun value => decide (value.walWatermark = FileDatabase.lastWatermark)) =
      true ∧
    FileDatabase.minimumSequence shape.loaded = RecordSequence.first.get ∧
    FileDatabase.startRecovery shape.loaded = ⟨shape.base, none⟩ := by
  unfold Shape.start at hstart
  unfold Shape.loaded
  cases hselected : shape.selected with
  | none =>
    rw [hselected] at hstart
    cases hstart
  | some watermark =>
    rw [hselected] at hstart
    obtain rfl := FileDatabase.successor_eq_none.mp hstart
    exact ⟨rfl, rfl, rfl⟩

/-- A segment that starts before the records behind the snapshot is not needed. -/
theorem Shape.Of.not_uses {limits : RecordLimits} (hof : shape.Of blake3 limits history)
    {name : FileName}
    (hbefore : name.startsBefore (FileDatabase.minimumSequence shape.loaded) = true) :
    ¬shape.Uses name := by
  cases name with
  | segment first =>
    have hless : first.get < FileDatabase.minimumSequence shape.loaded := of_decide_eq_true hbefore
    intro huse
    cases hstart : shape.start with
    | none =>
      rw [(Shape.loaded_exhausted hstart).2.1] at hless
      have hpos := first.get.property.1
      have hne := first.get_ne_zero
      have hone : first.get.val < 1 := hless
      omega
    | some start =>
      rw [(hof.loaded_start hstart).2.1] at hless
      exact absurd (hof.start_le hstart huse) (not_le.mpr hless)
  | segmentTemp first => exact id
  | snapshot watermark => cases hbefore
  | snapshotTemp => exact id

/-- The records behind the snapshot are recovered. -/
theorem spec_recover {d : Directory} {C : Directory → Prop}
    (hof : shape.Of blake3 manifest.recordLimits history) (hin : shape.In blake3 manifest tail d)
    (htail : EngineRecovery.CutFrame blake3 manifest.recordLimits shape.next tail)
    {start : RecordSequence} (hstart : shape.start = some start) {e : Engine}
    (hrecorded : Recorded blake3 history e)
    (hC : faulty → ∀ d', d' = d → C d')
    (hC' : faulty → ∀ d', shape.In blake3 manifest [] d' → C d') :
    Faults.Spec faulty (fun d' => d' = d)
      (FileDatabase.recoverSegments blake3 manifest.recordLimits shape.firsts
        ⟨shape.base, some start⟩ 0)
      (fun r d' => r = (⟨e.unindexed, shape.next⟩, shape.records.length) ∧
        shape.In blake3 manifest [] d' ∧ ∀ name ∈ d, name ∈ d') C := by
  obtain ⟨items, rest, hsealed, hlogged, hdrop⟩ := hof.logged start hstart
  have hreplay := hof.replay hrecorded.is
  rw [hdrop] at hreplay
  have hitems : ∀ item ∈ items ++ rest, item.Recordable := by
    intro item hitem
    rw [← hdrop] at hitem
    exact hrecorded.recordable item (List.mem_of_mem_drop hitem)
  have hafter := hin.insert_active (hof.sorted hstart) []
  rw [List.append_nil] at hafter
  have hafter' : faulty → ∀ d', d' = d.insert (.segment shape.active)
      (.synced (Segment.header blake3 manifest.databaseUuid shape.active ++ shape.records)) →
      C d' := by
    rintro hfaulty d' rfl
    exact hC' hfaulty _ hafter
  refine (spec_recoverSegments hsealed hlogged hitems hreplay htail (hin.contents start hstart) hC
    hafter' 0).weaken (fun _ h => h) ?_ fun _ h => h
  rintro r w ⟨hfault, hr, hd⟩
  refine ⟨hfault, hr, ?_⟩
  rw [hd]
  exact ⟨hafter, fun name hname => OrderedMap.mem_insert_iff.mpr (.inr hname)⟩

/-- What opening has made of the files of a history: the database has replayed the records behind the
snapshot over its state, and goes on behind the last record. -/
structure Opened (manifest : Manifest) (history : List TimestampedTransition) (shape : Shape)
    (db : FileDatabase blake3) (d : Directory) : Prop where
  files : db.backend.files.state = d
  healthy : db.poisoned = false
  recorded : Recorded blake3 history db.engine
  replayed : ∃ e, Engine.installAll blake3 shape.base (history.drop shape.covered) = .ok e ∧
    Engine.rebuildSlackTimelines e = .ok db.engine
  next : db.nextRecordSequence = shape.next
  shape : ∃ shape', Shape.Of blake3 manifest.recordLimits history shape' ∧
    shape'.In blake3 manifest [] d ∧ shape'.Handled manifest db ∧ shape'.Attached db.backend

/-- Segments that are not needed are removed. -/
theorem spec_removeObsolete {obsolete : List FileName} (hnodup : obsolete.Nodup)
    (hobsolete : ∀ name ∈ obsolete, ¬shape.Uses name) {C : Directory → Prop}
    (hC : faulty → ∀ d, shape.In blake3 manifest [] d → C d) :
    Faults.Spec faulty
      (fun d => shape.In blake3 manifest [] d ∧ ∀ name ∈ obsolete, name ∈ d)
      (obsolete.forM fun name =>
        FileDatabase.io "remove obsolete WAL prefix" (FileCalls.remove name))
      (fun _ => shape.In blake3 manifest []) C := by
  have hloop : Faults.Spec faulty
      (Removed (shape.In blake3 manifest []) (fun _ => False) obsolete [])
      (obsolete.forM fun name =>
        FileDatabase.io "remove obsolete WAL prefix" (FileCalls.remove name))
      (fun _ => Removed (shape.In blake3 manifest []) (fun _ => False) obsolete obsolete) C := by
    refine EStateM.Spec.forM (I := fun done => Upto faulty
      (Removed (shape.In blake3 manifest []) (fun _ => False) obsolete done)) ?_
    intro done name rest hnames
    have hnew : name ∉ done := by
      rw [hnames, List.nodup_append] at hnodup
      exact fun hdone => hnodup.2.2 name hdone name List.mem_cons_self rfl
    have hlisted : name ∈ obsolete := by
      rw [hnames]
      exact List.mem_append_right _ List.mem_cons_self
    refine (FileCalls.spec_remove (fun d h => h.there _ hlisted hnew) ?_
      (fun hfaulty d h => hC hfaulty d h.keeps) fun hfaulty d h => hC hfaulty d h.keeps).renamed
    intro d h
    exact h.erase (h.keeps.erase (hobsolete name hlisted))
  refine hloop.weaken ?_ (fun _ _ h => h.imp fun h => h.keeps) fun _ h => h
  rintro w ⟨hfault, hin, hthere⟩
  exact ⟨hfault, hin, fun name hname _ => hthere name hname, fun _ _ hfalse => hfalse.elim⟩

/-- While there is a next sequence, the active segment has its header and its records. -/
theorem Shape.In.length_active {d : Directory} (hin : shape.In blake3 manifest [] d) {file : File}
    (hfile : d[FileName.segment shape.active]? = some file) (hstart : shape.start ≠ none) :
    file.content.length = Segment.headerLen + shape.records.length := by
  obtain ⟨start, hstart⟩ := Option.ne_none_iff_exists'.mp hstart
  have hactive := hin.contents start hstart (shape.active, shape.records ++ [])
    (List.mem_append_right _ (List.mem_singleton_self _))
  rw [hfile] at hactive
  rw [Option.some.inj hactive, File.content_synced, List.append_nil, List.length_append,
    Segment.length_header]

/-- The log goes on in the active segment. -/
theorem spec_openActive {options : FileDatabaseOptions} (hoptions : options.Matches manifest)
    {outcome : RecoveryOutcome} (hnext : outcome.nextRecordSequence = shape.next)
    {C : Directory → Prop} (hC : faulty → ∀ d, shape.In blake3 manifest [] d → C d) :
    Faults.Spec faulty (shape.In blake3 manifest [])
      (FileDatabase.openActive blake3 manifest options shape.active outcome)
      (fun db d => (db.backend.files.fault ≠ none → faulty) ∧ db.backend.files.state = d ∧
        db.engine = outcome.engine ∧ db.nextRecordSequence = shape.next ∧ db.poisoned = false ∧
        shape.In blake3 manifest [] d ∧ shape.Handled manifest db ∧
        shape.Attached db.backend) C := by
  unfold FileDatabase.openActive
  refine Faults.Spec.known fun d hin => ?_
  have hCd : faulty → ∀ d', d' = d → C d' := by
    rintro hfaulty d' rfl
    exact hC hfaulty _ hin
  obtain ⟨file, hfile⟩ := OrderedMap.mem_iff_lookup.mp hin.active
  refine Faults.Spec.reads (b := file.content)
    (FileCalls.spec_read ?_ hCd fun hfaulty _ d' h => hCd hfaulty d' h.2).renamed ?_
  · rintro d' rfl
    exact ⟨file, hfile, rfl, rfl⟩
  refine EStateM.Spec.andThen (FileCalls.spec_openFile ?_ hCd).renamed ?_
  · rintro d' rfl
    exact hin.active
  refine EStateM.Spec.bind (EStateM.spec_get
    (R := fun files w => files = w ∧ Upto faulty (fun d' => d' = d) w) fun w h => ⟨rfl, h⟩)
    fun files => ?_
  refine EStateM.spec_pure ?_
  rintro w ⟨rfl, hfault, hd⟩
  refine ⟨hfault, hfault, rfl, rfl, hnext, rfl, ?_, ?_, rfl, ?_, ?_⟩
  · rw [hd]
    exact hin
  · exact ⟨rfl, hoptions.recordLimits, hoptions.recordLimits, hoptions.snapshotLimits,
      hoptions.durability, hnext, hnext⟩
  · exact hin.length_active hfile
  · intro hstart
    show decide (Segment.headerLen < file.content.length) = true ↔ _
    rw [decide_eq_true_iff, hin.length_active hfile hstart, ← List.length_pos_iff]
    omega

/-- Behind the recovered records the log goes on. -/
theorem spec_goOn {options : FileDatabaseOptions} (hoptions : options.Matches manifest)
    (hof : shape.Of blake3 manifest.recordLimits history) {e rebuilt : Engine}
    (hrecorded : Recorded blake3 history e)
    (hrebuild : Engine.rebuildSlackTimelines e.unindexed = .ok rebuilt)
    (hrebuilt : Engine.HistoryIs blake3 history rebuilt) (listing : Listing) (d : Directory)
    (count : Nat) :
    Faults.Spec faulty (fun d' => shape.In blake3 manifest [] d' ∧ ∀ name ∈ d, name ∈ d')
      (FileDatabase.goOn blake3 manifest options shape.active
        ((d.list listing FileName.inWal).filter
          (FileName.startsBefore (FileDatabase.minimumSequence shape.loaded)))
        ⟨rebuilt, shape.next, count⟩)
      (fun db d' => (db.backend.files.fault ≠ none → faulty) ∧
        Opened manifest history shape db d')
      (fun d' => faulty ∧ Closed blake3 manifest history d') := by
  have hclosed : faulty → ∀ d, shape.In blake3 manifest [] d →
      faulty ∧ Closed blake3 manifest history d :=
    fun hfaulty d hin => ⟨hfaulty, ⟨e, hrecorded⟩, shape, [], hof, hin, .inl rfl⟩
  have hactive : Faults.Spec faulty (shape.In blake3 manifest [])
      (FileDatabase.openActive blake3 manifest options shape.active ⟨rebuilt, shape.next, count⟩)
      (fun db d' => (db.backend.files.fault ≠ none → faulty) ∧
        Opened manifest history shape db d')
      (fun d' => faulty ∧ Closed blake3 manifest history d') := by
    refine (spec_openActive hoptions rfl hclosed).weaken (fun _ h => h) ?_ fun _ h => h
    rintro db w ⟨hfault, hfault', hfiles, hengine, hnext, hhealthy, hin, hhandled, hattached⟩
    refine ⟨hfault, hfault', hfiles, hhealthy, ⟨?_, hrecorded.recordable⟩, ?_, hnext,
      shape, hof, hin, hhandled, hattached⟩
    · rw [hengine]
      exact hrebuilt
    · rw [hengine]
      exact ⟨_, hof.replay hrecorded.is, hrebuild⟩
  unfold FileDatabase.goOn
  refine EStateM.Spec.andThen ((spec_removeObsolete
    ((Directory.nodup_list listing FileName.inWal d).filter _)
    (fun name hname => hof.not_uses (List.mem_filter.mp hname).2) hclosed).weaken ?_
    (fun _ _ h => h) fun _ h => h) ?_
  · rintro w ⟨hfault, hin, hkept⟩
    refine ⟨hfault, hin, fun name hname => ?_⟩
    exact hkept name (Directory.mem_list.mp (List.mem_filter.mp hname).1).1
  refine EStateM.Spec.ite (fun _ => ?_) fun _ => hactive
  exact EStateM.Spec.andThen (FileCalls.spec_syncDirectory hclosed).renamed hactive

/-- The records that were replayed make up an engine with its timelines. -/
theorem finish_eq_ok {e rebuilt : Engine} (hrebuild : Engine.rebuildSlackTimelines e = .ok rebuilt)
    (next : Option RecordSequence) (count : Nat) :
    EngineRecovery.finish ⟨e, next⟩ count = .ok ⟨rebuilt, next, count⟩ := by
  unfold EngineRecovery.finish
  rw [hrebuild]
  rfl

/-- The active segment is among those that the snapshot does not cover. -/
theorem Shape.Of.exists_segment {limits : RecordLimits} (hof : shape.Of blake3 limits history)
    {d : Directory} (hin : shape.In blake3 manifest tail d) :
    ∃ first, FileName.segment first ∈ d ∧
      FileDatabase.minimumSequence shape.loaded ≤ first.get := by
  refine ⟨shape.active, hin.active, ?_⟩
  cases hstart : shape.start with
  | some start =>
    rw [(hof.loaded_start hstart).2.1]
    exact hof.start_le hstart (List.mem_append_right _ (List.mem_singleton_self _))
  | none =>
    rw [(Shape.loaded_exhausted hstart).2.1]
    have hpos := shape.active.get.property.1
    have hne := shape.active.get_ne_zero
    show (1 : ℤ) ≤ shape.active.get.val
    omega

/-- Behind a snapshot of all records there can be, any segment can be the active one. -/
def Shape.endingIn (shape : Shape) (last : RecordSequence) : Shape :=
  { shape with sealedSegments := [], active := last }

/-- With any active segment the files stand for the same history, as no record is going to be
written. -/
theorem Shape.Of.endingIn {limits : RecordLimits} (hof : shape.Of blake3 limits history)
    (hstart : shape.start = none) (last : RecordSequence) :
    (shape.endingIn last).Of blake3 limits history := by
  refine ⟨hof.covers, hof.base, fun start h => ?_, hof.exhausted⟩
  have hsome : shape.start = some start := h
  rw [hstart] at hsome
  cases hsome

/-- The files have the shape with any of their segments as the active one. -/
theorem Shape.In.endingIn {d : Directory} (hin : shape.In blake3 manifest tail d)
    (hstart : shape.start = none) {last : RecordSequence} (hlast : FileName.segment last ∈ d) :
    (shape.endingIn last).In blake3 manifest [] d := by
  have hnever (start : RecordSequence) (h : start ∈ shape.start) : False := by
    rw [hstart] at h
    cases h
  exact ⟨⟨hin.intact.headers, hin.intact.latest, hin.intact.snapshot⟩, hlast,
    fun start h => (hnever start h).elim, fun start h => (hnever start h).elim⟩

/-- The last of the segments that are found is one of the files. -/
theorem segment_getLastD_mem {listing : Listing} {d : Directory} {minimum : U64}
    (hsome : ∃ first, FileName.segment first ∈ d ∧ minimum ≤ first.get) :
    FileName.segment ((((d.list listing FileName.inWal).filterMap
      (FileName.firstFrom minimum)).insertionSort (· ≤ ·)).getLastD .first) ∈ d := by
  obtain ⟨first, hfirst⟩ := hsome
  have hlisted : first ∈ (d.list listing FileName.inWal).filterMap
      (FileName.firstFrom minimum) := mem_firstFrom.mpr hfirst
  have hne : ((d.list listing FileName.inWal).filterMap
      (FileName.firstFrom minimum)).insertionSort (· ≤ ·) ≠ [] :=
    List.ne_nil_of_mem ((List.mem_insertionSort _).mpr hlisted)
  rw [List.getLastD_eq_getLast?, List.getLast?_eq_some_getLast hne, Option.getD_some]
  exact (mem_firstFrom.mp ((List.mem_insertionSort _).mp (List.getLast_mem hne))).1

section Behind

variable {listing : Listing} {options : FileDatabaseOptions} {e : Engine} {d : Directory}

/-- Behind a snapshot the records are recovered, and the log goes on. -/
theorem spec_openBehind_records (hoptions : options.Matches manifest)
    (hof : shape.Of blake3 manifest.recordLimits history)
    (htail : EngineRecovery.CutFrame blake3 manifest.recordLimits shape.next tail)
    (hrecorded : Recorded blake3 history e) {start : RecordSequence}
    (hstart : shape.start = some start) (hin : shape.In blake3 manifest tail d)
    (htemps : ∀ first, FileName.segmentTemp first ∉ d) :
    Faults.Spec faulty (fun d' => d' = d)
      (FileDatabase.openBehind blake3 listing manifest options shape.loaded)
      (fun db d' => (db.backend.files.fault ≠ none → faulty) ∧
        Opened manifest history shape db d')
      (fun d' => faulty ∧ Closed blake3 manifest history d') := by
  have hCd : faulty → ∀ d', d' = d → faulty ∧ Closed blake3 manifest history d' := by
    rintro hfaulty d' rfl
    exact ⟨hfaulty, ⟨e, hrecorded⟩, shape, tail, hof, hin, htail⟩
  have hclosed : faulty → ∀ d, shape.In blake3 manifest [] d →
      faulty ∧ Closed blake3 manifest history d :=
    fun hfaulty d hin => ⟨hfaulty, ⟨e, hrecorded⟩, shape, [], hof, hin, .inl rfl⟩
  obtain ⟨rebuilt, hrebuild, hrebuilt⟩ := hrecorded.is.rebuild
  obtain ⟨hexhausted, hminimum, hbegin⟩ := hof.loaded_start hstart
  unfold FileDatabase.openBehind
  refine Faults.Spec.reads
    (spec_readSegments hin.intact htemps (hof.exists_segment hin) hCd) ?_
  dsimp only
  have hfound : ((d.list listing FileName.inWal).filterMap (FileName.firstFrom
      (FileDatabase.minimumSequence shape.loaded))).insertionSort (· ≤ ·) = shape.firsts := by
    rw [hminimum]
    exact sorted_firstFrom hof hin hstart
  have hlast : shape.firsts.getLastD .first = shape.active := by
    rw [Shape.firsts, List.getLastD_concat]
  rw [hexhausted, hbegin, hfound, hlast]
  have hrecover := spec_recover hof hin htail hstart hrecorded hCd hclosed
  rw [← hoptions.recordLimits] at hrecover
  refine EStateM.Spec.ite (fun h => absurd h Bool.false_ne_true) fun _ => ?_
  refine EStateM.Spec.bind hrecover fun r => ?_
  refine Faults.Spec.fact ?_
  rintro rfl
  refine EStateM.Spec.value
    (Except.mapError_eq_ok.mpr (finish_eq_ok hrebuild shape.next shape.records.length)) ?_
  exact spec_goOn hoptions hof hrecorded hrebuild hrebuilt listing d _

/-- Behind a snapshot of all records there can be, the log is at its end. -/
theorem spec_openBehind_exhausted (hoptions : options.Matches manifest)
    (hof : shape.Of blake3 manifest.recordLimits history)
    (htail : EngineRecovery.CutFrame blake3 manifest.recordLimits shape.next tail)
    (hrecorded : Recorded blake3 history e) (hstart : shape.start = none)
    (hin : shape.In blake3 manifest tail d)
    (htemps : ∀ first, FileName.segmentTemp first ∉ d) :
    Faults.Spec faulty (fun d' => d' = d)
      (FileDatabase.openBehind blake3 listing manifest options shape.loaded)
      (fun db d' => (db.backend.files.fault ≠ none → faulty) ∧
        Opened manifest history shape db d')
      (fun d' => faulty ∧ Closed blake3 manifest history d') := by
  have hCd : faulty → ∀ d', d' = d → faulty ∧ Closed blake3 manifest history d' := by
    rintro hfaulty d' rfl
    exact ⟨hfaulty, ⟨e, hrecorded⟩, shape, tail, hof, hin, htail⟩
  obtain ⟨rebuilt, hrebuild, hrebuilt⟩ := hrecorded.is.rebuild
  obtain ⟨hexhausted, hminimum, hbegin⟩ := Shape.loaded_exhausted hstart
  obtain ⟨hlength, hnone⟩ := hof.exhausted hstart
  have hsome := hof.exists_segment hin
  have hbase : shape.base = e.unindexed := by
    have hreplay := hof.replay hrecorded.is
    rw [hlength.symm, List.drop_length] at hreplay
    exact Except.ok.inj hreplay
  unfold FileDatabase.openBehind
  refine Faults.Spec.reads (spec_readSegments hin.intact htemps hsome hCd) ?_
  dsimp only
  rw [hexhausted, hbegin, hbase]
  obtain ⟨last, hlast, hmem⟩ : ∃ last, (((d.list listing FileName.inWal).filterMap
      (FileName.firstFrom (FileDatabase.minimumSequence shape.loaded))).insertionSort
        (· ≤ ·)).getLastD .first = last ∧ FileName.segment last ∈ d :=
    ⟨_, rfl, segment_getLastD_mem hsome⟩
  rw [hlast]
  refine EStateM.Spec.ite (fun _ => ?_) fun h => absurd rfl h
  refine EStateM.Spec.value (Except.mapError_eq_ok.mpr (finish_eq_ok hrebuild none 0)) ?_
  rw [← hnone]
  refine (spec_goOn hoptions (hof.endingIn hstart last) hrecorded hrebuild hrebuilt listing d
    0).weaken ?_ ?_ fun _ h => h
  · rintro w ⟨hfault, rfl⟩
    exact ⟨hfault, hin.endingIn hstart hmem, fun name hname => hname⟩
  · rintro db w ⟨hfault, hfault', h⟩
    exact ⟨hfault, hfault', h.files, h.healthy, h.recorded, h.replayed, h.next, h.shape⟩

end Behind

/-- Opening recovers the history, and wherever it may be stopped the files still stand for it. -/
theorem spec_openDatabase {listing : Listing} {options : FileDatabaseOptions}
    (hoptions : options.Matches manifest) (hof : shape.Of blake3 manifest.recordLimits history)
    (htail : EngineRecovery.CutFrame blake3 manifest.recordLimits shape.next tail) {e : Engine}
    (hrecorded : Recorded blake3 history e) :
    Faults.Spec faulty (shape.In blake3 manifest tail)
      (FileDatabase.openDatabase blake3 listing manifest options)
      (fun db d => (db.backend.files.fault ≠ none → faulty) ∧
        Opened manifest history shape db d)
      (fun d => faulty ∧ Closed blake3 manifest history d) := by
  have hclosed : faulty → ∀ d, shape.In blake3 manifest tail d →
      faulty ∧ Closed blake3 manifest history d :=
    fun hfaulty d hin => ⟨hfaulty, ⟨e, hrecorded⟩, shape, tail, hof, hin, htail⟩
  rw [FileDatabase.openDatabase_eq]
  refine EStateM.Spec.andThen (EStateM.spec_ofExcept_ok hoptions.valid fun _ h => h) ?_
  refine EStateM.Spec.andThen (EStateM.spec_ensure hoptions.recordLimits.symm) ?_
  refine EStateM.Spec.andThen (EStateM.spec_ensure hoptions.snapshotLimits.symm) ?_
  refine EStateM.Spec.andThen (spec_cleanupSegmentTemps ?_ hclosed) ?_
  · intro d first hin
    exact hin.erase id
  refine EStateM.Spec.bind (spec_loadLatestSnapshot (fun d hd => hd.1.intact) ?_
    fun hfaulty d hd => hclosed hfaulty d hd.1) fun loaded => ?_
  · rintro d ⟨hin, htemps⟩
    refine ⟨hin.erase id, fun first hmem => htemps first ?_⟩
    exact Std.ExtTreeMap.mem_of_mem_erase hmem
  refine Faults.Spec.fact ?_
  rintro rfl
  refine Faults.Spec.known fun d hd => ?_
  obtain ⟨hin, htemps⟩ := hd
  cases hstart : shape.start with
  | some start => exact spec_openBehind_records hoptions hof htail hrecorded hstart hin htemps
  | none => exact spec_openBehind_exhausted hoptions hof htail hrecorded hstart hin htemps

end PromiseDb
