import PromiseDb.Library.Faults
import PromiseDb.Library.OrderedMap
import PromiseDb.Storage.Record

/-!
# The files of a database

The log segments and the snapshots of a database, under the names that say what they are, with the
calls that create, write, rename, cut and remove them.  A file knows which of its bytes are stable.

Two assumptions about the file system are built in: a name is stable as soon as it has changed, so
that syncing a directory has no effect, and a crash keeps the stable bytes of a file together with a
part, from the front, of the bytes that were appended since.
-/

namespace PromiseDb

open Faults

/-! ## Names -/

instance : LinearOrder RecordSequence :=
  LinearOrder.lift' (fun s => s.get.val) fun _ _ h => RecordSequence.ext h

/-- The names of files, by what they hold. -/
inductive FileName
  /-- A log segment, named by the sequence of its first record. -/
  | segment (firstSequence : RecordSequence)
  /-- A log segment that is being created. -/
  | segmentTemp (firstSequence : RecordSequence)
  /-- A snapshot, named by its watermark. -/
  | snapshot (watermark : U64)
  /-- A snapshot that is being written. -/
  | snapshotTemp
  deriving DecidableEq

namespace FileName

/-- The kind and the number of a name. -/
def key : FileName → ℕ ×ₗ ℤ
  | segment firstSequence => toLex (0, firstSequence.get.val)
  | segmentTemp firstSequence => toLex (1, firstSequence.get.val)
  | snapshot watermark => toLex (2, watermark.val)
  | snapshotTemp => toLex (3, 0)

/-- Different names have different keys. -/
theorem key_injective : Function.Injective key := by
  intro a b h
  cases a <;> cases b <;> simp only [key, toLex_inj, Prod.mk.injEq] at h
  · exact congrArg segment (RecordSequence.ext h.2)
  all_goals first
    | omega
    | exact congrArg segmentTemp (RecordSequence.ext h.2)
    | exact congrArg snapshot (Subtype.ext h.2)
    | rfl

instance : LinearOrder FileName := LinearOrder.lift' key key_injective

instance : Std.TransCmp (compare : FileName → FileName → Ordering) := LinearOrder.transCmp FileName

/-- Whether a name belongs to the directory of the log. -/
def inWal : FileName → Bool
  | segment _ => true
  | segmentTemp _ => true
  | snapshot _ => false
  | snapshotTemp => false

/-- Whether a name belongs to the directory of the snapshots. -/
def inSnapshots (name : FileName) : Bool := !name.inWal

end FileName

/-! ## Files -/

/-- The content of a file: what is stable, and what was appended since the file was last synced. -/
structure File where
  stable : List UInt8
  appended : List UInt8
  deriving DecidableEq

namespace File

/-- All bytes of a file. -/
def content (file : File) : List UInt8 := file.stable ++ file.appended

/-- A file of which all bytes are stable. -/
def synced (bytes : List UInt8) : File := ⟨bytes, []⟩

/-- A synced file holds its bytes. -/
@[simp] theorem content_synced (bytes : List UInt8) : (synced bytes).content = bytes :=
  List.append_nil bytes

end File

/-- The files of a database by their names. -/
abbrev Directory := OrderedMap FileName File

/-- The kinds of errors of the calls. -/
inductive IoErrorKind
  | notFound
  | alreadyExists
  | other
  deriving DecidableEq

/-- The name of a kind. -/
def IoErrorKind.text : IoErrorKind → String
  | notFound => "entity not found"
  | alreadyExists => "entity already exists"
  | other => "other error"

/-- The files with the failure that is going to be met. -/
abbrev FileSystem := World Directory

/-- A program of calls. -/
abbrev FileCalls := EStateM IoErrorKind FileSystem

/-- The order in which a directory lists its names, which is arbitrary. -/
structure Listing where
  order : List FileName → List FileName
  perm : ∀ names, (order names).Perm names

/-- The order of the names. -/
def Listing.sorted : Listing := ⟨id, List.Perm.refl⟩

namespace Directory

/-- The names in a part of a directory, in some order. -/
def list (listing : Listing) (part : FileName → Bool) (d : Directory) : List FileName :=
  listing.order ((d.toList.map Prod.fst).filter part)

/-- The names in a part of a directory are listed. -/
theorem mem_list {listing : Listing} {part : FileName → Bool} {d : Directory} {name : FileName} :
    name ∈ d.list listing part ↔ name ∈ d ∧ part name = true := by
  rw [list, (listing.perm _).mem_iff, List.mem_filter, OrderedMap.mem_keys_iff]

/-- Every name is listed once. -/
theorem nodup_list (listing : Listing) (part : FileName → Bool) (d : Directory) :
    (d.list listing part).Nodup :=
  (listing.perm _).nodup_iff.mpr ((OrderedMap.toList_keys_nodup d).filter _)

end Directory

/-! ## Calls -/

namespace FileCalls

/-- A call that changes the files or refuses to. -/
def io {α : Type} (f : Directory → Except IoErrorKind (α × Directory)) : FileCalls α :=
  call .other f

/-- A call that changes a file that must be there. -/
def change (name : FileName) (f : File → File) : FileCalls PUnit := io fun d =>
  match d[name]? with
  | some file => .ok (⟨⟩, d.insert name (f file))
  | none => .error .notFound

/-- Creates an empty file under a new name. -/
def createNew (name : FileName) : FileCalls PUnit := io fun d =>
  if d.contains name = true then .error .alreadyExists else .ok (⟨⟩, d.insert name (.synced []))

/-- Appends bytes to a file. -/
def write (name : FileName) (bytes : List UInt8) : FileCalls PUnit :=
  change name fun file => { file with appended := file.appended ++ bytes }

/-- Makes all bytes of a file stable. -/
def sync (name : FileName) : FileCalls PUnit := change name fun file => .synced file.content

/-- Gives a file a length. -/
def setLen (name : FileName) (length : Nat) : FileCalls PUnit :=
  change name fun file => .synced (file.content.takeD length 0)

/-- Gives a file another name, under which no other file remains. -/
def rename (source target : FileName) : FileCalls PUnit := io fun d =>
  match d[source]? with
  | some file => .ok (⟨⟩, (d.erase source).insert target file)
  | none => .error .notFound

/-- Removes a file. -/
def remove (name : FileName) : FileCalls PUnit := io fun d =>
  if d.contains name = true then .ok (⟨⟩, d.erase name) else .error .notFound

/-- Reads all bytes of a file. -/
def read (name : FileName) : FileCalls (List UInt8) := io fun d =>
  match d[name]? with
  | some file => .ok (file.content, d)
  | none => .error .notFound

/-- Makes the names stable.  They are assumed to be so as soon as they have changed. -/
def syncDirectory : FileCalls PUnit := io fun d => .ok (⟨⟩, d)

/-- Lists the names in a part of the directory. -/
def readDir (listing : Listing) (part : FileName → Bool) : FileCalls (List FileName) := io fun d =>
  .ok (d.list listing part, d)

/-- Looks at an entry that was listed. -/
def entry : FileCalls PUnit := io fun d => .ok (⟨⟩, d)

/-- Opens a file that is there. -/
def openFile (name : FileName) : FileCalls PUnit := io fun d =>
  if d.contains name = true then .ok (⟨⟩, d) else .error .notFound

/-! ## What the calls do -/

section Specifications

variable {faulty : Prop} {P Q C : Directory → Prop} {name : FileName}

/-- A file is changed. -/
theorem effect_change {f : File → File} (hthere : ∀ d, P d → name ∈ d)
    (hchange : ∀ d file, P d → d[name]? = some file → Q (d.insert name (f file))) :
    Effect P (change name f) (fun _ => Q) (fun _ => False) := by
  unfold change io
  refine effect_call ?_ ?_
  · intro d hd u d' h
    obtain ⟨file, hfile⟩ := OrderedMap.mem_iff_lookup.mp (hthere d hd)
    rw [hfile] at h
    cases h
    exact hchange d file hd hfile
  · intro d hd e h
    obtain ⟨file, hfile⟩ := OrderedMap.mem_iff_lookup.mp (hthere d hd)
    rw [hfile] at h
    cases h

/-- A file is created, or its name is taken. -/
theorem effect_createNew (hnew : ∀ d, P d → name ∉ d → Q (d.insert name (.synced []))) :
    Effect P (createNew name) (fun _ => Q) (fun d => P d ∧ name ∈ d) := by
  unfold createNew io
  refine effect_call ?_ ?_
  · intro d hd u d' h
    split at h
    · cases h
    · rename_i hcontains
      cases h
      exact hnew d hd fun hmem => hcontains (OrderedMap.contains_iff.mpr hmem)
  · intro d hd e h
    split at h
    · rename_i hcontains
      exact ⟨hd, OrderedMap.contains_iff.mp hcontains⟩
    · cases h

/-- A file is renamed. -/
theorem effect_rename {source target : FileName} (hthere : ∀ d, P d → source ∈ d)
    (hrename : ∀ d file, P d → d[source]? = some file → Q ((d.erase source).insert target file)) :
    Effect P (rename source target) (fun _ => Q) (fun _ => False) := by
  unfold rename io
  refine effect_call ?_ ?_
  · intro d hd u d' h
    obtain ⟨file, hfile⟩ := OrderedMap.mem_iff_lookup.mp (hthere d hd)
    rw [hfile] at h
    cases h
    exact hrename d file hd hfile
  · intro d hd e h
    obtain ⟨file, hfile⟩ := OrderedMap.mem_iff_lookup.mp (hthere d hd)
    rw [hfile] at h
    cases h

/-- A file is opened. -/
theorem effect_openFile (hthere : ∀ d, P d → name ∈ d) :
    Effect P (openFile name) (fun _ => P) (fun _ => False) := by
  unfold openFile io
  refine effect_call ?_ ?_
  · intro d hd u d' h
    rw [if_pos (OrderedMap.contains_iff.mpr (hthere d hd))] at h
    cases h
    exact hd
  · intro d hd e h
    rw [if_pos (OrderedMap.contains_iff.mpr (hthere d hd))] at h
    cases h

/-- Syncing a directory changes nothing. -/
theorem effect_syncDirectory : Effect P syncDirectory (fun _ => P) (fun _ => False) := by
  unfold syncDirectory io
  refine effect_call ?_ fun _ _ _ h => by cases h
  intro d hd u d' h
  cases h
  exact hd

/-- A file is changed wherever a fault may be met. -/
theorem spec_change {f : File → File} (hthere : ∀ d, P d → name ∈ d)
    (hchange : ∀ d file, P d → d[name]? = some file → Q (d.insert name (f file)))
    (hP : faulty → ∀ d, P d → C d) (hQ : faulty → ∀ d, Q d → C d) :
    Faults.Spec faulty P (change name f) (fun _ => Q) C :=
  (effect_change hthere hchange).spec (fun _ h => h.elim) hP fun hfaulty _ => hQ hfaulty

/-- A file is created, or its name is taken, wherever a fault may be met. -/
theorem spec_createNew (hnew : ∀ d, P d → name ∉ d → Q (d.insert name (.synced [])))
    (htaken : ∀ d, P d → name ∈ d → C d) (hP : faulty → ∀ d, P d → C d)
    (hQ : faulty → ∀ d, Q d → C d) : Faults.Spec faulty P (createNew name) (fun _ => Q) C :=
  (effect_createNew hnew).spec (fun d h => htaken d h.1 h.2) hP fun hfaulty _ => hQ hfaulty

/-- A file is renamed wherever a fault may be met. -/
theorem spec_rename {source target : FileName} (hthere : ∀ d, P d → source ∈ d)
    (hrename : ∀ d file, P d → d[source]? = some file → Q ((d.erase source).insert target file))
    (hP : faulty → ∀ d, P d → C d) (hQ : faulty → ∀ d, Q d → C d) :
    Faults.Spec faulty P (rename source target) (fun _ => Q) C :=
  (effect_rename hthere hrename).spec (fun _ h => h.elim) hP fun hfaulty _ => hQ hfaulty

/-- A file is removed. -/
theorem spec_remove (hthere : ∀ d, P d → name ∈ d) (hremove : ∀ d, P d → Q (d.erase name))
    (hP : faulty → ∀ d, P d → C d) (hQ : faulty → ∀ d, Q d → C d) :
    Faults.Spec faulty P (remove name) (fun _ => Q) C := by
  unfold remove io
  refine spec_call ?_ ?_ hP fun hfaulty _ => hQ hfaulty
  · intro d hd u d' h
    rw [if_pos (OrderedMap.contains_iff.mpr (hthere d hd))] at h
    cases h
    exact hremove d hd
  · intro d hd e h
    rw [if_pos (OrderedMap.contains_iff.mpr (hthere d hd))] at h
    cases h

/-- A file is read. -/
theorem spec_read {Q : List UInt8 → Directory → Prop}
    (hread : ∀ d, P d → ∃ file, d[name]? = some file ∧ Q file.content d)
    (hP : faulty → ∀ d, P d → C d) (hQ : faulty → ∀ bytes d, Q bytes d → C d) :
    Faults.Spec faulty P (read name) Q C := by
  unfold read io
  refine spec_call ?_ ?_ hP hQ
  · intro d hd bytes d' h
    obtain ⟨file, hfile, hcontent⟩ := hread d hd
    rw [hfile] at h
    cases h
    exact hcontent
  · intro d hd e h
    obtain ⟨file, hfile, -⟩ := hread d hd
    rw [hfile] at h
    cases h

/-- A file is opened wherever a fault may be met. -/
theorem spec_openFile (hthere : ∀ d, P d → name ∈ d) (hP : faulty → ∀ d, P d → C d) :
    Faults.Spec faulty P (openFile name) (fun _ => P) C :=
  (effect_openFile hthere).spec (fun _ h => h.elim) hP fun hfaulty _ => hP hfaulty

/-- The names are listed. -/
theorem spec_readDir {listing : Listing} {part : FileName → Bool}
    {Q : List FileName → Directory → Prop} (hlist : ∀ d, P d → Q (d.list listing part) d)
    (hP : faulty → ∀ d, P d → C d) (hQ : faulty → ∀ names d, Q names d → C d) :
    Faults.Spec faulty P (readDir listing part) Q C := by
  unfold readDir io
  refine spec_call ?_ (fun _ _ _ h => by cases h) hP hQ
  intro d hd names d' h
  cases h
  exact hlist d hd

/-- Syncing a directory changes nothing wherever a fault may be met. -/
theorem spec_syncDirectory (hP : faulty → ∀ d, P d → C d) :
    Faults.Spec faulty P syncDirectory (fun _ => P) C :=
  effect_syncDirectory.spec (fun _ h => h.elim) hP fun hfaulty _ => hP hfaulty

/-- Looking at an entry changes nothing. -/
theorem spec_entry (hP : faulty → ∀ d, P d → C d) :
    Faults.Spec faulty P entry (fun _ => P) C := by
  unfold entry io
  refine spec_call ?_ (fun _ _ _ h => by cases h) hP fun hfaulty _ => hP hfaulty
  intro d hd u d' h
  cases h
  exact hd

end Specifications

end FileCalls

/-! ## Crashes -/

/-- What a crash may leave of a file: the stable bytes, and the first of the others. -/
def File.Cut (file file' : File) : Prop :=
  ∃ part, part <+: file.appended ∧ file' = .synced (file.stable ++ part)

/-- What a crash may leave of the files: all names, with what it leaves of each file.  That no name is
lost, whether or not its directory was synced, is an assumption. -/
def Directory.Cut (d d' : Directory) : Prop := OrderedMap.Rel File.Cut d d'

/-- The files when some of the appended bytes of each are left. -/
def Directory.keepAppended (count : Nat) (d : Directory) : Directory :=
  d.map fun _ file => .synced (file.stable ++ file.appended.take count)

/-- A crash may leave as many of the appended bytes as there are, or fewer. -/
theorem Directory.cut_keepAppended (count : Nat) (d : Directory) : d.Cut (d.keepAppended count) := by
  intro name
  rw [keepAppended, Std.ExtTreeMap.getElem?_map]
  cases d[name]? with
  | none => exact .none
  | some file => exact .some ⟨file.appended.take count, List.take_prefix _ _, rfl⟩

end PromiseDb
