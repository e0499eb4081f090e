import PromiseDb.Library.Decimal
import PromiseDb.Storage.FileDatabase

/-!
# The names of files

A segment is named by the sequence of its first record and a snapshot by its watermark, both with
twenty digits.  A name is only accepted in this form, so that every accepted name stands for one
sequence or watermark and the other way round, and temporary names are not mistaken for any other.
-/

namespace PromiseDb

open Decimal

/-! ## Names as bytes -/

/-- The digits of a number in a name. -/
def nameDigits : Nat := 20

/-- The end of the name of a segment. -/
def walExtension : List UInt8 := [46, 119, 97, 108]

/-- The end of a temporary name. -/
def tempExtension : List UInt8 := [46, 116, 109, 112]

namespace Snapshot

/-- The end of the name of a snapshot. -/
def nameExtension : List UInt8 := [46, 115, 110, 97, 112, 115, 104, 111, 116]

/-- The name under which a snapshot is written. -/
def tempName : List UInt8 := [83, 78, 65, 80, 83, 72, 79, 84] ++ tempExtension

end Snapshot

/-- The name of a segment. -/
def segmentName (sequence : RecordSequence) : List UInt8 :=
  digits nameDigits sequence.get.val.toNat ++ walExtension

/-- The sequence that a name of a segment stands for. -/
def parseSegmentName (name : List UInt8) : Option RecordSequence :=
  if name.length ≠ 24 ∨ ¬walExtension <:+ name ∨ ¬(name.take 20).all isDigit then none
  else do
    let value : U64 ← BoundedInt.ofInt? (parse (name.take 20))
    let sequence ← RecordSequence.new value
    if segmentName sequence = name then some sequence else none

/-- The name of a snapshot. -/
def snapshotName (watermark : U64) : List UInt8 :=
  digits nameDigits watermark.val.toNat ++ Snapshot.nameExtension

/-- The watermark that a name of a snapshot stands for. -/
def parseSnapshotName (name : List UInt8) : Option U64 :=
  if name.length ≠ 29 ∨ ¬Snapshot.nameExtension <:+ name ∨ ¬(name.take 20).all isDigit then none
  else do
    let value : U64 ← BoundedInt.ofInt? (parse (name.take 20))
    if snapshotName value = name then some value else none

/-- The name of a file as bytes. -/
def FileName.bytes : FileName → List UInt8
  | segment firstSequence => segmentName firstSequence
  | segmentTemp firstSequence => segmentName firstSequence ++ tempExtension
  | snapshot watermark => snapshotName watermark
  | snapshotTemp => Snapshot.tempName

/-! ## Numbers in names -/

/-- The digits in a name write the number again. -/
theorem ofInt?_parse_digits (value : U64) :
    (BoundedInt.ofInt? (parse (digits nameDigits value.val.toNat)) : Option U64) = some value := by
  obtain ⟨hlow, hhigh⟩ := value.property
  rw [parse_digits (by norm_num [nameDigits]; omega), BoundedInt.ofInt?_eq_some]
  omega

/-- The number in front of an extension. -/
theorem take_digits (n : Nat) (extension : List UInt8) :
    (digits nameDigits n ++ extension).take 20 = digits nameDigits n := by
  have hlength : (digits nameDigits n).length = 20 := length_digits _ _
  rw [← hlength, List.take_left]

/-- The digits in front of an extension are digits. -/
theorem all_isDigit_take (n : Nat) (extension : List UInt8) :
    ((digits nameDigits n ++ extension).take 20).all isDigit = true := by
  rw [take_digits, List.all_eq_true]
  exact fun byte hbyte => isDigit_of_mem_digits hbyte

/-- A name is read as a segment exactly if it is the name of the segment. -/
theorem parseSegmentName_eq_some {name : List UInt8} {sequence : RecordSequence} :
    parseSegmentName name = some sequence ↔ name = segmentName sequence := by
  unfold parseSegmentName
  constructor
  · intro h
    split at h
    · cases h
    · obtain ⟨value, -, h⟩ := Option.bind_eq_some_iff.mp h
      obtain ⟨sequence', -, h⟩ := Option.bind_eq_some_iff.mp h
      split at h
      · rename_i hname
        obtain rfl := Option.some.inj h
        exact hname.symm
      · cases h
  · intro h
    rw [h]
    have hlength : (segmentName sequence).length = 24 := by
      rw [segmentName, List.length_append, length_digits]
      rfl
    have hdigits : ((segmentName sequence).take 20).all isDigit = true := all_isDigit_take _ _
    have hparse : (BoundedInt.ofInt? (parse ((segmentName sequence).take 20)) : Option U64) =
        some sequence.get := by
      rw [segmentName, take_digits]
      exact ofInt?_parse_digits _
    rw [if_neg (by
      rintro (hne | hne | hne)
      · exact hne hlength
      · exact hne (List.suffix_append _ _)
      · exact hne hdigits), hparse]
    have hnew : RecordSequence.new sequence.get = some sequence := RecordSequence.new_eq_some.mpr rfl
    simp only [Option.bind_eq_bind, Option.bind_some, hnew, if_true]

/-- A name is read as a snapshot exactly if it is the name of the snapshot. -/
theorem parseSnapshotName_eq_some {name : List UInt8} {watermark : U64} :
    parseSnapshotName name = some watermark ↔ name = snapshotName watermark := by
  unfold parseSnapshotName
  constructor
  · intro h
    split at h
    · cases h
    · obtain ⟨value, -, h⟩ := Option.bind_eq_some_iff.mp h
      split at h
      · rename_i hname
        obtain rfl := Option.some.inj h
        exact hname.symm
      · cases h
  · intro h
    rw [h]
    have hlength : (snapshotName watermark).length = 29 := by
      rw [snapshotName, List.length_append, length_digits]
      rfl
    have hdigits : ((snapshotName watermark).take 20).all isDigit = true := all_isDigit_take _ _
    have hparse : (BoundedInt.ofInt? (parse ((snapshotName watermark).take 20)) : Option U64) =
        some watermark := by
      rw [snapshotName, take_digits]
      exact ofInt?_parse_digits _
    rw [if_neg (by
      rintro (hne | hne | hne)
      · exact hne hlength
      · exact hne (List.suffix_append _ _)
      · exact hne hdigits), hparse]
    simp only [Option.bind_eq_bind, Option.bind_some, if_true]

/-! ## Names of different files -/

/-- Two ends of equal length are equal. -/
theorem eq_of_suffix {a b l : List UInt8} (ha : a <:+ l) (hb : b <:+ l)
    (hlength : a.length = b.length) : a = b :=
  (List.suffix_of_suffix_length_le ha hb hlength.le).eq_of_length hlength

/-- Different segments have different names. -/
theorem segmentName_injective : Function.Injective segmentName := by
  intro a b h
  have ha : parseSegmentName (segmentName a) = some a := parseSegmentName_eq_some.mpr rfl
  have hb : parseSegmentName (segmentName a) = some b := parseSegmentName_eq_some.mpr h
  exact Option.some.inj (ha.symm.trans hb)

/-- Different snapshots have different names. -/
theorem snapshotName_injective : Function.Injective snapshotName := by
  intro a b h
  have ha : parseSnapshotName (snapshotName a) = some a := parseSnapshotName_eq_some.mpr rfl
  have hb : parseSnapshotName (snapshotName a) = some b := parseSnapshotName_eq_some.mpr h
  exact Option.some.inj (ha.symm.trans hb)

/-- The length of a name of a kind. -/
def FileName.nameLength : FileName → Nat
  | segment _ => 24
  | segmentTemp _ => 28
  | snapshot _ => 29
  | snapshotTemp => 12

/-- The length of a name tells its kind. -/
theorem FileName.length_bytes (name : FileName) : name.bytes.length = name.nameLength := by
  cases name with
  | segment first =>
    show (digits nameDigits _ ++ walExtension).length = 24
    rw [List.length_append, length_digits]
    rfl
  | segmentTemp first =>
    show (digits nameDigits _ ++ walExtension ++ tempExtension).length = 28
    rw [List.length_append, List.length_append, length_digits]
    rfl
  | snapshot watermark =>
    show (digits nameDigits _ ++ Snapshot.nameExtension).length = 29
    rw [List.length_append, length_digits]
    rfl
  | snapshotTemp => rfl

/-- Different files have different names. -/
theorem FileName.bytes_injective : Function.Injective FileName.bytes := by
  intro a b h
  have hlength := congrArg List.length h
  rw [length_bytes, length_bytes] at hlength
  cases a with
  | segment first =>
    cases b with
    | segment other => exact congrArg segment (segmentName_injective h)
    | segmentTemp other => cases hlength
    | snapshot watermark => cases hlength
    | snapshotTemp => cases hlength
  | segmentTemp first =>
    cases b with
    | segment other => cases hlength
    | segmentTemp other =>
      exact congrArg segmentTemp (segmentName_injective (List.append_cancel_right h))
    | snapshot watermark => cases hlength
    | snapshotTemp => cases hlength
  | snapshot watermark =>
    cases b with
    | segment other => cases hlength
    | segmentTemp other => cases hlength
    | snapshot other => exact congrArg snapshot (snapshotName_injective h)
    | snapshotTemp => cases hlength
  | snapshotTemp =>
    cases b with
    | segment other => cases hlength
    | segmentTemp other => cases hlength
    | snapshot watermark => cases hlength
    | snapshotTemp => rfl

/-- The names that opening removes as temporary segments are those of temporary segments. -/
theorem FileName.tempExtension_suffix_iff (name : FileName) :
    walExtension ++ tempExtension <:+ name.bytes ↔ FileDatabase.isSegmentTemp name = true := by
  cases name with
  | segment first =>
    constructor
    · intro h
      have hend : tempExtension <:+ segmentName first := (List.suffix_append _ _).trans h
      cases eq_of_suffix hend (List.suffix_append _ _) rfl
    · intro h
      cases h
  | segmentTemp first =>
    refine ⟨fun _ => rfl, fun _ => ?_⟩
    show _ <:+ digits nameDigits _ ++ walExtension ++ tempExtension
    rw [List.append_assoc]
    exact List.suffix_append _ _
  | snapshot watermark =>
    constructor
    · intro h
      have hend : Snapshot.nameExtension.drop 1 <:+ snapshotName watermark :=
        (List.drop_suffix _ _).trans (List.suffix_append _ _)
      cases eq_of_suffix h hend rfl
    · intro h
      cases h
  | snapshotTemp =>
    constructor
    · intro h
      have hend : Snapshot.tempName.drop 4 <:+ Snapshot.tempName := List.drop_suffix _ _
      cases eq_of_suffix h hend rfl
    · intro h
      cases h

/-- Every name of a segment or a snapshot is read as what it names, no other name is read as one,
different files have different names, and the names with the ending of temporary segments are those
of temporary segments. -/
theorem fileNames_exact :
    (∀ name sequence, parseSegmentName name = some sequence ↔
      name = (FileName.segment sequence).bytes) ∧
    (∀ name watermark, parseSnapshotName name = some watermark ↔
      name = (FileName.snapshot watermark).bytes) ∧
    Function.Injective FileName.bytes ∧
    ∀ name : FileName, walExtension ++ tempExtension <:+ name.bytes ↔
      FileDatabase.isSegmentTemp name = true :=
  ⟨fun _ _ => parseSegmentName_eq_some, fun _ _ => parseSnapshotName_eq_some,
    FileName.bytes_injective, FileName.tempExtension_suffix_iff⟩

end PromiseDb
