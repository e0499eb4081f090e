import PromiseDb.Engine.RecordHistory
import PromiseDb.Storage.Database
import PromiseDb.Storage.WrittenLengths

/-!
# Recovery

Recovery reads the records of one segment after another, decodes them, and installs their effects
without the derived timelines, which are rebuilt once at the end.  Of frames that were written with
consecutive sequences it installs exactly the items, and a cut within the next frame is reported as a
partial tail behind them.
-/

namespace PromiseDb

/-! ## Feeding and finishing -/

/-- Why recovery has stopped. -/
inductive RecoveryError
  /-- A record was not read or not decoded. -/
  | storage (lastValidOffset : Nat) (source : StorageError)
  /-- An event has another timestamp than its record. -/
  | timestampMismatch (recordSequence : RecordSequence) (recordTimestamp eventTimestamp : Timestamp)
      (lastValidOffset : Nat)
  /-- The effects were not installed, or the timelines were not rebuilt. -/
  | install (recordSequence : Option RecordSequence) (lastValidOffset : Nat) (source : InstallError)

namespace RecoveryError

/-- The end of the last complete record before the failure. -/
def lastValidOffset : RecoveryError → Nat
  | storage lastValidOffset _ => lastValidOffset
  | timestampMismatch _ _ _ lastValidOffset => lastValidOffset
  | install _ lastValidOffset _ => lastValidOffset

/-- Whether the bytes end within a record. -/
def isPartialTail : RecoveryError → Bool
  | storage _ (.partialTail _ _ _) => true
  | _ => false

/-- The offset that is reported. -/
def offset : RecoveryError → Nat
  | storage _ (.partialTail offset _ _) => offset
  | storage _ (.corruptWalRecord offset _) => offset
  | storage _ (.unsupportedRecordVersion offset _) => offset
  | storage _ (.recordTooLarge offset _ _) => offset
  | error => error.lastValidOffset

end RecoveryError

/-- The engine that recovery has reached, and the sequence of the next record. -/
structure EngineRecovery where
  engine : Engine
  nextRecordSequence : Option RecordSequence

/-- The recovered engine, and how the log goes on. -/
structure RecoveryOutcome where
  engine : Engine
  nextRecordSequence : Option RecordSequence
  lastValidOffset : Nat

namespace EngineRecovery

/-- Recovery from the first record on. -/
def new : EngineRecovery := ⟨.empty, some .first⟩

/-- Recovery from a record on over the state of a snapshot. -/
def withExpected (expected : RecordSequence) (engine : Engine) : EngineRecovery :=
  ⟨engine, some expected⟩

/-- Recovery over the state of a snapshot that covers all records there can be. -/
def fromExhaustedSnapshot (engine : Engine) : EngineRecovery := ⟨engine, none⟩

section Hashing

variable (blake3 : List UInt8 → CommandHash)

/-- Decodes a record at an offset and installs its effects. -/
def installRecord (offset : Nat) (record : Record) (engine : Engine) :
    Except RecoveryError Engine := do
  let transition ← (decodeTransition record.payload).mapError (.storage offset)
  transition.events.forM fun event => Except.ensure (event.timestamp = record.timestamp)
    (.timestampMismatch record.recordSequence record.timestamp event.timestamp offset)
  (Engine.installTransition blake3 engine transition).mapError
    (.install (some record.recordSequence) offset)

/-- Installs the records that a reader reads, at most as many as there is fuel. -/
def feedRecords : Nat → RecordReader → EStateM RecoveryError EngineRecovery Nat
  | 0, reader => throw (.storage reader.offset .truncatedPayload)
  | fuel + 1, reader => fun recovery =>
    match RecordReader.readNext blake3 reader with
    | .error source reader' =>
      .error (.storage reader.offset source)
        { recovery with nextRecordSequence := reader'.expectedSequence }
    | .ok none reader' =>
      .ok reader'.offset { recovery with nextRecordSequence := reader'.expectedSequence }
    | .ok (some record) reader' =>
      match installRecord blake3 reader.offset record recovery.engine with
      | .error e => .error e { recovery with nextRecordSequence := reader'.expectedSequence }
      | .ok engine => feedRecords fuel reader' ⟨engine, reader'.expectedSequence⟩

/-- Reads, decodes and installs the records of one segment.  A record has at least one byte, so that
the fuel is never exhausted. -/
def feed (bytes : List UInt8) (limits : RecordLimits) :
    EStateM RecoveryError EngineRecovery Nat := do
  let recovery ← get
  let expected ← ofExcept (recovery.nextRecordSequence.elim
    (.error (.storage 0 (Record.corrupt 0 .sequenceOverflow))) .ok)
  feedRecords blake3 (bytes.length + 1) (.withExpectedSequence bytes limits expected)

/-- Rebuilds the timelines. -/
def finish (recovery : EngineRecovery) (lastValidOffset : Nat) :
    Except RecoveryError RecoveryOutcome := do
  let engine ← (Engine.rebuildSlackTimelines recovery.engine).mapError
    (.install none lastValidOffset)
  return ⟨engine, recovery.nextRecordSequence, lastValidOffset⟩

end Hashing

/-! ## Frames that were written -/

variable {blake3 : List UInt8 → CommandHash}

open Database

variable (blake3) in
/-- A part of a frame with the next sequence, which is not the whole frame. -/
def CutFrame (limits : RecordLimits) (next : Option RecordSequence) (tail : List UInt8) : Prop :=
  tail = [] ∨ ∃ record bytes, next = some record.recordSequence ∧
    Record.encode blake3 record limits = .ok bytes ∧ tail <+: bytes ∧ tail ≠ bytes

/-- What is read of a cut frame. -/
theorem feedRecords_cut {limits : RecordLimits} {next : Option RecordSequence} {tail : List UInt8}
    (h : CutFrame blake3 limits next tail) {fuel : Nat} (hfuel : tail.length < fuel) (offset : Nat)
    (recovery : EngineRecovery) :
    (tail = [] → feedRecords blake3 fuel ⟨tail, limits, offset, next⟩ recovery =
      .ok offset ⟨recovery.engine, next⟩) ∧
    (tail ≠ [] → ∃ length, feedRecords blake3 fuel ⟨tail, limits, offset, next⟩ recovery =
      .error (.storage offset (.partialTail offset length tail.length))
        ⟨recovery.engine, next⟩) := by
  obtain ⟨fuel, rfl⟩ : ∃ n, fuel = n + 1 := ⟨fuel - 1, by omega⟩
  constructor
  · rintro rfl
    rfl
  · intro hne
    obtain rfl | ⟨record, bytes, rfl, hencode, hfront, hproper⟩ := h
    · exact absurd rfl hne
    · rw [feedRecords, RecordReader.readNext_cut hencode hfront hne hproper offset]
      exact ⟨_, rfl⟩

/-- The item of a recordable frame is installed. -/
theorem installRecord_encode {item : TimestampedTransition} (h : item.Recordable)
    {sequence : RecordSequence} {payload : List UInt8}
    (hencode : encodeTransition item.transition = .ok payload) {e e' : Engine}
    (hinstall : Engine.installTransition blake3 e item.transition = .ok e') (offset : Nat) :
    installRecord blake3 offset ⟨sequence, item.timestamp, payload⟩ e = .ok e' := by
  have htimestamps : ∀ event ∈ item.transition.events,
      Except.ensure (event.timestamp = item.timestamp)
        (RecoveryError.timestampMismatch sequence item.timestamp event.timestamp offset) =
          .ok ⟨⟩ := fun event hevent => Except.ensure_eq_ok.mpr (h.timestamps event hevent)
  rw [installRecord, h.decodes payload hencode]
  refine Except.bind_eq_ok.mpr ⟨item.transition, rfl, ?_⟩
  refine Except.bind_eq_ok.mpr ⟨⟨⟩, List.forM_eq_ok.mpr htimestamps, ?_⟩
  rw [hinstall]
  rfl

/-- The items of frames with consecutive sequences are installed, and a cut frame behind them is a
partial tail. -/
theorem feedRecords_logged {limits : RecordLimits} {start next : Option RecordSequence}
    {items : List TimestampedTransition} {bytes tail : List UInt8}
    (h : Logged blake3 limits start items bytes next) (hitems : ∀ item ∈ items, item.Recordable)
    {recovery : EngineRecovery} {e : Engine}
    (hinstall : Engine.installAll blake3 recovery.engine items = .ok e)
    (htail : CutFrame blake3 limits next tail) {fuel : Nat}
    (hfuel : (bytes ++ tail).length < fuel) (offset : Nat) :
    (tail = [] → feedRecords blake3 fuel ⟨bytes ++ tail, limits, offset, start⟩ recovery =
      .ok (offset + bytes.length) ⟨e, next⟩) ∧
    (tail ≠ [] → ∃ length,
      feedRecords blake3 fuel ⟨bytes ++ tail, limits, offset, start⟩ recovery =
        .error (.storage (offset + bytes.length)
          (.partialTail (offset + bytes.length) length tail.length)) ⟨e, next⟩) := by
  induction h generalizing recovery fuel offset with
  | nil start =>
    obtain rfl := Except.ok.inj hinstall
    exact feedRecords_cut htail hfuel offset recovery
  | @cons sequence item payload bytes rest items next encoded framed others ih =>
    obtain ⟨fuel, rfl⟩ : ∃ n, fuel = n + 1 := ⟨fuel - 1, by omega⟩
    rw [Engine.installAll, List.foldlM_cons] at hinstall
    obtain ⟨e₁, hfirst, hrest⟩ := Except.bind_eq_ok.mp hinstall
    have hpos : 0 < bytes.length := List.length_pos_of_ne_nil (RecordReader.encode_ne_nil framed)
    have hread := RecordReader.readNext_encode framed (rest ++ tail) offset
    have hitem : installRecord blake3 offset ⟨sequence, item.timestamp, payload⟩ recovery.engine =
        .ok e₁ := installRecord_encode (hitems item List.mem_cons_self) encoded hfirst offset
    have hstep : feedRecords blake3 (fuel + 1) ⟨bytes ++ rest ++ tail, limits, offset, some sequence⟩
        recovery = feedRecords blake3 fuel
          ⟨rest ++ tail, limits, offset + bytes.length, sequence.next⟩ ⟨e₁, sequence.next⟩ := by
      rw [feedRecords, List.append_assoc, hread]
      dsimp only
      rw [hitem]
    have hless : (rest ++ tail).length < fuel := by
      rw [List.append_assoc, List.length_append] at hfuel
      omega
    have hothers := @ih (fun item hitem => hitems item (List.mem_cons_of_mem _ hitem))
      ⟨e₁, sequence.next⟩ hrest htail fuel hless (offset + bytes.length)
    rw [hstep, List.length_append, ← Nat.add_assoc]
    exact hothers

/-- Feeding the frames of a segment. -/
theorem feed_logged {limits : RecordLimits} {sequence : RecordSequence}
    {next : Option RecordSequence} {items : List TimestampedTransition} {bytes tail : List UInt8}
    (h : Logged blake3 limits (some sequence) items bytes next)
    (hitems : ∀ item ∈ items, item.Recordable) {e e' : Engine}
    (hinstall : Engine.installAll blake3 e items = .ok e')
    (htail : CutFrame blake3 limits next tail) :
    (tail = [] → feed blake3 (bytes ++ tail) limits ⟨e, some sequence⟩ =
      .ok bytes.length ⟨e', next⟩) ∧
    (tail ≠ [] → ∃ length, feed blake3 (bytes ++ tail) limits ⟨e, some sequence⟩ =
      .error (.storage bytes.length (.partialTail bytes.length length tail.length))
        ⟨e', next⟩) := by
  have hfeed := @feedRecords_logged blake3 limits (some sequence) next items bytes tail h hitems
    ⟨e, some sequence⟩ e' hinstall htail _ (Nat.lt_succ_self _) 0
  rw [Nat.zero_add] at hfeed
  exact hfeed

end EngineRecovery

end PromiseDb
