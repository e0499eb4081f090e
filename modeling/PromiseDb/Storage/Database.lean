import PromiseDb.Engine.Batch
import PromiseDb.Storage.RecordStream
import PromiseDb.Storage.TransitionCodec

/-!
# Durable groups

A database is an engine with a log.  A group of commands is prepared on the engine, its durable items
are framed as records with consecutive sequences, the bytes are appended to the log with one call and
made durable, and only then the group is published.  The log is a parameter: anything that bytes can
be appended to.
-/

namespace PromiseDb

/-! ## Logs -/

/-- An append-only destination for framed records. -/
class WalBackend (B : Type) where
  /-- Appends all bytes or fails. -/
  append : List UInt8 → EStateM StorageError B PUnit
  /-- Passes buffered bytes on. -/
  flush : EStateM StorageError B PUnit
  /-- Makes the appended bytes stable. -/
  sync : EStateM StorageError B PUnit

/-- A log kept in memory, with counts of the calls. -/
structure MemoryWal where
  bytes : List UInt8
  appendCount : Nat
  flushCount : Nat
  syncCount : Nat
  deriving DecidableEq

/-- An empty log in memory. -/
def MemoryWal.new : MemoryWal := ⟨[], 0, 0, 0⟩

instance : WalBackend MemoryWal where
  append bytes := modify fun wal =>
    { wal with bytes := wal.bytes ++ bytes, appendCount := wal.appendCount + 1 }
  flush := modify fun wal => { wal with flushCount := wal.flushCount + 1 }
  sync := modify fun wal => { wal with syncCount := wal.syncCount + 1 }

/-- What is asked for after an append. -/
inductive Durability
  | none
  | flush
  | sync
  deriving DecidableEq

/-- Appends bytes and makes them as durable as asked for. -/
def persist {B : Type} [WalBackend B] (bytes : List UInt8) (durability : Durability) :
    EStateM StorageError B PUnit := do
  WalBackend.append bytes
  match durability with
  | .none => pure ⟨⟩
  | .flush => WalBackend.flush
  | .sync => WalBackend.sync

/-- A log whose written bytes can be observed, and whose calls may fail at any time: a successful
append writes all bytes and a failing one some prefix of them, and the other calls write nothing. -/
class ObservedWal (B : Type) extends WalBackend B where
  /-- The bytes written so far. -/
  written : B → List UInt8
  written_append_ok {bytes : List UInt8} {b b' : B} :
    append bytes b = .ok ⟨⟩ b' → written b' = written b ++ bytes
  written_append_error {bytes : List UInt8} {b b' : B} {error : StorageError} :
    append bytes b = .error error b' → ∃ part, part <+: bytes ∧ written b' = written b ++ part
  written_flush (b : B) : written (flush b).finalState = written b
  written_sync (b : B) : written (sync b).finalState = written b

/-- What was appended stands behind the bytes that were there. -/
theorem MemoryWal.bytes_append {bytes : List UInt8} {b b' : MemoryWal}
    (h : WalBackend.append bytes b = .ok ⟨⟩ b') : b'.bytes = b.bytes ++ bytes := by
  cases h
  rfl

/-- A failed append leaves some first part of the bytes. -/
theorem MemoryWal.append_ne_error {bytes : List UInt8} {b b' : MemoryWal} {error : StorageError}
    (h : WalBackend.append bytes b = .error error b') :
    ∃ part, part <+: bytes ∧ b'.bytes = b.bytes ++ part := by
  cases h

/-- A log in memory does not fail. -/
instance : ObservedWal MemoryWal where
  written := MemoryWal.bytes
  written_append_ok := MemoryWal.bytes_append
  written_append_error := MemoryWal.append_ne_error
  written_flush _ := rfl
  written_sync _ := rfl

/-- A failure that a call is going to meet, and how many bytes an append writes before it. -/
structure Fault where
  written : Nat
  error : StorageError

/-- A log whose failures are scripted: a call takes the next entry of the script. -/
structure FaultWal where
  bytes : List UInt8
  faults : List (Option Fault)

/-- A call that is to write some bytes. -/
def FaultWal.call (bytes : List UInt8) : EStateM StorageError FaultWal PUnit := fun wal =>
  match wal.faults with
  | [] => .ok ⟨⟩ ⟨wal.bytes ++ bytes, []⟩
  | none :: faults => .ok ⟨⟩ ⟨wal.bytes ++ bytes, faults⟩
  | some fault :: faults => .error fault.error ⟨wal.bytes ++ bytes.take fault.written, faults⟩

instance : WalBackend FaultWal where
  append := FaultWal.call
  flush := FaultWal.call []
  sync := FaultWal.call []

/-- A call writes its bytes, or fails after some of them. -/
theorem FaultWal.call_cases (bytes : List UInt8) (wal : FaultWal) :
    (∃ wal', call bytes wal = .ok ⟨⟩ wal' ∧ wal'.bytes = wal.bytes ++ bytes) ∨
      ∃ error wal' part, call bytes wal = .error error wal' ∧ part <+: bytes ∧
        wal'.bytes = wal.bytes ++ part := by
  unfold call
  split
  · exact .inl ⟨_, rfl, rfl⟩
  · exact .inl ⟨_, rfl, rfl⟩
  · exact .inr ⟨_, _, _, rfl, List.take_prefix _ _, rfl⟩

/-- What a successful call writes stands behind the bytes that were there. -/
theorem FaultWal.bytes_append {bytes : List UInt8} {b b' : FaultWal}
    (h : call bytes b = .ok ⟨⟩ b') : b'.bytes = b.bytes ++ bytes := by
  obtain ⟨wal', hcall, hbytes⟩ | ⟨error, wal', part, hcall, -⟩ := call_cases bytes b
  · rw [hcall] at h
    cases h
    exact hbytes
  · rw [hcall] at h
    cases h

/-- A failed call leaves some first part of its bytes. -/
theorem FaultWal.bytes_append_error {bytes : List UInt8} {b b' : FaultWal} {error : StorageError}
    (h : call bytes b = .error error b') : ∃ part, part <+: bytes ∧ b'.bytes = b.bytes ++ part := by
  obtain ⟨wal', hcall, -⟩ | ⟨error, wal', part, hcall, hpart, hbytes⟩ := call_cases bytes b
  · rw [hcall] at h
    cases h
  · rw [hcall] at h
    cases h
    exact ⟨part, hpart, hbytes⟩

/-- A call that writes nothing leaves the bytes as they were. -/
theorem FaultWal.bytes_call_nil (b : FaultWal) : (call [] b).finalState.bytes = b.bytes := by
  obtain ⟨wal', hcall, hbytes⟩ | ⟨error, wal', part, hcall, hpart, hbytes⟩ := call_cases [] b
  · rw [hcall]
    exact hbytes.trans (List.append_nil _)
  · rw [hcall]
    rw [List.prefix_nil.mp hpart, List.append_nil] at hbytes
    exact hbytes

/-- Every script is one of the ways in which calls may fail. -/
instance : ObservedWal FaultWal where
  written := FaultWal.bytes
  written_append_ok := FaultWal.bytes_append
  written_append_error := FaultWal.bytes_append_error
  written_flush := FaultWal.bytes_call_nil
  written_sync := FaultWal.bytes_call_nil

/-- What is written when the bytes have been persisted, and when that has failed. -/
theorem persist_cases {B : Type} [ObservedWal B] (bytes : List UInt8) (durability : Durability)
    (b : B) :
    (∃ b', persist bytes durability b = .ok ⟨⟩ b' ∧
      ObservedWal.written b' = ObservedWal.written b ++ bytes) ∨
    ∃ error b' part, persist bytes durability b = .error error b' ∧ part <+: bytes ∧
      ObservedWal.written b' = ObservedWal.written b ++ part := by
  cases happend : WalBackend.append bytes b with
  | error error b' =>
    obtain ⟨part, hpart, hwritten⟩ := ObservedWal.written_append_error happend
    exact .inr ⟨error, b', part, EStateM.bind_of_error happend, hpart, hwritten⟩
  | ok u middle =>
    have hmiddle := ObservedWal.written_append_ok happend
    obtain ⟨action, hrun, hkept⟩ : ∃ action : EStateM StorageError B PUnit,
        persist bytes durability b = action middle ∧
        ObservedWal.written (action middle).finalState = ObservedWal.written middle := by
      cases durability with
      | none => exact ⟨pure ⟨⟩, EStateM.bind_of_ok happend, rfl⟩
      | flush => exact ⟨WalBackend.flush, EStateM.bind_of_ok happend, ObservedWal.written_flush _⟩
      | sync => exact ⟨WalBackend.sync, EStateM.bind_of_ok happend, ObservedWal.written_sync _⟩
    rw [hmiddle] at hkept
    cases haction : action middle with
    | ok u b' =>
      rw [haction] at hrun hkept
      exact .inl ⟨b', hrun, hkept⟩
    | error error b' =>
      rw [haction] at hrun hkept
      exact .inr ⟨error, b', bytes, hrun, List.prefix_rfl, hkept⟩

/-! ## Databases -/

/-- Why a group could not be prepared. -/
inductive DatabasePreparationError
  | staleRevision
  | revisionOverflow
  deriving DecidableEq

/-- A preparation error without its revisions. -/
def DatabasePreparationError.ofEngine : PreparationError → DatabasePreparationError
  | .staleRevision _ _ => .staleRevision
  | .revisionOverflow => .revisionOverflow

/-- Why a group was not applied. -/
inductive DatabaseError
  /-- The items could not be encoded or framed. -/
  | storage (error : StorageError)
  /-- The group could not be prepared or published. -/
  | preparation (error : DatabasePreparationError)
  /-- The log failed, and what it has written is uncertain. -/
  | indeterminate (error : StorageError)
  /-- The log has failed before. -/
  | poisoned
  /-- No record sequence is left. -/
  | sequenceExhausted
  /-- There are fewer responses than commands. -/
  | coordinatorInvariant
  deriving DecidableEq

/-- An error of a group that is met before the log is used. -/
def DatabaseError.BeforeLog : DatabaseError → Prop
  | .indeterminate _ => False
  | .coordinatorInvariant => False
  | _ => True

/-- The configuration of a database. -/
structure DatabaseOptions where
  durability : Durability
  recordLimits : RecordLimits

/-- An engine with its log. -/
structure Database (B : Type) where
  engine : Engine
  backend : B
  durability : Durability
  recordLimits : RecordLimits
  nextRecordSequence : Option RecordSequence
  poisoned : Bool

namespace Database

variable {B : Type}

/-- An empty database over a log. -/
def new (backend : B) (options : DatabaseOptions) : Database B where
  engine := .empty
  backend
  durability := options.durability
  recordLimits := options.recordLimits
  nextRecordSequence := some .first
  poisoned := false

/-- The next `n` record sequences, and the one after them. -/
def assignSequences (start : Option RecordSequence) :
    Nat → Except DatabaseError (List RecordSequence × Option RecordSequence)
  | 0 => .ok ([], start)
  | n + 1 => do
    let sequence ← start.elim (.error .sequenceExhausted) .ok
    let (rest, next) ← assignSequences sequence.next n
    return (sequence :: rest, next)

section Hashing

variable (blake3 : List UInt8 → CommandHash)

/-- Frames durable items one behind the other. -/
def frameItems (limits : RecordLimits) (items : List (TimestampedTransition × RecordSequence)) :
    EStateM StorageError (List UInt8) PUnit :=
  items.forM fun entry => Record.encodePayloadInto blake3 entry.2 entry.1.timestamp limits
    (encodeTransition entry.1.transition)

/-- The bytes of framed items. -/
def framed (limits : RecordLimits) (items : List (TimestampedTransition × RecordSequence)) :
    Except StorageError (List UInt8) :=
  match frameItems blake3 limits items [] with
  | .ok _ bytes => .ok bytes
  | .error error _ => .error error

variable [WalBackend B]

/-- Applies a group of commands durably. -/
def applyBatch (commands : List (Command × Timestamp)) :
    EStateM DatabaseError (Database B) (List CommandResponse) := do
  let db ← get
  if db.poisoned = true then throw .poisoned
  if commands = [] then return []
  let prepared ← ofExcept ((Engine.prepareBatch blake3 db.engine commands).mapError
    fun error => .preparation (.ofEngine error))
  if prepared.durableItems = [] then return prepared.responses
  ofExcept ((Engine.canPublish db.engine prepared).mapError
    fun error => .preparation (.ofEngine error))
  let assigned ← ofExcept (assignSequences db.nextRecordSequence prepared.durableItems.length)
  let bytes ← ofExcept ((framed blake3 db.recordLimits
    (prepared.durableItems.zip assigned.1)).mapError .storage)
  match persist bytes db.durability db.backend with
  | .error error backend =>
    set { db with backend := backend, poisoned := true }
    throw (.indeterminate error)
  | .ok _ backend =>
    let (responses, engine) := Engine.publishBatch db.engine prepared
    set { db with backend := backend, engine := engine, nextRecordSequence := assigned.2 }
    return responses

/-- Applies one command durably. -/
def apply (command : Command) (now : Timestamp) :
    EStateM DatabaseError (Database B) CommandResponse := do
  let responses ← applyBatch blake3 [(command, now)]
  ofExcept (responses.getLast?.elim (.error .coordinatorInvariant) .ok)

end Hashing

variable {blake3 : List UInt8 → CommandHash}

/-! ## Assigned sequences and frames -/

variable (blake3) in
/-- Bytes that hold the frames of durable items one behind the other, with consecutive sequences
from one on, up to another. -/
inductive Logged (limits : RecordLimits) :
    Option RecordSequence → List TimestampedTransition → List UInt8 → Option RecordSequence → Prop
  | nil (start : Option RecordSequence) : Logged limits start [] [] start
  | cons {sequence : RecordSequence} {item : TimestampedTransition} {payload bytes rest : List UInt8}
      {items : List TimestampedTransition} {next : Option RecordSequence}
      (encoded : encodeTransition item.transition = .ok payload)
      (framed : Record.encode blake3 ⟨sequence, item.timestamp, payload⟩ limits = .ok bytes)
      (others : Logged limits sequence.next items rest next) :
      Logged limits (some sequence) (item :: items) (bytes ++ rest) next

/-- Frames behind frames. -/
theorem Logged.append {limits : RecordLimits} {start middle next : Option RecordSequence}
    {l r : List TimestampedTransition} {bytes bytes' : List UInt8}
    (h : Logged blake3 limits start l bytes middle) (h' : Logged blake3 limits middle r bytes' next) :
    Logged blake3 limits start (l ++ r) (bytes ++ bytes') next := by
  induction h with
  | nil start => exact h'
  | cons encoded framed others ih =>
    rw [List.append_assoc]
    exact .cons encoded framed (ih h')

/-- The largest record sequence. -/
def lastRecordSequence : ℤ := 18446744073709551615

/-- Only the last number has no next one. -/
theorem next_eq_none {s : RecordSequence} : s.next = none ↔ s.get.val = lastRecordSequence := by
  have hpos := s.get.property
  have hrange : lastRecordSequence = 18446744073709551615 := rfl
  constructor
  · intro hnone
    by_contra hne
    have hval : (0 : ℤ) ≤ s.get.val + 1 ∧ s.get.val + 1 ≤ 18446744073709551615 := by omega
    have hzero : (⟨s.get.val + 1, hval⟩ : U64).val ≠ 0 := by
      show s.get.val + 1 ≠ 0
      omega
    have hsome : s.next = some ⟨⟨s.get.val + 1, hval⟩, hzero⟩ := RecordSequence.next_eq_some.mpr rfl
    rw [hnone] at hsome
    cases hsome
  · intro hlast
    rw [Option.eq_none_iff_forall_not_mem]
    intro t ht
    have hnext := RecordSequence.next_eq_some.mp ht
    have hbound := t.get.property
    omega

/-- How many record sequences there are before one, or before the end. -/
def sequenceIndex (next : Option RecordSequence) : ℤ :=
  next.elim lastRecordSequence fun sequence => sequence.get.val - 1

/-- The next sequence is one further. -/
theorem sequenceIndex_next (s : RecordSequence) :
    sequenceIndex s.next = s.get.val := by
  unfold sequenceIndex
  cases hnext : s.next with
  | none => exact (next_eq_none.mp hnext).symm
  | some t =>
    have hvalue := RecordSequence.next_eq_some.mp hnext
    show t.get.val - 1 = s.get.val
    omega

/-- There is one sequence for each item. -/
theorem Logged.sequenceIndex {limits : RecordLimits} {start next : Option RecordSequence}
    {items : List TimestampedTransition} {bytes : List UInt8}
    (h : Logged blake3 limits start items bytes next) :
    Database.sequenceIndex next = Database.sequenceIndex start + items.length := by
  induction h with
  | nil start => exact (add_zero _).symm
  | @cons sequence item payload bytes rest items next encoded framed others ih =>
    rw [ih, sequenceIndex_next, List.length_cons]
    show _ = sequence.get.val - 1 + _
    push_cast
    ring

/-- Framing a payload that can be written is encoding a record. -/
theorem framePayload_eq_ok {sequence : RecordSequence} {timestamp : Timestamp}
    {limits : RecordLimits} {written : Except StorageError (List UInt8)} {bytes : List UInt8} :
    Record.framePayload blake3 sequence timestamp limits written = .ok bytes ↔
      ∃ payload, written = .ok payload ∧
        Record.encode blake3 ⟨sequence, timestamp, payload⟩ limits = .ok bytes := by
  unfold Record.framePayload
  rw [Except.bind_eq_ok]
  rfl

/-- Framing appends to what is there. -/
theorem frameItems_ok {limits : RecordLimits} {items : List (TimestampedTransition × RecordSequence)}
    {before after : List UInt8} (h : frameItems blake3 limits items before = .ok ⟨⟩ after) :
    ∃ encodings, List.Forall₂ (fun (entry : TimestampedTransition × RecordSequence) bytes =>
      Record.framePayload blake3 entry.2 entry.1.timestamp limits
        (encodeTransition entry.1.transition) = .ok bytes) items encodings ∧
      after = before ++ encodings.flatten := by
  induction items generalizing before with
  | nil =>
    cases h
    exact ⟨[], .nil, (List.append_nil _).symm⟩
  | cons entry rest ih =>
    obtain ⟨⟨⟩, middle, hfirst, hrest⟩ := EStateM.bind_eq_ok.mp h
    obtain ⟨encodings, hencodings, hafter⟩ := ih hrest
    replace hfirst : Record.encodePayloadInto blake3 entry.2 entry.1.timestamp limits
      (encodeTransition entry.1.transition) before = .ok ⟨⟩ middle := hfirst
    unfold Record.encodePayloadInto at hfirst
    cases hframe : Record.framePayload blake3 entry.2 entry.1.timestamp limits
        (encodeTransition entry.1.transition) with
    | error error =>
      rw [hframe] at hfirst
      cases hfirst
    | ok bytes =>
      rw [hframe] at hfirst
      cases hfirst
      refine ⟨bytes :: encodings, .cons hframe hencodings, ?_⟩
      rw [hafter, List.flatten_cons, List.append_assoc]

/-- Assigning sequences to items and framing them logs the items. -/
theorem logged_of_framed {limits : RecordLimits} {start next : Option RecordSequence}
    {items : List TimestampedTransition} {sequences : List RecordSequence} {bytes : List UInt8}
    (hassigned : assignSequences start items.length = .ok (sequences, next))
    (hframed : framed blake3 limits (items.zip sequences) = .ok bytes) :
    Logged blake3 limits start items bytes next := by
  unfold framed at hframed
  cases hrun : frameItems blake3 limits (items.zip sequences) [] with
  | error error after =>
    rw [hrun] at hframed
    cases hframed
  | ok u after =>
    rw [hrun] at hframed
    cases hframed
    obtain ⟨encodings, hencodings, rfl⟩ := frameItems_ok hrun
    clear hrun
    rw [List.nil_append]
    induction items generalizing start sequences encodings with
    | nil =>
      cases hassigned
      cases hencodings
      exact .nil _
    | cons item items ih =>
      obtain ⟨sequence, hsequence, hassigned⟩ := Except.bind_eq_ok.mp hassigned
      obtain ⟨⟨rest, next'⟩, hrest, hassigned⟩ := Except.bind_eq_ok.mp hassigned
      cases hassigned
      obtain rfl := Except.elim_eq_ok.mp hsequence
      cases hencodings with
      | cons hfirst hothers =>
        obtain ⟨payload, hpayload, hbytes⟩ := framePayload_eq_ok.mp hfirst
        exact .cons hpayload hbytes (ih hrest _ hothers)

/-- Logged items have been assigned sequences and framed. -/
theorem Logged.framed {limits : RecordLimits} {start next : Option RecordSequence}
    {items : List TimestampedTransition} {bytes : List UInt8}
    (h : Logged blake3 limits start items bytes next) :
    ∃ sequences, assignSequences start items.length = .ok (sequences, next) ∧
      Database.framed blake3 limits (items.zip sequences) = .ok bytes := by
  suffices H : ∃ sequences, assignSequences start items.length = .ok (sequences, next) ∧
      ∀ before, frameItems blake3 limits (items.zip sequences) before = .ok ⟨⟩ (before ++ bytes) by
    obtain ⟨sequences, hassigned, hframes⟩ := H
    refine ⟨sequences, hassigned, ?_⟩
    rw [Database.framed, hframes, List.nil_append]
  induction h with
  | nil start => exact ⟨[], rfl, fun before => by rw [List.append_nil]; rfl⟩
  | @cons sequence item payload bytes rest items next encoded framed others ih =>
    obtain ⟨sequences, hassigned, hframes⟩ := ih
    refine ⟨sequence :: sequences, ?_, fun before => ?_⟩
    · rw [List.length_cons, assignSequences, Option.elim_some, Except.ok_bind, hassigned]
      rfl
    · have hframe := framePayload_eq_ok.mpr ⟨payload, encoded, framed⟩
      have hfirst : Record.encodePayloadInto blake3 sequence item.timestamp limits
          (encodeTransition item.transition) before = .ok ⟨⟩ (before ++ bytes) := by
        rw [Record.encodePayloadInto, hframe]
      have hrest := hframes (before ++ bytes)
      rw [List.append_assoc] at hrest
      exact (EStateM.bind_of_ok hfirst).trans hrest

/-- Sequences can only run out. -/
theorem assignSequences_error {start : Option RecordSequence} {n : Nat} {error : DatabaseError}
    (h : assignSequences start n = .error error) : error = .sequenceExhausted := by
  induction n generalizing start with
  | zero => cases h
  | succ n ih =>
    cases start with
    | none =>
      cases h
      rfl
    | some sequence =>
      rw [assignSequences] at h
      dsimp only [Option.elim_some, Except.ok_bind] at h
      cases hrest : assignSequences sequence.next n with
      | error error' =>
        rw [hrest] at h
        cases h
        exact ih hrest
      | ok assigned =>
        rw [hrest] at h
        cases h

/-! ## One group -/

section Groups

variable [WalBackend B]

variable (blake3) in
/-- A group that is ready to be logged: it was prepared, it leaves durable items, and they have been
framed with the sequences from the next one on. -/
structure Ready (db : Database B) (commands : List (Command × Timestamp)) (prepared : PreparedBatch)
    (bytes : List UInt8) (next : Option RecordSequence) : Prop where
  healthy : db.poisoned = false
  prepares : Engine.prepareBatch blake3 db.engine commands = .ok prepared
  durable : prepared.durableItems ≠ []
  logged : Logged blake3 db.recordLimits db.nextRecordSequence prepared.durableItems bytes next

variable (blake3) in
/-- What applying a group does: it fails before the log is used, it leaves no durable item, or the
log is used, which fails or not. -/
theorem applyBatch_cases (db : Database B) (commands : List (Command × Timestamp)) :
    (∃ error, error.BeforeLog ∧ applyBatch blake3 commands db = .error error db) ∨
    (db.poisoned = false ∧ ∃ prepared, Engine.prepareBatch blake3 db.engine commands = .ok prepared ∧
      prepared.durableItems = [] ∧ applyBatch blake3 commands db = .ok prepared.responses db) ∨
    (∃ prepared bytes next error backend, Ready blake3 db commands prepared bytes next ∧
      persist bytes db.durability db.backend = .error error backend ∧
      applyBatch blake3 commands db =
        .error (.indeterminate error) { db with backend := backend, poisoned := true }) ∨
    ∃ prepared bytes next backend, Ready blake3 db commands prepared bytes next ∧
      persist bytes db.durability db.backend = .ok ⟨⟩ backend ∧
      applyBatch blake3 commands db = .ok (Engine.publishBatch db.engine prepared).1
        { db with
          backend := backend
          engine := (Engine.publishBatch db.engine prepared).2
          nextRecordSequence := next } := by
  by_cases hpoisoned : db.poisoned = true
  · refine .inl ⟨.poisoned, trivial, ?_⟩
    unfold applyBatch
    rw [EStateM.get_bind_apply, if_pos hpoisoned]
    rfl
  have hhealthy : db.poisoned = false := Bool.eq_false_iff.mpr hpoisoned
  by_cases hnone : commands = []
  · rw [hnone]
    refine .inr (.inl ⟨hhealthy, ⟨db.engine.publicationRevision,
      db.engine.publicationRevision, none, [], []⟩, rfl, rfl, ?_⟩)
    unfold applyBatch
    rw [EStateM.get_bind_apply, if_neg hpoisoned]
    rfl
  generalize hresult : applyBatch blake3 commands db = result
  unfold applyBatch at hresult
  rw [EStateM.get_bind_apply, if_neg hpoisoned] at hresult
  dsimp only at hresult
  rw [if_neg hnone] at hresult
  obtain ⟨error, hprepares, rfl⟩ | ⟨prepared, hprepares, hresult⟩ :=
    EStateM.ofExcept_bind_cases hresult
  · obtain ⟨e, -, rfl⟩ := Except.mapError_eq_error.mp hprepares
    refine .inl ⟨_, ?_, rfl⟩
    exact trivial
  have hprepares := Except.mapError_eq_ok.mp hprepares
  by_cases hdurable : prepared.durableItems = []
  · rw [if_pos hdurable] at hresult
    exact .inr (.inl ⟨hhealthy, prepared, hprepares, hdurable, hresult.symm⟩)
  rw [if_neg hdurable] at hresult
  obtain ⟨error, hpublishes, rfl⟩ | ⟨-, -, hresult⟩ := EStateM.ofExcept_bind_cases hresult
  · obtain ⟨e, -, rfl⟩ := Except.mapError_eq_error.mp hpublishes
    refine .inl ⟨_, ?_, rfl⟩
    exact trivial
  obtain ⟨error, hassigned, rfl⟩ | ⟨assigned, hassigned, hresult⟩ :=
    EStateM.ofExcept_bind_cases hresult
  · obtain rfl := assignSequences_error hassigned
    exact .inl ⟨.sequenceExhausted, trivial, rfl⟩
  obtain ⟨error, hframed, rfl⟩ | ⟨bytes, hframed, hresult⟩ := EStateM.ofExcept_bind_cases hresult
  · obtain ⟨e, -, rfl⟩ := Except.mapError_eq_error.mp hframed
    refine .inl ⟨_, ?_, rfl⟩
    exact trivial
  have hlogged := logged_of_framed hassigned (Except.mapError_eq_ok.mp hframed)
  have hready : Ready blake3 db commands prepared bytes assigned.2 :=
    ⟨hhealthy, hprepares, hdurable, hlogged⟩
  cases hpersisted : persist bytes db.durability db.backend with
  | error error backend =>
    rw [hpersisted] at hresult
    exact .inr (.inr (.inl ⟨prepared, bytes, assigned.2, error, backend, hready, hpersisted,
      hresult.symm⟩))
  | ok u backend =>
    rw [hpersisted] at hresult
    exact .inr (.inr (.inr ⟨prepared, bytes, assigned.2, backend, hready, hpersisted,
      hresult.symm⟩))

/-- Publishing answers with the prepared responses. -/
theorem publishBatch_responses (e : Engine) (prepared : PreparedBatch) :
    (Engine.publishBatch e prepared).1 = prepared.responses := by
  unfold Engine.publishBatch
  cases prepared.candidate with
  | none => rfl
  | some candidate =>
    dsimp only
    split
    · rfl
    · rfl

/-- What it says that a group is acknowledged: it was prepared, and it leaves no durable item and
changes nothing, or it was ready and the log took it. -/
theorem applyBatch_acknowledged {db db' : Database B} {commands : List (Command × Timestamp)}
    {responses : List CommandResponse} (h : applyBatch blake3 commands db = .ok responses db') :
    ∃ prepared, Engine.prepareBatch blake3 db.engine commands = .ok prepared ∧
      responses = prepared.responses ∧
      ((prepared.durableItems = [] ∧ db.poisoned = false ∧ db' = db) ∨
        ∃ bytes next backend, Ready blake3 db commands prepared bytes next ∧
          persist bytes db.durability db.backend = .ok ⟨⟩ backend ∧
          db' = { db with
            backend := backend
            engine := (Engine.publishBatch db.engine prepared).2
            nextRecordSequence := next }) := by
  obtain ⟨error, -, herror⟩ | ⟨hhealthy, prepared, hprepares, hdurable, hok⟩ |
    ⟨prepared, bytes, next, error, backend, -, -, herror⟩ |
    ⟨prepared, bytes, next, backend, hready, hpersist, hok⟩ :=
    applyBatch_cases blake3 db commands
  · rw [herror] at h
    cases h
  · rw [hok] at h
    obtain ⟨rfl, rfl⟩ := EStateM.Result.ok.inj h
    exact ⟨prepared, hprepares, rfl, .inl ⟨hdurable, hhealthy, rfl⟩⟩
  · rw [herror] at h
    cases h
  · rw [hok] at h
    obtain ⟨rfl, rfl⟩ := EStateM.Result.ok.inj h
    exact ⟨prepared, hready.prepares, publishBatch_responses _ _,
      .inr ⟨bytes, next, backend, hready, hpersist, rfl⟩⟩

/-- A group is answered with one response for each command. -/
theorem applyBatch_length {db db' : Database B} {commands : List (Command × Timestamp)}
    {responses : List CommandResponse} (h : applyBatch blake3 commands db = .ok responses db') :
    responses.length = commands.length := by
  obtain ⟨prepared, hprepared, hresponses, -⟩ := applyBatch_acknowledged h
  rw [hresponses, (Engine.prepareBatch_eq_ok hprepared).1, Engine.length_executeAll]

/-- A single command that is acknowledged has its response. -/
theorem apply_ne_coordinatorInvariant (db db' : Database B) (command : Command) (now : Timestamp) :
    apply blake3 command now db ≠ .error .coordinatorInvariant db' := by
  intro h
  obtain hfailed | ⟨responses, db', hok, hlast⟩ := EStateM.bind_eq_error.mp h
  · obtain ⟨error, hbefore, herror⟩ | ⟨-, prepared, -, -, hok⟩ |
      ⟨prepared, further, next, error, backend, -, -, herror⟩ |
      ⟨prepared, further, next, backend, -, -, hok⟩ :=
      applyBatch_cases blake3 db [(command, now)]
    · rw [herror] at hfailed
      cases hfailed
      exact hbefore
    · rw [hok] at hfailed
      cases hfailed
    · rw [herror] at hfailed
      cases hfailed
    · rw [hok] at hfailed
      cases hfailed
  · obtain ⟨response, rfl⟩ := List.length_eq_one_iff.mp (applyBatch_length hok)
    cases hlast

end Groups

/-! ## Runs -/

section Runs

variable [ObservedWal B]

variable (blake3) in
/-- Publishes groups one after another, and lists their durable items. -/
def publishAll (e : Engine) :
    List (List (Command × Timestamp)) → Except PreparationError (Engine × List TimestampedTransition)
  | [] => .ok (e, [])
  | commands :: groups => do
    let prepared ← Engine.prepareBatch blake3 e commands
    let (published, items) ← publishAll (Engine.publishBatch e prepared).2 groups
    return (published, prepared.durableItems ++ items)

/-- One more group. -/
theorem publishAll_append_singleton {e published : Engine} {items : List TimestampedTransition}
    {groups : List (List (Command × Timestamp))} {commands : List (Command × Timestamp)}
    {prepared : PreparedBatch} (h : publishAll blake3 e groups = .ok (published, items))
    (hprepared : Engine.prepareBatch blake3 published commands = .ok prepared) :
    publishAll blake3 e (groups ++ [commands]) =
      .ok ((Engine.publishBatch published prepared).2, items ++ prepared.durableItems) := by
  induction groups generalizing e items with
  | nil =>
    cases h
    rw [List.nil_append, publishAll, hprepared, List.nil_append, Except.ok_bind]
    exact congrArg (fun items => Except.ok (_, items)) (List.append_nil _)
  | cons group groups ih =>
    obtain ⟨first, hfirst, h⟩ := Except.bind_eq_ok.mp h
    obtain ⟨⟨published', items'⟩, hrest, h⟩ := Except.bind_eq_ok.mp h
    cases h
    rw [List.cons_append, publishAll, hfirst, Except.ok_bind, ih hrest, List.append_assoc]
    rfl

variable (blake3) in
/-- The databases that groups of commands lead to, with the groups that were acknowledged. -/
inductive Run (start : B) (options : DatabaseOptions) :
    List (List (Command × Timestamp)) → Database B → Prop
  | new : Run start options [] (Database.new start options)
  | ok {groups : List (List (Command × Timestamp))} {db db' : Database B}
      {commands : List (Command × Timestamp)} {responses : List CommandResponse}
      (before : Run start options groups db)
      (applied : applyBatch blake3 commands db = .ok responses db') :
      Run start options (groups ++ [commands]) db'
  | error {groups : List (List (Command × Timestamp))} {db db' : Database B}
      {commands : List (Command × Timestamp)} {error : DatabaseError}
      (before : Run start options groups db)
      (applied : applyBatch blake3 commands db = .error error db') :
      Run start options groups db'

variable (blake3) in
/-- What is behind the frames of the published items: nothing, or after a failure a prefix of the
frames of one further group. -/
structure TornTail (db : Database B) (tail : List UInt8) : Prop where
  healthy : db.poisoned = false → tail = []
  torn : db.poisoned = true → ∃ commands prepared further next,
    Engine.prepareBatch blake3 db.engine commands = .ok prepared ∧
    Logged blake3 db.recordLimits db.nextRecordSequence prepared.durableItems further next ∧
    tail <+: further

variable (blake3) in
/-- The log holds the frames of exactly the items of the acknowledged groups. -/
structure Persisted (start : B) (options : DatabaseOptions)
    (groups : List (List (Command × Timestamp))) (db : Database B)
    (items : List TimestampedTransition) (bytes tail : List UInt8) : Prop where
  published : publishAll blake3 .empty groups = .ok (db.engine, items)
  limits : db.recordLimits = options.recordLimits
  logged : Logged blake3 options.recordLimits (some .first) items bytes db.nextRecordSequence
  written : ObservedWal.written db.backend = ObservedWal.written start ++ bytes ++ tail
  tail : TornTail blake3 db tail

/-- An empty database over a log. -/
theorem persisted_new (start : B) (options : DatabaseOptions) :
    Persisted blake3 start options [] (Database.new start options) [] [] [] where
  published := rfl
  limits := rfl
  logged := .nil _
  written := by
    rw [List.append_nil, List.append_nil]
    rfl
  tail := ⟨fun _ => rfl, nofun⟩

/-- A group that leaves nothing to log changes nothing when it is published. -/
theorem publishBatch_of_durableItems_nil {e : Engine} {prepared : PreparedBatch}
    (h : prepared.durableItems = []) : Engine.publishBatch e prepared = (prepared.responses, e) := by
  unfold Engine.publishBatch
  rw [h]
  cases prepared.candidate <;> rfl

/-- An acknowledged group adds its items and their frames. -/
theorem Persisted.ok {start : B} {options : DatabaseOptions}
    {groups : List (List (Command × Timestamp))} {db db' : Database B}
    {items : List TimestampedTransition} {bytes tail : List UInt8}
    {commands : List (Command × Timestamp)} {responses : List CommandResponse}
    (h : Persisted blake3 start options groups db items bytes tail)
    (happlied : applyBatch blake3 commands db = .ok responses db') :
    ∃ items' bytes', Persisted blake3 start options (groups ++ [commands]) db' items' bytes' [] := by
  obtain ⟨prepared, hprepares, -, ⟨hdurable, hhealthy, rfl⟩ |
    ⟨further, next, backend, hready, hpersisted, rfl⟩⟩ := applyBatch_acknowledged happlied
  · -- nothing is left to log
    have htail := h.tail.healthy hhealthy
    have hpublished := publishAll_append_singleton h.published hprepares
    rw [publishBatch_of_durableItems_nil hdurable] at hpublished
    rw [hdurable, List.append_nil] at hpublished
    refine ⟨items, bytes, hpublished, h.limits, h.logged, ?_, fun _ => rfl, ?_⟩
    · rw [h.written, htail]
    · rw [hhealthy]
      exact nofun
  · have htail := h.tail.healthy hready.healthy
    have hlogged := hready.logged
    rw [h.limits] at hlogged
    refine ⟨items ++ prepared.durableItems, bytes ++ further,
      publishAll_append_singleton h.published hready.prepares, h.limits, h.logged.append hlogged,
      ?_, fun _ => rfl, ?_⟩
    · obtain ⟨b', hok, hwritten⟩ | ⟨error, b', part, herror, -⟩ :=
        persist_cases further db.durability db.backend
      · rw [hpersisted] at hok
        cases hok
        show ObservedWal.written backend = _
        rw [hwritten, h.written, htail, List.append_nil, List.append_nil, List.append_assoc]
      · rw [hpersisted] at herror
        cases herror
    · show db.poisoned = true → _
      rw [hready.healthy]
      exact nofun

/-- A group that fails adds nothing but a torn tail. -/
theorem Persisted.error {start : B} {options : DatabaseOptions}
    {groups : List (List (Command × Timestamp))} {db db' : Database B}
    {items : List TimestampedTransition} {bytes tail : List UInt8}
    {commands : List (Command × Timestamp)} {error : DatabaseError}
    (h : Persisted blake3 start options groups db items bytes tail)
    (happlied : applyBatch blake3 commands db = .error error db') :
    ∃ tail', Persisted blake3 start options groups db' items bytes tail' := by
  obtain ⟨error, -, herror⟩ | ⟨-, prepared, -, -, hok⟩ |
    ⟨prepared, further, next, error, backend, hready, hpersisted, herror⟩ |
    ⟨prepared, further, next, backend, -, -, hok⟩ :=
    applyBatch_cases blake3 db commands
  · rw [herror] at happlied
    cases happlied
    exact ⟨tail, h⟩
  · rw [hok] at happlied
    cases happlied
  · rw [herror] at happlied
    cases happlied
    have htail := h.tail.healthy hready.healthy
    obtain ⟨b', hok, -⟩ | ⟨error', b', part, hfailed, hpart, hwritten⟩ :=
      persist_cases further db.durability db.backend
    · rw [hpersisted] at hok
      cases hok
    · rw [hpersisted] at hfailed
      cases hfailed
      refine ⟨part, h.published, h.limits, h.logged, ?_, nofun, fun _ => ?_⟩
      · show ObservedWal.written backend = _
        rw [hwritten, h.written, htail, List.append_nil]
      · exact ⟨commands, prepared, further, next, hready.prepares, hready.logged, hpart⟩
  · rw [hok] at happlied
    cases happlied

/-- In every run the log holds the frames of the items of the acknowledged groups. -/
theorem Run.persisted {start : B} {options : DatabaseOptions}
    {groups : List (List (Command × Timestamp))} {db : Database B}
    (h : Run blake3 start options groups db) :
    ∃ items bytes tail, Persisted blake3 start options groups db items bytes tail := by
  induction h with
  | new => exact ⟨[], [], [], persisted_new start options⟩
  | ok before applied ih =>
    obtain ⟨items, bytes, tail, hpersisted⟩ := ih
    obtain ⟨items', bytes', hpersisted'⟩ := hpersisted.ok applied
    exact ⟨items', bytes', [], hpersisted'⟩
  | error before applied ih =>
    obtain ⟨items, bytes, tail, hpersisted⟩ := ih
    obtain ⟨tail', hpersisted'⟩ := hpersisted.error applied
    exact ⟨items, bytes, tail', hpersisted'⟩

/-- A group that fails before the log is used changes nothing. -/
theorem applyBatch_error_unchanged {db db' : Database B} {commands : List (Command × Timestamp)}
    {error : DatabaseError} (h : applyBatch blake3 commands db = .error error db')
    (herror : ∀ e, error ≠ .indeterminate e) : db' = db := by
  obtain ⟨error, -, hkept⟩ | ⟨-, prepared, -, -, hok⟩ |
    ⟨prepared, further, next, e, backend, -, -, hfailed⟩ |
    ⟨prepared, further, next, backend, -, -, hok⟩ :=
    applyBatch_cases blake3 db commands
  · rw [hkept] at h
    exact (EStateM.Result.error.inj h).2.symm
  · rw [hok] at h
    cases h
  · rw [hfailed] at h
    obtain ⟨rfl, -⟩ := EStateM.Result.error.inj h
    exact absurd rfl (herror e)
  · rw [hok] at h
    cases h

/-- A poisoned database refuses every group. -/
theorem applyBatch_poisoned {db : Database B} (h : db.poisoned = true)
    (commands : List (Command × Timestamp)) :
    applyBatch blake3 commands db = .error .poisoned db := by
  unfold applyBatch
  rw [EStateM.get_bind_apply, if_pos h]
  rfl

/-- Groups are persisted before they are published: wherever the calls of the log fail, the engine is
what publishing the acknowledged groups leads to, the log holds the frames of exactly their durable
items with consecutive sequences, and only behind a failure a part of one further group.  Every other
error changes nothing, and after a failure nothing changes any more. -/
theorem persist_before_publish {start : B} {options : DatabaseOptions}
    {groups : List (List (Command × Timestamp))} {db : Database B}
    (h : Run blake3 start options groups db) :
    (∃ items bytes tail, Persisted blake3 start options groups db items bytes tail ∧
      Database.sequenceIndex db.nextRecordSequence = items.length) ∧
    (∀ commands error db', applyBatch blake3 commands db = .error error db' →
      (∀ e, error ≠ .indeterminate e) → db' = db) ∧
    (db.poisoned = true → ∀ commands, applyBatch blake3 commands db = .error .poisoned db) := by
  refine ⟨?_, fun commands error db' => applyBatch_error_unchanged, applyBatch_poisoned⟩
  obtain ⟨items, bytes, tail, hpersisted⟩ := h.persisted
  refine ⟨items, bytes, tail, hpersisted, ?_⟩
  have hindex := hpersisted.logged.sequenceIndex
  have hfirst : Database.sequenceIndex (some .first) = 0 := rfl
  rw [hindex, hfirst, zero_add]

end Runs

/-- Syncing with the default limits. -/
def sampleOptions : DatabaseOptions := ⟨.sync, .default⟩

/-- A log whose third call, the second append, fails after five bytes. -/
def sampleWal : FaultWal := ⟨[], [none, none, some ⟨5, .io "other" "injected WAL failure"⟩]⟩

/-- The second append of a log fails half way. -/
theorem persist_before_publish_sample :
    ∃ db : Database FaultWal, Run Engine.sampleHash sampleWal sampleOptions
        [Engine.sampleCommands.take 1] db ∧
      db.poisoned = true ∧
      (∃ items bytes tail, Persisted Engine.sampleHash sampleWal sampleOptions
        [Engine.sampleCommands.take 1] db items bytes tail ∧
        Database.sequenceIndex db.nextRecordSequence = items.length) ∧
      applyBatch Engine.sampleHash Engine.sampleCommands db = .error .poisoned db := by
  have hok : (EStateM.run' (applyBatch Engine.sampleHash (Engine.sampleCommands.take 1))
      (Database.new sampleWal sampleOptions)).isSome = true := by
    decide +kernel
  have hpoisoned : (applyBatch Engine.sampleHash (Engine.sampleCommands.drop 1)
      (applyBatch Engine.sampleHash (Engine.sampleCommands.take 1)
        (Database.new sampleWal sampleOptions)).finalState).finalState.poisoned = true := by
    decide +kernel
  have hfailed : (EStateM.run' (applyBatch Engine.sampleHash (Engine.sampleCommands.drop 1))
      (applyBatch Engine.sampleHash (Engine.sampleCommands.take 1)
        (Database.new sampleWal sampleOptions)).finalState).isNone = true := by
    decide +kernel
  have hstart : Run Engine.sampleHash sampleWal sampleOptions [] (.new sampleWal sampleOptions) :=
    .new
  generalize (Database.new sampleWal sampleOptions : Database FaultWal) = start at *
  obtain ⟨responses, db, hfirst⟩ := EStateM.exists_ok_of_isSome hok
  have hrun := hstart.ok hfirst
  rw [hfirst, EStateM.Result.finalState_ok] at hpoisoned hfailed
  obtain ⟨error, db', hsecond⟩ := EStateM.exists_error_of_isNone hfailed
  rw [hsecond] at hpoisoned
  obtain ⟨hpersisted, -, hrefuses⟩ := persist_before_publish (hrun.error hsecond)
  exact ⟨db', hrun.error hsecond, hpoisoned, hpersisted, hrefuses hpoisoned _⟩

end Database

end PromiseDb
