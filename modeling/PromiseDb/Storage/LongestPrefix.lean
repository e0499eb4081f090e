import PromiseDb.Storage.PayloadErrors
import PromiseDb.Storage.Recovery

/-!
# Recovery of arbitrary bytes

Of any bytes whatever, recovery installs the records of the longest prefix that consists of valid
frames with consecutive sequences whose payloads decode, agree with their frame about the time, and
can be installed.  It reports the length of this prefix, and recovering the prefix alone leads to the
same engine without a failure.  That is why a file may be cut there.
-/

namespace PromiseDb

open RecordReader

variable {blake3 : List UInt8 → CommandHash}

/-! ## Reading -/

namespace RecordReader

/-- Bytes that end within a frame: within its header, or behind a header that announces more. -/
def EndsWithin (limits : RecordLimits) (expected : Option RecordSequence) (bytes : List UInt8) :
    Prop :=
  bytes ≠ [] ∧ (bytes.length < Record.headerLen ∨ ∃ parsed : Record.ParsedHeader,
    bytes.take Record.headerLen =
      Record.header parsed.recordLen parsed.payloadLen parsed.sequence parsed.timestamp ∧
    parsed.recordLen ≤ limits.maxRecordLen ∧ expected = some parsed.sequence ∧
    bytes.length < parsed.recordLen.val.toNat)

/-- A frame is not damaged but incomplete. -/
def IsPartialTail : StorageError → Prop
  | .partialTail _ _ _ => True
  | _ => False

/-- A header that is not accepted is complete. -/
theorem parseHeader_failsIn (header : List UInt8) (offset : Nat) (limits : RecordLimits)
    (expected : Option RecordSequence) :
    (Record.parseHeader header offset limits expected).FailsIn fun e => ¬IsPartialTail e := by
  have hsequence (sequence : RecordSequence) :
      (Record.checkSequence offset sequence expected).FailsIn fun e => ¬IsPartialTail e := by
    cases expected with
    | none => exact .error id
    | some expected => exact .ensure id
  refine .bind (.ensure id) fun _ => .bind (.ensure id) fun _ => .bind (.ensure id) fun _ => ?_
  refine .bind (.ensure id) fun _ => .bind (.ensure id) fun _ => .bind (.ensure id) fun _ => ?_
  exact .bind (.ensure id) fun _ => .bind (.elim id) fun _ => .bind (hsequence _) fun _ => .ok _

/-- The rest of a frame that is not accepted is complete. -/
theorem parseRemainder_failsIn (header remainder : List UInt8) (offset : Nat)
    (parsed : Record.ParsedHeader) :
    (Record.parseRemainder blake3 header remainder offset parsed).FailsIn
      fun e => ¬IsPartialTail e := by
  have hpadding (padding : List UInt8) :
      (Record.checkPadding offset padding).FailsIn fun e => ¬IsPartialTail e := by
    unfold Record.checkPadding
    split
    · exact .error id
    · exact .ok _
  exact .bind (hpadding _) fun _ => .bind (.ensure id) fun _ => .ok _

variable (blake3) in
/-- What can happen when a record is read: the stream is at its end, it ends within a frame, the frame
is damaged, or there is a frame with the expected sequence. -/
theorem readNext_cases (bytes : List UInt8) (limits : RecordLimits) (offset : Nat)
    (expected : Option RecordSequence) :
    (bytes = [] ∧ readNext blake3 ⟨bytes, limits, offset, expected⟩ =
      .ok none ⟨bytes, limits, offset, expected⟩) ∨
    (EndsWithin limits expected bytes ∧ ∃ length, readNext blake3 ⟨bytes, limits, offset, expected⟩ =
      .error (.partialTail offset length bytes.length) ⟨[], limits, offset, expected⟩) ∨
    (∃ e rest, ¬IsPartialTail e ∧ readNext blake3 ⟨bytes, limits, offset, expected⟩ =
      .error e ⟨rest, limits, offset, expected⟩) ∨
    ∃ record frame rest, Record.encode blake3 record limits = .ok frame ∧ bytes = frame ++ rest ∧
      expected = some record.recordSequence ∧
      readNext blake3 ⟨bytes, limits, offset, expected⟩ =
        .ok (some record) ⟨rest, limits, offset + frame.length, record.recordSequence.next⟩ := by
  obtain rfl | hpos := eq_or_ne bytes []
  · exact .inl ⟨rfl, readNext_nil _ _ _⟩
  obtain hshort | hlong := lt_or_ge bytes.length Record.headerLen
  · exact .inr (.inl ⟨⟨hpos, .inl hshort⟩, _, readNext_cut_header hpos hshort limits offset expected⟩)
  obtain ⟨front, rest, hfront, rfl⟩ := List.exists_append_of_le_length hlong
  cases hparse : Record.parseHeader front offset limits expected with
  | error e =>
    exact .inr (.inr (.inl ⟨e, rest, parseHeader_failsIn _ _ _ _ e hparse,
      readNext_header_error hfront hparse rest⟩))
  | ok parsed =>
    obtain hshort | hlong := lt_or_ge rest.length (parsed.recordLen.val.toNat - Record.headerLen)
    · obtain ⟨hheader, -, hlimit, hexpected⟩ := (Record.parseHeader_eq_ok hfront).mp hparse
      refine .inr (.inl ⟨⟨hpos, .inr ⟨parsed, ?_, hlimit, hexpected, ?_⟩⟩, _,
        readNext_cut_remainder hfront hparse hshort⟩)
      · rw [← hfront, List.take_left, hheader]
      · rw [List.length_append, hfront]
        omega
    obtain ⟨remainder, rest, hwhole, rfl⟩ := List.exists_append_of_le_length hlong
    cases hremainder : Record.parseRemainder blake3 front remainder offset parsed with
    | error e =>
      exact .inr (.inr (.inl ⟨e, rest, parseRemainder_failsIn _ _ _ _ e hremainder,
        readNext_remainder_error hfront hparse hwhole hremainder rest⟩))
    | ok record =>
      have hread := readNext_whole hfront hparse hwhole hremainder rest
      obtain ⟨frame, hencode, hreader, hexpected, hstate⟩ := readNext_eq_some hread
      refine .inr (.inr (.inr ⟨record, frame, rest, hencode, hreader, hexpected, ?_⟩))
      rw [hread]
      exact congrArg (EStateM.Result.ok (some record)) hstate

end RecordReader

/-! ## Installing -/

variable (blake3) in
/-- A record decodes, its events have its timestamp, and its effects can be installed. -/
def InstallsRecord (e : Engine) (record : Record) (e' : Engine) : Prop :=
  ∃ transition, decodeTransition record.payload = .ok transition ∧
    (∀ event ∈ transition.events, event.timestamp = record.timestamp) ∧
    Engine.installTransition blake3 e transition = .ok e'

variable (blake3) in
/-- Records are installed one behind the other. -/
inductive InstallsRecords : Engine → List Record → Engine → Prop
  | nil (e : Engine) : InstallsRecords e [] e
  | cons {e e₁ e' : Engine} {record : Record} {records : List Record}
      (first : InstallsRecord blake3 e record e₁) (rest : InstallsRecords e₁ records e') :
      InstallsRecords e (record :: records) e'

namespace EngineRecovery

/-- A record is installed when it can be, wherever it is. -/
theorem installRecord_eq_ok {offset : Nat} {record : Record} {e e' : Engine} :
    installRecord blake3 offset record e = .ok e' ↔ InstallsRecord blake3 e record e' := by
  unfold installRecord InstallsRecord
  constructor
  · intro h
    obtain ⟨transition, hdecode, h⟩ := Except.bind_eq_ok.mp h
    obtain ⟨u, htimes, hinstall⟩ := Except.bind_eq_ok.mp h
    refine ⟨transition, Except.mapError_eq_ok.mp hdecode, fun event hevent => ?_,
      Except.mapError_eq_ok.mp hinstall⟩
    exact Except.ensure_eq_ok.mp (List.forM_eq_ok.mp htimes event hevent)
  · rintro ⟨transition, hdecode, htimes, hinstall⟩
    refine Except.bind_eq_ok.mpr ⟨transition, Except.mapError_eq_ok.mpr hdecode, ?_⟩
    refine Except.bind_eq_ok.mpr ⟨⟨⟩, ?_, Except.mapError_eq_ok.mpr hinstall⟩
    exact List.forM_eq_ok.mpr fun event hevent => Except.ensure_eq_ok.mpr (htimes event hevent)

/-- A record that is not installed is reported at its start, and not as an incomplete one. -/
theorem installRecord_failsIn (offset : Nat) (record : Record) (e : Engine) :
    (installRecord blake3 offset record e).FailsIn
      fun error => error.lastValidOffset = offset ∧ error.isPartialTail = false := by
  have hpayload : (decodeTransition record.payload).FailsIn fun e =>
      (RecoveryError.storage offset e).lastValidOffset = offset ∧
        (RecoveryError.storage offset e).isPartialTail = false := by
    intro e h
    refine ⟨rfl, ?_⟩
    have hin := decodeTransition_failsIn record.payload e h
    cases e with
    | partialTail => exact hin.elim
    | _ => rfl
  refine .bind (.mapError hpayload) fun transition => ?_
  refine .bind (.forM (fun event => .ensure ⟨rfl, rfl⟩) _) fun _ => ?_
  exact .mapError fun _ _ => ⟨rfl, rfl⟩

/-! ## The longest prefix -/

variable (blake3) in
/-- The bytes start with frames of records with consecutive sequences, which are installed, and no
further record behind them can be. -/
structure LongestPrefix (limits : RecordLimits) (expected : Option RecordSequence) (e : Engine)
    (bytes : List UInt8) (records : List Record) (encodings : List (List UInt8))
    (rest : List UInt8) (e' : Engine) : Prop where
  encoded : Encoded blake3 limits records encodings
  consecutive : Consecutive expected records
  split : bytes = encodings.flatten ++ rest
  installs : InstallsRecords blake3 e records e'
  longest : ∀ record frame e'', Record.encode blake3 record limits = .ok frame → frame <+: rest →
    sequenceAfter expected records = some record.recordSequence →
    ¬InstallsRecord blake3 e' record e''

/-- One more record in front. -/
theorem LongestPrefix.cons {limits : RecordLimits} {e e₁ e' : Engine} {record : Record}
    {frame bytes rest : List UInt8} {records : List Record} {encodings : List (List UInt8)}
    (h : LongestPrefix blake3 limits record.recordSequence.next e₁ bytes records encodings rest e')
    (hencode : Record.encode blake3 record limits = .ok frame)
    (hinstalls : InstallsRecord blake3 e record e₁) :
    LongestPrefix blake3 limits (some record.recordSequence) e (frame ++ bytes) (record :: records)
      (frame :: encodings) rest e' where
  encoded := .cons hencode h.encoded
  consecutive := ⟨rfl, h.consecutive⟩
  split := by rw [h.split, List.flatten_cons, List.append_assoc]
  installs := .cons hinstalls h.installs
  longest := h.longest

/-- Nothing can be installed. -/
theorem LongestPrefix.nil {limits : RecordLimits} {expected : Option RecordSequence} {e : Engine}
    {bytes : List UInt8} (h : ∀ record frame e'', Record.encode blake3 record limits = .ok frame →
      frame <+: bytes → expected = some record.recordSequence →
      ¬InstallsRecord blake3 e record e'') :
    LongestPrefix blake3 limits expected e bytes [] [] bytes e :=
  ⟨.nil, trivial, rfl, .nil e, h⟩

/-- A frame that can be read is read. -/
theorem readNext_of_prefix {record : Record} {limits : RecordLimits} {frame bytes : List UInt8}
    (hencode : Record.encode blake3 record limits = .ok frame) (hfront : frame <+: bytes)
    {expected : Option RecordSequence} (hexpected : expected = some record.recordSequence)
    (offset : Nat) : ∃ r, readNext blake3 ⟨bytes, limits, offset, expected⟩ = .ok (some record) r := by
  obtain ⟨rest, rfl⟩ := hfront
  rw [hexpected]
  exact ⟨_, readNext_encode hencode rest offset⟩

/-- Where no record can be read nothing can be installed. -/
theorem LongestPrefix.unread {limits : RecordLimits} {expected : Option RecordSequence} {e : Engine}
    {bytes : List UInt8} {offset : Nat} {error : StorageError} {r : RecordReader}
    (hread : readNext blake3 ⟨bytes, limits, offset, expected⟩ = .error error r) :
    LongestPrefix blake3 limits expected e bytes [] [] bytes e := by
  refine .nil fun record frame e'' hencode hfront hexpected => ?_
  obtain ⟨r', hr⟩ := readNext_of_prefix hencode hfront hexpected offset
  rw [hread] at hr
  cases hr

/-- Installing the records that can be read ends behind the longest prefix. -/
theorem feedRecords_longest {limits : RecordLimits} {fuel : Nat} {bytes : List UInt8}
    (hfuel : bytes.length < fuel) (offset : Nat) (expected : Option RecordSequence)
    (recovery : EngineRecovery) :
    ∃ records encodings rest e',
      LongestPrefix blake3 limits expected recovery.engine bytes records encodings rest e' ∧
      (rest = [] → feedRecords blake3 fuel ⟨bytes, limits, offset, expected⟩ recovery =
        .ok (offset + encodings.flatten.length) ⟨e', sequenceAfter expected records⟩) ∧
      (rest ≠ [] → ∃ error next,
        feedRecords blake3 fuel ⟨bytes, limits, offset, expected⟩ recovery =
          .error error ⟨e', next⟩ ∧
        error.lastValidOffset = offset + encodings.flatten.length ∧
        (error.isPartialTail = true → next = sequenceAfter expected records ∧
          EndsWithin limits (sequenceAfter expected records) rest)) := by
  induction fuel generalizing bytes offset expected recovery with
  | zero => exact absurd hfuel (Nat.not_lt_zero _)
  | succ fuel ih =>
    obtain ⟨rfl, hread⟩ | ⟨hends, length, hread⟩ | ⟨e, rest, hwhole, hread⟩ |
      ⟨record, frame, rest, hencode, rfl, rfl, hread⟩ :=
      readNext_cases blake3 bytes limits offset expected
    · refine ⟨[], [], [], recovery.engine, .nil ?_, fun _ => ?_, fun hne => absurd rfl hne⟩
      · intro record frame e'' hencode hfront hexpected
        exact absurd (List.prefix_nil.mp hfront) (encode_ne_nil hencode)
      · rw [feedRecords, hread]
        rfl
    · refine ⟨[], [], bytes, recovery.engine, .unread hread, fun hnil => absurd hnil hends.1,
        fun _ => ⟨.storage offset (.partialTail offset length bytes.length), expected, ?_, rfl,
          fun _ => ⟨rfl, hends⟩⟩⟩
      rw [feedRecords, hread]
    · refine ⟨[], [], bytes, recovery.engine, .unread hread, fun hnil => ?_,
        fun _ => ⟨.storage offset e, expected, ?_, rfl, fun htail => ?_⟩⟩
      · rw [hnil, readNext_nil] at hread
        cases hread
      · rw [feedRecords, hread]
      · cases e with
        | partialTail => exact absurd trivial hwhole
        | _ => cases htail
    · cases hinstall : installRecord blake3 offset record recovery.engine with
      | error error =>
        obtain ⟨hoffset, htail⟩ := installRecord_failsIn offset record recovery.engine _ hinstall
        refine ⟨[], [], frame ++ rest, recovery.engine, .nil ?_, fun hnil => ?_,
          fun _ => ⟨error, record.recordSequence.next, ?_, hoffset, fun h => ?_⟩⟩
        · intro other frame' e'' hencode' hfront hexpected hinstalls
          obtain ⟨r, hr⟩ := readNext_of_prefix hencode' hfront hexpected offset
          rw [hread] at hr
          obtain ⟨hrecord, -⟩ := EStateM.Result.ok.inj hr
          rw [← Option.some.inj hrecord] at hinstalls
          rw [installRecord_eq_ok.mpr hinstalls] at hinstall
          cases hinstall
        · exact absurd (List.append_eq_nil_iff.mp hnil).1 (encode_ne_nil hencode)
        · rw [feedRecords, hread]
          dsimp only
          rw [hinstall]
        · rw [htail] at h
          cases h
      | ok e₁ =>
        have hpos := List.length_pos_of_ne_nil (encode_ne_nil hencode)
        rw [List.length_append] at hfuel
        obtain ⟨records, encodings, rest', e', hlongest, hdone, hfails⟩ :=
          @ih rest (by omega) (offset + frame.length) record.recordSequence.next
            ⟨e₁, record.recordSequence.next⟩
        have hstep : feedRecords blake3 (fuel + 1)
            ⟨frame ++ rest, limits, offset, some record.recordSequence⟩ recovery =
              feedRecords blake3 fuel
                ⟨rest, limits, offset + frame.length, record.recordSequence.next⟩
                ⟨e₁, record.recordSequence.next⟩ := by
          rw [feedRecords, hread]
          dsimp only
          rw [hinstall]
        refine ⟨record :: records, frame :: encodings, rest', e',
          hlongest.cons hencode (installRecord_eq_ok.mp hinstall), ?_⟩
        rw [hstep, List.flatten_cons, List.length_append, ← Nat.add_assoc]
        exact ⟨hdone, hfails⟩

/-- Records that can be installed are installed from their frames. -/
theorem feedRecords_installs {limits : RecordLimits} {records : List Record}
    {encodings : List (List UInt8)} (hencoded : Encoded blake3 limits records encodings)
    {expected : Option RecordSequence} (hconsecutive : Consecutive expected records)
    {e e' : Engine} (hinstalls : InstallsRecords blake3 e records e') {fuel : Nat}
    (hfuel : encodings.flatten.length < fuel) (offset : Nat) (next : Option RecordSequence) :
    feedRecords blake3 fuel ⟨encodings.flatten, limits, offset, expected⟩ ⟨e, next⟩ =
      .ok (offset + encodings.flatten.length) ⟨e', sequenceAfter expected records⟩ := by
  obtain ⟨fuel, rfl⟩ : ∃ n, fuel = n + 1 := ⟨fuel - 1, by omega⟩
  induction hencoded generalizing fuel expected e offset next with
  | nil =>
    obtain ⟨⟩ := hinstalls
    rfl
  | @cons record frame records encodings hfirst hrest ih =>
    obtain ⟨rfl, hconsecutive⟩ := hconsecutive
    obtain ⟨⟩ | ⟨hinstall, hothers⟩ := hinstalls
    have hpos := List.length_pos_of_ne_nil (encode_ne_nil hfirst)
    rw [List.flatten_cons, List.length_append] at hfuel
    obtain ⟨fuel, rfl⟩ : ∃ n, fuel = n + 1 := ⟨fuel - 1, by omega⟩
    rw [List.flatten_cons, feedRecords, readNext_encode hfirst]
    dsimp only
    rw [installRecord_eq_ok.mpr hinstall]
    dsimp only
    have hnext := ih hconsecutive hothers (offset + frame.length) record.recordSequence.next fuel
      (by omega)
    rw [hnext, List.length_append, Nat.add_assoc]
    rfl

/-- Of any bytes, feeding installs exactly the records of the longest prefix that consists of valid
frames with consecutive sequences and payloads that can be installed.  It fails if there is more, and
then reports the length of this prefix; an incomplete frame is only reported where the bytes end
within one.  The prefix alone is fed without a failure and with the same effect. -/
theorem feed_exact (bytes : List UInt8) (limits : RecordLimits) (sequence : RecordSequence)
    (e : Engine) :
    ∃ records encodings rest e',
      LongestPrefix blake3 limits (some sequence) e bytes records encodings rest e' ∧
      (rest = [] → feed blake3 bytes limits ⟨e, some sequence⟩ =
        .ok encodings.flatten.length ⟨e', sequenceAfter (some sequence) records⟩) ∧
      (rest ≠ [] → ∃ error next, feed blake3 bytes limits ⟨e, some sequence⟩ =
          .error error ⟨e', next⟩ ∧
        error.lastValidOffset = encodings.flatten.length ∧
        (error.isPartialTail = true → next = sequenceAfter (some sequence) records ∧
          EndsWithin limits (sequenceAfter (some sequence) records) rest) ∧
        feed blake3 (bytes.take error.lastValidOffset) limits ⟨e, some sequence⟩ =
          .ok error.lastValidOffset ⟨e', sequenceAfter (some sequence) records⟩) := by
  obtain ⟨records, encodings, rest, e', hlongest, hdone, hfails⟩ :=
    @feedRecords_longest blake3 limits (bytes.length + 1) bytes (Nat.lt_succ_self _) 0
      (some sequence) ⟨e, some sequence⟩
  rw [Nat.zero_add] at hdone hfails
  refine ⟨records, encodings, rest, e', hlongest, hdone, fun hne => ?_⟩
  obtain ⟨error, next, hrun, hoffset, htail⟩ := hfails hne
  refine ⟨error, next, hrun, hoffset, htail, ?_⟩
  have hcut : bytes.take encodings.flatten.length = encodings.flatten := by
    rw [hlongest.split, List.take_left]
  have hfront := @feedRecords_installs blake3 limits records encodings hlongest.encoded
    (some sequence) hlongest.consecutive e e' hlongest.installs _ (Nat.lt_succ_self _) 0
    (some sequence)
  rw [Nat.zero_add] at hfront
  rw [hoffset, hcut]
  exact hfront

end EngineRecovery

end PromiseDb
