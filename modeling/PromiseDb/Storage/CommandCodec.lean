import PromiseDb.Engine.Reachable
import PromiseDb.Storage.Format

/-!
# The command codec

A command payload is the format version, the client, the key, a tag for the operation and the
operands of the operation.  The order of claims and of alternatives is preserved.  Decoding
rebuilds every domain value through its validating constructor and rejects trailing bytes.
-/

namespace PromiseDb

/-! ## Encoding -/

namespace Writer

/-- Writes the alternatives of a choice. -/
def choice (value : Choice) : StorageWriter := do
  len "choice alternatives" value.alternatives.length
  value.alternatives.forM bundle

/-- Writes a relative claim. -/
def relativeClaim (value : RelativeClaim) : StorageWriter := do
  poolId value.poolId
  i64 value.startOffset
  i64 value.endOffset
  u64 value.quantity

/-- Writes a relative bundle. -/
def relativeBundle (value : RelativeBundle) : StorageWriter := do
  len "relative bundle claims" value.claims.length
  value.claims.forM relativeClaim

/-- Writes a revision mode. -/
def revisionMode : CapacityRevisionMode → StorageWriter
  | .strict => byte 1
  | .force => byte 2

/-- Writes a replacement state. -/
def replacementState : ReplacementState → StorageWriter
  | .held expiresAt => do
    byte 1
    i64 expiresAt
  | .committed => byte 2

/-- Writes the tag and the operands of an operation. -/
def operation : CommandOperation → StorageWriter
  | .createResourcePool resourcePoolId displayName unit capacityCurve => do
    byte 1
    poolId resourcePoolId
    string "display name" displayName
    Writer.unit unit
    curve capacityCurve
  | .reviseCapacity resourcePoolId capacityCurve mode => do
    byte 2
    poolId resourcePoolId
    curve capacityCurve
    revisionMode mode
  | .hold promiseId bundle expiresAt => do
    byte 3
    Writer.promiseId promiseId
    Writer.bundle bundle
    i64 expiresAt
  | .holdOneOf promiseId choice expiresAt => do
    byte 8
    Writer.promiseId promiseId
    Writer.choice choice
    i64 expiresAt
  | .holdFirstSlot promiseId relativeBundle earliestStart latestStart step expiresAt => do
    byte 9
    Writer.promiseId promiseId
    Writer.relativeBundle relativeBundle
    i64 earliestStart
    i64 latestStart
    i64 step
    i64 expiresAt
  | .commit promiseId expectedVersion => do
    byte 4
    Writer.promiseId promiseId
    u64 expectedVersion.get
  | .release promiseId expectedVersion => do
    byte 5
    Writer.promiseId promiseId
    u64 expectedVersion.get
  | .replace promiseId expectedVersion newBundle newState => do
    byte 6
    Writer.promiseId promiseId
    u64 expectedVersion.get
    bundle newBundle
    replacementState newState
  | .processExpirations => byte 7

/-- Writes a complete command. -/
def command (c : Command) : StorageWriter := do
  byte 1
  string "client_id" c.clientId.value
  string "idempotency_key" c.idempotencyKey.value
  operation c.operation

end Writer

/-- Encodes a complete command. -/
def encodeCommand (c : Command) : Except StorageError (List UInt8) := (Writer.command c).written

/-! ## Decoding -/

namespace Reader

/-- Reads a version of the command codec. -/
def commandVersion : StorageReader Version := versionOr "promise version must be non-zero"

/-- Reads a choice. -/
def choice : StorageReader Choice := do
  let count ← count .unlimited "choice alternatives"
  let alternatives ← Codec.Reader.times (bundle .unlimited) count
  domain (Choice.new alternatives)

/-- Reads a relative claim. -/
def relativeClaim : StorageReader RelativeClaim := do
  let poolId ← poolId
  let startOffset ← i64
  let endOffset ← i64
  let quantity ← u64
  domain (RelativeClaim.new poolId startOffset endOffset quantity)

/-- Reads a relative bundle. -/
def relativeBundle : StorageReader RelativeBundle := do
  let count ← count .unlimited "relative bundle claims"
  let claims ← Codec.Reader.times relativeClaim count
  domain (RelativeBundle.new claims)

/-- Reads a revision mode. -/
def revisionMode : StorageReader CapacityRevisionMode := do
  match ← byte with
  | 1 => pure .strict
  | 2 => pure .force
  | tag => throw (.invalidTag "capacity revision mode" tag)

/-- Reads a replacement state. -/
def replacementState : StorageReader ReplacementState := do
  match ← byte with
  | 1 => do
    let expiresAt ← i64
    pure (.held expiresAt)
  | 2 => pure .committed
  | tag => throw (.invalidTag "replacement state" tag)

/-- Reads the tag and the operands of an operation. -/
def operation : StorageReader CommandOperation := do
  match ← byte with
  | 1 => do
    let resourcePoolId ← poolId
    let displayName ← string .unlimited "display name"
    let unit ← Reader.unit .unlimited
    let capacityCurve ← curve .unlimited
    pure (.createResourcePool resourcePoolId displayName unit capacityCurve)
  | 2 => do
    let resourcePoolId ← poolId
    let capacityCurve ← curve .unlimited
    let mode ← revisionMode
    pure (.reviseCapacity resourcePoolId capacityCurve mode)
  | 3 => do
    let promiseId ← Reader.promiseId
    let bundle ← Reader.bundle .unlimited
    let expiresAt ← i64
    pure (.hold promiseId bundle expiresAt)
  | 8 => do
    let promiseId ← Reader.promiseId
    let choice ← Reader.choice
    let expiresAt ← i64
    pure (.holdOneOf promiseId choice expiresAt)
  | 9 => do
    let promiseId ← Reader.promiseId
    let relativeBundle ← Reader.relativeBundle
    let earliestStart ← i64
    let latestStart ← i64
    let step ← i64
    let expiresAt ← i64
    pure (.holdFirstSlot promiseId relativeBundle earliestStart latestStart step expiresAt)
  | 4 => do
    let promiseId ← Reader.promiseId
    let expectedVersion ← commandVersion
    pure (.commit promiseId expectedVersion)
  | 5 => do
    let promiseId ← Reader.promiseId
    let expectedVersion ← commandVersion
    pure (.release promiseId expectedVersion)
  | 6 => do
    let promiseId ← Reader.promiseId
    let expectedVersion ← commandVersion
    let newBundle ← bundle .unlimited
    let newState ← replacementState
    pure (.replace promiseId expectedVersion newBundle newState)
  | 7 => pure .processExpirations
  | tag => throw (.invalidTag "command operation" tag)

/-- Reads the format version of a command. -/
def commandFormat : StorageReader PUnit := do
  let version ← byte
  if version = 1 then pure ⟨⟩ else throw (.unsupportedVersion version)

/-- Reads a complete command. -/
def command : StorageReader Command := do
  commandFormat
  let clientId ← string .unlimited "client_id"
  let idempotencyKey ← string .unlimited "idempotency_key"
  let operation ← operation
  pure ⟨⟨clientId⟩, ⟨idempotencyKey⟩, operation⟩

/-- Runs a reader on a whole payload and rejects what it leaves. -/
def complete {α : Type} (r : StorageReader α) (trailing : String) (bytes : List UInt8) :
    Except StorageError α := do
  let (value, rest) ← r bytes
  if rest = [] then .ok value else .error (.corruptRecord trailing)

end Reader

/-- Decodes a complete command payload. -/
def decodeCommand (bytes : List UInt8) : Except StorageError Command :=
  Reader.complete Reader.command "trailing command payload bytes" bytes

/-! ## Lengths that can be represented -/

/-- The lengths in an operation that a four-byte prefix can represent. -/
def CommandOperation.LengthsFit : CommandOperation → Prop
  | .createResourcePool _ displayName unit capacityCurve =>
    StringFits .unlimited displayName ∧ StringFits .unlimited unit.name ∧
      CountFits .unlimited capacityCurve.segments.length
  | .reviseCapacity _ capacityCurve _ => CountFits .unlimited capacityCurve.segments.length
  | .hold _ bundle _ => CountFits .unlimited bundle.claims.length
  | .holdOneOf _ choice _ => CountFits .unlimited choice.alternatives.length ∧
      ∀ bundle ∈ choice.alternatives, CountFits .unlimited bundle.claims.length
  | .holdFirstSlot _ relativeBundle _ _ _ _ => CountFits .unlimited relativeBundle.claims.length
  | .commit _ _ => True
  | .release _ _ => True
  | .replace _ _ newBundle _ => CountFits .unlimited newBundle.claims.length
  | .processExpirations => True

/-- The lengths in a command that a four-byte prefix can represent. -/
@[mk_iff]
structure Command.LengthsFit (c : Command) : Prop where
  clientId : StringFits .unlimited c.clientId.value
  idempotencyKey : StringFits .unlimited c.idempotencyKey.value
  operation : c.operation.LengthsFit

instance CommandOperation.decidableLengthsFit :
    (operation : CommandOperation) → Decidable operation.LengthsFit
  | .createResourcePool _ displayName unit capacityCurve =>
    inferInstanceAs (Decidable (StringFits .unlimited displayName ∧
      StringFits .unlimited unit.name ∧ CountFits .unlimited capacityCurve.segments.length))
  | .reviseCapacity _ capacityCurve _ =>
    inferInstanceAs (Decidable (CountFits .unlimited capacityCurve.segments.length))
  | .hold _ bundle _ => inferInstanceAs (Decidable (CountFits .unlimited bundle.claims.length))
  | .holdOneOf _ choice _ =>
    inferInstanceAs (Decidable (CountFits .unlimited choice.alternatives.length ∧
      ∀ bundle ∈ choice.alternatives, CountFits .unlimited bundle.claims.length))
  | .holdFirstSlot _ relativeBundle _ _ _ _ =>
    inferInstanceAs (Decidable (CountFits .unlimited relativeBundle.claims.length))
  | .replace _ _ newBundle _ =>
    inferInstanceAs (Decidable (CountFits .unlimited newBundle.claims.length))
  | .commit _ _ | .release _ _ | .processExpirations => .isTrue trivial

instance Command.decidableLengthsFit (c : Command) : Decidable c.LengthsFit :=
  decidable_of_iff' _ (Command.lengthsFit_iff c)

/-! ## Reading back a command -/

/-- A choice whose lengths fit is read back as it was written. -/
theorem roundTrips_choice {value : Choice} (h : CountFits .unlimited value.alternatives.length)
    (hbundles : ∀ bundle ∈ value.alternatives, CountFits .unlimited bundle.claims.length) :
    RoundTrips (Writer.choice value) Reader.choice value := by
  refine (roundTrips_len h).bind ?_
  exact (Codec.Paired.times fun b hb => roundTrips_bundle (hbundles b hb)).andThen
    (inverts_domain (Choice.new_eq_ok.mpr rfl))

/-- A relative claim is read back as it was written. -/
theorem roundTrips_relativeClaim (value : RelativeClaim) :
    RoundTrips (Writer.relativeClaim value) Reader.relativeClaim value := by
  refine (roundTrips_poolId value.poolId).bind ?_
  refine (roundTrips_i64 value.startOffset).bind ?_
  refine (roundTrips_i64 value.endOffset).bind ?_
  exact (roundTrips_u64 value.quantity).andThen
    (inverts_domain (RelativeClaim.new_eq_ok.mpr ⟨rfl, rfl, rfl, rfl⟩))

/-- A relative bundle whose lengths fit is read back as it was written. -/
theorem roundTrips_relativeBundle {value : RelativeBundle}
    (h : CountFits .unlimited value.claims.length) :
    RoundTrips (Writer.relativeBundle value) Reader.relativeBundle value := by
  refine (roundTrips_len h).bind ?_
  exact (Codec.Paired.times fun c _ => roundTrips_relativeClaim c).andThen
    (inverts_domain (RelativeBundle.new_eq_ok.mpr rfl))

/-- A revision mode is read back as it was written. -/
theorem roundTrips_revisionMode (mode : CapacityRevisionMode) :
    RoundTrips (Writer.revisionMode mode) Reader.revisionMode mode := by
  cases mode with
  | strict => exact (roundTrips_byte 1).map rfl
  | force => exact (roundTrips_byte 2).map rfl

/-- A replacement state is read back as it was written. -/
theorem roundTrips_replacementState (state : ReplacementState) :
    RoundTrips (Writer.replacementState state) Reader.replacementState state := by
  cases state with
  | held expiresAt => exact (roundTrips_byte 1).bind ((roundTrips_i64 expiresAt).map rfl)
  | committed => exact (roundTrips_byte 2).map rfl

/-- A version in a command is read back as it was written. -/
theorem roundTrips_commandVersion (value : Version) :
    RoundTrips (Writer.u64 value.get) Reader.commandVersion value :=
  roundTrips_version value _

/-- One chain of fields for each operation. -/
theorem roundTrips_operation {value : CommandOperation} (h : value.LengthsFit) :
    RoundTrips (Writer.operation value) Reader.operation value := by
  cases value with
  | createResourcePool resourcePoolId displayName unit capacityCurve =>
    obtain ⟨hname, hunit, hcurve⟩ := h
    refine (roundTrips_byte 1).bind ?_
    refine (roundTrips_poolId resourcePoolId).bind ?_
    refine (roundTrips_string hname).bind ?_
    refine (roundTrips_unit hunit).bind ?_
    exact (roundTrips_curve hcurve).map rfl
  | reviseCapacity resourcePoolId capacityCurve mode =>
    refine (roundTrips_byte 2).bind ?_
    refine (roundTrips_poolId resourcePoolId).bind ?_
    refine (roundTrips_curve h).bind ?_
    exact (roundTrips_revisionMode mode).map rfl
  | hold promiseId bundle expiresAt =>
    refine (roundTrips_byte 3).bind ?_
    refine (roundTrips_promiseId promiseId).bind ?_
    refine (roundTrips_bundle h).bind ?_
    exact (roundTrips_i64 expiresAt).map rfl
  | holdOneOf promiseId choice expiresAt =>
    refine (roundTrips_byte 8).bind ?_
    refine (roundTrips_promiseId promiseId).bind ?_
    refine (roundTrips_choice h.1 h.2).bind ?_
    exact (roundTrips_i64 expiresAt).map rfl
  | holdFirstSlot promiseId relativeBundle earliestStart latestStart step expiresAt =>
    refine (roundTrips_byte 9).bind ?_
    refine (roundTrips_promiseId promiseId).bind ?_
    refine (roundTrips_relativeBundle h).bind ?_
    refine (roundTrips_i64 earliestStart).bind ?_
    refine (roundTrips_i64 latestStart).bind ?_
    refine (roundTrips_i64 step).bind ?_
    exact (roundTrips_i64 expiresAt).map rfl
  | commit promiseId expectedVersion =>
    refine (roundTrips_byte 4).bind ?_
    refine (roundTrips_promiseId promiseId).bind ?_
    exact (roundTrips_commandVersion expectedVersion).map rfl
  | release promiseId expectedVersion =>
    refine (roundTrips_byte 5).bind ?_
    refine (roundTrips_promiseId promiseId).bind ?_
    exact (roundTrips_commandVersion expectedVersion).map rfl
  | replace promiseId expectedVersion newBundle newState =>
    refine (roundTrips_byte 6).bind ?_
    refine (roundTrips_promiseId promiseId).bind ?_
    refine (roundTrips_commandVersion expectedVersion).bind ?_
    refine (roundTrips_bundle h).bind ?_
    exact (roundTrips_replacementState newState).map rfl
  | processExpirations => exact (roundTrips_byte 7).map rfl

/-- A complete command. -/
theorem roundTrips_command {value : Command} (h : value.LengthsFit) :
    RoundTrips (Writer.command value) Reader.command value := by
  have hformat : RoundTrips (Writer.byte 1) Reader.commandFormat ⟨⟩ := (roundTrips_byte 1).map rfl
  refine hformat.bind ?_
  refine (roundTrips_string h.clientId).bind ?_
  refine (roundTrips_string h.idempotencyKey).bind ?_
  exact (roundTrips_operation h.operation).map rfl

/-! ## Whole payloads -/

/-- A payload that a reader inverts is decoded as a whole, and neither a cut nor an extension of
it is. -/
theorem complete_of_inverts {α : Type} {r : StorageReader α} {bytes : List UInt8} {a : α}
    {trailing : String} (h : Codec.Inverts StorageError.truncatedPayload r bytes a) :
    Reader.complete r trailing bytes = .ok a ∧
      (∀ front, front <+: bytes → front ≠ bytes →
        Reader.complete r trailing front = .error .truncatedPayload) ∧
      ∀ back, back ≠ [] →
        Reader.complete r trailing (bytes ++ back) = .error (.corruptRecord trailing) := by
  refine ⟨?_, ?_, ?_⟩
  · have hwhole := h.whole []
    rw [List.append_nil] at hwhole
    rw [Reader.complete, hwhole, Except.ok_bind]
    rfl
  · intro front hfront hne
    rw [Reader.complete, h.cut front hfront hne]
    rfl
  · intro back hback
    rw [Reader.complete, h.whole back, Except.ok_bind]
    exact if_neg hback

/-- Every command whose lengths can be represented is encoded, and its payload is decoded to it;
every proper prefix of the payload is reported as truncated, and every extension of it as having
trailing bytes. -/
theorem command_codec_exact (c : Command) (h : c.LengthsFit) :
    ∃ bytes, encodeCommand c = .ok bytes ∧ decodeCommand bytes = .ok c ∧
      (∀ front, front <+: bytes → front ≠ bytes →
        decodeCommand front = .error .truncatedPayload) ∧
      ∀ back, back ≠ [] →
        decodeCommand (bytes ++ back) = .error (.corruptRecord "trailing command payload bytes") := by
  obtain ⟨bytes, hwrites, hinverts⟩ := roundTrips_command h
  exact ⟨bytes, hwrites.written, complete_of_inverts hinverts⟩

/-- The creation of a pool. -/
theorem command_codec_exact_sample :
    ∃ bytes, encodeCommand Engine.sampleCreate = .ok bytes ∧
      decodeCommand bytes = .ok Engine.sampleCreate ∧
      (∀ front, front <+: bytes → front ≠ bytes →
        decodeCommand front = .error .truncatedPayload) ∧
      ∀ back, back ≠ [] →
        decodeCommand (bytes ++ back) = .error (.corruptRecord "trailing command payload bytes") := by
  apply command_codec_exact
  refine ⟨?_, ?_, ?_, ?_, ?_⟩
  all_goals decide +kernel

end PromiseDb
