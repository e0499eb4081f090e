import PromiseDb.Library.Failures
import PromiseDb.Storage.TransitionCodec

/-!
# What can be wrong with a payload

A payload of a record that does not decode is rejected with an error about the payload.  It is never
taken for a record that was not completely written, nor for a damaged frame: there is one rule for each
reader of the command and the transition codec.
-/

namespace PromiseDb

/-- Errors about the contents of a payload, not about the frame around it or about the file. -/
def StorageError.InPayload : StorageError → Prop
  | .io _ _ => False
  | .unsupportedRecordVersion _ _ => False
  | .segmentLengthOverflow _ _ => False
  | .invalidRecordLimit _ => False
  | .recordTooLarge _ _ _ => False
  | .corruptWalRecord _ _ => False
  | .partialTail _ _ _ => False
  | _ => True

namespace Reader

/-- The reader only complains about the payload. -/
abbrev InPayload {α : Type} (r : StorageReader α) : Prop :=
  Codec.FailsIn StorageError.InPayload r

open Codec.FailsIn

/-! ## Fields -/

/-- A failed validation is an error in the payload. -/
theorem inPayload_domain {α : Type} (value : Except DomainError α) : InPayload (domain value) :=
  lift (.mapError fun _ _ => trivial)

/-- A failed check is an error in the payload. -/
theorem inPayload_orCorrupt {α : Type} (value : Option α) (reason : String) :
    InPayload (orCorrupt value reason) :=
  lift (.elim trivial)

/-- Reading a run of bytes fails only with an error in the payload. -/
theorem inPayload_take (length : Nat) : InPayload (Reader.take length) :=
  Codec.FailsIn.take trivial length

/-- Reading a byte fails only with an error in the payload. -/
theorem inPayload_byte : InPayload byte := bind (inPayload_take 1) fun _ => pure _

/-- Reading an unsigned integer of 32 bits fails only with an error in the payload. -/
theorem inPayload_u32 : InPayload u32 := bind (inPayload_take 4) fun _ => pure _

/-- Reading an unsigned integer of 64 bits fails only with an error in the payload. -/
theorem inPayload_u64 : InPayload u64 := bind (inPayload_take 8) fun _ => pure _

/-- Reading a signed integer fails only with an error in the payload. -/
theorem inPayload_i64 : InPayload i64 := bind (inPayload_take 8) fun _ => pure _

/-- Reading a pool id fails only with an error in the payload. -/
theorem inPayload_poolId : InPayload poolId := bind (inPayload_take 16) fun _ => pure _

/-- Reading a promise id fails only with an error in the payload. -/
theorem inPayload_promiseId : InPayload promiseId := bind (inPayload_take 16) fun _ => pure _

/-- Reading an interval fails only with an error in the payload. -/
theorem inPayload_interval : InPayload interval :=
  bind inPayload_i64 fun _ => bind inPayload_i64 fun _ => inPayload_domain _

/-- Reading a capacity segment fails only with an error in the payload. -/
theorem inPayload_segment : InPayload segment :=
  bind inPayload_interval fun _ => bind inPayload_u64 fun _ => pure _

/-- Reading a claim fails only with an error in the payload. -/
theorem inPayload_claim : InPayload claim :=
  bind inPayload_poolId fun _ => bind inPayload_interval fun _ =>
    bind inPayload_u64 fun _ => inPayload_domain _

/-- Reading a version fails only with an error in the payload. -/
theorem inPayload_versionOr (reason : String) : InPayload (versionOr reason) :=
  bind inPayload_u64 fun _ => inPayload_orCorrupt _ _

section Limits

variable (limits : ReaderLimits)

/-- Reading a count fails only with an error in the payload. -/
theorem inPayload_count (field : String) : InPayload (count limits field) :=
  bind inPayload_u32 fun _ => ite (pure _) (throw trivial)

/-- Reading bytes with their length fails only with an error in the payload. -/
theorem inPayload_bytes (field : String) : InPayload (bytes limits field) :=
  bind (inPayload_count limits field) fun _ => inPayload_take _

/-- Reading a string fails only with an error in the payload. -/
theorem inPayload_string (field : String) : InPayload (string limits field) :=
  bind (inPayload_count limits field) fun _ =>
    ite (bind (inPayload_take _) fun _ => lift (.elim trivial)) (throw trivial)

/-- Reading a unit fails only with an error in the payload. -/
theorem inPayload_unit : InPayload (unit limits) :=
  bind (inPayload_string limits _) fun _ => bind inPayload_u64 fun _ => inPayload_domain _

/-- Reading a curve fails only with an error in the payload. -/
theorem inPayload_curve : InPayload (curve limits) :=
  bind (inPayload_count limits _) fun _ =>
    bind (times inPayload_segment _) fun _ => inPayload_domain _

/-- Reading a bundle fails only with an error in the payload. -/
theorem inPayload_bundle : InPayload (bundle limits) :=
  bind (inPayload_count limits _) fun _ =>
    bind (times inPayload_claim _) fun _ => inPayload_domain _

end Limits

/-! ## Commands -/

/-- Reading a version in a command fails only with an error in the payload. -/
theorem inPayload_commandVersion : InPayload commandVersion := inPayload_versionOr _

/-- Reading a choice fails only with an error in the payload. -/
theorem inPayload_choice : InPayload choice :=
  bind (inPayload_count _ _) fun _ =>
    bind (times (inPayload_bundle _) _) fun _ => inPayload_domain _

/-- Reading a relative claim fails only with an error in the payload. -/
theorem inPayload_relativeClaim : InPayload relativeClaim :=
  bind inPayload_poolId fun _ => bind inPayload_i64 fun _ => bind inPayload_i64 fun _ =>
    bind inPayload_u64 fun _ => inPayload_domain _

/-- Reading a relative bundle fails only with an error in the payload. -/
theorem inPayload_relativeBundle : InPayload relativeBundle :=
  bind (inPayload_count _ _) fun _ =>
    bind (times inPayload_relativeClaim _) fun _ => inPayload_domain _

/-- Reading a revision mode fails only with an error in the payload. -/
theorem inPayload_revisionMode : InPayload revisionMode := by
  refine bind inPayload_byte fun tag => ?_
  split
  · exact pure _
  · exact pure _
  · exact throw trivial

/-- Reading a replacement state fails only with an error in the payload. -/
theorem inPayload_replacementState : InPayload replacementState := by
  refine bind inPayload_byte fun tag => ?_
  split
  · exact bind inPayload_i64 fun _ => pure _
  · exact pure _
  · exact throw trivial

/-- Reading an operation fails only with an error in the payload. -/
theorem inPayload_operation : InPayload operation := by
  refine bind inPayload_byte fun tag => ?_
  split
  · exact bind inPayload_poolId fun _ => bind (inPayload_string _ _) fun _ =>
      bind (inPayload_unit _) fun _ => bind (inPayload_curve _) fun _ => pure _
  · exact bind inPayload_poolId fun _ => bind (inPayload_curve _) fun _ =>
      bind inPayload_revisionMode fun _ => pure _
  · exact bind inPayload_promiseId fun _ => bind (inPayload_bundle _) fun _ =>
      bind inPayload_i64 fun _ => pure _
  · exact bind inPayload_promiseId fun _ => bind inPayload_choice fun _ =>
      bind inPayload_i64 fun _ => pure _
  · exact bind inPayload_promiseId fun _ => bind inPayload_relativeBundle fun _ =>
      bind inPayload_i64 fun _ => bind inPayload_i64 fun _ => bind inPayload_i64 fun _ =>
      bind inPayload_i64 fun _ => pure _
  · exact bind inPayload_promiseId fun _ => bind inPayload_commandVersion fun _ => pure _
  · exact bind inPayload_promiseId fun _ => bind inPayload_commandVersion fun _ => pure _
  · exact bind inPayload_promiseId fun _ => bind inPayload_commandVersion fun _ =>
      bind (inPayload_bundle _) fun _ => bind inPayload_replacementState fun _ => pure _
  · exact pure _
  · exact throw trivial

/-- Reading a command fails only with an error in the payload. -/
theorem inPayload_command : InPayload command :=
  bind (bind inPayload_byte fun _ => ite (pure _) (throw trivial)) fun _ =>
    bind (inPayload_string _ _) fun _ => bind (inPayload_string _ _) fun _ =>
      bind inPayload_operation fun _ => pure _

/-- What a reader does not take of a payload is a complaint about the payload as well. -/
theorem complete_failsIn {α : Type} {r : StorageReader α} (h : InPayload r) (trailing : String)
    (bytes : List UInt8) : (complete r trailing bytes).FailsIn StorageError.InPayload :=
  .bind (h bytes) fun _ => .ite (.ok _) (.error trivial)

/-! ## Transitions -/

/-- Reading a version fails only with an error in the payload. -/
theorem inPayload_version : InPayload version := inPayload_versionOr _

/-- Reading a sequence number fails only with an error in the payload. -/
theorem inPayload_sequence : InPayload sequence := bind inPayload_u64 fun _ => pure _

/-- Reading a command hash fails only with an error in the payload. -/
theorem inPayload_commandHash : InPayload commandHash := bind (inPayload_take 32) fun _ => pure _

/-- Reading a promise state fails only with an error in the payload. -/
theorem inPayload_promiseState : InPayload promiseState := by
  refine bind inPayload_byte fun tag => ?_
  split
  · exact bind inPayload_i64 fun _ => pure _
  · exact pure _
  · exact pure _
  · exact pure _
  · exact throw trivial

/-- Reading a number of attempts fails only with an error in the payload. -/
theorem inPayload_attempts : InPayload attempts :=
  bind (inPayload_take 16) fun _ => ite (throw trivial) (pure _)

/-- Reading a count of expirations fails only with an error in the payload. -/
theorem inPayload_expiredCount : InPayload expiredCount := bind inPayload_u64 fun _ => pure _

/-- Reading a domain error fails only with an error in the payload. -/
theorem inPayload_domainError : InPayload domainError := by
  refine bind inPayload_byte fun tag => ?_
  split
  case h_33 => exact throw trivial
  all_goals exact pure _

/-- Reading the kind of an event fails only with an error in the payload. -/
theorem inPayload_eventKind : InPayload eventKind := by
  refine bind inPayload_byte fun tag => ?_
  split
  case h_11 => exact throw trivial
  all_goals exact pure _

section Limits

variable (limits : ReaderLimits)

/-- Reading a pool fails only with an error in the payload. -/
theorem inPayload_resourcePool : InPayload (resourcePool limits) :=
  bind inPayload_poolId fun _ => bind (inPayload_string limits _) fun _ =>
    bind (inPayload_unit limits) fun _ => bind (inPayload_curve limits) fun _ => pure _

/-- Reading a promise fails only with an error in the payload. -/
theorem inPayload_promise : InPayload (promise limits) :=
  bind inPayload_promiseId fun _ => bind inPayload_promiseState fun _ =>
    bind (inPayload_bundle limits) fun _ => bind inPayload_version fun _ =>
    bind inPayload_sequence fun _ => bind inPayload_sequence fun _ => inPayload_domain _

/-- Reading a list of promise ids fails only with an error in the payload. -/
theorem inPayload_ids (field : String) : InPayload (ids limits field) :=
  bind (inPayload_count limits field) fun _ => timesInOrder inPayload_promiseId (by trivial) _ _

/-- Reading a conflict fails only with an error in the payload. -/
theorem inPayload_conflict : InPayload (conflict limits) :=
  bind inPayload_poolId fun _ => bind inPayload_interval fun _ => bind inPayload_u64 fun _ =>
    bind inPayload_u64 fun _ => bind inPayload_u64 fun _ => bind (inPayload_ids limits _) fun _ =>
    inPayload_orCorrupt _ _

/-- Reading a list of conflicts fails only with an error in the payload. -/
theorem inPayload_conflicts : InPayload (conflicts limits) :=
  bind (inPayload_count limits _) fun _ =>
    ite (throw trivial) (times (inPayload_conflict limits) _)

/-- Reading a deficit fails only with an error in the payload. -/
theorem inPayload_deficit : InPayload (deficit limits) :=
  bind inPayload_poolId fun _ => bind inPayload_interval fun _ => bind inPayload_u64 fun _ =>
    bind (inPayload_ids limits _) fun _ => inPayload_orCorrupt _ _

/-- Reading the outcome of a revision fails only with an error in the payload. -/
theorem inPayload_capacityOutcome : InPayload (capacityOutcome limits) :=
  bind inPayload_sequence fun _ => bind (inPayload_count limits _) fun _ =>
    bind (times (inPayload_deficit limits) _) fun _ => bind (inPayload_ids limits _) fun _ =>
    inPayload_orCorrupt _ _

/-- Reading the outcome of a hold fails only with an error in the payload. -/
theorem inPayload_holdOutcome : InPayload (holdOutcome limits) := by
  refine bind inPayload_byte fun tag => ?_
  split
  · exact bind inPayload_promiseId fun _ => pure _
  · exact bind (inPayload_conflicts limits) fun _ => pure _
  · exact throw trivial

/-- Reading a conflict of a choice fails only with an error in the payload. -/
theorem inPayload_choiceConflict (expected : Nat) : InPayload (choiceConflict limits expected) :=
  bind (inPayload_count limits _) fun _ =>
    ite (throw trivial) (bind (inPayload_conflicts limits) fun _ => inPayload_orCorrupt _ _)

/-- Reading the outcome of a choice fails only with an error in the payload. -/
theorem inPayload_choiceOutcome : InPayload (choiceOutcome limits) := by
  refine bind inPayload_byte fun tag => ?_
  split
  · exact bind inPayload_promiseId fun _ => bind (inPayload_count limits _) fun _ => pure _
  · exact bind (inPayload_count limits _) fun _ => ite (throw trivial)
      (bind (timesFrom (inPayload_choiceConflict limits) _ _) fun _ => pure _)
  · exact throw trivial

/-- Reading the outcome of a slot search fails only with an error in the payload. -/
theorem inPayload_slotOutcome : InPayload slotOutcome := by
  refine bind inPayload_byte fun tag => ?_
  split
  · exact bind inPayload_promiseId fun _ => bind inPayload_i64 fun _ => pure _
  · exact bind inPayload_attempts fun _ => pure _
  · exact throw trivial

/-- Reading the outcome of a replacement fails only with an error in the payload. -/
theorem inPayload_replaceOutcome : InPayload (replaceOutcome limits) := by
  refine bind inPayload_byte fun tag => ?_
  split
  · exact bind inPayload_promiseId fun _ => bind inPayload_version fun _ => pure _
  · exact bind (inPayload_conflicts limits) fun _ => pure _
  · exact throw trivial

/-- Reading a result fails only with an error in the payload. -/
theorem inPayload_result : InPayload (result limits) := by
  refine bind inPayload_byte fun tag => ?_
  split
  · exact bind inPayload_poolId fun _ => pure _
  · exact bind (inPayload_capacityOutcome limits) fun _ => pure _
  · exact bind (inPayload_holdOutcome limits) fun _ => pure _
  · exact bind (inPayload_choiceOutcome limits) fun _ => pure _
  · exact bind inPayload_slotOutcome fun _ => pure _
  · exact bind inPayload_promiseId fun _ => bind inPayload_version fun _ => pure _
  · exact bind inPayload_promiseId fun _ => bind inPayload_version fun _ => pure _
  · exact bind (inPayload_replaceOutcome limits) fun _ => pure _
  · exact bind inPayload_expiredCount fun _ => pure _
  · exact throw trivial

/-- Reading a response fails only with an error in the payload. -/
theorem inPayload_response : InPayload (response limits) := by
  refine bind inPayload_byte fun tag => ?_
  split
  · exact bind (inPayload_result limits) fun _ => pure _
  · exact bind inPayload_domainError fun _ => pure _
  · exact throw trivial

/-- Reading the data of an event fails only with an error in the payload. -/
theorem inPayload_eventData : InPayload (eventData limits) := by
  refine bind inPayload_byte fun tag => ?_
  split
  · exact bind inPayload_poolId fun _ => pure _
  · exact bind inPayload_promiseId fun _ => bind inPayload_version fun _ => pure _
  · exact bind inPayload_poolId fun _ => bind inPayload_interval fun _ =>
      bind inPayload_u64 fun _ => bind (inPayload_ids limits _) fun _ => pure _
  · exact throw trivial

/-- Reading an event fails only with an error in the payload. -/
theorem inPayload_event : InPayload (event limits) :=
  bind inPayload_sequence fun _ => bind inPayload_i64 fun _ => bind inPayload_eventKind fun _ =>
    bind (inPayload_eventData limits) fun _ => inPayload_orCorrupt _ _

end Limits

/-- Reading a transition fails only with an error in the payload. -/
theorem inPayload_transition : InPayload transition := by
  refine bind (bind inPayload_byte fun _ => ite (pure _) (throw trivial)) fun _ => ?_
  refine bind (inPayload_bytes _ _) fun commandBytes => ?_
  refine bind (lift (complete_failsIn inPayload_command _ commandBytes)) fun _ => ?_
  refine bind (inPayload_string _ _) fun _ => bind (inPayload_string _ _) fun _ => ?_
  refine bind inPayload_commandHash fun _ => bind (inPayload_response _) fun _ => ?_
  refine bind (inPayload_count _ _) fun _ => ?_
  refine bind (timesInOrder (inPayload_resourcePool _) (by trivial) _ _) fun _ => ?_
  refine bind (inPayload_count _ _) fun _ => ?_
  refine bind (timesInOrder (inPayload_promise _) (by trivial) _ _) fun _ => ?_
  refine bind (inPayload_count _ _) fun _ => ?_
  refine bind (timesInOrder (inPayload_event _) (by trivial) _ _) fun _ => ?_
  exact bind inPayload_sequence fun _ => pure _

end Reader

/-- A payload that does not decode to a transition is rejected for its contents. -/
theorem decodeTransition_failsIn (bytes : List UInt8) :
    (decodeTransition bytes).FailsIn StorageError.InPayload :=
  Reader.complete_failsIn Reader.inPayload_transition _ bytes

end PromiseDb
