import PromiseDb.Engine.CanonicalHash
import PromiseDb.Engine.OperationErrors
import PromiseDb.Engine.Reachable

/-!
# Retries

A command whose identity has been used is answered from the cache: with the first response when the
hashes of the operations are the same, and with an idempotency conflict otherwise.  As long as the
digests of the two representations do not collide, these are the cases of operations that differ at
most in the order of their claims, and of all others.
-/

namespace PromiseDb

namespace Engine

variable {blake3 : List UInt8 → CommandHash}

/-- The response of an operation is not a conflict of identities. -/
theorem executeOnce_ne_conflict (s : EngineState) (command : Command) (now : Timestamp) :
    (executeOnce blake3 s command now).1 ≠ .error .idempotencyConflict := by
  rw [executeOnce_fst]
  cases hrun : EngineState.applyOnce command.operation now s with
  | ok result s' => exact fun h => by cases h
  | error error s' =>
    have herror := applyOnce_fails command.operation now s error s' hrun
    intro h
    exact herror.1 (Except.error.inj h)

/-- Hashes without a collision are equal exactly for operations that differ at most in the order of
their claims. -/
theorem hashOperation_eq_iff {o o' : CommandOperation} (ho : o.Addressable) (ho' : o'.Addressable)
    (hcollision : hashOperation blake3 o = hashOperation blake3 o' →
      canonicalOperation o = canonicalOperation o') :
    hashOperation blake3 o = hashOperation blake3 o' ↔ o.Reorders o' := by
  constructor
  · exact fun h => (canonicalOperation_inj ho ho').mp (hcollision h)
  · intro h
    rw [hashOperation, hashOperation, canonicalOperation_reorders h]

/-- A command that is executed for the first time is answered again with its response for as long
as its hash does not change, and with a conflict otherwise. -/
theorem apply_again {e : Engine} {command retry : Command} {now again : Timestamp}
    (hidentity : retry.identity = command.identity)
    (hnew : e.state.idempotencyRecords[command.identity]? = none) (hrevision : e.nextRevision ≠ none)
    (commands : List (Command × Timestamp)) :
    (apply blake3 (applyAll blake3 (apply blake3 e command now).2 commands).2 retry again).1 =
      cachedResponse ⟨hashOperation blake3 command.operation, (apply blake3 e command now).1⟩
        (hashOperation blake3 retry.operation) := by
  obtain ⟨cached, hcached, -⟩ | ⟨-, hnone, -⟩ | ⟨next, -, -, heq⟩ :=
    @apply_cases blake3 e command now
  · rw [hnew] at hcached
    cases hcached
  · exact absurd hnone hrevision
  · have hrecord : (apply blake3 e command now).2.state.idempotencyRecords[command.identity]? =
        some ⟨hashOperation blake3 command.operation, (apply blake3 e command now).1⟩ := by
      rw [heq]
      exact executeOnce_record e.state command now
    have hkept := @applyAll_record_kept blake3 commands _ _ _ hrecord
    rw [← hidentity] at hkept
    obtain ⟨record, hfound, hretry⟩ | ⟨hnone, -, -⟩ | ⟨next', hnone, -, -⟩ :=
      @apply_cases blake3 (applyAll blake3 (apply blake3 e command now).2 commands).2 retry again
    · rw [hkept] at hfound
      rw [hretry, Option.some.inj hfound]
    · rw [hkept] at hnone
      cases hnone
    · rw [hkept] at hnone
      cases hnone

/-- The canonical representations of two operations are equal exactly when the operations are, up to
the order of the claims within a bundle.  If their digests do not collide, a retry under the
identity of the first operation, however much later, is a conflict exactly when they differ
otherwise; if they do not, it gets the first response. -/
theorem canonicalOperation_exact {o o' : CommandOperation} (ho : o.Addressable)
    (ho' : o'.Addressable) :
    (canonicalOperation o = canonicalOperation o' ↔ o.Reorders o') ∧
      ∀ blake3 : List UInt8 → CommandHash,
        (hashOperation blake3 o = hashOperation blake3 o' →
          canonicalOperation o = canonicalOperation o') →
        ∀ (e : Engine) (client : ClientId) (key : IdempotencyKey) (now again : Timestamp)
          (commands : List (Command × Timestamp)),
          e.state.idempotencyRecords[toLex (client, key)]? = none → e.nextRevision ≠ none →
          ((apply blake3 (applyAll blake3 (apply blake3 e ⟨client, key, o⟩ now).2 commands).2
              ⟨client, key, o'⟩ again).1 = .error .idempotencyConflict ↔ ¬o.Reorders o') ∧
            (o.Reorders o' →
              (apply blake3 (applyAll blake3 (apply blake3 e ⟨client, key, o⟩ now).2 commands).2
                ⟨client, key, o'⟩ again).1 = (apply blake3 e ⟨client, key, o⟩ now).1) := by
  refine ⟨canonicalOperation_inj ho ho', ?_⟩
  intro blake3 hcollision e client key now again commands hnew hrevision
  have hretry := @apply_again blake3 e ⟨client, key, o⟩ ⟨client, key, o'⟩ now again rfl hnew
    hrevision commands
  have hhash := hashOperation_eq_iff ho ho' hcollision
  rw [hretry, cachedResponse]
  dsimp only
  by_cases hsame : o.Reorders o'
  · rw [if_neg (not_not_intro (hhash.mpr hsame))]
    refine ⟨iff_of_false ?_ (not_not_intro hsame), fun _ => rfl⟩
    obtain ⟨cached, hcached, -⟩ | ⟨-, hnone, -⟩ | ⟨next, -, -, heq⟩ :=
      @apply_cases blake3 e ⟨client, key, o⟩ now
    · exact absurd (hcached.symm.trans hnew) (by simp)
    · exact absurd hnone hrevision
    · rw [heq]
      exact @executeOnce_ne_conflict blake3 e.state ⟨client, key, o⟩ now
  · rw [if_pos (mt hhash.mp hsame)]
    exact ⟨iff_of_true rfl hsame, fun h => absurd h hsame⟩

/-- The engine after a hold of two claims and the commands of the sample group. -/
def sampleMuchLater : Engine :=
  (applyAll sampleHash (apply sampleHash sampleEngine
    (sampleCommand "both" (sampleHoldBoth sampleShort sampleLong)) (sampleTime 2)).2 sampleFall).2

/-- A hold of two claims that is retried much later with its claims in the other order gets the
first response, and the creation of a pool under its identity is a conflict. -/
theorem canonicalOperation_exact_sample :
    canonicalOperation (sampleHoldBoth sampleShort sampleLong) =
      canonicalOperation (sampleHoldBoth sampleLong sampleShort) ∧
    (apply sampleHash sampleMuchLater
        (sampleCommand "both" (sampleHoldBoth sampleLong sampleShort)) (sampleTime 6)).1 =
      (apply sampleHash sampleEngine
        (sampleCommand "both" (sampleHoldBoth sampleShort sampleLong)) (sampleTime 2)).1 ∧
    (apply sampleHash sampleMuchLater (sampleCommand "both" sampleCreate.operation)
      (sampleTime 6)).1 = .error .idempotencyConflict := by
  have htwo (b b' : Bundle) (hb : b.claims.length = 1) (hb' : b'.claims.length = 1) :
      (sampleHoldBoth b b').Addressable := by
    show PromiseDb.Addressable (b.claims ++ b'.claims).length
    rw [List.length_append, hb, hb']
    decide
  have hcreate : sampleCreate.operation.Addressable := by
    refine ⟨?_, ?_, ?_⟩
    all_goals decide +kernel
  have hreorders : (sampleHoldBoth sampleShort sampleLong).Reorders
      (sampleHoldBoth sampleLong sampleShort) :=
    .hold List.perm_append_comm
  have hnew : sampleEngine.state.idempotencyRecords[toLex
      ((⟨"client"⟩ : ClientId), (⟨"both"⟩ : IdempotencyKey))]?.isNone = true := by
    decide +kernel
  have hrevision : sampleEngine.nextRevision ≠ none := by decide +kernel
  have hnone := Option.isNone_iff_eq_none.mp hnew
  obtain ⟨hsame, hretry⟩ := canonicalOperation_exact
    (htwo sampleShort sampleLong rfl rfl) (htwo sampleLong sampleShort rfl rfl)
  have hdiffer : hashOperation sampleHash (sampleHoldBoth sampleShort sampleLong) ≠
      hashOperation sampleHash sampleCreate.operation := by
    decide +kernel
  obtain ⟨hother, hconflict⟩ :=
    canonicalOperation_exact (htwo sampleShort sampleLong rfl rfl) hcreate
  refine ⟨hsame.mpr hreorders, ?_, ?_⟩
  · exact (hretry sampleHash (fun _ => hsame.mpr hreorders) sampleEngine ⟨"client"⟩ ⟨"both"⟩
      (sampleTime 2) (sampleTime 6) sampleFall hnone hrevision).2 hreorders
  · refine (hconflict sampleHash (fun h => absurd h hdiffer) sampleEngine ⟨"client"⟩ ⟨"both"⟩
      (sampleTime 2) (sampleTime 6) sampleFall hnone hrevision).1.mpr ?_
    intro hreordered
    exact hdiffer (by rw [hashOperation, hashOperation, hother.mpr hreordered])

end Engine

end PromiseDb
