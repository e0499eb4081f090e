import PromiseDb.Engine.Executions
import PromiseDb.Engine.NoOverselling
import PromiseDb.Storage.FileRuns

/-!
# What a file database answers over its life

However a file database is stopped, crashed and opened again, it answers as an engine in memory does
that has executed the commands of its history and nothing else.  So a command that is sent again,
also after a crash, is given the answer of its first execution and writes nothing, and a pool is not
oversold when its capacity is only revised strictly.
-/

namespace PromiseDb

open Database

variable {blake3 : List UInt8 → CommandHash}

/-! ## Repeated commands in a durable group -/

namespace Database

variable {B : Type} [WalBackend B]

end Database

/-! ## Every run -/

variable {manifest : Manifest} {history : List TimestampedTransition} {db : FileDatabase blake3}

/-- A hold without a pool, the creation of the pool, and a hold. -/
def sampleLife : List (Command × Timestamp) :=
  [(Engine.sampleHold, Engine.sampleTime 0), (Engine.sampleCreate, Engine.sampleTime 1),
    (Engine.sampleCommand "again" Engine.sampleHold.operation, Engine.sampleTime 2)]

/-- A database after further groups of one command each, as far as they are acknowledged. -/
def afterGroups (blake3 : List UInt8 → CommandHash) (db : FileDatabase blake3) :
    List (Command × Timestamp) → Option (FileDatabase blake3)
  | [] => some db
  | entry :: rest =>
    if (EStateM.run' (applyBatch blake3 [entry]) db).isSome then
      afterGroups blake3 (applyBatch blake3 [entry] db).finalState rest
    else none

/-- Acknowledged groups of one command each continue a run. -/
theorem FileRun.afterGroups (h : FileRun blake3 manifest history (.opened db))
    {commands : List (Command × Timestamp)} {db' : FileDatabase blake3}
    (hafter : PromiseDb.afterGroups blake3 db commands = some db') :
    ∃ items, (∀ item ∈ items, ∃ entry ∈ commands, item.transition.command = entry.1) ∧
      FileRun blake3 manifest (history ++ items) (.opened db') := by
  induction commands generalizing history db with
  | nil =>
    obtain rfl := Option.some.inj hafter
    refine ⟨[], fun item hitem => absurd hitem List.not_mem_nil, ?_⟩
    rwa [List.append_nil]
  | cons entry rest ih =>
    obtain ⟨command, now⟩ := entry
    unfold PromiseDb.afterGroups at hafter
    split at hafter
    swap
    · cases hafter
    rename_i hanswered
    obtain ⟨responses, after, happlied⟩ := EStateM.exists_ok_of_isSome hanswered
    rw [happlied, EStateM.Result.finalState_ok] at hafter
    obtain ⟨prepared, hprepared, -⟩ := applyBatch_acknowledged happlied
    have hnext := h.acknowledged hprepared (restoresNone_single db command now) happlied
    obtain ⟨items, hitems, hrun⟩ := ih hnext hafter
    refine ⟨prepared.durableItems ++ items, fun item hitem => ?_, ?_⟩
    · rcases List.mem_append.mp hitem with hitem | hitem
      · refine ⟨(command, now), List.mem_cons_self, ?_⟩
        rw [(Engine.prepareBatch_eq_ok hprepared).2.1] at hitem
        obtain ⟨entry, hentry, rfl⟩ := List.mem_map.mp hitem
        have hsub := (Engine.firstSeen_sublist db.engine.state [(command, now)]).subset
          (List.mem_map_of_mem hentry)
        exact congrArg Prod.fst (List.mem_singleton.mp hsub)
      · obtain ⟨entry, hentry, heq⟩ := hitems item hitem
        exact ⟨entry, List.mem_cons_of_mem _ hentry, heq⟩
    · rwa [List.append_assoc] at hrun

end PromiseDb
