import PromiseDb.Engine.AtMostOnce
import PromiseDb.Engine.RecordHistory

/-!
# Histories as executions

A history is a list of effects to install, but it also says which commands were executed, when, and
what they were answered.  Executing exactly these commands on an empty engine, one after another and
each at its time, gives exactly these answers and leads to an engine with this history.  Two engines
with one history only differ in how their timelines are represented.  No identity occurs twice in a
history, and its answers are the ones that an engine has recorded.
-/

namespace PromiseDb

namespace Engine

open EngineState

variable {blake3 : List UInt8 → CommandHash}

/-! ## The commands of a history -/

/-- The commands of a history with the times of their execution. -/
def issued (history : List TimestampedTransition) : List (Command × Timestamp) :=
  history.map fun item => (item.transition.command, item.timestamp)

/-- The answers to the commands of a history. -/
def answered (history : List TimestampedTransition) : List CommandResponse :=
  history.map fun item => item.transition.response

/-- The commands of two histories follow one another. -/
theorem issued_append (l r : List TimestampedTransition) : issued (l ++ r) = issued l ++ issued r :=
  List.map_append

/-- The answers of two histories follow one another. -/
theorem answered_append (l r : List TimestampedTransition) :
    answered (l ++ r) = answered l ++ answered r :=
  List.map_append

/-- The commands of the durable items of a group are the executed ones. -/
theorem issued_itemOf (base : EngineState) (l : List (EngineState × Command × Timestamp)) :
    issued (l.map (itemOf blake3 base)) = l.map Prod.snd :=
  List.map_map

/-- The answers in the durable items of a group are those of the executed commands. -/
theorem answered_itemOf (base : EngineState) (l : List (EngineState × Command × Timestamp)) :
    answered (l.map (itemOf blake3 base)) =
      l.map fun entry => (executeOnce blake3 entry.1 entry.2.1 entry.2.2).1 :=
  List.map_map

/-! ## Executed commands without the cached ones -/

/-- Of the executed commands of a group, all are executed. -/
theorem firstSeen_firstSeen (s : EngineState) (commands : List (Command × Timestamp)) :
    firstSeen blake3 s ((firstSeen blake3 s commands).map Prod.snd) = firstSeen blake3 s commands := by
  induction commands generalizing s with
  | nil => rfl
  | cons entry rest ih =>
    obtain ⟨command, now⟩ := entry
    cases hrecord : s.idempotencyRecords[command.identity]? with
    | some record =>
      rw [firstSeen_cached hrecord]
      exact ih s
    | none =>
      rw [firstSeen_new hrecord, List.map_cons, firstSeen_new hrecord, ih]

/-- The executed commands of a group are answered without the cached ones as with them, and lead to
the same state. -/
theorem executeAll_firstSeen (s : EngineState) (commands : List (Command × Timestamp)) :
    executeAll blake3 s ((firstSeen blake3 s commands).map Prod.snd) =
      ((firstSeen blake3 s commands).map fun entry =>
          (executeOnce blake3 entry.1 entry.2.1 entry.2.2).1,
        (executeAll blake3 s commands).2) := by
  induction commands generalizing s with
  | nil => rfl
  | cons entry rest ih =>
    obtain ⟨command, now⟩ := entry
    cases hrecord : s.idempotencyRecords[command.identity]? with
    | some record =>
      rw [firstSeen_cached hrecord, executeAll_cached hrecord]
      exact ih s
    | none =>
      rw [firstSeen_new hrecord, executeAll_new hrecord, List.map_cons, List.map_cons, executeAll,
        executeCommand, hrecord]
      dsimp only
      rw [ih]

/-- Applying the first executed commands of a group, however many, gives their answers and leads to
the engine that the group has led to after them. -/
theorem applyAll_firstSeen {e : Engine} {commands : List (Command × Timestamp)} {k : Nat}
    (h : e.publicationRevision.val + (firstSeen blake3 e.state commands).length ≤ lastRevision)
    (hk : k ≤ (firstSeen blake3 e.state commands).length) :
    applyAll blake3 e (((firstSeen blake3 e.state commands).take k).map Prod.snd) =
      (((firstSeen blake3 e.state commands).take k).map fun entry =>
          (executeOnce blake3 entry.1 entry.2.1 entry.2.2).1,
        (applyAll blake3 e (throughFirstSeen blake3 e.state k commands)).2) := by
  obtain ⟨revision, hrevision, hthrough⟩ := applyAll_through h hk
  rw [hthrough]
  have htake := @firstSeen_through blake3 e.state k commands
  have hlength : ((firstSeen blake3 e.state commands).take k).length = k :=
    List.length_take_of_le hk
  rw [← htake] at hlength ⊢
  have hsame := @firstSeen_firstSeen blake3 e.state (throughFirstSeen blake3 e.state k commands)
  obtain ⟨revision', hrevision', happly⟩ := @applyAll_eq_executeAll blake3 e
    ((firstSeen blake3 e.state (throughFirstSeen blake3 e.state k commands)).map Prod.snd)
    (by rw [hsame, hlength]; omega)
  rw [hsame, hlength] at hrevision'
  rw [happly, executeAll_firstSeen, Subtype.ext (hrevision'.trans hrevision.symm)]

/-! ## Engines with one history -/

/-- Timelines of the same pools that are all exact stand for the same slack. -/
theorem same_of_indexExact {s t : EngineState} (hs : s.IndexExact) (ht : t.IndexExact)
    (h : s.unindexed = t.unindexed) : s.Same t := by
  have hpools : s.unindexed.resourcePools = t.unindexed.resourcePools :=
    congrArg EngineState.resourcePools h
  replace hpools : s.resourcePools = t.resourcePools := hpools
  have hstate : t = { s with slackTimelines := t.slackTimelines } := by
    show t = { s.unindexed with slackTimelines := t.slackTimelines }
    rw [h]
    rfl
  have husage (id : ResourcePoolId) (at_ : Timestamp) : t.usageAt id at_ = s.usageAt id at_ := by
    rw [hstate]
    rfl
  refine ⟨t.slackTimelines, hstate, fun id => ?_⟩
  cases hpool : s.resourcePools[id]? with
  | none =>
    have hnone := OrderedMap.not_mem_iff_lookup.mpr hpool
    rw [OrderedMap.not_mem_iff_lookup.mp (mt (hs.pools id).mp hnone),
      OrderedMap.not_mem_iff_lookup.mp (mt (ht.pools id).mp (hpools ▸ hnone))]
    exact .none
  | some pool =>
    have hmem := OrderedMap.mem_iff_lookup.mpr ⟨pool, hpool⟩
    obtain ⟨tl, htl⟩ := OrderedMap.mem_iff_lookup.mp ((hs.pools id).mpr hmem)
    obtain ⟨tl', htl'⟩ := OrderedMap.mem_iff_lookup.mp ((ht.pools id).mpr (hpools ▸ hmem))
    rw [htl, htl']
    refine .some ⟨hs.wellFormed id tl htl, ht.wellFormed id tl' htl', fun at_ => ?_⟩
    rw [hs.exact id pool tl hpool htl, ht.exact id pool tl' (hpools ▸ hpool) htl', husage]

/-- Two engines with one history have the same slack. -/
theorem HistoryIs.same {history : List TimestampedTransition} {e f : Engine}
    (he : HistoryIs blake3 history e) (hf : HistoryIs blake3 history f) : e.Same f := by
  have heq : e.unindexed = f.unindexed := Except.ok.inj (he.installed.symm.trans hf.installed)
  exact ⟨same_of_indexExact he.sound.index hf.sound.index (congrArg Engine.state heq),
    (congrArg Engine.publicationRevision heq).symm⟩

/-! ## Executed histories -/

variable (blake3) in
/-- Executing the commands of the history on an empty engine gives its answers and leads to an engine
that has this history. -/
def ExecutedHistory (history : List TimestampedTransition) (e : Engine) : Prop :=
  applyAll blake3 .empty (issued history) = (answered history, e) ∧ HistoryIs blake3 history e

/-- The first items of a group that an engine with this history has prepared, however many, continue
the execution. -/
theorem ExecutedHistory.part {history : List TimestampedTransition} {executed e : Engine}
    (h : ExecutedHistory blake3 history executed) (he : HistoryIs blake3 history e)
    {commands : List (Command × Timestamp)} {prepared : PreparedBatch}
    (hprepared : prepareBatch blake3 e commands = .ok prepared)
    (hrestores : ∀ entry ∈ firstSeen blake3 e.state commands,
      ¬RestoresPool blake3 e.state entry.1 entry.2.1 entry.2.2) {k : Nat}
    (hk : k ≤ prepared.durableItems.length) :
    ∃ executed', ExecutedHistory blake3 (history ++ prepared.durableItems.take k) executed' := by
  obtain ⟨hrun, hhistory⟩ := h
  have hnext := he.part hprepared hrestores hk
  obtain ⟨hitems, hleft⟩ := prepareBatch_counts hprepared
  rw [hitems, List.length_map] at hk
  have hgroup := applyAll_firstSeen hleft hk
  have htaken : prepared.durableItems.take k =
      ((firstSeen blake3 e.state commands).take k).map (itemOf blake3 e.state) := by
    rw [hitems, List.map_take]
  obtain ⟨hanswers, hsame⟩ := @applyAll_same blake3 _ _ (hhistory.same he)
    (((firstSeen blake3 e.state commands).take k).map Prod.snd)
  rw [hgroup] at hanswers hsame
  dsimp only at hanswers hsame
  obtain ⟨⟨timelines, hstate, -⟩, hrevision⟩ := hsame
  have hall : applyAll blake3 .empty (issued (history ++ prepared.durableItems.take k)) =
      (answered (history ++ prepared.durableItems.take k),
        (applyAll blake3 executed (((firstSeen blake3 e.state commands).take k).map Prod.snd)).2) := by
    rw [issued_append, answered_append, applyAll_append, hrun, htaken, issued_itemOf,
      answered_itemOf, hanswers]
  have hreachable : Reachable blake3
      (applyAll blake3 .empty (issued (history ++ prepared.durableItems.take k))).2 :=
    ReachableBy.applyAll .empty fun _ _ => trivial
  rw [hall] at hreachable
  refine ⟨_, hall, ?_, hreachable.sound⟩
  rw [hnext.installed, unindexed, unindexed, hstate, hrevision]
  rfl

/-! ## Recorded answers -/

variable (blake3) in
/-- The items of the history are those of commands under their own identities, all different. -/
structure HistoryNamed (history : List TimestampedTransition) : Prop where
  named : ItemsNamed blake3 history
  distinct : (history.map itemAccepted).Pairwise fun a b => a.1.identity ≠ b.1.identity

/-- The records of an engine are the answers of its history. -/
theorem HistoryIs.records {history : List TimestampedTransition} {e : Engine}
    (h : HistoryIs blake3 history e) (hnamed : HistoryNamed blake3 history) :
    e.state.idempotencyRecords = recordAccepted blake3 ∅ (history.map itemAccepted) :=
  installAll_records hnamed.named h.installed

/-- The record of a command of the history. -/
theorem HistoryIs.lookup_record {history : List TimestampedTransition} {e : Engine}
    (h : HistoryIs blake3 history e) (hnamed : HistoryNamed blake3 history)
    {item : TimestampedTransition} (hitem : item ∈ history) :
    e.state.idempotencyRecords[item.transition.command.identity]? =
      some (acceptedRecord blake3 (itemAccepted item)) := by
  rw [h.records hnamed]
  exact lookup_recordAccepted hnamed.distinct (List.mem_map_of_mem hitem) ∅

/-- The first items of a group, however many, have new identities. -/
theorem HistoryNamed.part {history : List TimestampedTransition} {e : Engine}
    (h : HistoryNamed blake3 history) (he : HistoryIs blake3 history e)
    {commands : List (Command × Timestamp)} {prepared : PreparedBatch}
    (hprepared : prepareBatch blake3 e commands = .ok prepared) (k : Nat) :
    HistoryNamed blake3 (history ++ prepared.durableItems.take k) := by
  obtain ⟨hnamed, haccepted⟩ := prepareBatch_items hprepared
  obtain ⟨hdistinct, hnew⟩ := @groupAccepted_distinct blake3 e.state commands
  rw [← haccepted] at hdistinct hnew
  constructor
  · intro item hitem
    rcases List.mem_append.mp hitem with hitem | hitem
    · exact h.named item hitem
    · exact hnamed item (List.mem_of_mem_take hitem)
  · rw [List.map_append, List.map_take]
    refine List.pairwise_append.mpr
      ⟨h.distinct, hdistinct.sublist (List.take_sublist _ _), fun a ha b hb hidentity => ?_⟩
    obtain ⟨item, hitem, rfl⟩ := List.mem_map.mp ha
    have hlookup := he.lookup_record h hitem
    have habsent := hnew b (List.mem_of_mem_take hb)
    rw [← hidentity] at habsent
    have hcontains := OrderedMap.contains_iff.mpr (OrderedMap.mem_iff_lookup.mpr ⟨_, hlookup⟩)
    exact absurd (hcontains.symm.trans habsent) (by simp)

/-! ## Groups with a repeated command -/

end Engine

end PromiseDb
