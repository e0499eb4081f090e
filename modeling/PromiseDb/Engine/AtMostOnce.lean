import PromiseDb.Engine.GroupReplay

/-!
# At most one effect

A client that does not know whether its command was executed sends it again, with the same identity.
The engine keeps the response to every command that it has accepted, also when the response is an
error, and looks it up before anything else.  Here the records are followed through direct commands,
published groups, captures and recoveries: each accepted command stays recorded, no identity is
accepted twice, and a command that repeats an identity is answered from the record and changes
nothing.
-/

namespace PromiseDb

open EngineState

namespace Engine

variable (blake3 : List UInt8 → CommandHash)

/-! ## Accepted commands -/

/-- A command that was executed, with its response. -/
abbrev Accepted := Command × CommandResponse

/-- The record of an accepted command. -/
def acceptedRecord (a : Accepted) : IdempotencyRecord :=
  ⟨hashOperation blake3 a.1.operation, a.2⟩

/-- The records of accepted commands, on top of others. -/
def recordAccepted (records : OrderedMap Identity IdempotencyRecord) (accepted : List Accepted) :
    OrderedMap Identity IdempotencyRecord :=
  OrderedMap.insertAll (fun a => a.1.identity) (acceptedRecord blake3) records accepted

/-- The command of a durable item is accepted. -/
def itemAccepted (item : TimestampedTransition) : Accepted :=
  (item.transition.command, item.transition.response)

/-- The commands that a group executes. -/
def groupAccepted (s : EngineState) (commands : List (Command × Timestamp)) : List Accepted :=
  (firstSeen blake3 s commands).map fun entry =>
    (entry.2.1, (executeOnce blake3 entry.1 entry.2.1 entry.2.2).1)

variable {blake3}

/-- The durable items of a group are those of the commands that it executes. -/
theorem map_itemAccepted (base s : EngineState) (commands : List (Command × Timestamp)) :
    ((firstSeen blake3 s commands).map (itemOf blake3 base)).map itemAccepted =
      groupAccepted blake3 s commands := by
  rw [List.map_map]
  rfl

/-- Executing a command records it. -/
theorem executeOnce_records (s : EngineState) (command : Command) (now : Timestamp) :
    (executeOnce blake3 s command now).2.idempotencyRecords = recordAccepted blake3
      s.idempotencyRecords [(command, (executeOnce blake3 s command now).1)] := by
  rw [executeOnce_snd, applyOnce_records]
  rfl

/-- Two lists are recorded one after the other. -/
theorem recordAccepted_append (records : OrderedMap Identity IdempotencyRecord)
    (l r : List Accepted) : recordAccepted blake3 records (l ++ r) =
      recordAccepted blake3 (recordAccepted blake3 records l) r :=
  OrderedMap.insertAll_append records l r

/-- A group records the commands that it executes. -/
theorem executeAll_records (s : EngineState) (commands : List (Command × Timestamp)) :
    (executeAll blake3 s commands).2.idempotencyRecords =
      recordAccepted blake3 s.idempotencyRecords (groupAccepted blake3 s commands) := by
  induction commands generalizing s with
  | nil => rfl
  | cons entry rest ih =>
    obtain ⟨command, now⟩ := entry
    cases hrecord : s.idempotencyRecords[command.identity]? with
    | some record =>
      rw [executeAll_cached hrecord, groupAccepted, firstSeen_cached hrecord]
      exact ih s
    | none =>
      rw [executeAll_new hrecord, groupAccepted, firstSeen_new hrecord, List.map_cons, ih,
        executeOnce_records]
      rfl

/-- The identities that a group executes are new to it and different from one another. -/
theorem groupAccepted_distinct (s : EngineState) (commands : List (Command × Timestamp)) :
    (groupAccepted blake3 s commands).Pairwise (fun a b => a.1.identity ≠ b.1.identity) ∧
      ∀ a ∈ groupAccepted blake3 s commands,
        s.idempotencyRecords.contains a.1.identity = false := by
  induction commands generalizing s with
  | nil => exact ⟨.nil, fun a ha => by cases ha⟩
  | cons entry rest ih =>
    obtain ⟨command, now⟩ := entry
    cases hrecord : s.idempotencyRecords[command.identity]? with
    | some record =>
      rw [groupAccepted, firstSeen_cached hrecord]
      exact ih s
    | none =>
      obtain ⟨hdistinct, hnew⟩ := ih (executeOnce blake3 s command now).2
      rw [groupAccepted, firstSeen_new hrecord, List.map_cons]
      have hlater (a : Accepted)
          (ha : a ∈ groupAccepted blake3 (executeOnce blake3 s command now).2 rest) :
          command.identity ≠ a.1.identity ∧
            s.idempotencyRecords.contains a.1.identity = false := by
        have hcontains := mt (executeOnce_contains s command now a.1.identity).mpr
          (Bool.eq_false_iff.mp (hnew a ha))
        rw [not_or] at hcontains
        exact ⟨hcontains.1, Bool.eq_false_iff.mpr hcontains.2⟩
      refine ⟨List.pairwise_cons.mpr ⟨fun a ha => (hlater a ha).1, hdistinct⟩, ?_⟩
      intro a ha
      rcases List.mem_cons.mp ha with rfl | ha
      · rw [Bool.eq_false_iff, ne_eq, OrderedMap.contains_iff]
        exact OrderedMap.not_mem_iff_lookup.mpr hrecord
      · exact (hlater a ha).2

/-! ## Recovery -/

/-- The records that installing items leads to. -/
theorem installAll_records {e e' : Engine} {items : List TimestampedTransition}
    (hitems : ∀ item ∈ items, item.transition.clientId = item.transition.command.clientId ∧
      item.transition.idempotencyKey = item.transition.command.idempotencyKey ∧
      item.transition.commandHash = hashOperation blake3 item.transition.command.operation)
    (h : installAll blake3 e items = .ok e') :
    e'.state.idempotencyRecords =
      recordAccepted blake3 e.state.idempotencyRecords (items.map itemAccepted) := by
  induction items generalizing e with
  | nil =>
    obtain rfl : e = e' := Except.ok.inj h
    rfl
  | cons item rest ih =>
    rw [installAll, List.foldlM_cons] at h
    obtain ⟨e₁, hinstall, hrest⟩ := Except.bind_eq_ok.mp h
    obtain ⟨pools, promises, revision, -, -, -, -, -, -, rfl⟩ := installTransition_ok hinstall
    obtain ⟨hclient, hkey, hhash⟩ := hitems item List.mem_cons_self
    rw [ih (fun item hitem => hitems item (List.mem_cons_of_mem _ hitem)) hrest, hclient, hkey,
      hhash]
    rfl

/-- A restored state has the records that were captured. -/
theorem restore_records {e restored : Engine}
    (h : restoreSnapshotUnindexed (captureSnapshot e) = .ok restored) :
    restored.state.idempotencyRecords = e.state.idempotencyRecords := by
  obtain ⟨pools, promises, records, -, -, -, -, hrecords, rfl⟩ := restoreSnapshotUnindexed_ok h
  have hvalid := restoreRecords_ok hrecords
  have hinserted := restoreRecords_eq (capturedRecords_sorted e.state.idempotencyRecords)
    (fun k (hk : k ∈ none) => by cases hk) hvalid ∅
  have hsame := Except.ok.inj (hrecords.symm.trans hinserted)
  exact hsame.trans (insertAll_capturedRecords e.state.idempotencyRecords)

/-- Rebuilding the timelines does not touch the records. -/
theorem rebuild_records {e rebuilt : Engine} (h : rebuildSlackTimelines e = .ok rebuilt) :
    rebuilt.state.idempotencyRecords = e.state.idempotencyRecords := by
  obtain ⟨timelines, -, h⟩ := Except.bind_eq_ok.mp h
  obtain rfl := Except.ok.inj h
  rfl

variable (blake3)

/-- Recovers an engine from a capture and durable items. -/
def recover (snapshot : EngineSnapshot) (items : List TimestampedTransition) :
    Except InstallError Engine := do
  let restored ← restoreSnapshotUnindexed snapshot
  let installed ← installAll blake3 restored items
  rebuildSlackTimelines installed

/-- An engine in use, with what it can be recovered from and the commands accepted so far. -/
structure Session where
  /-- The engine in use. -/
  live : Engine
  /-- The last engine that was captured. -/
  captured : Engine
  /-- The durable items since then. -/
  log : List TimestampedTransition
  /-- The commands accepted so far, in order. -/
  accepted : List Accepted

/-- The session of a new engine. -/
def Session.start : Session := ⟨.empty, .empty, [], []⟩

/-- The command that is accepted when a command is applied, if any. -/
def newlyAccepted (e : Engine) (command : Command) (now : Timestamp) : List Accepted :=
  if e.state.idempotencyRecords.contains command.identity ∨ e.nextRevision = none then []
  else [(command, (apply blake3 e command now).1)]

/-- What can happen in a session. -/
inductive Session.Next : Session → Session → Prop
  /-- A command is applied directly.  It leaves no durable item, so that the engine is captured for
  later recoveries. -/
  | apply {session : Session} (command : Command) (now : Timestamp) :
      Session.Next session
        { live := (apply blake3 session.live command now).2
          captured := (apply blake3 session.live command now).2
          log := []
          accepted := session.accepted ++ newlyAccepted blake3 session.live command now }
  /-- A group is prepared and published. -/
  | publish {session : Session} {commands : List (Command × Timestamp)} {prepared : PreparedBatch}
      (prepares : prepareBatch blake3 session.live commands = .ok prepared) :
      Session.Next session
        { live := (publishBatch session.live prepared).2
          captured := session.captured
          log := session.log ++ prepared.durableItems
          accepted := session.accepted ++ prepared.durableItems.map itemAccepted }
  /-- The engine is captured. -/
  | capture {session : Session} :
      Session.Next session { session with captured := session.live, log := [] }
  /-- The engine is recovered from the capture and the durable items.  A group may be interrupted,
  so that some of its items are durable although it was never published. -/
  | recover {session : Session} {commands : List (Command × Timestamp)} {prepared : PreparedBatch}
      {recovered : Engine} (k : Nat)
      (prepares : prepareBatch blake3 session.live commands = .ok prepared)
      (recovers : recover blake3 (captureSnapshot session.captured)
        (session.log ++ prepared.durableItems.take k) = .ok recovered) :
      Session.Next session
        { live := recovered
          captured := session.captured
          log := session.log ++ prepared.durableItems.take k
          accepted := session.accepted ++ (prepared.durableItems.take k).map itemAccepted }

/-- The sessions that can come about. -/
inductive Session.Reached : Session → Prop
  | start : Session.Reached .start
  | next {session session' : Session} (h : Session.Reached session)
      (step : Session.Next blake3 session session') : Session.Reached session'

/-- The durable items are those of commands under their own identities. -/
def ItemsNamed (items : List TimestampedTransition) : Prop :=
  ∀ item ∈ items, item.transition.clientId = item.transition.command.clientId ∧
    item.transition.idempotencyKey = item.transition.command.idempotencyKey ∧
    item.transition.commandHash = hashOperation blake3 item.transition.command.operation

/-- The records agree with the accepted commands, and so does what can be recovered. -/
structure Session.Recorded (session : Session) : Prop where
  /-- The records are those of the accepted commands. -/
  live : session.live.state.idempotencyRecords = recordAccepted blake3 ∅ session.accepted
  /-- No identity is accepted twice. -/
  distinct : session.accepted.Pairwise fun a b => a.1.identity ≠ b.1.identity
  /-- The capture and the durable items have the same records. -/
  durable : session.live.state.idempotencyRecords = recordAccepted blake3
    session.captured.state.idempotencyRecords (session.log.map itemAccepted)
  /-- The durable items can be installed under the identities of their commands. -/
  named : ItemsNamed blake3 session.log

variable {blake3}

/-- The record of an accepted command. -/
theorem lookup_recordAccepted {accepted : List Accepted}
    (h : accepted.Pairwise fun a b => a.1.identity ≠ b.1.identity) {a : Accepted}
    (ha : a ∈ accepted) (records : OrderedMap Identity IdempotencyRecord) :
    (recordAccepted blake3 records accepted)[a.1.identity]? = some (acceptedRecord blake3 a) :=
  OrderedMap.lookup_insertAll_of_mem h records ha

/-- Newly accepted commands with new identities keep the identities distinct. -/
theorem Session.Recorded.distinct_append {session : Session} (h : session.Recorded blake3)
    {new : List Accepted} (hnew : new.Pairwise fun a b => a.1.identity ≠ b.1.identity)
    (habsent : ∀ a ∈ new, session.live.state.idempotencyRecords.contains a.1.identity = false) :
    (session.accepted ++ new).Pairwise fun a b => a.1.identity ≠ b.1.identity := by
  refine List.pairwise_append.mpr ⟨h.distinct, hnew, ?_⟩
  intro a ha b hb heq
  have hlookup : session.live.state.idempotencyRecords[a.1.identity]? =
      some (acceptedRecord blake3 a) := by
    rw [h.live]
    exact lookup_recordAccepted h.distinct ha ∅
  have hcontains := OrderedMap.contains_iff.mpr (OrderedMap.mem_iff_lookup.mpr ⟨_, hlookup⟩)
  rw [heq, habsent b hb] at hcontains
  cases hcontains

/-- What applying a command adds to the records. -/
theorem apply_records (e : Engine) (command : Command) (now : Timestamp) :
    (apply blake3 e command now).2.state.idempotencyRecords =
      recordAccepted blake3 e.state.idempotencyRecords (newlyAccepted blake3 e command now) ∧
    ∀ a ∈ newlyAccepted blake3 e command now,
      e.state.idempotencyRecords.contains a.1.identity = false := by
  unfold newlyAccepted
  obtain ⟨record, hrecord, happly⟩ | ⟨hnew, hnone, happly⟩ | ⟨next, hnew, hnext, happly⟩ :=
    @apply_cases blake3 e command now
  · have hcontains := OrderedMap.contains_iff.mpr (OrderedMap.mem_iff_lookup.mpr ⟨_, hrecord⟩)
    rw [if_pos (.inl hcontains), happly]
    exact ⟨rfl, fun a ha => by cases ha⟩
  · rw [if_pos (.inr hnone), happly]
    exact ⟨rfl, fun a ha => by cases ha⟩
  · have habsent : e.state.idempotencyRecords.contains command.identity = false := by
      rw [Bool.eq_false_iff, ne_eq, OrderedMap.contains_iff]
      exact OrderedMap.not_mem_iff_lookup.mpr hnew
    rw [if_neg (by rw [habsent, hnext]; simp), happly]
    refine ⟨executeOnce_records e.state command now, ?_⟩
    intro a ha
    rw [List.mem_singleton.mp ha]
    exact habsent

/-- The durable items of a group are those of new commands under their own identities. -/
theorem prepareBatch_items {e : Engine} {commands : List (Command × Timestamp)}
    {prepared : PreparedBatch} (h : prepareBatch blake3 e commands = .ok prepared) :
    ItemsNamed blake3 prepared.durableItems ∧
      prepared.durableItems.map itemAccepted = groupAccepted blake3 e.state commands := by
  obtain ⟨-, hitems, -⟩ := prepareBatch_eq_ok h
  rw [hitems]
  refine ⟨?_, map_itemAccepted _ _ _⟩
  intro item hitem
  obtain ⟨entry, -, rfl⟩ := List.mem_map.mp hitem
  exact ⟨rfl, rfl, rfl⟩

/-- Whatever happens, the records agree with the accepted commands. -/
theorem Session.Recorded.next {session session' : Session} (h : session.Recorded blake3)
    (step : Session.Next blake3 session session') : session'.Recorded blake3 := by
  cases step with
  | apply command now =>
    obtain ⟨hrecords, habsent⟩ := @apply_records blake3 session.live command now
    refine ⟨?_, h.distinct_append ?_ habsent, rfl, fun item hitem => by cases hitem⟩
    · rw [recordAccepted_append, ← h.live]
      exact hrecords
    · unfold newlyAccepted
      split
      · exact .nil
      · exact List.pairwise_singleton _ _
  | @publish commands prepared prepares =>
    obtain ⟨hnamed, hitems⟩ := prepareBatch_items prepares
    obtain ⟨hdistinct, habsent⟩ := groupAccepted_distinct session.live.state commands
    obtain ⟨revision, -, hpublished⟩ := publishBatch_eq prepares
    have hrecords := @executeAll_records blake3 session.live.state commands
    refine ⟨?_, ?_, ?_, ?_⟩
    · rw [hitems, recordAccepted_append, ← h.live, hpublished]
      exact hrecords
    · rw [hitems]
      exact h.distinct_append hdistinct habsent
    · rw [List.map_append, hitems, recordAccepted_append, ← h.durable, hpublished]
      exact hrecords
    · intro item hitem
      rcases List.mem_append.mp hitem with hitem | hitem
      · exact h.named item hitem
      · exact hnamed item hitem
  | capture => exact ⟨h.live, h.distinct, rfl, fun item hitem => by cases hitem⟩
  | @recover commands prepared recovered k prepares recovers =>
    obtain ⟨hnamed, hitems⟩ := prepareBatch_items prepares
    obtain ⟨hdistinct, habsent⟩ := groupAccepted_distinct session.live.state commands
    rw [← hitems] at hdistinct habsent
    have hnamed' : ItemsNamed blake3 (session.log ++ prepared.durableItems.take k) := by
      intro item hitem
      rcases List.mem_append.mp hitem with hitem | hitem
      · exact h.named item hitem
      · exact hnamed item (List.mem_of_mem_take hitem)
    obtain ⟨restored, hrestored, recovers⟩ := Except.bind_eq_ok.mp recovers
    obtain ⟨installed, hinstalled, hrebuilt⟩ := Except.bind_eq_ok.mp recovers
    have hrecords : recovered.state.idempotencyRecords = recordAccepted blake3
        session.captured.state.idempotencyRecords
          ((session.log ++ prepared.durableItems.take k).map itemAccepted) := by
      rw [rebuild_records hrebuilt, installAll_records hnamed' hinstalled,
        restore_records hrestored]
    refine ⟨?_, ?_, hrecords, hnamed'⟩
    · rw [recordAccepted_append, ← h.live, h.durable, ← recordAccepted_append, ← List.map_append]
      exact hrecords
    · rw [List.map_take]
      exact h.distinct_append (hdistinct.sublist (List.take_sublist k _))
        fun a ha => habsent a (List.mem_of_mem_take ha)

/-- The records agree with the accepted commands in every session. -/
theorem Session.Reached.recorded {session : Session} (h : session.Reached blake3) :
    session.Recorded blake3 := by
  induction h with
  | start => exact ⟨rfl, .nil, rfl, fun item hitem => by cases hitem⟩
  | next _ step ih => exact ih.next step

/-! ## Repeated commands -/

variable (blake3)

/-- The answer to a command that repeats the identity of an accepted one. -/
def answerTo (a : Accepted) (command : Command) : CommandResponse :=
  if hashOperation blake3 command.operation = hashOperation blake3 a.1.operation then a.2
  else .error .idempotencyConflict

variable {blake3}

/-- The answer is the one that the record gives. -/
theorem cachedResponse_acceptedRecord (a : Accepted) (command : Command) :
    cachedResponse (acceptedRecord blake3 a) (hashOperation blake3 command.operation) =
      answerTo blake3 a command := by
  unfold cachedResponse answerTo acceptedRecord
  by_cases h : hashOperation blake3 command.operation = hashOperation blake3 a.1.operation
  · rw [if_pos h, if_neg (not_not_intro h.symm)]
  · rw [if_neg h, if_pos (Ne.symm h)]

/-- Executing one group after another. -/
theorem executeAll_append (s : EngineState) (l r : List (Command × Timestamp)) :
    executeAll blake3 s (l ++ r) =
      ((executeAll blake3 s l).1 ++ (executeAll blake3 (executeAll blake3 s l).2 r).1,
        (executeAll blake3 (executeAll blake3 s l).2 r).2) := by
  induction l generalizing s with
  | nil => rfl
  | cons entry rest ih =>
    obtain ⟨command, now⟩ := entry
    rw [List.cons_append, executeAll, executeAll]
    dsimp only
    rw [ih]
    rfl

/-- The commands that are executed in one group after another. -/
theorem firstSeen_append (s : EngineState) (l r : List (Command × Timestamp)) :
    firstSeen blake3 s (l ++ r) =
      firstSeen blake3 s l ++ firstSeen blake3 (executeAll blake3 s l).2 r := by
  induction l generalizing s with
  | nil => rfl
  | cons entry rest ih =>
    obtain ⟨command, now⟩ := entry
    rw [List.cons_append]
    cases hrecord : s.idempotencyRecords[command.identity]? with
    | some record =>
      rw [firstSeen_cached hrecord, firstSeen_cached hrecord, executeAll_cached hrecord, ih]
    | none =>
      rw [firstSeen_new hrecord, firstSeen_new hrecord, executeAll_new hrecord, ih]
      rfl

/-- A command of a group whose identity is recorded before it is answered from the record, and
everything else is as in the group without it. -/
theorem prepareBatch_repeated {e : Engine} {before after : List (Command × Timestamp)}
    {command : Command} {now : Timestamp} {prepared : PreparedBatch} {record : IdempotencyRecord}
    (hrecord : (executeAll blake3 e.state before).2.idempotencyRecords[command.identity]? =
      some record)
    (h : prepareBatch blake3 e (before ++ (command, now) :: after) = .ok prepared) :
    ∃ without, prepareBatch blake3 e (before ++ after) = .ok without ∧
      prepared.responses = without.responses.take before.length ++
        cachedResponse record (hashOperation blake3 command.operation) ::
          without.responses.drop before.length ∧
      prepared.durableItems = without.durableItems ∧
      prepared.nextRevision = without.nextRevision ∧
      (publishBatch e prepared).2 = (publishBatch e without).2 := by
  have hsame : firstSeen blake3 e.state (before ++ (command, now) :: after) =
      firstSeen blake3 e.state (before ++ after) := by
    rw [firstSeen_append, firstSeen_append, firstSeen_cached hrecord]
  have hstate : (executeAll blake3 e.state (before ++ (command, now) :: after)).2 =
      (executeAll blake3 e.state (before ++ after)).2 := by
    rw [executeAll_append, executeAll_append]
    exact executeAll_cached hrecord now after
  obtain ⟨hresponses, hitems, -⟩ := prepareBatch_eq_ok h
  obtain ⟨-, hrevision⟩ := prepareBatch_revision h
  rw [hsame] at hrevision
  have hleft : e.publicationRevision.val +
      (firstSeen blake3 e.state (before ++ after)).length ≤ lastRevision := by
    rw [← hrevision]
    exact prepared.nextRevision.property.2
  obtain ⟨without, hwithout⟩ := exists_prepareBatch hleft
  obtain ⟨hresponses', hitems', -⟩ := prepareBatch_eq_ok hwithout
  obtain ⟨-, hrevision'⟩ := prepareBatch_revision hwithout
  obtain ⟨published, hpublished, heq⟩ := publishBatch_eq h
  obtain ⟨published', hpublished', heq'⟩ := publishBatch_eq hwithout
  rw [hsame] at hpublished
  refine ⟨without, hwithout, ?_, ?_, Subtype.ext (hrevision.trans hrevision'.symm), ?_⟩
  · have hlength := @length_executeAll blake3 e.state before
    rw [hresponses, hresponses', executeAll_append, executeAll_append, ← hlength, List.take_left,
      List.drop_left, executeAll, executeCommand, hrecord]
  · rw [hitems, hitems', hsame]
  · rw [heq, heq', hstate, Subtype.ext (hpublished.trans hpublished'.symm)]

/-- In every session no identity is accepted twice.  A later command with the identity of an
accepted one is given its answer and leaves the engine as it is; in a group it leaves no durable
item and makes no difference to the other commands, whether the first command was accepted before
the group or in it. -/
theorem at_most_once {session : Session} (h : session.Reached blake3) :
    session.accepted.Pairwise (fun a b => a.1.identity ≠ b.1.identity) ∧
    (∀ a ∈ session.accepted, ∀ command : Command, command.identity = a.1.identity → ∀ now,
      apply blake3 session.live command now = (answerTo blake3 a command, session.live)) ∧
    ∀ before command now after prepared,
      prepareBatch blake3 session.live (before ++ (command, now) :: after) = .ok prepared →
      ∀ a ∈ session.accepted ++ groupAccepted blake3 session.live.state before,
      command.identity = a.1.identity →
      ∃ without, prepareBatch blake3 session.live (before ++ after) = .ok without ∧
        prepared.responses = without.responses.take before.length ++
          answerTo blake3 a command :: without.responses.drop before.length ∧
        prepared.durableItems = without.durableItems ∧
        prepared.nextRevision = without.nextRevision ∧
        (publishBatch session.live prepared).2 = (publishBatch session.live without).2 := by
  have hrecorded := h.recorded
  refine ⟨hrecorded.distinct, ?_, ?_⟩
  · intro a ha command hidentity now
    have hlookup : session.live.state.idempotencyRecords[command.identity]? =
        some (acceptedRecord blake3 a) := by
      rw [hrecorded.live, hidentity]
      exact lookup_recordAccepted hrecorded.distinct ha ∅
    rw [← cachedResponse_acceptedRecord, apply, hlookup]
  · intro before command now after prepared hprepared a ha hidentity
    obtain ⟨hdistinct, habsent⟩ := @groupAccepted_distinct blake3 session.live.state before
    have hlookup : (executeAll blake3 session.live.state before).2.idempotencyRecords[
        command.identity]? = some (acceptedRecord blake3 a) := by
      rw [executeAll_records, hrecorded.live, ← recordAccepted_append, hidentity]
      exact lookup_recordAccepted (hrecorded.distinct_append hdistinct habsent) ha ∅
    rw [← cachedResponse_acceptedRecord]
    exact prepareBatch_repeated hlookup hprepared

/-- The sample commands are published; then the hold is sent again. -/
theorem at_most_once_sample :
    ∃ session : Session, session.Reached sampleHash ∧ ∃ a ∈ session.accepted,
      a.1.identity = sampleHold.identity ∧ apply sampleHash session.live sampleHold (sampleTime 70) =
        (answerTo sampleHash a sampleHold, session.live) := by
  have hrevision : Engine.empty.publicationRevision.val +
      (firstSeen sampleHash Engine.empty.state sampleCommands).length ≤ lastRevision := by
    decide +kernel
  obtain ⟨prepared, hprepared⟩ := exists_prepareBatch hrevision
  have hreached := Session.Reached.start.next (.publish hprepared)
  have hlast : (groupAccepted sampleHash Engine.empty.state sampleCommands).map
      (fun a => a.1.identity) = [sampleCreate.identity, sampleHold.identity] := by
    decide +kernel
  rw [← (prepareBatch_items hprepared).2] at hlast
  obtain ⟨a, ha, hidentity⟩ := List.mem_map.mp
    (hlast ▸ List.mem_cons_of_mem _ List.mem_cons_self : sampleHold.identity ∈ _)
  have hmem : a ∈ Session.start.accepted ++ prepared.durableItems.map itemAccepted :=
    List.mem_append_right _ ha
  exact ⟨_, hreached, a, hmem, hidentity,
    (at_most_once hreached).2.1 a hmem sampleHold hidentity.symm (sampleTime 70)⟩

end Engine

end PromiseDb
