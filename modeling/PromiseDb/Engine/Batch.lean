import PromiseDb.Engine.References

/-!
# Prepared batches

A batch executes its commands in order on one copy of the state: a command whose identity is
cached is answered from the cache, every other command is executed once.  The durable items are
the effects of the commands that were executed, each compared with the state before the batch.
-/

namespace PromiseDb

open EngineState

namespace Engine

variable (blake3 : List UInt8 → CommandHash)

/-! ## The commands of a batch, one after another -/

/-- Executes a command on a state, or answers it from the cache. -/
def executeCommand (s : EngineState) (command : Command) (now : Timestamp) :
    CommandResponse × EngineState :=
  match s.idempotencyRecords[command.identity]? with
  | some record => (cachedResponse record (hashOperation blake3 command.operation), s)
  | none => executeOnce blake3 s command now

/-- Executes commands one after another. -/
def executeAll (s : EngineState) :
    List (Command × Timestamp) → List CommandResponse × EngineState
  | [] => ([], s)
  | (command, now) :: rest =>
    let (response, s') := executeCommand blake3 s command now
    let (responses, s'') := executeAll s' rest
    (response :: responses, s'')

/-- The commands that are executed, each with the state that it is executed on. -/
def firstSeen (s : EngineState) :
    List (Command × Timestamp) → List (EngineState × Command × Timestamp)
  | [] => []
  | (command, now) :: rest =>
    match s.idempotencyRecords[command.identity]? with
    | some _ => firstSeen s rest
    | none => (s, command, now) :: firstSeen (executeOnce blake3 s command now).2 rest

/-- The durable effects of a command executed on a state of a batch. -/
def transitionOf (base s : EngineState) (command : Command) (now : Timestamp) :
    DurableTransition where
  command
  clientId := command.clientId
  idempotencyKey := command.idempotencyKey
  commandHash := hashOperation blake3 command.operation
  response := (executeOnce blake3 s command now).1
  resourcePools := changedPools base (executeOnce blake3 s command now).2
  promises := changedPromises base (executeOnce blake3 s command now).2
  events := (executeOnce blake3 s command now).2.events.drop s.events.length
  finalSequence := (executeOnce blake3 s command now).2.sequence

/-- The durable item of an executed command. -/
def itemOf (base : EngineState) (entry : EngineState × Command × Timestamp) :
    TimestampedTransition :=
  ⟨entry.2.2, transitionOf blake3 base entry.1 entry.2.1 entry.2.2⟩

variable {blake3}

/-- Preparing commands executes them in order and collects their responses and effects. -/
theorem foldl_prepareCommand (base : EngineState) (commands : List (Command × Timestamp))
    (p : Preparation) :
    commands.foldl (prepareCommand blake3 base) p =
      ⟨(executeAll blake3 p.candidate commands).2,
        p.responses ++ (executeAll blake3 p.candidate commands).1,
        p.durableItems ++ (firstSeen blake3 p.candidate commands).map (itemOf blake3 base)⟩ := by
  induction commands generalizing p with
  | nil =>
    rw [executeAll, firstSeen, List.map_nil, List.append_nil, List.append_nil]
    rfl
  | cons entry rest ih =>
    obtain ⟨command, now⟩ := entry
    rw [List.foldl_cons, ih, prepareCommand, executeAll, firstSeen, executeCommand]
    cases hrecord : p.candidate.idempotencyRecords[command.identity]? with
    | some record => simp only [List.append_assoc, List.singleton_append]
    | none =>
      simp only [List.append_assoc, List.singleton_append, List.map_cons]
      rfl

/-- Every command is answered. -/
theorem length_executeAll (s : EngineState) (commands : List (Command × Timestamp)) :
    (executeAll blake3 s commands).1.length = commands.length := by
  induction commands generalizing s with
  | nil => rfl
  | cons entry rest ih =>
    obtain ⟨command, now⟩ := entry
    rw [executeAll]
    exact congrArg Nat.succ (ih _)

/-- What an accepted batch consists of. -/
theorem prepareBatch_eq_ok {e : Engine} {commands : List (Command × Timestamp)}
    {prepared : PreparedBatch} (h : prepareBatch blake3 e commands = .ok prepared) :
    prepared.responses = (executeAll blake3 e.state commands).1 ∧
      prepared.durableItems = (firstSeen blake3 e.state commands).map (itemOf blake3 e.state) ∧
      (commands ≠ [] → prepared.candidate = some (executeAll blake3 e.state commands).2) := by
  unfold prepareBatch at h
  split at h
  · rename_i hnil
    obtain rfl := Except.ok.inj h
    subst hnil
    exact ⟨rfl, rfl, fun hne => absurd rfl hne⟩
  · split at h
    · cases h
    · obtain rfl := Except.ok.inj h
      rw [foldl_prepareCommand]
      exact ⟨List.nil_append _, List.nil_append _, fun _ => rfl⟩

/-! ## Facts about every executed command -/

/-- A property that executing a command keeps holds of every state of a batch. -/
theorem firstSeen_invariant {P : EngineState → Prop}
    (hstep : ∀ s command now, P s → P (executeOnce blake3 s command now).2)
    {commands : List (Command × Timestamp)} {s : EngineState} (hs : P s) :
    ∀ entry ∈ firstSeen blake3 s commands, P entry.1 := by
  induction commands generalizing s with
  | nil =>
    intro entry hentry
    cases hentry
  | cons first rest ih =>
    obtain ⟨command, now⟩ := first
    intro entry hentry
    rw [firstSeen] at hentry
    split at hentry
    · exact ih hs entry hentry
    · rcases List.mem_cons.mp hentry with rfl | hentry
      · exact hs
      · exact ih (hstep s command now hs) entry hentry

/-- The executed commands are commands of the batch, in order. -/
theorem firstSeen_sublist (s : EngineState) (commands : List (Command × Timestamp)) :
    ((firstSeen blake3 s commands).map fun entry => entry.2).Sublist commands := by
  induction commands generalizing s with
  | nil => exact .refl []
  | cons first rest ih =>
    obtain ⟨command, now⟩ := first
    rw [firstSeen]
    split
    · exact (ih s).cons _
    · exact (ih _).cons_cons _

/-- An identity is cached after a command if it was cached before or is that of the command. -/
theorem executeOnce_contains (s : EngineState) (command : Command) (now : Timestamp)
    (identity : Identity) :
    (executeOnce blake3 s command now).2.idempotencyRecords.contains identity = true ↔
      command.identity = identity ∨ s.idempotencyRecords.contains identity = true := by
  rw [executeOnce_snd, applyOnce_records, OrderedMap.contains_iff, OrderedMap.contains_iff]
  exact OrderedMap.mem_insert_iff

/-- Counting the identities that are not cached counts the commands that will be executed. -/
theorem size_foldl_identities {s : EngineState} (commands : List (Command × Timestamp))
    {s' : EngineState} {identities : OrderedMap Identity CommandHash}
    (h : ∀ identity, s'.idempotencyRecords.contains identity = true ↔
      s.idempotencyRecords.contains identity = true ∨ identities.contains identity = true) :
    (commands.foldl (fun (identities : OrderedMap Identity CommandHash) entry =>
      if s.idempotencyRecords.contains entry.1.identity || identities.contains entry.1.identity then
        identities
      else identities.insert entry.1.identity (hashOperation blake3 entry.1.operation))
      identities).size = identities.size + (firstSeen blake3 s' commands).length := by
  induction commands generalizing s' identities with
  | nil => rfl
  | cons entry rest ih =>
    obtain ⟨command, now⟩ := entry
    rw [List.foldl_cons, firstSeen]
    have hcached := h command.identity
    dsimp only
    cases hrecord : s'.idempotencyRecords[command.identity]? with
    | some record =>
      have hmem : s'.idempotencyRecords.contains command.identity = true :=
        OrderedMap.contains_iff.mpr (OrderedMap.mem_iff_lookup.mpr ⟨record, hrecord⟩)
      rw [if_pos (Bool.or_eq_true_iff.mpr (hcached.mp hmem))]
      exact ih h
    | none =>
      have hmem : ¬s'.idempotencyRecords.contains command.identity = true :=
        mt OrderedMap.contains_iff.mp (OrderedMap.not_mem_iff_lookup.mpr hrecord)
      have hor := mt hcached.mpr hmem
      rw [if_neg (mt Bool.or_eq_true_iff.mp hor)]
      rw [@ih (executeOnce blake3 s' command now).2]
      · rw [Std.ExtTreeMap.size_insert, if_neg fun hin => hor (.inr hin), List.length_cons]
        omega
      · intro identity
        rw [executeOnce_contains, h, OrderedMap.contains_iff, OrderedMap.contains_iff,
          OrderedMap.contains_iff, OrderedMap.mem_insert_iff]
        exact or_left_comm

/-- The revision of a batch counts the commands that are executed. -/
theorem size_newIdentities (s : EngineState) (commands : List (Command × Timestamp)) :
    (newIdentities blake3 s commands).size = (firstSeen blake3 s commands).length := by
  have hcount := @size_foldl_identities blake3 s commands s ∅ fun identity => by simp
  rw [Std.ExtTreeMap.size_empty, Nat.zero_add] at hcount
  exact hcount

/-- An accepted batch goes from the current revision to the one after its executed commands. -/
theorem prepareBatch_revision {e : Engine} {commands : List (Command × Timestamp)}
    {prepared : PreparedBatch} (h : prepareBatch blake3 e commands = .ok prepared) :
    prepared.baseRevision = e.publicationRevision ∧
      prepared.nextRevision.val =
        e.publicationRevision.val + (firstSeen blake3 e.state commands).length := by
  unfold prepareBatch at h
  split at h
  · rename_i hnil
    obtain rfl := Except.ok.inj h
    subst hnil
    exact ⟨rfl, (add_zero _).symm⟩
  · split at h
    · cases h
    · rename_i next hnext
      obtain rfl := Except.ok.inj h
      rw [← size_newIdentities]
      exact ⟨rfl, (BoundedInt.ofInt?_eq_some.mp hnext).symm⟩

end Engine

namespace EngineState

/-! ## What the execution of a command adds -/

/-- A transition appends events that carry its timestamp and a later sequence. -/
theorem Transition.added {now : Timestamp} {change : Change} {s s' : EngineState}
    (h : Transition now change s s') :
    s.sequence < s'.sequence ∧ ∃ added, s'.events = s.events ++ added ∧
      ∀ e ∈ added, e.timestamp = now ∧ s.sequence < e.sequence := by
  have hlater {seq : SequenceNumber} (next : s.sequence.next = .ok seq) : s.sequence < seq := by
    have hnext := SequenceNumber.next_eq_ok.mp next
    show s.sequence.get.val < seq.get.val
    omega
  have hone (e : Event) (he : e.timestamp = now ∧ s.sequence < e.sequence) :
      ∀ e' ∈ [e], e'.timestamp = now ∧ s.sequence < e'.sequence := by
    intro e' he'
    rw [List.mem_singleton.mp he']
    exact he
  cases h with
  | expire promise next expired restored =>
    exact ⟨hlater next, _, rfl, hone _ ⟨rfl, hlater next⟩⟩
  | createPool absent next built => exact ⟨hlater next, _, rfl, hone _ ⟨rfl, hlater next⟩⟩
  | revise present next indexed before rebuilt after =>
    refine ⟨hlater next, _, rfl, ?_⟩
    intro e he
    rcases List.mem_cons.mp he with rfl | he
    · exact ⟨rfl, hlater next⟩
    · rcases List.mem_append.mp he with he | he
      · obtain ⟨d, -, rfl⟩ := List.mem_map.mp he
        exact ⟨rfl, hlater next⟩
      · obtain ⟨d, -, rfl⟩ := List.mem_map.mp he
        exact ⟨rfl, hlater next⟩
  | hold absent next created admitted => exact ⟨hlater next, _, rfl, hone _ ⟨rfl, hlater next⟩⟩
  | commit promise next committed => exact ⟨hlater next, _, rfl, hone _ ⟨rfl, hlater next⟩⟩
  | release promise next released restored =>
    exact ⟨hlater next, _, rfl, hone _ ⟨rfl, hlater next⟩⟩
  | replace promise next replaced givenBack admitted =>
    exact ⟨hlater next, _, rfl, hone _ ⟨rfl, hlater next⟩⟩

/-- An operation appends events that carry its timestamp and later sequences. -/
theorem applyOnce_added (operation : CommandOperation) (now : Timestamp) (s : EngineState) :
    s.sequence ≤ (applyOnce operation now s).finalState.sequence ∧
    ∃ added, (applyOnce operation now s).finalState.events = s.events ++ added ∧
      ∀ e ∈ added, e.timestamp = now ∧ s.sequence < e.sequence := by
  refine applyOnce_invariant (Q := fun _ => True)
    (P := fun s' => s.sequence ≤ s'.sequence ∧ ∃ added, s'.events = s.events ++ added ∧
      ∀ e ∈ added, e.timestamp = now ∧ s.sequence < e.sequence)
    (fun _ => trivial) (fun _ _ _ => trivial) ?_
    ⟨le_rfl, [], (List.append_nil _).symm, fun e he => by cases he⟩
  rintro change s₁ s₂ - ⟨hle, added, hevents, hadded⟩ hstep
  obtain ⟨hlt, more, hmore, hmoreadded⟩ := hstep.added
  refine ⟨hle.trans hlt.le, added ++ more, by rw [hmore, hevents, List.append_assoc], ?_⟩
  intro e he
  rcases List.mem_append.mp he with he | he
  · exact hadded e he
  · exact ⟨(hmoreadded e he).1, hle.trans_lt (hmoreadded e he).2⟩

/-- The facts about a state that make its effects durable. -/
structure Sound (s : EngineState) : Prop where
  index : s.IndexExact
  references : s.References
  log : s.EventLog
  records : s.RecordsNamed

end EngineState

namespace Engine

variable {blake3 : List UInt8 → CommandHash}

/-- Executing a command keeps a state sound. -/
theorem sound_executeOnce {s : EngineState} (h : s.Sound) (command : Command) (now : Timestamp) :
    (executeOnce blake3 s command now).2.Sound := by
  have hkeep {P : EngineState → Prop}
      (hstep : ∀ change s s', P s → Transition now change s s' → P s')
      (hrecords : ∀ s records, P s → P { s with idempotencyRecords := records }) (hs : P s) :
      P (executeOnce blake3 s command now).2 :=
    executeOnce_invariant (Q := fun _ => True) (fun _ => trivial) (fun _ _ _ => trivial)
      (fun change s s' _ => hstep change s s') hrecords hs
  refine ⟨?_, ?_, ?_, recordsNamed_executeOnce h.index h.records command now⟩
  · exact hkeep (fun _ _ _ hs => hs.transition) (fun _ records hs => hs.records records) h.index
  · exact hkeep (fun _ _ _ hs => hs.transition) (fun _ records hs => hs.records records)
      h.references
  · refine hkeep (fun _ _ _ hs => hs.transition) (fun _ _ hs => ?_) h.log
    exact ⟨hs.complete, hs.groups, fun id p hp => ⟨(hs.histories id p hp).history,
      (hs.histories id p hp).first, (hs.histories id p hp).last⟩, hs.silent⟩

/-- Every reachable state is sound. -/
theorem Reachable.sound {e : Engine} (h : Reachable blake3 e) : e.state.Sound :=
  ⟨h.indexExact, h.references, h.eventLog, h.recordsNamed⟩

/-- Executing a command appends events that carry its timestamp and later sequences. -/
theorem executeOnce_added (s : EngineState) (command : Command) (now : Timestamp) :
    s.sequence ≤ (executeOnce blake3 s command now).2.sequence ∧
    ∃ added, (executeOnce blake3 s command now).2.events = s.events ++ added ∧
      ∀ e ∈ added, e.timestamp = now ∧ s.sequence < e.sequence := by
  rw [executeOnce_snd]
  exact applyOnce_added command.operation now s

/-- The events of a durable transition are those that the command adds. -/
theorem transitionOf_events (base s : EngineState) (command : Command) (now : Timestamp) :
    (executeOnce blake3 s command now).2.events =
        s.events ++ (transitionOf blake3 base s command now).events ∧
      ∀ e ∈ (transitionOf blake3 base s command now).events,
        e.timestamp = now ∧ s.sequence < e.sequence := by
  obtain ⟨-, added, hadded, hall⟩ := @executeOnce_added blake3 s command now
  rw [transitionOf, hadded, List.drop_left]
  exact ⟨rfl, hall⟩

end Engine

end PromiseDb
