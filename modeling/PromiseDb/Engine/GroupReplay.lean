import PromiseDb.Engine.Publishing
import PromiseDb.Engine.Restore

/-!
# Replaying a group

Recovery installs the durable items of a group one after another, and a crash may leave only some of
them.  The values in an item are those that differ from the state before the whole group.  A promise
that has changed never becomes what it was, since its version grows.  A pool can: when one command
of a group revises its capacity and a later one gives it back the curve that it had before the
group, the item of the later command does not mention the pool, and the replay keeps the curve in
between.  Groups in which this does not happen are replayed exactly.
-/

namespace PromiseDb

namespace EngineState

/-! ## What the commands of a group keep -/

/-- A later state of the same pools and promises. -/
structure Updates (s s' : EngineState) : Prop where
  /-- A pool keeps everything but its curve. -/
  pools : ∀ (id : ResourcePoolId) (pool : ResourcePool), s.resourcePools[id]? = some pool →
    ∃ curve, s'.resourcePools[id]? = some { pool with capacityCurve := curve }
  /-- A promise stays as it is or has a later version. -/
  promises : ∀ (id : PromiseId) (p : Promise), s.promises[id]? = some p →
    ∃ p', s'.promises[id]? = some p' ∧ (p' = p ∨ p.version.get.val < p'.version.get.val)

/-- A state follows from itself. -/
theorem Updates.refl (s : EngineState) : s.Updates s :=
  ⟨fun _ pool h => ⟨pool.capacityCurve, h⟩, fun _ p h => ⟨p, h, .inl rfl⟩⟩

/-- Following from a state is transitive. -/
theorem Updates.trans {s s' s'' : EngineState} (h : s.Updates s') (h' : s'.Updates s'') :
    s.Updates s'' := by
  constructor
  · intro id pool hpool
    obtain ⟨curve, hcurve⟩ := h.pools id pool hpool
    obtain ⟨curve', hcurve'⟩ := h'.pools id _ hcurve
    exact ⟨curve', hcurve'⟩
  · intro id p hp
    obtain ⟨p', hp', hle⟩ := h.promises id p hp
    obtain ⟨p'', hp'', hle'⟩ := h'.promises id p' hp'
    refine ⟨p'', hp'', ?_⟩
    rcases hle' with rfl | hlt'
    · exact hle
    · rcases hle with rfl | hlt
      · exact .inr hlt'
      · exact .inr (hlt.trans hlt')

/-- What a transition does to the pools: nothing, a new pool, or a new curve of one pool. -/
theorem Transition.pools_cases {now : Timestamp} {change : Change} {s s' : EngineState}
    (h : Transition now change s s') :
    s'.resourcePools = s.resourcePools ∨
    (∃ pool, pool.id ∉ s.resourcePools ∧
      s'.resourcePools = s.resourcePools.insert pool.id pool) ∨
    ∃ outcome id pool curve, change = .revise outcome ∧ s.resourcePools[id]? = some pool ∧
      s'.resourcePools = s.resourcePools.insert id { pool with capacityCurve := curve } := by
  cases h with
  | createPool absent next built => exact .inr (.inl ⟨_, absent, rfl⟩)
  | revise present next indexed before rebuilt after =>
    exact .inr (.inr ⟨_, _, _, _, rfl, present, rfl⟩)
  | expire promise next expired restored => exact .inl rfl
  | hold absent next created admitted => exact .inl rfl
  | commit promise next committed => exact .inl rfl
  | release promise next released restored => exact .inl rfl
  | replace promise next replaced givenBack admitted => exact .inl rfl

/-- A transition leads to a later state of the same pools and promises. -/
theorem Transition.updates {now : Timestamp} {change : Change} {s s' : EngineState}
    (h : Transition now change s s') : s.Updates s' := by
  constructor
  · intro id pool hpool
    rcases h.pools_cases with heq | ⟨new, habsent, heq⟩ | ⟨outcome, id', old, curve, -, hold, heq⟩
    · rw [heq]
      exact ⟨pool.capacityCurve, hpool⟩
    · have hne : new.id ≠ id := by
        rintro rfl
        exact habsent (OrderedMap.mem_iff_lookup.mpr ⟨pool, hpool⟩)
      rw [heq, OrderedMap.lookup_insert_of_ne _ hne]
      exact ⟨pool.capacityCurve, hpool⟩
    · rw [heq, OrderedMap.lookup_insert]
      by_cases hid : id' = id
      · subst hid
        obtain rfl : old = pool := Option.some.inj (hold.symm.trans hpool)
        exact ⟨curve, if_pos rfl⟩
      · rw [if_neg hid]
        exact ⟨pool.capacityCurve, hpool⟩
  · intro id p hp
    cases h.writes with
    | @promise id' p' timelines seq kind next write =>
      by_cases heq : id' = id
      · subst heq
        refine ⟨p', OrderedMap.lookup_insert_self _ _ _, .inr ?_⟩
        cases write with
        | created absent _ _ _ _ _ => exact absurd (OrderedMap.mem_iff_lookup.mpr ⟨p, hp⟩) absent
        | @advanced q _ present advances _ _ _ _ =>
          obtain rfl : p = q := Option.some.inj (hp.symm.trans present)
          have hversion := advances.version_eq
          omega
      · exact ⟨p, (OrderedMap.lookup_insert_of_ne _ heq _).trans hp, .inl rfl⟩
    | pool next write audits => exact ⟨p, hp, .inl rfl⟩

/-- Expirations do not touch the pools. -/
theorem Expirations.pools {now : Timestamp} {s s' : EngineState} (h : Expirations now s s') :
    s'.resourcePools = s.resourcePools := by
  refine h.invariant (P := fun s' => s'.resourcePools = s.resourcePools) ?_ rfl
  intro s₁ s₂ id hs hstep
  cases hstep with
  | expire promise next expired restored => exact hs

/-- A revision fails and leaves the pools, or it gives its pool the curve. -/
theorem applyOnce_revise {id : ResourcePoolId} {curve : CapacityCurve}
    {mode : CapacityRevisionMode} {now : Timestamp} {s : EngineState}
    {r : EStateM.Result DomainError EngineState CommandResult}
    (h : applyOnce (.reviseCapacity id curve mode) now s = r) :
    (∃ error s', r = .error error s' ∧ s'.resourcePools = s.resourcePools) ∨
    ∃ result s' pool, r = .ok result s' ∧ s.resourcePools[id]? = some pool ∧
      s'.resourcePools = s.resourcePools.insert id { pool with capacityCurve := curve } := by
  have hexpired := (processExpirations_spec now s).pools
  rw [applyOnce] at h
  rcases map_cases h with ⟨e, s', hx, rfl⟩ | ⟨a, s', hx, rfl⟩ <;>
    obtain ⟨s₁, rfl, ⟨e', he⟩ | ⟨outcome, s₂, he, -, -, pool, hpool, hpools⟩⟩ :=
      reviseCapacityAt_cases hx <;> cases he
  · exact .inl ⟨_, _, rfl, hexpired⟩
  · rw [hexpired] at hpool hpools
    exact .inr ⟨_, _, pool, rfl, hpool, hpools⟩

/-- What an operation does to the pools: nothing, a new pool, or, when it is an accepted revision,
the curve of the operation for its pool. -/
theorem applyOnce_pools {operation : CommandOperation} {now : Timestamp} {s : EngineState}
    {r : EStateM.Result DomainError EngineState CommandResult} (h : applyOnce operation now s = r) :
    r.finalState.resourcePools = s.resourcePools ∨
    (∃ pool, pool.id ∉ s.resourcePools ∧
      r.finalState.resourcePools = s.resourcePools.insert pool.id pool) ∨
    ∃ id curve mode pool result s', operation = .reviseCapacity id curve mode ∧
      r = .ok result s' ∧ s.resourcePools[id]? = some pool ∧
      s'.resourcePools = s.resourcePools.insert id { pool with capacityCurve := curve } := by
  by_cases hrevise : ∃ id curve mode, operation = .reviseCapacity id curve mode
  · obtain ⟨id, curve, mode, rfl⟩ := hrevise
    rcases applyOnce_revise h with ⟨e, s', rfl, hpools⟩ | ⟨result, s', pool, rfl, hpool, hpools⟩
    · exact .inl hpools
    · exact .inr (.inr ⟨id, curve, mode, pool, result, s', rfl, rfl, hpool, hpools⟩)
  · obtain ⟨s₁, hs₁, hcompletes⟩ := applyOnce_cases h
    have hpools := hs₁.pools
    cases hcompletes with
    | failed error => exact .inl hpools
    | declined hdeclined => exact .inl hpools
    | @accepted change result s' hstep answers =>
      rw [← hpools]
      rcases hstep.pools_cases with heq | hnew | ⟨outcome, id, pool, curve, rfl, -⟩
      · exact .inl heq
      · exact .inr (.inl hnew)
      · cases answers
        exact absurd ⟨_, _, _, rfl⟩ hrevise

end EngineState

open EngineState

namespace Engine

variable {blake3 : List UInt8 → CommandHash}

/-- A command leads to a later state of the same pools and promises. -/
theorem executeOnce_updates (s : EngineState) (command : Command) (now : Timestamp) :
    s.Updates (executeOnce blake3 s command now).2 :=
  executeOnce_invariant (Q := fun _ => True) (fun _ => trivial) (fun _ _ _ => trivial)
    (fun _ _ _ _ hs hstep => hs.trans hstep.updates) (fun _ _ hs => ⟨hs.pools, hs.promises⟩)
    (Updates.refl s)

/-- Whether a command is an accepted revision that gives a pool, which has changed since a base
state, the curve that it has in the base state. -/
def RestoresPool (blake3 : List UInt8 → CommandHash) (base s : EngineState) (command : Command)
    (now : Timestamp) : Prop :=
  ∃ id curve mode, command.operation = .reviseCapacity id curve mode ∧
    (∃ result, (executeOnce blake3 s command now).1 = .ok result) ∧
    (∃ pool, base.resourcePools[id]? = some pool ∧ pool.capacityCurve = curve) ∧
    s.resourcePools[id]? ≠ base.resourcePools[id]?

/-- The first command of a group gives no pool a curve back. -/
theorem not_restoresPool_self (s : EngineState) (command : Command) (now : Timestamp) :
    ¬RestoresPool blake3 s s command now := by
  rintro ⟨id, curve, mode, -, -, -, hchanged⟩
  exact hchanged rfl

/-- The pools that are after a command as in a base state were so already before the command,
unless the command gives one of them its old curve back. -/
theorem poolsCovered_iff {base s : EngineState} (h : base.Updates s) {command : Command}
    {now : Timestamp} :
    (∀ id : ResourcePoolId, base.resourcePools[id]? =
        (executeOnce blake3 s command now).2.resourcePools[id]? →
      s.resourcePools[id]? = (executeOnce blake3 s command now).2.resourcePools[id]?) ↔
    ¬RestoresPool blake3 base s command now := by
  have hstate : (executeOnce blake3 s command now).2.resourcePools =
      (applyOnce command.operation now s).finalState.resourcePools := by
    rw [executeOnce_snd]
  rw [hstate]
  constructor
  · rintro hcovered ⟨id, curve, mode, hoperation, ⟨result, hok⟩, ⟨pool, hbase, rfl⟩, hchanged⟩
    rw [executeOnce_fst, hoperation] at hok
    rw [hoperation] at hcovered
    rcases applyOnce_revise (r := applyOnce (.reviseCapacity id pool.capacityCurve mode) now s) rfl
      with ⟨error, s', hrun, -⟩ | ⟨result', s', pool', hrun, hpool', hpools⟩
    · rw [hrun] at hok
      cases hok
    · -- the pool has its name and unit since the base state, so it is the old pool again
      obtain ⟨curve', hcurve'⟩ := h.pools id pool hbase
      obtain rfl := Option.some.inj (hpool'.symm.trans hcurve')
      have hafter : s'.resourcePools[id]? = some pool := by
        rw [hpools, OrderedMap.lookup_insert_self]
      rw [hrun] at hcovered
      have hsame := hcovered id (hbase.trans hafter.symm)
      exact hchanged (hsame.trans (hafter.trans hbase.symm))
  · intro hrestores id hid
    rcases applyOnce_pools (r := applyOnce command.operation now s) rfl with
      heq | ⟨new, habsent, heq⟩ | ⟨id', curve, mode, pool', result, s', hoperation, hrun, hpool', heq⟩
    · rw [heq]
    · have hne : new.id ≠ id := by
        rintro rfl
        rw [heq, OrderedMap.lookup_insert_self] at hid
        obtain ⟨curve, hcurve⟩ := h.pools new.id new hid
        exact habsent (OrderedMap.mem_iff_lookup.mpr ⟨_, hcurve⟩)
      rw [heq, OrderedMap.lookup_insert_of_ne _ hne]
    · rw [hrun, EStateM.Result.finalState_ok, heq] at hid ⊢
      by_cases hne : id' = id
      · subst hne
        rw [OrderedMap.lookup_insert_self] at hid ⊢
        by_contra hchanged
        refine hrestores ⟨id', curve, mode, hoperation, ⟨result, ?_⟩, ⟨_, hid, rfl⟩, ?_⟩
        · rw [executeOnce_fst, hrun]
        · rwa [hid]
      · rw [OrderedMap.lookup_insert_of_ne _ hne]

/-- The promises that are after a command as in a base state were so already before it. -/
theorem promisesCovered {base s : EngineState} (h : base.Updates s) (command : Command)
    (now : Timestamp) (id : PromiseId)
    (hid : base.promises[id]? = (executeOnce blake3 s command now).2.promises[id]?) :
    s.promises[id]? = (executeOnce blake3 s command now).2.promises[id]? := by
  have hstep := @executeOnce_updates blake3 s command now
  cases hp : s.promises[id]? with
  | none =>
    cases hbase : base.promises[id]? with
    | none => rw [← hid, hbase]
    | some p =>
      obtain ⟨p', hp', -⟩ := h.promises id p hbase
      rw [hp] at hp'
      cases hp'
  | some p =>
    obtain ⟨p', hp', hlater⟩ := hstep.promises id p hp
    rcases hlater with rfl | hlater
    · exact hp'.symm
    · obtain ⟨q, hq, hearlier⟩ := h.promises id p' (hid.trans hp')
      obtain rfl : p = q := Option.some.inj (hp.symm.trans hq)
      rcases hearlier with rfl | hearlier
      · exact hp'.symm
      · omega

/-! ## Prefixes of a group -/

variable (blake3)

/-- The commands of a group up to and including the one that is the `k`-th to be executed. -/
def throughFirstSeen (s : EngineState) :
    Nat → List (Command × Timestamp) → List (Command × Timestamp)
  | 0, _ => []
  | _ + 1, [] => []
  | k + 1, (command, now) :: rest =>
    (command, now) ::
      match s.idempotencyRecords[command.identity]? with
      | some _ => throughFirstSeen s (k + 1) rest
      | none => throughFirstSeen (executeOnce blake3 s command now).2 k rest

variable {blake3}

/-- Before the first new command there is nothing to execute. -/
@[simp] theorem throughFirstSeen_zero (s : EngineState) (commands : List (Command × Timestamp)) :
    throughFirstSeen blake3 s 0 commands = [] := by
  rw [throughFirstSeen]

/-- A cached command does not count. -/
theorem throughFirstSeen_cached {s : EngineState} {command : Command} {record : IdempotencyRecord}
    (h : s.idempotencyRecords[command.identity]? = some record) (k : Nat) (now : Timestamp)
    (rest : List (Command × Timestamp)) :
    throughFirstSeen blake3 s (k + 1) ((command, now) :: rest) =
      (command, now) :: throughFirstSeen blake3 s (k + 1) rest := by
  rw [throughFirstSeen, h]

/-- A command that is executed counts. -/
theorem throughFirstSeen_new {s : EngineState} {command : Command}
    (h : s.idempotencyRecords[command.identity]? = none) (k : Nat) (now : Timestamp)
    (rest : List (Command × Timestamp)) :
    throughFirstSeen blake3 s (k + 1) ((command, now) :: rest) = (command, now) ::
      throughFirstSeen blake3 (executeOnce blake3 s command now).2 k rest := by
  rw [throughFirstSeen, h]

/-- A command whose identity is known is not new. -/
theorem firstSeen_cached {s : EngineState} {command : Command} {record : IdempotencyRecord}
    (h : s.idempotencyRecords[command.identity]? = some record) (now : Timestamp)
    (rest : List (Command × Timestamp)) :
    firstSeen blake3 s ((command, now) :: rest) = firstSeen blake3 s rest := by
  rw [firstSeen, h]

/-- A command whose identity is not known is new. -/
theorem firstSeen_new {s : EngineState} {command : Command}
    (h : s.idempotencyRecords[command.identity]? = none) (now : Timestamp)
    (rest : List (Command × Timestamp)) :
    firstSeen blake3 s ((command, now) :: rest) = (s, command, now) ::
      firstSeen blake3 (executeOnce blake3 s command now).2 rest := by
  rw [firstSeen, h]

/-- A command whose identity is known is not executed. -/
theorem executeAll_cached {s : EngineState} {command : Command} {record : IdempotencyRecord}
    (h : s.idempotencyRecords[command.identity]? = some record) (now : Timestamp)
    (rest : List (Command × Timestamp)) :
    (executeAll blake3 s ((command, now) :: rest)).2 = (executeAll blake3 s rest).2 := by
  rw [executeAll, executeCommand, h]

/-- A command whose identity is not known is executed. -/
theorem executeAll_new {s : EngineState} {command : Command}
    (h : s.idempotencyRecords[command.identity]? = none) (now : Timestamp)
    (rest : List (Command × Timestamp)) :
    (executeAll blake3 s ((command, now) :: rest)).2 =
      (executeAll blake3 (executeOnce blake3 s command now).2 rest).2 := by
  rw [executeAll, executeCommand, h]

/-- A prefix of the group executes a prefix of its commands. -/
theorem firstSeen_through (s : EngineState) (k : Nat) (commands : List (Command × Timestamp)) :
    firstSeen blake3 s (throughFirstSeen blake3 s k commands) =
      (firstSeen blake3 s commands).take k := by
  induction commands generalizing s k with
  | nil => cases k <;> rfl
  | cons entry rest ih =>
    obtain ⟨command, now⟩ := entry
    cases k with
    | zero => rfl
    | succ k =>
      cases hrecord : s.idempotencyRecords[command.identity]? with
      | some record =>
        rw [throughFirstSeen_cached hrecord, firstSeen_cached hrecord, firstSeen_cached hrecord, ih]
      | none =>
        rw [throughFirstSeen_new hrecord, firstSeen_new hrecord, firstSeen_new hrecord, ih,
          List.take_succ_cons]

/-- The state after `k` executed commands is the one on which the next command is executed, and the
next command leads to the state after it. -/
theorem executeAll_through {s : EngineState} {k : Nat} {commands : List (Command × Timestamp)}
    {entry : EngineState × Command × Timestamp}
    (h : (firstSeen blake3 s commands)[k]? = some entry) :
    (executeAll blake3 s (throughFirstSeen blake3 s k commands)).2 = entry.1 ∧
      (executeAll blake3 s (throughFirstSeen blake3 s (k + 1) commands)).2 =
        (executeOnce blake3 entry.1 entry.2.1 entry.2.2).2 ∧
      entry.1.idempotencyRecords[entry.2.1.identity]? = none := by
  induction commands generalizing s k with
  | nil => cases h
  | cons first rest ih =>
    obtain ⟨command, now⟩ := first
    cases hrecord : s.idempotencyRecords[command.identity]? with
    | some record =>
      rw [firstSeen_cached hrecord] at h
      obtain ⟨hbefore, hafter, hnew⟩ := ih h
      rw [throughFirstSeen_cached hrecord, executeAll_cached hrecord]
      refine ⟨?_, hafter, hnew⟩
      cases k with
      | zero => rwa [throughFirstSeen_zero] at hbefore ⊢
      | succ k => rwa [throughFirstSeen_cached hrecord, executeAll_cached hrecord]
    | none =>
      rw [firstSeen_new hrecord] at h
      rw [throughFirstSeen_new hrecord, executeAll_new hrecord]
      cases k with
      | zero =>
        obtain rfl : _ = entry := Option.some.inj h
        rw [throughFirstSeen_zero, throughFirstSeen_zero]
        exact ⟨rfl, rfl, hrecord⟩
      | succ k =>
        obtain ⟨hbefore, hafter, hnew⟩ := ih (List.getElem?_cons_succ ▸ h)
        rw [throughFirstSeen_new hrecord, executeAll_new hrecord]
        exact ⟨hbefore, hafter, hnew⟩

/-- The whole group ends in the state after its last executed command. -/
theorem executeAll_through_length (s : EngineState) (commands : List (Command × Timestamp)) :
    (executeAll blake3 s
      (throughFirstSeen blake3 s (firstSeen blake3 s commands).length commands)).2 =
      (executeAll blake3 s commands).2 := by
  induction commands generalizing s with
  | nil => rfl
  | cons entry rest ih =>
    obtain ⟨command, now⟩ := entry
    cases hrecord : s.idempotencyRecords[command.identity]? with
    | some record =>
      rw [firstSeen_cached hrecord, executeAll_cached hrecord, ← ih]
      cases (firstSeen blake3 s rest).length with
      | zero => rw [throughFirstSeen_zero, throughFirstSeen_zero]
      | succ k => rw [throughFirstSeen_cached hrecord, executeAll_cached hrecord]
    | none =>
      rw [firstSeen_new hrecord, List.length_cons, throughFirstSeen_new hrecord,
        executeAll_new hrecord, executeAll_new hrecord, ih]

/-! ## Installing a group -/

variable (blake3)

/-- Whether the durable items of a group replay it: installing the first of them, however many,
leads to what the engine had after as many executed commands, without its timelines. -/
def Replays (e : Engine) (commands : List (Command × Timestamp))
    (items : List TimestampedTransition) : Prop :=
  ∀ k ≤ items.length, ∃ installed, installAll blake3 e (items.take k) = .ok installed ∧
    installed.unindexed =
      (applyAll blake3 e (throughFirstSeen blake3 e.state k commands)).2.unindexed

variable {blake3}

/-- Installing does not look at the timelines. -/
theorem installTransition_unindexed (e : Engine) (t : DurableTransition) :
    installTransition blake3 e.unindexed t = installTransition blake3 e t := rfl

/-- One more item is installed after the others. -/
theorem installAll_take_succ {e : Engine} {items : List TimestampedTransition} {k : Nat}
    {item : TimestampedTransition} (h : items[k]? = some item) :
    installAll blake3 e (items.take (k + 1)) =
      installAll blake3 e (items.take k) >>= fun e => installTransition blake3 e item.transition := by
  rw [installAll, List.take_add_one, h, Option.toList_some, List.foldlM_append]
  simp only [List.foldlM_cons, List.foldlM_nil, bind_pure]
  rfl

/-- The engine after the first executed commands of a group, however many. -/
theorem applyAll_through {e : Engine} {commands : List (Command × Timestamp)} {k : Nat}
    (h : e.publicationRevision.val + (firstSeen blake3 e.state commands).length ≤ lastRevision)
    (hk : k ≤ (firstSeen blake3 e.state commands).length) :
    ∃ revision : PublicationRevision, revision.val = e.publicationRevision.val + k ∧
      (applyAll blake3 e (throughFirstSeen blake3 e.state k commands)).2 =
        ⟨(executeAll blake3 e.state (throughFirstSeen blake3 e.state k commands)).2, revision⟩ := by
  have hlength : (firstSeen blake3 e.state
      (throughFirstSeen blake3 e.state k commands)).length = k := by
    rw [firstSeen_through, List.length_take]
    omega
  have hleft : e.publicationRevision.val + (firstSeen blake3 e.state
      (throughFirstSeen blake3 e.state k commands)).length ≤ lastRevision := by
    rw [hlength]
    omega
  obtain ⟨revision, hrevision, happly⟩ := applyAll_eq_executeAll hleft
  rw [hlength] at hrevision
  exact ⟨revision, hrevision, by rw [happly]⟩

/-- Installing the item of a command on what the engine had before it. -/
theorem install_next {e installed : Engine} (h : e.state.Sound)
    {commands : List (Command × Timestamp)} {k : Nat}
    {entry : EngineState × Command × Timestamp}
    (hleft : e.publicationRevision.val + (firstSeen blake3 e.state commands).length ≤ lastRevision)
    (hentry : (firstSeen blake3 e.state commands)[k]? = some entry)
    (hinstalled : installed.unindexed =
      (applyAll blake3 e (throughFirstSeen blake3 e.state k commands)).2.unindexed) :
    (∃ after, installTransition blake3 installed (itemOf blake3 e.state entry).transition =
        .ok after ∧
      after.unindexed =
        (applyAll blake3 e (throughFirstSeen blake3 e.state (k + 1) commands)).2.unindexed) ↔
      ¬RestoresPool blake3 e.state entry.1 entry.2.1 entry.2.2 := by
  have hk : k < (firstSeen blake3 e.state commands).length := by
    obtain ⟨hk, -⟩ := List.getElem?_eq_some_iff.mp hentry
    exact hk
  have hmem := List.mem_of_getElem? hentry
  have hsound : entry.1.Sound :=
    firstSeen_invariant (P := Sound) (fun _ _ _ hs => sound_executeOnce hs _ _) h entry hmem
  have hupdates : e.state.Updates entry.1 :=
    firstSeen_invariant (P := e.state.Updates)
      (fun _ _ _ hs => hs.trans (executeOnce_updates _ _ _)) (Updates.refl e.state) entry hmem
  obtain ⟨hbefore, hafter, hnew⟩ := executeAll_through hentry
  obtain ⟨revision, hrevision, hlive⟩ := applyAll_through hleft hk.le
  obtain ⟨next, hnext, hlive'⟩ := applyAll_through hleft (Nat.succ_le_of_lt hk)
  rw [hlive, hbefore] at hinstalled
  rw [hlive', hafter, ← poolsCovered_iff hupdates, ← installTransition_unindexed, hinstalled]
  constructor
  · -- what the item leads to has the pools of the live engine only if it covers them
    rintro ⟨after, hinstall, heq⟩ id hid
    obtain ⟨pools, promises, revision', -, -, hpools, -, -, -, rfl⟩ := installTransition_ok hinstall
    have hsame : pools = (executeOnce blake3 entry.1 entry.2.1 entry.2.2).2.resourcePools :=
      congrArg (fun e : Engine => e.state.resourcePools) heq
    rw [← hsame, hpools]
    refine (OrderedMap.lookup_insertAll_of_ne _ ?_).symm
    rintro pool hpool rfl
    obtain ⟨found, hfound, rfl⟩ := List.mem_map.mp hpool
    obtain ⟨hin, hchanged⟩ := List.mem_filter.mp hfound
    have hlookup := OrderedMap.mem_toList.mp hin
    have hids := (@sound_executeOnce blake3 _ hsound entry.2.1 entry.2.2).references.poolIds
    rw [hids _ _ hlookup] at hid
    exact of_decide_eq_true hchanged (hid.trans hlookup)
  · intro hpools
    have hnextRevision : nextRevision ⟨entry.1.unindexed, revision⟩ = some next := by
      rw [nextRevision_eq_some, hnext]
      show revision.val + 1 = _
      rw [hrevision]
      push_cast
      ring
    refine ⟨_, install_transitionOf hsound hnew ⟨hpools, ?_⟩ hnextRevision, rfl⟩
    exact promisesCovered hupdates entry.2.1 entry.2.2

/-- What the preparation of a group has counted. -/
theorem prepareBatch_counts {e : Engine} {commands : List (Command × Timestamp)}
    {prepared : PreparedBatch} (hprepared : prepareBatch blake3 e commands = .ok prepared) :
    prepared.durableItems = (firstSeen blake3 e.state commands).map (itemOf blake3 e.state) ∧
      e.publicationRevision.val + (firstSeen blake3 e.state commands).length ≤ lastRevision := by
  refine ⟨(prepareBatch_eq_ok hprepared).2.1, ?_⟩
  rw [← (prepareBatch_revision hprepared).2]
  exact prepared.nextRevision.property.2

/-- The durable items of a group on a sound state replay it, prefix by prefix, when no command of
the group gives a pool back the curve that it had before the group. -/
theorem replays_of_sound {e : Engine} (h : e.state.Sound) {commands : List (Command × Timestamp)}
    {prepared : PreparedBatch} (hprepared : prepareBatch blake3 e commands = .ok prepared)
    (hrestores : ∀ entry ∈ firstSeen blake3 e.state commands,
      ¬RestoresPool blake3 e.state entry.1 entry.2.1 entry.2.2) :
    Replays blake3 e commands prepared.durableItems := by
  obtain ⟨hitems, hleft⟩ := prepareBatch_counts hprepared
  rw [hitems]
  intro k
  induction k with
  | zero =>
    intro _
    refine ⟨e, rfl, ?_⟩
    rw [throughFirstSeen_zero]
    rfl
  | succ k ih =>
    intro hk
    obtain ⟨installed, hinstall, hinstalled⟩ := ih (by omega)
    rw [List.length_map] at hk
    have hget := List.getElem?_eq_getElem (l := firstSeen blake3 e.state commands) (i := k)
      (by omega)
    have hitem : ((firstSeen blake3 e.state commands).map (itemOf blake3 e.state))[k]? =
        some (itemOf blake3 e.state (firstSeen blake3 e.state commands)[k]) := by
      rw [List.getElem?_map, hget, Option.map_some]
    obtain ⟨after, hafter, heq⟩ := (install_next h hleft hget hinstalled).mpr
      (hrestores _ (List.getElem_mem _))
    refine ⟨after, ?_, heq⟩
    rw [installAll_take_succ hitem, hinstall]
    exact hafter

/-- Executing as many first-seen commands as there are leads to what is published. -/
theorem applyAll_through_published {e : Engine} {commands : List (Command × Timestamp)}
    {prepared : PreparedBatch} (hprepared : prepareBatch blake3 e commands = .ok prepared) :
    (applyAll blake3 e (throughFirstSeen blake3 e.state prepared.durableItems.length commands)).2 =
      (publishBatch e prepared).2 := by
  obtain ⟨hitems, hleft⟩ := prepareBatch_counts hprepared
  obtain ⟨revision, hrevision, hpublished⟩ := publishBatch_eq hprepared
  obtain ⟨revision', hrevision', hlive⟩ := applyAll_through hleft le_rfl
  obtain rfl : revision = revision' := Subtype.ext (hrevision.trans hrevision'.symm)
  rw [hitems, List.length_map, hlive, executeAll_through_length, hpublished]

/-- The durable items of a group replay it, prefix by prefix and up to the state that is published,
exactly when no command of the group that is executed gives a pool back the curve that it had before
the group after an earlier command of the group has changed it. -/
theorem group_replays_iff {e : Engine} (h : Reachable blake3 e)
    {commands : List (Command × Timestamp)} {prepared : PreparedBatch}
    (hprepared : prepareBatch blake3 e commands = .ok prepared) :
    (Replays blake3 e commands prepared.durableItems ∧
      ∃ installed, installAll blake3 e prepared.durableItems = .ok installed ∧
        installed.unindexed = (publishBatch e prepared).2.unindexed) ↔
      ∀ entry ∈ firstSeen blake3 e.state commands,
        ¬RestoresPool blake3 e.state entry.1 entry.2.1 entry.2.2 := by
  obtain ⟨hitems, hleft⟩ := prepareBatch_counts hprepared
  constructor
  · rintro ⟨hreplays, -⟩ entry hentry
    have hlength : prepared.durableItems.length = (firstSeen blake3 e.state commands).length := by
      rw [hitems, List.length_map]
    obtain ⟨k, hk, rfl⟩ := List.getElem_of_mem hentry
    have hget := List.getElem?_eq_getElem hk
    have hitem : prepared.durableItems[k]? =
        some (itemOf blake3 e.state (firstSeen blake3 e.state commands)[k]) := by
      rw [hitems, List.getElem?_map, hget, Option.map_some]
    obtain ⟨installed, hinstall, hinstalled⟩ := hreplays k (by omega)
    obtain ⟨after, hafter, heq⟩ := hreplays (k + 1) (by omega)
    rw [installAll_take_succ hitem, hinstall] at hafter
    exact (install_next h.sound hleft hget hinstalled).mp ⟨after, hafter, heq⟩
  · intro hrestores
    have hreplays := replays_of_sound h.sound hprepared hrestores
    refine ⟨hreplays, ?_⟩
    obtain ⟨installed, hinstall, hinstalled⟩ := hreplays prepared.durableItems.length le_rfl
    rw [List.take_length] at hinstall
    exact ⟨installed, hinstall, by rw [hinstalled, applyAll_through_published hprepared]⟩

/-! ## A group that is replayed and one that is not -/

/-- Whether a command is a revision to the curve that its pool has in a base state. -/
def revisesToOld (base : EngineState) (command : Command) : Bool :=
  match command.operation with
  | .reviseCapacity id curve _ =>
    base.resourcePools[id]?.any fun pool => decide (pool.capacityCurve = curve)
  | _ => false

/-- Only such a command gives a pool its curve back. -/
theorem not_restoresPool_of_revisesToOld {base s : EngineState} {command : Command}
    {now : Timestamp} (h : revisesToOld base command = false) :
    ¬RestoresPool blake3 base s command now := by
  rintro ⟨id, curve, mode, hoperation, -, ⟨pool, hpool, hcurve⟩, -⟩
  rw [revisesToOld, hoperation] at h
  dsimp only at h
  rw [hpool, Option.any_some] at h
  exact of_decide_eq_false h hcurve

/-- The capacity of the sample pool in an engine. -/
def sampleCapacity (e : Engine) : Option ℤ :=
  e.state.resourcePools[samplePoolId]?.map fun pool => (pool.capacityAt (sampleTime 3)).val

/-- The sample group is replayed: its first four items lead to the fallen capacity, and all of them
to what is published. -/
theorem group_replays_iff_sample :
    ∃ prepared, prepareBatch sampleHash sampleEngine sampleGroup = .ok prepared ∧
      prepared.durableItems.length = 7 ∧
      (∃ installed, installAll sampleHash sampleEngine (prepared.durableItems.take 4) =
          .ok installed ∧
        installed.unindexed = sampleFallenEngine.unindexed ∧ sampleCapacity installed = some 3) ∧
      ∃ installed, installAll sampleHash sampleEngine prepared.durableItems = .ok installed ∧
        installed.unindexed = (publishBatch sampleEngine prepared).2.unindexed := by
  have hchecked : ((firstSeen sampleHash sampleEngine.state sampleGroup).length,
      (firstSeen sampleHash sampleEngine.state sampleGroup).all fun entry =>
        decide (revisesToOld sampleEngine.state entry.2.1 = false)) = (7, true) := by
    decide +kernel
  obtain ⟨hlength, hrevises⟩ := Prod.mk.inj hchecked
  have hrevision : sampleEngine.publicationRevision.val +
      (firstSeen sampleHash sampleEngine.state sampleGroup).length ≤ lastRevision := by
    rw [hlength]
    decide +kernel
  obtain ⟨prepared, hprepared⟩ := exists_prepareBatch hrevision
  have hitems : prepared.durableItems.length = 7 := by
    rw [(prepareBatch_counts hprepared).1, List.length_map, hlength]
  obtain ⟨hreplays, hall⟩ := (group_replays_iff sampleEngine_reachable hprepared).mpr
    fun entry hentry => not_restoresPool_of_revisesToOld
      (of_decide_eq_true (List.all_eq_true.mp hrevises entry hentry))
  refine ⟨prepared, hprepared, hitems, ?_, hall⟩
  obtain ⟨installed, hinstalled, hsame⟩ := hreplays 4 (by omega)
  have hfour : throughFirstSeen sampleHash sampleEngine.state 4 sampleGroup = sampleFall := by
    decide +kernel
  rw [hfour] at hsame
  refine ⟨installed, hinstalled, hsame, ?_⟩
  have hcapacity : sampleCapacity installed.unindexed =
      sampleCapacity sampleFallenEngine.unindexed := by
    rw [hsame]
    rfl
  have hfallen : sampleCapacity sampleFallenEngine.unindexed = some 3 := by decide +kernel
  exact hcapacity.trans hfallen

/-- Two revisions of the sample pool, there and back. -/
def sampleRevisions : List (Command × Timestamp) :=
  [(sampleRevise "up" 20, sampleTime 2), (sampleRevise "back" 10, sampleTime 2)]

/-- After the group of both revisions the published pool has its old capacity, and the replayed one
the capacity in between. -/
theorem group_not_replayed :
    ∃ prepared installed, Reachable sampleHash sampleEngine ∧
      prepareBatch sampleHash sampleEngine sampleRevisions = .ok prepared ∧
      installAll sampleHash sampleEngine prepared.durableItems = .ok installed ∧
      sampleCapacity installed = some 20 ∧
      sampleCapacity (publishBatch sampleEngine prepared).2 = some 10 ∧
      installed.unindexed ≠ (publishBatch sampleEngine prepared).2.unindexed := by
  have hrun : (prepareBatch sampleHash sampleEngine sampleRevisions).toOption.bind (fun prepared =>
      (installAll sampleHash sampleEngine prepared.durableItems).toOption.map fun installed =>
        (sampleCapacity installed, sampleCapacity (publishBatch sampleEngine prepared).2)) =
      some (some 20, some 10) := by
    decide +kernel
  obtain ⟨prepared, hprepared, hrest⟩ := Option.bind_eq_some_iff.mp hrun
  obtain ⟨installed, hinstalled, hcapacities⟩ := Option.map_eq_some_iff.mp hrest
  obtain ⟨hreplayed, hpublished⟩ := Prod.mk.inj hcapacities
  refine ⟨prepared, installed, sampleEngine_reachable, Except.toOption_eq_some.mp hprepared,
    Except.toOption_eq_some.mp hinstalled, hreplayed, hpublished, ?_⟩
  intro heq
  have hsame : sampleCapacity installed.unindexed =
      sampleCapacity (publishBatch sampleEngine prepared).2.unindexed := by
    rw [heq]
  have hdiffer : some (20 : ℤ) = some 10 := hreplayed.symm.trans (hsame.trans hpublished)
  cases hdiffer

end Engine

end PromiseDb
