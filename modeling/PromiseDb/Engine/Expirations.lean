import PromiseDb.Engine.IndexInvariant

/-!
# Expirations

Every mutating command first expires the holds whose deadline has been reached, one after another
in the order of deadline and identity.  Here is what this loop does: how far it gets when it
fails, that only an exhausted sequence or version can stop it, what it leaves when it succeeds,
and that it does not matter whether it runs once or is split at an earlier timestamp.
-/

namespace PromiseDb

open StepFunction

namespace EngineState

/-! ## The holds that are due -/

/-- A due hold is a held promise whose deadline has been reached. -/
theorem mem_dueHolds {s : EngineState} {now : Timestamp} {due : Timestamp ×ₗ PromiseId} :
    due ∈ s.dueHolds now ↔ ∃ p, s.promises[(ofLex due).2]? = some p ∧
      p.state = .held (ofLex due).1 ∧ (ofLex due).1 ≤ now := by
  rw [dueHolds, List.mem_insertionSort, List.mem_filterMap]
  constructor
  · rintro ⟨e, he, hdue⟩
    have hlookup := OrderedMap.mem_toList.mp he
    dsimp only at hdue
    split at hdue
    · rename_i expiresAt hstate
      split at hdue
      · rename_i hle
        obtain rfl := Option.some.inj hdue
        exact ⟨e.2, hlookup, hstate, hle⟩
      · cases hdue
    · cases hdue
  · rintro ⟨p, hp, hstate, hle⟩
    refine ⟨((ofLex due).2, p), OrderedMap.mem_toList.mpr hp, ?_⟩
    dsimp only
    rw [hstate]
    dsimp only
    rw [if_pos hle]
    rfl

/-- No promise is due twice. -/
theorem dueHolds_ids (s : EngineState) (now : Timestamp) :
    (s.dueHolds now).Pairwise fun a b => (ofLex a).2 ≠ (ofLex b).2 := by
  rw [dueHolds]
  apply (List.perm_insertionSort _ _).symm.pairwise
  · rw [List.pairwise_filterMap]
    refine (OrderedMap.toList_sorted s.promises).imp fun {e e'} hlt due hdue due' hdue' => ?_
    dsimp only at hdue hdue'
    split at hdue
    · split at hdue
      · obtain rfl := Option.some.inj hdue
        split at hdue'
        · split at hdue'
          · obtain rfl := Option.some.inj hdue'
            exact hlt.ne
          · cases hdue'
        · cases hdue'
      · cases hdue
    · cases hdue
  · exact fun h => h.symm

/-- Due holds are ordered by deadline, and by identity where deadlines are equal. -/
theorem dueHolds_sorted (s : EngineState) (now : Timestamp) :
    (s.dueHolds now).Pairwise fun a b => a < b := by
  have hle : (s.dueHolds now).Pairwise fun a b => a ≤ b := List.pairwise_insertionSort _ _
  refine (hle.and (dueHolds_ids s now)).imp fun {a b} h => h.1.lt_of_ne ?_
  exact fun heq => h.2 (congrArg (fun d => (ofLex d).2) heq)

/-! ## How far the loop gets -/

/-- The loop over two lists of holds runs over one after the other. -/
theorem expireHolds_append (now : Timestamp) (count : Nat) (l r : List (Timestamp ×ₗ PromiseId)) :
    expireHolds now count (l ++ r) = expireHolds now count l >>= fun n => expireHolds now n r := by
  induction l generalizing count with
  | nil => rfl
  | cons due l ih =>
    rw [List.cons_append, expireHolds, expireHolds, bind_assoc]
    exact congrArg _ (funext fun _ => ih (count + 1))

/-- A loop that fails has completed the holds before the one that it failed at. -/
theorem expireHolds_error {now : Timestamp} {count : Nat} {due : List (Timestamp ×ₗ PromiseId)}
    {s s' : EngineState} {e : DomainError} (h : expireHolds now count due s = .error e s') :
    ∃ done stuck rest, due = done ++ stuck :: rest ∧
      expireHolds now count done s = .ok (count + done.length) s' ∧
      expireHold now (ofLex stuck).2 s' = .error e s' := by
  induction due generalizing count s with
  | nil => cases h
  | cons hold rest ih =>
    rw [expireHolds] at h
    rcases EStateM.bind_eq_error.mp h with hstuck | ⟨⟨⟩, s₁, hstep, hrest⟩
    · obtain ⟨e', he'⟩ | ⟨s₁, hs₁, -⟩ := expireHold_cases hstuck
      · obtain ⟨rfl, rfl⟩ := EStateM.Result.error.inj he'
        exact ⟨[], hold, rest, rfl, rfl, hstuck⟩
      · cases hs₁
    · obtain ⟨done, stuck, rest', rfl, hdone, hstuck⟩ := ih hrest
      refine ⟨hold :: done, stuck, rest', rfl, ?_, hstuck⟩
      rw [expireHolds, EStateM.bind_of_ok hstep, hdone, List.length_cons]
      congr 1
      omega

/-! ## Giving a live bundle back -/

/-- The claims of a live promise can be given back one after another in any order: on the way the
slack never exceeds the capacity. -/
theorem IndexExact.restores {s : EngineState} (h : s.IndexExact) {id : PromiseId} {p : Promise}
    (hp : s.promises[id]? = some p) (hactive : p.isActive = true) {bundle : Bundle}
    (hperm : bundle.claims.Perm p.bundle.claims) :
    ∃ timelines, s.restoredTimelines bundle = .ok timelines := by
  apply restoredTimelines_exists h.wellFormed
  intro poolId hne
  obtain ⟨c, hc, rfl⟩ := Bundle.claimsOn_ne_nil.mp hne
  have hpool := h.claims id p hp c (hperm.subset hc)
  obtain ⟨pool, hlookup⟩ := OrderedMap.mem_iff_lookup.mp hpool
  obtain ⟨tl, htl⟩ := OrderedMap.mem_iff_lookup.mp ((h.pools c.poolId).mpr hpool)
  refine ⟨tl, htl, fun t => ?_⟩
  have husage := demandAt_le_usageAt hp c.poolId t
  rw [Promise.demandAt, if_pos hactive] at husage
  have hcapacity : (pool.capacityAt t).val ≤ 9223372036854775807 := pool.capacityCurve.capacityAt_le t
  rw [h.exact c.poolId pool tl hlookup htl, Bundle.demandAt_perm hperm]
  omega

/-! ## One expiration -/

/-- A due hold expires unless its version is exhausted. -/
theorem expire_of_due {p : Promise} {expiresAt now : Timestamp} (hstate : p.state = .held expiresAt)
    (hle : expiresAt ≤ now) (sequence : SequenceNumber) :
    p.expire now sequence = p.version.next >>= fun version =>
      .ok { p with version := version, updatedSequence := sequence, state := .expired } := by
  rw [Promise.expire, hstate]
  dsimp only
  rw [if_neg (not_lt.mpr hle)]

/-- A due hold expires, with its claims given back, unless the sequence or its version is
exhausted. -/
theorem IndexExact.expireHold_cases {s : EngineState} (h : s.IndexExact) {id : PromiseId}
    {p : Promise} {expiresAt now : Timestamp} (hp : s.promises[id]? = some p)
    (hstate : p.state = .held expiresAt) (hle : expiresAt ≤ now) :
    (∃ sequence version timelines, s.sequence.get.val + 1 = sequence.get.val ∧
      p.version.get.val + 1 = version.get.val ∧ s.restoredTimelines p.bundle = .ok timelines ∧
      expireHold now id s = .ok () (s.withPromise id
        { p with version := version, updatedSequence := sequence, state := .expired }
        (OrderedMap.extend s.slackTimelines timelines) sequence now .holdExpired)) ∨
    (s.sequence.get.val = 18446744073709551615 ∧
      expireHold now id s = .error .sequenceOverflow s) ∨
    (p.version.get.val = 18446744073709551615 ∧
      expireHold now id s = .error .versionOverflow s) := by
  have hactive : p.isActive = true := by
    rw [Promise.isActive, hstate]
    rfl
  obtain ⟨timelines, htimelines⟩ := h.restores hp hactive (List.Perm.refl _)
  unfold expireHold
  rw [EStateM.get_bind_apply]
  cases hsequence : s.sequence.next with
  | error e =>
    obtain ⟨rfl, hmax⟩ := SequenceNumber.next_eq_error.mp hsequence
    exact .inr (.inl ⟨hmax, rfl⟩)
  | ok sequence =>
    rw [EStateM.bind_of_ok (EStateM.ofExcept_ok _ _), hp, Option.elim_some,
      EStateM.bind_of_ok (EStateM.ofExcept_ok _ _), expire_of_due hstate hle]
    cases hversion : p.version.next with
    | error e =>
      obtain ⟨rfl, hmax⟩ := Version.next_eq_error.mp hversion
      exact .inr (.inr ⟨hmax, rfl⟩)
    | ok version =>
      refine .inl ⟨sequence, version, timelines, SequenceNumber.next_eq_ok.mp hsequence,
        Version.next_eq_ok.mp hversion, htimelines, ?_⟩
      rw [Except.ok_bind]
      refine (EStateM.bind_of_ok (EStateM.ofExcept_ok _ _)).trans ?_
      dsimp only
      rw [htimelines]
      rfl

/-! ## The whole loop -/

/-- Holds that a state has and that are due. -/
structure Pending (now : Timestamp) (s : EngineState) (due : List (Timestamp ×ₗ PromiseId)) :
    Prop where
  /-- No promise is listed twice. -/
  ids : due.Pairwise fun a b => (ofLex a).2 ≠ (ofLex b).2
  /-- Every listed promise is held and its deadline has been reached. -/
  held : ∀ d ∈ due, ∃ p, s.promises[(ofLex d).2]? = some p ∧ p.state = .held (ofLex d).1 ∧
    (ofLex d).1 ≤ now

/-- The sequence and the versions of holds have room for their expiration. -/
structure Fits (s : EngineState) (due : List (Timestamp ×ₗ PromiseId)) : Prop where
  /-- There is a sequence number for each of them. -/
  sequence : s.sequence.get.val + due.length ≤ 18446744073709551615
  /-- None of them has the last version. -/
  versions : ∀ d ∈ due, ∀ p : Promise, s.promises[(ofLex d).2]? = some p →
    p.version.get.val < 18446744073709551615

/-- One state follows from another by expiring holds in order. -/
structure Expired (now : Timestamp) (due : List (Timestamp ×ₗ PromiseId)) (s s' : EngineState) :
    Prop where
  /-- The pools stay. -/
  resourcePools : s'.resourcePools = s.resourcePools
  /-- The cached responses stay. -/
  idempotencyRecords : s'.idempotencyRecords = s.idempotencyRecords
  /-- Every expiration takes one sequence number. -/
  sequence : s'.sequence.get.val = s.sequence.get.val + due.length
  /-- A listed promise becomes expired at its next version and changes in nothing else. -/
  promises : ∀ d ∈ due, ∃ p p' : Promise, s.promises[(ofLex d).2]? = some p ∧
    s'.promises[(ofLex d).2]? = some p' ∧ p'.version.get.val = p.version.get.val + 1 ∧
    p' = { p with version := p'.version, updatedSequence := p'.updatedSequence, state := .expired }
  /-- The other promises stay. -/
  others : ∀ id : PromiseId, (∀ d ∈ due, (ofLex d).2 ≠ id) → s'.promises[id]? = s.promises[id]?
  /-- There is one event for each listed promise, in order, with consecutive sequences. -/
  events : ∃ new, s'.events = s.events ++ new ∧
    List.Forall₂ (fun (d : Timestamp ×ₗ PromiseId) (event : Event) =>
      ∃ p' : Promise, s'.promises[(ofLex d).2]? = some p' ∧ event =
        ⟨p'.updatedSequence, now, .holdExpired, .promise (ofLex d).2 p'.version⟩) due new ∧
    new.map (fun event => event.sequence.get.val) =
      (List.range due.length).map fun (i : ℕ) => s.sequence.get.val + 1 + i
  /-- The slack grows by the claims of the listed promises. -/
  slack : ∀ (poolId : ResourcePoolId) (tl : SlackTimeline), s.slackTimelines[poolId]? = some tl →
    ∃ tl', s'.slackTimelines[poolId]? = some tl' ∧ tl'.WellFormed ∧
      ∀ t, tl'.slackValue t =
        tl.slackValue t + (due.map fun d => s.demandOf (ofLex d).2 poolId t).sum
  /-- A timeline of a pool that no listed promise has claims on stays as it is. -/
  untouched : ∀ poolId : ResourcePoolId, (∀ d ∈ due, ∀ p : Promise,
    s.promises[(ofLex d).2]? = some p → p.bundle.claimsOn poolId = []) →
    s'.slackTimelines[poolId]? = s.slackTimelines[poolId]?

/-- Expiring nothing. -/
theorem Expired.nil {now : Timestamp} {s : EngineState} (h : s.TimelinesWellFormed) :
    Expired now [] s s := by
  refine ⟨rfl, rfl, ?_, ?_, fun _ _ => rfl, ⟨[], ?_, .nil, rfl⟩, fun poolId tl htl => ?_,
    fun _ _ => rfl⟩
  · rw [List.length_nil, Nat.cast_zero, add_zero]
  · intro d hd
    cases hd
  · rw [List.append_nil]
  · exact ⟨tl, htl, h poolId tl htl, fun t => by rw [List.map_nil, List.sum_nil, add_zero]⟩

/-- Expiring a hold and then others. -/
theorem Expired.cons {now : Timestamp} {d : Timestamp ×ₗ PromiseId}
    {rest : List (Timestamp ×ₗ PromiseId)} {s s' : EngineState} {p : Promise}
    {sequence : SequenceNumber} {version : Version}
    {timelines : OrderedMap ResourcePoolId SlackTimeline} (hs : s.TimelinesWellFormed)
    (hp : s.promises[(ofLex d).2]? = some p) (hactive : p.isActive = true)
    (hsequence : s.sequence.get.val + 1 = sequence.get.val)
    (hversion : p.version.get.val + 1 = version.get.val)
    (hrestored : s.restoredTimelines p.bundle = .ok timelines)
    (hids : ∀ d' ∈ rest, (ofLex d).2 ≠ (ofLex d').2)
    (h : Expired now rest (s.withPromise (ofLex d).2
      { p with version := version, updatedSequence := sequence, state := .expired }
      (OrderedMap.extend s.slackTimelines timelines) sequence now .holdExpired) s') :
    Expired now (d :: rest) s s' := by
  have hr := restoredTimelines_sound hs hrestored
  have hself : s'.promises[(ofLex d).2]? =
      some { p with version := version, updatedSequence := sequence, state := .expired } := by
    rw [h.others _ fun d' hd' => (hids d' hd').symm]
    exact OrderedMap.lookup_insert_self _ _ _
  have hother {id : PromiseId} (hid : (ofLex d).2 ≠ id) : (s.withPromise (ofLex d).2
      { p with version := version, updatedSequence := sequence, state := .expired }
      (OrderedMap.extend s.slackTimelines timelines) sequence now .holdExpired).promises[id]? =
        s.promises[id]? := OrderedMap.lookup_insert_of_ne _ hid _
  constructor
  · exact h.resourcePools
  · exact h.idempotencyRecords
  · have := h.sequence
    rw [List.length_cons]
    simp only [withPromise] at this
    push_cast
    omega
  · intro d' hd'
    rcases List.mem_cons.mp hd' with rfl | hd'
    · exact ⟨p, _, hp, hself, hversion.symm, rfl⟩
    · obtain ⟨q, q', hq, hspec⟩ := h.promises d' hd'
      rw [hother (hids d' hd')] at hq
      exact ⟨q, q', hq, hspec⟩
  · intro id hid
    rw [h.others id fun d' hd' => hid d' (List.mem_cons_of_mem d hd')]
    exact hother (hid d List.mem_cons_self)
  · obtain ⟨new, hnew, hall, hnumbers⟩ := h.events
    refine ⟨⟨sequence, now, .holdExpired, .promise (ofLex d).2 version⟩ :: new, ?_,
      .cons ⟨_, hself, rfl⟩ hall, ?_⟩
    · rw [hnew, withPromise, List.append_assoc, List.singleton_append]
    · rw [List.map_cons, hnumbers, List.length_cons, List.range_succ_eq_map, List.map_cons,
        List.map_map]
      simp only [withPromise, ← hsequence]
      congr 1
      · simp
      · refine List.map_congr_left fun i _ => ?_
        simp only [Function.comp, Nat.succ_eq_add_one, Nat.cast_add, Nat.cast_one]
        ring
  · intro poolId tl htl
    obtain ⟨tl₁, htl₁, -, hval₁⟩ := hr.slack hs htl
    obtain ⟨tl', htl', hwf, hval⟩ := h.slack poolId tl₁ htl₁
    refine ⟨tl', htl', hwf, fun t => ?_⟩
    have hdemand : s.demandOf (ofLex d).2 poolId t = p.bundle.demandAt poolId t := by
      rw [demandOf, hp, Option.elim_some, Promise.demandAt, if_pos hactive]
    rw [hval, hval₁, List.map_cons, List.sum_cons, hdemand, ← add_assoc]
    congr 2
    refine List.map_congr_left fun d' hd' => ?_
    rw [demandOf, demandOf, hother (hids d' hd')]
  · intro poolId hnone
    rw [h.untouched poolId fun d' hd' q hq => ?_]
    · show (OrderedMap.extend s.slackTimelines timelines)[poolId]? = _
      rw [OrderedMap.lookup_extend, hr.absent poolId (hnone d List.mem_cons_self p hp),
        Option.none_or]
    · rw [hother (hids d' hd')] at hq
      exact hnone d' (List.mem_cons_of_mem d hd') q hq

/-- What is left to be expired after the first hold. -/
theorem Pending.tail {now : Timestamp} {d : Timestamp ×ₗ PromiseId}
    {rest : List (Timestamp ×ₗ PromiseId)} {s : EngineState} (h : Pending now s (d :: rest))
    (p' : Promise) (timelines : OrderedMap ResourcePoolId SlackTimeline)
    (sequence : SequenceNumber) (kind : EventKind) :
    Pending now (s.withPromise (ofLex d).2 p' timelines sequence now kind) rest := by
  obtain ⟨hids, hrest⟩ := List.pairwise_cons.mp h.ids
  refine ⟨hrest, fun d' hd' => ?_⟩
  obtain ⟨p, hp, hspec⟩ := h.held d' (List.mem_cons_of_mem d hd')
  exact ⟨p, (OrderedMap.lookup_insert_of_ne _ (hids d' hd') _).trans hp, hspec⟩

/-- There is room for all expirations when there is room for the first and then for the others. -/
theorem fits_cons {now : Timestamp} {d : Timestamp ×ₗ PromiseId}
    {rest : List (Timestamp ×ₗ PromiseId)} {s : EngineState} {p p' : Promise}
    {timelines : OrderedMap ResourcePoolId SlackTimeline} {sequence : SequenceNumber}
    {version : Version} {kind : EventKind} (hp : s.promises[(ofLex d).2]? = some p)
    (hsequence : s.sequence.get.val + 1 = sequence.get.val)
    (hversion : p.version.get.val + 1 = version.get.val)
    (hids : ∀ d' ∈ rest, (ofLex d).2 ≠ (ofLex d').2) :
    Fits s (d :: rest) ↔ Fits (s.withPromise (ofLex d).2 p' timelines sequence now kind) rest := by
  have hother {d' : Timestamp ×ₗ PromiseId} (hd' : d' ∈ rest) :
      (s.withPromise (ofLex d).2 p' timelines sequence now kind).promises[(ofLex d').2]? =
        s.promises[(ofLex d').2]? := OrderedMap.lookup_insert_of_ne _ (hids d' hd') _
  have hlast := version.get.property.2
  constructor
  · intro h
    have hroom := h.sequence
    rw [List.length_cons] at hroom
    push_cast at hroom
    refine ⟨?_, fun d' hd' q hq => ?_⟩
    · simp only [withPromise]
      omega
    · rw [hother hd'] at hq
      exact h.versions d' (List.mem_cons_of_mem d hd') q hq
  · intro h
    have hroom := h.sequence
    simp only [withPromise] at hroom
    refine ⟨?_, fun d' hd' q hq => ?_⟩
    · rw [List.length_cons]
      push_cast
      omega
    · rcases List.mem_cons.mp hd' with rfl | hd'
      · obtain rfl := Option.some.inj (hp.symm.trans hq)
        omega
      · exact h.versions d' hd' q ((hother hd').trans hq)

/-- Expiring pending holds succeeds exactly when the sequence and their versions have room, and
nothing else can stop it. -/
theorem IndexExact.expireHolds_outcome {now : Timestamp} {due : List (Timestamp ×ₗ PromiseId)}
    {s : EngineState} (h : s.IndexExact) (hpending : Pending now s due) (count : Nat) :
    (Fits s due ∧ ∃ s', expireHolds now count due s = .ok (count + due.length) s' ∧
      Expired now due s s') ∨
    (¬Fits s due ∧ ∃ e s', expireHolds now count due s = .error e s' ∧
      (e = .sequenceOverflow ∨ e = .versionOverflow)) := by
  induction due generalizing s count with
  | nil =>
    refine .inl ⟨⟨?_, fun d hd => ?_⟩, s, rfl, .nil h.wellFormed⟩
    · have := s.sequence.get.property.2
      rw [List.length_nil]
      omega
    · cases hd
  | cons d rest ih =>
    obtain ⟨p, hp, hstate, hle⟩ := hpending.held d List.mem_cons_self
    obtain ⟨hids, -⟩ := List.pairwise_cons.mp hpending.ids
    have hactive : p.isActive = true := by
      rw [Promise.isActive, hstate]
      rfl
    rw [expireHolds]
    obtain ⟨sequence, version, timelines, hsequence, hversion, hrestored, hstep⟩ |
      ⟨hmax, hstep⟩ | ⟨hmax, hstep⟩ := h.expireHold_cases hp hstate hle
    · rw [EStateM.bind_of_ok hstep, fits_cons hp hsequence hversion hids]
      have hexact : (s.withPromise (ofLex d).2
          { p with version := version, updatedSequence := sequence, state := .expired }
          (OrderedMap.extend s.slackTimelines timelines) sequence now .holdExpired).IndexExact :=
        h.withEnded hp hactive rfl rfl hrestored
      obtain ⟨hfits, s', hok, hexpired⟩ | ⟨hfits, e, s', herror, he⟩ :=
        ih hexact (hpending.tail _ _ _ _) (count + 1)
      · refine .inl ⟨hfits, s', ?_, .cons h.wellFormed hp hactive hsequence hversion hrestored
          hids hexpired⟩
        rw [hok, List.length_cons]
        congr 1
        omega
      · exact .inr ⟨hfits, e, s', herror, he⟩
    · refine .inr ⟨fun hfits => ?_, _, s, EStateM.bind_of_error hstep, .inl rfl⟩
      have hroom := hfits.sequence
      rw [List.length_cons] at hroom
      push_cast at hroom
      omega
    · refine .inr ⟨fun hfits => ?_, _, s, EStateM.bind_of_error hstep, .inr rfl⟩
      have := hfits.versions d List.mem_cons_self p hp
      omega

/-- The due holds of a state are pending. -/
theorem pending_dueHolds (s : EngineState) (now : Timestamp) : Pending now s (s.dueHolds now) :=
  ⟨dueHolds_ids s now, fun _ hd => mem_dueHolds.mp hd⟩

/-- Processing the expirations succeeds exactly when the sequence and the versions of the due
holds have room, and nothing else can stop it. -/
theorem IndexExact.processExpirations_outcome {s : EngineState} (h : s.IndexExact)
    (now : Timestamp) :
    (Fits s (s.dueHolds now) ∧ ∃ s', processExpirations now s = .ok (s.dueHolds now).length s' ∧
      Expired now (s.dueHolds now) s s') ∨
    (¬Fits s (s.dueHolds now) ∧ ∃ e s', processExpirations now s = .error e s' ∧
      (e = .sequenceOverflow ∨ e = .versionOverflow)) := by
  have hrun := h.expireHolds_outcome (pending_dueHolds s now) 0
  rw [zero_add] at hrun
  exact hrun

/-! ## Expiring at another timestamp -/

/-- Two states that differ at most in the timestamps of their events. -/
structure SameButTimes (s t : EngineState) : Prop where
  resourcePools : s.resourcePools = t.resourcePools
  slackTimelines : s.slackTimelines = t.slackTimelines
  promises : s.promises = t.promises
  idempotencyRecords : s.idempotencyRecords = t.idempotencyRecords
  sequence : s.sequence = t.sequence
  events : List.Forall₂ (fun a b : Event => a.sequence = b.sequence ∧ a.kind = b.kind ∧
    a.data = b.data) s.events t.events

/-- A state is the same as itself. -/
theorem SameButTimes.refl (s : EngineState) : SameButTimes s s :=
  ⟨rfl, rfl, rfl, rfl, rfl, List.forall₂_same.mpr fun _ _ => ⟨rfl, rfl, rfl⟩⟩

/-- Being the same but for times is symmetric. -/
theorem SameButTimes.symm {s t : EngineState} (h : SameButTimes s t) : SameButTimes t s :=
  ⟨h.resourcePools.symm, h.slackTimelines.symm, h.promises.symm, h.idempotencyRecords.symm,
    h.sequence.symm, h.events.flip.imp fun _ _ he => ⟨he.1.symm, he.2.1.symm, he.2.2.symm⟩⟩

/-- Giving a bundle back only looks at the timelines. -/
theorem restoredTimelines_congr {s t : EngineState} (h : s.slackTimelines = t.slackTimelines)
    (bundle : Bundle) : s.restoredTimelines bundle = t.restoredTimelines bundle := by
  unfold restoredTimelines restorePool
  rw [h]

/-- A due hold expires in the same way at every timestamp from its deadline on. -/
theorem expireHold_retimed {s t s' : EngineState} (h : SameButTimes s t) {id : PromiseId}
    {p : Promise} {expiresAt n₁ n₂ : Timestamp} (hp : s.promises[id]? = some p)
    (hstate : p.state = .held expiresAt) (h₁ : expiresAt ≤ n₁) (h₂ : expiresAt ≤ n₂)
    (hok : expireHold n₁ id s = .ok () s') :
    ∃ t', expireHold n₂ id t = .ok () t' ∧ SameButTimes s' t' := by
  unfold expireHold at hok ⊢
  rw [EStateM.get_bind_apply] at hok ⊢
  rw [← h.sequence, ← h.promises]
  obtain ⟨e, -, he⟩ | ⟨sequence, hsequence, hok⟩ := EStateM.ofExcept_bind_cases hok
  · cases he
  rw [hsequence, EStateM.bind_of_ok (EStateM.ofExcept_ok _ _)]
  rw [hp, Option.elim_some, EStateM.bind_of_ok (EStateM.ofExcept_ok _ _),
    expire_of_due hstate h₁] at hok
  rw [hp, Option.elim_some, EStateM.bind_of_ok (EStateM.ofExcept_ok _ _), expire_of_due hstate h₂]
  obtain ⟨e, -, he⟩ | ⟨p', hp', hok⟩ := EStateM.ofExcept_bind_cases hok
  · cases he
  rw [hp', EStateM.bind_of_ok (EStateM.ofExcept_ok _ _), ← restoredTimelines_congr h.slackTimelines]
  obtain ⟨e, -, he⟩ | ⟨timelines, htimelines, hok⟩ := EStateM.ofExcept_bind_cases hok
  · cases he
  rw [htimelines, EStateM.bind_of_ok (EStateM.ofExcept_ok _ _)]
  obtain ⟨-, rfl⟩ := EStateM.Result.ok.inj hok
  refine ⟨_, rfl, ?_⟩
  refine ⟨h.resourcePools, ?_, ?_, h.idempotencyRecords, rfl, ?_⟩
  · exact congrArg (OrderedMap.extend · timelines) h.slackTimelines
  · exact congrArg (fun m : OrderedMap PromiseId Promise => m.insert id p') h.promises
  · exact List.rel_append h.events (.cons ⟨rfl, rfl, rfl⟩ .nil)

/-- A loop over holds that are due at two timestamps does the same at both. -/
theorem expireHolds_retimed {s t s' : EngineState} {due : List (Timestamp ×ₗ PromiseId)}
    {n₁ n₂ : Timestamp} {count n : Nat} (h : SameButTimes s t) (hexact : s.IndexExact)
    (h₁ : Pending n₁ s due) (h₂ : ∀ d ∈ due, (ofLex d).1 ≤ n₂) (count' : Nat)
    (hok : expireHolds n₁ count due s = .ok n s') :
    ∃ t', expireHolds n₂ count' due t = .ok (count' + due.length) t' ∧ SameButTimes s' t' := by
  induction due generalizing s t count count' with
  | nil =>
    obtain ⟨-, rfl⟩ := EStateM.Result.ok.inj hok
    exact ⟨t, rfl, h⟩
  | cons d rest ih =>
    obtain ⟨⟨⟩, s₁, hstep, hrest⟩ := EStateM.bind_eq_ok.mp hok
    obtain ⟨p, hp, hstate, hle⟩ := h₁.held d List.mem_cons_self
    obtain ⟨t₁, ht₁, hsame⟩ :=
      expireHold_retimed h hp hstate hle (h₂ d List.mem_cons_self) hstep
    have hpending : Pending n₁ s₁ rest := by
      obtain ⟨sequence, version, timelines, -, -, -, hs₁⟩ | ⟨-, herror⟩ | ⟨-, herror⟩ :=
        hexact.expireHold_cases hp hstate hle
      · obtain ⟨-, rfl⟩ := EStateM.Result.ok.inj (hs₁.symm.trans hstep)
        exact h₁.tail _ _ _ _
      · cases herror.symm.trans hstep
      · cases herror.symm.trans hstep
    have hexact₁ : s₁.IndexExact := by
      obtain ⟨e, he⟩ | ⟨s₂, hs₂, htransition⟩ := EngineState.expireHold_cases hstep
      · cases he
      · obtain ⟨-, rfl⟩ := EStateM.Result.ok.inj hs₂
        exact hexact.transition htransition
    obtain ⟨t', ht', hsame'⟩ := ih hsame hexact₁ hpending
      (fun d' hd' => h₂ d' (List.mem_cons_of_mem d hd')) (count' + 1) hrest
    refine ⟨t', ?_, hsame'⟩
    rw [expireHolds, EStateM.bind_of_ok ht₁, ht', List.length_cons]
    congr 1
    omega

/-! ## Splitting the loop -/

/-- The holds due at a timestamp are those due at an earlier one, followed by those that are due
after the earlier ones have expired. -/
theorem dueHolds_split {s s₁ : EngineState} {n₁ n₂ : Timestamp} (hle : n₁ ≤ n₂)
    (h : Expired n₁ (s.dueHolds n₁) s s₁) :
    s.dueHolds n₂ = s.dueHolds n₁ ++ s₁.dueHolds n₂ := by
  -- what is due later has not been due before
  have hlater {d : Timestamp ×ₗ PromiseId} :
      d ∈ s₁.dueHolds n₂ ↔ d ∈ s.dueHolds n₂ ∧ n₁ < (ofLex d).1 := by
    rw [mem_dueHolds, mem_dueHolds]
    by_cases hdue : ∀ d' ∈ s.dueHolds n₁, (ofLex d').2 ≠ (ofLex d).2
    · rw [h.others _ hdue]
      constructor
      · rintro ⟨p, hp, hstate, hd⟩
        refine ⟨⟨p, hp, hstate, hd⟩, ?_⟩
        by_contra hlt
        exact hdue d (mem_dueHolds.mpr ⟨p, hp, hstate, not_lt.mp hlt⟩) rfl
      · exact fun hd => hd.1
    · push Not at hdue
      obtain ⟨d', hd', hid⟩ := hdue
      obtain ⟨p, p', hp, hp', -, hexpired⟩ := h.promises d' hd'
      obtain ⟨q, hq, hstate, hd'n⟩ := mem_dueHolds.mp hd'
      rw [hid] at hp hp' hq
      obtain rfl := Option.some.inj (hp.symm.trans hq)
      constructor
      · rintro ⟨q, hq, hheld, -⟩
        obtain rfl := Option.some.inj (hp'.symm.trans hq)
        rw [hexpired] at hheld
        cases hheld
      · rintro ⟨⟨q, hq, hheld, -⟩, hlt⟩
        obtain rfl := Option.some.inj (hp.symm.trans hq)
        rw [hstate] at hheld
        exact absurd hlt (not_lt.mpr (PromiseState.held.inj hheld ▸ hd'n))
  refine List.Pairwise.eq_of_mem_iff (dueHolds_sorted s n₂) ?_ fun d => ?_
  · refine List.pairwise_append.mpr ⟨dueHolds_sorted s n₁, dueHolds_sorted s₁ n₂, ?_⟩
    intro a ha b hb
    obtain ⟨-, -, -, hand⟩ := mem_dueHolds.mp ha
    exact Prod.Lex.lt_iff.mpr (.inl (hand.trans_lt (hlater.mp hb).2))
  · rw [List.mem_append, hlater]
    constructor
    · intro hd
      by_cases hlt : n₁ < (ofLex d).1
      · exact .inr ⟨hd, hlt⟩
      · obtain ⟨p, hp, hstate, -⟩ := mem_dueHolds.mp hd
        exact .inl (mem_dueHolds.mpr ⟨p, hp, hstate, not_lt.mp hlt⟩)
    · rintro (hd | ⟨hd, -⟩)
      · obtain ⟨p, hp, hstate, hdn⟩ := mem_dueHolds.mp hd
        exact mem_dueHolds.mpr ⟨p, hp, hstate, hdn.trans hle⟩
      · exact hd

/-- After the expirations nothing is due. -/
theorem dueHolds_after {s s₁ : EngineState} {now : Timestamp}
    (h : Expired now (s.dueHolds now) s s₁) : s₁.dueHolds now = [] := by
  have hsplit := dueHolds_split (le_refl now) h
  exact List.append_right_eq_self.mp hsplit.symm

/-- Expirations keep the index exact. -/
theorem IndexExact.expirations {s s' : EngineState} (h : s.IndexExact) {now : Timestamp}
    (hs : Expirations now s s') : s'.IndexExact :=
  hs.invariant (fun _ _ _ hexact => hexact.transition) h

/-- Expiring up to a timestamp gives, but for the timestamps of the events, the same as expiring
up to an earlier one first. -/
theorem processExpirations_split {s s₁ s₂ : EngineState} {n₁ n₂ : Timestamp} {c₁ c₂ : Nat}
    (h : s.IndexExact) (hle : n₁ ≤ n₂) (h₁ : processExpirations n₁ s = .ok c₁ s₁)
    (hexpired : Expired n₁ (s.dueHolds n₁) s s₁) (h₂ : processExpirations n₂ s = .ok c₂ s₂) :
    ∃ s₁₂, processExpirations n₂ s₁ = .ok (s₁.dueHolds n₂).length s₁₂ ∧ SameButTimes s₂ s₁₂ := by
  -- the later run goes through the holds of the earlier one first
  have hlong : expireHolds n₂ 0 (s.dueHolds n₂) s = .ok c₂ s₂ := h₂
  rw [dueHolds_split hle hexpired, expireHolds_append] at hlong
  obtain ⟨c, t, hfirst, hsecond⟩ := EStateM.bind_eq_ok.mp hlong
  obtain ⟨t', ht', hsame⟩ := expireHolds_retimed (.refl s) h (pending_dueHolds s n₁)
    (fun d hd => (mem_dueHolds.mp hd).elim fun p hp => hp.2.2.trans hle) 0 h₁
  obtain ⟨-, rfl⟩ := EStateM.Result.ok.inj (ht'.symm.trans hfirst)
  -- from there on both runs go through the same holds
  have hexact : t'.IndexExact := by
    have hspec := expireHolds_spec n₂ 0 (s.dueHolds n₁) s
    rw [hfirst] at hspec
    exact h.expirations hspec
  have hpending : Pending n₂ t' (s₁.dueHolds n₂) := by
    refine ⟨dueHolds_ids s₁ n₂, fun d hd => ?_⟩
    rw [← hsame.promises]
    exact mem_dueHolds.mp hd
  obtain ⟨s₁₂, hs₁₂, hsame'⟩ := expireHolds_retimed hsame.symm hexact hpending
    (fun d hd => (mem_dueHolds.mp hd).elim fun p hp => hp.2.2) 0 hsecond
  rw [zero_add] at hs₁₂
  exact ⟨s₁₂, hs₁₂, hsame'⟩

/-- Expirations add the claims of the expired holds to the slack that can be read. -/
theorem Expired.slackAt {now : Timestamp} {due : List (Timestamp ×ₗ PromiseId)}
    {s s' : EngineState} (h : Expired now due s s') (hs : s.TimelinesWellFormed)
    {poolId : ResourcePoolId} {tl : SlackTimeline} (htl : s.slackTimelines[poolId]? = some tl) :
    ∃ tl', s'.slackTimelines[poolId]? = some tl' ∧ ∀ t, ∃ before after, tl.slackAt t = .ok before ∧
      tl'.slackAt t = .ok after ∧ after.val =
        before.val + (due.map fun d => s.demandOf (ofLex d).2 poolId t).sum := by
  obtain ⟨tl', htl', hwf, hvalue⟩ := h.slack poolId tl htl
  refine ⟨tl', htl', fun t => ?_⟩
  obtain ⟨before, hbefore, hval⟩ := SlackTimeline.slackAt_spec (hs poolId tl htl) t
  obtain ⟨after, hafter, hval'⟩ := SlackTimeline.slackAt_spec hwf t
  exact ⟨before, after, hbefore, hafter, by rw [hval', hvalue, hval]⟩

/-! ## Releasing -/

/-- The check for live promises fails for reasons of the promise. -/
theorem checkLive_error {state : PromiseState} {now : Timestamp} {error : DomainError}
    (h : state.checkLive now = .error error) :
    error = .holdExpired ∨ error = .invalidPromiseState := by
  cases state with
  | held expiresAt =>
    rw [PromiseState.checkLive] at h
    split at h
    · exact .inl (Except.error.inj h).symm
    · cases h
  | committed => cases h
  | released => exact .inr (Except.error.inj h).symm
  | expired => exact .inr (Except.error.inj h).symm

/-- A promise is not released for reasons of the promise. -/
theorem release_error {p : Promise} {expected : Version} {now : Timestamp}
    {sequence : SequenceNumber} {error : DomainError}
    (h : p.release expected now sequence = .error error) :
    error = .versionConflict ∨ error = .holdExpired ∨ error = .invalidPromiseState ∨
      error = .versionOverflow := by
  unfold Promise.release at h
  split at h
  · exact .inl (Except.error.inj h).symm
  cases hlive : p.state.checkLive now with
  | error e =>
    rw [hlive] at h
    obtain rfl := Except.error.inj h
    exact .inr ((checkLive_error hlive).imp_right .inl)
  | ok u =>
    rw [hlive, Except.ok_bind] at h
    cases hversion : p.version.next with
    | error e =>
      rw [hversion] at h
      obtain rfl := Except.error.inj h
      exact .inr (.inr (.inr (Version.next_eq_error.mp hversion).1))
    | ok version =>
      rw [hversion] at h
      cases h

/-- A live promise is released unless its version is exhausted. -/
theorem release_of_live {p : Promise} {now : Timestamp} (hlive : p.state.checkLive now = .ok ())
    (sequence : SequenceNumber) :
    p.release p.version now sequence = p.version.next >>= fun version =>
      .ok (version,
        { p with version := version, updatedSequence := sequence, state := .released }) := by
  rw [Promise.release, if_neg (not_not_intro rfl), hlive]
  rfl

/-- A live promise is not touched by the expirations. -/
theorem Expired.live {now : Timestamp} {s s₁ : EngineState}
    (h : Expired now (s.dueHolds now) s s₁) {id : PromiseId} {p : Promise}
    (hp : s.promises[id]? = some p) (hlive : p.state.checkLive now = .ok ()) :
    s₁.promises[id]? = some p := by
  rw [h.others id fun d hd hid => ?_, hp]
  obtain ⟨q, hq, hstate, hle⟩ := mem_dueHolds.mp hd
  rw [hid] at hq
  obtain rfl := Option.some.inj (hp.symm.trans hq)
  rw [hstate, PromiseState.checkLive, if_pos hle] at hlive
  cases hlive

/-- A live promise of the right version is released exactly when the expirations before it, the
sequence and its version have room. -/
theorem IndexExact.releaseAt_iff {s : EngineState} (h : s.IndexExact) {id : PromiseId} {p : Promise}
    {now : Timestamp} (hp : s.promises[id]? = some p) (hlive : p.state.checkLive now = .ok ()) :
    (∃ new s', releaseAt id p.version now s = .ok new s') ↔
      Fits s (s.dueHolds now) ∧
      s.sequence.get.val + (s.dueHolds now).length < 18446744073709551615 ∧
      p.version.get.val < 18446744073709551615 := by
  have hactive : p.isActive = true := PromiseState.isActive_of_checkLive hlive
  unfold releaseAt
  obtain ⟨hfits, s₁, hs₁, hexpired⟩ | ⟨hnot, e, s₁, hs₁, -⟩ := h.processExpirations_outcome now
  swap
  · rw [EStateM.bind_of_error hs₁]
    constructor
    · rintro ⟨new, s', hok⟩
      cases hok
    · rintro ⟨hfits, -⟩
      exact absurd hfits hnot
  have hp₁ := hexpired.live hp hlive
  have hexact₁ : s₁.IndexExact := by
    have hspec := processExpirations_spec now s
    rw [hs₁] at hspec
    exact h.expirations hspec
  have hlength := hexpired.sequence
  have hexpiredState : ¬p.state = .expired := by
    intro hstate
    rw [hstate] at hlive
    cases hlive
  rw [EStateM.bind_of_ok hs₁, EStateM.get_bind_apply, hp₁, Option.elim_some]
  cases hsequence : s₁.sequence.next with
  | error e =>
    obtain ⟨rfl, hmax⟩ := SequenceNumber.next_eq_error.mp hsequence
    constructor
    · rintro ⟨new, s', hok⟩
      cases hok
    · rintro ⟨-, hlt, -⟩
      omega
  | ok sequence =>
    have hnext := SequenceNumber.next_eq_ok.mp hsequence
    have hlast := sequence.get.property.2
    rw [EStateM.bind_of_ok (EStateM.ofExcept_ok _ _), EStateM.bind_of_ok (EStateM.ofExcept_ok _ _),
      if_neg hexpiredState, release_of_live hlive]
    cases hversion : p.version.next with
    | error e =>
      obtain ⟨rfl, hmax⟩ := Version.next_eq_error.mp hversion
      constructor
      · rintro ⟨new, s', hok⟩
        cases hok
      · rintro ⟨-, -, hlt⟩
        omega
    | ok version =>
      have hnext' := Version.next_eq_ok.mp hversion
      have hlast' := version.get.property.2
      obtain ⟨timelines, htimelines⟩ := hexact₁.restores hp₁ hactive (List.Perm.refl _)
      refine iff_of_true ⟨version, s₁.withPromise id
        { p with version := version, updatedSequence := sequence, state := .released }
        (OrderedMap.extend s₁.slackTimelines timelines) sequence now .promiseReleased, ?_⟩
        ⟨hfits, by omega, by omega⟩
      rw [Except.ok_bind]
      refine (EStateM.bind_of_ok (EStateM.ofExcept_ok _ _)).trans ?_
      dsimp only
      rw [htimelines]
      rfl

/-- A release never fails because of the index. -/
theorem IndexExact.releaseAt_error {s s' : EngineState} (h : s.IndexExact) {id : PromiseId}
    {expected : Version} {now : Timestamp} {error : DomainError}
    (hr : releaseAt id expected now s = .error error s') :
    error ≠ .indexOverflow ∧ error ≠ .resourcePoolNotFound := by
  have hne (h' : error = .versionConflict ∨ error = .holdExpired ∨ error = .invalidPromiseState ∨
      error = .versionOverflow ∨ error = .sequenceOverflow ∨ error = .promiseNotFound) :
      error ≠ .indexOverflow ∧ error ≠ .resourcePoolNotFound := by
    rcases h' with rfl | rfl | rfl | rfl | rfl | rfl <;> exact ⟨nofun, nofun⟩
  unfold releaseAt at hr
  obtain ⟨-, s₁, hs₁, -⟩ | ⟨-, e, s₁, hs₁, he⟩ := h.processExpirations_outcome now
  swap
  · rw [EStateM.bind_of_error hs₁] at hr
    obtain ⟨rfl, -⟩ := EStateM.Result.error.inj hr
    exact hne (by tauto)
  have hexact₁ : s₁.IndexExact := by
    have hspec := processExpirations_spec now s
    rw [hs₁] at hspec
    exact h.expirations hspec
  rw [EStateM.bind_of_ok hs₁, EStateM.get_bind_apply] at hr
  obtain ⟨e, he, herror⟩ | ⟨sequence, -, hr⟩ := EStateM.ofExcept_bind_cases hr
  · obtain ⟨rfl, -⟩ := EStateM.Result.error.inj herror
    exact hne (by rw [(SequenceNumber.next_eq_error.mp he).1]; tauto)
  obtain ⟨e, he, herror⟩ | ⟨p, hp, hr⟩ := EStateM.ofExcept_bind_cases hr
  · obtain ⟨rfl, -⟩ := EStateM.Result.error.inj herror
    cases hp : s₁.promises[id]? with
    | none =>
      rw [hp, Option.elim_none] at he
      exact hne (by rw [← Except.error.inj he]; tauto)
    | some p =>
      rw [hp, Option.elim_some] at he
      cases he
  have hp := Except.elim_eq_ok.mp hp
  dsimp only at hr
  split at hr
  · obtain ⟨rfl, -⟩ := EStateM.Result.error.inj hr
    exact hne (by tauto)
  obtain ⟨e, he, herror⟩ | ⟨⟨new, p'⟩, hp', hr⟩ := EStateM.ofExcept_bind_cases hr
  · obtain ⟨rfl, -⟩ := EStateM.Result.error.inj herror
    have := release_error he
    exact hne (by tauto)
  obtain ⟨-, -, hadvances, -, hbundle⟩ := Promise.release_eq_ok hp'
  obtain ⟨timelines, htimelines⟩ := hexact₁.restores hp hadvances.active (List.Perm.refl _)
  dsimp only at hr
  rw [hbundle, htimelines] at hr
  cases hr

end EngineState

namespace Engine

open EngineState

variable {blake3 : List UInt8 → CommandHash}

/-- Processing the expirations of a reachable engine expires exactly the holds that are due, in
the order of deadline and identity, and gives back exactly their claims.  Nothing is due
afterwards, and a later processing ends in the same state whether or not it is split. -/
theorem expirations_exact {e : Engine} (h : Reachable blake3 e) {n₁ n₂ : Timestamp} (hle : n₁ ≤ n₂)
    (hfits : Fits e.state (e.state.dueHolds n₂)) :
    (e.state.dueHolds n₁).Pairwise (fun a b => a < b) ∧
    (∀ d, d ∈ e.state.dueHolds n₁ ↔ ∃ p, e.state.promises[(ofLex d).2]? = some p ∧
      p.state = .held (ofLex d).1 ∧ (ofLex d).1 ≤ n₁) ∧
    ∃ s₁, processExpirations n₁ e.state = .ok (e.state.dueHolds n₁).length s₁ ∧
      Expired n₁ (e.state.dueHolds n₁) e.state s₁ ∧
      (∀ (poolId : ResourcePoolId) (tl : SlackTimeline), e.state.slackTimelines[poolId]? = some tl →
        ∃ tl', s₁.slackTimelines[poolId]? = some tl' ∧ ∀ t, ∃ before after,
          tl.slackAt t = .ok before ∧ tl'.slackAt t = .ok after ∧ after.val = before.val +
            ((e.state.dueHolds n₁).map fun d => e.state.demandOf (ofLex d).2 poolId t).sum) ∧
      processExpirations n₁ s₁ = .ok 0 s₁ ∧
      ∃ s₂ s₁₂, processExpirations n₂ e.state = .ok (e.state.dueHolds n₂).length s₂ ∧
        processExpirations n₂ s₁ = .ok (s₁.dueHolds n₂).length s₁₂ ∧ SameButTimes s₂ s₁₂ := by
  have hexact := h.indexExact
  refine ⟨dueHolds_sorted e.state n₁, fun d => mem_dueHolds, ?_⟩
  obtain ⟨-, s₂, h₂, hexpired₂⟩ | ⟨hnot, -⟩ := hexact.processExpirations_outcome n₂
  swap
  · exact absurd hfits hnot
  -- what is due earlier is due later, so there is room for it as well
  have hfits₁ : Fits e.state (e.state.dueHolds n₁) := by
    have hsub : (e.state.dueHolds n₁) ⊆ e.state.dueHolds n₂ := by
      intro d hd
      obtain ⟨p, hp, hstate, hdn⟩ := mem_dueHolds.mp hd
      exact mem_dueHolds.mpr ⟨p, hp, hstate, hdn.trans hle⟩
    have hnodup : (e.state.dueHolds n₁).Nodup := (dueHolds_sorted e.state n₁).imp fun hlt => hlt.ne
    have hlength := (hnodup.subperm hsub).length_le
    have := hfits.sequence
    exact ⟨by omega, fun d hd => hfits.versions d (hsub hd)⟩
  obtain ⟨-, s₁, h₁, hexpired₁⟩ | ⟨hnot, -⟩ := hexact.processExpirations_outcome n₁
  swap
  · exact absurd hfits₁ hnot
  obtain ⟨s₁₂, hs₁₂, hsame⟩ := processExpirations_split hexact hle h₁ hexpired₁ h₂
  exact ⟨s₁, h₁, hexpired₁, fun poolId tl htl => hexpired₁.slackAt hexact.wellFormed htl,
    processExpirations_of_none_due (dueHolds_after hexpired₁), s₂, s₁₂, h₂, hs₁₂, hsame⟩

/-- Whether neither the sequence nor the version of a due hold is exhausted. -/
def roomChecked (s : EngineState) (now : Timestamp) : Bool :=
  decide (s.sequence.get.val + (s.dueHolds now).length ≤ 18446744073709551615) &&
    (s.dueHolds now).all fun d => (s.promises[(ofLex d).2]?).all fun p =>
      decide (p.version.get.val < 18446744073709551615)

/-- Where the check finds room, there is room. -/
theorem fits_of_roomChecked {s : EngineState} {now : Timestamp} (h : roomChecked s now = true) :
    Fits s (s.dueHolds now) := by
  obtain ⟨hsequence, hversions⟩ := Bool.and_eq_true_iff.mp h
  refine ⟨of_decide_eq_true hsequence, fun d hd p hp => ?_⟩
  have hall := List.all_eq_true.mp hversions d hd
  rw [hp] at hall
  exact of_decide_eq_true hall

/-- The sample run with a second hold, which overlaps the first one and has a later deadline. -/
def sampleOverlapping : Engine :=
  (applyAll sampleHash sampleEngine [(sampleCommand "second" (.hold sampleSecondId
    (sampleBundle 5 10 5 sample_ten_pos sample_five_pos) (sampleTime 70)), sampleTime 2)]).2

/-- The engine with both holds is reachable. -/
theorem sampleOverlapping_reachable : Reachable sampleHash sampleOverlapping :=
  sampleEngine_reachable.applyAll fun _ _ => trivial

/-- The first of two overlapping holds expires at its deadline and gives back its claim where both
of them overlap.  The second one expires later, and the order of the two calls does not matter. -/
theorem expirations_exact_sample :
    (sampleOverlapping.state.dueHolds (sampleTime 80)).map ofLex =
      [(sampleTime 50, samplePromiseId), (sampleTime 70, sampleSecondId)] ∧
    ∃ s₁ s₂ s₁₂, processExpirations (sampleTime 60) sampleOverlapping.state = .ok 1 s₁ ∧
      processExpirations (sampleTime 60) s₁ = .ok 0 s₁ ∧
      (∃ tl tl' before after, sampleOverlapping.state.slackTimelines[samplePoolId]? = some tl ∧
        s₁.slackTimelines[samplePoolId]? = some tl' ∧ tl.slackAt (sampleTime 7) = .ok before ∧
        tl'.slackAt (sampleTime 7) = .ok after ∧ before.val = 0 ∧ after.val = 5) ∧
      processExpirations (sampleTime 80) sampleOverlapping.state = .ok 2 s₂ ∧
      processExpirations (sampleTime 80) s₁ = .ok 1 s₁₂ ∧ SameButTimes s₂ s₁₂ := by
  have hlater : (sampleOverlapping.state.dueHolds (sampleTime 80)).map ofLex =
      [(sampleTime 50, samplePromiseId), (sampleTime 70, sampleSecondId)] := by
    decide +kernel
  have hone : (sampleOverlapping.state.dueHolds (sampleTime 60)).length = 1 := by decide +kernel
  have htwo : (sampleOverlapping.state.dueHolds (sampleTime 80)).length = 2 := by decide +kernel
  have hroom : roomChecked sampleOverlapping.state (sampleTime 80) = true := by decide +kernel
  have hle : sampleTime 60 ≤ sampleTime 80 := by decide
  obtain ⟨-, -, s₁, h₁, hexpired, hslack, hagain, s₂, s₁₂, h₂, h₁₂, hsame⟩ :=
    expirations_exact sampleOverlapping_reachable hle (fits_of_roomChecked hroom)
  have hrest : (s₁.dueHolds (sampleTime 80)).length = 1 := by
    have hlength := congrArg List.length (dueHolds_split hle hexpired)
    rw [List.length_append, hone, htwo] at hlength
    omega
  rw [hone] at h₁
  rw [htwo] at h₂
  rw [hrest] at h₁₂
  refine ⟨hlater, s₁, s₂, s₁₂, h₁, hagain, ?_, h₂, h₁₂, hsame⟩
  have hbefore : (sampleOverlapping.state.slackTimelines[samplePoolId]?.bind fun tl =>
      (tl.slackAt (sampleTime 7)).toOption.map Subtype.val) = some 0 := by
    decide +kernel
  have hgiven : ((sampleOverlapping.state.dueHolds (sampleTime 60)).map fun d =>
      sampleOverlapping.state.demandOf (ofLex d).2 samplePoolId (sampleTime 7)).sum = 5 := by
    decide +kernel
  obtain ⟨tl, htl, hzero⟩ := Option.bind_eq_some_iff.mp hbefore
  obtain ⟨tl', htl', hvalue⟩ := hslack samplePoolId tl htl
  obtain ⟨before, after, hbefore, hafter, hsum⟩ := hvalue (sampleTime 7)
  rw [hbefore] at hzero
  have hzero' : before.val = 0 := Option.some.inj hzero
  exact ⟨tl, tl', before, after, htl, htl', hbefore, hafter, hzero', by rw [hsum, hgiven, hzero']; rfl⟩

/-- In a reachable engine the expirations are stopped by nothing but an exhausted sequence or
version, and so is the release of a live promise at its version.  Neither fails because of the
index, and a live bundle can be given back in every order of its claims. -/
theorem expiration_and_release_not_blocked {e : Engine} (h : Reachable blake3 e) (now : Timestamp) :
    ((∃ count s', processExpirations now e.state = .ok count s') ↔
      Fits e.state (e.state.dueHolds now)) ∧
    (∀ error s', processExpirations now e.state = .error error s' →
      error = .sequenceOverflow ∨ error = .versionOverflow) ∧
    (∀ (id : PromiseId) (p : Promise), e.state.promises[id]? = some p →
      p.state.checkLive now = .ok () →
      ((∃ new s', releaseAt id p.version now e.state = .ok new s') ↔
        Fits e.state (e.state.dueHolds now) ∧
        e.state.sequence.get.val + (e.state.dueHolds now).length < 18446744073709551615 ∧
        p.version.get.val < 18446744073709551615)) ∧
    (∀ id expected error s', releaseAt id expected now e.state = .error error s' →
      error ≠ .indexOverflow ∧ error ≠ .resourcePoolNotFound) ∧
    ∀ (id : PromiseId) (p : Promise) (bundle : Bundle), e.state.promises[id]? = some p →
      p.isActive = true → bundle.claims.Perm p.bundle.claims →
      ∃ timelines, e.state.restoredTimelines bundle = .ok timelines := by
  have hexact := h.indexExact
  refine ⟨?_, ?_, fun id p hp hlive => hexact.releaseAt_iff hp hlive,
    fun id expected error s' hr => hexact.releaseAt_error hr,
    fun id p bundle hp hactive hperm => hexact.restores hp hactive hperm⟩
  · obtain ⟨hfits, s', hs', -⟩ | ⟨hnot, error, s', hs', -⟩ := hexact.processExpirations_outcome now
    · exact iff_of_true ⟨_, s', hs'⟩ hfits
    · refine iff_of_false ?_ hnot
      rintro ⟨count, s'', hok⟩
      cases hs'.symm.trans hok
  · intro error s' herror
    obtain ⟨-, s'', hs'', -⟩ | ⟨-, error', s'', hs'', he⟩ := hexact.processExpirations_outcome now
    · cases hs''.symm.trans herror
    · obtain ⟨rfl, -⟩ := EStateM.Result.error.inj (hs''.symm.trans herror)
      exact he

/-- In the sample run nothing is exhausted, so the hold expires at its deadline. -/
theorem expiration_and_release_not_blocked_sample :
    ∃ count s', processExpirations (sampleTime 60) sampleEngine.state = .ok count s' := by
  apply (expiration_and_release_not_blocked sampleEngine_reachable (sampleTime 60)).1.mpr
  apply fits_of_roomChecked
  decide +kernel

end Engine

end PromiseDb
