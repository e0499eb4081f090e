import PromiseDb.Engine.GroupReplay

/-!
# The history of an engine

The durable items of all groups that were published, one behind the other, are the history of an
engine: installing them on an empty engine leads to its state without the timelines.  Publishing a
group continues the history, unless a command of the group gives a pool its old curve back; a part of
the items of a group is the history of an engine in between; and rebuilding the timelines changes
nothing about it.
-/

namespace PromiseDb

namespace EngineState

/-- Soundness only depends on the timelines through the exactness of the index. -/
theorem Sound.withTimelines {s : EngineState} (h : s.Sound)
    {timelines : OrderedMap ResourcePoolId SlackTimeline}
    (hindex : { s with slackTimelines := timelines }.IndexExact) :
    { s with slackTimelines := timelines }.Sound where
  index := hindex
  references := ⟨h.references.poolIds, h.references.promiseIds, h.references.histories,
    h.references.updated, h.references.events, h.references.named⟩
  log := ⟨h.log.complete, h.log.groups,
    fun id p hp => ⟨(h.log.histories id p hp).history, (h.log.histories id p hp).first,
      (h.log.histories id p hp).last⟩, h.log.silent⟩
  records := h.records

/-- Timelines of all pools that stand for the same slack are exact as well. -/
theorem IndexExact.withTimelines {s : EngineState} (h : s.IndexExact)
    {timelines : OrderedMap ResourcePoolId SlackTimeline}
    (hpools : ∀ id, id ∈ timelines ↔ id ∈ s.resourcePools)
    (hslack : ∀ (id : ResourcePoolId) (tl tl' : SlackTimeline), s.slackTimelines[id]? = some tl →
      timelines[id]? = some tl' → tl'.WellFormed ∧ ∀ t, tl'.slackValue t = tl.slackValue t) :
    { s with slackTimelines := timelines }.IndexExact := by
  have hold (id : ResourcePoolId) (tl' : SlackTimeline) (htl' : timelines[id]? = some tl') :
      ∃ tl, s.slackTimelines[id]? = some tl := by
    apply OrderedMap.mem_iff_lookup.mp
    apply (h.pools id).mpr
    exact (hpools id).mp (OrderedMap.mem_iff_lookup.mpr ⟨tl', htl'⟩)
  refine ⟨hpools, ?_, ?_, h.claims, h.bounded⟩
  · intro id tl' htl'
    obtain ⟨tl, htl⟩ := hold id tl' htl'
    exact (hslack id tl tl' htl htl').1
  · intro id pool tl' hpool htl' t
    obtain ⟨tl, htl⟩ := hold id tl' htl'
    rw [(hslack id tl tl' htl htl').2 t]
    exact h.exact id pool tl hpool htl t

end EngineState

namespace Engine

open EngineState

variable {blake3 : List UInt8 → CommandHash}

/-! ## Installing in parts -/

/-- Items are installed one behind the other. -/
theorem installAll_append (e : Engine) (l r : List TimestampedTransition) :
    installAll blake3 e (l ++ r) = installAll blake3 e l >>= fun e => installAll blake3 e r :=
  List.foldlM_append

/-- An engine to which an item was installed has no timelines. -/
theorem unindexed_of_installTransition {e e' : Engine} {t : DurableTransition}
    (h : installTransition blake3 e t = .ok e') : e'.unindexed = e' := by
  obtain ⟨pools, promises, revision, -, -, -, -, -, -, rfl⟩ := installTransition_ok h
  rfl

/-- Without timelines, the same items are installed with the same effect. -/
theorem installAll_unindexed {e e' : Engine} {items : List TimestampedTransition}
    (h : installAll blake3 e items = .ok e') :
    installAll blake3 e.unindexed items = .ok e'.unindexed := by
  induction items generalizing e with
  | nil =>
    obtain rfl := Except.ok.inj h
    rfl
  | cons item items ih =>
    rw [installAll, List.foldlM_cons] at h ⊢
    obtain ⟨e₁, hfirst, hrest⟩ := Except.bind_eq_ok.mp h
    have hsame := ih hrest
    rw [unindexed_of_installTransition hfirst] at hsame
    rw [installTransition_unindexed, hfirst]
    exact hsame

/-- Executing commands keeps a state sound. -/
theorem sound_executeAll {s : EngineState} (h : s.Sound) (commands : List (Command × Timestamp)) :
    (executeAll blake3 s commands).2.Sound := by
  induction commands generalizing s with
  | nil => exact h
  | cons entry rest ih =>
    obtain ⟨command, now⟩ := entry
    cases hrecord : s.idempotencyRecords[command.identity]? with
    | some record =>
      rw [executeAll_cached hrecord]
      exact ih h
    | none =>
      rw [executeAll_new hrecord]
      exact ih (sound_executeOnce h command now)

/-! ## Histories -/

variable (blake3) in
/-- Installing the items on an empty engine leads to the engine without its timelines, whose state
is sound. -/
structure HistoryIs (items : List TimestampedTransition) (e : Engine) : Prop where
  installed : installAll blake3 .empty items = .ok e.unindexed
  sound : e.state.Sound

/-- An empty engine has no history. -/
theorem historyIs_empty : HistoryIs blake3 [] .empty := by
  have hempty : Reachable blake3 Engine.empty := .empty
  exact ⟨rfl, hempty.sound⟩

/-- The first items of a group, however many, continue the history. -/
theorem HistoryIs.part {items : List TimestampedTransition} {e : Engine}
    (h : HistoryIs blake3 items e) {commands : List (Command × Timestamp)}
    {prepared : PreparedBatch} (hprepared : prepareBatch blake3 e commands = .ok prepared)
    (hrestores : ∀ entry ∈ firstSeen blake3 e.state commands,
      ¬RestoresPool blake3 e.state entry.1 entry.2.1 entry.2.2) {k : Nat}
    (hk : k ≤ prepared.durableItems.length) :
    HistoryIs blake3 (items ++ prepared.durableItems.take k)
      (applyAll blake3 e (throughFirstSeen blake3 e.state k commands)).2 := by
  obtain ⟨hitems, hleft⟩ := prepareBatch_counts hprepared
  have hcount : k ≤ (firstSeen blake3 e.state commands).length := by
    rwa [hitems, List.length_map] at hk
  obtain ⟨installed, hinstall, hinstalled⟩ := replays_of_sound h.sound hprepared hrestores k hk
  obtain ⟨revision, -, happly⟩ := applyAll_through hleft hcount
  have hsound : (executeAll blake3 e.state (throughFirstSeen blake3 e.state k commands)).2.Sound :=
    sound_executeAll h.sound _
  have hinstall' := installAll_unindexed hinstall
  refine ⟨?_, by rw [happly]; exact hsound⟩
  rw [installAll_append, h.installed, ← hinstalled]
  exact hinstall'

/-- Publishing a group continues the history. -/
theorem HistoryIs.publish {items : List TimestampedTransition} {e : Engine}
    (h : HistoryIs blake3 items e) {commands : List (Command × Timestamp)}
    {prepared : PreparedBatch} (hprepared : prepareBatch blake3 e commands = .ok prepared)
    (hrestores : ∀ entry ∈ firstSeen blake3 e.state commands,
      ¬RestoresPool blake3 e.state entry.1 entry.2.1 entry.2.2) :
    HistoryIs blake3 (items ++ prepared.durableItems) (publishBatch e prepared).2 := by
  have hpart := h.part hprepared hrestores le_rfl
  rwa [List.take_length, applyAll_through_published hprepared] at hpart

/-- Rebuilding the timelines changes nothing about the history. -/
theorem HistoryIs.rebuild {items : List TimestampedTransition} {e : Engine}
    (h : HistoryIs blake3 items e) :
    ∃ rebuilt, rebuildSlackTimelines e.unindexed = .ok rebuilt ∧ HistoryIs blake3 items rebuilt := by
  obtain ⟨timelines, hrebuild, hkeys, hslack⟩ := rebuildSlackTimelines_spec h.sound.index
  exact ⟨_, hrebuild, h.installed, h.sound.withTimelines (h.sound.index.withTimelines hkeys hslack)⟩

end Engine

end PromiseDb
