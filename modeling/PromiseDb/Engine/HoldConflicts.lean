import PromiseDb.Engine.Conflicts

/-!
# The conflicts of a hold

A hold is evaluated against the current timelines, and a window is refused exactly when its
demand exceeds the slack.  The conflicts that a refused hold reports, and those of the
explanation query, are therefore exact: on each pool they cover the timestamps at which the
demand exceeds the slack, each timestamp once, with the quantities and promises that hold there.
-/

namespace PromiseDb

namespace EngineState

/-- Explains every interval that prevents a bundle from being admitted. -/
def explainUnavailable (s : EngineState) (bundle : Bundle) :
    Except DomainError (List AvailabilityConflict) := do
  match ← s.evaluateBundleAdmission bundle with
  | .available _ => return []
  | .unavailable conflicts => return conflicts

/-- Conflicts of a pool that touch and agree on their quantities and promises. -/
def Mergeable (a b : AvailabilityConflict) : Prop :=
  a.resourcePoolId = b.resourcePoolId ∧ a.blockingInterval.stop = b.blockingInterval.start ∧
    a.requiredQuantity = b.requiredQuantity ∧ a.availableQuantity = b.availableQuantity ∧
    a.deficitQuantity = b.deficitQuantity ∧ a.conflictingPromiseIds = b.conflictingPromiseIds

instance (a b : AvailabilityConflict) : Decidable (Mergeable a b) :=
  inferInstanceAs (Decidable (_ ∧ _ ∧ _ ∧ _ ∧ _ ∧ _))

/-- The conflicts report exactly where and why a bundle does not fit. -/
structure ConflictsExact (s : EngineState) (bundle : Bundle)
    (conflicts : List AvailabilityConflict) : Prop where
  /-- The conflicts are sorted by start, pool and stop. -/
  sorted : conflicts.Pairwise fun a b => a.sortKey < b.sortKey
  /-- The conflicts of a pool cover the timestamps at which the demand exceeds the slack. -/
  covers : ∀ poolId t,
    (∃ c ∈ conflicts, c.resourcePoolId = poolId ∧ c.blockingInterval.contains t = true) ↔
      ∃ tl slack, s.slackTimelines[poolId]? = some tl ∧ tl.slackAt t = .ok slack ∧
        0 < bundle.demandAt poolId t ∧ slack.val < bundle.demandAt poolId t
  /-- A timestamp lies in at most one conflict of a pool. -/
  unique : ∀ a ∈ conflicts, ∀ b ∈ conflicts, a.resourcePoolId = b.resourcePoolId →
    ∀ t, a.blockingInterval.contains t = true → b.blockingInterval.contains t = true → a = b
  /-- A conflict carries the quantities at each of its timestamps. -/
  quantities : ∀ c ∈ conflicts, ∀ t, c.blockingInterval.contains t = true →
    ∀ tl slack, s.slackTimelines[c.resourcePoolId]? = some tl → tl.slackAt t = .ok slack →
      c.requiredQuantity.val = bundle.demandAt c.resourcePoolId t ∧
      c.availableQuantity.val = max 0 slack.val ∧
      c.availableQuantity.val ≤ c.requiredQuantity.val ∧
      c.deficitQuantity.val = c.requiredQuantity.val - c.availableQuantity.val
  /-- A conflict lists the live promises with a claim that overlaps its interval, in order. -/
  promises : ∀ c ∈ conflicts, c.conflictingPromiseIds.Pairwise (· < ·) ∧
    ∀ id, id ∈ c.conflictingPromiseIds ↔ ∃ p, s.promises[id]? = some p ∧ p.isActive = true ∧
      ∃ claim ∈ p.bundle.claims, claim.poolId = c.resourcePoolId ∧
        claim.interval.overlaps c.blockingInterval = true
  /-- No two conflicts could have been merged. -/
  normalized : ∀ a ∈ conflicts, ∀ b ∈ conflicts, ¬Mergeable a b

/-- Conflicts of one pool are the same when they share a timestamp. -/
theorem BundleConflicts.unique {s : EngineState}
    {overrides : OrderedMap ResourcePoolId SlackTimeline} {bundle : Bundle}
    {conflicts : List AvailabilityConflict} (h : BundleConflicts s overrides bundle conflicts)
    {a b : AvailabilityConflict} (ha : a ∈ conflicts) (hb : b ∈ conflicts)
    (hpool : a.resourcePoolId = b.resourcePoolId) {t : Timestamp}
    (hta : a.blockingInterval.contains t = true) (htb : b.blockingInterval.contains t = true) :
    a = b := by
  obtain ⟨base, deficitFloor, -, poolConflicts, ⟨raws, hmerge, -⟩, hmem⟩ :=
    h.onPool a.resourcePoolId (h.pools a ha)
  exact hmerge.unique ((hmem a).mpr ⟨ha, rfl⟩) ((hmem b).mpr ⟨hb, hpool.symm⟩)
    (conflictView_covers.mpr hta) (conflictView_covers.mpr htb)

/-- No two conflicts could have been merged. -/
theorem BundleConflicts.normalized {s : EngineState}
    {overrides : OrderedMap ResourcePoolId SlackTimeline} {bundle : Bundle}
    {conflicts : List AvailabilityConflict} (h : BundleConflicts s overrides bundle conflicts)
    {a b : AvailabilityConflict} (ha : a ∈ conflicts) (hb : b ∈ conflicts) : ¬Mergeable a b := by
  rintro ⟨hpool, htouch, hrequired, havailable, hdeficit, hids⟩
  obtain ⟨base, deficitFloor, -, poolConflicts, ⟨raws, hmerge, -⟩, hmem⟩ :=
    h.onPool a.resourcePoolId (h.pools a ha)
  have hlt : a.blockingInterval.start < b.blockingInterval.start :=
    htouch ▸ a.blockingInterval.start_lt_stop
  rcases hmerge.follows_or ((hmem a).mpr ⟨ha, rfl⟩) ((hmem b).mpr ⟨hb, hpool.symm⟩)
    (fun heq => hlt.ne (heq ▸ rfl)) with hab | hba
  · refine hab.2 htouch ?_
    change (_, _, _, _, _) = (_, _, _, _, _)
    rw [hpool, hrequired, havailable, hdeficit, hids]
  · exact absurd (hba.1.trans_lt hlt) (not_lt.mpr b.blockingInterval.start_lt_stop.le)

/-- Against the current timelines the conflicts of a bundle are exact. -/
theorem BundleConflicts.exact {s : EngineState} (hs : s.TimelinesWellFormed) {bundle : Bundle}
    {conflicts : List AvailabilityConflict} (h : BundleConflicts s ∅ bundle conflicts) :
    ConflictsExact s bundle conflicts := by
  -- each pool of the bundle is evaluated on its current timeline
  have hpool (poolId : ResourcePoolId) (hne : bundle.claimsOn poolId ≠ []) : ∃ tl poolConflicts,
      s.slackTimelines[poolId]? = some tl ∧
      PoolConflicts s poolId (bundle.claimsOn poolId) tl none poolConflicts ∧
      ∀ c, c ∈ poolConflicts ↔ c ∈ conflicts ∧ c.resourcePoolId = poolId := by
    obtain ⟨base, deficitFloor, hon, poolConflicts, hconflicts, hmem⟩ := h.onPool poolId hne
    rcases hon with ⟨hover, -⟩ | ⟨-, hbase, rfl⟩
    · rw [OrderedMap.lookup_empty] at hover
      cases hover
    · exact ⟨base, poolConflicts, hbase, hconflicts, hmem⟩
  have hrefused (base : SlackTimeline) (demand : ℤ) (t : Timestamp) :
      ¬Passes base none demand t ↔ base.slackValue t < demand := by
    change ¬(0 : ℤ) ≤ _ ↔ _
    omega
  refine ⟨h.sorted, ?_, ?_, ?_, ?_, ?_⟩
  · intro poolId t
    constructor
    · rintro ⟨c, hc, rfl, ht⟩
      obtain ⟨tl, poolConflicts, htl, hconflicts, hmem⟩ := hpool _ (h.pools c hc)
      obtain ⟨r, hr, htr, -⟩ := hconflicts.covered (hs _ tl htl) ((hmem c).mpr ⟨hc, rfl⟩) ht
      obtain ⟨slack, hslack, hval⟩ := SlackTimeline.slackAt_spec (hs _ tl htl) t
      obtain ⟨husage, hsame⟩ := hr.window.constant (hs _ tl htl)
        (Interval.contains_iff.mp htr).1 (Interval.contains_iff.mp htr).2
      have hnot := (hrefused _ _ _).mp hr.explains.refused.2
      refine ⟨tl, slack, htl, hslack, ?_, ?_⟩
      · rw [Bundle.demandAt, husage]
        exact hr.window.demand
      · rw [Bundle.demandAt, husage, hval, hsame]
        exact hnot
    · rintro ⟨tl, slack, htl, hslack, hpos, hlt⟩
      have hne : bundle.claimsOn poolId ≠ [] := by
        intro hnil
        rw [Bundle.demandAt_of_nil hnil] at hpos
        exact lt_irrefl _ hpos
      obtain ⟨tl', poolConflicts, htl', hconflicts, hmem⟩ := hpool poolId hne
      obtain rfl : tl = tl' := Option.some.inj (htl.symm.trans htl')
      obtain ⟨slack', hslack', hval⟩ := SlackTimeline.slackAt_spec (hs _ tl htl) t
      obtain rfl : slack = slack' := Except.ok.inj (hslack.symm.trans hslack')
      obtain ⟨k, k', hwindow, hkt, htk⟩ := exists_window (hs _ tl htl) hpos
      obtain ⟨husage, hsame⟩ := hwindow.constant (hs _ tl htl) hkt htk
      obtain ⟨c, hc, hct⟩ := hconflicts.covers hwindow
        ((hrefused _ _ _).mpr (by rwa [← husage, ← hsame, ← hval])) hkt htk
      obtain ⟨hc, hcpool⟩ := (hmem c).mp hc
      exact ⟨c, hc, hcpool, hct⟩
  · intro a ha b hb hsame t hta htb
    exact h.unique ha hb hsame hta htb
  · intro c hc t ht tl slack htl hslack
    obtain ⟨tl', poolConflicts, htl', hconflicts, hmem⟩ := hpool _ (h.pools c hc)
    obtain rfl : tl = tl' := Option.some.inj (htl.symm.trans htl')
    obtain ⟨slack', hslack', hval⟩ := SlackTimeline.slackAt_spec (hs _ tl htl) t
    obtain rfl : slack = slack' := Except.ok.inj (hslack.symm.trans hslack')
    obtain ⟨-, -, -, -, hrequired, havailable, hdeficit, -⟩ :=
      hconflicts.covered (hs _ tl htl) ((hmem c).mpr ⟨hc, rfl⟩) ht
    have hnonneg := c.deficitQuantity.property.1
    rw [max_comm, ← hval] at havailable
    rw [max_comm, ← hval, ← havailable, ← hrequired] at hdeficit
    exact ⟨hrequired, havailable, by omega, hdeficit⟩
  · intro c hc
    obtain ⟨tl, poolConflicts, htl, hconflicts, hmem⟩ := hpool _ (h.pools c hc)
    rw [hconflicts.ids (hs _ tl htl) ((hmem c).mpr ⟨hc, rfl⟩)]
    exact ⟨strictlyIncreasing_iff.mp (activeOverlapping_sorted s _ _), fun _ => mem_activeOverlapping⟩
  · intro a ha b hb
    exact h.normalized ha hb

/-- An explanation is exact. -/
theorem explainUnavailable_exact {s : EngineState} (hs : s.TimelinesWellFormed) {bundle : Bundle}
    {conflicts : List AvailabilityConflict} (h : s.explainUnavailable bundle = .ok conflicts) :
    ConflictsExact s bundle conflicts := by
  obtain ⟨admission, hadmission, h⟩ := Except.bind_eq_ok.mp h
  have hconflicts := (evaluateBundle_conflicts hs overridesWellFormed_empty hadmission).exact hs
  cases admission with
  | available timelines =>
    obtain rfl := Except.ok.inj h
    exact hconflicts
  | unavailable more =>
    obtain rfl := Except.ok.inj h
    exact hconflicts

end EngineState

namespace Engine

open EngineState

variable {blake3 : List UInt8 → CommandHash}

/-- The index stays exact along expirations. -/
theorem indexExact_expirations {now : Timestamp} {s s' : EngineState} (hs : s.IndexExact)
    (h : Expirations now s s') : s'.IndexExact :=
  h.invariant (fun _ _ _ => IndexExact.transition) hs

/-- The conflicts of an explanation and those of a refused hold are exact. -/
theorem hold_conflicts_exact {e : Engine} (h : Reachable blake3 e) :
    (∀ bundle conflicts, e.state.explainUnavailable bundle = .ok conflicts →
      ConflictsExact e.state bundle conflicts) ∧
    ∀ id bundle expiresAt now conflicts s,
      applyOnce (.hold id bundle expiresAt) now e.state =
        .ok (.holdCompleted (.unavailable conflicts)) s →
      ConflictsExact s bundle conflicts := by
  refine ⟨?_, ?_⟩
  · intro bundle conflicts hexplain
    exact explainUnavailable_exact h.indexExact.wellFormed hexplain
  · intro id bundle expiresAt now conflicts s happly
    obtain ⟨s₁, hs₁, hcompletes⟩ := applyOnce_cases happly
    have hwf := (indexExact_expirations h.indexExact hs₁).wellFormed
    cases hcompletes with
    | declined hdeclined =>
      cases hdeclined with
      | hold hrefused =>
        exact (evaluateBundle_conflicts hwf overridesWellFormed_empty hrefused).exact hwf
    | accepted _ answers => cases answers

/-- A hold of eight units, which the sample pool cannot give during the first ten ticks. -/
def sampleRefusedHold : CommandOperation :=
  .hold ⟨⟨2, U128.two_range⟩⟩ (sampleBundle 0 20 8 sample_twenty_pos sample_eight_pos) (sampleTime 50)

/-- The conflicts of a refused hold. -/
def holdConflicts : EStateM.Result DomainError EngineState CommandResult →
    Option (List AvailabilityConflict × EngineState)
  | .ok (.holdCompleted (.unavailable conflicts)) s => some (conflicts, s)
  | _ => none

/-- After the sample run the hold of eight units is refused with one exact conflict. -/
theorem hold_conflicts_exact_sample :
    ∃ conflicts s, applyOnce sampleRefusedHold (sampleTime 2) sampleEngine.state =
        .ok (.holdCompleted (.unavailable conflicts)) s ∧ conflicts.length = 1 ∧
      ConflictsExact s (sampleBundle 0 20 8 sample_twenty_pos sample_eight_pos) conflicts := by
  have hlength : (holdConflicts (applyOnce sampleRefusedHold (sampleTime 2)
      sampleEngine.state)).map (fun found => found.1.length) = some 1 := by decide +kernel
  obtain ⟨⟨conflicts, s⟩, hfound, hone⟩ := Option.map_eq_some_iff.mp hlength
  have happly : applyOnce sampleRefusedHold (sampleTime 2) sampleEngine.state =
      .ok (.holdCompleted (.unavailable conflicts)) s := by
    unfold holdConflicts at hfound
    split at hfound
    · rename_i conflicts' s' happly
      obtain ⟨rfl, rfl⟩ := Prod.mk.inj (Option.some.inj hfound)
      exact happly
    · cases hfound
  exact ⟨conflicts, s, happly, hone,
    (hold_conflicts_exact sampleEngine_reachable).2 _ _ _ _ _ _ happly⟩

end Engine

end PromiseDb
