import PromiseDb.Engine.PoolAdmission

/-!
# Admission and restoration of bundles

The claims of a bundle are grouped by pool and every pool is handled on its own.  Restoring a
bundle adds its demand to the slack of its pools; admitting a bundle takes its demand from them,
provided that every check on every pool passes.
-/

namespace PromiseDb

/-! ## Demand of bundles and promises -/

/-- The claims of a bundle on a pool. -/
def Bundle.claimsOn (bundle : Bundle) (poolId : ResourcePoolId) : List Claim :=
  bundle.claims.filter fun c => decide (c.poolId = poolId)

/-- What a bundle takes from a pool at a timestamp. -/
def Bundle.demandAt (bundle : Bundle) (poolId : ResourcePoolId) (t : Timestamp) : ℤ :=
  claimUsage (bundle.claimsOn poolId) t

/-- What a promise takes from a pool at a timestamp: its bundle, while it is live. -/
def Promise.demandAt (p : Promise) (poolId : ResourcePoolId) (t : Timestamp) : ℤ :=
  if p.isActive then p.bundle.demandAt poolId t else 0

/-- A bundle does not demand less than nothing. -/
theorem Bundle.demandAt_nonneg (bundle : Bundle) (poolId : ResourcePoolId) (t : Timestamp) :
    0 ≤ bundle.demandAt poolId t := claimUsage_nonneg _ _

/-- A promise does not demand less than nothing. -/
theorem Promise.demandAt_nonneg (p : Promise) (poolId : ResourcePoolId) (t : Timestamp) :
    0 ≤ p.demandAt poolId t := by
  unfold demandAt
  split
  · exact p.bundle.demandAt_nonneg poolId t
  · exact le_rfl

/-- Grouping by pool keeps the claims of each pool, in order. -/
theorem claimsByPool_append (claims : List Claim) (c : Claim) :
    claimsByPool (claims ++ [c]) =
      OrderedMap.upsert (claimsByPool claims) c.poolId [] (· ++ [c]) := by
  simp [claimsByPool]

/-- The claims are filed under their pools, where there are any. -/
theorem lookup_claimsByPool (claims : List Claim) (poolId : ResourcePoolId) :
    (claimsByPool claims)[poolId]? =
      if claims.filter (fun c => decide (c.poolId = poolId)) = [] then none
      else some (claims.filter fun c => decide (c.poolId = poolId)) := by
  induction claims using List.reverseRecOn with
  | nil =>
    rw [List.filter_nil, if_pos rfl]
    exact OrderedMap.lookup_empty poolId
  | append_singleton claims c ih =>
    rw [claimsByPool_append, OrderedMap.lookup_upsert, List.filter_append]
    by_cases hc : c.poolId = poolId
    · subst hc
      rw [if_pos rfl, List.filter_cons_of_pos (by simp), List.filter_nil, ih]
      split
      · rename_i hnil
        simp [hnil]
      · simp
    · rw [if_neg hc, List.filter_cons_of_neg (by simpa using hc), List.filter_nil,
        List.append_nil, ih]

/-- The groups of a bundle are its claims on the pools that it has claims on. -/
theorem lookup_claimsByPool_bundle (bundle : Bundle) (poolId : ResourcePoolId) :
    (claimsByPool bundle.claims)[poolId]? =
      if bundle.claimsOn poolId = [] then none else some (bundle.claimsOn poolId) :=
  lookup_claimsByPool bundle.claims poolId

/-- The groups of a bundle as a list. -/
theorem mem_claimsByPool {bundle : Bundle} {e : ResourcePoolId × List Claim} :
    e ∈ (claimsByPool bundle.claims).toList ↔
      bundle.claimsOn e.1 ≠ [] ∧ e.2 = bundle.claimsOn e.1 := by
  rw [OrderedMap.mem_toList, lookup_claimsByPool_bundle]
  split
  · rename_i h
    simp [h]
  · rename_i h
    simp [h, eq_comm]

/-- A pool without claims has no file. -/
theorem not_mem_claimsByPool {bundle : Bundle} {poolId : ResourcePoolId}
    (h : bundle.claimsOn poolId = []) :
    poolId ∉ (claimsByPool bundle.claims).toList.map Prod.fst := by
  rw [OrderedMap.mem_keys_iff, OrderedMap.not_mem_iff_lookup, lookup_claimsByPool_bundle, if_pos h]

/-- A bundle has claims on the pools of its claims. -/
theorem Bundle.claimsOn_ne_nil {bundle : Bundle} {poolId : ResourcePoolId} :
    bundle.claimsOn poolId ≠ [] ↔ ∃ c ∈ bundle.claims, c.poolId = poolId := by
  rw [claimsOn, Ne, List.filter_eq_nil_iff]
  simp

/-- The demand does not depend on the order of the claims. -/
theorem Bundle.demandAt_perm {bundle bundle' : Bundle} (h : bundle.claims.Perm bundle'.claims)
    (poolId : ResourcePoolId) (t : Timestamp) :
    bundle.demandAt poolId t = bundle'.demandAt poolId t :=
  ((h.filter _).map _).sum_eq

/-- Without claims on a pool nothing is demanded of it. -/
theorem Bundle.demandAt_of_nil {bundle : Bundle} {poolId : ResourcePoolId}
    (h : bundle.claimsOn poolId = []) (t : Timestamp) : bundle.demandAt poolId t = 0 := by
  rw [demandAt, h, claimUsage_nil]

namespace EngineState

/-! ## Restoration -/

/-- A quantity that fits into a slack. -/
theorem tryFrom_quantity (c : Claim) :
    ∃ q : Slack, (BoundedInt.tryFrom c.quantity : Option Slack) = some q ∧
      q.val = c.quantity.val := by
  have h₁ := c.quantity_pos
  have h₂ : c.quantity.val ≤ 9223372036854775807 := c.quantity_le
  have hslack : IsSlack c.quantity.val := ⟨by omega, h₂⟩
  exact ⟨⟨c.quantity.val, hslack⟩, BoundedInt.tryFrom_eq_some.mpr rfl, rfl⟩

/-- Giving claims back adds their usage, as long as the slack stays representable. -/
theorem restoreClaims_spec {tl : SlackTimeline} (h : tl.WellFormed) {claims : List Claim}
    (hle : ∀ t, tl.slackValue t + claimUsage claims t ≤ 9223372036854775807) :
    ∃ tl', claims.foldlM restoreClaim tl = .ok tl' ∧ tl'.WellFormed ∧
      ∀ t, tl'.slackValue t = tl.slackValue t + claimUsage claims t := by
  induction claims generalizing tl with
  | nil => exact ⟨tl, rfl, h, fun t => by rw [claimUsage_nil, add_zero]⟩
  | cons c claims ih =>
    obtain ⟨q, hq, hval⟩ := tryFrom_quantity c
    obtain ⟨tl₁, htl₁, hwf₁, hvalue₁⟩ := runUpdate_applyDelta h (i := c.interval) (δ := q)
      fun t ht => by
        have h₁ := h.isSlack t
        have h₂ := hle t
        have h₃ := claimUsage_nonneg claims t
        have h₄ := c.quantity_pos
        rw [claimUsage_cons, Claim.usageAt, if_pos ht] at h₂
        constructor <;> omega
    have hstep (t : Timestamp) : tl₁.slackValue t + claimUsage claims t =
        tl.slackValue t + claimUsage (c :: claims) t := by
      rw [hvalue₁, claimUsage_cons, Claim.usageAt, hval]
      omega
    obtain ⟨tl', htl', hwf', hvalue'⟩ := ih hwf₁ fun t => hstep t ▸ hle t
    refine ⟨tl', ?_, hwf', fun t => by rw [hvalue', hstep]⟩
    rw [List.foldlM_cons, restoreClaim, hq, Option.elim_some, Except.ok_bind, htl₁,
      Except.ok_bind, htl']

/-- Claims are given back only when the slack stays representable. -/
theorem restoreClaims_sound {tl tl' : SlackTimeline} (h : tl.WellFormed) {claims : List Claim}
    (hok : claims.foldlM restoreClaim tl = .ok tl') :
    tl'.WellFormed ∧ ∀ t, tl'.slackValue t = tl.slackValue t + claimUsage claims t := by
  induction claims generalizing tl with
  | nil =>
    obtain rfl : tl = tl' := by simpa [pure, Except.pure] using hok
    exact ⟨h, fun t => by rw [claimUsage_nil, add_zero]⟩
  | cons c claims ih =>
    obtain ⟨q, hq, hval⟩ := tryFrom_quantity c
    rw [List.foldlM_cons, restoreClaim, hq, Option.elim_some, Except.ok_bind] at hok
    obtain ⟨tl₁, htl₁, hok⟩ := Except.bind_eq_ok.mp hok
    have hslack : ∀ t, c.interval.contains t = true → IsSlack (tl.slackValue t + q.val) := by
      by_contra hbad
      push Not at hbad
      rw [runUpdate, SlackTimeline.applyDelta_error h (by simpa using hbad)] at htl₁
      cases htl₁
    obtain ⟨tl₂, htl₂, hwf₂, hvalue₂⟩ := runUpdate_applyDelta h hslack
    obtain rfl : tl₁ = tl₂ := Except.ok.inj (htl₁.symm.trans htl₂)
    obtain ⟨hwf, hvalue⟩ := ih hwf₂ hok
    refine ⟨hwf, fun t => ?_⟩
    rw [hvalue, hvalue₂, claimUsage_cons, Claim.usageAt, hval]
    omega

/-- Timelines after a bundle is given back: its pools gain its demand. -/
structure Restored (s : EngineState) (bundle : Bundle)
    (timelines : OrderedMap ResourcePoolId SlackTimeline) : Prop where
  /-- Pools without claims have no restored timeline. -/
  absent : ∀ poolId, bundle.claimsOn poolId = [] → timelines[poolId]? = none
  /-- The slack of the other pools grows by the demand. -/
  present : ∀ poolId, bundle.claimsOn poolId ≠ [] → ∃ tl tl', s.slackTimelines[poolId]? = some tl ∧
    timelines[poolId]? = some tl' ∧ tl'.WellFormed ∧
    ∀ t, tl'.slackValue t = tl.slackValue t + bundle.demandAt poolId t

/-- All timelines of a state can be read. -/
def TimelinesWellFormed (s : EngineState) : Prop :=
  ∀ (poolId : ResourcePoolId) (tl : SlackTimeline),
    s.slackTimelines[poolId]? = some tl → tl.WellFormed

/-- What a successful restoration has done. -/
theorem restoredTimelines_sound {s : EngineState} (hs : s.TimelinesWellFormed) {bundle : Bundle}
    {timelines : OrderedMap ResourcePoolId SlackTimeline}
    (h : s.restoredTimelines bundle = .ok timelines) : Restored s bundle timelines := by
  obtain ⟨hall, hrest⟩ := OrderedMap.foldlM_insert_ok (OrderedMap.toList_keys_nodup _) h
  refine ⟨fun poolId hnil => ?_, fun poolId hne => ?_⟩
  · rw [hrest poolId (not_mem_claimsByPool hnil), OrderedMap.lookup_empty]
  · obtain ⟨tl', htl', hlookup⟩ := hall (poolId, bundle.claimsOn poolId)
      (mem_claimsByPool.mpr ⟨hne, rfl⟩)
    obtain ⟨tl, htl, hok⟩ := Except.bind_eq_ok.mp htl'
    have htl := Except.elim_eq_ok.mp htl
    obtain ⟨hwf, hvalue⟩ := restoreClaims_sound (hs poolId tl htl) hok
    exact ⟨tl, tl', htl, hlookup, hwf, hvalue⟩

/-- A restoration succeeds when its pools exist and their slack stays representable. -/
theorem restoredTimelines_exists {s : EngineState} (hs : s.TimelinesWellFormed) {bundle : Bundle}
    (h : ∀ poolId, bundle.claimsOn poolId ≠ [] → ∃ tl, s.slackTimelines[poolId]? = some tl ∧
      ∀ t, tl.slackValue t + bundle.demandAt poolId t ≤ 9223372036854775807) :
    ∃ timelines, s.restoredTimelines bundle = .ok timelines := by
  refine OrderedMap.foldlM_insert_exists (fun e he => ?_) ∅
  obtain ⟨hne, heq⟩ := mem_claimsByPool.mp he
  obtain ⟨tl, htl, hle⟩ := h e.1 hne
  obtain ⟨tl', htl', -⟩ := restoreClaims_spec (hs e.1 tl htl) hle
  refine ⟨tl', ?_⟩
  rw [restorePool, htl, Option.elim_some, Except.ok_bind, heq]
  exact htl'

/-! ## Admission -/

/-- The timeline and the floor against which a pool of a bundle is evaluated. -/
def EvaluatedOn (s : EngineState) (overrides : OrderedMap ResourcePoolId SlackTimeline)
    (poolId : ResourcePoolId) (base : SlackTimeline) (deficitFloor : Option SlackTimeline) : Prop :=
  (overrides[poolId]? = some base ∧
      ∃ current, s.slackTimelines[poolId]? = some current ∧ deficitFloor = some current) ∨
    (overrides[poolId]? = none ∧ s.slackTimelines[poolId]? = some base ∧ deficitFloor = none)

/-- A pool is evaluated on its override, with its current timeline as floor, or on its current
timeline. -/
theorem evaluatePoolWithOverrides_eq {s : EngineState}
    {overrides : OrderedMap ResourcePoolId SlackTimeline} {poolId : ResourcePoolId}
    {base : SlackTimeline} {deficitFloor : Option SlackTimeline}
    (h : s.EvaluatedOn overrides poolId base deficitFloor) (claims : List Claim) :
    s.evaluatePoolWithOverrides overrides poolId claims =
      s.evaluatePoolOnTimeline poolId claims base deficitFloor := by
  unfold evaluatePoolWithOverrides
  obtain ⟨hover, current, hcurrent, rfl⟩ | ⟨hover, hbase, rfl⟩ := h
  · rw [hover, hcurrent]
    rfl
  · rw [hover, evaluatePoolAdmission, hbase]
    rfl

/-- A pool that was evaluated was evaluated on its timeline or on the one in its place. -/
theorem evaluatedOn_of_ok {s : EngineState} {overrides : OrderedMap ResourcePoolId SlackTimeline}
    {poolId : ResourcePoolId} {claims : List Claim} {admission : PoolAdmission}
    (h : s.evaluatePoolWithOverrides overrides poolId claims = .ok admission) :
    ∃ base deficitFloor, s.EvaluatedOn overrides poolId base deficitFloor := by
  unfold evaluatePoolWithOverrides at h
  split at h
  · rename_i timeline hover
    obtain ⟨current, hcurrent, -⟩ := Except.bind_eq_ok.mp h
    exact ⟨timeline, some current, .inl ⟨hover, current, Except.elim_eq_ok.mp hcurrent, rfl⟩⟩
  · rename_i hover
    obtain ⟨base, hbase, -⟩ := Except.bind_eq_ok.mp h
    exact ⟨base, none, .inr ⟨hover, Except.elim_eq_ok.mp hbase, rfl⟩⟩

/-- All timelines of a map can be read. -/
def OverridesWellFormed (overrides : OrderedMap ResourcePoolId SlackTimeline) : Prop :=
  ∀ (poolId : ResourcePoolId) (tl : SlackTimeline), overrides[poolId]? = some tl → tl.WellFormed

/-- The timelines of an evaluation can be read. -/
theorem EvaluatedOn.wellFormed {s : EngineState}
    {overrides : OrderedMap ResourcePoolId SlackTimeline} {poolId : ResourcePoolId}
    {base : SlackTimeline} {deficitFloor : Option SlackTimeline} (hs : s.TimelinesWellFormed)
    (ho : OverridesWellFormed overrides) (h : s.EvaluatedOn overrides poolId base deficitFloor) :
    base.WellFormed ∧ ∀ tl ∈ deficitFloor, tl.WellFormed := by
  obtain ⟨hover, current, hcurrent, rfl⟩ | ⟨-, hbase, rfl⟩ := h
  · refine ⟨ho poolId base hover, ?_⟩
    rintro tl ⟨⟩
    exact hs poolId _ hcurrent
  · exact ⟨hs poolId base hbase, by simp⟩

/-- The loop over the pools when it finds no conflict. -/
theorem evaluatePools_available {s : EngineState}
    {overrides : OrderedMap ResourcePoolId SlackTimeline} {l : List (ResourcePoolId × List Claim)}
    (hl : (l.map Prod.fst).Nodup) {acc acc' : OrderedMap ResourcePoolId SlackTimeline}
    {conflicts : List AvailabilityConflict}
    (h : l.foldlM (s.evaluateNextPool overrides) (acc, conflicts) = .ok (acc', [])) :
    conflicts = [] ∧
      (∀ e ∈ l, ∃ tl, s.evaluatePoolWithOverrides overrides e.1 e.2 = .ok (.available tl) ∧
        acc'[e.1]? = some tl) ∧
      ∀ k, k ∉ l.map Prod.fst → acc'[k]? = acc[k]? := by
  induction l generalizing acc conflicts with
  | nil =>
    obtain ⟨rfl, rfl⟩ : acc = acc' ∧ conflicts = [] := by simpa [pure, Except.pure] using h
    exact ⟨rfl, by simp, fun _ _ => rfl⟩
  | cons e l ih =>
    obtain ⟨hnotin, hl⟩ := List.nodup_cons.mp hl
    rw [List.foldlM_cons] at h
    obtain ⟨next, hnext, h⟩ := Except.bind_eq_ok.mp h
    unfold evaluateNextPool at hnext
    obtain ⟨admission, hadm, hnext⟩ := Except.bind_eq_ok.mp hnext
    cases admission with
    | available tl =>
      obtain rfl : (acc.insert e.1 tl, conflicts) = next := by
        simpa [pure, Except.pure] using hnext
      obtain ⟨hconflicts, hall, hrest⟩ := ih hl h
      refine ⟨hconflicts, fun a ha => ?_, fun k hk => ?_⟩
      · rcases List.mem_cons.mp ha with rfl | ha
        · exact ⟨tl, hadm, by rw [hrest _ hnotin, OrderedMap.lookup_insert_self]⟩
        · exact hall a ha
      · rw [List.map_cons, List.mem_cons, not_or] at hk
        rw [hrest k hk.2, OrderedMap.lookup_insert_of_ne _ (Ne.symm hk.1)]
    | unavailable more =>
      obtain rfl : (acc, conflicts ++ more) = next := by
        simpa [pure, Except.pure] using hnext
      obtain ⟨hconflicts, -, -⟩ := ih hl h
      obtain ⟨base, deficitFloor, hon⟩ := evaluatedOn_of_ok hadm
      rw [evaluatePoolWithOverrides_eq hon] at hadm
      exact absurd (List.append_eq_nil_iff.mp hconflicts).2 (evaluatePoolOnTimeline_unavailable hadm)

/-- The loop over the pools when every pool is evaluated. -/
theorem evaluatePools_ok {s : EngineState} {overrides : OrderedMap ResourcePoolId SlackTimeline}
    {l : List (ResourcePoolId × List Claim)}
    (hl : ∀ e ∈ l, ∃ admission, s.evaluatePoolWithOverrides overrides e.1 e.2 = .ok admission)
    (acc : OrderedMap ResourcePoolId SlackTimeline × List AvailabilityConflict) :
    ∃ acc', l.foldlM (s.evaluateNextPool overrides) acc = .ok acc' ∧
      (acc'.2 = [] ↔ acc.2 = [] ∧
        ∀ e ∈ l, ∃ tl, s.evaluatePoolWithOverrides overrides e.1 e.2 = .ok (.available tl)) := by
  induction l generalizing acc with
  | nil => exact ⟨acc, rfl, by simp⟩
  | cons e l ih =>
    obtain ⟨admission, hadm⟩ := hl e (by simp)
    have hrest := fun a (ha : a ∈ l) => hl a (List.mem_cons_of_mem _ ha)
    cases admission with
    | available tl =>
      obtain ⟨acc', hacc', hiff⟩ := ih hrest (acc.1.insert e.1 tl, acc.2)
      refine ⟨acc', ?_, ?_⟩
      · rw [List.foldlM_cons, evaluateNextPool, hadm, Except.ok_bind]
        exact hacc'
      · rw [hiff, List.forall_mem_cons]
        exact and_congr_right fun _ => ⟨fun h => ⟨⟨tl, hadm⟩, h⟩, fun h => h.2⟩
    | unavailable more =>
      obtain ⟨acc', hacc', hiff⟩ := ih hrest (acc.1, acc.2 ++ more)
      obtain ⟨base, deficitFloor, hon⟩ := evaluatedOn_of_ok hadm
      have hne := evaluatePoolOnTimeline_unavailable (evaluatePoolWithOverrides_eq hon _ ▸ hadm)
      refine ⟨acc', ?_, ?_⟩
      · rw [List.foldlM_cons, evaluateNextPool, hadm, Except.ok_bind]
        exact hacc'
      · rw [hiff, List.forall_mem_cons]
        constructor
        · exact fun h => absurd (List.append_eq_nil_iff.mp h.1).2 hne
        · rintro ⟨-, ⟨tl, htl⟩, -⟩
          rw [hadm] at htl
          cases htl

/-- Timelines of an admitted bundle: every check has passed, and its pools lose its demand. -/
structure Admitted (s : EngineState) (overrides : OrderedMap ResourcePoolId SlackTimeline)
    (bundle : Bundle) (timelines : OrderedMap ResourcePoolId SlackTimeline) : Prop where
  /-- Pools without claims have no adjusted timeline. -/
  absent : ∀ poolId, bundle.claimsOn poolId = [] → timelines[poolId]? = none
  /-- The slack of the other pools shrinks by the demand. -/
  present : ∀ poolId, bundle.claimsOn poolId ≠ [] → ∃ base deficitFloor tl,
    s.EvaluatedOn overrides poolId base deficitFloor ∧ timelines[poolId]? = some tl ∧
    tl.WellFormed ∧ (∀ t, tl.slackValue t = base.slackValue t - bundle.demandAt poolId t) ∧
    AllPass (bundle.claimsOn poolId) base deficitFloor ∧
    ∀ t, bundle.demandAt poolId t ≤ 9223372036854775807

/-- Sorting conflicts neither adds nor removes one. -/
theorem evaluateBundleWithOverrides_eq (s : EngineState) (bundle : Bundle)
    (overrides : OrderedMap ResourcePoolId SlackTimeline) :
    s.evaluateBundleWithOverrides bundle overrides = (do
      let acc ← (claimsByPool bundle.claims).toList.foldlM (s.evaluateNextPool overrides) (∅, [])
      if acc.2 = [] then return .available acc.1
      else return .unavailable (acc.2.insertionSort fun a b => a.sortKey ≤ b.sortKey)) := rfl

/-- What a successful admission has checked and done. -/
theorem evaluateBundle_available {s : EngineState} (hs : s.TimelinesWellFormed)
    {overrides : OrderedMap ResourcePoolId SlackTimeline} (ho : OverridesWellFormed overrides)
    {bundle : Bundle} {timelines : OrderedMap ResourcePoolId SlackTimeline}
    (h : s.evaluateBundleWithOverrides bundle overrides = .ok (.available timelines)) :
    Admitted s overrides bundle timelines := by
  rw [evaluateBundleWithOverrides_eq] at h
  obtain ⟨⟨acc, conflicts⟩, hacc, h⟩ := Except.bind_eq_ok.mp h
  dsimp only at h
  split at h
  · rename_i hconflicts
    obtain rfl : acc = timelines := by simpa [pure, Except.pure] using h
    rw [hconflicts] at hacc
    obtain ⟨-, hall, hrest⟩ := evaluatePools_available (OrderedMap.toList_keys_nodup _) hacc
    refine ⟨fun poolId hnil => ?_, fun poolId hne => ?_⟩
    · rw [hrest poolId (not_mem_claimsByPool hnil), OrderedMap.lookup_empty]
    · obtain ⟨tl, htl, hlookup⟩ := hall (poolId, bundle.claimsOn poolId)
        (mem_claimsByPool.mpr ⟨hne, rfl⟩)
      obtain ⟨base, deficitFloor, hon⟩ := evaluatedOn_of_ok htl
      obtain ⟨hb, hf⟩ := hon.wellFormed hs ho
      rw [evaluatePoolWithOverrides_eq hon] at htl
      obtain ⟨hwf, hvalue, hpass, hle⟩ := evaluatePoolOnTimeline_available hb hf htl
      exact ⟨base, deficitFloor, tl, hon, hlookup, hwf, hvalue, hpass, hle⟩
  · simp [pure, Except.pure] at h

/-- A bundle on existing pools, of countable demand, is available exactly when every check on
every pool passes. -/
theorem evaluateBundle_iff {s : EngineState} (hs : s.TimelinesWellFormed)
    {overrides : OrderedMap ResourcePoolId SlackTimeline} (ho : OverridesWellFormed overrides)
    {bundle : Bundle}
    (hon : ∀ poolId, bundle.claimsOn poolId ≠ [] →
      ∃ base deficitFloor, s.EvaluatedOn overrides poolId base deficitFloor)
    (hrange : ∀ poolId t, bundle.demandAt poolId t ≤ 18446744073709551615)
    (hfit : ∀ poolId base deficitFloor, bundle.claimsOn poolId ≠ [] →
      s.EvaluatedOn overrides poolId base deficitFloor →
      AllPass (bundle.claimsOn poolId) base deficitFloor →
      ∀ t, bundle.demandAt poolId t ≤ 9223372036854775807) :
    ∃ admission, s.evaluateBundleWithOverrides bundle overrides = .ok admission ∧
      ((∃ timelines, admission = .available timelines) ↔
        ∀ poolId base deficitFloor, bundle.claimsOn poolId ≠ [] →
          s.EvaluatedOn overrides poolId base deficitFloor →
          AllPass (bundle.claimsOn poolId) base deficitFloor) := by
  -- each pool is evaluated, and is available exactly when its checks pass
  have hpool (poolId : ResourcePoolId) (hne : bundle.claimsOn poolId ≠ []) (base : SlackTimeline)
      (deficitFloor : Option SlackTimeline)
      (hev : s.EvaluatedOn overrides poolId base deficitFloor) :
      ∃ admission, s.evaluatePoolWithOverrides overrides poolId (bundle.claimsOn poolId) =
        .ok admission ∧ ((∃ tl, admission = .available tl) ↔
          AllPass (bundle.claimsOn poolId) base deficitFloor) := by
    obtain ⟨hb, hf⟩ := hev.wellFormed hs ho
    rw [evaluatePoolWithOverrides_eq hev]
    by_cases hpass : AllPass (bundle.claimsOn poolId) base deficitFloor
    · obtain ⟨tl, htl⟩ := evaluatePoolOnTimeline_of_allPass (s := s) hb hf hpass
        (hfit poolId base deficitFloor hne hev hpass)
      exact ⟨_, htl, fun _ => hpass, fun _ => ⟨tl, rfl⟩⟩
    · obtain ⟨conflicts, hconflicts⟩ := evaluatePoolOnTimeline_of_not_allPass (s := s)
        hb hf hpass (hrange poolId)
      refine ⟨_, hconflicts, ?_, fun h => absurd h hpass⟩
      rintro ⟨tl, htl⟩
      cases htl
  obtain ⟨acc, hacc, hiff⟩ := evaluatePools_ok (s := s)
    (l := (claimsByPool bundle.claims).toList) (fun e he => by
      obtain ⟨hne, heq⟩ := mem_claimsByPool.mp he
      obtain ⟨base, deficitFloor, hev⟩ := hon e.1 hne
      obtain ⟨admission, hadm, -⟩ := hpool e.1 hne base deficitFloor hev
      exact ⟨admission, heq ▸ hadm⟩) (∅, [])
  have hall : acc.2 = [] ↔ ∀ poolId base deficitFloor, bundle.claimsOn poolId ≠ [] →
      s.EvaluatedOn overrides poolId base deficitFloor →
      AllPass (bundle.claimsOn poolId) base deficitFloor := by
    rw [hiff]
    constructor
    · rintro ⟨-, h⟩ poolId base deficitFloor hne hev
      obtain ⟨tl, htl⟩ := h (poolId, bundle.claimsOn poolId) (mem_claimsByPool.mpr ⟨hne, rfl⟩)
      obtain ⟨admission, hadm, hp⟩ := hpool poolId hne base deficitFloor hev
      exact hp.mp ⟨tl, Except.ok.inj (hadm.symm.trans htl)⟩
    · refine fun h => ⟨rfl, fun e he => ?_⟩
      obtain ⟨hne, heq⟩ := mem_claimsByPool.mp he
      obtain ⟨base, deficitFloor, hev⟩ := hon e.1 hne
      obtain ⟨admission, hadm, hp⟩ := hpool e.1 hne base deficitFloor hev
      obtain ⟨tl, rfl⟩ := hp.mpr (h e.1 base deficitFloor hne hev)
      exact ⟨tl, heq ▸ hadm⟩
  rw [evaluateBundleWithOverrides_eq, hacc, Except.ok_bind]
  by_cases hnil : acc.2 = []
  · rw [if_pos hnil]
    exact ⟨_, rfl, fun _ => hall.mp hnil, fun _ => ⟨acc.1, rfl⟩⟩
  · rw [if_neg hnil]
    refine ⟨_, rfl, ?_, fun h => absurd (hall.mpr h) hnil⟩
    rintro ⟨timelines, htimelines⟩
    cases htimelines

end EngineState

end PromiseDb
