import PromiseDb.Engine.Expirations
import PromiseDb.Engine.ReplaceConflicts

/-!
# When a replacement is accepted

A replacement may keep an existing deficit but must not make it worse.  The slack without the old
bundle and the demand of the new one are constant between two neighbouring checks, but the slack
with the old bundle is not: it grows where an old claim stops.  A deficit that ends there is not
noticed unless a check happens to be made at that point.

A replacement is accepted exactly when it passes at every check, and it makes nothing worse exactly
when it also passes wherever an old claim stops under a new one.
-/

namespace PromiseDb

open StepFunction

namespace EngineState

/-- A replacement leaves no deficit at a timestamp, or one that is no deeper than before. -/
def NotWorseAt (tl : SlackTimeline) (old new : Bundle) (poolId : ResourcePoolId) (t : Timestamp) :
    Prop :=
  min 0 (tl.slackValue t) ≤ tl.slackValue t + old.demandAt poolId t - new.demandAt poolId t

/-- A replacement makes nothing worse while one of its claims lasts. -/
def NotWorse (s : EngineState) (old new : Bundle) : Prop :=
  ∀ (poolId : ResourcePoolId) (tl : SlackTimeline), s.slackTimelines[poolId]? = some tl →
    ∀ t, (∃ c ∈ new.claimsOn poolId, c.interval.contains t = true) →
      NotWorseAt tl old new poolId t

/-- A replacement makes nothing worse at the timestamps at which it is checked. -/
def NotWorseAtChecks (s : EngineState) (old new : Bundle) : Prop :=
  ∀ (poolId : ResourcePoolId) (tl : SlackTimeline), s.slackTimelines[poolId]? = some tl →
    ∀ t, SweepPoint tl old new poolId t → 0 < new.demandAt poolId t →
      NotWorseAt tl old new poolId t

/-- A replacement makes nothing worse where an old claim stops while a new one lasts. -/
def NotWorseAtStops (s : EngineState) (old new : Bundle) : Prop :=
  ∀ (poolId : ResourcePoolId) (tl : SlackTimeline), s.slackTimelines[poolId]? = some tl →
    ∀ c ∈ old.claimsOn poolId, 0 < new.demandAt poolId c.interval.stop →
      NotWorseAt tl old new poolId c.interval.stop

instance (tl : SlackTimeline) (old new : Bundle) (poolId : ResourcePoolId) (t : Timestamp) :
    Decidable (NotWorseAt tl old new poolId t) := Int.decLe _ _

/-! ## Checks and stops -/

/-- A demand is positive while a claim lasts. -/
theorem demandAt_pos_iff {bundle : Bundle} {poolId : ResourcePoolId} {t : Timestamp} :
    0 < bundle.demandAt poolId t ↔ ∃ c ∈ bundle.claimsOn poolId, c.interval.contains t = true :=
  claimUsage_pos_iff

/-- Under a positive demand the floor of a replacement says that it makes nothing worse. -/
theorem slackFloor_le_iff {tl : SlackTimeline} {old new : Bundle} {poolId : ResourcePoolId}
    {t : Timestamp} (hdemand : 0 < new.demandAt poolId t) :
    slackFloor tl old poolId t ≤ slackWithout tl old poolId t - new.demandAt poolId t ↔
      NotWorseAt tl old new poolId t := by
  rw [slackFloor, slackWithout, NotWorseAt]
  split
  · next hnil =>
    rw [Bundle.demandAt_of_nil hnil]
    omega
  · rw [min_comm]

/-- A pool passes when nothing gets worse at its checks. -/
theorem EvaluatedWithout.allPass_iff {tl : SlackTimeline} {old new : Bundle}
    {poolId : ResourcePoolId} {base : SlackTimeline} {deficitFloor : Option SlackTimeline}
    (h : EvaluatedWithout tl old poolId base deficitFloor) :
    AllPass (new.claimsOn poolId) base deficitFloor ↔
      ∀ t, SweepPoint tl old new poolId t → 0 < new.demandAt poolId t →
        NotWorseAt tl old new poolId t := by
  constructor
  · intro hpass t ht hdemand
    rw [← slackFloor_le_iff hdemand]
    by_contra hlt
    exact (h.passes_iff t).mpr (not_le.mp hlt) (hpass t ((h.checked_iff t).mpr ht) hdemand)
  · intro hnot t ht hdemand
    by_contra hfail
    have hworse := (h.passes_iff t).mp hfail
    exact hworse.not_ge ((slackFloor_le_iff hdemand).mpr (hnot t ((h.checked_iff t).mp ht) hdemand))

/-- A demand that passes is a quantity of the domain. -/
theorem EvaluatedWithout.demandAt_le {tl : SlackTimeline} {old new : Bundle}
    {poolId : ResourcePoolId} {base : SlackTimeline} {deficitFloor : Option SlackTimeline}
    (h : EvaluatedWithout tl old poolId base deficitFloor)
    (hpass : AllPass (new.claimsOn poolId) base deficitFloor)
    (hbounded : ∀ t, old.demandAt poolId t ≤ 9223372036854775807) (t : Timestamp) :
    new.demandAt poolId t ≤ 9223372036854775807 := by
  by_cases hdemand : 0 < new.demandAt poolId t
  · obtain ⟨k, -, hk, hsame, -, -⟩ := exists_checked h.wellFormed hdemand
    have hsame : new.demandAt poolId k = new.demandAt poolId t := hsame
    have hnot := h.allPass_iff.mp hpass k ((h.checked_iff k).mp hk) (hsame ▸ hdemand)
    -- what is left of an old deficit is at most the old demand, and any other demand fits in the
    -- slack without the old bundle
    have hslack := (h.wellFormed.isSlack k).2
    have hold := hbounded k
    rw [h.value, slackWithout] at hslack
    rw [NotWorseAt] at hnot
    omega
  · omega

/-- Usage only grows until one of the claims stops. -/
theorem claimUsage_le_of_no_stop {claims : List Claim} {s t : Timestamp} (hst : s ≤ t)
    (h : ∀ c ∈ claims, c.interval.stop ≤ s ∨ t < c.interval.stop) :
    claimUsage claims s ≤ claimUsage claims t := by
  induction claims with
  | nil => exact le_rfl
  | cons c claims ih =>
    rw [claimUsage_cons, claimUsage_cons]
    refine add_le_add ?_ (ih fun c' hc' => h c' (List.mem_cons_of_mem _ hc'))
    rcases h c List.mem_cons_self with hstop | hstop
    · have hnot : c.interval.contains s ≠ true := fun hs =>
        (Interval.contains_iff.mp hs).2.not_ge hstop
      rw [Claim.usageAt, if_neg hnot]
      exact c.usageAt_nonneg t
    · rw [Claim.usageAt]
      split
      · next hs =>
        have ht : c.interval.contains t = true :=
          Interval.contains_iff.mpr ⟨(Interval.contains_iff.mp hs).1.trans hst, hstop⟩
        rw [Claim.usageAt, if_pos ht]
      · exact c.usageAt_nonneg t

/-- What passes at the checks and where an old claim stops makes nothing worse anywhere. -/
theorem EvaluatedWithout.notWorseAt {tl : SlackTimeline} {old new : Bundle}
    {poolId : ResourcePoolId} {base : SlackTimeline} {deficitFloor : Option SlackTimeline}
    (h : EvaluatedWithout tl old poolId base deficitFloor)
    (hchecks : ∀ t, SweepPoint tl old new poolId t → 0 < new.demandAt poolId t →
      NotWorseAt tl old new poolId t)
    (hstops : ∀ c ∈ old.claimsOn poolId, 0 < new.demandAt poolId c.interval.stop →
      NotWorseAt tl old new poolId c.interval.stop) {t : Timestamp}
    (ht : 0 < new.demandAt poolId t) : NotWorseAt tl old new poolId t := by
  obtain ⟨k, hkt, hk, hnone⟩ := last_checked h.wellFormed ht
  -- from the last check on, neither the new demand nor the slack without the old bundle changes
  have hbetween {u : Timestamp} (hut : u ≤ t) (j : Timestamp)
      (hj : Checked (new.claimsOn poolId) base j) : j ≤ k ∨ u < j :=
    (hnone j hj).imp_right fun htj => hut.trans_lt htj
  have hdemand {u : Timestamp} (hku : k ≤ u) (hut : u ≤ t) :
      new.demandAt poolId u = new.demandAt poolId k :=
    claimUsage_window hku (hbetween hut)
  have hpos : 0 < new.demandAt poolId k := hdemand hkt le_rfl ▸ ht
  have hwithout {u : Timestamp} (hku : k ≤ u) (hut : u ≤ t) :
      slackWithout tl old poolId u = slackWithout tl old poolId k := by
    rw [← h.value, ← h.value]
    exact slackValue_window h.wellFormed hku (hbetween hut) hpos
  -- the last check or stop of an old claim before the timestamp
  let stops : Finset Timestamp := insert k
    (((old.claimsOn poolId).map fun c => c.interval.stop).toFinset.filter fun u => k ≤ u ∧ u ≤ t)
  obtain ⟨m, hm, hlast⟩ := stops.exists_max_image id ⟨k, Finset.mem_insert_self _ _⟩
  have hmem {u : Timestamp} : u ∈ stops ↔
      u = k ∨ (∃ c ∈ old.claimsOn poolId, c.interval.stop = u) ∧ k ≤ u ∧ u ≤ t := by
    rw [Finset.mem_insert, Finset.mem_filter, List.mem_toFinset, List.mem_map]
  have hrange : k ≤ m ∧ m ≤ t := by
    rcases hmem.mp hm with rfl | ⟨-, hkm, hmt⟩
    · exact ⟨le_rfl, hkt⟩
    · exact ⟨hkm, hmt⟩
  have hposm : 0 < new.demandAt poolId m := hdemand hrange.1 hrange.2 ▸ hpos
  have hnotWorse : NotWorseAt tl old new poolId m := by
    rcases hmem.mp hm with rfl | ⟨⟨c, hc, rfl⟩, -, -⟩
    · exact hchecks _ ((h.checked_iff _).mp hk) hposm
    · exact hstops c hc hposm
  have hold : old.demandAt poolId m ≤ old.demandAt poolId t := by
    refine claimUsage_le_of_no_stop hrange.2 fun c hc => ?_
    by_contra hstop
    push Not at hstop
    have hc' := hlast c.interval.stop
      (hmem.mpr (.inr ⟨⟨c, hc, rfl⟩, hrange.1.trans hstop.1.le, hstop.2⟩))
    exact hstop.1.not_ge hc'
  have hnewm := hdemand hrange.1 hrange.2
  have hnewt := hdemand hkt le_rfl
  have hslackm := hwithout hrange.1 hrange.2
  have hslackt := hwithout hkt le_rfl
  rw [slackWithout, slackWithout] at hslackm hslackt
  rw [NotWorseAt] at hnotWorse ⊢
  omega

/-! ## Outcomes -/

/-- Every pool of a bundle on existing pools is evaluated against some timeline. -/
theorem IndexExact.evaluatedOn_restored {s : EngineState} (h : s.IndexExact) {new : Bundle}
    (hpools : ∀ c ∈ new.claims, c.poolId ∈ s.resourcePools)
    (restored : OrderedMap ResourcePoolId SlackTimeline) {poolId : ResourcePoolId}
    (hne : new.claimsOn poolId ≠ []) :
    ∃ base deficitFloor, s.EvaluatedOn restored poolId base deficitFloor := by
  obtain ⟨c, hc, rfl⟩ := Bundle.claimsOn_ne_nil.mp hne
  obtain ⟨tl, htl⟩ := OrderedMap.mem_iff_lookup.mp ((h.pools c.poolId).mpr (hpools c hc))
  cases hover : restored[c.poolId]? with
  | some base => exact ⟨base, some tl, .inl ⟨hover, tl, htl, rfl⟩⟩
  | none => exact ⟨tl, none, .inr ⟨hover, htl, rfl⟩⟩

/-- Nothing gets worse when nothing gets worse at the checks and at the stops, and only then. -/
theorem IndexExact.notWorse_iff {s : EngineState} (h : s.IndexExact) {old new : Bundle}
    (hpools : ∀ c ∈ new.claims, c.poolId ∈ s.resourcePools)
    {restored : OrderedMap ResourcePoolId SlackTimeline} (hrestored : Restored s old restored) :
    NotWorse s old new ↔ NotWorseAtChecks s old new ∧ NotWorseAtStops s old new := by
  constructor
  · intro hnot
    exact ⟨fun poolId tl htl t _ hdemand => hnot poolId tl htl t (demandAt_pos_iff.mp hdemand),
      fun poolId tl htl c _ hdemand => hnot poolId tl htl _ (demandAt_pos_iff.mp hdemand)⟩
  · rintro ⟨hchecks, hstops⟩ poolId tl htl t ht
    obtain ⟨c, hc, hcontains⟩ := ht
    have ht : 0 < new.demandAt poolId t := demandAt_pos_iff.mpr ⟨c, hc, hcontains⟩
    obtain ⟨base, deficitFloor, hon⟩ := h.evaluatedOn_restored hpools restored
      (List.ne_nil_of_mem hc)
    obtain ⟨tl', htl', hevaluated⟩ := hrestored.evaluatedWithout h.wellFormed hon
    obtain rfl : tl = tl' := Option.some.inj (htl.symm.trans htl')
    exact hevaluated.notWorseAt (hchecks poolId tl htl) (hstops poolId tl htl) ht

/-- A new bundle is admitted when nothing gets worse at the checks, and only then. -/
theorem IndexExact.evaluateReplacement_iff {s : EngineState} (h : s.IndexExact) {id : PromiseId}
    {p : Promise} (hp : s.promises[id]? = some p) (hactive : p.isActive = true) {new : Bundle}
    (hpools : ∀ c ∈ new.claims, c.poolId ∈ s.resourcePools)
    (hrange : ∀ poolId t, new.demandAt poolId t ≤ 18446744073709551615)
    {restored : OrderedMap ResourcePoolId SlackTimeline}
    (hrestored : Restored s p.bundle restored) :
    ∃ admission, s.evaluateBundleWithOverrides new restored = .ok admission ∧
      ((∃ timelines, admission = .available timelines) ↔ NotWorseAtChecks s p.bundle new) := by
  have hbounded (poolId : ResourcePoolId) (t : Timestamp) :
      p.bundle.demandAt poolId t ≤ 9223372036854775807 := by
    have hle := h.bounded id p hp poolId t
    rwa [Promise.demandAt, if_pos hactive] at hle
  obtain ⟨admission, hadmission, hiff⟩ := evaluateBundle_iff h.wellFormed
    hrestored.overridesWellFormed
    (fun poolId hne => h.evaluatedOn_restored hpools restored hne) hrange
    fun poolId base deficitFloor _ hon hpass t => by
      obtain ⟨tl, htl, hevaluated⟩ := hrestored.evaluatedWithout h.wellFormed hon
      exact hevaluated.demandAt_le hpass (hbounded poolId) t
  refine ⟨admission, hadmission, hiff.trans ⟨fun hall poolId tl htl t ht hdemand => ?_,
    fun hchecks poolId base deficitFloor hne hon => ?_⟩⟩
  · obtain ⟨c, hc, -⟩ := demandAt_pos_iff.mp hdemand
    obtain ⟨base, deficitFloor, hon⟩ := h.evaluatedOn_restored hpools restored
      (List.ne_nil_of_mem hc)
    obtain ⟨tl', htl', hevaluated⟩ := hrestored.evaluatedWithout h.wellFormed hon
    obtain rfl : tl = tl' := Option.some.inj (htl.symm.trans htl')
    exact hevaluated.allPass_iff.mp (hall poolId base deficitFloor (List.ne_nil_of_mem hc) hon) t ht
      hdemand
  · obtain ⟨tl, htl, hevaluated⟩ := hrestored.evaluatedWithout h.wellFormed hon
    exact hevaluated.allPass_iff.mpr (hchecks poolId tl htl)

/-! ## Outcomes -/

/-- The sequence and the version of a promise have a successor. -/
def HasNext (s : EngineState) (p : Promise) : Prop :=
  s.sequence.get.val < 18446744073709551615 ∧ p.version.get.val < 18446744073709551615

/-- A live promise can be replaced at its version until this is the last one. -/
theorem replace_of_live {p : Promise} {now : Timestamp} (hlive : p.state.checkLive now = .ok ())
    {live : ReplacementState} (hdeadline : live.checkDeadline now = .ok ()) (new : Bundle)
    (sequence : SequenceNumber) :
    p.replace p.version new live now sequence = p.version.next >>= fun version =>
      .ok (version, { p with bundle := new, state := live.toPromiseState, version := version,
                             updatedSequence := sequence }) := by
  rw [Promise.replace, if_neg (not_not.mpr rfl), hlive, hdeadline]
  rfl

/-- A replacement succeeds when sequence and version have a successor and nothing gets worse at the
checks, and only then. -/
theorem IndexExact.replaceAt_iff {s s₁ : EngineState} {count : Nat} {now : Timestamp}
    (hexpired : processExpirations now s = .ok count s₁) (h : s₁.IndexExact) {id : PromiseId}
    {p : Promise} (hp : s₁.promises[id]? = some p) (hlive : p.state.checkLive now = .ok ())
    {new : Bundle} {live : ReplacementState} (hdeadline : live.checkDeadline now = .ok ())
    (hpools : ∀ c ∈ new.claims, c.poolId ∈ s₁.resourcePools)
    (hrange : ∀ poolId t, new.demandAt poolId t ≤ 18446744073709551615) :
    (∃ version s', replaceAt id p.version new live now s = .ok (.replaced id version) s') ↔
      HasNext s₁ p ∧ NotWorseAtChecks s₁ p.bundle new := by
  have hactive : p.isActive = true := PromiseState.isActive_of_checkLive hlive
  obtain ⟨restored, hrestored⟩ := h.restores hp hactive (List.Perm.refl _)
  have hsound := restoredTimelines_sound h.wellFormed hrestored
  obtain ⟨admission, hadmission, hiff⟩ :=
    h.evaluateReplacement_iff hp hactive hpools hrange hsound
  have hexpiredState : ¬p.state = .expired := by
    intro hstate
    rw [hstate] at hlive
    cases hlive
  unfold replaceAt
  rw [EStateM.bind_of_ok hexpired, EStateM.get_bind_apply, hp, Option.elim_some,
    EStateM.bind_of_ok (EStateM.ofExcept_ok _ _), if_neg hexpiredState]
  dsimp only
  cases hsequence : s₁.sequence.next with
  | error e =>
    obtain ⟨rfl, hmax⟩ := SequenceNumber.next_eq_error.mp hsequence
    refine iff_of_false ?_ fun hnext => (hmax ▸ hnext.1.1).false
    rintro ⟨version, s', hok⟩
    cases hok
  | ok sequence =>
    have hnext := SequenceNumber.next_eq_ok.mp hsequence
    have hlast := sequence.get.property.2
    rw [EStateM.bind_of_ok (EStateM.ofExcept_ok _ _), replace_of_live hlive hdeadline]
    cases hversion : p.version.next with
    | error e =>
      obtain ⟨rfl, hmax⟩ := Version.next_eq_error.mp hversion
      refine iff_of_false ?_ fun hnext => (hmax ▸ hnext.1.2).false
      rintro ⟨version, s', hok⟩
      cases hok
    | ok version =>
      have hnext' := Version.next_eq_ok.mp hversion
      have hlast' := version.get.property.2
      have hroom : HasNext s₁ p := ⟨by omega, by omega⟩
      rw [Except.ok_bind, EStateM.bind_of_ok (EStateM.ofExcept_ok _ _)]
      dsimp only
      rw [hrestored, EStateM.bind_of_ok (EStateM.ofExcept_ok _ _), hadmission,
        EStateM.bind_of_ok (EStateM.ofExcept_ok _ _), and_iff_right hroom, ← hiff]
      cases admission with
      | unavailable conflicts =>
        refine iff_of_false ?_ ?_
        · rintro ⟨version, s', hok⟩
          cases hok
        · rintro ⟨timelines, heq⟩
          cases heq
      | available adjusted => exact iff_of_true ⟨version, _, rfl⟩ ⟨adjusted, rfl⟩

end EngineState

namespace Engine

open EngineState

variable {blake3 : List UInt8 → CommandHash}

/-- For a live promise of a reachable engine, being replaced and making nothing worse come to the
same exactly when the replacement fails a check, or when sequence and version have a successor just
in case it makes nothing worse where an old claim stops. -/
theorem replaced_iff_not_worse_iff {e : Engine} (h : Reachable blake3 e) {id : PromiseId}
    {new : Bundle} {live : ReplacementState} {now : Timestamp} {count : Nat} {s : EngineState}
    {p : Promise} (hexpired : processExpirations now e.state = .ok count s)
    (hp : s.promises[id]? = some p) (hlive : p.state.checkLive now = .ok ())
    (hdeadline : live.checkDeadline now = .ok ())
    (hpools : ∀ c ∈ new.claims, c.poolId ∈ s.resourcePools)
    (hrange : ∀ poolId t, new.demandAt poolId t ≤ 18446744073709551615) :
    ((∃ version s', replaceAt id p.version new live now e.state = .ok (.replaced id version) s') ↔
      NotWorse s p.bundle new) ↔
    (NotWorseAtChecks s p.bundle new → (HasNext s p ↔ NotWorseAtStops s p.bundle new)) := by
  have hexact : s.IndexExact := by
    have hspec := processExpirations_spec now e.state
    rw [hexpired] at hspec
    exact h.indexExact.expirations hspec
  obtain ⟨restored, hrestored⟩ :=
    hexact.restores hp (PromiseState.isActive_of_checkLive hlive) (List.Perm.refl _)
  rw [hexact.replaceAt_iff hexpired hp hlive hdeadline hpools hrange,
    hexact.notWorse_iff hpools (restoredTimelines_sound hexact.wellFormed hrestored)]
  tauto

/-! ## A replacement that makes a deficit

The sample hold has five units during the first ten ticks.  After a forced revision to no capacity
at all it is replaced by five units during twenty ticks. -/

/-- The forced revision of the sample pool. -/
def sampleForce : Command :=
  sampleCommand "force" (.reviseCapacity samplePoolId (sampleCurve 0) .force)

/-- The engine after the sample run and the forced revision. -/
def sampleForcedEngine : Engine :=
  (applyAll sampleHash Engine.empty (sampleCommands ++ [(sampleForce, sampleTime 2)])).2

/-- The engine after the forced revision is reachable. -/
theorem sampleForcedEngine_reachable : Reachable sampleHash sampleForcedEngine :=
  ReachableBy.empty.applyAll fun _ _ => trivial

/-- Five units during the first twenty ticks. -/
def sampleLongBundle : Bundle := sampleBundle 0 20 5 sample_twenty_pos sample_five_pos

/-- Whether a promise was replaced. -/
def isReplaced (id : PromiseId) : EStateM.Result DomainError EngineState ReplaceOutcome → Bool
  | .ok (.replaced id' _) _ => decide (id' = id)
  | _ => false

/-- The test finds replaced promises. -/
theorem isReplaced_eq_true {id : PromiseId}
    {r : EStateM.Result DomainError EngineState ReplaceOutcome} (h : isReplaced id r = true) :
    ∃ version s', r = .ok (.replaced id version) s' := by
  unfold isReplaced at h
  split at h
  · next id' version s' => exact ⟨version, s', of_decide_eq_true h ▸ rfl⟩
  · cases h

/-- What a replacement of the sample promise needs. -/
structure SampleReplaceable (s : EngineState) (p : Promise) : Prop where
  expired : processExpirations (sampleTime 3) sampleForcedEngine.state = .ok 0 s
  promise : s.promises[samplePromiseId]? = some p
  version : p.version = .initial
  live : p.state.checkLive (sampleTime 3) = .ok ()
  deadline : ReplacementState.committed.checkDeadline (sampleTime 3) = .ok ()
  pools : ∀ c ∈ sampleLongBundle.claims, c.poolId ∈ s.resourcePools
  demand : ∀ poolId t, sampleLongBundle.demandAt poolId t ≤ 18446744073709551615

/-- The sample promise can be replaced after the forced revision. -/
theorem sampleReplaceable : ∃ p, SampleReplaceable sampleForcedEngine.state p := by
  have hpromise : (sampleForcedEngine.state.promises[samplePromiseId]?.map fun p =>
      (p.version, p.state)) = some (.initial, .held (sampleTime 50)) := by decide +kernel
  obtain ⟨p, hp, hfields⟩ := Option.map_eq_some_iff.mp hpromise
  obtain ⟨hversion, hstate⟩ := Prod.mk.inj hfields
  have hdue : sampleForcedEngine.state.dueHolds (sampleTime 3) = [] := by decide +kernel
  refine ⟨p, processExpirations_of_none_due hdue, hp, hversion, ?_, rfl, ?_, ?_⟩
  · rw [hstate]
    rfl
  · intro c hc
    obtain rfl := List.mem_singleton.mp hc
    decide +kernel
  · intro poolId t
    exact (sampleBundle_demandAt 0 20 5 sample_twenty_pos sample_five_pos poolId t).trans
      (by norm_num)

/-- A replacement can create a deficit: behind the old claim, whose deficit ends there. -/
theorem replacement_creates_deficit :
    Reachable sampleHash sampleForcedEngine ∧ ∃ p,
      SampleReplaceable sampleForcedEngine.state p ∧
      (∃ version s', replaceAt samplePromiseId p.version sampleLongBundle .committed (sampleTime 3)
        sampleForcedEngine.state = .ok (.replaced samplePromiseId version) s') ∧
      ¬NotWorse sampleForcedEngine.state p.bundle sampleLongBundle := by
  obtain ⟨p, hp⟩ := sampleReplaceable
  refine ⟨sampleForcedEngine_reachable, p, hp, ?_, ?_⟩
  · have hreplaced : isReplaced samplePromiseId (replaceAt samplePromiseId .initial
        sampleLongBundle .committed (sampleTime 3) sampleForcedEngine.state) = true := by
      decide +kernel
    rw [hp.version]
    exact isReplaced_eq_true hreplaced
  · intro hnot
    have hworse : (sampleForcedEngine.state.promises[samplePromiseId]?.bind fun p =>
        sampleForcedEngine.state.slackTimelines[samplePoolId]?.map fun tl =>
          decide (NotWorseAt tl p.bundle sampleLongBundle samplePoolId (sampleTime 10))) =
            some false := by
      decide +kernel
    obtain ⟨p', hp', hworse⟩ := Option.bind_eq_some_iff.mp hworse
    obtain rfl : p' = p := Option.some.inj (hp'.symm.trans hp.promise)
    obtain ⟨tl, htl, hworse⟩ := Option.map_eq_some_iff.mp hworse
    refine of_decide_eq_false hworse (hnot samplePoolId tl htl (sampleTime 10) ?_)
    rw [← demandAt_pos_iff]
    decide +kernel

/-- The sample replacement passes its checks and has its successors, but makes things worse where
the old claim stops. -/
theorem replaced_iff_not_worse_iff_sample : ∃ p,
    ((∃ version s', replaceAt samplePromiseId p.version sampleLongBundle .committed (sampleTime 3)
        sampleForcedEngine.state = .ok (.replaced samplePromiseId version) s') ↔
      NotWorse sampleForcedEngine.state p.bundle sampleLongBundle) ↔
    (NotWorseAtChecks sampleForcedEngine.state p.bundle sampleLongBundle →
      (HasNext sampleForcedEngine.state p ↔
        NotWorseAtStops sampleForcedEngine.state p.bundle sampleLongBundle)) := by
  obtain ⟨p, hp⟩ := sampleReplaceable
  exact ⟨p, replaced_iff_not_worse_iff sampleForcedEngine_reachable hp.expired hp.promise hp.live
    hp.deadline hp.pools hp.demand⟩

end Engine

end PromiseDb
