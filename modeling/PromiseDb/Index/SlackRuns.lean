import PromiseDb.Index.SlackRebuild
import PromiseDb.Index.SlackUpdate

/-!
# Runs of updates

A timeline is built from a capacity curve and claims and then updated any number of times.  Every
such timeline can be read, whether or not its updates succeeded, so that every further update adds
its delta or fails without an effect.  The loop that restores the normal form takes no more rounds
than it is given here: with more of them nothing changes.
-/

namespace PromiseDb

namespace SlackTimeline

/-- The timelines built from capacity and claims and updated any number of times. -/
inductive Built (curve : CapacityCurve) (claims : List Claim) : SlackTimeline → Prop
  | rebuilt {tl : SlackTimeline} (h : fromCapacityAndClaims curve claims = .ok tl) :
      Built curve claims tl
  | updated {tl : SlackTimeline} (h : Built curve claims tl) (interval : Interval) (delta : Slack) :
      Built curve claims (applyDelta interval delta tl).finalState

variable {curve : CapacityCurve} {claims : List Claim}

/-- An update leaves a timeline that can be read. -/
theorem WellFormed.update {tl : SlackTimeline} (h : tl.WellFormed) (i : Interval) (δ : Slack) :
    (applyDelta i δ tl).finalState.WellFormed := by
  by_cases hδ : ∀ t, i.contains t = true → IsSlack (tl.slackValue t + δ.val)
  · obtain ⟨tl', hok, hwf, -⟩ := applyDelta_spec h hδ
    rw [hok]
    exact hwf
  · push Not at hδ
    rw [applyDelta_error h hδ]
    exact h

/-- Every timeline of a run can be read. -/
theorem Built.wellFormed {tl : SlackTimeline} (h : Built curve claims tl) : tl.WellFormed := by
  induction h with
  | rebuilt h => exact (fromCapacityAndClaims_sound h).1
  | updated _ i δ ih => exact ih.update i δ

/-! ## Rounds of the rebalancing loop -/

/-- Restores the normal form with more rounds of the loop. -/
def normalizeAndRebalanceWithin (more : Nat) : Update Unit := do
  retainNonEmpty
  dropLeadingZeroPoint
  retainNonEmpty
  rebalanceFrom (rebalanceFuel (← get) + more) 0

/-- Adds a delta with more rounds of the loop. -/
def applyDeltaWithin (more : Nat) (interval : Interval) (delta : Slack) : Update Unit :=
  applyDeltaThen (normalizeAndRebalanceWithin more) interval delta

/-- More rounds make no difference to the normalization. -/
theorem normalizeAndRebalanceWithin_eq {tl : SlackTimeline} (h : tl.WellFormed) (more : Nat) :
    normalizeAndRebalanceWithin more tl = normalizeAndRebalance tl := by
  obtain ⟨tl₁, tl₂, h₁, h₂, -, hwf, -⟩ := dropLeadingZeroPoint_spec h
  rw [normalizeAndRebalanceWithin, normalizeAndRebalance,
    EStateM.bind_of_ok (retainNonEmpty_of_wellFormed h), EStateM.bind_of_ok h₁,
    EStateM.bind_of_ok h₂, EStateM.get_bind_apply,
    EStateM.bind_of_ok (retainNonEmpty_of_wellFormed h), EStateM.bind_of_ok h₁,
    EStateM.bind_of_ok h₂, EStateM.get_bind_apply]
  exact rebalanceFrom_fuel hwf (Nat.sub_le _ _) more

/-- More rounds make no difference to an update. -/
theorem applyDeltaWithin_eq {tl : SlackTimeline} (h : tl.WellFormed) (more : Nat) (i : Interval)
    (δ : Slack) : applyDeltaWithin more i δ tl = applyDelta i δ tl := by
  rw [applyDeltaWithin, applyDelta_eq]
  by_cases hzero : δ.val = 0
  · rw [applyDeltaThen_zero hzero, applyDeltaThen_zero hzero]
  by_cases hδ : ∀ t, i.contains t = true → IsSlack (tl.slackValue t + δ.val)
  · obtain ⟨-, -, tl₃, -, -, -, hrun, hwf₃, -, -⟩ := applyDeltaThen_steps h hzero hδ
    rw [hrun, hrun, normalizeAndRebalanceWithin_eq hwf₃]
  · push Not at hδ
    rw [applyDeltaThen_error h hδ, applyDeltaThen_error h hδ]

/-! ## Updates of a run -/

/-- An update of a timeline of a run ends, whatever rounds its loop is given.  It succeeds exactly
when the new slack is representable throughout the interval, and then adds the delta there and
nothing elsewhere; otherwise it fails with an overflow and changes nothing. -/
theorem applyDelta_exact {tl : SlackTimeline} (h : Built curve claims tl) (i : Interval)
    (δ : Slack) :
    (∀ more, applyDeltaWithin more i δ tl = applyDelta i δ tl) ∧
    ((∃ tl', applyDelta i δ tl = .ok ⟨⟩ tl') ↔ ∀ t, i.contains t = true →
      ∃ slack, tl.slackAt t = .ok slack ∧ IsSlack (slack.val + δ.val)) ∧
    (∀ tl', applyDelta i δ tl = .ok ⟨⟩ tl' → ∀ t, ∃ before after, tl.slackAt t = .ok before ∧
      tl'.slackAt t = .ok after ∧ after.val = before.val + if i.contains t then δ.val else 0) ∧
    ∀ error tl', applyDelta i δ tl = .error error tl' → error = .slackOverflow ∧ tl' = tl := by
  have hwf := h.wellFormed
  have hfits : (∀ t, i.contains t = true →
      ∃ slack, tl.slackAt t = .ok slack ∧ IsSlack (slack.val + δ.val)) ↔
        ∀ t, i.contains t = true → IsSlack (tl.slackValue t + δ.val) := by
    refine forall₂_congr fun t _ => ?_
    obtain ⟨slack, hslack, hvalue⟩ := slackAt_spec hwf t
    constructor
    · rintro ⟨slack', hslack', hrange⟩
      obtain rfl : slack = slack' := Except.ok.inj (hslack.symm.trans hslack')
      exact hvalue ▸ hrange
    · intro hrange
      exact ⟨slack, hslack, hvalue.symm ▸ hrange⟩
  refine ⟨fun more => applyDeltaWithin_eq hwf more i δ, ?_⟩
  rw [hfits]
  by_cases hδ : ∀ t, i.contains t = true → IsSlack (tl.slackValue t + δ.val)
  · obtain ⟨tl', hok, hwf', hvalue⟩ := applyDelta_spec hwf hδ
    rw [hok]
    refine ⟨iff_of_true ⟨tl', rfl⟩ hδ, ?_, fun error tl'' herror => by cases herror⟩
    rintro _ ⟨⟩ t
    obtain ⟨before, hbefore, hbefore'⟩ := slackAt_spec hwf t
    obtain ⟨after, hafter, hafter'⟩ := slackAt_spec hwf' t
    exact ⟨before, after, hbefore, hafter, by rw [hafter', hvalue, hbefore']⟩
  · have hbad := hδ
    push Not at hbad
    rw [applyDelta_error hwf hbad]
    refine ⟨iff_of_false ?_ hδ, ?_, ?_⟩
    · rintro ⟨tl', hok⟩
      cases hok
    · intro tl' hok
      cases hok
    · rintro _ _ ⟨⟩
      exact ⟨rfl, rfl⟩

/-! ## A sample run

Ten units are offered during a hundred ticks, of which five are claimed from the twentieth to the
thirtieth.  An update has taken three units from the tenth tick to the fortieth. -/

/-- The ticks with capacity. -/
def offeredTicks : Interval := ⟨⟨0, by decide⟩, ⟨100, by decide⟩, by decide⟩

/-- The ticks of the claim. -/
def claimedTicks : Interval := ⟨⟨20, by decide⟩, ⟨30, by decide⟩, by decide⟩

/-- The ticks of the first update. -/
def takenTicks : Interval := ⟨⟨10, by decide⟩, ⟨40, by decide⟩, by decide⟩

/-- The ticks of the second update. -/
def givenTicks : Interval := ⟨⟨15, by decide⟩, ⟨50, by decide⟩, by decide⟩

/-- A tick of the claim and of both updates. -/
def busyTick : Timestamp := ⟨25, by decide⟩

/-- The offered capacity is not too large. -/
theorem offered_le : ∀ s ∈ [(⟨offeredTicks, ⟨10, by decide⟩⟩ : CapacitySegment)],
    s.capacity ≤ maxQuantity := by
  decide

/-- Ten units during the offered ticks. -/
def offeredCurve : CapacityCurve := ⟨[⟨offeredTicks, ⟨10, by decide⟩⟩], offered_le, .singleton _⟩

/-- Five units during the claimed ticks. -/
def fiveClaimed : Claim :=
  ⟨⟨⟨1, U128.one_range⟩⟩, claimedTicks, ⟨5, by decide⟩, by decide, by decide⟩

/-- The change points of a timeline, as numbers. -/
def numbersOf (tl : SlackTimeline) : List (ℤ × ℤ) := tl.changes.map fun e => (e.1.val, e.2)

/-- Four units fit into the timeline of the sample run.  The largest slack does not, since two
units are left at the busy tick. -/
theorem applyDelta_exact_sample :
    ∃ tl tl₁, fromCapacityAndClaims offeredCurve [fiveClaimed] = .ok tl ∧
      applyDelta takenTicks ⟨-3, by decide⟩ tl = .ok ⟨⟩ tl₁ ∧
      numbersOf tl₁ = [(0, 10), (10, 7), (20, 2), (30, 7), (40, 10), (100, 0)] ∧
      (∃ tl₂, applyDelta givenTicks ⟨4, by decide⟩ tl₁ = .ok ⟨⟩ tl₂ ∧
        (∀ more, applyDeltaWithin more givenTicks ⟨4, by decide⟩ tl₁ = .ok ⟨⟩ tl₂) ∧
        ∀ t, ∃ before after, tl₁.slackAt t = .ok before ∧ tl₂.slackAt t = .ok after ∧
          after.val = before.val + if givenTicks.contains t then 4 else 0) ∧
      applyDelta givenTicks ⟨9223372036854775807, by decide⟩ tl₁ = .error .slackOverflow tl₁ := by
  have hrun : (fromCapacityAndClaims offeredCurve [fiveClaimed]).toOption.map (fun tl =>
      ((EStateM.run' (applyDelta takenTicks ⟨-3, by decide⟩) tl).isSome,
        numbersOf (applyDelta takenTicks ⟨-3, by decide⟩ tl).finalState,
        (EStateM.run' (applyDelta givenTicks ⟨4, by decide⟩)
          (applyDelta takenTicks ⟨-3, by decide⟩ tl).finalState).isSome,
        ((applyDelta takenTicks ⟨-3, by decide⟩ tl).finalState.slackAt busyTick).toOption.map
          Subtype.val)) =
      some (true, [(0, 10), (10, 7), (20, 2), (30, 7), (40, 10), (100, 0)], true, some 2) := by
    decide +kernel
  obtain ⟨tl, htl, hchecked⟩ := Option.map_eq_some_iff.mp hrun
  obtain ⟨htaken, hrest⟩ := Prod.mk.inj hchecked
  obtain ⟨⟨⟩, tl₁, htl₁⟩ := EStateM.exists_ok_of_isSome htaken
  rw [htl₁] at hrest
  obtain ⟨hnumbers, hrest⟩ := Prod.mk.inj hrest
  obtain ⟨hgiven, hbusy⟩ := Prod.mk.inj hrest
  have hbuilt : Built offeredCurve [fiveClaimed] tl₁ := by
    have hupdated := Built.updated (.rebuilt (Except.toOption_eq_some.mp htl)) takenTicks
      ⟨-3, by decide⟩
    rw [htl₁] at hupdated
    exact hupdated
  refine ⟨tl, tl₁, Except.toOption_eq_some.mp htl, htl₁, hnumbers, ?_, ?_⟩
  · obtain ⟨⟨⟩, tl₂, htl₂⟩ := EStateM.exists_ok_of_isSome hgiven
    obtain ⟨hmore, -, hvalue, -⟩ := applyDelta_exact hbuilt givenTicks ⟨4, by decide⟩
    exact ⟨tl₂, htl₂, fun more => (hmore more).trans htl₂, hvalue tl₂ htl₂⟩
  · obtain ⟨-, hfits, -, herror⟩ :=
      applyDelta_exact hbuilt givenTicks ⟨9223372036854775807, by decide⟩
    cases hlarge : applyDelta givenTicks ⟨9223372036854775807, by decide⟩ tl₁ with
    | ok u tl₂ =>
      obtain ⟨slack, hslack, hrange⟩ := hfits.mp ⟨tl₂, hlarge⟩ busyTick (by decide)
      have htwo : slack.val = 2 := by
        change (tl₁.slackAt busyTick).toOption.map Subtype.val = some 2 at hbusy
        rw [hslack] at hbusy
        exact Option.some.inj hbusy
      have hle : slack.val + 9223372036854775807 ≤ 9223372036854775807 := hrange.2
      omega
    | error error tl₂ =>
      obtain ⟨rfl, rfl⟩ := herror error tl₂ hlarge
      rfl

end SlackTimeline

end PromiseDb
