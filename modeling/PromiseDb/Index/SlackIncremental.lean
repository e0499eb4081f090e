import PromiseDb.Index.SlackRuns
import PromiseDb.Library.Failures

/-!
# Building slack at once and claim by claim

The slack of a pool can be built from capacity and all claims at once, and it can be reached from
the capacity alone by taking one claim after another.  The first way adds up what starts and what
ends at a timestamp and cannot run into claims that end before they start.  The second way goes
through every slack in between, in whatever order the claims come.  When both succeed they give the
same canonical points, since these are determined by the slack they stand for.
-/

namespace PromiseDb

namespace SlackTimeline

/-! ## Failures of the rebuild -/

/-- A rebuild that runs out of range. -/
abbrev Overflows {α : Type} (x : Except IndexError α) : Prop := x.FailsIn (· = .slackOverflow)

/-- The sweep can only overflow when no event ends more usage than there is. -/
theorem sweep_overflows {capacity : I128} {usage : U128} {previous : Option Slack}
    {events : List (Timestamp × TimelineEvent)}
    (hended : ∀ l k e r, events = l ++ (k, e) :: r →
      0 ≤ usage.val + (l.map fun a => a.2.usageStarted.val - a.2.usageEnded.val).sum -
        e.usageEnded.val) :
    Overflows (sweep capacity usage previous events) := by
  induction events generalizing capacity usage previous with
  | nil => exact .ok []
  | cons e rest ih =>
    obtain ⟨k, e⟩ := e
    have hfirst := hended [] k e rest rfl
    rw [List.map_nil, List.sum_nil, add_zero] at hfirst
    have hend := e.usageEnded.property
    have huse := usage.property
    obtain ⟨usage₁, hu₁⟩ : ∃ u : U128, usage.val - e.usageEnded.val = u.val :=
      ⟨⟨_, by omega⟩, rfl⟩
    rw [sweep, BoundedInt.checkedSub_eq_some.mpr hu₁, Option.elim_some, Except.ok_bind]
    cases hu₂ : usage₁.checkedAdd e.usageStarted with
    | none => exact .error rfl
    | some usage₂ =>
      rw [Option.elim_some, Except.ok_bind]
      have hsum := BoundedInt.checkedAdd_eq_some.mp hu₂
      have hrest (previous : Option Slack) :
          Overflows (sweep (e.capacity.getD capacity) usage₂ previous rest) := by
        refine ih fun l k' e' r hr => ?_
        have h := hended ((k, e) :: l) k' e' r (by rw [hr]; rfl)
        rw [List.map_cons, List.sum_cons] at h
        dsimp only at h
        omega
      refine .bind (.elim rfl) fun signed => .bind (.elim rfl) fun wide => ?_
      refine .bind (.elim rfl) fun slack => .ite (hrest _) ?_
      exact .bind (hrest _) fun points => .ok _

/-- Recording claims can only overflow. -/
theorem addClaimEvents_overflows (events : OrderedMap Timestamp TimelineEvent) (claim : Claim) :
    Overflows (addClaimEvents events claim) :=
  .bind (.elim rfl) fun _ => .bind (.elim rfl) fun _ => .ok _

/-- The rebuild from capacity and claims can only overflow. -/
theorem fromCapacityAndClaims_overflows (curve : CapacityCurve) (claims : List Claim) :
    Overflows (fromCapacityAndClaims curve claims) := by
  intro error herror
  rw [fromCapacityAndClaims] at herror
  cases hevents : claims.foldlM addClaimEvents (curve.segments.foldl addSegmentEvents ∅) with
  | error error' =>
    have hover := Except.FailsIn.foldlM addClaimEvents_overflows claims _ error' hevents
    rw [hevents] at herror
    cases herror
    exact hover
  | ok events =>
    have hrec := addClaimEvents_foldlM_ok (records_segments curve) hevents
    rw [List.nil_append] at hrec
    have hsweep : Overflows (sweep ⟨0, I128.zero_range⟩ ⟨0, U128.zero_range⟩ none
        events.toList) := by
      refine sweep_overflows fun l k e r hl => ?_
      show 0 ≤ 0 + _ - _
      rw [zero_add]
      exact hrec.ended_le hl
    cases hpoints : sweep ⟨0, I128.zero_range⟩ ⟨0, U128.zero_range⟩ none events.toList with
    | error error' =>
      have hover := hsweep error' hpoints
      rw [hevents, Except.ok_bind, hpoints] at herror
      cases herror
      exact hover
    | ok points =>
      -- what the sweep accepts is representable, and then the rebuild succeeds
      obtain ⟨tl, htl, -⟩ := fromCapacityAndClaims_spec (sweep_records_isSlack hrec hpoints)
      rw [fromCapacityAndClaims] at htl
      rw [htl] at herror
      cases herror

/-! ## One claim after another -/

/-- The negative of a claimed quantity is a slack. -/
theorem neg_quantity_range (c : Claim) :
    -9223372036854775808 ≤ -c.quantity.val ∧ -c.quantity.val ≤ 9223372036854775807 := by
  have hpos := c.quantity_pos
  have hle : c.quantity.val ≤ 9223372036854775807 := c.quantity_le
  omega

/-- The change of slack when a claim is taken. -/
def claimDelta (c : Claim) : Slack := ⟨-c.quantity.val, neg_quantity_range c⟩

/-- Takes claims from a timeline, one after another. -/
def subtractClaims (claims : List Claim) : Update Unit :=
  claims.forM fun c => applyDelta c.interval (claimDelta c)

/-- What is left after some claims have been taken. -/
theorem subtractClaims_ok {claims : List Claim} {tl tl' : SlackTimeline} (h : tl.WellFormed)
    (hrun : subtractClaims claims tl = .ok ⟨⟩ tl') :
    tl'.WellFormed ∧ ∀ t, tl'.slackValue t = tl.slackValue t - claimUsage claims t := by
  induction claims generalizing tl with
  | nil =>
    cases hrun
    exact ⟨h, fun t => by rw [claimUsage_nil, sub_zero]⟩
  | cons c claims ih =>
    obtain ⟨_, tl₁, hstep, hrest⟩ := EStateM.bind_eq_ok.mp hrun
    replace hstep : applyDelta c.interval (claimDelta c) tl = .ok ⟨⟩ tl₁ := hstep
    by_cases hδ : ∀ t, c.interval.contains t = true → IsSlack (tl.slackValue t + (claimDelta c).val)
    · obtain ⟨tl₂, hok, hwf, hvalue⟩ := applyDelta_spec h hδ
      obtain rfl : tl₂ = tl₁ := by
        have hsame := hok.symm.trans hstep
        cases hsame
        rfl
      obtain ⟨hwf', hvalue'⟩ := ih hwf hrest
      refine ⟨hwf', fun t => ?_⟩
      rw [hvalue', hvalue, claimUsage_cons, Claim.usageAt]
      split
      · show _ + -c.quantity.val - _ = _
        ring
      · ring
    · push Not at hδ
      rw [applyDelta_error h hδ] at hstep
      cases hstep

/-- The claims take the same whatever order they come in. -/
theorem claimUsage_perm {claims order : List Claim} (h : order.Perm claims) (t : Timestamp) :
    claimUsage order t = claimUsage claims t :=
  (h.map _).sum_eq

/-! ## Both ways -/

/-- The rebuild succeeds exactly when capacity minus usage is representable everywhere, otherwise
it overflows, and its slack is that difference.  Taking the claims one after another from the
capacity leads to the same canonical points, in every order in which it succeeds. -/
theorem fromCapacityAndClaims_exact (curve : CapacityCurve) (claims : List Claim) :
    ((∃ tl, fromCapacityAndClaims curve claims = .ok tl) ↔
      ∀ t, IsSlack ((curve.capacityAt t).val - claimUsage claims t)) ∧
    (∀ error, fromCapacityAndClaims curve claims = .error error → error = .slackOverflow) ∧
    (∀ tl, fromCapacityAndClaims curve claims = .ok tl → ∀ t, ∃ slack, tl.slackAt t = .ok slack ∧
      slack.val = (curve.capacityAt t).val - claimUsage claims t) ∧
    ∀ order : List Claim, order.Perm claims → ∀ start taken,
      fromCapacityCurve curve = .ok start → subtractClaims order start = .ok ⟨⟩ taken →
      ∃ tl points, fromCapacityAndClaims curve claims = .ok tl ∧
        tl.effectivePoints = .ok points ∧ taken.effectivePoints = .ok points := by
  refine ⟨⟨?_, ?_⟩, fromCapacityAndClaims_overflows curve claims, ?_, ?_⟩
  · rintro ⟨tl, htl⟩
    exact fromCapacityAndClaims_isSlack htl
  · intro h
    obtain ⟨tl, htl, -⟩ := fromCapacityAndClaims_spec h
    exact ⟨tl, htl⟩
  · intro tl htl t
    obtain ⟨hwf, hvalue⟩ := fromCapacityAndClaims_sound htl
    obtain ⟨slack, hslack, hread⟩ := slackAt_spec hwf t
    exact ⟨slack, hslack, hread.trans (hvalue t)⟩
  · intro order horder start taken hstart htaken
    obtain ⟨start', hstart', hwf, hcapacity⟩ := fromCapacityCurve_spec curve
    obtain rfl : start' = start := Except.ok.inj (hstart'.symm.trans hstart)
    obtain ⟨hwf', hleft⟩ := subtractClaims_ok hwf htaken
    have hvalue (t : Timestamp) :
        taken.slackValue t = (curve.capacityAt t).val - claimUsage claims t := by
      rw [hleft, hcapacity, claimUsage_perm horder]
    have hrange (t : Timestamp) : IsSlack ((curve.capacityAt t).val - claimUsage claims t) := by
      rw [← hvalue]
      exact hwf'.isSlack t
    obtain ⟨tl, htl, hwf'', hbatch⟩ := fromCapacityAndClaims_spec hrange
    obtain ⟨points, hpoints, -⟩ := effectivePoints_spec hwf''
    refine ⟨tl, points, htl, hpoints, ?_⟩
    rw [← hpoints]
    refine effectivePoints_congr hwf' hwf'' fun t => ?_
    rw [hvalue, hbatch]

end SlackTimeline

end PromiseDb
