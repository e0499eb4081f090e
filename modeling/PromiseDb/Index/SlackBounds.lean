import PromiseDb.Index.SlackRuns

/-!
# Bounds of slack over an interval

An overflow check trusts the least and the greatest slack over an interval.  They are read from the
aggregates of whole blocks and, where a block is only partly covered, from its points.  On every
timeline that can come about they are the least and the greatest slack at the timestamps of the
half-open interval.
-/

namespace PromiseDb

namespace SlackTimeline

/-- The timelines that come about: built in one of the ways there are, and then updated any number
of times, with or without success. -/
inductive Reached : SlackTimeline → Prop
  | empty : Reached empty
  | fromCapacityCurve {curve : CapacityCurve} {tl : SlackTimeline}
      (h : fromCapacityCurve curve = .ok tl) : Reached tl
  | fromCapacityAndClaims {curve : CapacityCurve} {claims : List Claim} {tl : SlackTimeline}
      (h : fromCapacityAndClaims curve claims = .ok tl) : Reached tl
  | fromCapacityAndPromises {curve : CapacityCurve} {poolId : ResourcePoolId}
      {promises : List Promise} {tl : SlackTimeline}
      (h : fromCapacityAndPromises curve poolId promises = .ok tl) : Reached tl
  | applyDelta {tl : SlackTimeline} (h : Reached tl) (interval : Interval) (delta : Slack) :
      Reached (applyDelta interval delta tl).finalState

/-- Every timeline that comes about can be read. -/
theorem Reached.wellFormed {tl : SlackTimeline} (h : Reached tl) : tl.WellFormed := by
  induction h with
  | empty => exact wellFormed_empty
  | fromCapacityCurve h => exact (fromCapacityAndClaims_sound h).1
  | fromCapacityAndClaims h => exact (fromCapacityAndClaims_sound h).1
  | fromCapacityAndPromises h => exact (fromCapacityAndClaims_sound h).1
  | applyDelta _ interval delta ih => exact ih.update interval delta

/-- The slack that is read at the timestamps of an interval. -/
def slacksWithin (tl : SlackTimeline) (i : Interval) : Set Slack :=
  {slack | ∃ t, i.contains t = true ∧ tl.slackAt t = .ok slack}

/-- The slack that is read within an interval is the value of the step function there. -/
theorem mem_slacksWithin {tl : SlackTimeline} (h : tl.WellFormed) {i : Interval} {slack : Slack} :
    slack ∈ tl.slacksWithin i ↔
      slack.val ∈ {x | ∃ t, i.start ≤ t ∧ t < i.stop ∧ tl.slackValue t = x} := by
  refine exists_congr fun t => ?_
  rw [Interval.contains_iff, and_assoc]
  refine and_congr_right fun _ => and_congr_right fun _ => ?_
  obtain ⟨read, hread, hvalue⟩ := slackAt_spec h t
  rw [hread, Except.ok.injEq, ← hvalue]
  exact Subtype.ext_iff

/-- On every timeline that comes about the bounds over an interval are read without an error, and
they are the least and the greatest slack at the timestamps of the interval. -/
theorem slackBounds_exact {tl : SlackTimeline} (h : Reached tl) (i : Interval) :
    (∃ least, tl.minimumSlack i = .ok least ∧ IsLeast (tl.slacksWithin i) least) ∧
      ∃ greatest, tl.maximumSlack i = .ok greatest ∧
        IsGreatest (tl.slacksWithin i) greatest := by
  have hwf := h.wellFormed
  constructor
  · obtain ⟨least, hleast, hmem, hle⟩ := minimumSlack_spec hwf i
    refine ⟨least, hleast, (mem_slacksWithin hwf).mpr hmem, ?_⟩
    intro slack hslack
    exact hle ((mem_slacksWithin hwf).mp hslack)
  · obtain ⟨greatest, hgreatest, hmem, hge⟩ := maximumSlack_spec hwf i
    refine ⟨greatest, hgreatest, (mem_slacksWithin hwf).mpr hmem, ?_⟩
    intro slack hslack
    exact hge ((mem_slacksWithin hwf).mp hslack)

/-- Three units taken from a pool without capacity are the least slack over a longer interval. -/
theorem slackBounds_exact_sample :
    ∃ (tl : SlackTimeline) (i : Interval) (least : Slack), Reached tl ∧
      tl.minimumSlack i = .ok least ∧ IsLeast (tl.slacksWithin i) least ∧ least.val = -3 := by
  let taken : Interval := ⟨⟨10, by decide⟩, ⟨20, by decide⟩, by decide⟩
  let around : Interval := ⟨⟨0, by decide⟩, ⟨15, by decide⟩, by decide⟩
  let delta : Slack := ⟨-3, by decide⟩
  have hreached : Reached (SlackTimeline.applyDelta taken delta .empty).finalState :=
    .applyDelta .empty taken delta
  obtain ⟨least, hleast, hisLeast⟩ := (slackBounds_exact hreached around).1
  have hvalue : ((SlackTimeline.applyDelta taken delta .empty).finalState.minimumSlack
      around).toOption.map (fun slack => slack.val) = some (-3) := by
    decide +kernel
  rw [hleast] at hvalue
  exact ⟨_, around, least, hreached, hleast, hisLeast, Option.some.inj hvalue⟩

end SlackTimeline

end PromiseDb
