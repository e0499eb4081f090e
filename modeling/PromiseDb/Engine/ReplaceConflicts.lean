import PromiseDb.Engine.HoldConflicts

/-!
# The conflicts of a replacement

A replacement is evaluated while the promise to be replaced still counts as live, and its
identity is taken out of the conflicts only afterwards.  Two windows that differ in nothing but
this identity are therefore reported as two conflicts, although what is left of them agrees.

A hidden seam is a pair of such windows.  The conflicts of a replacement are normalized exactly
when it has no hidden seam; the promises that they list are right in any case.
-/

namespace PromiseDb

open StepFunction

namespace EngineState

/-! ## The conflicts of a replacement -/

/-- A replacement that returns was evaluated in the state after the expirations.  It reports the
conflicts without the replaced promise, or stores the new bundle. -/
theorem replaceAt_ok {id : PromiseId} {expected : Version} {new : Bundle}
    {live : ReplacementState} {now : Timestamp} {s s' : EngineState} {outcome : ReplaceOutcome}
    (h : replaceAt id expected new live now s = .ok outcome s') :
    ∃ count s₁ p sequence version p' restored admission,
      processExpirations now s = .ok count s₁ ∧ s₁.promises[id]? = some p ∧
      p.replace expected new live now sequence = .ok (version, p') ∧
      s₁.restoredTimelines p.bundle = .ok restored ∧
      s₁.evaluateBundleWithOverrides new restored = .ok admission ∧
      ((∃ found, admission = .unavailable found ∧ s' = s₁ ∧
        outcome = .unavailable (found.map fun c => { c with
          conflictingPromiseIds :=
            c.conflictingPromiseIds.filter fun other => decide (other ≠ id) })) ∨
      ∃ adjusted, admission = .available adjusted ∧ outcome = .replaced id version ∧
        s' = s₁.withPromise id p'
          (OrderedMap.extend s₁.slackTimelines (OrderedMap.extend restored adjusted)) sequence now
          .promiseReplaced) := by
  unfold replaceAt at h
  obtain ⟨count, s₁, hs₁, h⟩ := EStateM.bind_eq_ok.mp h
  rw [EStateM.get_bind_apply] at h
  obtain ⟨e, -, herr⟩ | ⟨p, hp, h⟩ := EStateM.ofExcept_bind_cases h
  · cases herr
  dsimp only at h
  split at h
  · cases h
  obtain ⟨e, -, herr⟩ | ⟨sequence, -, h⟩ := EStateM.ofExcept_bind_cases h
  · cases herr
  obtain ⟨e, -, herr⟩ | ⟨⟨version, p'⟩, hp', h⟩ := EStateM.ofExcept_bind_cases h
  · cases herr
  dsimp only at h
  obtain ⟨e, -, herr⟩ | ⟨restored, hrestored, h⟩ := EStateM.ofExcept_bind_cases h
  · cases herr
  obtain ⟨e, -, herr⟩ | ⟨admission, hadmission, h⟩ := EStateM.ofExcept_bind_cases h
  · cases herr
  refine ⟨count, s₁, p, sequence, version, p', restored, admission, hs₁, Except.elim_eq_ok.mp hp,
    hp', hrestored, hadmission, ?_⟩
  cases admission with
  | unavailable found =>
    cases h
    exact .inl ⟨found, rfl, rfl, rfl⟩
  | available adjusted =>
    cases h
    exact .inr ⟨adjusted, rfl, rfl, rfl⟩

/-- Replacing reports the conflicts of the new bundle, in the state after the expirations and
without the replaced promise. -/
theorem replaceAt_unavailable {id : PromiseId} {expected : Version} {new : Bundle}
    {live : ReplacementState} {now : Timestamp} {s s' : EngineState}
    {conflicts : List AvailabilityConflict}
    (h : replaceAt id expected new live now s = .ok (.unavailable conflicts) s') :
    ∃ count p restored found, processExpirations now s = .ok count s' ∧
      s'.promises[id]? = some p ∧ s'.restoredTimelines p.bundle = .ok restored ∧
      s'.evaluateBundleWithOverrides new restored = .ok (.unavailable found) ∧
      conflicts = found.map fun c => { c with
        conflictingPromiseIds := c.conflictingPromiseIds.filter fun other => decide (other ≠ id) } := by
  obtain ⟨count, s₁, p, sequence, version, p', restored, admission, hs₁, hp, -, hrestored,
    hadmission, ⟨found, rfl, rfl, heq⟩ | ⟨adjusted, -, heq, -⟩⟩ := replaceAt_ok h
  · injection heq with heq
    exact ⟨count, p, restored, found, hs₁, hp, hrestored, hadmission, heq⟩
  · cases heq

/-- A conflict without a promise. -/
abbrev withoutPromise (id : PromiseId) (c : AvailabilityConflict) : AvailabilityConflict :=
  { c with conflictingPromiseIds := c.conflictingPromiseIds.filter fun other => decide (other ≠ id) }

/-- What the conflicts of a replacement should be: normalized, and each with exactly the other
live promises that overlap its interval. -/
structure ReplaceConflictsExact (s : EngineState) (id : PromiseId)
    (conflicts : List AvailabilityConflict) : Prop where
  /-- No two conflicts could have been merged. -/
  normalized : ∀ a ∈ conflicts, ∀ b ∈ conflicts, ¬Mergeable a b
  /-- The replaced promise is not listed. -/
  absent : ∀ c ∈ conflicts, id ∉ c.conflictingPromiseIds
  /-- The listed promises are the other live ones with a claim that overlaps the interval. -/
  promises : ∀ c ∈ conflicts, ∀ other, other ∈ c.conflictingPromiseIds ↔
    other ≠ id ∧ ∃ p, s.promises[other]? = some p ∧ p.isActive = true ∧
      ∃ claim ∈ p.bundle.claims, claim.poolId = c.resourcePoolId ∧
        claim.interval.overlaps c.blockingInterval = true

/-! ## Hidden seams -/

/-- The slack of a pool when the demand of a bundle is given back. -/
def slackWithout (tl : SlackTimeline) (old : Bundle) (poolId : ResourcePoolId) (t : Timestamp) : ℤ :=
  tl.slackValue t + old.demandAt poolId t

/-- The slack that a replacement must leave: none of its own on a pool that the old bundle does not
use, and otherwise no less than an existing deficit. -/
def slackFloor (tl : SlackTimeline) (old : Bundle) (poolId : ResourcePoolId) (t : Timestamp) : ℤ :=
  if old.claimsOn poolId = [] then 0 else min (tl.slackValue t) 0

/-- The timestamps at which a replacement is checked: the new bundle has a claim that starts or
ends there, or a claim that covers a change of the slack without the old bundle. -/
def SweepPoint (tl : SlackTimeline) (old new : Bundle) (poolId : ResourcePoolId) (t : Timestamp) :
    Prop :=
  (∃ c ∈ new.claimsOn poolId, c.interval.start = t ∨ c.interval.stop = t) ∨
    ChangesAt 0 (slackWithout tl old poolId) t ∧
      ∃ c ∈ new.claimsOn poolId, c.interval.contains t = true

/-- An interval between two neighbouring checks, the first of which fails. -/
structure RefusedSegment (tl : SlackTimeline) (old new : Bundle) (poolId : ResourcePoolId)
    (i : Interval) : Prop where
  /-- The interval starts and stops at a check, -/
  ends : SweepPoint tl old new poolId i.start ∧ SweepPoint tl old new poolId i.stop
  /-- and there is none in between. -/
  between : ∀ t, SweepPoint tl old new poolId t → t ≤ i.start ∨ i.stop ≤ t
  /-- The new bundle has a demand. -/
  demand : 0 < new.demandAt poolId i.start
  /-- The demand leaves less than it must. -/
  refused : slackWithout tl old poolId i.start - new.demandAt poolId i.start <
    slackFloor tl old poolId i.start

/-- Two refused segments that touch, with the same demand and the same available part of the
slack, and that differ in the live promises that overlap them only by the replaced one. -/
def HiddenSeam (s : EngineState) (id : PromiseId) (old new : Bundle) : Prop :=
  ∃ poolId tl, s.slackTimelines[poolId]? = some tl ∧ ∃ left right : Interval,
    RefusedSegment tl old new poolId left ∧ RefusedSegment tl old new poolId right ∧
    left.stop = right.start ∧
    new.demandAt poolId left.start = new.demandAt poolId right.start ∧
    max (slackWithout tl old poolId left.start) 0 = max (slackWithout tl old poolId right.start) 0 ∧
    s.activeOverlapping poolId left ≠ s.activeOverlapping poolId right ∧
    (s.activeOverlapping poolId left).filter (fun other => decide (other ≠ id)) =
      (s.activeOverlapping poolId right).filter fun other => decide (other ≠ id)

/-- Every timestamp is the first one or has one just before. -/
theorem timestamp_before (t : Timestamp) : IsMin t ∨ ∃ u, u ⋖ t := by
  have hlo := t.property.1
  have hhi := t.property.2
  rcases hlo.eq_or_lt with hmin | hlt
  · left
    intro u _
    change t.val ≤ u.val
    rw [← hmin]
    exact u.property.1
  · right
    refine ⟨⟨t.val - 1, by omega, by omega⟩, ?_, ?_⟩
    · change t.val - 1 < t.val
      omega
    · intro u hu hut
      change t.val - 1 < u.val at hu
      change u.val < t.val at hut
      omega

/-- The changes of a timeline are those of its slack. -/
theorem isChange_iff {base : SlackTimeline} (hb : base.WellFormed) {t : Timestamp} :
    IsChange base t ↔ ChangesAt 0 base.slackValue t := by
  obtain ⟨points, hpoints, hchanges⟩ := SlackTimeline.effectivePoints_spec hb
  have hmem : (∃ e ∈ dedup 0 base.changes, e.1 = t) ↔ ChangesAt 0 base.slackValue t :=
    mem_dedup_iff hb.increasing (timestamp_before t)
  rw [← hmem, ← hchanges]
  constructor
  · rintro ⟨points', hpoints', p, hp, rfl⟩
    obtain rfl : points = points' := Except.ok.inj (hpoints.symm.trans hpoints')
    exact ⟨p.change, List.mem_map.mpr ⟨p, hp, rfl⟩, rfl⟩
  · rintro ⟨e, he, rfl⟩
    obtain ⟨p, hp, rfl⟩ := List.mem_map.mp he
    exact ⟨points, hpoints, p, hp, rfl⟩

/-- What a pool of the new bundle is evaluated against. -/
structure EvaluatedWithout (tl : SlackTimeline) (old : Bundle) (poolId : ResourcePoolId)
    (base : SlackTimeline) (deficitFloor : Option SlackTimeline) : Prop where
  /-- The base can be read. -/
  wellFormed : base.WellFormed
  /-- The base is the slack without the old bundle. -/
  value : ∀ t, base.slackValue t = slackWithout tl old poolId t
  /-- The floor is zero or an existing deficit. -/
  floor : ∀ t, floorValue deficitFloor t = slackFloor tl old poolId t

/-- A pool is evaluated against the slack without the old bundle. -/
theorem Restored.evaluatedWithout {s : EngineState} (hs : s.TimelinesWellFormed) {old : Bundle}
    {restored : OrderedMap ResourcePoolId SlackTimeline} (h : Restored s old restored)
    {poolId : ResourcePoolId} {base : SlackTimeline} {deficitFloor : Option SlackTimeline}
    (hon : s.EvaluatedOn restored poolId base deficitFloor) :
    ∃ tl, s.slackTimelines[poolId]? = some tl ∧
      EvaluatedWithout tl old poolId base deficitFloor := by
  rcases hon with ⟨hover, current, hcurrent, rfl⟩ | ⟨hover, hbase, rfl⟩
  · have hne : old.claimsOn poolId ≠ [] := by
      intro hnil
      rw [h.absent poolId hnil] at hover
      cases hover
    obtain ⟨tl, tl', htl, htl', hwf, hvalue⟩ := h.present poolId hne
    obtain rfl : base = tl' := Option.some.inj (hover.symm.trans htl')
    obtain rfl : current = tl := Option.some.inj (hcurrent.symm.trans htl)
    refine ⟨current, htl, hwf, hvalue, ?_⟩
    intro t
    rw [slackFloor, if_neg hne]
    rfl
  · have hnil : old.claimsOn poolId = [] := by
      by_contra hne
      obtain ⟨-, tl', -, htl', -⟩ := h.present poolId hne
      rw [hover] at htl'
      cases htl'
    refine ⟨base, hbase, hs poolId base hbase, ?_, ?_⟩
    · intro t
      rw [slackWithout, Bundle.demandAt_of_nil hnil, add_zero]
    · intro t
      rw [slackFloor, if_pos hnil]
      rfl

/-- The times that are checked are those at which the sweep stops. -/
theorem EvaluatedWithout.checked_iff {tl : SlackTimeline} {old new : Bundle}
    {poolId : ResourcePoolId} {base : SlackTimeline} {deficitFloor : Option SlackTimeline}
    (h : EvaluatedWithout tl old poolId base deficitFloor) (t : Timestamp) :
    Checked (new.claimsOn poolId) base t ↔ SweepPoint tl old new poolId t := by
  rw [Checked, SweepPoint, isChange_iff h.wellFormed, funext h.value]

/-- A time passes if its slack is no less than the floor. -/
theorem EvaluatedWithout.passes_iff {tl : SlackTimeline} {old new : Bundle}
    {poolId : ResourcePoolId} {base : SlackTimeline} {deficitFloor : Option SlackTimeline}
    (h : EvaluatedWithout tl old poolId base deficitFloor) (t : Timestamp) :
    ¬Passes base deficitFloor (claimUsage (new.claimsOn poolId) t) t ↔
      slackWithout tl old poolId t - new.demandAt poolId t < slackFloor tl old poolId t := by
  rw [Passes, h.floor, h.value, not_le]
  rfl

/-- The refused segments are the refused windows of the evaluation. -/
theorem EvaluatedWithout.refusedSegment_iff {tl : SlackTimeline} {old new : Bundle}
    {poolId : ResourcePoolId} {base : SlackTimeline} {deficitFloor : Option SlackTimeline}
    (h : EvaluatedWithout tl old poolId base deficitFloor) (i : Interval) :
    RefusedSegment tl old new poolId i ↔
      IsWindow (new.claimsOn poolId) base i.start i.stop ∧
        ¬Passes base deficitFloor (claimUsage (new.claimsOn poolId) i.start) i.start := by
  rw [h.passes_iff]
  constructor
  · rintro ⟨⟨hstart, hstop⟩, hbetween, hdemand, hrefused⟩
    exact ⟨⟨i.start_lt_stop, (h.checked_iff _).mpr hstart, (h.checked_iff _).mpr hstop,
      fun t ht => hbetween t ((h.checked_iff t).mp ht), hdemand⟩, hrefused⟩
  · rintro ⟨⟨-, hstart, hstop, hbetween, hdemand⟩, hrefused⟩
    exact ⟨⟨(h.checked_iff _).mp hstart, (h.checked_iff _).mp hstop⟩,
      fun t ht => hbetween t ((h.checked_iff t).mpr ht), hdemand, hrefused⟩

/-- A refusal spans a refused segment, and says what holds at its start. -/
theorem IsRefusal.segment {s : EngineState} {tl : SlackTimeline} {old new : Bundle}
    {poolId : ResourcePoolId} {base : SlackTimeline} {deficitFloor : Option SlackTimeline}
    (h : EvaluatedWithout tl old poolId base deficitFloor) {r : AvailabilityConflict}
    (hr : IsRefusal s poolId (new.claimsOn poolId) base deficitFloor r) :
    RefusedSegment tl old new poolId r.blockingInterval ∧
      r.requiredQuantity.val = new.demandAt poolId r.blockingInterval.start ∧
      r.availableQuantity.val = max (slackWithout tl old poolId r.blockingInterval.start) 0 ∧
      r.conflictingPromiseIds = s.activeOverlapping poolId r.blockingInterval := by
  refine ⟨(h.refusedSegment_iff _).mpr ⟨hr.window, hr.explains.refused.2⟩, hr.explains.required, ?_,
    hr.explains.ids⟩
  rw [hr.explains.available, h.value]

/-! ## Normalization up to hidden seams -/

/-- Two conflicts that can be merged only without a promise meet in a hidden seam. -/
theorem hiddenSeam_of_mergeable {s : EngineState} (hs : s.TimelinesWellFormed) {id : PromiseId}
    {old new : Bundle} {restored : OrderedMap ResourcePoolId SlackTimeline}
    (hrestored : Restored s old restored) {conflicts : List AvailabilityConflict}
    (h : BundleConflicts s restored new conflicts) {a b : AvailabilityConflict} (ha : a ∈ conflicts)
    (hb : b ∈ conflicts) (hab : Mergeable (withoutPromise id a) (withoutPromise id b)) :
    HiddenSeam s id old new := by
  obtain ⟨hpool, htouch, hrequired, havailable, hdeficit, hids⟩ := hab
  dsimp only [withoutPromise] at hpool htouch hrequired havailable hdeficit hids
  have hdiffer : a.conflictingPromiseIds ≠ b.conflictingPromiseIds := fun hsame =>
    h.normalized ha hb ⟨hpool, htouch, hrequired, havailable, hdeficit, hsame⟩
  obtain ⟨base, deficitFloor, hon, poolConflicts, ⟨raws, hmerge, hrefusal, -⟩, hmem⟩ :=
    h.onPool a.resourcePoolId (h.pools a ha)
  obtain ⟨tl, htl, hevaluated⟩ := hrestored.evaluatedWithout hs hon
  obtain ⟨left, hleft, hleftstop, hleftlabel, -⟩ := hmerge.exists_last
    (fun r _ => conflictView_proper r) ((hmem a).mpr ⟨ha, rfl⟩)
  obtain ⟨right, hright, hrightstart, hrightlabel, -⟩ := hmerge.exists_first
    ((hmem b).mpr ⟨hb, hpool.symm⟩)
  obtain ⟨hleftsegment, hleftrequired, hleftavailable, hleftids⟩ :=
    (hrefusal left hleft).segment hevaluated
  obtain ⟨hrightsegment, hrightrequired, hrightavailable, hrightids⟩ :=
    (hrefusal right hright).segment hevaluated
  simp only [conflictView, Prod.mk.injEq] at hleftlabel hrightlabel
  obtain ⟨-, hlreq, hlavail, -, hlids⟩ := hleftlabel
  obtain ⟨-, hrreq, hravail, -, hrids⟩ := hrightlabel
  refine ⟨a.resourcePoolId, tl, htl, left.blockingInterval, right.blockingInterval, hleftsegment,
    hrightsegment, hleftstop.trans (htouch.trans hrightstart.symm), ?_, ?_, ?_, ?_⟩
  · rw [← hleftrequired, ← hrightrequired, hlreq, hrreq, hrequired]
  · rw [← hleftavailable, ← hrightavailable, hlavail, hravail, havailable]
  · rw [← hleftids, ← hrightids, hlids, hrids]
    exact hdiffer
  · rw [← hleftids, ← hrightids, hlids, hrids]
    exact hids

/-- A hidden seam leaves two conflicts that can be merged without the promise. -/
theorem mergeable_of_hiddenSeam {s : EngineState} (hs : s.TimelinesWellFormed) {id : PromiseId}
    {old new : Bundle} {restored : OrderedMap ResourcePoolId SlackTimeline}
    (hrestored : Restored s old restored) {conflicts : List AvailabilityConflict}
    (h : BundleConflicts s restored new conflicts) (hseam : HiddenSeam s id old new) :
    ∃ a ∈ conflicts, ∃ b ∈ conflicts, Mergeable (withoutPromise id a) (withoutPromise id b) := by
  obtain ⟨poolId, tl, htl, left, right, hleft, hright, htouch, hdemand, hslack, hdiffer, hsame⟩ :=
    hseam
  have hne : new.claimsOn poolId ≠ [] := by
    intro hnil
    have hpos := hleft.demand
    rw [Bundle.demandAt_of_nil hnil] at hpos
    exact lt_irrefl _ hpos
  obtain ⟨base, deficitFloor, hon, poolConflicts, hconflicts, hmem⟩ := h.onPool poolId hne
  obtain ⟨tl', htl', hevaluated⟩ := hrestored.evaluatedWithout hs hon
  obtain rfl : tl = tl' := Option.some.inj (htl.symm.trans htl')
  obtain ⟨hleftwindow, hleftrefused⟩ := (hevaluated.refusedSegment_iff left).mp hleft
  obtain ⟨hrightwindow, hrightrefused⟩ := (hevaluated.refusedSegment_iff right).mp hright
  -- the conflicts around the seam
  obtain ⟨a, ha, hta⟩ := hconflicts.covers hleftwindow hleftrefused le_rfl left.start_lt_stop
  obtain ⟨b, hb, htb⟩ := hconflicts.covers hrightwindow hrightrefused le_rfl right.start_lt_stop
  obtain ⟨r, hr, htr, hapool, harequired, haavailable, hadeficit, haids, hastart, hastop⟩ :=
    hconflicts.covered hevaluated.wellFormed ha hta
  obtain ⟨r', hr', htr', hbpool, hbrequired, hbavailable, hbdeficit, hbids, hbstart, hbstop⟩ :=
    hconflicts.covered hevaluated.wellFormed hb htb
  have hwindow {i : Interval} {r : AvailabilityConflict}
      (hi : IsWindow (new.claimsOn poolId) base i.start i.stop)
      (hr : IsRefusal s poolId (new.claimsOn poolId) base deficitFloor r)
      (ht : r.blockingInterval.contains i.start = true) : r.blockingInterval = i := by
    obtain ⟨h₁, h₂⟩ := hr.window.unique hi (Interval.contains_iff.mp ht).1
      (Interval.contains_iff.mp ht).2 le_rfl i.start_lt_stop
    exact Interval.eq_of_ends h₁ h₂
  have hrleft := hwindow hleftwindow hr htr
  have hrright := hwindow hrightwindow hr' htr'
  rw [hr.explains.ids, hrleft] at haids
  rw [hr'.explains.ids, hrright] at hbids
  rw [hrleft] at hastop
  rw [hrright] at hbstart
  -- they are different, so that the first ends where the second starts
  have hnot : a ≠ b := by
    rintro rfl
    exact hdiffer (haids.symm.trans hbids)
  obtain ⟨raws, hmerge, -⟩ := hconflicts
  have htouch' : a.blockingInterval.stop = b.blockingInterval.start := by
    rcases hmerge.follows_or ha hb hnot with hfollows | hfollows
    · exact le_antisymm hfollows.1 (hbstart.trans (htouch ▸ hastop))
    · have hlt := left.start_lt_stop
      rw [htouch] at hlt
      have h₁ := (Interval.contains_iff.mp htb).2
      have h₂ := (Interval.contains_iff.mp hta).1
      exact absurd (h₁.trans_le (hfollows.1.trans h₂)) hlt.asymm
  refine ⟨a, ((hmem a).mp ha).1, b, ((hmem b).mp hb).1, hapool.trans hbpool.symm, htouch',
    Subtype.ext ?_, Subtype.ext ?_, Subtype.ext ?_, ?_⟩
  · change a.requiredQuantity.val = b.requiredQuantity.val
    rw [harequired, hbrequired]
    exact hdemand
  · change a.availableQuantity.val = b.availableQuantity.val
    rw [haavailable, hbavailable, hevaluated.value, hevaluated.value, hslack]
  · change a.deficitQuantity.val = b.deficitQuantity.val
    rw [hadeficit, hbdeficit, hevaluated.value, hevaluated.value, hslack]
    exact congrArg (· - _) hdemand
  · change a.conflictingPromiseIds.filter _ = b.conflictingPromiseIds.filter _
    rw [haids, hbids]
    exact hsame

/-- The reported conflicts are exact when there is no hidden seam, and only then. -/
theorem replaceConflictsExact_iff {s : EngineState} (hs : s.TimelinesWellFormed) {id : PromiseId}
    {old new : Bundle} {restored : OrderedMap ResourcePoolId SlackTimeline}
    (hrestored : Restored s old restored) {conflicts : List AvailabilityConflict}
    (h : BundleConflicts s restored new conflicts) :
    ReplaceConflictsExact s id (conflicts.map (withoutPromise id)) ↔ ¬HiddenSeam s id old new := by
  have hids : ∀ c ∈ conflicts, c.conflictingPromiseIds =
      s.activeOverlapping c.resourcePoolId c.blockingInterval := by
    intro c hc
    obtain ⟨base, deficitFloor, hon, poolConflicts, hconflicts, hmem⟩ := h.onPool _ (h.pools c hc)
    obtain ⟨tl, -, hevaluated⟩ := hrestored.evaluatedWithout hs hon
    exact hconflicts.ids hevaluated.wellFormed ((hmem c).mpr ⟨hc, rfl⟩)
  constructor
  · intro hexact hseam
    obtain ⟨a, ha, b, hb, hab⟩ := mergeable_of_hiddenSeam hs hrestored h hseam
    exact hexact.normalized _ (List.mem_map_of_mem ha) _ (List.mem_map_of_mem hb) hab
  · intro hnone
    refine ⟨?_, ?_, ?_⟩
    · intro a ha b hb hab
      obtain ⟨a, hmem, rfl⟩ := List.mem_map.mp ha
      obtain ⟨b, hmem', rfl⟩ := List.mem_map.mp hb
      exact hnone (hiddenSeam_of_mergeable hs hrestored h hmem hmem' hab)
    · intro c hc hid
      obtain ⟨c, -, rfl⟩ := List.mem_map.mp hc
      exact of_decide_eq_true (List.mem_filter.mp hid).2 rfl
    · intro c hc other
      obtain ⟨c, hmem, rfl⟩ := List.mem_map.mp hc
      rw [List.mem_filter, decide_eq_true_eq, hids c hmem, mem_activeOverlapping]
      exact and_comm

end EngineState

namespace Engine

open EngineState

variable {blake3 : List UInt8 → CommandHash}

/-- The conflicts of a refused replacement are exact when it has no hidden seam in the state after
the expirations, and only then. -/
theorem replace_conflicts_exact_iff {e : Engine} (h : Reachable blake3 e) {id : PromiseId}
    {expected : Version} {new : Bundle} {live : ReplacementState} {now : Timestamp}
    {conflicts : List AvailabilityConflict} {s : EngineState}
    (hrefused : applyOnce (.replace id expected new live) now e.state =
      .ok (.promiseReplaced (.unavailable conflicts)) s) :
    ∃ count p, processExpirations now e.state = .ok count s ∧ s.promises[id]? = some p ∧
      (ReplaceConflictsExact s id conflicts ↔ ¬HiddenSeam s id p.bundle new) := by
  obtain ⟨error, s', -, herr⟩ | ⟨outcome, s', hreplace, hok⟩ := map_cases hrefused
  · cases herr
  cases hok
  obtain ⟨count, p, restored, found, hexpired, hp, hrestored, hfound, rfl⟩ :=
    replaceAt_unavailable hreplace
  have hspec := processExpirations_spec now e.state
  rw [hexpired] at hspec
  have hwf := (indexExact_expirations h.indexExact hspec).wellFormed
  have hsound := restoredTimelines_sound hwf hrestored
  have hconflicts := evaluateBundle_conflicts hwf hsound.overridesWellFormed hfound
  exact ⟨count, p, hexpired, hp, replaceConflictsExact_iff hwf hsound hconflicts⟩

/-- The claims of twelve units during the first ten ticks and during the next ten. -/
def sampleSplitClaims : List Claim :=
  (sampleBundle 0 10 12 sample_ten_pos sample_twelve_pos).claims ++
    (sampleBundle 10 10 12 sample_ten_pos sample_twelve_pos).claims

/-- There are claims. -/
theorem sampleSplitClaims_ne_nil : sampleSplitClaims ≠ [] := List.cons_ne_nil _ _

/-- Twelve units during the first ten ticks and twelve during the next ten. -/
def sampleSplitBundle : Bundle := ⟨sampleSplitClaims, sampleSplitClaims_ne_nil⟩

/-- The replacement of the sample hold, which has five units during the first ten ticks. -/
def sampleReplace : CommandOperation :=
  .replace samplePromiseId .initial sampleSplitBundle .committed

/-- The conflicts of a refused replacement. -/
def replaceConflicts : EStateM.Result DomainError EngineState CommandResult →
    Option (List AvailabilityConflict × EngineState)
  | .ok (.promiseReplaced (.unavailable conflicts)) s => some (conflicts, s)
  | _ => none

/-- The conflicts are those of a refused replacement. -/
theorem replaceConflicts_eq_some {r : EStateM.Result DomainError EngineState CommandResult}
    {conflicts : List AvailabilityConflict} {s : EngineState}
    (h : replaceConflicts r = some (conflicts, s)) :
    r = .ok (.promiseReplaced (.unavailable conflicts)) s := by
  unfold replaceConflicts at h
  split at h
  · obtain ⟨rfl, rfl⟩ := Prod.mk.inj (Option.some.inj h)
    rfl
  · cases h

/-- Whether a list consists of two conflicts that could have been merged. -/
def isMergeablePair : List AvailabilityConflict → Bool
  | [a, b] => decide (Mergeable a b)
  | _ => false

/-- After the sample run the replacement is refused with two conflicts that touch and agree. -/
theorem sampleReplace_refused : ∃ conflicts s,
    applyOnce sampleReplace (sampleTime 2) sampleEngine.state =
      .ok (.promiseReplaced (.unavailable conflicts)) s ∧
    ∃ a b, conflicts = [a, b] ∧ Mergeable a b := by
  have hpair : ((replaceConflicts (applyOnce sampleReplace (sampleTime 2)
      sampleEngine.state)).map fun found => isMergeablePair found.1) = some true := by
    decide +kernel
  obtain ⟨⟨conflicts, s⟩, hfound, hpair⟩ := Option.map_eq_some_iff.mp hpair
  refine ⟨conflicts, s, replaceConflicts_eq_some hfound, ?_⟩
  dsimp only at hpair
  unfold isMergeablePair at hpair
  split at hpair
  · rename_i a b
    exact ⟨a, b, rfl, of_decide_eq_true hpair⟩
  · cases hpair

/-- Refused replacements do not always report normalized conflicts: the two conflicts of the
sample differ only in the replaced promise, which is taken out of them. -/
theorem replace_conflicts_not_normalized :
    Reachable sampleHash sampleEngine ∧ ∃ conflicts s,
      applyOnce sampleReplace (sampleTime 2) sampleEngine.state =
        .ok (.promiseReplaced (.unavailable conflicts)) s ∧
      ¬ReplaceConflictsExact s samplePromiseId conflicts := by
  obtain ⟨conflicts, s, hrefused, a, b, rfl, hab⟩ := sampleReplace_refused
  refine ⟨sampleEngine_reachable, [a, b], s, hrefused, ?_⟩
  intro hexact
  exact hexact.normalized a (by simp) b (by simp) hab

/-- The replacement of the sample has a hidden seam exactly because its conflicts are not exact. -/
theorem replace_conflicts_exact_iff_sample : ∃ conflicts s count p,
    applyOnce sampleReplace (sampleTime 2) sampleEngine.state =
      .ok (.promiseReplaced (.unavailable conflicts)) s ∧
    processExpirations (sampleTime 2) sampleEngine.state = .ok count s ∧
    s.promises[samplePromiseId]? = some p ∧
    (ReplaceConflictsExact s samplePromiseId conflicts ↔
      ¬HiddenSeam s samplePromiseId p.bundle sampleSplitBundle) := by
  obtain ⟨conflicts, s, hrefused, -⟩ := sampleReplace_refused
  obtain ⟨count, p, hexpired, hp, hiff⟩ :=
    replace_conflicts_exact_iff sampleEngine_reachable hrefused
  exact ⟨conflicts, s, count, p, hrefused, hexpired, hp, hiff⟩

end Engine

end PromiseDb
