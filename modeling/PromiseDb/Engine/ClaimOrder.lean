import PromiseDb.Engine.BundleAdmission
import PromiseDb.Engine.Indistinguishable
import PromiseDb.Index.SlackIncremental
import PromiseDb.Library.Failures

/-!
# The order of claims

The evaluation of a pool sorts the starts and ends of its claims by time and merges what falls on one
timestamp.  In which order the claims come decides which of the merged sums is formed first, but not
what is merged: the changes of the demand are determined by the demand alone.  A sum that leaves its
range belongs to a demand that leaves the range of quantities, and is refused with the same error.
Claims that are given back only add to the slack, so they fit one by one exactly when they fit
together.
-/

namespace PromiseDb

/-! ## Changes are determined by their sums -/

/-- Changes at increasing timestamps are determined by the timestamps and the sums. -/
theorem changes_unique {l r : List (Timestamp × I128)} (hl : StepFunction.Increasing l)
    (hr : StepFunction.Increasing r) (hkeys : ∀ t, (∃ e ∈ l, e.1 = t) ↔ ∃ e ∈ r, e.1 = t)
    (hsums : ∀ t, changesUpTo l t = changesUpTo r t) : l = r := by
  induction l generalizing r with
  | nil =>
    cases r with
    | nil => rfl
    | cons a r =>
      obtain ⟨e, he, -⟩ := (hkeys a.1).mpr ⟨a, List.mem_cons_self, rfl⟩
      cases he
  | cons a l ih =>
    cases r with
    | nil =>
      obtain ⟨e, he, -⟩ := (hkeys a.1).mp ⟨a, List.mem_cons_self, rfl⟩
      cases he
    | cons b r =>
      obtain ⟨hal, hl⟩ := List.pairwise_cons.mp hl
      obtain ⟨hbr, hr⟩ := List.pairwise_cons.mp hr
      have hle {c d : Timestamp × I128} {m n : List (Timestamp × I128)}
          (hn : ∀ e ∈ n, d.1 < e.1) (h : ∃ e ∈ d :: n, e.1 = c.1) : d.1 ≤ c.1 := by
        obtain ⟨e, he, hec⟩ := h
        rcases List.mem_cons.mp he with rfl | he
        · exact hec.le
        · exact (hn e he).le.trans hec.le
      have hkey : a.1 = b.1 := le_antisymm
        (hle (m := r) hal ((hkeys b.1).mpr ⟨b, List.mem_cons_self, rfl⟩))
        (hle (m := l) hbr ((hkeys a.1).mp ⟨a, List.mem_cons_self, rfl⟩))
      have hafter (t : Timestamp) : (∃ e ∈ l, e.1 = t) ↔ ∃ e ∈ r, e.1 = t := by
        have hboth := hkeys t
        rw [List.exists_mem_cons_iff, List.exists_mem_cons_iff] at hboth
        constructor
        · rintro ⟨e, he, rfl⟩
          refine (hboth.mp (.inr ⟨e, he, rfl⟩)).resolve_left fun h => ?_
          exact (hal e he).ne (hkey.trans h)
        · rintro ⟨e, he, rfl⟩
          refine (hboth.mpr (.inr ⟨e, he, rfl⟩)).resolve_left fun h => ?_
          exact (hbr e he).ne (hkey.symm.trans h)
      have hvalue : a.2 = b.2 := by
        have hsum := hsums a.1
        rw [changesUpTo_cons, changesUpTo_cons, if_pos le_rfl, if_pos hkey.ge,
          changesUpTo_of_lt hal, changesUpTo_of_lt fun e he => hkey ▸ hbr e he] at hsum
        exact Subtype.ext (add_right_cancel hsum)
      have hab : a = b := Prod.ext hkey hvalue
      rw [hab] at hsums ⊢
      refine congrArg _ (ih hl hr hafter fun t => ?_)
      have hsum := hsums t
      rw [changesUpTo_cons, changesUpTo_cons] at hsum
      exact add_left_cancel hsum

namespace EngineState

/-- The changes sum up to the demand from the first one on. -/
theorem DemandChanges.changesUpTo_of_le {claims : List Claim} {base : SlackTimeline}
    {events : List (Timestamp × I128)} (h : DemandChanges claims base events) {t : Timestamp}
    (ht : ∃ e ∈ events, e.1 ≤ t) : changesUpTo events t = claimUsage claims t := by
  have hfirst : ∃ e ∈ events.head?, e.1 ≤ t := by
    have hinc := h.increasing
    cases events with
    | nil =>
      obtain ⟨e, he, -⟩ := ht
      cases he
    | cons a events =>
      obtain ⟨e, he, het⟩ := ht
      refine ⟨a, rfl, ?_⟩
      rcases List.mem_cons.mp he with rfl | he
      · exact het
      · exact ((List.pairwise_cons.mp hinc).1 e he).le.trans het
  rw [← h.sums t hfirst, zero_add]

/-- The changes of a demand are determined by it. -/
theorem DemandChanges.unique {claims : List Claim} {base : SlackTimeline}
    {events events' : List (Timestamp × I128)} (h : DemandChanges claims base events)
    (h' : DemandChanges claims base events') : events = events' := by
  have hkeys (t : Timestamp) : (∃ e ∈ events, e.1 = t) ↔ ∃ e ∈ events', e.1 = t :=
    (h.keys t).trans (h'.keys t).symm
  refine changes_unique h.increasing h'.increasing hkeys fun t => ?_
  by_cases ht : ∃ e ∈ events, e.1 ≤ t
  · have ht' : ∃ e ∈ events', e.1 ≤ t := by
      obtain ⟨e, he, het⟩ := ht
      obtain ⟨e', he', hkey⟩ := (hkeys e.1).mp ⟨e, he, rfl⟩
      exact ⟨e', he', hkey.le.trans het⟩
    rw [h.changesUpTo_of_le ht, h'.changesUpTo_of_le ht']
  · push Not at ht
    rw [changesUpTo_of_lt ht, changesUpTo_of_lt]
    intro e' he'
    obtain ⟨e, he, hkey⟩ := (hkeys e'.1).mpr ⟨e', he', rfl⟩
    exact (ht e he).trans_eq hkey

/-- The checked timestamps do not depend on the order of the claims. -/
theorem checked_perm {claims claims' : List Claim} (h : claims.Perm claims') (base : SlackTimeline)
    (t : Timestamp) : Checked claims base t ↔ Checked claims' base t := by
  unfold Checked
  simp only [h.mem_iff]

/-- Neither do the changes of the demand. -/
theorem DemandChanges.perm {claims claims' : List Claim} (h : claims.Perm claims')
    {base : SlackTimeline} {events : List (Timestamp × I128)}
    (hchanges : DemandChanges claims base events) : DemandChanges claims' base events where
  increasing := hchanges.increasing
  keys t := (hchanges.keys t).trans (checked_perm h base t)
  sums t ht := (hchanges.sums t ht).trans (SlackTimeline.claimUsage_perm h t)

/-! ## Demand that cannot be counted -/

/-- An evaluation that fails because of the demand. -/
abbrev Uncountable {α : Type} (x : Except DomainError α) : Prop := x.FailsIn (· = .quantityOverflow)

/-- Merging can only fail because of the demand. -/
theorem normalizeEvents_uncountable (last : Option (Timestamp × I128))
    (events : List (Timestamp × I128)) : Uncountable (normalizeEvents last events) := by
  induction events generalizing last with
  | nil =>
    cases last with
    | none => exact .ok _
    | some last => exact .ok _
  | cons event rest ih =>
    cases last with
    | none => exact ih _
    | some last =>
      rw [normalizeEvents]
      exact .ite (.bind (.elim rfl) fun _ => ih _) (.bind (ih _) fun _ => .ok _)

/-- A window can only fail because of the demand. -/
theorem evaluateWindow_uncountable {s : EngineState} {poolId : ResourcePoolId} {base : SlackTimeline}
    {deficitFloor : Option SlackTimeline} (hb : base.WellFormed)
    (hf : ∀ tl ∈ deficitFloor, tl.WellFormed) {w : WindowState}
    {window : (Timestamp × I128) × (Timestamp × I128)} (hlt : window.1.1 < window.2.1) :
    Uncountable (evaluateWindow s poolId base deficitFloor w window) := by
  intro error herror
  by_cases hrange : IsQuantity (w.currentDemand.val + window.1.2.val)
  · obtain ⟨w', hok, -⟩ := @evaluateWindow_spec s poolId _ _ hb hf _ _ _ rfl hrange hlt
    rw [hok] at herror
    cases herror
  · unfold evaluateWindow at herror
    cases hcurrent : w.currentDemand.checkedAdd window.1.2 with
    | none =>
      rw [hcurrent] at herror
      exact (Except.error.inj herror).symm
    | some current =>
      have hsum := BoundedInt.checkedAdd_eq_some.mp hcurrent
      have hnone : (BoundedInt.tryFrom current : Option Quantity) = none := by
        rw [Option.eq_none_iff_forall_not_mem]
        intro quantity hquantity
        have hvalue : current.val = quantity.val := BoundedInt.tryFrom_eq_some.mp hquantity
        exact hrange (hsum.trans hvalue ▸ quantity.property)
      rw [hcurrent, Option.elim_some, Except.ok_bind, hnone] at herror
      exact (Except.error.inj herror).symm

/-- All windows together can only fail because of the demand. -/
theorem evaluateWindows_uncountable {s : EngineState} {poolId : ResourcePoolId}
    {base : SlackTimeline} {deficitFloor : Option SlackTimeline} (hb : base.WellFormed)
    (hf : ∀ tl ∈ deficitFloor, tl.WellFormed) {events : List (Timestamp × I128)}
    (hinc : StepFunction.Increasing events) (w : WindowState) :
    Uncountable ((events.zip events.tail).foldlM (evaluateWindow s poolId base deficitFloor) w) := by
  induction events generalizing w with
  | nil => exact .ok w
  | cons e events ih =>
    cases events with
    | nil => exact .ok w
    | cons e' events =>
      obtain ⟨hfirst, hrest⟩ := List.pairwise_cons.mp hinc
      rw [foldlM_windows]
      exact .bind (evaluateWindow_uncountable hb hf (hfirst e' List.mem_cons_self)) fun _ =>
        ih hrest _

/-- When the windows are evaluated, the demand is a quantity everywhere. -/
theorem claimUsage_le_of_windows {s : EngineState} {poolId : ResourcePoolId} {claims : List Claim}
    {base : SlackTimeline} {deficitFloor : Option SlackTimeline} (hb : base.WellFormed)
    {events : List (Timestamp × I128)} (hchanges : DemandChanges claims base events)
    {windows : WindowState} (h : (events.zip events.tail).foldlM
      (evaluateWindow s poolId base deficitFloor) ⟨[], [], ⟨0, by decide⟩⟩ = .ok windows)
    (t : Timestamp) : claimUsage claims t ≤ 18446744073709551615 := by
  have hrange := evaluateWindows_range hchanges.increasing hchanges.sums hchanges.last h
  rcases (claimUsage_nonneg claims t).eq_or_lt with hzero | hpos
  · rw [← hzero]
    norm_num
  · obtain ⟨k, -, hchecked, husage, -⟩ := exists_checked hb hpos
    obtain ⟨e, he, rfl⟩ := (hchanges.keys k).mpr hchecked
    rw [← husage]
    exact (hrange e he).2

/-- A demand that is not a quantity everywhere is refused, whatever else there is. -/
theorem evaluatePoolOnTimeline_uncountable {s : EngineState} {poolId : ResourcePoolId}
    {claims : List Claim} {base : SlackTimeline} {deficitFloor : Option SlackTimeline}
    (hb : base.WellFormed) (hf : ∀ tl ∈ deficitFloor, tl.WellFormed)
    (h : ¬∀ t, claimUsage claims t ≤ 18446744073709551615) :
    s.evaluatePoolOnTimeline poolId claims base deficitFloor = .error .quantityOverflow := by
  obtain ⟨points, hpoints, -⟩ := SlackTimeline.effectivePoints_spec hb
  rw [evaluatePoolOnTimeline_eq, hpoints, indexResult, Except.ok_bind]
  cases hevents : normalizeEvents none (demandEvents claims points) with
  | error error =>
    rw [normalizeEvents_uncountable _ _ error hevents]
    rfl
  | ok events =>
    have hchanges := demandEvents_merged hpoints hevents
    rw [Except.ok_bind]
    cases hwindows : (events.zip events.tail).foldlM (evaluateWindow s poolId base deficitFloor)
        ⟨[], [], ⟨0, by decide⟩⟩ with
    | error error =>
      rw [evaluateWindows_uncountable hb hf hchanges.increasing _ error hwindows]
      rfl
    | ok windows => exact absurd (claimUsage_le_of_windows hb hchanges hwindows) h

/-- The evaluation of a pool does not depend on the order of the claims. -/
theorem evaluatePoolOnTimeline_perm {s : EngineState} {poolId : ResourcePoolId}
    {claims claims' : List Claim} {base : SlackTimeline} {deficitFloor : Option SlackTimeline}
    (hb : base.WellFormed) (hf : ∀ tl ∈ deficitFloor, tl.WellFormed) (h : claims.Perm claims') :
    s.evaluatePoolOnTimeline poolId claims base deficitFloor =
      s.evaluatePoolOnTimeline poolId claims' base deficitFloor := by
  have husage := SlackTimeline.claimUsage_perm h
  by_cases hrange : ∀ t, claimUsage claims t ≤ 18446744073709551615
  · have hrange' (t : Timestamp) : claimUsage claims' t ≤ 18446744073709551615 := husage t ▸ hrange t
    obtain ⟨points, hpoints, -⟩ := SlackTimeline.effectivePoints_spec hb
    obtain ⟨events, hevents⟩ := @demandEvents_ok claims points fun t =>
      (hrange t).trans (by norm_num)
    obtain ⟨events', hevents'⟩ := @demandEvents_ok claims' points fun t =>
      (hrange' t).trans (by norm_num)
    have hsame : events = events' :=
      ((demandEvents_merged hpoints hevents).perm h).unique (demandEvents_merged hpoints hevents')
    rw [evaluatePoolOnTimeline_eq, evaluatePoolOnTimeline_eq, hpoints, indexResult, Except.ok_bind,
      Except.ok_bind, hevents, hevents', hsame]
  · have hrange' : ¬∀ t, claimUsage claims' t ≤ 18446744073709551615 := fun hall =>
      hrange fun t => husage t ▸ hall t
    rw [evaluatePoolOnTimeline_uncountable hb hf hrange,
      evaluatePoolOnTimeline_uncountable hb hf hrange']

/-! ## Claims that are given back -/

/-- An update of a timeline can only run out of range. -/
theorem runUpdate_overflows (tl : SlackTimeline) (update : SlackTimeline.Update Unit) :
    (runUpdate tl update).FailsIn (· = .indexOverflow) := by
  unfold runUpdate
  cases update tl with
  | ok u tl' => exact .ok tl'
  | error e tl' => exact .error rfl

/-- Claims whose usage does not fit are not given back. -/
theorem restoreClaims_error {tl : SlackTimeline} (h : tl.WellFormed) {claims : List Claim}
    (hbad : ¬∀ t, tl.slackValue t + claimUsage claims t ≤ 9223372036854775807) :
    claims.foldlM restoreClaim tl = .error .indexOverflow := by
  cases hrun : claims.foldlM restoreClaim tl with
  | ok tl' =>
    obtain ⟨hwf, hvalue⟩ := restoreClaims_sound h hrun
    exact absurd (fun t => hvalue t ▸ (hwf.isSlack t).2) hbad
  | error error =>
    have hfails : (claims.foldlM restoreClaim tl).FailsIn (· = .indexOverflow) := by
      apply Except.FailsIn.foldlM
      intro tl claim
      exact .bind (.elim rfl) fun _ => runUpdate_overflows _ _
    rw [hfails error hrun]

/-- Giving claims back does not depend on their order. -/
theorem restoreClaims_agree {tl tl' : SlackTimeline} (h : tl.Same tl') {claims claims' : List Claim}
    (hperm : claims.Perm claims') :
    Except.Agree SlackTimeline.Same (claims.foldlM restoreClaim tl)
      (claims'.foldlM restoreClaim tl') := by
  have hsum (t : Timestamp) : tl.slackValue t + claimUsage claims t =
      tl'.slackValue t + claimUsage claims' t := by
    rw [h.slackValue, SlackTimeline.claimUsage_perm hperm]
  by_cases hle : ∀ t, tl.slackValue t + claimUsage claims t ≤ 9223372036854775807
  · obtain ⟨new, hnew, hwf, hvalue⟩ := restoreClaims_spec h.left hle
    obtain ⟨new', hnew', hwf', hvalue'⟩ := restoreClaims_spec h.right fun t => hsum t ▸ hle t
    rw [hnew, hnew']
    refine .ok ⟨hwf, hwf', fun t => ?_⟩
    rw [hvalue, hvalue', hsum]
  · have hle' : ¬∀ t, tl'.slackValue t + claimUsage claims' t ≤ 9223372036854775807 := fun hall =>
      hle fun t => hsum t ▸ hall t
    rw [restoreClaims_error h.left hle, restoreClaims_error h.right hle']
    exact .error _

/-! ## Claims by pool -/

/-- Reordered claims are grouped alike, up to the order within each group. -/
theorem claimsByPool_perm {claims claims' : List Claim} (h : claims.Perm claims') :
    OrderedMap.Rel List.Perm (claimsByPool claims) (claimsByPool claims') := by
  intro poolId
  have hfilter := h.filter fun c => decide (c.poolId = poolId)
  rw [lookup_claimsByPool, lookup_claimsByPool]
  by_cases hnil : claims.filter (fun c => decide (c.poolId = poolId)) = []
  · rw [if_pos hnil, if_pos (hnil ▸ hfilter).nil_eq.symm]
    exact .none
  · rw [if_neg hnil, if_neg fun hnil' => hnil (hnil' ▸ hfilter).eq_nil]
    exact .some hfilter

/-! ## Timelines that are rebuilt -/

/-- A rebuild does not depend on the order of the claims. -/
theorem fromCapacityAndClaims_agree (curve : CapacityCurve) {claims claims' : List Claim}
    (h : claims.Perm claims') :
    Except.Agree SlackTimeline.Same (indexResult (SlackTimeline.fromCapacityAndClaims curve claims))
      (indexResult (SlackTimeline.fromCapacityAndClaims curve claims')) := by
  have husage := SlackTimeline.claimUsage_perm h
  cases hl : SlackTimeline.fromCapacityAndClaims curve claims with
  | ok tl =>
    obtain ⟨hwf, hvalue⟩ := SlackTimeline.fromCapacityAndClaims_sound hl
    have hfits (t : Timestamp) : IsSlack ((curve.capacityAt t).val - claimUsage claims' t) := by
      rw [← husage, ← hvalue]
      exact hwf.isSlack t
    obtain ⟨tl', hr, hwf', hvalue'⟩ := SlackTimeline.fromCapacityAndClaims_spec hfits
    rw [hr]
    refine .ok ⟨hwf, hwf', fun t => ?_⟩
    rw [hvalue, hvalue', husage]
  | error error =>
    cases hr : SlackTimeline.fromCapacityAndClaims curve claims' with
    | error error' => exact .error _
    | ok tl' =>
      obtain ⟨hwf', hvalue'⟩ := SlackTimeline.fromCapacityAndClaims_sound hr
      have hfits (t : Timestamp) : IsSlack ((curve.capacityAt t).val - claimUsage claims t) := by
        rw [husage, ← hvalue']
        exact hwf'.isSlack t
      obtain ⟨tl, hok, -⟩ := SlackTimeline.fromCapacityAndClaims_spec hfits
      rw [hl] at hok
      cases hok

end EngineState

end PromiseDb
