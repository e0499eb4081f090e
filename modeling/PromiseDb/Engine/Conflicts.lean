import PromiseDb.Engine.EventLog
import PromiseDb.Engine.IndexedAdmission
import PromiseDb.Library.SegmentMerge

/-!
# Conflicts

A pool that refuses the claims of a bundle says where: it reports one conflict for each window
that is refused, except that a window which only continues the one before extends its conflict.
The reported conflicts are therefore a normalized form of the refused windows: they cover the
same timestamps, each with the quantities and promises that hold there.

For a hold the windows are refused exactly where the demand exceeds the slack.
-/

namespace PromiseDb

open SegmentMerge

namespace EngineState

/-! ## Recording conflicts -/

/-- The interval of a conflict, and what the conflict says about it. -/
def conflictView : View AvailabilityConflict Timestamp
    (ResourcePoolId × Quantity × Quantity × Quantity × List PromiseId) where
  start c := c.blockingInterval.start
  stop c := c.blockingInterval.stop
  label c := (c.resourcePoolId, c.requiredQuantity, c.availableQuantity, c.deficitQuantity,
    c.conflictingPromiseIds)

/-- A conflict covers the times of its interval. -/
theorem conflictView_covers {c : AvailabilityConflict} {t : Timestamp} :
    conflictView.Covers c t ↔ c.blockingInterval.contains t = true :=
  Interval.contains_iff.symm

/-- A conflict starts before it stops. -/
theorem conflictView_proper (c : AvailabilityConflict) :
    conflictView.start c < conflictView.stop c := c.blockingInterval.start_lt_stop

/-- Recording a conflict that comes after the others on the same pool normalizes. -/
theorem pushConflict_isMerge {raws conflicts : List AvailabilityConflict}
    (h : conflictView.IsMerge raws conflicts) {conflict : AvailabilityConflict}
    (hpool : ∀ r ∈ raws, r.resourcePoolId = conflict.resourcePoolId)
    (hbefore : ∀ r ∈ raws, r.blockingInterval.stop ≤ conflict.blockingInterval.start)
    {result : List AvailabilityConflict} (hpush : pushConflict conflicts conflict = .ok result) :
    conflictView.IsMerge (raws ++ [conflict]) result := by
  have hstop : ∀ m ∈ conflicts, m.blockingInterval.stop ≤ conflict.blockingInterval.start :=
    fun m hm => h.stop_le hbefore hm
  unfold pushConflict at hpush
  split at hpush
  · rename_i hnone
    obtain rfl := Except.ok.inj hpush
    obtain rfl := List.getLast?_eq_none_iff.mp hnone
    exact h.append (conflictView_proper conflict) (by simp)
  · rename_i previous hprevious
    obtain ⟨front, rfl⟩ : ∃ front, conflicts = front ++ [previous] :=
      ⟨_, (List.dropLast_append_getLast? previous hprevious).symm⟩
    obtain ⟨r, hr, -, hlabel⟩ := h.ends previous (by simp)
    have hprevpool : previous.resourcePoolId = conflict.resourcePoolId :=
      (congrArg Prod.fst hlabel).symm.trans (hpool r hr)
    split at hpush
    · rename_i hsame
      obtain ⟨htouch, hrequired, havailable, hdeficit, hids⟩ := hsame
      obtain ⟨merged, hmerged, hpush⟩ := Except.bind_eq_ok.mp hpush
      obtain ⟨hstart, hend⟩ := Interval.new_eq_ok.mp hmerged
      obtain rfl := Except.ok.inj hpush
      rw [List.dropLast_concat]
      refine h.extend htouch ?_ (conflictView_proper conflict) hstart.symm hend.symm rfl
      change (_, _, _, _, _) = (_, _, _, _, _)
      rw [hprevpool, hrequired, havailable, hdeficit, hids]
    · rename_i hdiffer
      obtain rfl := Except.ok.inj hpush
      refine h.append (conflictView_proper conflict) ?_
      intro m hm
      refine ⟨hstop m hm, ?_⟩
      intro htouch hsame
      rcases List.mem_append.mp hm with hm | hm
      · -- a conflict before the last one does not reach the new one
        have hfollows := (List.pairwise_append.mp h.follows).2.2 m hm previous (by simp)
        have hlt := (hfollows.1.trans_lt (conflictView_proper previous)).trans_le
          (hstop previous (by simp))
        exact absurd htouch hlt.ne
      · obtain rfl := List.mem_singleton.mp hm
        simp only [conflictView, Prod.mk.injEq] at hsame
        exact hdiffer ⟨htouch, hsame.2⟩

/-! ## Refused windows -/

/-- The conflict says why a window with a demand is refused. -/
structure Explains (s : EngineState) (poolId : ResourcePoolId) (base : SlackTimeline)
    (deficitFloor : Option SlackTimeline) (demand : ℤ) (start stop : Timestamp)
    (c : AvailabilityConflict) : Prop where
  /-- The demand is refused. -/
  refused : 0 < demand ∧ ¬Passes base deficitFloor demand start
  /-- The conflict is on the pool. -/
  pool : c.resourcePoolId = poolId
  /-- The conflict spans the window. -/
  interval : c.blockingInterval.start = start ∧ c.blockingInterval.stop = stop
  /-- The required quantity is the demand. -/
  required : c.requiredQuantity.val = demand
  /-- The available quantity is the slack as far as it is positive. -/
  available : c.availableQuantity.val = max (base.slackValue start) 0
  /-- The deficit is what is missing. -/
  deficit : c.deficitQuantity.val = demand - max (base.slackValue start) 0
  /-- The promises are those that overlap the window. -/
  ids : c.conflictingPromiseIds = s.activeOverlapping poolId c.blockingInterval

/-- A refused demand exceeds what is available, so that the subtraction does not wrap. -/
theorem lt_of_not_passes {base : SlackTimeline} {deficitFloor : Option SlackTimeline} {demand : ℤ}
    {t : Timestamp} (hpos : 0 < demand) (h : ¬Passes base deficitFloor demand t) :
    max (base.slackValue t) 0 < demand := by
  have hfloor := floorValue_nonpos deficitFloor t
  refine max_lt ?_ hpos
  by_contra hle
  exact h (hfloor.trans (sub_nonneg.mpr (not_lt.mp hle)))

/-- A difference of quantities that is not negative does not wrap. -/
theorem wrappingSub_val {a b : Quantity} (h : b.val ≤ a.val) :
    (wrappingSub a b).val = a.val - b.val := by
  have ha := a.property
  have hb := b.property
  exact Int.emod_eq_of_lt (by omega) (by omega)

/-- The conflict that a refused window records. -/
theorem evaluateWindow_refused {s : EngineState} {poolId : ResourcePoolId} {base : SlackTimeline}
    {deficitFloor : Option SlackTimeline} (hb : base.WellFormed)
    (hf : ∀ tl ∈ deficitFloor, tl.WellFormed) {w w' : WindowState}
    {window : (Timestamp × I128) × (Timestamp × I128)} {demand : ℤ}
    (hdemand : w.currentDemand.val + window.1.2.val = demand) (hpos : 0 < demand)
    (hrefused : ¬Passes base deficitFloor demand window.1.1)
    (h : evaluateWindow s poolId base deficitFloor w window = .ok w') :
    ∃ c, Explains s poolId base deficitFloor demand window.1.1 window.2.1 c ∧
      pushConflict w.conflicts c = .ok w'.conflicts := by
  unfold evaluateWindow at h
  obtain ⟨current, hcurrent, h⟩ := Except.bind_eq_ok.mp h
  obtain ⟨required, hrequired, h⟩ := Except.bind_eq_ok.mp h
  have hc := (BoundedInt.checkedAdd_eq_some.mp (Except.elim_eq_ok.mp hcurrent)).symm.trans hdemand
  have hr := BoundedInt.tryFrom_eq_some.mp (Except.elim_eq_ok.mp hrequired)
  have hreq : required.val = demand := hr.symm.trans hc
  rw [if_neg (by omega)] at h
  obtain ⟨interval, hinterval, h⟩ := Except.bind_eq_ok.mp h
  obtain ⟨slack, hslack, h⟩ := Except.bind_eq_ok.mp h
  obtain ⟨finalSlack, hfinal, h⟩ := Except.bind_eq_ok.mp h
  obtain ⟨minimum, hminimum, h⟩ := Except.bind_eq_ok.mp h
  obtain ⟨available, havailable, h⟩ := Except.bind_eq_ok.mp h
  obtain ⟨conflicts, hconflicts, h⟩ := Except.bind_eq_ok.mp h
  obtain rfl := Except.ok.inj h
  obtain ⟨hstart, hstop⟩ := Interval.new_eq_ok.mp hinterval
  obtain ⟨slack', hslack', hval⟩ := SlackTimeline.slackAt_spec hb window.1.1
  obtain rfl : slack = slack' := by
    rw [← hstart, hslack'] at hslack
    exact (Except.ok.inj hslack).symm
  obtain ⟨minimum', hminimum', hmval⟩ := minimumAllowedSlack_spec hf window.1.1
  obtain rfl : minimum = minimum' := by
    rw [← hstart, hminimum'] at hminimum
    exact (Except.ok.inj hminimum).symm
  obtain ⟨available', havailable', haval⟩ := availableFrom_spec slack
  obtain rfl : available = available' := Except.ok.inj (havailable.symm.trans havailable')
  have hfval := BoundedInt.ofInt?_eq_some.mp (Except.elim_eq_ok.mp hfinal)
  have hlt : finalSlack.val < minimum.val := by
    rw [Passes, ← hval, ← hmval, not_le] at hrefused
    omega
  rw [recordConflict, if_pos (decide_eq_true hlt)] at hconflicts
  have hmissing := lt_of_not_passes hpos hrefused
  rw [hval] at haval
  refine ⟨_, ⟨⟨hpos, hrefused⟩, rfl, ⟨hstart.symm, hstop.symm⟩, hreq, haval, ?_, rfl⟩, hconflicts⟩
  change (wrappingSub required available).val = _
  rw [wrappingSub_val (by omega), hreq, haval]

/-- The evaluation of one window adds at most one conflict to those that are normalized. -/
theorem WindowAdds.conflicts {s : EngineState} {poolId : ResourcePoolId} {base : SlackTimeline}
    {deficitFloor : Option SlackTimeline} (hb : base.WellFormed)
    (hf : ∀ tl ∈ deficitFloor, tl.WellFormed) {w w' : WindowState}
    {window : (Timestamp × I128) × (Timestamp × I128)} {demand : ℤ}
    (hadds : WindowAdds base deficitFloor demand window.1.1 window.2.1 w w')
    (hdemand : w.currentDemand.val + window.1.2.val = demand) (hnonneg : 0 ≤ demand)
    {raws : List AvailabilityConflict} (hmerge : conflictView.IsMerge raws w.conflicts)
    (hpool : ∀ r ∈ raws, r.resourcePoolId = poolId)
    (hbefore : ∀ r ∈ raws, r.blockingInterval.stop ≤ window.1.1)
    (h : evaluateWindow s poolId base deficitFloor w window = .ok w') :
    ∃ now, conflictView.IsMerge (raws ++ now) w'.conflicts ∧
      (∀ r ∈ now, Explains s poolId base deficitFloor demand window.1.1 window.2.1 r) ∧
      (0 < demand → ¬Passes base deficitFloor demand window.1.1 →
        ∃ r ∈ now, Explains s poolId base deficitFloor demand window.1.1 window.2.1 r) := by
  rcases hnonneg.eq_or_lt with hzero | hpos
  · refine ⟨[], ?_, by simp, fun hpos => absurd hzero hpos.ne⟩
    rw [List.append_nil, (hadds.idle hzero.symm).1]
    exact hmerge
  · by_cases hpass : Passes base deficitFloor demand window.1.1
    · refine ⟨[], ?_, by simp, fun _ hnot => absurd hpass hnot⟩
      rw [List.append_nil, hadds.passed hpos hpass]
      exact hmerge
    · obtain ⟨c, hc, hpush⟩ := evaluateWindow_refused hb hf hdemand hpos hpass h
      refine ⟨[c], ?_, by simpa using hc, fun _ _ => ⟨c, by simp, hc⟩⟩
      refine pushConflict_isMerge hmerge (fun r hr => ?_) (fun r hr => ?_) hpush
      · rw [hpool r hr, hc.pool]
      · rw [hc.interval.1]
        exact hbefore r hr

/-- What the windows up to the end add to the refused windows so far. -/
structure WindowsExplained (s : EngineState) (poolId : ResourcePoolId) (base : SlackTimeline)
    (deficitFloor : Option SlackTimeline) (demand : Timestamp → ℤ)
    (events : List (Timestamp × I128)) (added : List AvailabilityConflict) : Prop where
  /-- Every new conflict explains a window. -/
  explains : ∀ r ∈ added, ∃ window ∈ events.zip events.tail,
    Explains s poolId base deficitFloor (demand window.1.1) window.1.1 window.2.1 r
  /-- Every refused window is explained. -/
  explained : ∀ window ∈ events.zip events.tail, 0 < demand window.1.1 →
    ¬Passes base deficitFloor (demand window.1.1) window.1.1 → ∃ r ∈ added,
      Explains s poolId base deficitFloor (demand window.1.1) window.1.1 window.2.1 r

/-- The evaluation of all windows normalizes the conflicts of the refused ones. -/
theorem evaluateWindows_conflicts {s : EngineState} {poolId : ResourcePoolId} {base : SlackTimeline}
    {deficitFloor : Option SlackTimeline} (hb : base.WellFormed)
    (hf : ∀ tl ∈ deficitFloor, tl.WellFormed) {demand : Timestamp → ℤ}
    {events : List (Timestamp × I128)} (hinc : StepFunction.Increasing events) {w w' : WindowState}
    (hdemand : DemandFrom demand w.currentDemand.val events)
    (hlast : ∀ e ∈ events.getLast?, demand e.1 = 0)
    (hrange : ∀ e ∈ events, IsQuantity (demand e.1)) {raws : List AvailabilityConflict}
    (hmerge : conflictView.IsMerge raws w.conflicts)
    (hpool : ∀ r ∈ raws, r.resourcePoolId = poolId)
    (hbefore : ∀ r ∈ raws, ∀ e ∈ events, r.blockingInterval.stop ≤ e.1)
    (h : (events.zip events.tail).foldlM (evaluateWindow s poolId base deficitFloor) w = .ok w') :
    ∃ added, conflictView.IsMerge (raws ++ added) w'.conflicts ∧
      WindowsExplained s poolId base deficitFloor demand events added := by
  induction events generalizing w raws with
  | nil =>
    obtain rfl := Except.ok.inj h
    exact ⟨[], by rwa [List.append_nil], by simp, by simp⟩
  | cons e events ih =>
    cases events with
    | nil =>
      obtain rfl := Except.ok.inj h
      exact ⟨[], by rwa [List.append_nil], by simp, by simp⟩
    | cons e' events =>
      have hlt : e.1 < e'.1 := (List.pairwise_cons.mp hinc).1 e' (by simp)
      have hrest := (List.pairwise_cons.mp hinc).2
      have hfirst := hdemand.first hinc
      rw [foldlM_windows] at h
      obtain ⟨w₁, hw₁, h⟩ := Except.bind_eq_ok.mp h
      obtain ⟨w₁', hw₁', hadds⟩ := @evaluateWindow_spec s poolId _ _ hb hf w (e, e') _ hfirst
        (hrange e (by simp)) hlt
      obtain rfl : w₁ = w₁' := Except.ok.inj (hw₁.symm.trans hw₁')
      obtain ⟨now, hmerge₁, hexplains, hexplained⟩ := hadds.conflicts hb hf hfirst
        (hrange e (by simp)).1 hmerge hpool (fun r hr => hbefore r hr e (by simp)) hw₁
      have hpool₁ : ∀ r ∈ raws ++ now, r.resourcePoolId = poolId := by
        intro r hr
        rcases List.mem_append.mp hr with hr | hr
        · exact hpool r hr
        · exact (hexplains r hr).pool
      have hbefore₁ : ∀ r ∈ raws ++ now, ∀ a ∈ e' :: events, r.blockingInterval.stop ≤ a.1 := by
        intro r hr a ha
        rcases List.mem_append.mp hr with hr | hr
        · exact hbefore r hr a (List.mem_cons_of_mem _ ha)
        · rw [(hexplains r hr).interval.2]
          rcases List.mem_cons.mp ha with rfl | ha
          · exact le_rfl
          · exact ((List.pairwise_cons.mp hrest).1 a ha).le
      obtain ⟨added, hmerge₂, hafter⟩ := ih hrest (w := w₁) (hadds.current ▸ hdemand.rest hinc)
        (fun a ha => hlast a (by rwa [List.getLast?_cons_cons]))
        (fun a ha => hrange a (List.mem_cons_of_mem _ ha)) hmerge₁ hpool₁ hbefore₁ h
      refine ⟨now ++ added, by rwa [← List.append_assoc], ?_, ?_⟩
      · intro r hr
        rcases List.mem_append.mp hr with hr | hr
        · exact ⟨(e, e'), List.mem_cons_self, hexplains r hr⟩
        · obtain ⟨window, hwindow, hr⟩ := hafter.explains r hr
          exact ⟨window, List.mem_cons_of_mem _ hwindow, hr⟩
      · intro window hwindow hpos hnot
        rcases List.mem_cons.mp hwindow with rfl | hwindow
        · obtain ⟨r, hr, hrexplains⟩ := hexplained hpos hnot
          exact ⟨r, List.mem_append_left _ hr, hrexplains⟩
        · obtain ⟨r, hr, hrexplains⟩ := hafter.explained window hwindow hpos hnot
          exact ⟨r, List.mem_append_right _ hr, hrexplains⟩

/-! ## The conflicts of one pool -/

/-- Two checked timestamps with a demand from the first one on and no checked timestamp in
between. -/
structure IsWindow (claims : List Claim) (base : SlackTimeline) (k k' : Timestamp) : Prop where
  /-- The window starts before it stops. -/
  lt : k < k'
  /-- The window starts at a checked timestamp. -/
  start : Checked claims base k
  /-- The window stops at a checked timestamp. -/
  stop : Checked claims base k'
  /-- No checked timestamp lies in between. -/
  between : ∀ j, Checked claims base j → j ≤ k ∨ k' ≤ j
  /-- There is a demand. -/
  demand : 0 < claimUsage claims k

/-- Every timestamp with a demand lies in a window, and demand and slack are those at its
start. -/
theorem exists_window {claims : List Claim} {base : SlackTimeline} (hb : base.WellFormed)
    {t : Timestamp} (ht : 0 < claimUsage claims t) :
    ∃ k k', IsWindow claims base k k' ∧ k ≤ t ∧ t < k' := by
  obtain ⟨k, hkt, hchecked, hlast⟩ := last_checked hb ht
  obtain ⟨keys, hkeys⟩ := @checked_finite claims _ hb
  obtain ⟨c, hc, hcov⟩ := claimUsage_pos_iff.mp ht
  have hmem (j : Timestamp) : j ∈ keys.filter (t < ·) ↔ Checked claims base j ∧ t < j := by
    rw [Finset.mem_filter, hkeys]
  obtain ⟨k', hk', hmin⟩ := (keys.filter (t < ·)).exists_min_image id
    ⟨c.interval.stop, (hmem _).mpr ⟨.inl ⟨c, hc, .inr rfl⟩, (Interval.contains_iff.mp hcov).2⟩⟩
  obtain ⟨hchecked', htk'⟩ := (hmem k').mp hk'
  refine ⟨k, k', ⟨hkt.trans_lt htk', hchecked, hchecked', ?_, ?_⟩, hkt, htk'⟩
  · intro j hj
    exact (hlast j hj).imp_right fun htj => hmin j ((hmem j).mpr ⟨hj, htj⟩)
  · rwa [← claimUsage_window hkt hlast]

/-- In a window demand and slack stay the same. -/
theorem IsWindow.constant {claims : List Claim} {base : SlackTimeline} (hb : base.WellFormed)
    {k k' : Timestamp} (h : IsWindow claims base k k') {t : Timestamp} (hkt : k ≤ t) (htk : t < k') :
    claimUsage claims t = claimUsage claims k ∧ base.slackValue t = base.slackValue k := by
  have hnone : ∀ j, Checked claims base j → j ≤ k ∨ t < j :=
    fun j hj => (h.between j hj).imp_right htk.trans_le
  exact ⟨claimUsage_window hkt hnone, slackValue_window hb hkt hnone h.demand⟩

/-- Two windows that share a timestamp are the same. -/
theorem IsWindow.unique {claims : List Claim} {base : SlackTimeline} {k k' j j' t : Timestamp}
    (h : IsWindow claims base k k') (h' : IsWindow claims base j j') (hkt : k ≤ t) (htk : t < k')
    (hjt : j ≤ t) (htj : t < j') : k = j ∧ k' = j' := by
  refine ⟨le_antisymm ?_ ?_, le_antisymm ?_ ?_⟩
  · exact (h'.between k h.start).resolve_right (hkt.trans_lt htj).not_ge
  · exact (h.between j h'.start).resolve_right (hjt.trans_lt htk).not_ge
  · exact (h.between j' h'.stop).resolve_left (hkt.trans_lt htj).not_ge
  · exact (h'.between k' h.stop).resolve_left (hjt.trans_lt htk).not_ge

/-- Consecutive elements of an increasing list are those with no key in between. -/
theorem mem_zip_tail_iff {l : List (Timestamp × I128)} (hl : StepFunction.Increasing l)
    {a b : Timestamp × I128} :
    (a, b) ∈ l.zip l.tail ↔ a ∈ l ∧ b ∈ l ∧ a.1 < b.1 ∧ ∀ e ∈ l, e.1 ≤ a.1 ∨ b.1 ≤ e.1 := by
  induction l with
  | nil => simp
  | cons e l ih =>
    obtain ⟨he, hrest⟩ := List.pairwise_cons.mp hl
    cases l with
    | nil =>
      simp only [List.tail_cons, List.zip_nil_right, List.not_mem_nil, List.mem_singleton, false_iff]
      rintro ⟨rfl, rfl, hlt, -⟩
      exact lt_irrefl _ hlt
    | cons e' l =>
      have hmin : ∀ x ∈ e' :: l, e'.1 ≤ x.1 := by
        intro x hx
        rcases List.mem_cons.mp hx with rfl | hx
        · exact le_rfl
        · exact ((List.pairwise_cons.mp hrest).1 x hx).le
      rw [List.tail_cons, List.zip_cons_cons, List.mem_cons, Prod.mk.injEq]
      constructor
      · rintro (⟨rfl, rfl⟩ | hmem)
        · refine ⟨by simp, by simp, he b (by simp), ?_⟩
          intro x hx
          rcases List.mem_cons.mp hx with rfl | hx
          · exact .inl le_rfl
          · exact .inr (hmin x hx)
        · obtain ⟨ha, hb, hlt, hbetween⟩ := (ih hrest).mp hmem
          refine ⟨List.mem_cons_of_mem _ ha, List.mem_cons_of_mem _ hb, hlt, ?_⟩
          intro x hx
          rcases List.mem_cons.mp hx with rfl | hx
          · exact .inl (he a ha).le
          · exact hbetween x hx
      · rintro ⟨ha, hb, hlt, hbetween⟩
        have hb' : b ∈ e' :: l := by
          rcases List.mem_cons.mp hb with rfl | hb
          · rcases List.mem_cons.mp ha with rfl | ha
            · exact absurd hlt (lt_irrefl _)
            · exact absurd hlt (he a ha).asymm
          · exact hb
        rcases List.mem_cons.mp ha with rfl | ha
        · left
          have hkey : b.1 = e'.1 := le_antisymm
            ((hbetween e' (by simp)).resolve_left (he e' (by simp)).not_ge) (hmin b hb')
          exact ⟨rfl, StepFunction.Increasing.eq_of_key hrest hb' (by simp) hkey⟩
        · right
          exact (ih hrest).mpr
            ⟨ha, hb', hlt, fun x hx => hbetween x (List.mem_cons_of_mem _ hx)⟩

/-- The conflict explains a refused window of the evaluation of a pool. -/
structure IsRefusal (s : EngineState) (poolId : ResourcePoolId) (claims : List Claim)
    (base : SlackTimeline) (deficitFloor : Option SlackTimeline) (c : AvailabilityConflict) :
    Prop where
  /-- The conflict spans a window. -/
  window : IsWindow claims base c.blockingInterval.start c.blockingInterval.stop
  /-- The conflict explains why it is refused. -/
  explains : Explains s poolId base deficitFloor (claimUsage claims c.blockingInterval.start)
    c.blockingInterval.start c.blockingInterval.stop c

/-- The conflicts of a pool are the normalized form of its refused windows. -/
def PoolConflicts (s : EngineState) (poolId : ResourcePoolId) (claims : List Claim)
    (base : SlackTimeline) (deficitFloor : Option SlackTimeline)
    (conflicts : List AvailabilityConflict) : Prop :=
  ∃ raws, conflictView.IsMerge raws conflicts ∧
    (∀ r ∈ raws, IsRefusal s poolId claims base deficitFloor r) ∧
    ∀ k k', IsWindow claims base k k' → ¬Passes base deficitFloor (claimUsage claims k) k →
      ∃ r ∈ raws, r.blockingInterval.start = k ∧ r.blockingInterval.stop = k'

/-- The conflicts that the answer of a pool carries. -/
def PoolAdmission.conflicts : PoolAdmission → List AvailabilityConflict
  | .available _ => []
  | .unavailable conflicts => conflicts

/-- The answer of the evaluation of a pool carries its refused windows, normalized. -/
theorem evaluatePoolOnTimeline_conflicts {s : EngineState} {poolId : ResourcePoolId}
    {claims : List Claim} {base : SlackTimeline} {deficitFloor : Option SlackTimeline}
    (hb : base.WellFormed) (hf : ∀ tl ∈ deficitFloor, tl.WellFormed) {admission : PoolAdmission}
    (h : s.evaluatePoolOnTimeline poolId claims base deficitFloor = .ok admission) :
    PoolConflicts s poolId claims base deficitFloor (PoolAdmission.conflicts admission) := by
  rw [evaluatePoolOnTimeline_eq] at h
  obtain ⟨points, hpoints, h⟩ := Except.bind_eq_ok.mp h
  obtain ⟨events, hevents, h⟩ := Except.bind_eq_ok.mp h
  obtain ⟨windows, hwindows, h⟩ := Except.bind_eq_ok.mp h
  have hchanges := demandEvents_merged (indexResult_eq_ok.mp hpoints) hevents
  have hrange := evaluateWindows_range hchanges.increasing hchanges.sums hchanges.last hwindows
  obtain ⟨raws, hmerge, hexplained⟩ := evaluateWindows_conflicts hb hf hchanges.increasing
    (w := ⟨[], [], ⟨0, by decide⟩⟩) hchanges.sums hchanges.last hrange View.isMerge_nil (by simp)
    (by simp) hwindows
  have hconflicts : windows.conflicts = PoolAdmission.conflicts admission := by
    unfold finishPool at h
    split at h
    · obtain rfl := Except.ok.inj h
      rfl
    · rename_i hnil
      obtain ⟨adjustments, -, h⟩ := Except.bind_eq_ok.mp h
      obtain ⟨tl, -, h⟩ := Except.bind_eq_ok.mp h
      obtain rfl := Except.ok.inj h
      exact not_not.mp hnil
  rw [hconflicts, List.nil_append] at hmerge
  have hmem (a b : Timestamp × I128) : (a, b) ∈ events.zip events.tail →
      a.1 < b.1 ∧ Checked claims base a.1 ∧ Checked claims base b.1 ∧
        ∀ j, Checked claims base j → j ≤ a.1 ∨ b.1 ≤ j := by
    intro hab
    obtain ⟨ha, hb, hlt, hbetween⟩ := (mem_zip_tail_iff hchanges.increasing).mp hab
    refine ⟨hlt, (hchanges.keys _).mp ⟨a, ha, rfl⟩, (hchanges.keys _).mp ⟨b, hb, rfl⟩, ?_⟩
    intro j hj
    obtain ⟨e, he, rfl⟩ := (hchanges.keys j).mpr hj
    exact hbetween e he
  refine ⟨raws, hmerge, ?_, ?_⟩
  · intro r hr
    obtain ⟨⟨a, b⟩, hab, hexplains⟩ := hexplained.explains r hr
    obtain ⟨hlt, ha, hb', hbetween⟩ := hmem a b hab
    obtain ⟨hstart, hstop⟩ := hexplains.interval
    refine ⟨?_, ?_⟩
    · rw [hstart, hstop]
      exact ⟨hlt, ha, hb', hbetween, hexplains.refused.1⟩
    · rw [hstart, hstop]
      exact hexplains
  · intro k k' hwindow hrefused
    obtain ⟨a, ha, rfl⟩ := (hchanges.keys k).mpr hwindow.start
    obtain ⟨b, hb', rfl⟩ := (hchanges.keys k').mpr hwindow.stop
    have hab : (a, b) ∈ events.zip events.tail :=
      (mem_zip_tail_iff hchanges.increasing).mpr ⟨ha, hb', hwindow.lt,
        fun e he => hwindow.between e.1 ((hchanges.keys e.1).mp ⟨e, he, rfl⟩)⟩
    obtain ⟨r, hr, hexplains⟩ := hexplained.explained (a, b) hab hwindow.demand hrefused
    exact ⟨r, hr, hexplains.interval⟩

/-- A timestamp of a conflict lies in a refused window inside the conflict, and the conflict says
what holds there. -/
theorem PoolConflicts.covered {s : EngineState} {poolId : ResourcePoolId} {claims : List Claim}
    {base : SlackTimeline} {deficitFloor : Option SlackTimeline}
    {conflicts : List AvailabilityConflict} (hb : base.WellFormed)
    (h : PoolConflicts s poolId claims base deficitFloor conflicts) {c : AvailabilityConflict}
    (hc : c ∈ conflicts) {t : Timestamp} (ht : c.blockingInterval.contains t = true) :
    ∃ r, IsRefusal s poolId claims base deficitFloor r ∧ r.blockingInterval.contains t = true ∧
      c.resourcePoolId = poolId ∧ c.requiredQuantity.val = claimUsage claims t ∧
      c.availableQuantity.val = max (base.slackValue t) 0 ∧
      c.deficitQuantity.val = claimUsage claims t - max (base.slackValue t) 0 ∧
      c.conflictingPromiseIds = r.conflictingPromiseIds ∧
      c.blockingInterval.start ≤ r.blockingInterval.start ∧
      r.blockingInterval.stop ≤ c.blockingInterval.stop := by
  obtain ⟨raws, hmerge, hrefusal, -⟩ := h
  obtain ⟨r, hr, hcovers, hlabel, hstart, hstop⟩ :=
    hmerge.covered_inside hc (conflictView_covers.mpr ht)
  have href := hrefusal r hr
  simp only [conflictView, Prod.mk.injEq] at hlabel
  obtain ⟨hpool, hrequired, havailable, hdeficit, hids⟩ := hlabel
  obtain ⟨husage, hslack⟩ := href.window.constant hb hcovers.1 hcovers.2
  refine ⟨r, href, conflictView_covers.mp hcovers, ?_, ?_, ?_, ?_, hids.symm, hstart, hstop⟩
  · rw [← hpool, href.explains.pool]
  · rw [← hrequired, href.explains.required, husage]
  · rw [← havailable, href.explains.available, hslack]
  · rw [← hdeficit, href.explains.deficit, husage, hslack]

/-- The conflicts of a pool are on the pool. -/
theorem PoolConflicts.pool {s : EngineState} {poolId : ResourcePoolId} {claims : List Claim}
    {base : SlackTimeline} {deficitFloor : Option SlackTimeline}
    {conflicts : List AvailabilityConflict} (hb : base.WellFormed)
    (h : PoolConflicts s poolId claims base deficitFloor conflicts) {c : AvailabilityConflict}
    (hc : c ∈ conflicts) : c.resourcePoolId = poolId := by
  obtain ⟨r, -, -, hpool, -⟩ := h.covered hb hc
    (Interval.contains_iff.mpr ⟨le_rfl, c.blockingInterval.start_lt_stop⟩)
  exact hpool

/-- Every timestamp of a refused window lies in a conflict. -/
theorem PoolConflicts.covers {s : EngineState} {poolId : ResourcePoolId} {claims : List Claim}
    {base : SlackTimeline} {deficitFloor : Option SlackTimeline}
    {conflicts : List AvailabilityConflict}
    (h : PoolConflicts s poolId claims base deficitFloor conflicts) {k k' t : Timestamp}
    (hwindow : IsWindow claims base k k')
    (hrefused : ¬Passes base deficitFloor (claimUsage claims k) k) (hkt : k ≤ t) (htk : t < k') :
    ∃ c ∈ conflicts, c.blockingInterval.contains t = true := by
  obtain ⟨raws, hmerge, -, hraws⟩ := h
  obtain ⟨r, hr, rfl, rfl⟩ := hraws k k' hwindow hrefused
  obtain ⟨c, hc, hstart, hstop, -⟩ := hmerge.inside r hr
  exact ⟨c, hc, Interval.contains_iff.mpr ⟨hstart.trans hkt, htk.trans_le hstop⟩⟩

/-- The promises that a conflict lists are those that overlap its interval. -/
theorem PoolConflicts.ids {s : EngineState} {poolId : ResourcePoolId} {claims : List Claim}
    {base : SlackTimeline} {deficitFloor : Option SlackTimeline}
    {conflicts : List AvailabilityConflict} (hb : base.WellFormed)
    (h : PoolConflicts s poolId claims base deficitFloor conflicts) {c : AvailabilityConflict}
    (hc : c ∈ conflicts) :
    c.conflictingPromiseIds = s.activeOverlapping poolId c.blockingInterval := by
  obtain ⟨first, href, -, -, -, -, -, hfirst, hstart, hstop⟩ := h.covered hb hc
    (Interval.contains_iff.mpr ⟨le_rfl, c.blockingInterval.start_lt_stop⟩)
  have hsorted : c.conflictingPromiseIds.Pairwise (· < ·) := by
    rw [hfirst, href.explains.ids]
    exact strictlyIncreasing_iff.mp (activeOverlapping_sorted s poolId _)
  refine hsorted.eq_of_mem_iff (strictlyIncreasing_iff.mp (activeOverlapping_sorted s poolId _)) ?_
  intro id
  rw [mem_activeOverlapping]
  constructor
  · intro hid
    rw [hfirst, href.explains.ids, mem_activeOverlapping] at hid
    obtain ⟨p, hp, hactive, claim, hclaim, hpool, hoverlaps⟩ := hid
    refine ⟨p, hp, hactive, claim, hclaim, hpool, ?_⟩
    rw [Interval.overlaps_iff] at hoverlaps ⊢
    exact ⟨hoverlaps.1.trans_le hstop, hstart.trans_lt hoverlaps.2⟩
  · rintro ⟨p, hp, hactive, claim, hclaim, hpool, hoverlaps⟩
    -- the claim overlaps a window of the conflict, and all its windows list the same promises
    obtain ⟨t, htclaim, htc⟩ := Interval.overlaps_iff_exists.mp hoverlaps
    obtain ⟨r, hr, htr, -, -, -, -, hids, -⟩ := h.covered hb hc htc
    rw [hids, hr.explains.ids, mem_activeOverlapping]
    exact ⟨p, hp, hactive, claim, hclaim, hpool, Interval.overlaps_iff_exists.mpr ⟨t, htclaim, htr⟩⟩

/-- The conflicts of a pool come one after another. -/
theorem PoolConflicts.ordered {s : EngineState} {poolId : ResourcePoolId} {claims : List Claim}
    {base : SlackTimeline} {deficitFloor : Option SlackTimeline}
    {conflicts : List AvailabilityConflict}
    (h : PoolConflicts s poolId claims base deficitFloor conflicts) :
    conflicts.Pairwise fun a b => a.blockingInterval.start < b.blockingInterval.start := by
  obtain ⟨raws, hmerge, -⟩ := h
  exact hmerge.follows.imp fun {a b} hfollows =>
    a.blockingInterval.start_lt_stop.trans_le hfollows.1

/-! ## The conflicts of a bundle -/

/-- The conflicts that the answer of a bundle carries. -/
def BundleAdmission.conflicts : BundleAdmission → List AvailabilityConflict
  | .available _ => []
  | .unavailable conflicts => conflicts

/-- The conflicts of a bundle are those of its pools, sorted. -/
structure BundleConflicts (s : EngineState) (overrides : OrderedMap ResourcePoolId SlackTimeline)
    (bundle : Bundle) (conflicts : List AvailabilityConflict) : Prop where
  /-- The conflicts are sorted. -/
  sorted : conflicts.Pairwise fun a b => a.sortKey < b.sortKey
  /-- The conflicts are on pools of the bundle. -/
  pools : ∀ c ∈ conflicts, bundle.claimsOn c.resourcePoolId ≠ []
  /-- The conflicts on a pool are those of its evaluation. -/
  onPool : ∀ poolId, bundle.claimsOn poolId ≠ [] → ∃ base deficitFloor,
    s.EvaluatedOn overrides poolId base deficitFloor ∧ ∃ poolConflicts,
      PoolConflicts s poolId (bundle.claimsOn poolId) base deficitFloor poolConflicts ∧
      ∀ c, c ∈ poolConflicts ↔ c ∈ conflicts ∧ c.resourcePoolId = poolId

/-- Conflicts whose pools or starts differ are sorted one before the other. -/
theorem sortKey_ne_of_start {a b : AvailabilityConflict}
    (h : a.blockingInterval.start ≠ b.blockingInterval.start) : a.sortKey ≠ b.sortKey :=
  fun heq => h (congrArg (fun key => (ofLex key).1) heq)

/-- Conflicts on different pools have different sort keys. -/
theorem sortKey_ne_of_pool {a b : AvailabilityConflict} (h : a.resourcePoolId ≠ b.resourcePoolId) :
    a.sortKey ≠ b.sortKey :=
  fun heq => h (congrArg (fun key => (ofLex (ofLex key).2).1) heq)

/-- The loop over the pools collects their conflicts. -/
theorem evaluatePools_conflicts {s : EngineState} (hs : s.TimelinesWellFormed)
    {overrides : OrderedMap ResourcePoolId SlackTimeline} (ho : OverridesWellFormed overrides)
    {l : List (ResourcePoolId × List Claim)} (hl : (l.map Prod.fst).Nodup)
    {acc acc' : OrderedMap ResourcePoolId SlackTimeline × List AvailabilityConflict}
    (h : l.foldlM (s.evaluateNextPool overrides) acc = .ok acc') :
    ∃ added, acc'.2 = acc.2 ++ added ∧ added.Pairwise (fun a b => a.sortKey ≠ b.sortKey) ∧
      (∀ c ∈ added, c.resourcePoolId ∈ l.map Prod.fst) ∧
      ∀ e ∈ l, ∃ base deficitFloor, s.EvaluatedOn overrides e.1 base deficitFloor ∧
        ∃ poolConflicts, PoolConflicts s e.1 e.2 base deficitFloor poolConflicts ∧
          ∀ c, c ∈ poolConflicts ↔ c ∈ added ∧ c.resourcePoolId = e.1 := by
  induction l generalizing acc with
  | nil =>
    obtain rfl := Except.ok.inj h
    exact ⟨[], by rw [List.append_nil], .nil, by simp, by simp⟩
  | cons e l ih =>
    obtain ⟨hnotin, hl⟩ := List.nodup_cons.mp hl
    rw [List.foldlM_cons] at h
    obtain ⟨next, hnext, h⟩ := Except.bind_eq_ok.mp h
    obtain ⟨added, hadded, hdistinct, hpools, honPool⟩ := ih hl h
    unfold evaluateNextPool at hnext
    obtain ⟨admission, hadm, hnext⟩ := Except.bind_eq_ok.mp hnext
    obtain ⟨base, deficitFloor, hon⟩ := evaluatedOn_of_ok hadm
    obtain ⟨hb, hf⟩ := hon.wellFormed hs ho
    rw [evaluatePoolWithOverrides_eq hon] at hadm
    have hpoolConflicts := evaluatePoolOnTimeline_conflicts hb hf hadm
    have hnow : next.2 = acc.2 ++ PoolAdmission.conflicts admission := by
      cases admission with
      | available tl =>
        obtain rfl := Except.ok.inj hnext
        exact (List.append_nil _).symm
      | unavailable more =>
        obtain rfl := Except.ok.inj hnext
        rfl
    generalize PoolAdmission.conflicts admission = now at hpoolConflicts hnow
    have hother : ∀ c ∈ added, c.resourcePoolId ≠ e.1 := by
      intro c hc heq
      exact hnotin (heq ▸ hpools c hc)
    refine ⟨now ++ added, by rw [hadded, hnow, List.append_assoc], ?_, ?_, ?_⟩
    · refine List.pairwise_append.mpr ⟨?_, hdistinct, ?_⟩
      · exact hpoolConflicts.ordered.imp fun hlt => sortKey_ne_of_start hlt.ne
      · intro a ha b hb'
        refine sortKey_ne_of_pool ?_
        rw [hpoolConflicts.pool hb ha]
        exact (hother b hb').symm
    · intro c hc
      rw [List.map_cons, List.mem_cons]
      rcases List.mem_append.mp hc with hc | hc
      · exact .inl (hpoolConflicts.pool hb hc)
      · exact .inr (hpools c hc)
    · intro a ha
      rcases List.mem_cons.mp ha with rfl | ha
      · refine ⟨base, deficitFloor, hon, now, hpoolConflicts, ?_⟩
        intro c
        rw [List.mem_append]
        constructor
        · exact fun hc => ⟨.inl hc, hpoolConflicts.pool hb hc⟩
        · rintro ⟨hc | hc, hpool⟩
          · exact hc
          · exact absurd hpool (hother c hc)
      · obtain ⟨base', deficitFloor', hon', conflicts, hconflicts, hmem⟩ := honPool a ha
        refine ⟨base', deficitFloor', hon', conflicts, hconflicts, ?_⟩
        intro c
        rw [hmem c, List.mem_append]
        constructor
        · rintro ⟨hc, hpool⟩
          exact ⟨.inr hc, hpool⟩
        · rintro ⟨hc | hc, hpool⟩
          · refine absurd (List.mem_map.mpr ⟨a, ha, ?_⟩) hnotin
            rw [← hpool, hpoolConflicts.pool hb hc]
          · exact ⟨hc, hpool⟩

/-- Sorting by keys that all differ sorts strictly. -/
theorem sorted_of_distinct {l : List AvailabilityConflict}
    (h : l.Pairwise fun a b => a.sortKey ≠ b.sortKey) :
    (l.insertionSort fun a b => a.sortKey ≤ b.sortKey).Pairwise fun a b => a.sortKey < b.sortKey := by
  have : Std.Total fun a b : AvailabilityConflict => a.sortKey ≤ b.sortKey :=
    ⟨fun a b => le_total a.sortKey b.sortKey⟩
  have : IsTrans AvailabilityConflict fun a b => a.sortKey ≤ b.sortKey := ⟨fun _ _ _ => le_trans⟩
  have hle := List.pairwise_insertionSort (fun a b : AvailabilityConflict => a.sortKey ≤ b.sortKey) l
  have hne := (List.perm_insertionSort (fun a b : AvailabilityConflict => a.sortKey ≤ b.sortKey)
    l).symm.pairwise h fun hab => hab.symm
  exact (hle.and hne).imp fun hab => lt_of_le_of_ne hab.1 hab.2

/-- The answer of the evaluation of a bundle carries the conflicts of its pools. -/
theorem evaluateBundle_conflicts {s : EngineState} (hs : s.TimelinesWellFormed)
    {overrides : OrderedMap ResourcePoolId SlackTimeline} (ho : OverridesWellFormed overrides)
    {bundle : Bundle} {admission : BundleAdmission}
    (h : s.evaluateBundleWithOverrides bundle overrides = .ok admission) :
    BundleConflicts s overrides bundle (BundleAdmission.conflicts admission) := by
  rw [evaluateBundleWithOverrides_eq] at h
  obtain ⟨acc, hacc, h⟩ := Except.bind_eq_ok.mp h
  obtain ⟨added, hadded, hdistinct, hpools, honPool⟩ :=
    evaluatePools_conflicts hs ho (OrderedMap.toList_keys_nodup _) hacc
  have hconflicts : BundleAdmission.conflicts admission =
      added.insertionSort fun a b => a.sortKey ≤ b.sortKey := by
    rw [List.nil_append] at hadded
    split at h
    · rename_i hnil
      obtain rfl := Except.ok.inj h
      rw [hnil] at hadded
      rw [← hadded]
      rfl
    · obtain rfl := Except.ok.inj h
      rw [← hadded]
      rfl
  rw [hconflicts]
  refine ⟨sorted_of_distinct hdistinct, ?_, ?_⟩
  · intro c hc
    obtain ⟨e, he, hpool⟩ := List.mem_map.mp (hpools c ((List.mem_insertionSort _).mp hc))
    rw [← hpool]
    exact (mem_claimsByPool.mp he).1
  · intro poolId hne
    obtain ⟨base, deficitFloor, hon, conflicts, hpoolConflicts, hmem⟩ :=
      honPool (poolId, bundle.claimsOn poolId) (mem_claimsByPool.mpr ⟨hne, rfl⟩)
    refine ⟨base, deficitFloor, hon, conflicts, hpoolConflicts, ?_⟩
    intro c
    rw [hmem c, List.mem_insertionSort]

end EngineState

end PromiseDb
