import PromiseDb.Engine.Demand
import PromiseDb.Engine.Transition
import PromiseDb.Index.SlackUpdate

/-!
# Admission of claims on one pool

The windows between the changes of the demand are evaluated one by one.  On a window with
positive demand both the demand and the base slack are constant, so that the check at its start
stands for the check at each of its timestamps.  The evaluation answers that the claims fit
exactly when every check passes, and the timeline it then returns is the base slack minus the
demand.
-/

namespace PromiseDb

open StepFunction

namespace EngineState

/-- The slack below which a timestamp is refused. -/
def floorValue (deficitFloor : Option SlackTimeline) (t : Timestamp) : ℤ :=
  deficitFloor.elim 0 fun tl => min (tl.slackValue t) 0

/-- The floor is never above zero. -/
theorem floorValue_nonpos (deficitFloor : Option SlackTimeline) (t : Timestamp) :
    floorValue deficitFloor t ≤ 0 := by
  cases deficitFloor with
  | none => exact le_rfl
  | some tl => exact min_le_right _ _

/-- The check of a demand against the base slack and the floor at a timestamp. -/
def Passes (base : SlackTimeline) (deficitFloor : Option SlackTimeline) (demand : ℤ)
    (t : Timestamp) : Prop :=
  floorValue deficitFloor t ≤ base.slackValue t - demand

/-- Demand that the evaluation can count. -/
abbrev IsQuantity (x : ℤ) : Prop := 0 ≤ x ∧ x ≤ 18446744073709551615

/-! ## One window -/

/-- Recording a conflict succeeds and leaves at least one. -/
theorem pushConflict_ok (conflicts : List AvailabilityConflict) (conflict : AvailabilityConflict) :
    ∃ result, pushConflict conflicts conflict = .ok result ∧ result ≠ [] := by
  unfold pushConflict
  split
  · exact ⟨_, rfl, by simp⟩
  · rename_i previous _
    split
    · rename_i h
      have hlt : previous.blockingInterval.start < conflict.blockingInterval.stop :=
        previous.blockingInterval.start_lt_stop.trans
          (h.1 ▸ conflict.blockingInterval.start_lt_stop)
      rw [(Interval.new_eq_ok (i := ⟨_, _, hlt⟩)).mpr ⟨rfl, rfl⟩]
      exact ⟨_, rfl, by simp⟩
    · exact ⟨_, rfl, by simp⟩

/-- The available part of a slack is its non-negative part. -/
theorem availableFrom_spec (slack : Slack) :
    ∃ available, availableFrom slack = .ok available ∧ available.val = max slack.val 0 := by
  have hprop := slack.property
  unfold availableFrom
  split
  · rename_i h
    exact ⟨_, rfl, (max_eq_right h).symm⟩
  · rename_i h
    have hrange : IsQuantity slack.val := ⟨by omega, by omega⟩
    have htry : (BoundedInt.tryFrom slack : Option Quantity) = some ⟨slack.val, hrange⟩ :=
      BoundedInt.tryFrom_eq_some.mpr rfl
    rw [htry]
    exact ⟨_, rfl, (max_eq_left hrange.1).symm⟩

/-- The floor is read from the timeline. -/
theorem minimumAllowedSlack_spec {deficitFloor : Option SlackTimeline}
    (hf : ∀ tl ∈ deficitFloor, tl.WellFormed) (t : Timestamp) :
    ∃ m, minimumAllowedSlack deficitFloor t = .ok m ∧ m.val = floorValue deficitFloor t := by
  cases deficitFloor with
  | none => exact ⟨_, rfl, rfl⟩
  | some tl =>
    obtain ⟨slack, hslack, hval⟩ := SlackTimeline.slackAt_spec (hf tl rfl) t
    refine ⟨min slack ⟨0, by decide⟩, ?_, ?_⟩
    · rw [minimumAllowedSlack, hslack]
      rfl
    · rw [BoundedInt.val_min, hval]
      rfl

/-- What the evaluation of a window adds. -/
structure WindowAdds (base : SlackTimeline) (deficitFloor : Option SlackTimeline) (demand : ℤ)
    (start stop : Timestamp) (w w' : WindowState) : Prop where
  /-- The demand of the window is the current demand. -/
  current : w'.currentDemand.val = demand
  /-- A window without demand adds nothing. -/
  idle : demand = 0 → w'.conflicts = w.conflicts ∧ w'.adjustments = w.adjustments
  /-- A window with demand is recorded. -/
  recorded : 0 < demand → ∃ a : Interval × I128, a.1.start = start ∧ a.1.stop = stop ∧
    a.2.val = demand ∧ w'.adjustments = w.adjustments ++ [a]
  /-- A check that passes adds no conflict. -/
  passed : 0 < demand → Passes base deficitFloor demand start → w'.conflicts = w.conflicts
  /-- A check that fails adds a conflict. -/
  refused : 0 < demand → ¬Passes base deficitFloor demand start → w'.conflicts ≠ []

/-- A window is evaluated only when its demand is a quantity. -/
theorem evaluateWindow_range {s : EngineState} {poolId : ResourcePoolId} {base : SlackTimeline}
    {deficitFloor : Option SlackTimeline} {w w' : WindowState}
    {window : (Timestamp × I128) × (Timestamp × I128)}
    (h : evaluateWindow s poolId base deficitFloor w window = .ok w') :
    IsQuantity (w.currentDemand.val + window.1.2.val) ∧
      w'.currentDemand.val = w.currentDemand.val + window.1.2.val := by
  unfold evaluateWindow at h
  obtain ⟨current, hcurrent, h⟩ := Except.bind_eq_ok.mp h
  obtain ⟨required, hrequired, h⟩ := Except.bind_eq_ok.mp h
  have hc := BoundedInt.checkedAdd_eq_some.mp (Except.elim_eq_ok.mp hcurrent)
  have hr := BoundedInt.tryFrom_eq_some.mp (Except.elim_eq_ok.mp hrequired)
  refine ⟨?_, ?_⟩
  · rw [hc, hr]
    exact required.property
  · rw [hc]
    split at h
    · cases h
      rfl
    · obtain ⟨interval, -, h⟩ := Except.bind_eq_ok.mp h
      obtain ⟨slack, -, h⟩ := Except.bind_eq_ok.mp h
      obtain ⟨finalSlack, -, h⟩ := Except.bind_eq_ok.mp h
      obtain ⟨minimumAllowed, -, h⟩ := Except.bind_eq_ok.mp h
      obtain ⟨available, -, h⟩ := Except.bind_eq_ok.mp h
      obtain ⟨conflicts, -, h⟩ := Except.bind_eq_ok.mp h
      cases h
      rfl

/-- The evaluation of a window whose demand is a quantity. -/
theorem evaluateWindow_spec {s : EngineState} {poolId : ResourcePoolId} {base : SlackTimeline}
    {deficitFloor : Option SlackTimeline} (hb : base.WellFormed)
    (hf : ∀ tl ∈ deficitFloor, tl.WellFormed) {w : WindowState}
    {window : (Timestamp × I128) × (Timestamp × I128)} {demand : ℤ}
    (hdemand : w.currentDemand.val + window.1.2.val = demand) (hrange : IsQuantity demand)
    (hlt : window.1.1 < window.2.1) :
    ∃ w', evaluateWindow s poolId base deficitFloor w window = .ok w' ∧
      WindowAdds base deficitFloor demand window.1.1 window.2.1 w w' := by
  have hcurrent : w.currentDemand.checkedAdd window.1.2 =
      some ⟨demand, by omega, by omega⟩ := BoundedInt.checkedAdd_eq_some.mpr hdemand
  have hrequired : (BoundedInt.tryFrom (⟨demand, by omega, by omega⟩ : I128) : Option Quantity) =
      some ⟨demand, hrange⟩ := BoundedInt.tryFrom_eq_some.mpr rfl
  rw [evaluateWindow, hcurrent, Option.elim_some, Except.ok_bind, hrequired, Option.elim_some,
    Except.ok_bind]
  by_cases hzero : demand = 0
  · rw [if_pos (by exact hzero)]
    exact ⟨_, rfl, rfl, fun _ => ⟨rfl, rfl⟩, fun h => by omega, fun h => by omega,
      fun h => by omega⟩
  · obtain ⟨slack, hslack, hval⟩ := SlackTimeline.slackAt_spec hb window.1.1
    obtain ⟨minimum, hminimum, hmval⟩ := minimumAllowedSlack_spec hf window.1.1
    have hprop := slack.property
    have hfinal : (BoundedInt.ofInt? (slack.val - demand) : Option I128) =
        some ⟨slack.val - demand, by omega, by omega⟩ := BoundedInt.ofInt?_eq_some.mpr rfl
    obtain ⟨available, havailable, -⟩ := availableFrom_spec slack
    rw [if_neg (by exact hzero), (Interval.new_eq_ok (i := ⟨_, _, hlt⟩)).mpr ⟨rfl, rfl⟩,
      Except.ok_bind]
    dsimp only
    rw [hslack, indexResult, Except.ok_bind, hfinal, Option.elim_some, Except.ok_bind, hminimum,
      Except.ok_bind, havailable, Except.ok_bind]
    have hpass : Passes base deficitFloor demand window.1.1 ↔ ¬slack.val - demand < minimum.val := by
      rw [Passes, ← hval, ← hmval, not_lt]
    by_cases hp : slack.val - demand < minimum.val
    · obtain ⟨result, hresult, hne⟩ := pushConflict_ok w.conflicts
        { resourcePoolId := poolId
          blockingInterval := ⟨_, _, hlt⟩
          requiredQuantity := ⟨demand, hrange⟩
          availableQuantity := available
          deficitQuantity := wrappingSub ⟨demand, hrange⟩ available
          conflictingPromiseIds := s.activeOverlapping poolId ⟨_, _, hlt⟩ }
      rw [recordConflict, if_pos (decide_eq_true hp), hresult, Except.ok_bind]
      exact ⟨_, rfl, rfl, fun h => absurd h hzero, fun _ => ⟨_, rfl, rfl, rfl, rfl⟩,
        fun _ h => absurd hp (hpass.mp h), fun _ _ => hne⟩
    · rw [recordConflict, if_neg (by simpa using hp), Except.ok_bind]
      exact ⟨_, rfl, rfl, fun h => absurd h hzero, fun _ => ⟨_, rfl, rfl, rfl, rfl⟩,
        fun _ _ => rfl, fun _ h => absurd (hpass.mpr hp) h⟩

/-! ## All windows -/

/-- The demand that adjustments take from a timeline. -/
def adjustmentUsage (adjustments : List (Interval × I128)) (t : Timestamp) : ℤ :=
  (adjustments.map fun a => if a.1.contains t then a.2.val else 0).sum

/-- Without adjustments nothing is used. -/
@[simp] theorem adjustmentUsage_nil (t : Timestamp) : adjustmentUsage [] t = 0 := rfl

/-- The first adjustment counts during its interval. -/
@[simp] theorem adjustmentUsage_cons (a : Interval × I128) (l : List (Interval × I128))
    (t : Timestamp) :
    adjustmentUsage (a :: l) t = (if a.1.contains t then a.2.val else 0) + adjustmentUsage l t := by
  simp [adjustmentUsage]

/-- The adjustments of two lists add up. -/
@[simp] theorem adjustmentUsage_append (l r : List (Interval × I128)) (t : Timestamp) :
    adjustmentUsage (l ++ r) t = adjustmentUsage l t + adjustmentUsage r t := by
  simp [adjustmentUsage]

/-- The changes after a state of the evaluation sum up to the demand. -/
def DemandFrom (demand : Timestamp → ℤ) (current : ℤ) (events : List (Timestamp × I128)) : Prop :=
  ∀ t, (∃ e ∈ events.head?, e.1 ≤ t) → current + changesUpTo events t = demand t

/-- The demand at the first change is the current demand with the change. -/
theorem DemandFrom.first {demand : Timestamp → ℤ} {current : ℤ} {e : Timestamp × I128}
    {events : List (Timestamp × I128)} (h : DemandFrom demand current (e :: events))
    (hinc : Increasing (e :: events)) : current + e.2.val = demand e.1 := by
  have := h e.1 ⟨e, rfl, le_rfl⟩
  rwa [changesUpTo_cons, if_pos le_rfl, changesUpTo_of_lt (List.pairwise_cons.mp hinc).1,
    add_zero] at this

/-- The changes after the first one go on from the demand there. -/
theorem DemandFrom.rest {demand : Timestamp → ℤ} {current : ℤ} {e : Timestamp × I128}
    {events : List (Timestamp × I128)} (h : DemandFrom demand current (e :: events))
    (hinc : Increasing (e :: events)) : DemandFrom demand (demand e.1) events := by
  rintro t ⟨e', he', het⟩
  have hlt := (List.pairwise_cons.mp hinc).1 e' (List.mem_of_mem_head? he')
  have := h t ⟨e, rfl, hlt.le.trans het⟩
  rw [changesUpTo_cons, if_pos (hlt.le.trans het)] at this
  rw [← h.first hinc]
  omega

/-- Between two neighbouring changes the demand stays the same. -/
theorem DemandFrom.window {demand : Timestamp → ℤ} {current : ℤ} {e e' : Timestamp × I128}
    {events : List (Timestamp × I128)} (h : DemandFrom demand current (e :: e' :: events))
    (hinc : Increasing (e :: e' :: events)) {t : Timestamp} (het : e.1 ≤ t) (hte : t < e'.1) :
    demand t = demand e.1 := by
  have hafter : ∀ a ∈ e' :: events, t < a.1 := by
    intro a ha
    rcases List.mem_cons.mp ha with rfl | ha
    · exact hte
    · exact hte.trans ((List.pairwise_cons.mp (List.pairwise_cons.mp hinc).2).1 a ha)
  rw [← h t ⟨e, rfl, het⟩, changesUpTo_cons, if_pos het, changesUpTo_of_lt hafter, add_zero,
    h.first hinc]

/-- What the evaluation of all windows adds. -/
structure WindowsAdd (base : SlackTimeline) (deficitFloor : Option SlackTimeline)
    (demand : Timestamp → ℤ) (events : List (Timestamp × I128)) (w w' : WindowState) : Prop where
  /-- The adjustments take the demand. -/
  usage : ∀ t, adjustmentUsage w'.adjustments t =
    adjustmentUsage w.adjustments t + if ∃ e ∈ events.head?, e.1 ≤ t then demand t else 0
  /-- There are no conflicts exactly when every check passes. -/
  passed : w'.conflicts = [] ↔ w.conflicts = [] ∧
    ∀ e ∈ events, 0 < demand e.1 → Passes base deficitFloor (demand e.1) e.1
  /-- The adjustments so far are kept, and the others are positive demands at changes. -/
  recorded : ∃ added, w'.adjustments = w.adjustments ++ added ∧
    (∀ a ∈ added, ∃ e ∈ events, 0 < demand e.1 ∧ a.2.val = demand e.1) ∧
    ∀ e ∈ events, 0 < demand e.1 → ∃ a ∈ added, a.2.val = demand e.1

/-- The evaluation of all windows goes window by window. -/
theorem foldlM_windows {s : EngineState} {poolId : ResourcePoolId} {base : SlackTimeline}
    {deficitFloor : Option SlackTimeline} {w : WindowState} (e e' : Timestamp × I128)
    (events : List (Timestamp × I128)) :
    ((e :: e' :: events).zip (e :: e' :: events).tail).foldlM
        (evaluateWindow s poolId base deficitFloor) w =
      evaluateWindow s poolId base deficitFloor w (e, e') >>= fun w' =>
        ((e' :: events).zip (e' :: events).tail).foldlM
          (evaluateWindow s poolId base deficitFloor) w' := rfl

/-- All windows are evaluated only when every demand is a quantity. -/
theorem evaluateWindows_range {s : EngineState} {poolId : ResourcePoolId} {base : SlackTimeline}
    {deficitFloor : Option SlackTimeline} {demand : Timestamp → ℤ}
    {events : List (Timestamp × I128)} (hinc : Increasing events) {w w' : WindowState}
    (hdemand : DemandFrom demand w.currentDemand.val events)
    (hlast : ∀ e ∈ events.getLast?, demand e.1 = 0)
    (h : (events.zip events.tail).foldlM (evaluateWindow s poolId base deficitFloor) w = .ok w') :
    ∀ e ∈ events, IsQuantity (demand e.1) := by
  induction events generalizing w with
  | nil => simp
  | cons e events ih =>
    cases events with
    | nil =>
      rw [List.forall_mem_singleton, hlast e rfl]
      exact ⟨le_rfl, by norm_num⟩
    | cons e' events =>
      rw [foldlM_windows] at h
      obtain ⟨w₁, hw₁, h⟩ := Except.bind_eq_ok.mp h
      obtain ⟨hrange, hcurrent⟩ := evaluateWindow_range hw₁
      rw [hdemand.first hinc] at hrange hcurrent
      intro a ha
      rcases List.mem_cons.mp ha with rfl | ha
      · exact hrange
      · exact ih (List.pairwise_cons.mp hinc).2 (hcurrent ▸ hdemand.rest hinc)
          (fun a ha => hlast a (by rwa [List.getLast?_cons_cons])) h a ha

section FirstWindow

variable {base : SlackTimeline} {deficitFloor : Option SlackTimeline} {demand : Timestamp → ℤ}
  {e e' : Timestamp × I128} {events : List (Timestamp × I128)} {w w₁ w₂ : WindowState}

/-- An idle window is put before the others. -/
theorem WindowsAdd.consIdle (h : WindowsAdd base deficitFloor demand (e' :: events) w₁ w₂)
    (hadds : WindowAdds base deficitFloor (demand e.1) e.1 e'.1 w w₁) (hlt : e.1 < e'.1)
    (hwindow : ∀ t, e.1 ≤ t → t < e'.1 → demand t = demand e.1) (hzero : demand e.1 = 0) :
    WindowsAdd base deficitFloor demand (e :: e' :: events) w w₂ := by
  obtain ⟨hconflicts, hadjustments⟩ := hadds.idle hzero
  obtain ⟨added, hadded, hfrom, hto⟩ := h.recorded
  refine ⟨fun t => ?_, ?_, added, by rw [hadded, hadjustments], ?_, ?_⟩
  · rw [h.usage t, hadjustments]
    congr 1
    simp only [List.head?_cons, Option.mem_some_iff, exists_eq_left']
    by_cases hte : e'.1 ≤ t
    · rw [if_pos hte, if_pos (hlt.le.trans hte)]
    · rw [if_neg hte]
      split
      · rename_i het
        rw [hwindow t het (not_le.mp hte)]
        exact hzero.symm
      · rfl
  · rw [h.passed, hconflicts, List.forall_mem_cons (a := e)]
    refine and_congr_right fun _ => ⟨fun h => ⟨fun h' => by omega, h⟩, fun h => h.2⟩
  · exact fun a ha => (hfrom a ha).imp fun b hb => ⟨List.mem_cons_of_mem _ hb.1, hb.2⟩
  · intro a ha hda
    rcases List.mem_cons.mp ha with rfl | ha
    · omega
    · exact hto a ha hda

/-- A window with demand is recorded before the others. -/
theorem WindowsAdd.consRecorded (h : WindowsAdd base deficitFloor demand (e' :: events) w₁ w₂)
    (hadds : WindowAdds base deficitFloor (demand e.1) e.1 e'.1 w w₁) (hlt : e.1 < e'.1)
    (hwindow : ∀ t, e.1 ≤ t → t < e'.1 → demand t = demand e.1) (hpos : 0 < demand e.1) :
    WindowsAdd base deficitFloor demand (e :: e' :: events) w w₂ := by
  obtain ⟨adj, hstart, hstop, hval, hadjustments⟩ := hadds.recorded hpos
  obtain ⟨added, hadded, hfrom, hto⟩ := h.recorded
  refine ⟨fun t => ?_, ?_, adj :: added, by
    rw [hadded, hadjustments, List.append_assoc, List.singleton_append], ?_, ?_⟩
  · rw [h.usage t, hadjustments, adjustmentUsage_append, adjustmentUsage_cons,
      adjustmentUsage_nil, add_zero, add_assoc]
    congr 1
    simp only [List.head?_cons, Option.mem_some_iff, exists_eq_left', Interval.contains_iff, hstart,
      hstop, hval]
    rcases lt_or_ge t e.1 with hte | het
    · rw [if_neg fun h => h.1.not_gt hte, if_neg (hte.trans hlt).not_ge, if_neg hte.not_ge,
        add_zero]
    · rcases lt_or_ge t e'.1 with hte | het'
      · rw [if_pos ⟨het, hte⟩, if_neg hte.not_ge, if_pos het, hwindow t het hte, add_zero]
      · rw [if_neg fun h => h.2.not_ge het', if_pos het', if_pos het, zero_add]
  · rw [h.passed, List.forall_mem_cons (a := e)]
    by_cases hp : Passes base deficitFloor (demand e.1) e.1
    · rw [hadds.passed hpos hp]
      exact and_congr_right fun _ => ⟨fun h => ⟨fun _ => hp, h⟩, fun h => h.2⟩
    · exact ⟨fun h => absurd h.1 (hadds.refused hpos hp), fun h => absurd (h.2.1 hpos) hp⟩
  · intro a ha
    rcases List.mem_cons.mp ha with rfl | ha
    · exact ⟨e, by simp, hpos, hval⟩
    · exact (hfrom a ha).imp fun b hb => ⟨List.mem_cons_of_mem _ hb.1, hb.2⟩
  · intro a ha hda
    rcases List.mem_cons.mp ha with rfl | ha
    · exact ⟨adj, by simp, hval⟩
    · exact (hto a ha hda).imp fun b hb => ⟨List.mem_cons_of_mem _ hb.1, hb.2⟩

end FirstWindow

/-- The evaluation of all windows when every demand is a quantity. -/
theorem evaluateWindows_spec {s : EngineState} {poolId : ResourcePoolId} {base : SlackTimeline}
    {deficitFloor : Option SlackTimeline} (hb : base.WellFormed)
    (hf : ∀ tl ∈ deficitFloor, tl.WellFormed) {demand : Timestamp → ℤ}
    {events : List (Timestamp × I128)} (hinc : Increasing events) {w : WindowState}
    (hdemand : DemandFrom demand w.currentDemand.val events)
    (hlast : ∀ e ∈ events.getLast?, demand e.1 = 0)
    (hrange : ∀ e ∈ events, IsQuantity (demand e.1)) :
    ∃ w', (events.zip events.tail).foldlM (evaluateWindow s poolId base deficitFloor) w = .ok w' ∧
      WindowsAdd base deficitFloor demand events w w' := by
  induction events generalizing w with
  | nil => exact ⟨w, rfl, by simp, by simp, [], by simp⟩
  | cons e events ih =>
    cases events with
    | nil =>
      have hzero := hlast e rfl
      refine ⟨w, rfl, fun t => ?_, by simp [hzero], [], by simp [hzero]⟩
      split
      · rename_i h
        obtain ⟨a, ha, hat⟩ := h
        obtain rfl : e = a := by simpa using ha
        have := hdemand t ⟨e, rfl, hat⟩
        rw [changesUpTo_cons, if_pos hat, changesUpTo_nil, add_zero, hdemand.first hinc,
          hzero] at this
        rw [← this, add_zero]
      · rw [add_zero]
    | cons e' events =>
      have hlt : e.1 < e'.1 := (List.pairwise_cons.mp hinc).1 e' (by simp)
      have hrest := (List.pairwise_cons.mp hinc).2
      have hfirst := hdemand.first hinc
      obtain ⟨w₁, hw₁, hadds⟩ := @evaluateWindow_spec s poolId _ _ hb hf w (e, e') _ hfirst
        (hrange e (by simp)) hlt
      obtain ⟨w₂, hw₂, hall⟩ := ih hrest (w := w₁) (hadds.current ▸ hdemand.rest hinc)
        (fun a ha => hlast a (by rwa [List.getLast?_cons_cons]))
        (fun a ha => hrange a (List.mem_cons_of_mem _ ha))
      have hwindow (t : Timestamp) (het : e.1 ≤ t) (hte : t < e'.1) : demand t = demand e.1 :=
        hdemand.window hinc het hte
      refine ⟨w₂, by rw [foldlM_windows, hw₁, Except.ok_bind, hw₂], ?_⟩
      rcases (hrange e (by simp)).1.eq_or_lt with hzero | hpos
      · exact hall.consIdle hadds hlt hwindow hzero.symm
      · exact hall.consRecorded hadds hlt hwindow hpos

/-! ## Consuming the demand -/

/-- A pure update of a timeline copy. -/
theorem runUpdate_applyDelta {tl : SlackTimeline} (h : tl.WellFormed) {i : Interval} {δ : Slack}
    (hδ : ∀ t, i.contains t = true → IsSlack (tl.slackValue t + δ.val)) :
    ∃ tl', runUpdate tl (SlackTimeline.applyDelta i δ) = .ok tl' ∧ tl'.WellFormed ∧
      ∀ t, tl'.slackValue t = tl.slackValue t + if i.contains t then δ.val else 0 := by
  obtain ⟨tl', htl', hwf, hvalue⟩ := SlackTimeline.applyDelta_spec h hδ
  exact ⟨tl', by rw [runUpdate, htl'], hwf, hvalue⟩

/-- Non-negative demands are taken from a timeline when what is left is representable. -/
theorem consumeDemands_spec {base : SlackTimeline} (hb : base.WellFormed)
    {adjustments : List (Interval × I128)} (hnonneg : ∀ a ∈ adjustments, 0 ≤ a.2.val)
    (hleft : ∀ t, IsSlack (base.slackValue t - adjustmentUsage adjustments t))
    {narrow : List (Interval × Slack)}
    (hnarrow : List.Forall₂ (fun a b => a.1 = b.1 ∧ a.2.val = b.2.val) adjustments narrow) :
    ∃ tl, narrow.foldlM consumeDemand base = .ok tl ∧ tl.WellFormed ∧
      ∀ t, tl.slackValue t = base.slackValue t - adjustmentUsage adjustments t := by
  induction hnarrow generalizing base with
  | nil => exact ⟨base, rfl, hb, fun t => by rw [adjustmentUsage_nil, sub_zero]⟩
  | @cons a b adjustments narrow hab _ ih =>
    obtain ⟨ai, ad⟩ := a
    obtain ⟨bi, bd⟩ := b
    obtain ⟨rfl, hval⟩ : ai = bi ∧ ad.val = bd.val := hab
    have hpos : 0 ≤ ad.val := hnonneg (ai, ad) (by simp)
    have hrest (t : Timestamp) : 0 ≤ adjustmentUsage adjustments t := by
      refine List.sum_nonneg fun x hx => ?_
      obtain ⟨c, hc, rfl⟩ := List.mem_map.mp hx
      split
      · exact hnonneg c (List.mem_cons_of_mem _ hc)
      · exact le_rfl
    have hprop := bd.property
    obtain ⟨δ, hδ⟩ : ∃ δ, bd.checkedNeg = some δ :=
      ⟨⟨-bd.val, by omega, by omega⟩, BoundedInt.checkedNeg_eq_some.mpr rfl⟩
    have hδval : -bd.val = δ.val := BoundedInt.checkedNeg_eq_some.mp hδ
    obtain ⟨tl₁, htl₁, hwf₁, hvalue₁⟩ := runUpdate_applyDelta hb (i := ai) (δ := δ) fun t ht => by
      have h₁ := hleft t
      have h₂ := hb.isSlack t
      have h₃ := hrest t
      rw [adjustmentUsage_cons, if_pos ht] at h₁
      dsimp only at h₁
      constructor <;> omega
    have hstep (t : Timestamp) : tl₁.slackValue t - adjustmentUsage adjustments t =
        base.slackValue t - adjustmentUsage ((ai, ad) :: adjustments) t := by
      rw [hvalue₁, adjustmentUsage_cons]
      dsimp only
      split <;> omega
    obtain ⟨tl, htl, hwf, hvalue⟩ := ih hwf₁ (fun a ha => hnonneg a (List.mem_cons_of_mem _ ha))
      fun t => hstep t ▸ hleft t
    refine ⟨tl, ?_, hwf, fun t => by rw [hvalue, hstep]⟩
    rw [List.foldlM_cons, consumeDemand, hδ, Option.elim_some, Except.ok_bind, htl₁,
      Except.ok_bind, htl]

/-! ## The checked timestamps -/

/-- A timestamp at which the slack of a timeline changes. -/
def IsChange (base : SlackTimeline) (t : Timestamp) : Prop :=
  ∃ points, base.effectivePoints = .ok points ∧ ∃ p ∈ points, p.timestamp = t

/-- The timestamps at which the demand of claims is checked: their starts and ends, and the
timestamps inside them at which the slack changes. -/
def Checked (claims : List Claim) (base : SlackTimeline) (t : Timestamp) : Prop :=
  (∃ c ∈ claims, c.interval.start = t ∨ c.interval.stop = t) ∨
    IsChange base t ∧ ∃ c ∈ claims, c.interval.contains t = true

/-- Where no claim starts or ends the demand stays the same. -/
theorem claimUsage_congr {claims : List Claim} {s t : Timestamp} (hst : s ≤ t)
    (h : ∀ c ∈ claims, (c.interval.start ≤ s ∨ t < c.interval.start) ∧
      (c.interval.stop ≤ s ∨ t < c.interval.stop)) : claimUsage claims t = claimUsage claims s := by
  induction claims with
  | nil => rfl
  | cons c claims ih =>
    obtain ⟨hstart, hstop⟩ := h c (by simp)
    have hiff (k : Timestamp) (hk : k ≤ s ∨ t < k) : k ≤ t ↔ k ≤ s :=
      ⟨fun hkt => hk.resolve_right hkt.not_gt, fun hks => hks.trans hst⟩
    rw [claimUsage_cons, claimUsage_cons, ih fun c' hc' => h c' (List.mem_cons_of_mem _ hc'),
      Claim.usageAt_eq, Claim.usageAt_eq]
    simp only [hiff _ hstart, hiff _ hstop]

/-- Where a timeline has no change its slack stays the same. -/
theorem slackValue_congr {base : SlackTimeline} (hb : base.WellFormed) {s t : Timestamp}
    (hst : s ≤ t) (h : ∀ k, IsChange base k → k ≤ s ∨ t < k) :
    base.slackValue t = base.slackValue s := by
  obtain ⟨points, hpoints, hchanges⟩ := SlackTimeline.effectivePoints_spec hb
  have hinc : Increasing base.changes := hb.increasing
  rw [SlackTimeline.slackValue, SlackTimeline.slackValue, ← valueAt_dedup hinc,
    ← valueAt_dedup hinc]
  refine valueAt_congr_of_no_change hst fun e he => h e.1 ⟨points, hpoints, ?_⟩
  obtain ⟨p, hp, rfl⟩ := List.mem_map.mp (hchanges ▸ he : e ∈ changesOf points)
  exact ⟨p, hp, rfl⟩

/-- The checked timestamps are those of the changes that the evaluation merges. -/
theorem checked_iff {claims : List Claim} {base : SlackTimeline} {points : List SlackPoint}
    (hpoints : base.effectivePoints = .ok points) (k : Timestamp) :
    (∃ e ∈ claimEvents claims ++ slackEvents claims points, e.1 = k) ↔ Checked claims base k := by
  simp only [List.mem_append, or_and_right, exists_or]
  rw [mem_claimEvents_key, mem_slackEvents_key]
  refine or_congr Iff.rfl (and_congr ⟨fun h => ⟨points, hpoints, h⟩, ?_⟩ Iff.rfl)
  rintro ⟨points', hpoints', h⟩
  obtain rfl : points = points' := Except.ok.inj (hpoints.symm.trans hpoints')
  exact h

/-- The checked timestamps form a finite set. -/
theorem checked_finite {claims : List Claim} {base : SlackTimeline} (hb : base.WellFormed) :
    ∃ keys : Finset Timestamp, ∀ k, k ∈ keys ↔ Checked claims base k := by
  obtain ⟨points, hpoints, -⟩ := SlackTimeline.effectivePoints_spec hb
  refine ⟨((claimEvents claims ++ slackEvents claims points).map Prod.fst).toFinset, ?_⟩
  intro k
  rw [← checked_iff hpoints, List.mem_toFinset, List.mem_map]

/-- The last checked timestamp at or before a timestamp with positive demand. -/
theorem last_checked {claims : List Claim} {base : SlackTimeline} (hb : base.WellFormed)
    {t : Timestamp} (ht : 0 < claimUsage claims t) :
    ∃ k ≤ t, Checked claims base k ∧ ∀ j, Checked claims base j → j ≤ k ∨ t < j := by
  obtain ⟨keys, hkeys⟩ := @checked_finite claims _ hb
  obtain ⟨c, hc, hcov⟩ := claimUsage_pos_iff.mp ht
  have hmem (k : Timestamp) : k ∈ keys.filter (· ≤ t) ↔ Checked claims base k ∧ k ≤ t := by
    rw [Finset.mem_filter, hkeys]
  obtain ⟨k, hk, hmax⟩ := (keys.filter (· ≤ t)).exists_max_image id
    ⟨c.interval.start, (hmem _).mpr ⟨.inl ⟨c, hc, .inl rfl⟩, (Interval.contains_iff.mp hcov).1⟩⟩
  obtain ⟨hchecked, hkt⟩ := (hmem k).mp hk
  refine ⟨k, hkt, hchecked, ?_⟩
  intro j hj
  rcases le_or_gt j t with hjt | hjt
  · exact .inl (hmax j ((hmem j).mpr ⟨hj, hjt⟩))
  · exact .inr hjt

/-- As long as no timestamp is checked the demand stays the same. -/
theorem claimUsage_window {claims : List Claim} {base : SlackTimeline} {k t : Timestamp}
    (hkt : k ≤ t) (hnone : ∀ j, Checked claims base j → j ≤ k ∨ t < j) :
    claimUsage claims t = claimUsage claims k :=
  claimUsage_congr hkt fun c hc =>
    ⟨hnone _ (.inl ⟨c, hc, .inl rfl⟩), hnone _ (.inl ⟨c, hc, .inr rfl⟩)⟩

/-- As long as no timestamp is checked the slack under a positive demand stays the same. -/
theorem slackValue_window {claims : List Claim} {base : SlackTimeline} (hb : base.WellFormed)
    {k t : Timestamp} (hkt : k ≤ t) (hnone : ∀ j, Checked claims base j → j ≤ k ∨ t < j)
    (hpos : 0 < claimUsage claims k) : base.slackValue t = base.slackValue k := by
  refine slackValue_congr hb hkt fun j hj => ?_
  rcases le_or_gt j k with hjk | hkj
  · exact .inl hjk
  · rcases le_or_gt j t with hjt | hjt
    · -- a change inside the window would lie inside a claim and be checked
      refine hnone j (.inr ⟨hj, claimUsage_pos_iff.mp ?_⟩)
      rwa [claimUsage_window hkj.le fun i hi => (hnone i hi).imp_right hjt.trans_lt]
    · exact .inr hjt

/-- The check at some checked timestamp before stands for every timestamp with positive demand. -/
theorem exists_checked {claims : List Claim} {base : SlackTimeline} (hb : base.WellFormed)
    {t : Timestamp} (ht : 0 < claimUsage claims t) :
    ∃ k ≤ t, Checked claims base k ∧ claimUsage claims k = claimUsage claims t ∧
      base.slackValue k = base.slackValue t ∧
      ∀ c ∈ claims, (c.interval.start ≤ k ∨ t < c.interval.start) ∧
        (c.interval.stop ≤ k ∨ t < c.interval.stop) := by
  obtain ⟨k, hkt, hchecked, hlast⟩ := last_checked hb ht
  have husage := claimUsage_window hkt hlast
  refine ⟨k, hkt, hchecked, husage.symm, (slackValue_window hb hkt hlast (husage ▸ ht)).symm, ?_⟩
  intro c hc
  exact ⟨hlast _ (.inl ⟨c, hc, .inl rfl⟩), hlast _ (.inl ⟨c, hc, .inr rfl⟩)⟩

/-! ## The evaluation of a pool -/

/-- The merged changes that the evaluation of a pool works on. -/
structure DemandChanges (claims : List Claim) (base : SlackTimeline)
    (events : List (Timestamp × I128)) : Prop where
  /-- The timestamps increase. -/
  increasing : Increasing events
  /-- The timestamps are the checked ones. -/
  keys : ∀ t, (∃ e ∈ events, e.1 = t) ↔ Checked claims base t
  /-- The changes sum up to the demand. -/
  sums : DemandFrom (claimUsage claims) 0 events

/-- There is no demand from the last change on. -/
theorem DemandChanges.last {claims : List Claim} {base : SlackTimeline}
    {events : List (Timestamp × I128)} (h : DemandChanges claims base events) :
    ∀ e ∈ events.getLast?, claimUsage claims e.1 = 0 := by
  intro e he
  by_contra hne
  have hpos : 0 < claimUsage claims e.1 := lt_of_le_of_ne (claimUsage_nonneg _ _) (Ne.symm hne)
  obtain ⟨c, hc, hcov⟩ := claimUsage_pos_iff.mp hpos
  obtain ⟨a, ha, hstop⟩ := (h.keys c.interval.stop).mpr (.inl ⟨c, hc, .inr rfl⟩)
  obtain ⟨front, rfl⟩ : ∃ front, events = front ++ [e] :=
    ⟨_, (List.dropLast_append_getLast? e he).symm⟩
  have hlt : e.1 < a.1 := hstop ▸ (Interval.contains_iff.mp hcov).2
  rcases List.mem_append.mp ha with ha | ha
  · exact lt_asymm hlt ((List.pairwise_append.mp h.increasing).2.2 a ha e (by simp))
  · obtain rfl : a = e := by simpa using ha
    exact lt_irrefl _ hlt

/-- The changes that the evaluation merges, in chronological order. -/
abbrev demandEvents (claims : List Claim) (points : List SlackPoint) : List (Timestamp × I128) :=
  (claimEvents claims ++ slackEvents claims points).insertionSort fun a b => a.1 ≤ b.1

/-- The events of demand are in the order of their times. -/
theorem demandEvents_sorted (claims : List Claim) (points : List SlackPoint) :
    (demandEvents claims points).Pairwise fun a b => a.1 ≤ b.1 := by
  have : Std.Total fun a b : Timestamp × I128 => a.1 ≤ b.1 := ⟨fun a b => le_total a.1 b.1⟩
  have : IsTrans (Timestamp × I128) fun a b => a.1 ≤ b.1 := ⟨fun _ _ _ => le_trans⟩
  exact List.pairwise_insertionSort _ _

/-- Merging the changes succeeds when the demand is small. -/
theorem demandEvents_ok {claims : List Claim} {points : List SlackPoint}
    (h : ∀ t, claimUsage claims t ≤ 2 ^ 124) :
    ∃ events, normalizeEvents none (demandEvents claims points) = .ok events := by
  refine normalizeEvents_ok fun t => ?_
  have hperm : (pending none ++ demandEvents claims points).Perm
      (claimEvents claims ++ slackEvents claims points) := List.perm_insertionSort _ _
  have happend : changesAt (claimEvents claims ++ slackEvents claims points) t =
      changesAt (claimEvents claims) t + changesAt (slackEvents claims points) t := by
    simp [changesAt]
  have hclaims := changesAt_claimEvents h t
  rw [changesAt, (hperm.map _).sum_eq, ← changesAt, happend, changesAt_slackEvents, add_zero]
  omega

/-- The merged changes of the demand. -/
theorem demandEvents_merged {claims : List Claim} {base : SlackTimeline} {points : List SlackPoint}
    {events : List (Timestamp × I128)} (hpoints : base.effectivePoints = .ok points)
    (h : normalizeEvents none (demandEvents claims points) = .ok events) :
    DemandChanges claims base events := by
  have hm := normalizeEvents_merged (demandEvents_sorted claims points) h
  have hperm : (pending none ++ demandEvents claims points).Perm
      (claimEvents claims ++ slackEvents claims points) := List.perm_insertionSort _ _
  refine ⟨hm.increasing, fun t => ?_, fun t _ => ?_⟩
  · rw [hm.keys t, ← checked_iff hpoints]
    simp only [hperm.mem_iff]
  · rw [zero_add, hm.sums, changesUpTo_perm hperm, changesUpTo_append, changesUpTo_claimEvents,
      changesUpTo_slackEvents, add_zero]

/-- Every check of the demand of claims against a timeline and a floor passes. -/
def AllPass (claims : List Claim) (base : SlackTimeline) (deficitFloor : Option SlackTimeline) :
    Prop :=
  ∀ t, Checked claims base t → 0 < claimUsage claims t →
    Passes base deficitFloor (claimUsage claims t) t

/-- What is left after checks that pass is representable. -/
theorem AllPass.isSlack {claims : List Claim} {base : SlackTimeline}
    {deficitFloor : Option SlackTimeline} (hb : base.WellFormed)
    (hf : ∀ tl ∈ deficitFloor, tl.WellFormed) (h : AllPass claims base deficitFloor)
    (t : Timestamp) : IsSlack (base.slackValue t - claimUsage claims t) := by
  have hslack := hb.isSlack t
  rcases (claimUsage_nonneg claims t).eq_or_lt with hzero | hpos
  · rwa [← hzero, sub_zero]
  · obtain ⟨k, -, hchecked, husage, hvalue, -⟩ := exists_checked hb hpos
    have hpass := h k hchecked (husage ▸ hpos)
    have hfloor : -9223372036854775808 ≤ floorValue deficitFloor k := by
      cases deficitFloor with
      | none => show (-9223372036854775808 : ℤ) ≤ 0; norm_num
      | some tl => exact le_min ((hf tl rfl).isSlack k).1 (by norm_num)
    rw [Passes, husage, hvalue] at hpass
    constructor <;> omega

/-- The conversion of the adjustments to slack values. -/
abbrev narrowAdjustment (a : Interval × I128) : Except DomainError (Interval × Slack) :=
  return (a.1, (← (BoundedInt.tryFrom a.2).elim (.error .indexOverflow) .ok : Slack))

/-- A narrowed adjustment has the same interval and amount. -/
theorem narrowAdjustment_eq_ok {a : Interval × I128} {b : Interval × Slack} :
    narrowAdjustment a = .ok b ↔ a.1 = b.1 ∧ a.2.val = b.2.val := by
  simp only [narrowAdjustment, Except.bind_eq_ok, Except.elim_eq_ok, BoundedInt.tryFrom_eq_some,
    Except.pure_eq_ok, Except.ok.injEq]
  constructor
  · rintro ⟨d, hd, rfl⟩
    exact ⟨rfl, hd⟩
  · rintro ⟨h₁, h₂⟩
    exact ⟨b.2, h₂, by rw [h₁]⟩

/-- Adjustments whose demands are slack values are converted. -/
theorem narrowAdjustments_ok {adjustments : List (Interval × I128)}
    (h : ∀ a ∈ adjustments, IsSlack a.2.val) :
    ∃ narrow, adjustments.mapM narrowAdjustment = .ok narrow ∧
      List.Forall₂ (fun a b => a.1 = b.1 ∧ a.2.val = b.2.val) adjustments narrow :=
  List.mapM_exists fun a ha =>
    have hb : a.1 = a.1 ∧ a.2.val = (⟨a.2.val, h a ha⟩ : Slack).val := ⟨rfl, rfl⟩
    ⟨(a.1, ⟨a.2.val, h a ha⟩), narrowAdjustment_eq_ok.mpr hb, hb⟩

/-- The end of the evaluation, from the evaluated windows. -/
def finishPool (base : SlackTimeline) (windows : WindowState) : Except DomainError PoolAdmission := do
  if windows.conflicts ≠ [] then return .unavailable windows.conflicts
  let adjustments ← windows.adjustments.mapM narrowAdjustment
  return .available (← adjustments.foldlM consumeDemand base)

/-- The evaluation of a pool merges the changes, evaluates the windows and consumes the demand. -/
theorem evaluatePoolOnTimeline_eq (s : EngineState) (poolId : ResourcePoolId) (claims : List Claim)
    (base : SlackTimeline) (deficitFloor : Option SlackTimeline) :
    s.evaluatePoolOnTimeline poolId claims base deficitFloor = (do
      let points ← indexResult base.effectivePoints
      let events ← normalizeEvents none (demandEvents claims points)
      let windows ← (events.zip events.tail).foldlM
        (evaluateWindow s poolId base deficitFloor) ⟨[], [], ⟨0, by decide⟩⟩
      finishPool base windows) := rfl

/-- Evaluated windows, with what follows from them. -/
structure Evaluated (claims : List Claim) (base : SlackTimeline)
    (deficitFloor : Option SlackTimeline) (windows : WindowState) : Prop where
  /-- The adjustments take the demand. -/
  usage : ∀ t, adjustmentUsage windows.adjustments t = claimUsage claims t
  /-- There are no conflicts exactly when every check passes. -/
  passed : windows.conflicts = [] ↔ AllPass claims base deficitFloor
  /-- The adjustments are positive demands. -/
  positive : ∀ a ∈ windows.adjustments, 0 < a.2.val ∧ ∃ t, a.2.val = claimUsage claims t
  /-- Every positive demand is among the adjustments. -/
  recorded : ∀ t, 0 < claimUsage claims t →
    ∃ a ∈ windows.adjustments, a.2.val = claimUsage claims t

/-- A pool whose windows were evaluated was evaluated. -/
theorem evaluated_of_windows {claims : List Claim} {base : SlackTimeline}
    {deficitFloor : Option SlackTimeline} (hb : base.WellFormed)
    {events : List (Timestamp × I128)} (hevents : DemandChanges claims base events)
    {windows : WindowState}
    (h : WindowsAdd base deficitFloor (claimUsage claims) events ⟨[], [], ⟨0, by decide⟩⟩ windows) :
    Evaluated claims base deficitFloor windows := by
  obtain ⟨added, hadded, hfrom, hto⟩ := h.recorded
  rw [List.nil_append] at hadded
  have hfirst (t : Timestamp) (ht : 0 < claimUsage claims t) : ∃ e ∈ events.head?, e.1 ≤ t := by
    obtain ⟨k, hkt, hchecked, -⟩ := exists_checked hb ht
    obtain ⟨e, he, hek⟩ := (hevents.keys k).mpr hchecked
    cases events with
    | nil => cases he
    | cons a events =>
      refine ⟨a, rfl, le_trans ?_ (hek.le.trans hkt)⟩
      rcases List.mem_cons.mp he with rfl | he
      · exact le_rfl
      · exact ((List.pairwise_cons.mp hevents.increasing).1 e he).le
  refine ⟨fun t => ?_, ?_, fun a ha => ?_, fun t ht => ?_⟩
  · rw [h.usage t, adjustmentUsage_nil, zero_add]
    split
    · rfl
    · rename_i hnone
      exact le_antisymm (claimUsage_nonneg _ _) (not_lt.mp fun ht => hnone (hfirst t ht))
  · rw [h.passed]
    constructor
    · rintro ⟨-, hall⟩ t hchecked ht
      obtain ⟨e, he, rfl⟩ := (hevents.keys t).mpr hchecked
      exact hall e he ht
    · exact fun hall => ⟨rfl, fun e he => hall e.1 ((hevents.keys e.1).mp ⟨e, he, rfl⟩)⟩
  · obtain ⟨e, -, hpos, hval⟩ := hfrom a (hadded ▸ ha)
    exact ⟨hval ▸ hpos, e.1, hval⟩
  · obtain ⟨k, -, hchecked, husage, -⟩ := exists_checked hb ht
    obtain ⟨e, he, rfl⟩ := (hevents.keys k).mpr hchecked
    obtain ⟨a, ha, hval⟩ := hto e he (husage ▸ ht)
    exact ⟨a, hadded ▸ ha, hval.trans husage⟩

/-- When the evaluation answers, its windows have been evaluated. -/
theorem evaluatePoolOnTimeline_windows {s : EngineState} {poolId : ResourcePoolId}
    {claims : List Claim} {base : SlackTimeline} {deficitFloor : Option SlackTimeline}
    (hb : base.WellFormed) (hf : ∀ tl ∈ deficitFloor, tl.WellFormed) {admission : PoolAdmission}
    (h : s.evaluatePoolOnTimeline poolId claims base deficitFloor = .ok admission) :
    ∃ windows, Evaluated claims base deficitFloor windows ∧
      finishPool base windows = .ok admission := by
  rw [evaluatePoolOnTimeline_eq] at h
  obtain ⟨points, hpoints, h⟩ := Except.bind_eq_ok.mp h
  obtain ⟨events, hevents, h⟩ := Except.bind_eq_ok.mp h
  obtain ⟨windows, hwindows, h⟩ := Except.bind_eq_ok.mp h
  have hchanges := demandEvents_merged (indexResult_eq_ok.mp hpoints) hevents
  have hrange := evaluateWindows_range hchanges.increasing hchanges.sums hchanges.last hwindows
  obtain ⟨windows', hwindows', hadd⟩ := evaluateWindows_spec (s := s) hb hf
    hchanges.increasing (w := ⟨[], [], ⟨0, by decide⟩⟩) hchanges.sums hchanges.last hrange
  obtain rfl : windows = windows' := Except.ok.inj (hwindows.symm.trans hwindows')
  exact ⟨windows, evaluated_of_windows hb hchanges hadd, h⟩

/-- When the demand is a quantity everywhere, the windows are evaluated. -/
theorem evaluatePoolOnTimeline_of_range {s : EngineState} {poolId : ResourcePoolId}
    {claims : List Claim} {base : SlackTimeline} {deficitFloor : Option SlackTimeline}
    (hb : base.WellFormed) (hf : ∀ tl ∈ deficitFloor, tl.WellFormed)
    (hrange : ∀ t, claimUsage claims t ≤ 18446744073709551615) :
    ∃ windows, Evaluated claims base deficitFloor windows ∧
      s.evaluatePoolOnTimeline poolId claims base deficitFloor = finishPool base windows := by
  obtain ⟨points, hpoints, -⟩ := SlackTimeline.effectivePoints_spec hb
  obtain ⟨events, hevents⟩ := demandEvents_ok fun t =>
    (hrange t).trans (by norm_num)
  have hchanges := demandEvents_merged hpoints hevents
  obtain ⟨windows, hwindows, hadd⟩ := evaluateWindows_spec (s := s) hb hf
    hchanges.increasing (w := ⟨[], [], ⟨0, by decide⟩⟩) hchanges.sums hchanges.last
    fun e _ => ⟨claimUsage_nonneg _ _, hrange e.1⟩
  refine ⟨windows, evaluated_of_windows hb hchanges hadd, ?_⟩
  rw [evaluatePoolOnTimeline_eq, hpoints, indexResult, Except.ok_bind, hevents, Except.ok_bind,
    hwindows, Except.ok_bind]

/-- A timeline that the evaluation returns is the base slack minus the demand, and every check
has passed. -/
theorem evaluatePoolOnTimeline_available {s : EngineState} {poolId : ResourcePoolId}
    {claims : List Claim} {base tl : SlackTimeline} {deficitFloor : Option SlackTimeline}
    (hb : base.WellFormed) (hf : ∀ tl ∈ deficitFloor, tl.WellFormed)
    (h : s.evaluatePoolOnTimeline poolId claims base deficitFloor = .ok (.available tl)) :
    tl.WellFormed ∧ (∀ t, tl.slackValue t = base.slackValue t - claimUsage claims t) ∧
      AllPass claims base deficitFloor ∧ ∀ t, claimUsage claims t ≤ 9223372036854775807 := by
  obtain ⟨windows, hev, h⟩ := evaluatePoolOnTimeline_windows hb hf h
  unfold finishPool at h
  split at h
  · cases h
  · rename_i hconflicts
    have hpass := hev.passed.mp (not_not.mp hconflicts)
    obtain ⟨narrow, hnarrow, h⟩ := Except.bind_eq_ok.mp h
    obtain ⟨tl', htl', h⟩ := Except.bind_eq_ok.mp h
    obtain rfl : tl' = tl := by simpa [pure, Except.pure] using h
    have hrel := (List.mapM_eq_ok_iff.mp hnarrow).imp fun _ _ => narrowAdjustment_eq_ok.mp
    obtain ⟨tl'', htl'', hwf, hvalue⟩ := consumeDemands_spec hb
      (fun a ha => (hev.positive a ha).1.le)
      (fun t => (hev.usage t).symm ▸ hpass.isSlack hb hf t) hrel
    obtain rfl : tl' = tl'' := Except.ok.inj (htl'.symm.trans htl'')
    refine ⟨hwf, fun t => by rw [hvalue, hev.usage], hpass, fun t => ?_⟩
    rcases (claimUsage_nonneg claims t).eq_or_lt with hzero | hpos
    · rw [← hzero]
      norm_num
    · obtain ⟨a, ha, hval⟩ := hev.recorded t hpos
      obtain ⟨b, -, -, hab⟩ : ∃ b ∈ narrow, a.1 = b.1 ∧ a.2.val = b.2.val := by
        obtain ⟨i, hi, rfl⟩ := List.getElem_of_mem ha
        have hj : i < narrow.length := hrel.length_eq ▸ hi
        exact ⟨narrow[i], List.getElem_mem _, hrel.get hi _⟩
      rw [← hval, hab]
      exact b.2.property.2

/-- The evaluation answers that the claims do not fit only with a conflict. -/
theorem evaluatePoolOnTimeline_unavailable {s : EngineState} {poolId : ResourcePoolId}
    {claims : List Claim} {base : SlackTimeline} {deficitFloor : Option SlackTimeline}
    {conflicts : List AvailabilityConflict}
    (h : s.evaluatePoolOnTimeline poolId claims base deficitFloor = .ok (.unavailable conflicts)) :
    conflicts ≠ [] := by
  rw [evaluatePoolOnTimeline_eq] at h
  obtain ⟨points, -, h⟩ := Except.bind_eq_ok.mp h
  obtain ⟨events, -, h⟩ := Except.bind_eq_ok.mp h
  obtain ⟨windows, -, h⟩ := Except.bind_eq_ok.mp h
  unfold finishPool at h
  split at h
  · rename_i hne
    obtain rfl : windows.conflicts = conflicts := by simpa [pure, Except.pure] using h
    exact hne
  · obtain ⟨narrow, -, h⟩ := Except.bind_eq_ok.mp h
    obtain ⟨tl', -, h⟩ := Except.bind_eq_ok.mp h
    cases h

/-- Claims whose checks all pass and whose demand is a slack value are available. -/
theorem evaluatePoolOnTimeline_of_allPass {s : EngineState} {poolId : ResourcePoolId}
    {claims : List Claim} {base : SlackTimeline} {deficitFloor : Option SlackTimeline}
    (hb : base.WellFormed) (hf : ∀ tl ∈ deficitFloor, tl.WellFormed)
    (hpass : AllPass claims base deficitFloor)
    (hrange : ∀ t, claimUsage claims t ≤ 9223372036854775807) :
    ∃ tl, s.evaluatePoolOnTimeline poolId claims base deficitFloor = .ok (.available tl) := by
  obtain ⟨windows, hev, h⟩ := evaluatePoolOnTimeline_of_range (s := s) hb hf
    fun t => (hrange t).trans (by norm_num)
  have hconflicts := hev.passed.mpr hpass
  obtain ⟨narrow, hnarrow, hrel⟩ := narrowAdjustments_ok
    fun a ha => by
      obtain ⟨hpos, t, hval⟩ := hev.positive a ha
      have hle := hrange t
      constructor <;> omega
  obtain ⟨tl, htl, -⟩ := consumeDemands_spec hb (fun a ha => (hev.positive a ha).1.le)
    (fun t => (hev.usage t).symm ▸ hpass.isSlack hb hf t) hrel
  refine ⟨tl, ?_⟩
  rw [h, finishPool, if_neg (not_not.mpr hconflicts), hnarrow, Except.ok_bind, htl]
  rfl

/-- Claims with a check that fails are not available. -/
theorem evaluatePoolOnTimeline_of_not_allPass {s : EngineState} {poolId : ResourcePoolId}
    {claims : List Claim} {base : SlackTimeline} {deficitFloor : Option SlackTimeline}
    (hb : base.WellFormed) (hf : ∀ tl ∈ deficitFloor, tl.WellFormed)
    (hpass : ¬AllPass claims base deficitFloor)
    (hrange : ∀ t, claimUsage claims t ≤ 18446744073709551615) :
    ∃ conflicts,
      s.evaluatePoolOnTimeline poolId claims base deficitFloor = .ok (.unavailable conflicts) := by
  obtain ⟨windows, hev, h⟩ := evaluatePoolOnTimeline_of_range (s := s) hb hf
    hrange
  rw [h, finishPool, if_pos (mt hev.passed.mp hpass)]
  exact ⟨_, rfl⟩

end EngineState

end PromiseDb
