import PromiseDb.Index.SlackTimeline
import PromiseDb.Library.StateRun
import PromiseDb.Library.StepFunction
import Mathlib.Order.Bounds.Basic

/-!
# Operations on one block

A block stands for a list of change points: its points with the delta added to their slack, as
mathematical integers.  A block is exact when all of these are representable and its aggregates
are their extreme values.  Each block operation is described by what it does to the change
points, and keeps blocks exact.
-/

namespace PromiseDb

open StepFunction

/-! ## Points as change points -/

/-- An integer that is representable as a slack. -/
abbrev IsSlack (x : ℤ) : Prop := -9223372036854775808 ≤ x ∧ x ≤ 9223372036854775807

/-- Every slack is in range. -/
theorem isSlack_val (s : Slack) : IsSlack s.val := s.property

/-- Addition of slack values succeeds exactly when the sum is representable. -/
theorem addSlack_eq_ok {a b c : Slack} : addSlack a b = .ok c ↔ a.val + b.val = c.val := by
  unfold addSlack
  split
  · rename_i d h
    rw [BoundedInt.checkedAdd_eq_some] at h
    rw [h, Except.ok.injEq, Subtype.ext_iff]
  · rename_i h
    simp only [reduceCtorEq, false_iff]
    intro hc
    rw [BoundedInt.checkedAdd_eq_some.mpr hc] at h
    cases h

/-- A sum in range is added. -/
theorem addSlack_of_isSlack {a b : Slack} (h : IsSlack (a.val + b.val)) :
    addSlack a b = .ok ⟨a.val + b.val, h⟩ := addSlack_eq_ok.mpr rfl

/-- Adding slack values that leave the range fails. -/
theorem addSlack_of_not_isSlack {a b : Slack} (h : ¬IsSlack (a.val + b.val)) :
    addSlack a b = .error .slackOverflow := by
  unfold addSlack
  rw [BoundedInt.checkedAdd, BoundedInt.ofInt?_eq_none.mpr h]

/-- The change point of a point without delta. -/
def SlackPoint.change (p : SlackPoint) : Timestamp × ℤ := (p.timestamp, p.slack.val)

/-- The change points of a list of points without delta. -/
def changesOf (points : List SlackPoint) : List (Timestamp × ℤ) :=
  points.map SlackPoint.change

/-- Without points there are no changes. -/
@[simp] theorem changesOf_nil : changesOf [] = [] := rfl

/-- The first point gives the first change. -/
@[simp] theorem changesOf_cons (p : SlackPoint) (points : List SlackPoint) :
    changesOf (p :: points) = p.change :: changesOf points := rfl

/-- The changes of both parts follow one another. -/
@[simp] theorem changesOf_append (l r : List SlackPoint) :
    changesOf (l ++ r) = changesOf l ++ changesOf r := List.map_append

/-- Every point gives one change. -/
theorem changesOf_length (points : List SlackPoint) :
    (changesOf points).length = points.length := List.length_map _

/-- The change of a point is among the changes. -/
theorem SlackPoint.change_mem {p : SlackPoint} {points : List SlackPoint} (h : p ∈ points) :
    p.change ∈ changesOf points := List.mem_map_of_mem h

/-- The change points of a block. -/
def SlackBlock.changes (b : SlackBlock) : List (Timestamp × ℤ) :=
  b.points.map fun p => (p.timestamp, p.slack.val + b.slackDelta.val)

/-- A new block changes where its points do. -/
theorem changes_ofPoints (points : List SlackPoint) :
    (SlackBlock.ofPoints points).changes = changesOf points := by
  simp [SlackBlock.changes, SlackBlock.ofPoints, changesOf, SlackPoint.change]

/-- A block without changes has no points. -/
theorem SlackBlock.changes_eq_nil {b : SlackBlock} : b.changes = [] ↔ b.points = [] := by
  simp [SlackBlock.changes]

/-- Every point of a block gives one change. -/
theorem SlackBlock.length_changes (b : SlackBlock) : b.changes.length = b.points.length := by
  simp [SlackBlock.changes]

/-! ## Aggregates -/

/-- Folding `min` gives the smallest slack. -/
theorem minimumOf_isLeast {points : List SlackPoint} (h : points ≠ []) :
    ∃ m, minimumOf points = some m ∧ IsLeast {x | ∃ e ∈ changesOf points, e.2 = x} m.val := by
  induction points using List.reverseRecOn with
  | nil => exact absurd rfl h
  | append_singleton l p ih =>
    simp only [minimumOf, List.foldl_append, List.foldl_cons, List.foldl_nil] at ih ⊢
    rcases List.eq_nil_or_concat l with rfl | hl
    · refine ⟨p.slack, rfl, ⟨p.change, by simp, rfl⟩, ?_⟩
      rintro x ⟨e, he, rfl⟩
      obtain rfl : e = p.change := by simpa using he
      exact le_rfl
    · obtain ⟨m, hm, ⟨e, he, hem⟩, hle⟩ := ih (by obtain ⟨l', a, rfl⟩ := hl; simp)
      rw [hm]
      refine ⟨min m p.slack, rfl, ?_, ?_⟩
      · rw [BoundedInt.val_min]
        rcases min_cases m.val p.slack.val with ⟨h', -⟩ | ⟨h', -⟩
        · exact ⟨e, by rw [changesOf_append]; exact List.mem_append_left _ he, by rw [h', hem]⟩
        · exact ⟨p.change, by simp, by rw [h']; rfl⟩
      · rintro x ⟨e', he', rfl⟩
        rw [BoundedInt.val_min]
        rw [changesOf_append, List.mem_append] at he'
        rcases he' with he' | he'
        · exact (min_le_left _ _).trans (hle ⟨e', he', rfl⟩)
        · obtain rfl : e' = p.change := by simpa using he'
          exact min_le_right _ _

/-- Folding `max` gives the largest slack. -/
theorem maximumOf_isGreatest {points : List SlackPoint} (h : points ≠ []) :
    ∃ m, maximumOf points = some m ∧ IsGreatest {x | ∃ e ∈ changesOf points, e.2 = x} m.val := by
  induction points using List.reverseRecOn with
  | nil => exact absurd rfl h
  | append_singleton l p ih =>
    simp only [maximumOf, List.foldl_append, List.foldl_cons, List.foldl_nil] at ih ⊢
    rcases List.eq_nil_or_concat l with rfl | hl
    · refine ⟨p.slack, rfl, ⟨p.change, by simp, rfl⟩, ?_⟩
      rintro x ⟨e, he, rfl⟩
      obtain rfl : e = p.change := by simpa using he
      exact le_rfl
    · obtain ⟨m, hm, ⟨e, he, hem⟩, hle⟩ := ih (by obtain ⟨l', a, rfl⟩ := hl; simp)
      rw [hm]
      refine ⟨max m p.slack, rfl, ?_, ?_⟩
      · rw [BoundedInt.val_max]
        rcases max_cases m.val p.slack.val with ⟨h', -⟩ | ⟨h', -⟩
        · exact ⟨e, by rw [changesOf_append]; exact List.mem_append_left _ he, by rw [h', hem]⟩
        · exact ⟨p.change, by simp, by rw [h']; rfl⟩
      · rintro x ⟨e', he', rfl⟩
        rw [BoundedInt.val_max]
        rw [changesOf_append, List.mem_append] at he'
        rcases he' with he' | he'
        · exact (hle ⟨e', he', rfl⟩).trans (le_max_left _ _)
        · obtain rfl : e' = p.change := by simpa using he'
          exact le_max_right _ _

namespace SlackBlock

/-- Every effective slack of the block is representable. -/
def Representable (b : SlackBlock) : Prop := ∀ e ∈ b.changes, IsSlack e.2

/-- The effective values are representable and the aggregates are their extreme values. -/
structure Exact (b : SlackBlock) : Prop where
  /-- Every effective slack is representable. -/
  representable : b.Representable
  /-- The stored minimum is the smallest effective slack. -/
  minimum : b.points ≠ [] →
    ∃ m, b.minimumSlack = some m ∧ IsLeast {x | ∃ e ∈ b.changes, e.2 = x} m.val
  /-- The stored maximum is the largest effective slack. -/
  maximum : b.points ≠ [] →
    ∃ m, b.maximumSlack = some m ∧ IsGreatest {x | ∃ e ∈ b.changes, e.2 = x} m.val

/-- The slack of a new block is in range. -/
theorem ofPoints_representable (points : List SlackPoint) : (ofPoints points).Representable := by
  intro e he
  rw [changes_ofPoints] at he
  obtain ⟨p, -, rfl⟩ := List.mem_map.mp he
  exact isSlack_val p.slack

/-- A block with computed aggregates is exact. -/
theorem ofPoints_exact (points : List SlackPoint) : (ofPoints points).Exact where
  representable := ofPoints_representable points
  minimum h := by
    rw [changes_ofPoints]
    exact minimumOf_isLeast h
  maximum h := by
    rw [changes_ofPoints]
    exact maximumOf_isGreatest h

/-! ## Materializing -/

/-- Adding the delta succeeds on a representable block. -/
theorem effectivePoints_spec {b : SlackBlock} (h : b.Representable) :
    ∃ points, b.effectivePoints = .ok points ∧ changesOf points = b.changes := by
  obtain ⟨points, hpoints, hall⟩ := List.mapM_exists (l := b.points)
    (f := fun p => return ⟨p.timestamp, ← addSlack p.slack b.slackDelta⟩)
    (P := fun p q => (p.timestamp, p.slack.val + b.slackDelta.val) = SlackPoint.change q) (by
      intro p hp
      have hs : IsSlack (p.slack.val + b.slackDelta.val) := h _ (List.mem_map_of_mem hp)
      exact ⟨⟨p.timestamp, _⟩, by rw [addSlack_of_isSlack hs]; rfl, rfl⟩)
  exact ⟨points, hpoints, (List.Forall₂.map_eq hall fun _ _ h => h).symm⟩

/-- Writing the delta into the points does not change what the block stands for. -/
theorem materializeDelta_spec {b : SlackBlock} (h : b.Representable) :
    ∃ points, b.materializeDelta = .ok { b with points := points, slackDelta := ⟨0, by decide⟩ } ∧
      changesOf points = b.changes := by
  unfold materializeDelta
  split
  · rename_i h₀
    refine ⟨b.points, ?_, ?_⟩
    · have : b.slackDelta = ⟨0, by decide⟩ := Subtype.ext h₀
      rw [← this]
    · simp [changes, changesOf, h₀, SlackPoint.change]
  · obtain ⟨points, hpoints, hc⟩ := effectivePoints_spec h
    exact ⟨points, by rw [hpoints]; rfl, hc⟩

/-- Recomputing the aggregates makes a representable block exact. -/
theorem recomputeAggregates_spec {b : SlackBlock} (h : b.Representable) :
    ∃ b', b.recomputeAggregates = .ok b' ∧ b'.points = b.points ∧
      b'.slackDelta = b.slackDelta ∧ b'.changes = b.changes ∧ b'.Exact := by
  obtain ⟨points, hpoints, hc⟩ := effectivePoints_spec h
  refine ⟨{ b with minimumSlack := minimumOf points, maximumSlack := maximumOf points },
    by rw [recomputeAggregates, hpoints]; rfl, rfl, rfl, rfl, h, fun hne => ?_, fun hne => ?_⟩
  · have hne' : points ≠ [] := by
      rintro rfl
      exact hne (changes_eq_nil.mp hc.symm)
    have := minimumOf_isLeast hne'
    rwa [hc] at this
  · have hne' : points ≠ [] := by
      rintro rfl
      exact hne (changes_eq_nil.mp hc.symm)
    have := maximumOf_isGreatest hne'
    rwa [hc] at this

/-! ## Adding a delta -/

/-- Shifting a set of integers shifts its least element. -/
theorem isLeast_shift {l : List (Timestamp × ℤ)} {m : ℤ} (δ : ℤ)
    (h : IsLeast {x | ∃ e ∈ l, e.2 = x} m) :
    IsLeast {x | ∃ e ∈ shift δ l, e.2 = x} (m + δ) := by
  obtain ⟨⟨e, he, rfl⟩, hle⟩ := h
  refine ⟨⟨(e.1, e.2 + δ), List.mem_map_of_mem he, rfl⟩, ?_⟩
  rintro x ⟨e', he', rfl⟩
  obtain ⟨a, ha, rfl⟩ := List.mem_map.mp he'
  exact add_le_add (hle ⟨a, ha, rfl⟩) le_rfl

/-- Shifting a set of integers shifts its greatest element. -/
theorem isGreatest_shift {l : List (Timestamp × ℤ)} {m : ℤ} (δ : ℤ)
    (h : IsGreatest {x | ∃ e ∈ l, e.2 = x} m) :
    IsGreatest {x | ∃ e ∈ shift δ l, e.2 = x} (m + δ) := by
  obtain ⟨⟨e, he, rfl⟩, hle⟩ := h
  refine ⟨⟨(e.1, e.2 + δ), List.mem_map_of_mem he, rfl⟩, ?_⟩
  rintro x ⟨e', he', rfl⟩
  obtain ⟨a, ha, rfl⟩ := List.mem_map.mp he'
  exact add_le_add (hle ⟨a, ha, rfl⟩) le_rfl

/-- The lazy update shifts every change point. -/
theorem applyDelta_spec {b : SlackBlock} {δ : Slack} (h : b.Exact) (hne : b.points ≠ [])
    (hδ : ∀ e ∈ b.changes, IsSlack (e.2 + δ.val)) :
    ∃ b', b.applyDelta δ = .ok b' ∧ b'.changes = shift δ.val b.changes ∧ b'.Exact := by
  obtain ⟨m, hm, hleast⟩ := h.minimum hne
  obtain ⟨M, hM, hgreatest⟩ := h.maximum hne
  have hm' : IsSlack (m.val + δ.val) := by
    obtain ⟨e, he, hem⟩ := hleast.1
    exact hem ▸ hδ e he
  have hM' : IsSlack (M.val + δ.val) := by
    obtain ⟨e, he, hem⟩ := hgreatest.1
    exact hem ▸ hδ e he
  -- either the delta absorbs the change, or it is written into the points first
  obtain ⟨points, newDelta, heq, hc⟩ : ∃ points newDelta,
      b.applyDelta δ = .ok ⟨points, some ⟨m.val + δ.val, hm'⟩, some ⟨M.val + δ.val, hM'⟩, newDelta⟩ ∧
      points.map (fun p => (p.timestamp, p.slack.val + newDelta.val)) = shift δ.val b.changes := by
    simp only [applyDelta, hm, hM, addSlack_of_isSlack hm', addSlack_of_isSlack hM',
      Except.ok_bind]
    cases hadd : b.slackDelta.checkedAdd δ with
    | some newDelta =>
      rw [BoundedInt.checkedAdd_eq_some] at hadd
      refine ⟨b.points, newDelta, rfl, ?_⟩
      simp [changes, shift, ← hadd, add_assoc]
    | none =>
      obtain ⟨points, hmat, hpoints⟩ := materializeDelta_spec h.representable
      refine ⟨points, δ, by rw [hmat]; rfl, ?_⟩
      rw [← hpoints]
      simp [shift, changesOf, SlackPoint.change]
  have hrep : ∀ e ∈ shift δ.val b.changes, IsSlack e.2 := by
    intro e he
    obtain ⟨a, ha, rfl⟩ := List.mem_map.mp he
    exact hδ a ha
  refine ⟨_, heq, hc, ⟨?_, fun _ => ⟨_, rfl, ?_⟩, fun _ => ⟨_, rfl, ?_⟩⟩⟩
  · intro e he
    exact hrep e (hc ▸ he)
  · rw [changes, hc]
    exact isLeast_shift δ.val hleast
  · rw [changes, hc]
    exact isGreatest_shift δ.val hgreatest

/-! ## Dropping repeated values -/

/-- Dropping repeated slack is dropping change points at which nothing changes. -/
theorem changesOf_dropRepeats_some (v : Slack) (points : List SlackPoint) :
    changesOf (dropRepeats (some v) points) = dedup v.val (changesOf points) := by
  induction points generalizing v with
  | nil => rfl
  | cons p rest ih =>
    rw [dropRepeats, changesOf_cons, dedup]
    by_cases hp : v = p.slack
    · subst hp
      rw [if_pos rfl, if_pos (show p.change.2 = p.slack.val from rfl)]
      exact ih p.slack
    · have hne : ¬p.change.2 = v.val := fun h => hp (Subtype.ext h).symm
      rw [if_neg (by simpa using hp), if_neg hne, changesOf_cons]
      exact congrArg _ (ih p.slack)

/-- The first point is kept when nothing comes before it. -/
theorem dropRepeats_none_cons (p : SlackPoint) (rest : List SlackPoint) :
    dropRepeats none (p :: rest) = p :: dropRepeats (some p.slack) rest := rfl

/-- Merging points of equal slack merges their change points. -/
theorem changesOf_dropRepeats (points : List SlackPoint) :
    changesOf (dropRepeats none points) = collapse (changesOf points) := by
  cases points with
  | nil => rfl
  | cons p rest =>
    rw [dropRepeats_none_cons, changesOf_cons, changesOf_cons, changesOf_dropRepeats_some]
    rfl

/-- Merging points of equal slack does not change the function. -/
theorem same_dropRepeats {points : List SlackPoint} (h : Increasing (changesOf points)) :
    Same (changesOf (dropRepeats none points)) (changesOf points) := by
  rw [changesOf_dropRepeats]
  exact same_collapse h

/-- Dropping repetitions keeps some of the points. -/
theorem dropRepeats_sublist (v : Option Slack) (points : List SlackPoint) :
    (dropRepeats v points).Sublist points := by
  induction points generalizing v with
  | nil => exact .slnil
  | cons p rest ih =>
    rw [dropRepeats]
    split
    · exact (ih v).cons p
    · exact (ih _).cons_cons p

/-- Dropping repetitions keeps the first of any points. -/
theorem dropRepeats_none_ne_nil {points : List SlackPoint} (h : points ≠ []) :
    dropRepeats none points ≠ [] := by
  cases points with
  | nil => exact absurd rfl h
  | cons p rest => simp [dropRepeats_none_cons]

/-- On ordered points the normalization loop drops repeated slack. -/
theorem normalizePoints_some {previous : SlackPoint} {points : List SlackPoint}
    (h : Increasing (changesOf points)) (hprev : ∀ p ∈ points, previous.timestamp < p.timestamp) :
    normalizePoints (some previous) points = .ok (dropRepeats (some previous.slack) points) := by
  induction points generalizing previous with
  | nil => rfl
  | cons p rest ih =>
    obtain ⟨hp, hrest⟩ := List.pairwise_cons.mp h
    have hlt := hprev p (by simp)
    have hp' : ∀ q ∈ rest, p.timestamp < q.timestamp := fun q hq => hp _ (SlackPoint.change_mem hq)
    rw [normalizePoints, dropRepeats, if_neg hlt.not_gt, if_neg hlt.ne']
    by_cases hs : p.slack = previous.slack
    · rw [if_pos hs, if_pos (by rw [hs]), ih hrest fun q hq => hprev q (by simp [hq])]
    · rw [if_neg hs, if_neg (by simpa using Ne.symm hs), ih hrest hp']
      rfl

/-- On ordered points the normalization loop drops repeated slack. -/
theorem normalizePoints_none {points : List SlackPoint} (h : Increasing (changesOf points)) :
    normalizePoints none points = .ok (dropRepeats none points) := by
  cases points with
  | nil => rfl
  | cons p rest =>
    obtain ⟨hp, hrest⟩ := List.pairwise_cons.mp h
    rw [normalizePoints, normalizePoints_some hrest fun q hq => hp _ (SlackPoint.change_mem hq)]
    rfl

/-- Ordered points pass the order check. -/
theorem checkSorted_ok {points : List SlackPoint} {previous : Option Timestamp}
    (h : Increasing (changesOf points))
    (hprev : ∀ t ∈ previous, ∀ p ∈ points, t < p.timestamp) : checkSorted previous points = .ok () := by
  induction points generalizing previous with
  | nil => rfl
  | cons p rest ih =>
    obtain ⟨hp, hrest⟩ := List.pairwise_cons.mp h
    have hlt : ∀ t ∈ previous, t < p.timestamp := fun t ht => hprev t ht p (by simp)
    rw [checkSorted, if_neg, if_neg]
    · refine ih hrest ?_
      rintro t ⟨⟩ q hq
      exact hp _ (SlackPoint.change_mem hq)
    · rintro rfl
      exact lt_irrefl _ (hlt _ rfl)
    · cases previous with
      | none => simp
      | some t => simpa using (hlt t rfl).le

/-- A block built from ordered points keeps all of them. -/
theorem fromSortedPointsPreservingBoundaries_eq {points : List SlackPoint}
    (h : Increasing (changesOf points)) :
    fromSortedPointsPreservingBoundaries points = .ok (ofPoints points) := by
  rw [fromSortedPointsPreservingBoundaries, checkSorted_ok h (by simp)]
  rfl

/-- A block built from ordered points with merging stands for the same function. -/
theorem fromSortedPoints_eq {points : List SlackPoint} (h : Increasing (changesOf points)) :
    fromSortedPoints points = .ok (ofPoints (dropRepeats none points)) := by
  rw [fromSortedPoints, normalizePoints_none h]
  rfl

/-! ## Adding a delta to a range of points -/

/-- Points outside the range are kept. -/
theorem adjustPoint_outside {start stop k : Nat} {δ : Slack} {points : List SlackPoint}
    (h : ∀ i, k ≤ i → i < k + points.length → ¬(start ≤ i ∧ i < stop)) :
    (points.zipIdx k).mapM (adjustPoint start stop δ) = .ok points := by
  induction points generalizing k with
  | nil => rfl
  | cons p rest ih =>
    have hk : ¬(start ≤ k ∧ k < stop) := h k le_rfl (by simp)
    have hrest := ih (k := k + 1) fun i hi hi' => h i (by omega) (by simp; omega)
    rw [List.zipIdx_cons, List.mapM_cons, adjustPoint, if_neg hk, hrest]
    rfl

/-- Points inside the range are shifted. -/
theorem adjustPoint_inside {start stop k : Nat} {δ : Slack} {points : List SlackPoint}
    (h : ∀ i, k ≤ i → i < k + points.length → start ≤ i ∧ i < stop)
    (hδ : ∀ e ∈ changesOf points, IsSlack (e.2 + δ.val)) :
    ∃ adjusted, (points.zipIdx k).mapM (adjustPoint start stop δ) = .ok adjusted ∧
      changesOf adjusted = shift δ.val (changesOf points) := by
  induction points generalizing k with
  | nil => exact ⟨[], rfl, rfl⟩
  | cons p rest ih =>
    have hk : start ≤ k ∧ k < stop := h k le_rfl (by simp)
    have hp : IsSlack (p.slack.val + δ.val) := hδ p.change (by simp)
    obtain ⟨adjusted, hadj, hc⟩ := ih (k := k + 1)
      (fun i hi hi' => h i (by omega) (by simp; omega))
      fun e he => hδ e (List.mem_cons_of_mem _ he)
    refine ⟨⟨p.timestamp, ⟨p.slack.val + δ.val, hp⟩⟩ :: adjusted, ?_, ?_⟩
    · rw [List.zipIdx_cons, List.mapM_cons, adjustPoint, if_pos hk, addSlack_of_isSlack hp, hadj]
      rfl
    · rw [changesOf_cons, changesOf_cons, shift_cons, hc]
      rfl

/-- Updating the points of the middle part shifts its change points, and then merges those that
repeat a value. -/
theorem applyDeltaToPointRange_spec {b : SlackBlock} {δ : Slack} {l m r : List (Timestamp × ℤ)}
    (h : b.Representable) (hb : b.changes = l ++ m ++ r) (hδ : ∀ e ∈ m, IsSlack (e.2 + δ.val))
    (hm : m ≠ []) :
    ∃ b', b.applyDeltaToPointRange l.length (l.length + m.length) δ = .ok b' ∧
      b'.changes = collapse (l ++ shift δ.val m ++ r) ∧ b'.Exact ∧ b'.points ≠ [] := by
  obtain ⟨points, hpoints, hc⟩ := effectivePoints_spec h
  have hlen : b.points.length = l.length + m.length + r.length := by
    rw [← b.length_changes, hb, List.length_append, List.length_append]
  have hmpos : 0 < m.length := List.length_pos_iff.mpr hm
  -- cut the effective points along the three parts
  obtain ⟨pl, pm, pr, rfl, hpl, hpm, hpr⟩ : ∃ pl pm pr, points = pl ++ pm ++ pr ∧
      changesOf pl = l ∧ changesOf pm = m ∧ changesOf pr = r := by
    rw [hb] at hc
    obtain ⟨plm, pr, rfl, hplm, hpr⟩ := List.map_eq_append_iff.mp hc
    obtain ⟨pl, pm, rfl, hpl, hpm⟩ := List.map_eq_append_iff.mp hplm
    exact ⟨pl, pm, pr, rfl, hpl, hpm, hpr⟩
  have hll : pl.length = l.length := by rw [← hpl, changesOf_length]
  have hml : pm.length = m.length := by rw [← hpm, changesOf_length]
  have h₁ : (pl.zipIdx 0).mapM (adjustPoint l.length (l.length + m.length) δ) = .ok pl :=
    adjustPoint_outside fun i _ hi => by omega
  have hinside : ∀ i, 0 + pl.length ≤ i → i < 0 + pl.length + pm.length →
      l.length ≤ i ∧ i < l.length + m.length := fun i hi hi' => by omega
  obtain ⟨pm', h₂, hpm'⟩ := adjustPoint_inside hinside (hpm ▸ hδ)
  have h₃ : (pr.zipIdx (0 + (pl ++ pm).length)).mapM
      (adjustPoint l.length (l.length + m.length) δ) = .ok pr :=
    adjustPoint_outside fun i hi _ => by
      rw [List.length_append] at hi
      omega
  have hmap : ((pl ++ pm ++ pr).zipIdx 0).mapM (adjustPoint l.length (l.length + m.length) δ) =
      .ok (pl ++ pm' ++ pr) := by
    rw [List.zipIdx_append, List.zipIdx_append, List.mapM_append, List.mapM_append, h₁, h₂, h₃]
    rfl
  have hadj : changesOf (pl ++ pm' ++ pr) = l ++ shift δ.val m ++ r := by
    rw [changesOf_append, changesOf_append, hpl, hpr, hpm', hpm]
  have hne' : pl ++ pm' ++ pr ≠ [] := by
    intro hnil
    rw [hnil] at hadj
    have hlen' := congrArg List.length hadj
    simp only [changesOf_nil, List.length_nil, List.length_append, shift, List.length_map] at hlen'
    omega
  refine ⟨ofPoints (dropRepeats none (pl ++ pm' ++ pr)), ?_, ?_, ofPoints_exact _,
    dropRepeats_none_ne_nil hne'⟩
  · rw [applyDeltaToPointRange, if_neg (by omega), if_neg (by omega), hpoints, Except.ok_bind, hmap]
    rfl
  · rw [changes_ofPoints, changesOf_dropRepeats, hadj]

end SlackBlock

end PromiseDb
