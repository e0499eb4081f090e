import Mathlib.Data.List.Basic
import Mathlib.Order.Basic
import Mathlib.Tactic

/-!
# Merging touching segments

Segments of a linear order carry labels and come one after another.  A list of segments is
normalized by extending the last segment with the next one when the two touch and agree on their
labels.  The merged list covers the same points under the same labels, its segments are disjoint
and in order, and no two of them that touch have the same label.

A view says how the start, the stop and the label are read from a record.
-/

namespace SegmentMerge

/-- How a half-open segment with a label is read from a record. -/
structure View (γ α β : Type*) where
  /-- The first point of the segment. -/
  start : γ → α
  /-- The first point after the segment. -/
  stop : γ → α
  /-- What the segment says about its points. -/
  label : γ → β

namespace View

variable {γ α β : Type*} [LinearOrder α] (v : View γ α β)

/-- The segment contains the point. -/
def Covers (c : γ) (t : α) : Prop := v.start c ≤ t ∧ t < v.stop c

/-- The second segment comes after the first, and if the two touch they differ in their
labels. -/
def Follows (a b : γ) : Prop := v.stop a ≤ v.start b ∧ (v.stop a = v.start b → v.label a ≠ v.label b)

/-- The list `merged` is what normalizing the list `raws` leaves. -/
structure IsMerge (raws merged : List γ) : Prop where
  /-- No merged segment is empty. -/
  proper : ∀ m ∈ merged, v.start m < v.stop m
  /-- The merged segments are in order, and those that touch differ. -/
  follows : merged.Pairwise v.Follows
  /-- Every segment lies inside a merged one with the same label. -/
  inside : ∀ r ∈ raws, ∃ m ∈ merged, v.start m ≤ v.start r ∧ v.stop r ≤ v.stop m ∧
    v.label m = v.label r
  /-- Every point of a merged segment is covered by a segment with the same label. -/
  covered : ∀ m ∈ merged, ∀ t, v.Covers m t → ∃ r ∈ raws, v.Covers r t ∧ v.label r = v.label m
  /-- Every merged segment stops where a segment with the same label stops. -/
  ends : ∀ m ∈ merged, ∃ r ∈ raws, v.stop r = v.stop m ∧ v.label r = v.label m

variable {v} {raws merged : List γ}

/-- Nothing is merged into nothing. -/
theorem isMerge_nil : v.IsMerge [] [] :=
  ⟨by simp, .nil, by simp, by simp, by simp⟩

/-- What bounds the segments bounds the merged ones. -/
theorem IsMerge.stop_le (h : v.IsMerge raws merged) {bound : α}
    (hbound : ∀ r ∈ raws, v.stop r ≤ bound) {m : γ} (hm : m ∈ merged) : v.stop m ≤ bound := by
  by_contra hlt
  obtain ⟨r, hr, hcovers, -⟩ := h.covered m hm (max (v.start m) bound)
    ⟨le_max_left _ _, max_lt (h.proper m hm) (not_le.mp hlt)⟩
  exact absurd (hcovers.2.trans_le (hbound r hr)) (le_max_right _ _).not_gt

/-- A new segment after the others that cannot be merged is added to the list. -/
theorem IsMerge.append (h : v.IsMerge raws merged) {c : γ} (hproper : v.start c < v.stop c)
    (hfollows : ∀ m ∈ merged, v.Follows m c) : v.IsMerge (raws ++ [c]) (merged ++ [c]) := by
  refine ⟨?_, ?_, ?_, ?_, ?_⟩
  · intro m hm
    rcases List.mem_append.mp hm with hm | hm
    · exact h.proper m hm
    · rwa [List.mem_singleton.mp hm]
  · refine List.pairwise_append.mpr ⟨h.follows, List.pairwise_singleton _ _, ?_⟩
    intro m hm c' hc'
    rw [List.mem_singleton.mp hc']
    exact hfollows m hm
  · intro r hr
    rcases List.mem_append.mp hr with hr | hr
    · obtain ⟨m, hm, hrest⟩ := h.inside r hr
      exact ⟨m, List.mem_append_left _ hm, hrest⟩
    · obtain rfl := List.mem_singleton.mp hr
      exact ⟨r, by simp, le_rfl, le_rfl, rfl⟩
  · intro m hm t ht
    rcases List.mem_append.mp hm with hm | hm
    · obtain ⟨r, hr, hrest⟩ := h.covered m hm t ht
      exact ⟨r, List.mem_append_left _ hr, hrest⟩
    · obtain rfl := List.mem_singleton.mp hm
      exact ⟨m, by simp, ht, rfl⟩
  · intro m hm
    rcases List.mem_append.mp hm with hm | hm
    · obtain ⟨r, hr, hrest⟩ := h.ends m hm
      exact ⟨r, List.mem_append_left _ hr, hrest⟩
    · obtain rfl := List.mem_singleton.mp hm
      exact ⟨m, by simp, rfl, rfl⟩

/-- A new segment that touches the last merged one under the same label extends it. -/
theorem IsMerge.extend {front : List γ} {last c new : γ} (h : v.IsMerge raws (front ++ [last]))
    (htouch : v.stop last = v.start c) (hlabel : v.label last = v.label c)
    (hproper : v.start c < v.stop c) (hstart : v.start new = v.start last)
    (hstop : v.stop new = v.stop c) (hnew : v.label new = v.label last) :
    v.IsMerge (raws ++ [c]) (front ++ [new]) := by
  have hlast := h.proper last (by simp)
  obtain ⟨hfront, -, hbefore⟩ := List.pairwise_append.mp h.follows
  refine ⟨?_, ?_, ?_, ?_, ?_⟩
  · intro m hm
    rcases List.mem_append.mp hm with hm | hm
    · exact h.proper m (List.mem_append_left _ hm)
    · rw [List.mem_singleton.mp hm, hstart, hstop]
      exact hlast.trans (htouch ▸ hproper)
  · refine List.pairwise_append.mpr ⟨hfront, List.pairwise_singleton _ _, ?_⟩
    intro m hm c' hc'
    rw [List.mem_singleton.mp hc', Follows, hstart, hnew]
    exact hbefore m hm last (by simp)
  · intro r hr
    rcases List.mem_append.mp hr with hr | hr
    · obtain ⟨m, hm, hle, hge, heq⟩ := h.inside r hr
      rcases List.mem_append.mp hm with hm | hm
      · exact ⟨m, List.mem_append_left _ hm, hle, hge, heq⟩
      · obtain rfl := List.mem_singleton.mp hm
        refine ⟨new, by simp, hstart ▸ hle, ?_, hnew.trans heq⟩
        rw [hstop]
        exact hge.trans (htouch ▸ hproper.le)
    · obtain rfl := List.mem_singleton.mp hr
      refine ⟨new, by simp, ?_, hstop.ge, hnew.trans hlabel⟩
      rw [hstart, ← htouch]
      exact hlast.le
  · intro m hm t ht
    rcases List.mem_append.mp hm with hm | hm
    · obtain ⟨r, hr, hrest⟩ := h.covered m (List.mem_append_left _ hm) t ht
      exact ⟨r, List.mem_append_left _ hr, hrest⟩
    · obtain rfl := List.mem_singleton.mp hm
      rcases lt_or_ge t (v.stop last) with hlt | hge
      · obtain ⟨r, hr, hcovers, heq⟩ := h.covered last (by simp) t ⟨hstart ▸ ht.1, hlt⟩
        exact ⟨r, List.mem_append_left _ hr, hcovers, heq.trans hnew.symm⟩
      · exact ⟨c, by simp, ⟨htouch ▸ hge, hstop ▸ ht.2⟩, hlabel.symm.trans hnew.symm⟩
  · intro m hm
    rcases List.mem_append.mp hm with hm | hm
    · obtain ⟨r, hr, hrest⟩ := h.ends m (List.mem_append_left _ hm)
      exact ⟨r, List.mem_append_left _ hr, hrest⟩
    · obtain rfl := List.mem_singleton.mp hm
      exact ⟨c, by simp, hstop.symm, hlabel.symm.trans hnew.symm⟩

/-- Of two different merged segments one comes after the other. -/
theorem IsMerge.follows_or (h : v.IsMerge raws merged) {m m' : γ} (hm : m ∈ merged)
    (hm' : m' ∈ merged) (hne : m ≠ m') : v.Follows m m' ∨ v.Follows m' m := by
  have hor : merged.Pairwise fun a b => v.Follows a b ∨ v.Follows b a := h.follows.imp .inl
  have : Std.Symm fun a b => v.Follows a b ∨ v.Follows b a := ⟨fun _ _ => Or.symm⟩
  exact hor.forall hm hm' hne

/-- Two merged segments are the same when they share a point. -/
theorem IsMerge.unique (h : v.IsMerge raws merged) {m m' : γ} (hm : m ∈ merged) (hm' : m' ∈ merged)
    {t : α} (ht : v.Covers m t) (ht' : v.Covers m' t) : m = m' := by
  by_contra hne
  rcases h.follows_or hm hm' hne with hfollows | hfollows
  · exact absurd (ht.2.trans_le hfollows.1) ht'.1.not_gt
  · exact absurd (ht'.2.trans_le hfollows.1) ht.1.not_gt

/-- A point of a merged segment lies in a segment that is inside it and has its label. -/
theorem IsMerge.covered_inside (h : v.IsMerge raws merged) {m : γ} (hm : m ∈ merged) {t : α}
    (ht : v.Covers m t) :
    ∃ r ∈ raws, v.Covers r t ∧ v.label r = v.label m ∧ v.start m ≤ v.start r ∧
      v.stop r ≤ v.stop m := by
  obtain ⟨r, hr, hcovers, hlabel⟩ := h.covered m hm t ht
  obtain ⟨m', hm', hstart, hstop, -⟩ := h.inside r hr
  obtain rfl := h.unique hm hm' ht ⟨hstart.trans hcovers.1, hcovers.2.trans_le hstop⟩
  exact ⟨r, hr, hcovers, hlabel, hstart, hstop⟩

/-- The segment that ends a merged segment. -/
theorem IsMerge.exists_last (h : v.IsMerge raws merged) (hraws : ∀ r ∈ raws, v.start r < v.stop r)
    {m : γ} (hm : m ∈ merged) :
    ∃ r ∈ raws, v.stop r = v.stop m ∧ v.label r = v.label m ∧ v.start m ≤ v.start r := by
  obtain ⟨r, hr, hstop, hlabel⟩ := h.ends m hm
  obtain ⟨m', hm', hle, hge, -⟩ := h.inside r hr
  have hlt : max (v.start m) (v.start r) < v.stop m :=
    max_lt (h.proper m hm) (hstop ▸ hraws r hr)
  obtain rfl := h.unique hm hm' ⟨le_max_left _ _, hlt⟩
    ⟨hle.trans (le_max_right _ _), hlt.trans_le (hstop ▸ hge)⟩
  exact ⟨r, hr, hstop, hlabel, hle⟩

/-- The segment that begins a merged segment. -/
theorem IsMerge.exists_first (h : v.IsMerge raws merged) {m : γ} (hm : m ∈ merged) :
    ∃ r ∈ raws, v.start r = v.start m ∧ v.label r = v.label m ∧ v.stop r ≤ v.stop m := by
  obtain ⟨r, hr, hcovers, hlabel, hstart, hstop⟩ :=
    h.covered_inside hm ⟨le_rfl, h.proper m hm⟩
  exact ⟨r, hr, le_antisymm hcovers.1 hstart, hlabel, hstop⟩

end View

end SegmentMerge
