import Mathlib.Data.List.Destutter
import PromiseDb.Library.StateRun

/-!
# Sweeps over breakpoints

What is constant between given points is decided by looking at the points alone.  The points are
sorted, each is kept once, and every point but the last one starts a segment; a property that does
not change within a segment holds between the first and the last point as soon as it holds where the
segments start.
-/

namespace List

variable {T : Type*} [LinearOrder T] {points : List T} {s t : T}

/-! ## Segments -/

/-- The points in order, each of them once. -/
def breakpoints (points : List T) : List T :=
  (points.insertionSort (· ≤ ·)).destutter (· ≠ ·)

/-- Where the segments between the points start. -/
def segmentStarts (points : List T) : List T := points.breakpoints.dropLast

/-- No point lies between the two. -/
def SameSegment (points : List T) (s t : T) : Prop := s ≤ t ∧ ∀ k ∈ points, k ≤ s ∨ t < k

/-- The breakpoints are the sorted points, each of them once. -/
theorem breakpoints_eq_dedup (points : List T) :
    points.breakpoints = (points.insertionSort (· ≤ ·)).dedup :=
  (points.pairwise_insertionSort (· ≤ ·)).destutter_eq_dedup

/-- Every point is a breakpoint. -/
theorem mem_breakpoints : t ∈ points.breakpoints ↔ t ∈ points := by
  rw [breakpoints_eq_dedup, mem_dedup, mem_insertionSort]

/-- The breakpoints increase. -/
theorem breakpoints_sorted (points : List T) : points.breakpoints.Pairwise (· < ·) := by
  have hle : points.breakpoints.Pairwise (· ≤ ·) :=
    (points.pairwise_insertionSort (· ≤ ·)).sublist (destutter_sublist _ _)
  have hne : points.breakpoints.Pairwise (· ≠ ·) := by
    rw [breakpoints_eq_dedup]
    exact nodup_dedup _
  exact (hle.and hne).imp fun h => lt_of_le_of_ne h.1 h.2

/-- Segments start at points behind which there is another one. -/
theorem mem_segmentStarts :
    s ∈ points.segmentStarts ↔ s ∈ points ∧ ∃ k ∈ points, s < k := by
  have hsorted := points.breakpoints_sorted
  unfold segmentStarts
  rcases points.breakpoints.eq_nil_or_concat' with hnil | ⟨front, last, hconcat⟩
  · have hnone (k : T) : k ∉ points := by
      rw [← mem_breakpoints, hnil]
      exact not_mem_nil
    rw [hnil]
    exact ⟨fun h => absurd h not_mem_nil, fun h => absurd h.1 (hnone s)⟩
  · have hmem (k : T) : k ∈ points ↔ k ∈ front ∨ k = last := by
      rw [← mem_breakpoints, hconcat, mem_append, mem_singleton]
    rw [hconcat] at hsorted ⊢
    have hlast (k : T) (hk : k ∈ front) : k < last :=
      (pairwise_append.mp hsorted).2.2 k hk last (mem_singleton_self last)
    rw [dropLast_concat, hmem]
    constructor
    · exact fun hs => ⟨.inl hs, last, (hmem last).mpr (.inr rfl), hlast s hs⟩
    · rintro ⟨hs | rfl, k, hk, hless⟩
      · exact hs
      · rcases (hmem k).mp hk with hk | rfl
        · exact absurd hless (hlast k hk).not_gt
        · exact absurd hless (lt_irrefl k)

/-- Between two points, a segment has started. -/
theorem exists_segmentStart (hlow : ∃ k ∈ points, k ≤ t) (hhigh : ∃ k ∈ points, t < k) :
    ∃ s ∈ points.segmentStarts, points.SameSegment s t := by
  obtain ⟨low, hlow, hle⟩ := hlow
  obtain ⟨high, hhigh, hlt⟩ := hhigh
  obtain ⟨s, hs, hmax⟩ := (points.toFinset.filter (· ≤ t)).exists_max_image id
    ⟨low, Finset.mem_filter.mpr ⟨mem_toFinset.mpr hlow, hle⟩⟩
  obtain ⟨hs, hst⟩ := Finset.mem_filter.mp hs
  refine ⟨s, mem_segmentStarts.mpr ⟨mem_toFinset.mp hs, high, hhigh, hst.trans_lt hlt⟩, hst, ?_⟩
  intro k hk
  rcases le_or_gt k t with hkt | hkt
  · exact .inl (hmax k (Finset.mem_filter.mpr ⟨mem_toFinset.mpr hk, hkt⟩))
  · exact .inr hkt

/-- What does not change within a segment is decided by where the segments start. -/
theorem forall_segmentStarts {p : T → Prop}
    (hp : ∀ s t, points.SameSegment s t → (p s ↔ p t)) :
    (∀ s ∈ points.segmentStarts, p s) ↔
      ∀ t, (∃ k ∈ points, k ≤ t) → (∃ k ∈ points, t < k) → p t := by
  constructor
  · intro h t hlow hhigh
    obtain ⟨s, hs, hsame⟩ := exists_segmentStart hlow hhigh
    exact (hp s t hsame).mp (h s hs)
  · intro h s hs
    obtain ⟨hmem, hhigh⟩ := mem_segmentStarts.mp hs
    exact h s ⟨s, hmem, le_rfl⟩ hhigh

/-! ## Checks -/

variable {α ε : Type} {check : α → Except ε Bool} {l : List α}

/-- Checks that stop at the first refusal have all passed. -/
theorem allM_eq_true : l.allM check = .ok true ↔ ∀ a ∈ l, check a = .ok true := by
  induction l with
  | nil => exact ⟨fun _ _ h => absurd h not_mem_nil, fun _ => rfl⟩
  | cons a l ih =>
    rw [allM, forall_mem_cons, ← ih]
    constructor
    · intro h
      obtain ⟨passed, ha, hrest⟩ := Except.bind_eq_ok.mp h
      cases passed with
      | true => exact ⟨ha, hrest⟩
      | false => cases hrest
    · rintro ⟨ha, hrest⟩
      rw [ha]
      exact hrest

/-- Checks that stop at the first refusal fail only where a check fails. -/
theorem exists_of_allM_eq_error {e : ε} (h : l.allM check = .error e) :
    ∃ a ∈ l, check a = .error e := by
  induction l with
  | nil => cases h
  | cons a l ih =>
    rw [allM] at h
    cases ha : check a with
    | error e' =>
      rw [ha] at h
      obtain rfl : e' = e := Except.error.inj h
      exact ⟨a, mem_cons_self, ha⟩
    | ok passed =>
      rw [ha] at h
      cases passed with
      | true =>
        obtain ⟨b, hb, herror⟩ := ih h
        exact ⟨b, mem_cons_of_mem _ hb, herror⟩
      | false => cases h

end List
