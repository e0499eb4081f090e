import PromiseDb.Domain.CapacityCurve
import PromiseDb.Library.CanonicalForm

/-!
# Curves from segments in any order

Segments in any order are sorted and then normalized in one pass, which tests a segment for an
overlap only with the last normalized one.  In chronological order this one test stands for all of
them: the last normalized segment ends where the last segment that was read ends, and no earlier one
ends later.  A merge changes neither what is covered nor with which capacity.
-/

namespace PromiseDb

/-- The key by which segments are sorted. -/
def CapacitySegment.sortKey (s : CapacitySegment) : Timestamp ×ₗ Timestamp ×ₗ Quantity :=
  toLex (s.interval.start, toLex (s.interval.stop, s.capacity))

/-- The three parts of the key determine a segment. -/
theorem CapacitySegment.sortKey_injective : Function.Injective CapacitySegment.sortKey := by
  intro s s' h
  obtain ⟨⟨start, stop, hlt⟩, capacity⟩ := s
  obtain ⟨⟨start', stop', hlt'⟩, capacity'⟩ := s'
  have hparts : start = start' ∧ stop = stop' ∧ capacity = capacity' := by
    simpa [CapacitySegment.sortKey] using h
  obtain ⟨rfl, rfl, rfl⟩ := hparts
  rfl

namespace CapacityCurve

/-- Creates a curve from segments supplied in any order. -/
def fromUnsorted (segments : List CapacitySegment) : Except DomainError CapacityCurve := do
  validateCapacities segments
  fromSorted (segments.insertionSort fun a b => a.sortKey ≤ b.sortKey)

/-! ## What segments cover -/

/-- Some segment of the list has the capacity at the timestamp. -/
def Covers (segments : List CapacitySegment) (t : Timestamp) (capacity : Quantity) : Prop :=
  ∃ s ∈ segments, s.interval.contains t = true ∧ s.capacity = capacity

/-- Two lists cover what one of them covers. -/
theorem covers_append {l l' : List CapacitySegment} {t : Timestamp} {capacity : Quantity} :
    Covers (l ++ l') t capacity ↔ Covers l t capacity ∨ Covers l' t capacity := by
  simp only [Covers, List.mem_append, or_and_right, exists_or]

/-- A list covers what its first segment or the rest covers. -/
theorem covers_cons {s : CapacitySegment} {l : List CapacitySegment} {t : Timestamp}
    {capacity : Quantity} : Covers (s :: l) t capacity ↔
      (s.interval.contains t = true ∧ s.capacity = capacity) ∨ Covers l t capacity := by
  simp only [Covers, List.mem_cons, exists_eq_or_imp]

/-- The normalized segments so far end no later than the segment starts. -/
def EndsBefore (normalized : List CapacitySegment) (segment : CapacitySegment) : Prop :=
  ∀ last ∈ normalized.getLast?, last.interval.stop ≤ segment.interval.start

/-! ## One pass of the loop -/

/-- A segment that starts no earlier than the last one is added exactly if the last one ends before
it. -/
theorem pushNormalized_iff {normalized : List CapacitySegment} {segment : CapacitySegment}
    (hstart : ∀ last ∈ normalized.getLast?, last.interval.start ≤ segment.interval.start) :
    (∃ result, pushNormalized normalized segment = .ok result) ↔
      EndsBefore normalized segment := by
  unfold pushNormalized
  cases hlast : normalized.getLast? with
  | none =>
    refine iff_of_true ⟨_, rfl⟩ ?_
    intro last hmem
    rw [hlast] at hmem
    cases hmem
  | some previous =>
    have hle := hstart previous hlast
    have hends : EndsBefore normalized segment ↔
        previous.interval.stop ≤ segment.interval.start := by
      rw [EndsBefore, hlast]
      simp
    have hoverlaps : previous.interval.overlaps segment.interval = true ↔
        ¬previous.interval.stop ≤ segment.interval.start := by
      rw [Interval.overlaps_iff, not_le]
      exact and_iff_right (hle.trans_lt segment.interval.start_lt_stop)
    rw [hends]
    dsimp only
    by_cases hbefore : previous.interval.stop ≤ segment.interval.start
    · refine iff_of_true ?_ hbefore
      rw [if_neg (mt hoverlaps.mp (not_not_intro hbefore))]
      split
      · have hlt : previous.interval.start < segment.interval.stop :=
          hle.trans_lt segment.interval.start_lt_stop
        have hmerged : Interval.new previous.interval.start segment.interval.stop =
            .ok ⟨_, _, hlt⟩ := Interval.new_eq_ok.mpr ⟨rfl, rfl⟩
        rw [hmerged]
        exact ⟨_, rfl⟩
      · exact ⟨_, rfl⟩
    · rw [if_pos (hoverlaps.mpr hbefore)]
      refine iff_of_false ?_ hbefore
      rintro ⟨result, h⟩
      cases h

/-- A segment that is added is the last one to end, and the capacities are those of the segments
before and of the segment. -/
theorem pushNormalized_spec {normalized result : List CapacitySegment} {segment : CapacitySegment}
    (h : pushNormalized normalized segment = .ok result) :
    (∃ last, result.getLast? = some last ∧ last.interval.stop = segment.interval.stop) ∧
      ∀ t capacity, Covers result t capacity ↔ Covers (normalized ++ [segment]) t capacity := by
  unfold pushNormalized at h
  split at h
  · obtain rfl := Except.ok.inj h
    exact ⟨⟨segment, List.getLast?_concat, rfl⟩, fun t capacity => Iff.rfl⟩
  · rename_i previous hlast
    split at h
    · cases h
    · split at h
      · rename_i hadjacent
        obtain ⟨merged, hmerged, h⟩ := Except.bind_eq_ok.mp h
        obtain ⟨hstart, hstop⟩ := Interval.new_eq_ok.mp hmerged
        obtain rfl := Except.ok.inj h
        refine ⟨⟨_, List.getLast?_concat, hstop.symm⟩, ?_⟩
        intro t capacity
        have hsplit : normalized = normalized.dropLast ++ [previous] :=
          (List.dropLast_append_getLast? previous hlast).symm
        have hcontains : merged.contains t = true ↔
            previous.interval.contains t = true ∨ segment.interval.contains t = true := by
          have hprevious := previous.interval.start_lt_stop
          have hsegment := segment.interval.start_lt_stop
          rw [Interval.contains_iff, Interval.contains_iff, Interval.contains_iff, ← hstart,
            ← hstop, ← hadjacent.1]
          rw [← hadjacent.1] at hsegment
          constructor
          · rintro ⟨hle, hlt⟩
            rcases lt_or_ge t previous.interval.stop with hin | hout
            · exact .inl ⟨hle, hin⟩
            · exact .inr ⟨hout, hlt⟩
          · rintro (⟨hle, hlt⟩ | ⟨hle, hlt⟩)
            · exact ⟨hle, hlt.trans hsegment⟩
            · exact ⟨hprevious.le.trans hle, hlt⟩
        conv_rhs => rw [hsplit]
        rw [List.append_assoc, covers_append, covers_append, List.singleton_append, covers_cons,
          covers_cons, covers_cons, hadjacent.2, hcontains]
        tauto
      · obtain rfl := Except.ok.inj h
        exact ⟨⟨segment, List.getLast?_concat, rfl⟩, fun t capacity => Iff.rfl⟩

/-! ## The whole loop -/

/-- The loop over segments in chronological order succeeds exactly if each of them ends before the
next one starts, and the segments before end before all of them. -/
theorem normalizeSortedFrom_iff {previousStart : Option Timestamp}
    {normalized rest : List CapacitySegment} (h : Normalizing previousStart normalized)
    (hcapacity : ∀ s ∈ rest, s.capacity ≤ maxQuantity)
    (hsorted : rest.Pairwise fun a b => a.interval.start ≤ b.interval.start)
    (hstart : ∀ start ∈ previousStart, ∀ s ∈ rest, start ≤ s.interval.start) :
    (∃ result, normalizeSortedFrom previousStart normalized rest = .ok result) ↔
      (rest.Pairwise fun a b => a.interval.stop ≤ b.interval.start) ∧
        ∀ s ∈ rest, EndsBefore normalized s := by
  induction rest generalizing previousStart normalized with
  | nil => exact iff_of_true ⟨normalized, rfl⟩ ⟨.nil, fun s hs => by cases hs⟩
  | cons segment rest ih =>
    obtain ⟨hfirst, hrest⟩ := List.pairwise_cons.mp hsorted
    have hordered : ¬previousStart.any (fun start => decide (segment.interval.start < start)) := by
      intro hany
      obtain ⟨start, hmem, hlt⟩ := Option.any_eq_true _ _ |>.mp hany
      exact (hstart start hmem segment List.mem_cons_self).not_gt (of_decide_eq_true hlt)
    have hlast : ∀ last ∈ normalized.getLast?,
        last.interval.start ≤ segment.interval.start := by
      intro last hmem
      obtain ⟨start, hprevious, hle⟩ := h.last_start last hmem
      exact hle.trans (hstart start hprevious segment List.mem_cons_self)
    have hpush := pushNormalized_iff hlast
    rw [normalizeSortedFrom, if_neg hordered]
    constructor
    · rintro ⟨result, hresult⟩
      obtain ⟨next, hnext, hresult⟩ := Except.bind_eq_ok.mp hresult
      have hnormalizing := h.push (hcapacity segment List.mem_cons_self)
        (fun start hmem => hstart start hmem segment List.mem_cons_self) hnext
      obtain ⟨hpairwise, hends⟩ := (ih hnormalizing
        (fun s hs => hcapacity s (List.mem_cons_of_mem _ hs)) hrest (fun start hmem s hs => by
          obtain rfl := Option.some.inj hmem
          exact hfirst s hs)).mp ⟨result, hresult⟩
      obtain ⟨⟨last, hnextLast, hstop⟩, -⟩ := pushNormalized_spec hnext
      have hbefore := hpush.mp ⟨next, hnext⟩
      refine ⟨List.pairwise_cons.mpr ⟨fun s hs => hstop ▸ hends s hs last hnextLast, hpairwise⟩, ?_⟩
      intro s hs
      rcases List.mem_cons.mp hs with rfl | hs
      · exact hbefore
      · exact fun previous hprevious => (hbefore previous hprevious).trans (hfirst s hs)
    · rintro ⟨hpairwise, hends⟩
      obtain ⟨hafter, hpairwise⟩ := List.pairwise_cons.mp hpairwise
      obtain ⟨next, hnext⟩ := hpush.mpr (hends segment List.mem_cons_self)
      have hnormalizing := h.push (hcapacity segment List.mem_cons_self)
        (fun start hmem => hstart start hmem segment List.mem_cons_self) hnext
      obtain ⟨⟨last, hnextLast, hstop⟩, -⟩ := pushNormalized_spec hnext
      rw [hnext]
      apply (ih hnormalizing (fun s hs => hcapacity s (List.mem_cons_of_mem _ hs)) hrest ?_).mpr
      · refine ⟨hpairwise, ?_⟩
        intro s hs last' hlast'
        rw [hnextLast] at hlast'
        rw [← Option.some.inj hlast', hstop]
        exact hafter s hs
      · intro start hmem s hs
        obtain rfl := Option.some.inj hmem
        exact hfirst s hs

/-- The loop changes neither what is covered nor with which capacity. -/
theorem normalizeSortedFrom_covers {previousStart : Option Timestamp}
    {normalized rest result : List CapacitySegment}
    (h : normalizeSortedFrom previousStart normalized rest = .ok result) (t : Timestamp)
    (capacity : Quantity) :
    Covers result t capacity ↔ Covers (normalized ++ rest) t capacity := by
  induction rest generalizing previousStart normalized with
  | nil =>
    obtain rfl := Except.ok.inj h
    rw [List.append_nil]
  | cons segment rest ih =>
    rw [normalizeSortedFrom] at h
    split at h
    · cases h
    · obtain ⟨next, hnext, h⟩ := Except.bind_eq_ok.mp h
      obtain ⟨-, hcovers⟩ := pushNormalized_spec hnext
      rw [ih h, covers_append, hcovers, covers_append, covers_append, covers_cons, covers_cons]
      have hnil : ¬Covers [] t capacity := by
        rintro ⟨s, hs, -⟩
        cases hs
      tauto

/-! ## Curves -/

/-- The capacities are accepted exactly if none of them exceeds the supported bound. -/
theorem validateCapacities_iff {segments : List CapacitySegment} :
    validateCapacities segments = .ok () ↔ ∀ s ∈ segments, s.capacity ≤ maxQuantity := by
  unfold validateCapacities
  split
  · rename_i hany
    obtain ⟨s, hs, hgt⟩ := List.any_eq_true.mp hany
    refine iff_of_false (fun h => by cases h) ?_
    intro hall
    exact (hall s hs).not_gt (of_decide_eq_true hgt)
  · rename_i hany
    refine iff_of_true rfl ?_
    intro s hs
    by_contra hgt
    exact hany (List.any_eq_true.mpr ⟨s, hs, decide_eq_true (not_le.mp hgt)⟩)

/-- A curve is created exactly of accepted capacities and of segments that can be normalized. -/
theorem fromSorted_ok_iff {segments : List CapacitySegment} {curve : CapacityCurve} :
    fromSorted segments = .ok curve ↔
      validateCapacities segments = .ok () ∧ normalizeSorted segments = .ok curve.segments := by
  unfold fromSorted
  split
  · rename_i e he
    rw [he]
    exact iff_of_false (fun h => by cases h) (fun h => by cases h.1)
  · rename_i hvalid
    split
    · rename_i e he
      rw [he]
      exact iff_of_false (fun h => by cases h) (fun h => by cases h.2)
    · rename_i normalized hnormalized
      constructor
      · intro h
        rw [← Except.ok.inj h]
        exact ⟨hvalid, hnormalized⟩
      · rintro ⟨-, h⟩
        obtain ⟨segments', hle, hseparated⟩ := curve
        obtain rfl := Except.ok.inj (hnormalized.symm.trans h)
        rfl

/-- The order in which the segments are supplied does not matter. -/
theorem fromUnsorted_perm {segments segments' : List CapacitySegment}
    (h : segments.Perm segments') : fromUnsorted segments = fromUnsorted segments' := by
  have hvalid : validateCapacities segments = validateCapacities segments' := by
    unfold validateCapacities
    rw [h.any_eq]
  rw [fromUnsorted, fromUnsorted, hvalid,
    (CanonicalForm.insertionSort_eq_iff CapacitySegment.sortKey_injective).mpr h]

/-- The sorted segments come in chronological order. -/
theorem sorted_starts (segments : List CapacitySegment) :
    (segments.insertionSort fun a b => a.sortKey ≤ b.sortKey).Pairwise
      fun a b => a.interval.start ≤ b.interval.start := by
  have : Std.Total fun a b : CapacitySegment => a.sortKey ≤ b.sortKey :=
    ⟨fun a b => le_total a.sortKey b.sortKey⟩
  have : IsTrans CapacitySegment fun a b => a.sortKey ≤ b.sortKey := ⟨fun _ _ _ => le_trans⟩
  apply (List.pairwise_insertionSort (fun a b : CapacitySegment => a.sortKey ≤ b.sortKey) _).imp
  intro a b hab
  rcases Prod.Lex.le_iff.mp hab with hlt | ⟨heq, -⟩
  · exact hlt.le
  · exact heq.le

/-- In chronological order segments are disjoint exactly if each of them ends before the later ones
start. -/
theorem disjoint_iff {l : List CapacitySegment}
    (hsorted : l.Pairwise fun a b => a.interval.start ≤ b.interval.start) :
    (l.Pairwise fun a b => a.interval.overlaps b.interval = false) ↔
      l.Pairwise fun a b => a.interval.stop ≤ b.interval.start := by
  have hiff : ∀ a b : CapacitySegment, a.interval.start ≤ b.interval.start →
      (a.interval.overlaps b.interval = false ↔ a.interval.stop ≤ b.interval.start) := by
    intro a b hle
    rw [← Bool.not_eq_true, Interval.overlaps_iff, not_and, not_lt]
    exact ⟨fun h => h (hle.trans_lt b.interval.start_lt_stop), fun h _ => h⟩
  constructor
  · exact fun h => (hsorted.and h).imp fun hab => (hiff _ _ hab.1).mp hab.2
  · exact fun h => (hsorted.and h).imp fun hab => (hiff _ _ hab.1).mpr hab.2

/-- Disjointness does not depend on the order of the segments. -/
theorem disjoint_perm {l l' : List CapacitySegment} (h : l.Perm l') :
    (l.Pairwise fun a b => a.interval.overlaps b.interval = false) ↔
      l'.Pairwise fun a b => a.interval.overlaps b.interval = false := by
  apply h.pairwise_iff
  intro a b hab
  rw [Interval.overlaps, Bool.and_comm]
  exact hab

/-- A curve is created exactly from accepted capacities on disjoint intervals. -/
theorem fromUnsorted_ok_iff (segments : List CapacitySegment) :
    (∃ curve, fromUnsorted segments = .ok curve) ↔
      (∀ s ∈ segments, s.capacity ≤ maxQuantity) ∧
        segments.Pairwise fun a b => a.interval.overlaps b.interval = false := by
  have hperm := List.perm_insertionSort (fun a b : CapacitySegment => a.sortKey ≤ b.sortKey) segments
  have hsorted := sorted_starts segments
  rw [← disjoint_perm hperm, disjoint_iff hsorted]
  generalize hl : (segments.insertionSort fun a b => a.sortKey ≤ b.sortKey) = l at hperm hsorted
  have hcapacities : (∀ s ∈ segments, s.capacity ≤ maxQuantity) ↔
      ∀ s ∈ l, s.capacity ≤ maxQuantity :=
    ⟨fun h s hs => h s (hperm.subset hs), fun h s hs => h s (hperm.symm.subset hs)⟩
  have hinit : Normalizing none ([] : List CapacitySegment) := ⟨by simp, .nil, by simp⟩
  have hloop (hle : ∀ s ∈ l, s.capacity ≤ maxQuantity) := normalizeSortedFrom_iff hinit hle hsorted
    (fun start hmem => by cases hmem)
  have hnone : ∀ s ∈ l, EndsBefore [] s := fun s _ last hlast => by cases hlast
  constructor
  · rintro ⟨curve, h⟩
    rw [fromUnsorted, hl] at h
    obtain ⟨⟨⟩, hvalid, h⟩ := Except.bind_eq_ok.mp h
    have hle := validateCapacities_iff.mp hvalid
    refine ⟨hle, ?_⟩
    exact ((hloop (hcapacities.mp hle)).mp ⟨_, (fromSorted_ok_iff.mp h).2⟩).1
  · rintro ⟨hle, hdisjoint⟩
    have hle' := hcapacities.mp hle
    obtain ⟨result, hresult⟩ := (hloop hle').mpr ⟨hdisjoint, hnone⟩
    have hvalid := validateCapacities_iff.mpr hle'
    obtain ⟨hle'', hseparated⟩ := normalizeSorted_ok hvalid hresult
    refine ⟨⟨result, hle'', hseparated⟩, ?_⟩
    rw [fromUnsorted, validateCapacities_iff.mpr hle, hl, Except.ok_bind]
    exact fromSorted_ok_iff.mpr ⟨hvalid, hresult⟩

/-- A created curve covers what its segments cover, with the same capacities. -/
theorem fromUnsorted_covers {segments : List CapacitySegment} {curve : CapacityCurve}
    (h : fromUnsorted segments = .ok curve) (t : Timestamp) (capacity : Quantity) :
    Covers curve.segments t capacity ↔ Covers segments t capacity := by
  obtain ⟨⟨⟩, -, h⟩ := Except.bind_eq_ok.mp h
  have hcovers := normalizeSortedFrom_covers (fromSorted_ok_iff.mp h).2 t capacity
  have hperm := List.perm_insertionSort (fun a b : CapacitySegment => a.sortKey ≤ b.sortKey) segments
  rw [hcovers, List.nil_append]
  constructor
  · rintro ⟨s, hs, hcontains⟩
    exact ⟨s, hperm.subset hs, hcontains⟩
  · rintro ⟨s, hs, hcontains⟩
    exact ⟨s, hperm.symm.subset hs, hcontains⟩

/-- Segments of a curve that touch have different capacities. -/
theorem touching_differ (curve : CapacityCurve) {a b : CapacitySegment} (ha : a ∈ curve.segments)
    (hb : b ∈ curve.segments) (htouch : a.interval.stop = b.interval.start) :
    a.capacity ≠ b.capacity := by
  obtain ⟨front, back, hsplit⟩ := List.append_of_mem ha
  obtain ⟨-, hafter, hbefore⟩ := List.pairwise_append.mp (hsplit ▸ curve.segments_pairwise)
  have hchain := (List.isChain_append.mp (hsplit ▸ curve.separated)).2.1
  have haa := a.interval.start_lt_stop
  rw [hsplit] at hb
  rcases List.mem_append.mp hb with hb | hb
  · -- a segment before `a` ends before `a` starts
    have hle := hbefore b hb a List.mem_cons_self
    have hlt := b.interval.start_lt_stop
    exact absurd (hlt.trans_le (hle.trans (haa.le.trans htouch.le))) (lt_irrefl _)
  · rcases List.mem_cons.mp hb with rfl | hb
    · exact absurd (haa.trans_eq htouch) (lt_irrefl _)
    · cases back with
      | nil => cases hb
      | cons c back =>
        have hseparated := (List.isChain_cons.mp hchain).1 c rfl
        rcases List.mem_cons.mp hb with rfl | hb
        · exact fun heq => hseparated.2 ⟨htouch, heq⟩
        · -- between two segments that touch there is no third one
          have hle := (List.pairwise_cons.mp (List.pairwise_cons.mp hafter).2).1 b hb
          have hlt := c.interval.start_lt_stop
          exact absurd (hlt.trans_le (hle.trans (htouch.ge.trans hseparated.1))) (lt_irrefl _)

/-- Curves from unsorted segments: when they exist, that the order of the segments does not matter,
what capacity they have, and that they are in normal form, which normalizing again leaves as it
is. -/
theorem fromUnsorted_exact (segments : List CapacitySegment) :
    ((∃ curve, fromUnsorted segments = .ok curve) ↔
      (∀ s ∈ segments, s.capacity ≤ maxQuantity) ∧
        segments.Pairwise fun a b => a.interval.overlaps b.interval = false) ∧
    (∀ segments', segments.Perm segments' → fromUnsorted segments = fromUnsorted segments') ∧
    ∀ curve, fromUnsorted segments = .ok curve →
      (∀ t, (∀ s ∈ segments, s.interval.contains t = true → curve.capacityAt t = s.capacity) ∧
        ((∀ s ∈ segments, ¬s.interval.contains t = true) → (curve.capacityAt t).val = 0)) ∧
      (curve.segments.Pairwise fun a b => a.interval.stop ≤ b.interval.start) ∧
      (∀ a ∈ curve.segments, ∀ b ∈ curve.segments, a.interval.stop = b.interval.start →
        a.capacity ≠ b.capacity) ∧
      fromSorted curve.segments = .ok curve := by
  refine ⟨fromUnsorted_ok_iff segments, fun segments' => fromUnsorted_perm, ?_⟩
  intro curve h
  refine ⟨?_, curve.segments_pairwise, fun a ha b hb => curve.touching_differ ha hb,
    fromSorted_segments curve⟩
  intro t
  constructor
  · intro s hs hcontains
    obtain ⟨s', hs', hcontains', hcapacity⟩ :=
      (fromUnsorted_covers h t s.capacity).mpr ⟨s, hs, hcontains, rfl⟩
    rw [capacityAt_of_contains hs' hcontains', hcapacity]
  · intro hnone
    apply capacityAt_of_not_contains
    intro s hs hcontains
    obtain ⟨s', hs', hcontains', -⟩ :=
      (fromUnsorted_covers h t s.capacity).mp ⟨s, hs, hcontains, rfl⟩
    exact hnone s' hs' hcontains'

end CapacityCurve

end PromiseDb
