import PromiseDb.Domain.Basic
import PromiseDb.Library.StateRun

/-!
# Capacity over time

A capacity segment is a constant capacity during one interval.  A curve is a list of segments in
chronological order, without overlaps, in which two adjacent segments of equal capacity have been
merged; timestamps outside every segment have capacity zero.  The segments of a curve carry the
proof of their normal form.
-/

namespace PromiseDb

/-- A constant amount of capacity, possibly zero, during one interval. -/
structure CapacitySegment where
  /-- The interval during which the capacity applies. -/
  interval : Interval
  /-- The capacity in the pool's subunits. -/
  capacity : Quantity
  deriving DecidableEq

/-- `a` may stand directly before `b` in a normalized curve: they do not overlap, and they are
not adjacent with equal capacity. -/
def CapacitySegment.Separated (a b : CapacitySegment) : Prop :=
  a.interval.stop ≤ b.interval.start ∧
    ¬(a.interval.stop = b.interval.start ∧ a.capacity = b.capacity)

instance (a b : CapacitySegment) : Decidable (a.Separated b) := by
  unfold CapacitySegment.Separated; infer_instance

/-- An ordered, normalized description of capacity over time. -/
structure CapacityCurve where
  /-- The segments in chronological order. -/
  segments : List CapacitySegment
  /-- Every capacity has a lossless signed representation. -/
  capacity_le : ∀ s ∈ segments, s.capacity ≤ maxQuantity
  /-- Neighbours are separated. -/
  separated : segments.IsChain CapacitySegment.Separated
  deriving DecidableEq

namespace CapacityCurve

/-- The curve with zero capacity at every timestamp. -/
def empty : CapacityCurve := ⟨[], by simp, .nil⟩

/-- Rejects capacities above the supported bound. -/
def validateCapacities (segments : List CapacitySegment) : Except DomainError Unit :=
  if segments.any (fun s => decide (s.capacity > maxQuantity)) then .error .quantityOutOfRange
  else .ok ()

/-- Adds one segment to the normalized list, merging it with an adjacent last segment of equal
capacity. -/
def pushNormalized (normalized : List CapacitySegment) (segment : CapacitySegment) :
    Except DomainError (List CapacitySegment) :=
  match normalized.getLast? with
  | none => .ok (normalized ++ [segment])
  | some previous =>
    if previous.interval.overlaps segment.interval then .error .overlappingCapacitySegments
    else if previous.interval.stop = segment.interval.start ∧
        previous.capacity = segment.capacity then do
      let merged ← Interval.new previous.interval.start segment.interval.stop
      .ok (normalized.dropLast ++ [⟨merged, segment.capacity⟩])
    else .ok (normalized ++ [segment])

/-- The loop of the normalization pass, with the start of the segment before and the segments
normalized so far. -/
def normalizeSortedFrom (previousStart : Option Timestamp) (normalized : List CapacitySegment) :
    List CapacitySegment → Except DomainError (List CapacitySegment)
  | [] => .ok normalized
  | segment :: rest =>
    if previousStart.any (fun start => decide (segment.interval.start < start)) then
      .error .unsortedCapacitySegments
    else do
      let normalized ← pushNormalized normalized segment
      normalizeSortedFrom (some segment.interval.start) normalized rest

/-- Validates the order of segments and merges adjacent segments of equal capacity. -/
def normalizeSorted (segments : List CapacitySegment) : Except DomainError (List CapacitySegment) :=
  normalizeSortedFrom none [] segments

/-! ## The normal form -/

/-- The invariant of the normalization loop: the segments so far are normalized, and the last
one starts no later than the segment before. -/
structure Normalizing (previousStart : Option Timestamp) (normalized : List CapacitySegment) :
    Prop where
  capacity_le : ∀ s ∈ normalized, s.capacity ≤ maxQuantity
  separated : normalized.IsChain CapacitySegment.Separated
  last_start : ∀ s ∈ normalized.getLast?, ∃ start ∈ previousStart, s.interval.start ≤ start

/-- One pass of the loop body keeps the invariant. -/
theorem Normalizing.push {previousStart : Option Timestamp} {normalized result : List CapacitySegment}
    {segment : CapacitySegment} (h : Normalizing previousStart normalized)
    (hcap : segment.capacity ≤ maxQuantity)
    (hsorted : ∀ start ∈ previousStart, start ≤ segment.interval.start)
    (hpush : pushNormalized normalized segment = .ok result) :
    Normalizing (some segment.interval.start) result := by
  unfold pushNormalized at hpush
  split at hpush
  · rename_i hlast
    obtain rfl : normalized = [] := List.getLast?_eq_none_iff.mp hlast
    obtain rfl : [segment] = result := by simpa using hpush
    exact ⟨by simpa using hcap, .singleton _, by simp⟩
  · rename_i previous hlast
    obtain ⟨front, rfl⟩ : ∃ front, normalized = front ++ [previous] :=
      ⟨_, (List.dropLast_append_getLast? previous hlast).symm⟩
    obtain ⟨start, hstart, hprev⟩ := h.last_start previous hlast
    have hps : previous.interval.start ≤ segment.interval.start := hprev.trans (hsorted start hstart)
    split at hpush
    · cases hpush
    · rename_i hover
      have hle : previous.interval.stop ≤ segment.interval.start := by
        by_contra hlt
        exact hover (Interval.overlaps_iff.mpr
          ⟨hps.trans_lt segment.interval.start_lt_stop, not_le.mp hlt⟩)
      split at hpush
      · rename_i hadj
        cases hm : Interval.new previous.interval.start segment.interval.stop with
        | error e => rw [hm] at hpush; cases hpush
        | ok merged =>
          rw [hm] at hpush
          obtain ⟨hms, -⟩ := Interval.new_eq_ok.mp hm
          obtain rfl : front ++ [⟨merged, segment.capacity⟩] = result := by
            simpa [bind, Except.bind] using hpush
          refine ⟨fun s hs => ?_, ?_, ?_⟩
          · rcases List.mem_append.mp hs with hs | hs
            · exact h.capacity_le s (by simp [hs])
            · obtain rfl := List.mem_singleton.mp hs
              exact hcap
          · -- the merged segment starts where the previous one did
            have hsep := h.separated
            rw [List.isChain_append] at hsep ⊢
            refine ⟨hsep.1, .singleton _, fun a ha b hb => ?_⟩
            obtain ⟨hab, hne⟩ := hsep.2.2 a ha previous (by simp)
            obtain rfl : _ = b := by simpa using hb
            simp only [CapacitySegment.Separated, ← hms, ← hadj.2]
            exact ⟨hab, hne⟩
          · rintro s hs
            obtain rfl : _ = s := by simpa using hs
            exact ⟨_, rfl, hms ▸ hps⟩
      · rename_i hadj
        obtain rfl : front ++ [previous] ++ [segment] = result := by simpa using hpush
        refine ⟨fun s hs => ?_, ?_, by simp⟩
        · rcases List.mem_append.mp hs with hs | hs
          · exact h.capacity_le s hs
          · obtain rfl := List.mem_singleton.mp hs
            exact hcap
        · rw [List.isChain_append]
          refine ⟨h.separated, .singleton _, fun a ha b hb => ?_⟩
          obtain rfl : previous = a := by simpa using ha
          obtain rfl : segment = b := by simpa using hb
          exact ⟨hle, hadj⟩

/-- The loop keeps the invariant. -/
theorem Normalizing.loop {previousStart : Option Timestamp}
    {normalized rest result : List CapacitySegment} (h : Normalizing previousStart normalized)
    (hcap : ∀ s ∈ rest, s.capacity ≤ maxQuantity)
    (hloop : normalizeSortedFrom previousStart normalized rest = .ok result) :
    ∃ start, Normalizing start result := by
  induction rest generalizing previousStart normalized with
  | nil =>
    obtain rfl : normalized = result := by simpa [normalizeSortedFrom] using hloop
    exact ⟨_, h⟩
  | cons segment rest ih =>
    rw [normalizeSortedFrom] at hloop
    split at hloop
    · cases hloop
    · rename_i hsorted
      cases hpush : pushNormalized normalized segment with
      | error e => rw [hpush] at hloop; cases hloop
      | ok next =>
        rw [hpush] at hloop
        have hs : ∀ start ∈ previousStart, start ≤ segment.interval.start := by
          rintro start hstart
          by_contra hlt
          refine hsorted ?_
          rw [Option.mem_def.mp hstart]
          simpa using not_le.mp hlt
        exact ih (h.push (hcap segment (by simp)) hs hpush)
          (fun s hs => hcap s (List.mem_cons_of_mem _ hs)) hloop

/-- Validated and normalized segments form a curve. -/
theorem normalizeSorted_ok {segments result : List CapacitySegment}
    (hcap : validateCapacities segments = .ok ()) (h : normalizeSorted segments = .ok result) :
    (∀ s ∈ result, s.capacity ≤ maxQuantity) ∧ result.IsChain CapacitySegment.Separated := by
  have hle : ∀ s ∈ segments, s.capacity ≤ maxQuantity := by
    unfold validateCapacities at hcap
    split at hcap
    · cases hcap
    · rename_i hany
      intro s hs
      by_contra hlt
      exact hany (List.any_eq_true.mpr ⟨s, hs, by simpa using not_le.mp hlt⟩)
  have hinit : Normalizing none ([] : List CapacitySegment) := ⟨by simp, .nil, by simp⟩
  obtain ⟨_, hn⟩ := hinit.loop hle h
  exact ⟨hn.capacity_le, hn.separated⟩

/-- Creates a curve from segments already ordered by interval start. -/
def fromSorted (segments : List CapacitySegment) : Except DomainError CapacityCurve :=
  match hv : validateCapacities segments with
  | .error e => .error e
  | .ok () =>
    match hn : normalizeSorted segments with
    | .error e => .error e
    | .ok normalized =>
      .ok ⟨normalized, (normalizeSorted_ok hv hn).1, (normalizeSorted_ok hv hn).2⟩

/-- A separated segment is added as it is. -/
theorem pushNormalized_of_separated {normalized : List CapacitySegment}
    {segment : CapacitySegment} (h : ∀ s ∈ normalized.getLast?, s.Separated segment) :
    pushNormalized normalized segment = .ok (normalized ++ [segment]) := by
  unfold pushNormalized
  split
  · rfl
  · rename_i previous hlast
    obtain ⟨hle, hne⟩ := h previous hlast
    rw [if_neg, if_neg hne]
    intro hover
    exact (Interval.overlaps_iff.mp hover).2.not_ge hle

/-- Segments in normal form are left as they are. -/
theorem normalizeSortedFrom_of_separated {previousStart : Option Timestamp}
    {normalized rest : List CapacitySegment}
    (hchain : (normalized ++ rest).IsChain CapacitySegment.Separated)
    (hstart : ∀ start ∈ previousStart, ∀ s ∈ rest.head?, start ≤ s.interval.start) :
    normalizeSortedFrom previousStart normalized rest = .ok (normalized ++ rest) := by
  induction rest generalizing previousStart normalized with
  | nil => rw [normalizeSortedFrom, List.append_nil]
  | cons segment rest ih =>
    obtain ⟨-, hrest, hlast⟩ := List.isChain_append.mp hchain
    have hpush := pushNormalized_of_separated fun s hs => hlast s hs segment rfl
    have hsorted : ¬previousStart.any (fun start => decide (segment.interval.start < start)) := by
      intro hany
      obtain ⟨start, hmem, hlt⟩ := Option.any_eq_true _ _ |>.mp hany
      exact (hstart start hmem segment rfl).not_gt (of_decide_eq_true hlt)
    rw [normalizeSortedFrom, if_neg hsorted, hpush, Except.ok_bind, ih]
    · rw [List.append_assoc, List.singleton_append]
    · rwa [List.append_assoc, List.singleton_append]
    · intro start hmem s hs
      obtain rfl : segment.interval.start = start := Option.some.inj hmem
      have hsep := (List.isChain_cons.mp hrest).1 s hs
      exact segment.interval.start_lt_stop.le.trans hsep.1

/-- The segments of a curve are read back as the curve. -/
theorem fromSorted_segments (curve : CapacityCurve) : fromSorted curve.segments = .ok curve := by
  have hvalid : validateCapacities curve.segments = .ok () := by
    apply if_neg
    intro hany
    obtain ⟨s, hs, hgt⟩ := List.any_eq_true.mp hany
    exact (curve.capacity_le s hs).not_gt (of_decide_eq_true hgt)
  have hnormal : normalizeSorted curve.segments = .ok curve.segments :=
    normalizeSortedFrom_of_separated curve.separated fun start hmem => by cases hmem
  unfold fromSorted
  split
  · rename_i e he
    rw [hvalid] at he
    cases he
  · split
    · rename_i e he
      rw [hnormal] at he
      cases he
    · rename_i normalized hn
      rw [hnormal] at hn
      cases hn
      rfl

/-- Adding one segment either lists it or merges it with the last one. -/
theorem pushNormalized_length {normalized result : List CapacitySegment} {segment : CapacitySegment}
    (h : pushNormalized normalized segment = .ok result) :
    result = normalized ++ [segment] ∨ result.length = normalized.length := by
  unfold pushNormalized at h
  split at h
  · exact .inl (Except.ok.inj h).symm
  · rename_i previous hlast
    split at h
    · cases h
    · split at h
      · obtain ⟨merged, -, h⟩ := Except.bind_eq_ok.mp h
        have hpos : normalized ≠ [] := by
          rintro rfl
          cases hlast
        obtain rfl := Except.ok.inj h
        refine .inr ?_
        rw [List.length_append, List.length_dropLast, List.length_singleton]
        have := List.length_pos_of_ne_nil hpos
        omega
      · exact .inl (Except.ok.inj h).symm

/-- The normalization never makes a list longer, and a list that keeps its length is left as it
is. -/
theorem normalizeSortedFrom_length {previousStart : Option Timestamp}
    {normalized rest result : List CapacitySegment}
    (h : normalizeSortedFrom previousStart normalized rest = .ok result) :
    result.length ≤ normalized.length + rest.length ∧
      (result.length = normalized.length + rest.length → result = normalized ++ rest) := by
  induction rest generalizing previousStart normalized with
  | nil =>
    obtain rfl := Except.ok.inj h
    exact ⟨le_rfl, fun _ => (List.append_nil normalized).symm⟩
  | cons segment rest ih =>
    rw [normalizeSortedFrom] at h
    split at h
    · cases h
    · obtain ⟨next, hpush, h⟩ := Except.bind_eq_ok.mp h
      obtain ⟨hle, heq⟩ := ih h
      rw [List.length_cons]
      rcases pushNormalized_length hpush with rfl | hlength
      · rw [List.length_append, List.length_singleton] at hle heq
        rw [List.append_assoc, List.singleton_append] at heq
        exact ⟨by omega, fun hlength => heq (by omega)⟩
      · exact ⟨by omega, fun hall => by omega⟩

/-- The curve of a list of segments is never longer than the list; it consists of the segments of
the list exactly if neighbours are separated, and if it has as many. -/
theorem fromSorted_length {segments : List CapacitySegment} {curve : CapacityCurve}
    (h : fromSorted segments = .ok curve) :
    curve.segments.length ≤ segments.length ∧
      (curve.segments.length = segments.length → curve.segments = segments) ∧
      (curve.segments = segments ↔ segments.IsChain CapacitySegment.Separated) := by
  have hnormal : normalizeSorted segments = .ok curve.segments := by
    unfold fromSorted at h
    split at h
    · cases h
    · split at h
      · cases h
      · rename_i normalized hn
        obtain rfl := Except.ok.inj h
        exact hn
  obtain ⟨hle, heq⟩ := normalizeSortedFrom_length hnormal
  rw [List.length_nil, Nat.zero_add] at hle heq
  refine ⟨hle, heq, ?_, ?_⟩
  · intro hsame
    rw [← hsame]
    exact curve.separated
  · intro hchain
    have hkept : normalizeSorted segments = .ok segments :=
      normalizeSortedFrom_of_separated hchain fun start hmem => by cases hmem
    exact Except.ok.inj (hnormal.symm.trans hkept)

/-- The capacity available at `timestamp`. -/
def capacityAt (curve : CapacityCurve) (timestamp : Timestamp) : Quantity :=
  match (curve.segments.takeWhile fun s => decide (s.interval.start ≤ timestamp)).getLast? with
  | none => ⟨0, U64.zero_range⟩
  | some segment =>
    if segment.interval.contains timestamp then segment.capacity else ⟨0, U64.zero_range⟩

/-! ## Reading the curve -/

/-- The segments of a curve are disjoint and in chronological order. -/
theorem segments_pairwise (curve : CapacityCurve) :
    curve.segments.Pairwise fun a b => a.interval.stop ≤ b.interval.start := by
  have htrans : curve.segments.IsChain fun a b : CapacitySegment =>
      a.interval.stop ≤ b.interval.start := curve.separated.imp fun _ _ h => h.1
  have : IsTrans CapacitySegment fun a b => a.interval.stop ≤ b.interval.start :=
    ⟨fun _ b _ hab hbc => hab.trans (b.interval.start_lt_stop.le.trans hbc)⟩
  exact htrans.pairwise

/-- Two different segments of a curve do not overlap. -/
theorem segments_disjoint (curve : CapacityCurve) {a b : CapacitySegment}
    (ha : a ∈ curve.segments) (hb : b ∈ curve.segments) :
    a = b ∨ a.interval.stop ≤ b.interval.start ∨ b.interval.stop ≤ a.interval.start := by
  obtain ⟨l, r, hlr⟩ := List.append_of_mem ha
  obtain ⟨-, hr, hl⟩ := List.pairwise_append.mp (hlr ▸ curve.segments_pairwise)
  rw [hlr] at hb
  rcases List.mem_append.mp hb with hb | hb
  · exact .inr (.inr (hl b hb a (by simp)))
  · rcases List.mem_cons.mp hb with rfl | hb
    · exact .inl rfl
    · exact .inr (.inl ((List.pairwise_cons.mp hr).1 b hb))

/-- Inside a segment the capacity is that of the segment. -/
theorem capacityAt_of_contains {curve : CapacityCurve} {s : CapacitySegment} {t : Timestamp}
    (hs : s ∈ curve.segments) (ht : s.interval.contains t = true) :
    curve.capacityAt t = s.capacity := by
  obtain ⟨hst, hte⟩ := Interval.contains_iff.mp ht
  obtain ⟨l, r, hlr⟩ := List.append_of_mem hs
  have hpair := hlr ▸ curve.segments_pairwise
  obtain ⟨-, hr, hl⟩ := List.pairwise_append.mp hpair
  have hl' : ∀ a ∈ l, a.interval.start ≤ t := fun a ha =>
    a.interval.start_lt_stop.le.trans ((hl a ha s (by simp)).trans hst)
  have hr' : ∀ b ∈ r, ¬b.interval.start ≤ t := fun b hb =>
    (hte.trans_le ((List.pairwise_cons.mp hr).1 b hb)).not_ge
  have htake : curve.segments.takeWhile (fun s => decide (s.interval.start ≤ t)) = l ++ [s] := by
    rw [hlr, List.takeWhile_append_of_pos (by simpa using hl'),
      List.takeWhile_cons_of_pos (by simpa using hst)]
    cases r with
    | nil => rfl
    | cons b r => rw [List.takeWhile_cons_of_neg (by simpa using hr' b (by simp))]
  rw [capacityAt, htake, List.getLast?_concat]
  exact if_pos ht

/-- Outside every segment the capacity is zero. -/
theorem capacityAt_of_not_contains {curve : CapacityCurve} {t : Timestamp}
    (h : ∀ s ∈ curve.segments, ¬s.interval.contains t = true) : (curve.capacityAt t).val = 0 := by
  unfold capacityAt
  split
  · rfl
  · rename_i segment hlast
    have hmem := (List.takeWhile_sublist _).subset (List.mem_of_getLast? hlast)
    rw [if_neg (h segment hmem)]

/-- The capacity never exceeds the supported bound. -/
theorem capacityAt_le (curve : CapacityCurve) (t : Timestamp) :
    curve.capacityAt t ≤ maxQuantity := by
  unfold capacityAt
  split
  · decide
  · rename_i segment hlast
    split
    · have hmem := List.mem_of_getLast? hlast
      exact curve.capacity_le segment (List.takeWhile_sublist _ |>.subset hmem)
    · decide

end CapacityCurve

end PromiseDb
