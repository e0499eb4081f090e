import PromiseDb.Engine.Admission
import PromiseDb.Index.SlackRebuild

/-!
# Demand as a function of time

The demand of a list of claims at a timestamp is the sum of the quantities of the claims that
cover it.  Admission works on the list of its changes: the starts and ends of the claims,
together with the timestamps inside them at which the slack changes, merged where they fall on
the same timestamp.  Summing the changes up to a timestamp gives back the demand there.
-/

namespace PromiseDb

/-- The sum of the changes up to and including a timestamp. -/
def changesUpTo (events : List (Timestamp × I128)) (t : Timestamp) : ℤ :=
  (events.map fun e => if e.1 ≤ t then e.2.val else 0).sum

/-- Without events nothing changes. -/
@[simp] theorem changesUpTo_nil (t : Timestamp) : changesUpTo [] t = 0 := rfl

/-- The first event counts from its time on. -/
@[simp] theorem changesUpTo_cons (e : Timestamp × I128) (events : List (Timestamp × I128))
    (t : Timestamp) :
    changesUpTo (e :: events) t = (if e.1 ≤ t then e.2.val else 0) + changesUpTo events t := by
  simp [changesUpTo]

/-- The changes of two lists add up. -/
@[simp] theorem changesUpTo_append (l r : List (Timestamp × I128)) (t : Timestamp) :
    changesUpTo (l ++ r) t = changesUpTo l t + changesUpTo r t := by
  simp [changesUpTo]

/-- The order of changes does not matter. -/
theorem changesUpTo_perm {l r : List (Timestamp × I128)} (h : l.Perm r) (t : Timestamp) :
    changesUpTo l t = changesUpTo r t := (h.map _).sum_eq

/-- Changes after a timestamp do not count. -/
theorem changesUpTo_of_lt {events : List (Timestamp × I128)} {t : Timestamp}
    (h : ∀ e ∈ events, t < e.1) : changesUpTo events t = 0 := by
  induction events with
  | nil => rfl
  | cons e events ih =>
    rw [changesUpTo_cons, if_neg (h e (by simp)).not_ge, zero_add]
    exact ih fun e' he' => h e' (List.mem_cons_of_mem _ he')

/-! ## The changes of claims -/

/-- Summing the starts and ends of claims gives their usage. -/
theorem changesUpTo_claimEvents (claims : List Claim) (t : Timestamp) :
    changesUpTo (claimEvents claims) t = claimUsage claims t := by
  induction claims with
  | nil => rfl
  | cons c claims ih =>
    have hcons : claimEvents (c :: claims) = (c.interval.start, SlackTimeline.wideCapacity c.quantity)
        :: (c.interval.stop, ⟨-c.quantity.val, by have := c.quantity.property; omega⟩)
        :: claimEvents claims := rfl
    rw [hcons, changesUpTo_cons, changesUpTo_cons, ih, claimUsage_cons, Claim.usageAt_eq, ← add_assoc]
    congr 1
    rw [sub_eq_add_neg]
    congr 1
    split
    · rfl
    · rfl

/-- Changes of the slack do not change the demand. -/
theorem changesUpTo_slackEvents (claims : List Claim) (points : List SlackPoint) (t : Timestamp) :
    changesUpTo (slackEvents claims points) t = 0 := by
  unfold slackEvents
  induction points.filter fun p => claims.any fun c => c.interval.contains p.timestamp with
  | nil => rfl
  | cons p points ih =>
    rw [List.map_cons, changesUpTo_cons, ih, add_zero, ite_self]

/-- The timestamps of the changes of claims are their starts and ends. -/
theorem mem_claimEvents_key {claims : List Claim} {t : Timestamp} :
    (∃ e ∈ claimEvents claims, e.1 = t) ↔
      ∃ c ∈ claims, c.interval.start = t ∨ c.interval.stop = t := by
  simp only [claimEvents, List.mem_flatMap, List.mem_cons, List.not_mem_nil, or_false]
  constructor
  · rintro ⟨e, ⟨c, hc, rfl | rfl⟩, rfl⟩
    · exact ⟨c, hc, .inl rfl⟩
    · exact ⟨c, hc, .inr rfl⟩
  · rintro ⟨c, hc, rfl | rfl⟩
    · exact ⟨_, ⟨c, hc, .inl rfl⟩, rfl⟩
    · exact ⟨_, ⟨c, hc, .inr rfl⟩, rfl⟩

/-- The timestamps of the changes of the slack are those inside a claim. -/
theorem mem_slackEvents_key {claims : List Claim} {points : List SlackPoint} {t : Timestamp} :
    (∃ e ∈ slackEvents claims points, e.1 = t) ↔
      (∃ p ∈ points, p.timestamp = t) ∧ ∃ c ∈ claims, c.interval.contains t = true := by
  simp only [slackEvents, List.mem_map, List.mem_filter, List.any_eq_true]
  constructor
  · rintro ⟨e, ⟨p, ⟨hp, hc⟩, rfl⟩, rfl⟩
    exact ⟨⟨p, hp, rfl⟩, hc⟩
  · rintro ⟨⟨p, hp, rfl⟩, hc⟩
    exact ⟨_, ⟨p, ⟨hp, hc⟩, rfl⟩, rfl⟩

/-- A claim of the list covers a timestamp exactly when the demand there is positive. -/
theorem claimUsage_pos_iff {claims : List Claim} {t : Timestamp} :
    0 < claimUsage claims t ↔ ∃ c ∈ claims, c.interval.contains t = true := by
  induction claims with
  | nil => simp
  | cons c claims ih =>
    have h₁ := c.usageAt_nonneg t
    have h₂ := claimUsage_nonneg claims t
    rw [claimUsage_cons, List.exists_mem_cons_iff, ← ih]
    by_cases hc : c.interval.contains t = true
    · have : 0 < c.usageAt t := by
        rw [Claim.usageAt, if_pos hc]
        exact c.quantity_pos
      constructor
      · exact fun _ => .inl hc
      · intro _
        omega
    · have : c.usageAt t = 0 := by rw [Claim.usageAt, if_neg hc]
      rw [this, zero_add]
      constructor
      · exact .inr
      · exact fun h => h.resolve_left hc

/-! ## Merging changes at one timestamp -/

/-- The change being merged, as a list. -/
abbrev pending (last : Option (Timestamp × I128)) : List (Timestamp × I128) := last.toList

/-- What merging does to a list in chronological order: the timestamps increase strictly, none
is lost and none is new, and the sums of the changes stay the same. -/
structure Merged (events merged : List (Timestamp × I128)) : Prop where
  /-- The timestamps increase. -/
  increasing : StepFunction.Increasing merged
  /-- The timestamps are those of the list. -/
  keys : ∀ t, (∃ e ∈ merged, e.1 = t) ↔ ∃ e ∈ events, e.1 = t
  /-- The sums are those of the list. -/
  sums : ∀ t, changesUpTo merged t = changesUpTo events t

/-- Merging a sorted list gives its merged form. -/
theorem normalizeEvents_merged {last : Option (Timestamp × I128)}
    {events merged : List (Timestamp × I128)}
    (hsorted : (pending last ++ events).Pairwise fun a b => a.1 ≤ b.1)
    (h : normalizeEvents last events = .ok merged) : Merged (pending last ++ events) merged := by
  induction events generalizing last merged with
  | nil =>
    cases last with
    | none =>
      obtain rfl : [] = merged := by simpa [normalizeEvents] using h
      exact ⟨.nil, fun t => Iff.rfl, fun t => rfl⟩
    | some last =>
      obtain rfl : [last] = merged := by simpa [normalizeEvents] using h
      exact ⟨List.pairwise_singleton _ _, fun t => Iff.rfl, fun t => rfl⟩
  | cons event rest ih =>
    cases last with
    | none => exact ih hsorted h
    | some last =>
      rw [normalizeEvents] at h
      have hsorted' : (last :: event :: rest).Pairwise fun a b => a.1 ≤ b.1 := hsorted
      obtain ⟨hlast, hevents⟩ := List.pairwise_cons.mp hsorted'
      split at h
      · rename_i heq
        obtain ⟨delta, hdelta, h⟩ := Except.bind_eq_ok.mp h
        have hsum : last.2.val + event.2.val = delta.val :=
          BoundedInt.checkedAdd_eq_some.mp (Except.elim_eq_ok.mp hdelta)
        have hm := @ih (some (last.1, delta)) _ (by
          refine List.pairwise_cons.mpr ⟨fun e he => hlast e (List.mem_cons_of_mem _ he), ?_⟩
          exact (List.pairwise_cons.mp hevents).2) h
        refine ⟨hm.increasing, fun t => ?_, fun t => ?_⟩
        · rw [hm.keys t]
          simp only [pending, Option.toList_some, List.singleton_append, List.exists_mem_cons_iff]
          rw [heq]
          tauto
        · rw [hm.sums t]
          simp only [pending, Option.toList_some, List.singleton_append, changesUpTo_cons]
          rw [← heq]
          split <;> omega
      · rename_i hne
        obtain ⟨merged', hmerged', h⟩ := Except.bind_eq_ok.mp h
        obtain rfl : last :: merged' = merged := by simpa [pure, Except.pure] using h
        have hm := @ih (some event) _ hevents hmerged'
        have hlt : last.1 < event.1 := lt_of_le_of_ne (hlast event (by simp)) hne
        refine ⟨List.pairwise_cons.mpr ⟨fun e he => ?_, hm.increasing⟩, fun t => ?_, fun t => ?_⟩
        · obtain ⟨e', he', hee'⟩ := (hm.keys e.1).mp ⟨e, he, rfl⟩
          rw [← hee']
          rcases List.mem_cons.mp he' with rfl | he'
          · exact hlt
          · exact hlt.trans_le ((List.pairwise_cons.mp hevents).1 e' he')
        · rw [List.exists_mem_cons_iff, hm.keys t]
          simp only [pending, Option.toList_some, List.singleton_append, List.exists_mem_cons_iff]
        · rw [changesUpTo_cons, hm.sums t]
          simp only [pending, Option.toList_some, List.singleton_append, changesUpTo_cons]

/-- The sum of the magnitudes of the changes at a timestamp. -/
def changesAt (events : List (Timestamp × I128)) (t : Timestamp) : ℤ :=
  (events.map fun e => if e.1 = t then |e.2.val| else 0).sum

/-- The magnitudes at a timestamp add up to no less than zero. -/
theorem changesAt_nonneg (events : List (Timestamp × I128)) (t : Timestamp) :
    0 ≤ changesAt events t := by
  refine List.sum_nonneg fun x hx => ?_
  obtain ⟨e, -, rfl⟩ := List.mem_map.mp hx
  split
  · exact abs_nonneg _
  · exact le_rfl

/-- Merging succeeds when the changes at each timestamp are small. -/
theorem normalizeEvents_ok {last : Option (Timestamp × I128)} {events : List (Timestamp × I128)}
    (h : ∀ t, changesAt (pending last ++ events) t ≤ 2 ^ 126) :
    ∃ merged, normalizeEvents last events = .ok merged := by
  induction events generalizing last with
  | nil => cases last <;> exact ⟨_, rfl⟩
  | cons event rest ih =>
    cases last with
    | none => exact ih h
    | some last =>
      have hcons (a : Timestamp × I128) (l : List (Timestamp × I128)) (t : Timestamp) :
          changesAt (a :: l) t = (if a.1 = t then |a.2.val| else 0) + changesAt l t := by
        simp [changesAt]
      rw [normalizeEvents]
      split
      · rename_i heq
        have h₁ := h event.1
        simp only [pending, Option.toList_some, List.singleton_append, hcons, heq, if_true] at h₁
        have h₂ := changesAt_nonneg rest event.1
        have hle : |last.2.val + event.2.val| ≤ 2 ^ 126 := (abs_add_le _ _).trans (by omega)
        obtain ⟨hlo, hhi⟩ := abs_le.mp hle
        have hadd : last.2.checkedAdd event.2 =
            some ⟨last.2.val + event.2.val, by omega, by omega⟩ :=
          BoundedInt.checkedAdd_eq_some.mpr rfl
        rw [hadd, Option.elim_some, Except.ok_bind]
        refine ih fun t => ?_
        have ht := h t
        simp only [pending, Option.toList_some, List.singleton_append, hcons] at ht ⊢
        have habs := abs_add_le last.2.val event.2.val
        by_cases ht' : last.1 = t
        · rw [if_pos ht', if_pos (heq ▸ ht')] at ht
          rw [if_pos ht']
          omega
        · rw [if_neg ht', if_neg (heq ▸ ht')] at ht
          rw [if_neg ht']
          omega
      · obtain ⟨merged, hmerged⟩ := @ih (some event) fun t => by
          have ht := h t
          simp only [pending, Option.toList_some, List.singleton_append, hcons] at ht ⊢
          have : (0 : ℤ) ≤ if last.1 = t then |last.2.val| else 0 := by
            split
            · exact abs_nonneg _
            · exact le_rfl
          omega
        rw [hmerged]
        exact ⟨_, rfl⟩

/-- The changes of claims at one timestamp are bounded by the usage there and just before. -/
theorem changesAt_claimEvents {claims : List Claim} {bound : ℤ}
    (h : ∀ t, claimUsage claims t ≤ bound) (t : Timestamp) :
    changesAt (claimEvents claims) t ≤ 2 * bound := by
  have heq : changesAt (claimEvents claims) t =
      quantitySum (fun c => c.interval.start) claims t +
        quantitySum (fun c => c.interval.stop) claims t := by
    induction claims with
    | nil => rfl
    | cons c claims ih =>
      have hcons : changesAt (claimEvents (c :: claims)) t =
          (if c.interval.start = t then |c.quantity.val| else 0) +
            ((if c.interval.stop = t then |-c.quantity.val| else 0) +
              changesAt (claimEvents claims) t) := by
        simp [changesAt, claimEvents, SlackTimeline.wideCapacity]
      have hq := c.quantity_pos
      rw [hcons, ih fun t => ?_, quantitySum_cons, quantitySum_cons, abs_neg, abs_of_pos hq]
      · ring
      · have h₁ := h t
        have h₂ := c.usageAt_nonneg t
        rw [claimUsage_cons] at h₁
        omega
  obtain ⟨j, hj⟩ := endSum_le_usage claims t
  have h₁ := startSum_le_usage claims t
  have h₂ := h t
  have h₃ := h j
  omega

/-- Changes of the slack have no magnitude. -/
theorem changesAt_slackEvents (claims : List Claim) (points : List SlackPoint) (t : Timestamp) :
    changesAt (slackEvents claims points) t = 0 := by
  unfold slackEvents changesAt
  induction points.filter fun p => claims.any fun c => c.interval.contains p.timestamp with
  | nil => rfl
  | cons p points ih =>
    rw [List.map_cons, List.map_cons, List.sum_cons, ih, add_zero]
    dsimp only
    rw [abs_zero, ite_self]

end PromiseDb
