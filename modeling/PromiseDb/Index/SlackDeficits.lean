import PromiseDb.Index.SlackFunction

/-!
# Deficits of a timeline

The deficits of a timeline are read from consecutive effective points, so whatever follows the
last point is left out.  A timeline that ends without a deficit loses nothing by this: its
deficits are exactly the maximal intervals on which the slack is constant and negative.
-/

namespace PromiseDb

open StepFunction

namespace SlackTimeline

/-- The last timestamp. -/
def lastTimestamp : Timestamp := ⟨9223372036854775807, by decide⟩

/-- No timestamp is behind the last one. -/
theorem le_lastTimestamp (t : Timestamp) : t ≤ lastTimestamp := t.property.2

/-- No interval contains the last timestamp. -/
theorem not_contains_last (i : Interval) : ¬i.contains lastTimestamp = true := by
  rw [Interval.contains_iff]
  exact fun h => h.2.not_ge (le_lastTimestamp _)

/-- A list of deficits says exactly where a function is negative, and by how much. -/
structure DeficitsOf (f : Timestamp → ℤ) (deficits : List SlackDeficit) : Prop where
  /-- Deficits come in chronological order without overlap, and differ where they touch. -/
  separated : deficits.Pairwise fun a b => a.interval.stop ≤ b.interval.start ∧
    (a.interval.stop = b.interval.start → a.amount ≠ b.amount)
  /-- The negative timestamps are those in a deficit. -/
  covered : ∀ t, f t < 0 ↔ ∃ d ∈ deficits, d.interval.contains t = true
  /-- The amount of a deficit is missing throughout its interval. -/
  amount : ∀ d ∈ deficits, ∀ t, d.interval.contains t = true → d.amount.val = -f t

/-- The deficit between two consecutive points. -/
theorem deficitsBetween_cons {current next : SlackPoint} {rest : List SlackPoint}
    (hlt : current.timestamp < next.timestamp) (hneg : current.slack.val < 0)
    {deficits : List SlackDeficit} (hrest : deficitsBetween (next :: rest) = .ok deficits) :
    ∃ d : SlackDeficit, deficitsBetween (current :: next :: rest) = .ok (d :: deficits) ∧
      d.interval.start = current.timestamp ∧ d.interval.stop = next.timestamp ∧
      d.amount.val = -current.slack.val := by
  have hrange := current.slack.property
  have hinterval : Interval.new current.timestamp next.timestamp =
      .ok ⟨current.timestamp, next.timestamp, hlt⟩ := Interval.new_eq_ok.mpr ⟨rfl, rfl⟩
  have hamount : (BoundedInt.ofInt? (-current.slack.val) : Option Quantity) =
      some ⟨-current.slack.val, by omega⟩ := BoundedInt.ofInt?_of_mem _
  refine ⟨⟨⟨current.timestamp, next.timestamp, hlt⟩, ⟨-current.slack.val, by omega⟩⟩, ?_, rfl, rfl,
    rfl⟩
  rw [deficitsBetween, if_pos hneg, hinterval, hamount]
  dsimp only
  rw [hrest]
  rfl

/-- The value of points from the second one on. -/
theorem valueAt_of_next_le {current next : SlackPoint} {rest : List SlackPoint} {t : Timestamp}
    (h : next.timestamp ≤ t) : valueAt 0 (changesOf (current :: next :: rest)) t =
      valueAt 0 (changesOf (next :: rest)) t := by
  rw [changesOf_cons, changesOf_cons, valueAt_cons]
  exact (valueAt_cons_of_le h).trans (valueAt_cons_of_le h).symm

/-- The value of points before the second one. -/
theorem valueAt_of_lt_next {current next : SlackPoint} {rest : List SlackPoint} {t : Timestamp}
    (hinc : Increasing (changesOf (current :: next :: rest))) (h : t < next.timestamp) :
    valueAt 0 (changesOf (current :: next :: rest)) t =
      if current.timestamp ≤ t then current.slack.val else 0 := by
  have hlater : ∀ e ∈ changesOf (next :: rest), t < e.1 := by
    intro e he
    have hnext := (List.pairwise_cons.mp hinc).2
    rcases List.mem_cons.mp he with rfl | he
    · exact h
    · exact h.trans ((List.pairwise_cons.mp hnext).1 e he)
  rw [changesOf_cons, valueAt_cons]
  exact valueAt_of_lt hlater

/-- A deficit is put before those that begin where it ends or later. -/
theorem DeficitsOf.cons {f g : Timestamp → ℤ} {deficits : List SlackDeficit} {d : SlackDeficit}
    (h : DeficitsOf g deficits) (hstart : ∀ d' ∈ deficits, d.interval.stop ≤ d'.interval.start)
    (hdiffers : d.amount.val ≠ -g d.interval.stop)
    (hbefore : ∀ t, t < d.interval.start → 0 ≤ f t)
    (hinside : ∀ t, d.interval.contains t = true → f t = -d.amount.val ∧ f t < 0)
    (hafter : ∀ t, d.interval.stop ≤ t → f t = g t) : DeficitsOf f (d :: deficits) where
  separated := by
    refine List.pairwise_cons.mpr ⟨fun d' hd' => ⟨hstart d' hd', fun htouch hamount => ?_⟩,
      h.separated⟩
    have hcontains : d'.interval.contains d.interval.stop = true := by
      rw [Interval.contains_iff, htouch]
      exact ⟨le_rfl, d'.interval.start_lt_stop⟩
    exact hdiffers (hamount ▸ h.amount d' hd' _ hcontains)
  covered := by
    intro t
    rw [List.exists_mem_cons_iff]
    rcases lt_or_ge t d.interval.stop with ht | ht
    · have hnone : ¬∃ d' ∈ deficits, d'.interval.contains t = true := by
        rintro ⟨d', hd', hcontains⟩
        exact ((hstart d' hd').trans (Interval.contains_iff.mp hcontains).1).not_gt ht
      rcases lt_or_ge t d.interval.start with ht' | ht'
      · refine iff_of_false (not_lt.mpr (hbefore t ht')) ?_
        rintro (hcontains | hsome)
        · exact (Interval.contains_iff.mp hcontains).1.not_gt ht'
        · exact hnone hsome
      · have hcontains := Interval.contains_iff.mpr ⟨ht', ht⟩
        exact iff_of_true (hinside t hcontains).2 (.inl hcontains)
    · rw [hafter t ht, h.covered]
      exact ⟨.inr, fun h => h.resolve_left fun h => (Interval.contains_iff.mp h).2.not_ge ht⟩
  amount := by
    intro d' hd' t ht
    rcases List.mem_cons.mp hd' with rfl | hd'
    · rw [(hinside t ht).1, neg_neg]
    · rw [hafter t ((hstart d' hd').trans (Interval.contains_iff.mp ht).1)]
      exact h.amount d' hd' t ht

/-- Without a deficit before them the deficits stay the same. -/
theorem DeficitsOf.of_nonneg {f g : Timestamp → ℤ} {deficits : List SlackDeficit} {start : Timestamp}
    (h : DeficitsOf g deficits) (hstart : ∀ d ∈ deficits, start ≤ d.interval.start)
    (hbefore : ∀ t, t < start → 0 ≤ f t) (hafter : ∀ t, start ≤ t → f t = g t) :
    DeficitsOf f deficits where
  separated := h.separated
  covered := by
    intro t
    rcases lt_or_ge t start with ht | ht
    · refine iff_of_false (not_lt.mpr (hbefore t ht)) ?_
      rintro ⟨d, hd, hcontains⟩
      exact ((hstart d hd).trans (Interval.contains_iff.mp hcontains).1).not_gt ht
    · rw [hafter t ht, h.covered]
  amount := by
    intro d hd t ht
    rw [hafter t ((hstart d hd).trans (Interval.contains_iff.mp ht).1)]
    exact h.amount d hd t ht

/-- The deficits between canonical points that end without a deficit are those of their
function. -/
theorem deficitsBetween_spec {points : List SlackPoint} (hinc : Increasing (changesOf points))
    {v : ℤ} (hcanonical : Canonical v (changesOf points))
    (hlast : ∀ p ∈ points.getLast?, 0 ≤ p.slack.val) :
    ∃ deficits, deficitsBetween points = .ok deficits ∧
      DeficitsOf (valueAt 0 (changesOf points)) deficits ∧
      ∀ p ∈ points.head?, ∀ d ∈ deficits, p.timestamp ≤ d.interval.start := by
  induction points generalizing v with
  | nil =>
    refine ⟨[], rfl, ⟨.nil, fun t => ?_, fun d hd => (by cases hd)⟩, fun p hp => (by cases hp)⟩
    simp
  | cons current rest ih =>
    cases rest with
    | nil =>
      refine ⟨[], rfl, ⟨.nil, fun t => ?_, fun d hd => (by cases hd)⟩,
        fun p hp d hd => (by cases hd)⟩
      have hnonneg : 0 ≤ current.slack.val := hlast current rfl
      rw [changesOf_cons, changesOf_nil, valueAt_cons, valueAt_nil]
      refine iff_of_false (not_lt.mpr ?_) (by simp)
      split
      · exact hnonneg
      · exact le_rfl
    | cons next rest =>
      have hlt : current.timestamp < next.timestamp :=
        (List.pairwise_cons.mp hinc).1 next.change List.mem_cons_self
      have hne : next.slack.val ≠ current.slack.val := hcanonical.2.1
      obtain ⟨deficits, hok, hof, hstart⟩ := ih (List.pairwise_cons.mp hinc).2 hcanonical.2
        fun p hp => hlast p (by rwa [List.getLast?_cons_cons])
      have hstart := hstart next rfl
      have hafter (t : Timestamp) (ht : next.timestamp ≤ t) :
          valueAt 0 (changesOf (current :: next :: rest)) t =
            valueAt 0 (changesOf (next :: rest)) t := valueAt_of_next_le ht
      by_cases hneg : current.slack.val < 0
      · obtain ⟨d, hd, hdstart, hdstop, hdamount⟩ := deficitsBetween_cons hlt hneg hok
        -- the amount of a touching deficit is that of the next point
        have hself : valueAt 0 (changesOf (next :: rest)) next.timestamp = next.slack.val :=
          valueAt_self (List.pairwise_cons.mp hinc).2 (SlackPoint.change_mem List.mem_cons_self)
        refine ⟨d :: deficits, hd, hof.cons (hdstop ▸ hstart) ?_ (fun t ht => ?_) (fun t ht => ?_)
          (hdstop ▸ hafter), fun p hp d' hd' => ?_⟩
        · rw [hdstop, hself, hdamount]
          exact fun h => hne (neg_inj.mp h).symm
        · rw [hdstart] at ht
          rw [valueAt_of_lt_next hinc (ht.trans hlt), if_neg ht.not_ge]
        · rw [Interval.contains_iff, hdstart, hdstop] at ht
          rw [valueAt_of_lt_next hinc ht.2, if_pos ht.1, hdamount, neg_neg]
          exact ⟨rfl, hneg⟩
        · obtain rfl : current = p := Option.some.inj hp
          rcases List.mem_cons.mp hd' with rfl | hd'
          · exact hdstart.ge
          · exact hlt.le.trans (hstart d' hd')
      · refine ⟨deficits, by rw [deficitsBetween, if_neg hneg, hok],
          hof.of_nonneg hstart (fun t ht => ?_) hafter, fun p hp d hd => ?_⟩
        · rw [valueAt_of_lt_next hinc ht]
          split
          · exact not_lt.mp hneg
          · exact le_rfl
        · obtain rfl : current = p := Option.some.inj hp
          exact hlt.le.trans (hstart d hd)

/-- The value at the last timestamp is that of the last point. -/
theorem valueAt_lastTimestamp {points : List SlackPoint} (hinc : Increasing (changesOf points))
    {p : SlackPoint} (hp : points.getLast? = some p) :
    valueAt 0 (changesOf points) lastTimestamp = p.slack.val := by
  obtain ⟨front, rfl⟩ := List.getLast?_eq_some_iff.mp hp
  rw [changesOf_append, valueAt_append]
  exact valueAt_cons_of_le (le_lastTimestamp _)

/-- The deficits of a timeline that ends with zero slack are those of its function. -/
theorem deficitIntervals_spec {tl : SlackTimeline} (h : tl.WellFormed)
    (hlast : tl.slackValue lastTimestamp = 0) :
    ∃ deficits, tl.deficitIntervals = .ok deficits ∧ DeficitsOf tl.slackValue deficits := by
  obtain ⟨points, hpoints, hchanges⟩ := effectivePoints_spec h
  have hinc : Increasing tl.changes := h.increasing
  have hdedup := hinc.dedup (0 : ℤ)
  have hvalue : tl.slackValue = valueAt 0 (changesOf points) := by
    funext t
    rw [hchanges]
    exact (valueAt_dedup hinc 0 t).symm
  have hcanonical : Canonical 0 (changesOf points) := hchanges ▸ dedup_canonical 0 tl.changes
  rw [← hchanges] at hdedup
  obtain ⟨deficits, hok, hof, -⟩ := deficitsBetween_spec hdedup hcanonical fun p hp => by
    rw [← valueAt_lastTimestamp hdedup hp, ← hvalue, hlast]
  refine ⟨deficits, ?_, hvalue ▸ hof⟩
  rw [deficitIntervals, hpoints, Except.ok_bind, hok]

/-- A timeline without deficits that ends with zero slack is nowhere negative. -/
theorem nonneg_of_no_deficits {tl : SlackTimeline} (h : tl.WellFormed)
    (hdeficits : tl.deficitIntervals = .ok []) (hlast : tl.slackValue lastTimestamp = 0)
    (t : Timestamp) : 0 ≤ tl.slackValue t := by
  obtain ⟨deficits, hok, hof⟩ := deficitIntervals_spec h hlast
  obtain rfl := Except.ok.inj (hok.symm.trans hdeficits)
  by_contra hneg
  obtain ⟨d, hd, -⟩ := (hof.covered t).mp (not_le.mp hneg)
  cases hd

end SlackTimeline

end PromiseDb
