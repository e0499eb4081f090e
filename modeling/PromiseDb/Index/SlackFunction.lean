import PromiseDb.Index.SlackBlock

/-!
# Timelines as step functions

A timeline stands for the step function of all its change points.  A timeline is well formed
when its blocks are exact and not empty and its timestamps increase across blocks.  On a well
formed timeline the lookup and the bounds over an interval are those of the step function, and
the effective points are its canonical change points.
-/

namespace PromiseDb

open StepFunction

/-- The change points of a list of blocks. -/
def blockChanges (blocks : List SlackBlock) : List (Timestamp × ℤ) :=
  blocks.flatMap SlackBlock.changes

/-- Without blocks there are no changes. -/
@[simp] theorem blockChanges_nil : blockChanges [] = [] := rfl

/-- The changes of the first block come first. -/
@[simp] theorem blockChanges_cons (b : SlackBlock) (blocks : List SlackBlock) :
    blockChanges (b :: blocks) = b.changes ++ blockChanges blocks := by
  simp [blockChanges]

/-- The changes of both parts follow one another. -/
@[simp] theorem blockChanges_append (l r : List SlackBlock) :
    blockChanges (l ++ r) = blockChanges l ++ blockChanges r := by
  simp [blockChanges]

/-- A change is one of a block. -/
theorem mem_blockChanges {blocks : List SlackBlock} {e : Timestamp × ℤ} :
    e ∈ blockChanges blocks ↔ ∃ b ∈ blocks, e ∈ b.changes := by
  simp [blockChanges]

/-- Blocks that can be read: none is empty, all are exact, and timestamps increase. -/
structure WellFormedBlocks (blocks : List SlackBlock) : Prop where
  /-- No block is empty. -/
  nonempty : ∀ b ∈ blocks, b.points ≠ []
  /-- Every block is exact. -/
  exact : ∀ b ∈ blocks, b.Exact
  /-- Timestamps increase across blocks. -/
  increasing : Increasing (blockChanges blocks)

namespace SlackTimeline

/-- The change points of a timeline. -/
def changes (tl : SlackTimeline) : List (Timestamp × ℤ) := blockChanges tl.blocks

/-- The slack that a timeline stands for. -/
def slackValue (tl : SlackTimeline) (t : Timestamp) : ℤ := valueAt 0 tl.changes t

/-- A timeline that can be read. -/
abbrev WellFormed (tl : SlackTimeline) : Prop := WellFormedBlocks tl.blocks

/-- The empty timeline can be read. -/
theorem wellFormed_empty : WellFormed empty := ⟨by simp [empty], by simp [empty], by simp [empty]⟩

/-- The slack of the empty timeline is zero. -/
@[simp] theorem slackValue_empty (t : Timestamp) : slackValue empty t = 0 := rfl

/-- Slack values are representable. -/
theorem WellFormed.isSlack {tl : SlackTimeline} (h : tl.WellFormed) (t : Timestamp) :
    IsSlack (tl.slackValue t) := by
  refine valueAt_induction (by constructor <;> norm_num) (fun e he => ?_) t
  obtain ⟨b, hb, he⟩ := mem_blockChanges.mp he
  exact (h.exact b hb).representable e he

end SlackTimeline

/-! ## Blocks up to a timestamp -/

/-- The blocks that do not start by `t` only have change points after `t`. -/
theorem WellFormedBlocks.lt_of_dropWhile {blocks : List SlackBlock} (h : WellFormedBlocks blocks)
    (t : Timestamp) :
    ∀ e ∈ blockChanges (blocks.dropWhile (SlackBlock.startsBy t)), t < e.1 := by
  have hinc : Increasing (blockChanges (blocks.dropWhile (SlackBlock.startsBy t))) := by
    have := h.increasing
    rw [← List.takeWhile_append_dropWhile (p := SlackBlock.startsBy t) (l := blocks),
      blockChanges_append] at this
    exact (List.pairwise_append.mp this).2.1
  cases hr : blocks.dropWhile (SlackBlock.startsBy t) with
  | nil => simp
  | cons b r =>
    have hb : b ∈ blocks := (List.dropWhile_sublist _).subset (hr ▸ List.mem_cons_self)
    have hnot : SlackBlock.startsBy t b = false := by
      have := List.head?_dropWhile_not (SlackBlock.startsBy t) blocks
      rw [hr] at this
      simpa using this
    obtain ⟨p, ps, hp⟩ := List.exists_cons_of_ne_nil (h.nonempty b hb)
    have ht : t < p.timestamp := by simpa [SlackBlock.startsBy, hp] using hnot
    rw [hr, blockChanges_cons, SlackBlock.changes, hp, List.map_cons, List.cons_append] at hinc
    intro e he
    rw [blockChanges_cons, SlackBlock.changes, hp, List.map_cons, List.cons_append] at he
    rcases List.mem_cons.mp he with rfl | he
    · exact ht
    · exact ht.trans ((List.pairwise_cons.mp hinc).1 e he)

/-- A block that starts by `t` has a first point at or before `t`. -/
theorem SlackBlock.startsBy_iff {t : Timestamp} {b : SlackBlock} :
    SlackBlock.startsBy t b = true ↔ ∃ p ps, b.points = p :: ps ∧ p.timestamp ≤ t := by
  cases hp : b.points with
  | nil => simp [startsBy, hp]
  | cons p ps => simp [startsBy, hp]

/-- Cutting the blocks at `t`: either everything comes later, or there is a last block that
starts by `t`. -/
theorem WellFormedBlocks.split {blocks : List SlackBlock} (h : WellFormedBlocks blocks)
    (t : Timestamp) :
    (blocks.takeWhile (SlackBlock.startsBy t) = [] ∧ ∀ e ∈ blockChanges blocks, t < e.1) ∨
    ∃ l b r, blocks = l ++ b :: r ∧ blocks.takeWhile (SlackBlock.startsBy t) = l ++ [b] ∧
      SlackBlock.startsBy t b = true ∧ ∀ e ∈ blockChanges r, t < e.1 := by
  have hsplit := List.takeWhile_append_dropWhile (p := SlackBlock.startsBy t) (l := blocks)
  rcases List.eq_nil_or_concat (blocks.takeWhile (SlackBlock.startsBy t)) with hnil | ⟨l, b, hl⟩
  · refine .inl ⟨hnil, ?_⟩
    have := h.lt_of_dropWhile t
    rw [hnil, List.nil_append] at hsplit
    rwa [hsplit] at this
  · rw [List.concat_eq_append] at hl
    refine .inr ⟨l, b, blocks.dropWhile (SlackBlock.startsBy t), ?_, hl, ?_, h.lt_of_dropWhile t⟩
    · conv_lhs => rw [← hsplit, hl]
      simp
    · have hb : b ∈ blocks.takeWhile (SlackBlock.startsBy t) := by simp [hl]
      exact List.all_eq_true.mp List.all_takeWhile b hb

/-- The first point of a block comes first. -/
theorem SlackBlock.le_of_head {b : SlackBlock} (hinc : Increasing b.changes) {p : SlackPoint}
    (hp : b.points.head? = some p) : ∀ c ∈ b.changes, p.timestamp ≤ c.1 := by
  obtain ⟨ps, hps⟩ := List.head?_eq_some_iff.mp hp
  rw [changes, hps, List.map_cons] at hinc ⊢
  intro c hc
  rcases List.mem_cons.mp hc with rfl | hc
  · exact le_rfl
  · exact ((List.pairwise_cons.mp hinc).1 c hc).le

/-- The last point of a block comes last. -/
theorem SlackBlock.le_getLast {b : SlackBlock} (hinc : Increasing b.changes) {p : SlackPoint}
    (hp : b.points.getLast? = some p) : ∀ c ∈ b.changes, c.1 ≤ p.timestamp := by
  obtain ⟨ps, hps⟩ := List.getLast?_eq_some_iff.mp hp
  rw [changes, hps, List.map_append] at hinc ⊢
  intro c hc
  rcases List.mem_append.mp hc with hc' | hc'
  · have hlast := (List.pairwise_append.mp hinc).2.2 c hc'
    exact (hlast (p.timestamp, p.slack.val + b.slackDelta.val) (by simp)).le
  · obtain rfl : c = _ := by simpa using hc'
    exact le_rfl

/-! ## Lookup -/

namespace SlackTimeline

/-- The lookup reads the step function. -/
theorem slackAt_spec {tl : SlackTimeline} (h : tl.WellFormed) (t : Timestamp) :
    ∃ s, tl.slackAt t = .ok s ∧ s.val = tl.slackValue t := by
  rcases h.split t with ⟨hnil, hlt⟩ | ⟨l, b, r, hblocks, htake, hstart, hlt⟩
  · refine ⟨⟨0, by decide⟩, by simp [slackAt, hnil], ?_⟩
    rw [slackValue, changes, valueAt_of_lt hlt]
  · obtain ⟨p, ps, hp, hpt⟩ := SlackBlock.startsBy_iff.mp hstart
    have hexact : b.Exact := h.exact b (by simp [hblocks])
    have hinc : Increasing b.changes := by
      have := h.increasing
      rw [hblocks, blockChanges_append, blockChanges_cons] at this
      exact (List.pairwise_append.mp (List.pairwise_append.mp this).2.1).1
    obtain ⟨point, hpoint⟩ : ∃ point,
        (b.points.takeWhile fun q => decide (q.timestamp ≤ t)).getLast? = some point := by
      rw [hp, List.takeWhile_cons_of_pos (by simpa using hpt)]
      exact ⟨_, List.getLast?_eq_some_getLast (by simp)⟩
    have hmem : point ∈ b.points :=
      (List.takeWhile_sublist _).subset (List.mem_of_getLast? hpoint)
    have hrep : IsSlack (point.slack.val + b.slackDelta.val) :=
      hexact.representable _ (List.mem_map_of_mem hmem)
    refine ⟨⟨_, hrep⟩, ?_, ?_⟩
    · rw [slackAt, htake, List.getLast?_concat]
      simp only [hpoint]
      exact addSlack_of_isSlack hrep
    · rw [slackValue, changes, hblocks, blockChanges_append, blockChanges_cons, ← List.append_assoc,
        valueAt_append_of_lt hlt, valueAt_append, valueAt_eq_getLast hinc, SlackBlock.changes,
        List.takeWhile_map, List.getLast?_map]
      simp only [Function.comp_def, hpoint]
      rfl

/-! ## Bounds over an interval -/

end SlackTimeline

/-- The extreme value that a bound stands for. -/
def SlackBound.Is : SlackBound → Set ℤ → ℤ → Prop
  | .minimum => IsLeast
  | .maximum => IsGreatest

/-- A bound is one of the values. -/
theorem SlackBound.Is.mem {bound : SlackBound} {s : Set ℤ} {x : ℤ} (h : bound.Is s x) : x ∈ s := by
  cases bound
  · exact h.1
  · exact h.1

/-- A single value is its own bound. -/
theorem SlackBound.is_singleton (bound : SlackBound) (x : ℤ) : bound.Is {x} x := by
  cases bound
  · exact isLeast_singleton
  · exact isGreatest_singleton

/-- Combining the bounds of two sets bounds their union. -/
theorem SlackBound.Is.union {bound : SlackBound} {s s' : Set ℤ} {x y : Slack}
    (h : bound.Is s x.val) (h' : bound.Is s' y.val) :
    bound.Is (s ∪ s') (bound.combine x y).val := by
  cases bound
  · simpa [SlackBound.Is, SlackBound.combine] using IsLeast.union h h'
  · simpa [SlackBound.Is, SlackBound.combine] using IsGreatest.union h h'

/-- The stored aggregate of an exact block is its bound. -/
theorem SlackBlock.Exact.ofBlock {b : SlackBlock} (h : b.Exact) (hne : b.points ≠ [])
    (bound : SlackBound) :
    ∃ m, bound.ofBlock b = some m ∧ bound.Is {x | ∃ e ∈ b.changes, e.2 = x} m.val := by
  cases bound
  · exact h.minimum hne
  · exact h.maximum hne

/-- The values over `[start, stop)` that are known after reading some change points: the value at
the start and those of the change points inside. -/
def valuesWithin (i : Interval) (v : ℤ) (l : List (Timestamp × ℤ)) : Set ℤ :=
  {x | x = v ∨ ∃ c ∈ l, i.start < c.1 ∧ c.1 < i.stop ∧ c.2 = x}

/-- Without changes there is only the value before the interval. -/
@[simp] theorem valuesWithin_nil (i : Interval) (v : ℤ) : valuesWithin i v [] = {v} := by
  ext x
  simp [valuesWithin]

/-- Reading one more change point. -/
theorem valuesWithin_append (i : Interval) (v : ℤ) (l r : List (Timestamp × ℤ)) :
    valuesWithin i v (l ++ r) =
      valuesWithin i v l ∪ {x | ∃ c ∈ r, i.start < c.1 ∧ c.1 < i.stop ∧ c.2 = x} := by
  ext x
  simp only [valuesWithin, List.mem_append, Set.mem_ofPred_eq, Set.mem_union]
  constructor
  · rintro (h | ⟨c, hc | hc, h⟩)
    · exact .inl (.inl h)
    · exact .inl (.inr ⟨c, hc, h⟩)
    · exact .inr ⟨c, hc, h⟩
  · rintro ((h | ⟨c, hc, h⟩) | ⟨c, hc, h⟩)
    · exact .inl h
    · exact .inr ⟨c, .inl hc, h⟩
    · exact .inr ⟨c, .inr hc, h⟩

/-- Change points outside the interval add nothing. -/
theorem valuesWithin_append_outside {i : Interval} {v : ℤ} {l r : List (Timestamp × ℤ)}
    (h : ∀ c ∈ r, c.1 ≤ i.start ∨ i.stop ≤ c.1) : valuesWithin i v (l ++ r) = valuesWithin i v l := by
  rw [valuesWithin_append, Set.union_eq_left]
  rintro x ⟨c, hc, hs, he, -⟩
  rcases h c hc with h | h
  · exact absurd hs h.not_gt
  · exact absurd he h.not_gt

namespace SlackTimeline

/-- Scanning the points of a block updates the bound point by point. -/
theorem scanBound_spec {i : Interval} {bound : SlackBound} {v : ℤ} {acc : Slack}
    {seen : List (Timestamp × ℤ)} {b : SlackBlock} (hrep : b.Representable)
    (hacc : bound.Is (valuesWithin i v seen) acc.val) :
    ∃ acc', b.points.foldlM (fun acc p =>
        if p.timestamp ≤ i.start ∨ p.timestamp ≥ i.stop then .ok acc
        else return bound.combine acc (← addSlack p.slack b.slackDelta)) acc = .ok acc' ∧
      bound.Is (valuesWithin i v (seen ++ b.changes)) acc'.val := by
  let invariant (done : List SlackPoint) (acc : Slack) : Prop := bound.Is (valuesWithin i v
    (seen ++ done.map fun p => (p.timestamp, p.slack.val + b.slackDelta.val))) acc.val
  refine List.foldlM_invariant (I := invariant) (by simpa [invariant] using hacc) ?_
  rintro done p acc ⟨rest, hrest⟩ hacc
  simp only [invariant, List.map_append, List.map_singleton, ← List.append_assoc] at hacc ⊢
  split
  · rename_i hout
    refine ⟨acc, rfl, ?_⟩
    rwa [valuesWithin_append_outside]
    intro c hc
    obtain rfl := List.mem_singleton.mp hc
    exact hout
  · rename_i hin
    obtain ⟨hs, he⟩ := not_or.mp hin
    have hp : p ∈ b.points := by rw [← hrest]; simp
    have hslack : IsSlack (p.slack.val + b.slackDelta.val) := hrep _ (List.mem_map_of_mem hp)
    refine ⟨_, by rw [addSlack_of_isSlack hslack]; rfl, ?_⟩
    rw [valuesWithin_append]
    have hset : {x | ∃ c ∈ [(p.timestamp, p.slack.val + b.slackDelta.val)],
        i.start < c.1 ∧ c.1 < i.stop ∧ c.2 = x} = {p.slack.val + b.slackDelta.val} := by
      ext x
      simp [not_le.mp hs, not_le.mp he, eq_comm]
    rw [hset]
    exact hacc.union (bound.is_singleton _)

/-- One block updates the bound by its change points inside the interval. -/
theorem blockBound_spec {i : Interval} {bound : SlackBound} {v : ℤ} {acc : Slack}
    {seen : List (Timestamp × ℤ)} {b : SlackBlock} (hexact : b.Exact) (hne : b.points ≠ [])
    (hinc : Increasing b.changes) (hstart : ∀ c ∈ b.changes, c.1 = i.start → c.2 = v)
    (hacc : bound.Is (valuesWithin i v seen) acc.val) :
    ∃ acc', blockBound i bound acc b = .ok acc' ∧
      bound.Is (valuesWithin i v (seen ++ b.changes)) acc'.val := by
  obtain ⟨first, hfirst⟩ : ∃ p, b.points.head? = some p := ⟨_, List.head?_eq_some_head hne⟩
  obtain ⟨last, hlast⟩ : ∃ p, b.points.getLast? = some p := ⟨_, List.getLast?_eq_some_getLast hne⟩
  have hge : ∀ c ∈ b.changes, first.timestamp ≤ c.1 := b.le_of_head hinc hfirst
  have hle : ∀ c ∈ b.changes, c.1 ≤ last.timestamp := b.le_getLast hinc hlast
  simp only [blockBound, hfirst, hlast]
  split
  · rename_i hout
    refine ⟨acc, rfl, ?_⟩
    rwa [valuesWithin_append_outside fun c hc => hout.imp (hle c hc).trans fun h => h.trans (hge c hc)]
  · split
    · rename_i hin
      obtain ⟨m, hm, hbound⟩ := hexact.ofBlock hne bound
      rw [hm]
      refine ⟨_, rfl, ?_⟩
      -- a first change point at the start of the interval repeats the value there
      have hset : valuesWithin i v (seen ++ b.changes) =
          valuesWithin i v seen ∪ {x | ∃ e ∈ b.changes, e.2 = x} := by
        rw [valuesWithin_append]
        ext x
        simp only [Set.mem_union, Set.mem_ofPred_eq]
        constructor
        · rintro (h | ⟨c, hc, -, -, h⟩)
          · exact .inl h
          · exact .inr ⟨c, hc, h⟩
        · rintro (h | ⟨c, hc, rfl⟩)
          · exact .inl h
          · rcases (hin.1.trans (hge c hc)).eq_or_lt with hs | hs
            · exact .inl (.inl (hstart c hc hs.symm))
            · exact .inr ⟨c, hc, hs, (hle c hc).trans_lt hin.2, rfl⟩
      rw [hset]
      exact hacc.union hbound
    · exact scanBound_spec hexact.representable hacc

/-- The bound over an interval is the extreme value of the step function there. -/
theorem slackBound_spec {tl : SlackTimeline} (h : tl.WellFormed) (i : Interval)
    (bound : SlackBound) :
    ∃ m, tl.slackBound i bound = .ok m ∧
      bound.Is {x | ∃ t, i.start ≤ t ∧ t < i.stop ∧ tl.slackValue t = x} m.val := by
  obtain ⟨v, hv, hval⟩ := slackAt_spec h i.start
  have hset := values_on_range (d := (0 : ℤ)) h.increasing i.start_lt_stop
  obtain ⟨m, hm, hbound⟩ := List.foldlM_invariant (f := blockBound i bound) (l := tl.blocks) (s := v)
    (I := fun done acc => bound.Is (valuesWithin i (tl.slackValue i.start) (blockChanges done)) acc.val)
    (by simpa [hval] using bound.is_singleton _) (by
      rintro done b acc ⟨rest, hrest⟩ hacc
      have hb : b ∈ tl.blocks := by rw [← hrest]; simp
      have hinc : Increasing b.changes := by
        have := h.increasing
        rw [← hrest, blockChanges_append, blockChanges_cons] at this
        exact (List.pairwise_append.mp (List.pairwise_append.mp this).2.1).1
      rw [blockChanges_append, blockChanges_cons, blockChanges_nil, List.append_nil]
      refine blockBound_spec (h.exact b hb) (h.nonempty b hb) hinc ?_ hacc
      intro c hc hci
      rw [← hci]
      exact (valueAt_self h.increasing (mem_blockChanges.mpr ⟨b, hb, hc⟩)).symm)
  refine ⟨m, by rw [slackBound, hv, Except.ok_bind, hm], ?_⟩
  exact hset ▸ hbound

/-- The minimum over an interval is the least value there. -/
theorem minimumSlack_spec {tl : SlackTimeline} (h : tl.WellFormed) (i : Interval) :
    ∃ m, tl.minimumSlack i = .ok m ∧
      IsLeast {x | ∃ t, i.start ≤ t ∧ t < i.stop ∧ tl.slackValue t = x} m.val :=
  slackBound_spec h i .minimum

/-- The maximum over an interval is the greatest value there. -/
theorem maximumSlack_spec {tl : SlackTimeline} (h : tl.WellFormed) (i : Interval) :
    ∃ m, tl.maximumSlack i = .ok m ∧
      IsGreatest {x | ∃ t, i.start ≤ t ∧ t < i.stop ∧ tl.slackValue t = x} m.val :=
  slackBound_spec h i .maximum

/-! ## Effective points -/

/-- Concatenated effective points of exact blocks. -/
theorem effectivePoints_blocks {blocks : List SlackBlock} (h : ∀ b ∈ blocks, b.Exact) :
    ∃ points, blocks.mapM SlackBlock.effectivePoints = .ok points ∧
      changesOf points.flatten = blockChanges blocks := by
  induction blocks with
  | nil => exact ⟨[], rfl, rfl⟩
  | cons b blocks ih =>
    obtain ⟨ps, hps, hc⟩ := SlackBlock.effectivePoints_spec (h b (by simp)).representable
    obtain ⟨points, hpoints, hcs⟩ := ih fun b hb => h b (List.mem_cons_of_mem _ hb)
    refine ⟨ps :: points, by rw [List.mapM_cons, hps, hpoints]; rfl, ?_⟩
    rw [List.flatten_cons, changesOf_append, hc, hcs, blockChanges_cons]

/-- Dropping repeats and then a leading zero leaves the canonical change points. -/
theorem changesOf_dropLeadingZero (points : List SlackPoint) :
    changesOf (dropLeadingZero (dropRepeats none points)) = dedup 0 (changesOf points) := by
  cases points with
  | nil => rfl
  | cons p rest =>
    rw [SlackBlock.dropRepeats_none_cons, dropLeadingZero, changesOf_cons, dedup]
    have hiff : p.change.2 = 0 ↔ p.slack.val = 0 := Iff.rfl
    by_cases hp : p.slack.val = 0
    · rw [if_pos hp, if_pos (hiff.mpr hp), SlackBlock.changesOf_dropRepeats_some, hp]
    · rw [if_neg hp, if_neg (mt hiff.mp hp), changesOf_cons, SlackBlock.changesOf_dropRepeats_some]
      rfl

/-- The effective points are the canonical change points of the step function. -/
theorem effectivePoints_spec {tl : SlackTimeline} (h : tl.WellFormed) :
    ∃ points, tl.effectivePoints = .ok points ∧ changesOf points = dedup 0 tl.changes := by
  obtain ⟨points, hpoints, hc⟩ := effectivePoints_blocks h.exact
  refine ⟨_, by rw [effectivePoints, hpoints]; rfl, ?_⟩
  rw [changesOf_dropLeadingZero, hc, changes]

/-- The changes tell the points. -/
theorem changesOf_injective : Function.Injective changesOf :=
  List.map_injective_iff.mpr fun a b h => by
    obtain ⟨ht, hs⟩ := Prod.mk.inj h
    obtain ⟨ta, sa⟩ := a
    obtain ⟨tb, sb⟩ := b
    rw [SlackPoint.mk.injEq]
    exact ⟨ht, Subtype.ext hs⟩

/-- Timelines that stand for the same slack have the same effective points. -/
theorem effectivePoints_congr {tl tl' : SlackTimeline} (h : tl.WellFormed) (h' : tl'.WellFormed)
    (heq : ∀ t, tl.slackValue t = tl'.slackValue t) :
    tl.effectivePoints = tl'.effectivePoints := by
  obtain ⟨points, hpoints, hc⟩ := effectivePoints_spec h
  obtain ⟨points', hpoints', hc'⟩ := effectivePoints_spec h'
  rw [hpoints, hpoints']
  congr 1
  refine changesOf_injective ?_
  rw [hc, hc']
  exact dedup_eq_dedup h.increasing h'.increasing heq

end SlackTimeline

end PromiseDb
