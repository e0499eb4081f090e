import PromiseDb.Index.SlackRuns

/-!
# The stored form of a timeline

A timeline stores its slack in normal form: full enough blocks of bounded size, and no point that
repeats the slack before it.  The rebuilding of a timeline gives this form, and an update restores
it, with one exception.  The normalization removes a leading point of slack zero once, before it
looks at the blocks.  When that point was alone in the first block and the next block begins with
slack zero too, the point of the next block is left behind.
-/

namespace PromiseDb

open StepFunction

/-- Neighbouring blocks do not fit into one. -/
def Balanced (blocks : List SlackBlock) : Prop :=
  blocks.IsChain fun a b => maxPointsPerBlock < a.points.length + b.points.length

/-- No point of a block repeats the slack of the point before it. -/
def BlockwiseDistinct (blocks : List SlackBlock) : Prop :=
  ∀ b ∈ blocks, b.changes.IsChain fun x y => x.2 ≠ y.2

namespace SlackTimeline

/-- The stored form of a timeline. -/
structure Represented (tl : SlackTimeline) : Prop where
  /-- No block is empty, the stored bounds of every block are exact, and timestamps increase. -/
  wellFormed : tl.WellFormed
  /-- No block holds more points than it may. -/
  sized : Sized tl.blocks
  /-- Neighbouring blocks do not fit into one. -/
  balanced : Balanced tl.blocks
  /-- The slack changes at every stored point. -/
  canonical : Canonical 0 tl.changes

/-- The effective points of a timeline in this form are the stored ones. -/
theorem Represented.effectivePoints {tl : SlackTimeline} (h : tl.Represented) :
    ∃ points, tl.effectivePoints = .ok points ∧ changesOf points = tl.changes := by
  obtain ⟨points, hpoints, hchanges⟩ := effectivePoints_spec h.wellFormed
  exact ⟨points, hpoints, by rw [hchanges, dedup_of_canonical h.canonical]⟩

/-! ## Rebuilding -/

/-- Only the last chunk is not full. -/
theorem chunks_sized {n fuel : Nat} {points : List SlackPoint} (h : points.length ≤ fuel) :
    (∀ c ∈ chunks n fuel points, c.length ≤ n + 1) ∧
      (chunks n fuel points).IsChain fun a b => n + 1 < a.length + b.length := by
  induction fuel generalizing points with
  | zero => exact ⟨by simp [chunks], by simp [chunks]⟩
  | succ fuel ih =>
    cases points with
    | nil => exact ⟨by simp [chunks], by simp [chunks]⟩
    | cons p rest =>
      have hdrop : ((p :: rest).drop (n + 1)).length ≤ fuel := by
        rw [List.length_drop]
        rw [List.length_cons] at h ⊢
        omega
      obtain ⟨hle, hchain⟩ := ih hdrop
      have hne := (chunks_spec (n := n) hdrop).2
      rw [chunks]
      refine ⟨fun c hc => ?_, List.isChain_cons.mpr ⟨fun c hc => ?_, hchain⟩⟩
      · rcases List.mem_cons.mp hc with rfl | hc
        · rw [List.length_take]
          omega
        · exact hle c hc
      · -- a chunk that is followed by another one is full
        have hcmem : c ∈ chunks n fuel ((p :: rest).drop (n + 1)) := List.mem_of_mem_head? hc
        have hcpos : 0 < c.length := List.length_pos_iff.mpr (hne c hcmem)
        have hfull : n + 1 ≤ (p :: rest).length := by
          by_contra hshort
          rw [List.drop_eq_nil_of_le (by omega)] at hcmem
          cases fuel <;> simp [chunks] at hcmem
        rw [List.length_take]
        omega

/-- Points without repeats keep all of them in a block. -/
theorem fromSortedPoints_of_isChain {points : List SlackPoint} (h : Increasing (changesOf points))
    (hc : (changesOf points).IsChain fun x y => x.2 ≠ y.2) :
    SlackBlock.fromSortedPoints points = .ok (.ofPoints points) := by
  have hsame : dropRepeats none points = points := by
    apply changesOf_injective
    rw [SlackBlock.changesOf_dropRepeats, collapse_of_isChain hc]
  rw [SlackBlock.fromSortedPoints_eq h, hsame]

/-- Chunks of points without repeats become blocks with these points. -/
theorem mapM_fromSortedPoints_of_isChain {parts : List (List SlackPoint)}
    (h : Increasing (changesOf parts.flatten))
    (hc : (changesOf parts.flatten).IsChain fun x y => x.2 ≠ y.2) :
    parts.mapM SlackBlock.fromSortedPoints = .ok (parts.map SlackBlock.ofPoints) ∧
      blockChanges (parts.map SlackBlock.ofPoints) = changesOf parts.flatten := by
  induction parts with
  | nil => exact ⟨rfl, rfl⟩
  | cons c parts ih =>
    rw [List.flatten_cons, changesOf_append] at h hc
    obtain ⟨hinc, hparts, -⟩ := List.pairwise_append.mp h
    obtain ⟨hmap, hchanges⟩ := ih hparts hc.right_of_append
    refine ⟨?_, ?_⟩
    · rw [List.mapM_cons, fromSortedPoints_of_isChain hinc hc.left_of_append, Except.ok_bind, hmap]
      rfl
    · rw [List.map_cons, blockChanges_cons, changes_ofPoints, hchanges, List.flatten_cons,
        changesOf_append]

/-- Packing ordered points into blocks gives the stored form. -/
theorem blocksFromSortedPoints_represented {points : List SlackPoint} {blocks : List SlackBlock}
    (h : Increasing (changesOf points)) (hok : blocksFromSortedPoints points = .ok blocks) :
    Represented ⟨blocks⟩ := by
  have hcanon := changesOf_dropLeadingZero points
  obtain ⟨blocks', hok', hwf, -⟩ := blocksFromSortedPoints_spec h
  obtain rfl : blocks' = blocks := Except.ok.inj (hok'.symm.trans hok)
  obtain ⟨hflat, -⟩ := chunks_spec (n := maxPointsPerBlock - 1) (le_refl
    (dropLeadingZero (dropRepeats none points)).length)
  obtain ⟨hsized, hfull⟩ := chunks_sized (n := maxPointsPerBlock - 1) (le_refl
    (dropLeadingZero (dropRepeats none points)).length)
  have hcanonical := dedup_canonical 0 (changesOf points)
  rw [← hcanon, ← hflat] at hcanonical
  have hinc := h.dedup 0
  rw [← hcanon, ← hflat] at hinc
  obtain ⟨hmap, hchanges⟩ := mapM_fromSortedPoints_of_isChain hinc
    (canonical_iff_isChain.mp hcanonical).2
  rw [blocksFromSortedPoints, SlackBlock.fromSortedPoints_eq h] at hok
  obtain rfl := Except.ok.inj (hmap.symm.trans hok)
  refine ⟨hwf, fun b hb => ?_, ?_, ?_⟩
  · obtain ⟨c, hc, rfl⟩ := List.mem_map.mp hb
    exact hsized c hc
  · exact (List.isChain_map _).mpr hfull
  · rw [changes, hchanges]
    exact hcanonical

/-- The points of a sweep lie at timestamps of its events. -/
theorem sweep_keys {capacity : I128} {usage : U128} {previous : Option Slack}
    {events : List (Timestamp × TimelineEvent)} {points : List SlackPoint}
    (h : sweep capacity usage previous events = .ok points) :
    ((changesOf points).map Prod.fst).Sublist (events.map Prod.fst) := by
  induction events generalizing capacity usage previous points with
  | nil =>
    obtain rfl := Except.ok.inj h
    exact .slnil
  | cons e rest ih =>
    obtain ⟨k, e⟩ := e
    rw [sweep] at h
    obtain ⟨_, _, h⟩ := Except.bind_eq_ok.mp h
    obtain ⟨_, _, h⟩ := Except.bind_eq_ok.mp h
    obtain ⟨_, _, h⟩ := Except.bind_eq_ok.mp h
    obtain ⟨_, _, h⟩ := Except.bind_eq_ok.mp h
    obtain ⟨slack, -, h⟩ := Except.bind_eq_ok.mp h
    split at h
    · exact (ih h).cons k
    · obtain ⟨points', hrest, h⟩ := Except.bind_eq_ok.mp h
      obtain rfl := Except.ok.inj h
      exact (ih hrest).cons_cons k

/-- A rebuilt timeline has the stored form. -/
theorem fromCapacityAndClaims_represented {curve : CapacityCurve} {claims : List Claim}
    {tl : SlackTimeline} (h : fromCapacityAndClaims curve claims = .ok tl) : tl.Represented := by
  obtain ⟨events, -, h⟩ := Except.bind_eq_ok.mp h
  obtain ⟨points, hsweep, h⟩ := Except.bind_eq_ok.mp h
  obtain ⟨blocks, hblocks, h⟩ := Except.bind_eq_ok.mp h
  obtain rfl := Except.ok.inj h
  refine blocksFromSortedPoints_represented ?_ hblocks
  have hsorted := List.pairwise_map.mpr (OrderedMap.toList_sorted events)
  exact List.pairwise_map.mp (hsorted.sublist (sweep_keys hsweep))

/-! ## Boundaries and shifts -/

/-- A boundary is a marked point that may repeat the slack before it. -/
theorem Bounded.canonicalOutside {t : Timestamp} {tl tl' : SlackTimeline}
    {marked : Timestamp → Prop} (h : Bounded t tl tl') (ht : marked t)
    (hc : CanonicalOutside marked 0 tl.changes) : CanonicalOutside marked 0 tl'.changes := by
  rcases h.inserted with ⟨-, rfl⟩ | ⟨lc, rc, htl, htl', hlc, hrc⟩
  · exact hc
  · have hvalue : tl.slackValue t = valueAt 0 lc t := by
      rw [slackValue, htl, valueAt_append_of_lt hrc]
    rw [htl', hvalue]
    exact (htl ▸ hc).insert (fun e he => (hlc e he).le) ht

/-- Nothing is inserted where there is a change point. -/
theorem Bounded.eq_of_mem {t : Timestamp} {tl tl' : SlackTimeline} (h : Bounded t tl tl')
    (hmem : ∃ e ∈ tl.changes, e.1 = t) : tl' = tl := by
  rcases h.inserted with ⟨-, heq⟩ | ⟨lc, rc, htl, -, hlc, hrc⟩
  · exact heq
  · obtain ⟨e, he, rfl⟩ := hmem
    rw [htl] at he
    rcases List.mem_append.mp he with he | he
    · exact absurd (hlc e he) (lt_irrefl _)
    · exact absurd (hrc e he) (lt_irrefl _)

/-- A first point with another value than zero is not an inserted boundary. -/
theorem Bounded.eq_of_first {t : Timestamp} {tl tl' : SlackTimeline} (h : Bounded t tl tl') {v : ℤ}
    {r : List (Timestamp × ℤ)} (hfirst : tl'.changes = (t, v) :: r) (hv : v ≠ 0) : tl' = tl := by
  rcases h.inserted with ⟨-, heq⟩ | ⟨lc, rc, htl, htl', hlc, hrc⟩
  · exact heq
  · cases lc with
    | nil =>
      rw [htl', List.nil_append, slackValue, htl, List.nil_append, valueAt_of_lt hrc] at hfirst
      exact absurd (congrArg Prod.snd (List.cons.inj hfirst).1).symm hv
    | cons e lc =>
      rw [htl'] at hfirst
      exact absurd (hlc e (by simp)) (by rw [(List.cons.inj hfirst).1]; exact lt_irrefl t)

/-- A second point with another value than the first is not an inserted boundary. -/
theorem Bounded.eq_of_second {t : Timestamp} {tl tl' : SlackTimeline} (h : Bounded t tl tl')
    {s : Timestamp} {v w : ℤ} {r : List (Timestamp × ℤ)} (hst : s < t)
    (hsecond : tl'.changes = (s, v) :: (t, w) :: r) (hvw : v ≠ w) : tl' = tl := by
  rcases h.inserted with ⟨-, heq⟩ | ⟨lc, rc, htl, htl', hlc, hrc⟩
  · exact heq
  · rw [hsecond] at htl'
    cases lc with
    | nil => exact absurd (congrArg Prod.fst (List.cons.inj htl').1) hst.ne
    | cons e lc =>
      obtain ⟨rfl, hrest⟩ := List.cons.inj htl'
      cases lc with
      | nil =>
        have hvalue : tl.slackValue t = v := by
          rw [slackValue, htl, List.singleton_append, valueAt_cons_of_le (e := (s, v)) hst.le,
            valueAt_of_lt hrc]
        exact absurd (hvalue.symm.trans (congrArg Prod.snd (List.cons.inj hrest).1).symm) hvw
      | cons e lc =>
        exact absurd (hlc e (by simp)) (by rw [← (List.cons.inj hrest).1]; exact lt_irrefl t)

end SlackTimeline

/-- Shifting between two boundaries keeps the first timestamp of a block and adds none. -/
theorem MayMerge.keys {start stop : Timestamp} {b b' : SlackBlock} (h : MayMerge start stop b b') :
    (b'.changes.map Prod.fst).Sublist (b.changes.map Prod.fst) ∧
      (b'.changes.map Prod.fst).head? = (b.changes.map Prod.fst).head? := by
  rcases h with ⟨d, hb', -⟩ | ⟨target, hkeys, hb'⟩
  · rw [hb', map_fst_shift]
    exact ⟨.refl _, rfl⟩
  · rw [hb', ← hkeys]
    exact ⟨(collapse_sublist target).map _, by rw [List.head?_map, List.head?_map, head?_collapse]⟩

/-- A block does not grow by merging. -/
theorem MayMerge.length_le {start stop : Timestamp} {b b' : SlackBlock}
    (h : MayMerge start stop b b') : b'.points.length ≤ b.points.length := by
  have := h.keys.1.length_le
  rwa [List.length_map, List.length_map, SlackBlock.length_changes, SlackBlock.length_changes]
    at this

/-- No point repeats the one before it after shifting between the only two that might have. -/
theorem MayMerge.isChain {start stop : Timestamp} {b b' : SlackBlock} (h : MayMerge start stop b b')
    (hb : b.changes.IsChain fun x y => y.2 = x.2 → y.1 = start ∨ y.1 = stop) :
    b'.changes.IsChain fun x y => x.2 ≠ y.2 := by
  rcases h with ⟨d, hb', hinside⟩ | ⟨target, -, hb'⟩
  · rw [hb']
    refine (List.isChain_map _).mpr (List.isChain_iff_forall_rel_of_append_cons_cons.mpr ?_)
    intro x y l r hlr heq
    have hy : y ∈ b.changes.tail := by
      rw [hlr]
      cases l with
      | nil => simp
      | cons e l => simp
    have hmarked := List.isChain_iff_forall_rel_of_append_cons_cons.mp hb hlr
      (add_right_cancel heq).symm
    rcases hmarked with hstart | hstop
    · exact (hinside y hy).1 hstart
    · exact (hinside y hy).2 hstop
  · rw [hb']
    exact collapse_isChain target

/-- Blocks keep their size limit by merging. -/
theorem sized_of_mayMerge {start stop : Timestamp} {blocks blocks' : List SlackBlock}
    (h : List.Forall₂ (MayMerge start stop) blocks blocks') (hs : SlackTimeline.Sized blocks) :
    SlackTimeline.Sized blocks' := by
  induction h with
  | nil => exact hs
  | cons hb _ ih =>
    obtain ⟨hlen, hs⟩ := SlackTimeline.sized_cons.mp hs
    exact SlackTimeline.sized_cons.mpr ⟨hb.length_le.trans hlen, ih hs⟩

/-- Merging at both ends of an interval removes all repetitions, if there were none elsewhere. -/
theorem blockwiseDistinct_of_mayMerge {start stop : Timestamp} {blocks blocks' : List SlackBlock}
    (h : List.Forall₂ (MayMerge start stop) blocks blocks')
    (hc : ∀ b ∈ blocks, b.changes.IsChain fun x y => y.2 = x.2 → y.1 = start ∨ y.1 = stop) :
    BlockwiseDistinct blocks' := by
  induction h with
  | nil =>
    intro b hb
    cases hb
  | cons hb _ ih =>
    obtain ⟨hc, hrest⟩ := List.forall_mem_cons.mp hc
    exact List.forall_mem_cons.mpr ⟨hb.isChain hc, ih hrest⟩

/-- When everything up to the second block gets slack zero, then what got it is a first point, which
is shifted alone, and the point behind it, where the shift ends. -/
theorem uncovered_eq {l r : List (Timestamp × ℤ)} {start stop w : Timestamp} {δ z : ℤ}
    (hinc : Increasing (l ++ (w, z) :: r))
    (hc : CanonicalOutside (fun t => t = start ∨ t = stop) 0 (l ++ (w, z) :: r))
    (hstart : ∃ e ∈ l ++ (w, z) :: r, e.1 = start) (hstop : ∃ e ∈ l ++ (w, z) :: r, e.1 = stop)
    (hlt : start < stop) (hl : l ≠ [])
    (hzero : ∀ e ∈ l ++ [(w, z)], e.2 + (if start ≤ e.1 ∧ e.1 < stop then δ else 0) = 0) :
    l = [(start, -δ)] ∧ (w, z) = (stop, 0) := by
  obtain ⟨⟨u, x⟩, l, rfl⟩ := List.exists_cons_of_ne_nil hl
  rw [List.cons_append] at hinc hc hstart hstop
  obtain ⟨hfirst, hrest⟩ := List.pairwise_cons.mp hinc
  obtain ⟨hcx, hc⟩ := hc
  obtain ⟨a, ha, rfl⟩ := hstart
  obtain ⟨b, hb, rfl⟩ := hstop
  have hx := hzero (u, x) (by simp)
  -- the first point is the start: before the start the slack is not zero
  obtain rfl : a.1 = u := by
    rcases List.mem_cons.mp ha with rfl | ha
    · rfl
    · have hua := hfirst a ha
      rw [if_neg fun h => hua.not_ge h.1, add_zero] at hx
      rcases hcx hx with h | h
      · exact h.symm
      · exact absurd (h.ge.trans_lt hua) hlt.not_gt
  rw [if_pos ⟨le_rfl, hlt⟩] at hx
  obtain rfl : x = -δ := eq_neg_of_add_eq_zero_left hx
  have hb : b ∈ l ++ (w, z) :: r := by
    rcases List.mem_cons.mp hb with rfl | hb
    · exact absurd hlt (lt_irrefl _)
    · exact hb
  have hhead (l : List (Timestamp × ℤ)) : ∃ e m, l ++ (w, z) :: r = e :: m ∧ e ∈ l ++ [(w, z)] ∧
      (l = [] → e = (w, z)) := by
    cases l with
    | nil => exact ⟨_, _, rfl, by simp, fun _ => rfl⟩
    | cons e l => exact ⟨_, _, rfl, by simp, fun h => by cases h⟩
  -- the point behind it is the end: until then the slack stays the same
  obtain ⟨e, m, hm, he, hel⟩ := hhead l
  have hze := hzero e (List.mem_cons_of_mem _ he)
  rw [hm] at hfirst hrest hc hb
  have hae : a.1 < e.1 := hfirst e (by simp)
  have heb : e.1 = b.1 := by
    rcases List.mem_cons.mp hb with rfl | hb
    · rfl
    · have heb := (List.pairwise_cons.mp hrest).1 b hb
      rw [if_pos ⟨hae.le, heb⟩] at hze
      rcases hc.1 (eq_neg_of_add_eq_zero_left hze) with h | h
      · exact absurd h hae.ne'
      · exact h
  rw [if_neg fun h => h.2.ne heb, add_zero] at hze
  cases l with
  | nil => exact ⟨rfl, by rw [← hel rfl, ← heb, ← hze]⟩
  | cons e' l =>
    -- a point behind the end would repeat the slack zero
    rw [List.cons_append] at hm
    obtain ⟨rfl, rfl⟩ := List.cons.inj hm
    obtain ⟨c, m, hm, hcm, -⟩ := hhead l
    have hzc := hzero c (List.mem_cons_of_mem _ (List.mem_cons_of_mem _ hcm))
    have hec : e'.1 < c.1 := (List.pairwise_cons.mp hrest).1 c (by rw [hm]; simp)
    rw [hm] at hc
    rw [if_neg fun h => h.2.not_gt (heb ▸ hec), add_zero] at hzc
    rcases hc.2.1 (hzc.trans hze.symm) with h | h
    · exact absurd h (hae.trans hec).ne'
    · exact absurd h (heb ▸ hec.ne')

/-! ## Rebalancing -/

/-- Neighbouring blocks that the loop has left behind: they do not fit into one, and the slack
changes between them. -/
def Settled (blocks : List SlackBlock) : Prop :=
  blocks.IsChain fun a b => maxPointsPerBlock < a.points.length + b.points.length ∧
    ∀ x ∈ a.changes.getLast?, ∀ y ∈ b.changes.head?, x.2 ≠ y.2

/-- A last block may be replaced by a longer one that begins alike. -/
theorem Settled.replace {l : List SlackBlock} {a c : SlackBlock} (h : Settled (l ++ [a]))
    (hlen : a.points.length ≤ c.points.length) (hhead : c.changes.head? = a.changes.head?) :
    Settled (l ++ [c]) := by
  obtain ⟨hl, -, hla⟩ := List.isChain_append.mp h
  refine List.isChain_append.mpr ⟨hl, .singleton c, fun x hx y hy => ?_⟩
  obtain ⟨hfull, hdiffer⟩ := hla x hx a (by simp)
  obtain rfl : c = y := by simpa using hy
  exact ⟨hfull.trans_le (Nat.add_le_add_left hlen _), hhead ▸ hdiffer⟩

/-- Blocks that change the slack at each of their points and between them do so throughout. -/
theorem Settled.isChain {blocks : List SlackBlock} (h : Settled blocks)
    (hne : ∀ b ∈ blocks, b.points ≠ []) (hd : BlockwiseDistinct blocks) :
    (blockChanges blocks).IsChain fun x y => x.2 ≠ y.2 := by
  rw [blockChanges, List.flatMap_def, List.isChain_flatten]
  · refine ⟨List.forall_mem_map.mpr hd, (List.isChain_map _).mpr (h.imp fun a b hab => hab.2)⟩
  · intro hnil
    obtain ⟨b, hb, hnil⟩ := List.mem_map.mp hnil
    exact hne b hb (SlackBlock.changes_eq_nil.mp hnil)

namespace SlackTimeline

/-- What the loop keeps: the blocks are bounded and distinct, and up to its index settled. -/
structure Arranged (index : Nat) (tl : SlackTimeline) : Prop where
  /-- No block holds more points than it may. -/
  sized : Sized tl.blocks
  /-- No point of a block repeats the slack of the point before it. -/
  distinct : BlockwiseDistinct tl.blocks
  /-- The blocks up to the index are settled. -/
  settled : Settled (tl.blocks.take (index + 1))

/-- The part up to and with an element. -/
theorem take_length_succ (l : List SlackBlock) (a : SlackBlock) (r : List SlackBlock) :
    (l ++ a :: r).take (l.length + 1) = l ++ [a] := by
  rw [List.take_append, List.take_of_length_le (Nat.le_succ _), Nat.add_sub_cancel_left]
  rfl

/-- The first change does not depend on what follows the first change of a block. -/
theorem head?_blockChanges_append {l : List SlackBlock} {a c : SlackBlock} {r r' : List SlackBlock}
    (ha : a.changes ≠ []) (hc : c.changes.head? = a.changes.head?) :
    (blockChanges (l ++ c :: r')).head? = (blockChanges (l ++ a :: r)).head? := by
  obtain ⟨e, m, ham⟩ := List.exists_cons_of_ne_nil ha
  simp [List.head?_append, hc, ham]

/-- A round keeps what the loop keeps, and the first change point. -/
theorem Arranged.round {index index' : Nat} {tl tl' : SlackTimeline} (h : Arranged index tl)
    (hwf : tl.WellFormed) (hround : Round index tl index' tl') :
    Arranged index' tl' ∧ tl'.changes.head? = tl.changes.head? := by
  obtain ⟨hs, hd, hset⟩ := h
  cases hround with
  | @merge l r a b c fits merged =>
    have ha : a.changes ≠ [] := mt SlackBlock.changes_eq_nil.mp (hwf.nonempty a (by simp))
    obtain ⟨hsl, hsabr⟩ := sized_append.mp hs
    obtain ⟨-, hsbr⟩ := sized_cons.mp hsabr
    obtain ⟨-, hsr⟩ := sized_cons.mp hsbr
    obtain ⟨v, hv⟩ := collapse_append (r := b.changes) (hd a (by simp)) ha
    have hlen : a.points.length ≤ c.points.length := by
      rw [← a.length_changes, ← c.length_changes, merged, hv, List.length_append]
      exact Nat.le_add_right _ _
    have hlen' : c.points.length ≤ maxPointsPerBlock := by
      refine le_trans ?_ fits
      rw [← a.length_changes, ← b.length_changes, ← c.length_changes, merged, ← List.length_append]
      exact (collapse_sublist _).length_le
    have hhead : c.changes.head? = a.changes.head? := by
      rw [merged, head?_collapse, List.head?_append_of_ne_nil _ ha]
    refine ⟨⟨sized_append.mpr ⟨hsl, sized_cons.mpr ⟨hlen', hsr⟩⟩, fun x hx => ?_, ?_⟩,
      head?_blockChanges_append ha hhead⟩
    · rcases List.mem_append.mp hx with hx | hx
      · exact hd x (List.mem_append_left _ hx)
      · rcases List.mem_cons.mp hx with rfl | hx
        · rw [merged]
          exact collapse_isChain _
        · exact hd x (by simp [hx])
    · rw [take_length_succ] at hset ⊢
      exact hset.replace hlen hhead
  | @drop l r rest a b repeated dropped =>
    have ha : a.changes ≠ [] := mt SlackBlock.changes_eq_nil.mp (hwf.nonempty a (by simp))
    obtain ⟨hsl, hsabr⟩ := sized_append.mp hs
    obtain ⟨hsa, hsbr⟩ := sized_cons.mp hsabr
    obtain ⟨hsb, hsr⟩ := sized_cons.mp hsbr
    refine ⟨⟨sized_append.mpr ⟨hsl, sized_cons.mpr ⟨hsa, ?_⟩⟩, fun x hx => ?_, ?_⟩,
      head?_blockChanges_append ha rfl⟩
    · rcases dropped with ⟨-, rfl⟩ | ⟨b', hb', rfl⟩
      · exact hsr
      · refine sized_cons.mpr ⟨le_trans ?_ hsb, hsr⟩
        rw [← b.length_changes, ← b'.length_changes, hb', List.length_tail]
        exact Nat.sub_le _ _
    · rcases List.mem_append.mp hx with hx | hx
      · exact hd x (List.mem_append_left _ hx)
      · rcases List.mem_cons.mp hx with rfl | hx
        · exact hd x (by simp)
        · rcases dropped with ⟨-, rfl⟩ | ⟨b', hb', rfl⟩
          · exact hd x (by simp [hx])
          · rcases List.mem_cons.mp hx with rfl | hx
            · rw [hb']
              exact (hd b (by simp)).tail
            · exact hd x (by simp [hx])
    · rw [take_length_succ] at hset ⊢
      exact hset
  | @advance l r a b full differ =>
    refine ⟨⟨hs, hd, ?_⟩, rfl⟩
    have hsplit : l ++ a :: b :: r = (l ++ [a]) ++ b :: r := by simp
    have htake : (l ++ a :: b :: r).take (l.length + 1 + 1) = l ++ [a] ++ [b] := by
      have := take_length_succ (l ++ [a]) b r
      rwa [List.length_append, List.length_singleton, ← hsplit] at this
    rw [htake]
    rw [take_length_succ] at hset
    refine List.isChain_append.mpr ⟨hset, .singleton b, fun x hx y hy => ?_⟩
    obtain rfl : a = x := by simpa using hx
    obtain rfl : b = y := by simpa using hy
    exact ⟨full, differ⟩

/-- Given enough rounds, the loop settles all blocks and keeps the first change point. -/
theorem rebalanceFrom_settled {tl : SlackTimeline} (hwf : tl.WellFormed) {fuel index : Nat}
    (h : Arranged index tl) (hfuel : rounds tl.blocks - index ≤ fuel) :
    ∃ tl', rebalanceFrom fuel index tl = .ok ⟨⟩ tl' ∧ tl'.WellFormed ∧ Sized tl'.blocks ∧
      BlockwiseDistinct tl'.blocks ∧ Settled tl'.blocks ∧ tl'.changes.head? = tl.changes.head? := by
  induction fuel generalizing tl index with
  | zero =>
    have hlen := length_le_rounds tl.blocks
    refine ⟨tl, rfl, hwf, h.sized, h.distinct, ?_, rfl⟩
    have := h.settled
    rwa [List.take_of_length_le (by omega)] at this
  | succ fuel ih =>
    by_cases hindex : index + 1 < tl.blocks.length
    · obtain ⟨index', tl₁, hstep, hround, hwf₁, -, hlt⟩ := rebalanceFrom_step hwf hindex
      obtain ⟨h₁, hhead⟩ := h.round hwf hround
      obtain ⟨tl', hrun, hwf', hs, hd, hset, hhead'⟩ := ih hwf₁ h₁ (by omega)
      exact ⟨tl', by rw [hstep, hrun], hwf', hs, hd, hset, hhead'.trans hhead⟩
    · refine ⟨tl, rebalanceFrom_last hindex _, hwf, h.sized, h.distinct, ?_, rfl⟩
      have := h.settled
      rwa [List.take_of_length_le (by omega)] at this

/-- A first block of a single point of slack zero, before a block that begins with slack zero. -/
def TwoLeadingZeros (tl : SlackTimeline) : Prop :=
  ∃ b c r u w, tl.blocks = b :: c :: r ∧ b.changes = [(u, 0)] ∧ (w, (0 : ℤ)) ∈ c.changes.head?

/-- Removing a leading zero leaves another one only behind a block of a single point. -/
theorem LeadingZeroDropped.head? {blocks blocks' : List SlackBlock}
    (h : LeadingZeroDropped blocks blocks') (hne : ∀ b ∈ blocks, b.points ≠ [])
    (hd : BlockwiseDistinct blocks) :
    (∀ e ∈ (blockChanges blocks').head?, e.2 ≠ 0) ↔ ¬TwoLeadingZeros ⟨blocks⟩ := by
  cases h with
  | empty =>
    refine iff_of_true (by simp) ?_
    rintro ⟨b, c, r, u, w, hblocks, -⟩
    cases hblocks
  | @keep b b' r e first nonzero same =>
    refine iff_of_true ?_ ?_
    · obtain ⟨m, hm⟩ : ∃ m, b.changes = e :: m := List.head?_eq_some_iff.mp first
      rw [blockChanges_cons, same, hm]
      simpa using nonzero
    · rintro ⟨_, c, r, u, w, ⟨⟩, hb, -⟩
      rw [hb] at first
      exact nonzero (by rw [← Option.mem_some_iff.mp first])
  | @drop b b' r t e l first rest =>
    refine iff_of_true ?_ ?_
    · have hte : (0 : ℤ) ≠ e.2 := by
        have := hd b (by simp)
        rw [first] at this
        exact this.rel
      rw [blockChanges_cons, rest]
      simpa using hte.symm
    · rintro ⟨_, c, r, u, w, ⟨⟩, hb, -⟩
      rw [hb] at first
      cases first
  | @dropBlock b _ t first =>
    cases blocks' with
    | nil =>
      refine iff_of_true (by simp) ?_
      rintro ⟨_, c, r, u, w, hblocks, -⟩
      cases hblocks
    | cons c r =>
      obtain ⟨⟨w, z⟩, m, hc⟩ := List.exists_cons_of_ne_nil
        (mt SlackBlock.changes_eq_nil.mp (hne c (by simp)))
      rw [blockChanges_cons, hc]
      simp only [List.cons_append, List.head?_cons, Option.mem_some_iff, forall_eq']
      refine not_congr ⟨?_, ?_⟩
      · rintro rfl
        exact ⟨b, c, r, t, w, rfl, first, by rw [hc]; rfl⟩
      · rintro ⟨_, _, _, u, w', ⟨⟩, -, hw⟩
        rw [hc] at hw
        exact congrArg Prod.snd (Option.mem_some_iff.mp hw)

/-- Removing a leading zero keeps the blocks bounded and distinct. -/
theorem LeadingZeroDropped.arranged {blocks blocks' : List SlackBlock}
    (h : LeadingZeroDropped blocks blocks') (hs : Sized blocks) (hd : BlockwiseDistinct blocks) :
    Arranged 0 ⟨blocks'⟩ := by
  have hfirst (blocks : List SlackBlock) : Settled (blocks.take 1) := by
    cases blocks with
    | nil => exact .nil
    | cons b r => exact .singleton b
  suffices h : Sized blocks' ∧ BlockwiseDistinct blocks' from ⟨h.1, h.2, hfirst blocks'⟩
  cases h with
  | empty => exact ⟨hs, hd⟩
  | keep first nonzero same =>
    obtain ⟨hsb, hsr⟩ := sized_cons.mp hs
    obtain ⟨hdb, hdr⟩ := List.forall_mem_cons.mp hd
    refine ⟨sized_cons.mpr ⟨?_, hsr⟩, List.forall_mem_cons.mpr ⟨same ▸ hdb, hdr⟩⟩
    rwa [← SlackBlock.length_changes, same, SlackBlock.length_changes]
  | drop first rest =>
    obtain ⟨hsb, hsr⟩ := sized_cons.mp hs
    obtain ⟨hdb, hdr⟩ := List.forall_mem_cons.mp hd
    rw [first] at hdb
    refine ⟨sized_cons.mpr ⟨?_, hsr⟩, List.forall_mem_cons.mpr ⟨rest ▸ hdb.tail, hdr⟩⟩
    rw [← SlackBlock.length_changes, first, List.length_cons] at hsb
    rw [← SlackBlock.length_changes, rest]
    exact (Nat.le_succ _).trans hsb
  | dropBlock first => exact ⟨(sized_cons.mp hs).2, (List.forall_mem_cons.mp hd).2⟩

/-- The normalization of bounded and distinct blocks gives the stored form, unless there are two
leading zeros. -/
theorem normalizeAndRebalance_represented {tl : SlackTimeline} (hwf : tl.WellFormed)
    (hs : Sized tl.blocks) (hd : BlockwiseDistinct tl.blocks) :
    ∃ tl', normalizeAndRebalance tl = .ok ⟨⟩ tl' ∧ (tl'.Represented ↔ ¬tl.TwoLeadingZeros) := by
  obtain ⟨tl₁, tl₂, h₁, h₂, hdrop, hwf₂, -⟩ := dropLeadingZeroPoint_spec hwf
  obtain ⟨tl', hrun, hwf', hs', hd', hset, hhead⟩ :=
    rebalanceFrom_settled hwf₂ (hdrop.arranged hs hd) (Nat.sub_le _ _)
  refine ⟨tl', ?_, ?_⟩
  · rw [normalizeAndRebalance, EStateM.bind_of_ok (retainNonEmpty_of_wellFormed hwf),
      EStateM.bind_of_ok h₁, EStateM.bind_of_ok h₂, EStateM.get_bind_apply]
    exact hrun
  · rw [← hdrop.head? hwf.nonempty hd]
    constructor
    · intro h
      have := (canonical_iff_isChain.mp h.canonical).1
      rwa [hhead] at this
    · intro h
      refine ⟨hwf', hs', hset.imp fun a b hab => hab.1, canonical_iff_isChain.mpr ⟨?_, ?_⟩⟩
      · rw [hhead]
        exact h
      · exact hset.isChain hwf'.nonempty hd'

/-! ## Updates -/

/-- The update takes a first block of a single point to slack zero, and ends at the next point, which
begins the second block with slack zero. -/
def UncoversZero (tl : SlackTimeline) (interval : Interval) (delta : Slack) : Prop :=
  ∃ b c r, tl.blocks = b :: c :: r ∧ b.changes = [(interval.start, -delta.val)] ∧
    (interval.stop, 0) ∈ c.changes.head?

/-- The slack of a change point. -/
theorem WellFormed.slackValue_of_mem {tl : SlackTimeline} (h : tl.WellFormed) {e : Timestamp × ℤ}
    (he : e ∈ tl.changes) : tl.slackValue e.1 = e.2 := valueAt_self h.increasing he

/-- The first two change points of a timeline, where they lie in two blocks. -/
theorem changes_of_first_block {tl : SlackTimeline} {b c : SlackBlock} {r : List SlackBlock}
    {e e' : Timestamp × ℤ} (hblocks : tl.blocks = b :: c :: r) (hb : b.changes = [e])
    (hc : e' ∈ c.changes.head?) : ∃ m, tl.changes = e :: e' :: m := by
  obtain ⟨m, hm⟩ : ∃ m, c.changes = e' :: m := List.head?_eq_some_iff.mp hc
  exact ⟨m ++ blockChanges r, by rw [changes, hblocks, blockChanges_cons, blockChanges_cons, hb, hm]; rfl⟩

/-- An update that uncovers a zero leaves two leading zeros to the normalization. -/
theorem UncoversZero.twoLeadingZeros {tl tl₃ : SlackTimeline} {i : Interval} {δ : Slack}
    (h : tl.UncoversZero i δ) (hwf : tl.WellFormed) (hwf₃ : tl₃.WellFormed)
    (hmerge : List.Forall₂ (MayMerge i.start i.stop) tl.blocks tl₃.blocks)
    (hvalue : ∀ t, tl₃.slackValue t = tl.slackValue t + if i.contains t then δ.val else 0) :
    tl₃.TwoLeadingZeros := by
  obtain ⟨b, c, r, hblocks, hb, hc⟩ := h
  obtain ⟨m, hchanges⟩ := changes_of_first_block hblocks hb hc
  have hstart := hwf.slackValue_of_mem (e := (i.start, -δ.val)) (by simp [hchanges])
  have hstop := hwf.slackValue_of_mem (e := (i.stop, 0)) (by simp [hchanges])
  obtain ⟨blocks₃⟩ := tl₃
  rw [hblocks] at hmerge
  obtain ⟨b', blocks', hbb', hrest, rfl⟩ := List.forall₂_cons_left_iff.mp hmerge
  obtain ⟨c', r', hcc', -, rfl⟩ := List.forall₂_cons_left_iff.mp hrest
  -- the blocks begin where they began, and the slack there is zero now
  have hfirst {d d' : SlackBlock} {e : Timestamp × ℤ} (hmm : MayMerge i.start i.stop d d')
      (he : e ∈ d.changes.head?) (hd' : d' ∈ b' :: c' :: r')
      (hzero : slackValue ⟨b' :: c' :: r'⟩ e.1 = 0) : (e.1, 0) ∈ d'.changes.head? := by
    have hhead := hmm.keys.2
    rw [List.head?_map, List.head?_map, Option.mem_def.mp he] at hhead
    obtain ⟨e', he', hkey⟩ := Option.map_eq_some_iff.mp hhead
    have hmem : e' ∈ changes ⟨b' :: c' :: r'⟩ :=
      mem_blockChanges.mpr ⟨d', hd', List.mem_of_mem_head? he'⟩
    rw [← hkey, hwf₃.slackValue_of_mem hmem] at hzero
    rw [← hkey, ← hzero]
    exact he'
  have hb₀ := hfirst (e := (i.start, -δ.val)) hbb' (by rw [hb]; rfl) (by simp) (by
    rw [hvalue, hstart, if_pos (Interval.contains_iff.mpr ⟨le_rfl, i.start_lt_stop⟩)]
    exact neg_add_cancel _)
  have hc₀ := hfirst hcc' hc (by simp) (by
    rw [hvalue, hstop, if_neg fun h => (Interval.contains_iff.mp h).2.false]
    rfl)
  refine ⟨b', c', r', i.start, i.stop, rfl, ?_, hc₀⟩
  obtain ⟨m', hm'⟩ : ∃ m', b'.changes = (i.start, 0) :: m' := List.head?_eq_some_iff.mp hb₀
  have hlen := hbb'.keys.1.length_le
  rw [hm', hb] at hlen
  obtain rfl : m' = [] := List.length_eq_zero_iff.mp (by simpa using hlen)
  exact hm'

/-- Two leading zeros after a shift come from an update that uncovers a zero. -/
theorem TwoLeadingZeros.uncoversZero {tl tl₁ tl₂ tl₃ : SlackTimeline} {i : Interval} {δ : Slack}
    (h : tl₃.TwoLeadingZeros) (hzero : ¬δ.val = 0) (hb₁ : Bounded i.stop tl tl₁)
    (hb₂ : Bounded i.start tl₁ tl₂)
    (hc : CanonicalOutside (fun t => t = i.start ∨ t = i.stop) 0 tl₂.changes)
    (hwf₃ : tl₃.WellFormed)
    (hmerge : List.Forall₂ (MayMerge i.start i.stop) tl₂.blocks tl₃.blocks)
    (hvalue : ∀ t, tl₃.slackValue t = tl.slackValue t + if i.contains t then δ.val else 0) :
    tl.UncoversZero i δ := by
  obtain ⟨b', c', r', u, w, hblocks, hb', hc'⟩ := h
  obtain ⟨m', hchanges⟩ := changes_of_first_block hblocks hb' hc'
  rw [hblocks] at hmerge
  obtain ⟨b, blocks', hbb', hrest, hblocks₂⟩ := List.forall₂_cons_right_iff.mp hmerge
  obtain ⟨c, r, hcc', -, rfl⟩ := List.forall₂_cons_right_iff.mp hrest
  have hwf₂ := hb₂.wellFormed
  have hbne : b.changes ≠ [] :=
    mt SlackBlock.changes_eq_nil.mp (hwf₂.nonempty b (by simp [hblocks₂]))
  obtain ⟨z, m, hcm⟩ : ∃ z m, c.changes = (w, z) :: m := by
    have hhead := hcc'.keys.2
    rw [List.head?_map, Option.mem_def.mp hc', List.head?_map] at hhead
    obtain ⟨⟨_, z⟩, hz, rfl⟩ := Option.map_eq_some_iff.mp hhead.symm
    obtain ⟨m, hm⟩ := List.head?_eq_some_iff.mp hz
    exact ⟨z, m, hm⟩
  have hchanges₂ : tl₂.changes = b.changes ++ (w, z) :: (m ++ blockChanges r) := by
    rw [changes, hblocks₂, blockChanges_cons, blockChanges_cons, hcm]
    rfl
  have hinc₂ : Increasing tl₂.changes := hwf₂.increasing
  rw [hchanges₂] at hinc₂ hc
  -- up to the second block the slack is zero after the shift
  have hvalues : ∀ e ∈ b.changes ++ [(w, z)],
      e.2 + (if i.start ≤ e.1 ∧ e.1 < i.stop then δ.val else 0) = 0 := by
    intro e he
    have hew : e.1 ≤ w := by
      rcases List.mem_append.mp he with he | he
      · exact ((List.pairwise_append.mp hinc₂).2.2 e he (w, z) (by simp)).le
      · rw [List.mem_singleton.mp he]
    have hmem : e ∈ tl₂.changes := by
      rw [hchanges₂]
      rcases List.mem_append.mp he with he | he
      · exact List.mem_append_left _ he
      · rw [List.mem_singleton.mp he]
        simp
    have hinc₃ : Increasing tl₃.changes := hwf₃.increasing
    rw [hchanges] at hinc₃
    have hafter := (List.pairwise_cons.mp (List.pairwise_cons.mp hinc₃).2).1
    have hzero₃ : tl₃.slackValue e.1 = 0 := by
      rw [slackValue, hchanges, valueAt_cons, valueAt_cons, ite_self, ite_self,
        valueAt_of_lt fun x hx => hew.trans_lt (hafter x hx)]
    rw [hvalue, ← hb₁.value, ← hb₂.value, hwf₂.slackValue_of_mem hmem] at hzero₃
    simpa only [Interval.contains_iff] using hzero₃
  have hstop : ∃ e ∈ b.changes ++ (w, z) :: (m ++ blockChanges r), e.1 = i.stop := by
    obtain ⟨e, he, hstop⟩ := hb₁.mem
    exact ⟨e, hchanges₂ ▸ hb₂.keep e he, hstop⟩
  obtain ⟨hbs, hws⟩ :=
    uncovered_eq hinc₂ hc (hchanges₂ ▸ hb₂.mem) hstop i.start_lt_stop hbne hvalues
  rw [hbs, hws] at hchanges₂
  obtain rfl := hb₂.eq_of_first hchanges₂ (neg_ne_zero.mpr hzero)
  obtain rfl := hb₁.eq_of_second i.start_lt_stop hchanges₂ (neg_ne_zero.mpr hzero)
  exact ⟨b, c, r, hblocks₂, hbs, by rw [hcm, hws]; rfl⟩

/-- What an update shifts, between the boundaries that it inserted. -/
theorem applyDeltaThen_shifted {tl : SlackTimeline} (h : tl.Represented) {i : Interval} {δ : Slack}
    (hzero : ¬δ.val = 0) (hδ : ∀ t, i.contains t = true → IsSlack (tl.slackValue t + δ.val)) :
    ∃ tl₃, (∀ finish, applyDeltaThen finish i δ tl = finish tl₃) ∧ tl₃.WellFormed ∧
      Sized tl₃.blocks ∧ BlockwiseDistinct tl₃.blocks ∧
      (tl₃.TwoLeadingZeros ↔ tl.UncoversZero i δ) := by
  obtain ⟨tl₁, tl₂, tl₃, hb₁, hb₂, -, hrun, hwf₃, hmerge, hvalue₃⟩ :=
    applyDeltaThen_steps h.wellFormed hzero hδ
  have hc₁ : CanonicalOutside (fun t => t = i.start ∨ t = i.stop) 0 tl₁.changes :=
    hb₁.canonicalOutside (.inr rfl) (h.canonical.outside _)
  have hc₂ : CanonicalOutside (fun t => t = i.start ∨ t = i.stop) 0 tl₂.changes :=
    hb₂.canonicalOutside (.inl rfl) hc₁
  refine ⟨tl₃, hrun, hwf₃, sized_of_mayMerge hmerge (hb₂.sized (hb₁.sized h.sized)),
    blockwiseDistinct_of_mayMerge hmerge fun b hb => ?_, ?_, ?_⟩
  · obtain ⟨l, r, hlr⟩ := List.append_of_mem hb
    rw [changes, hlr, blockChanges_append, blockChanges_cons, ← List.append_assoc] at hc₂
    exact hc₂.isChain
  · exact fun h₀ => h₀.uncoversZero hzero hb₁ hb₂ hc₂ hwf₃ hmerge hvalue₃
  · intro h₀
    obtain ⟨b, c, r, hblocks, hb, hc⟩ := h₀
    obtain ⟨m, hchanges⟩ := changes_of_first_block hblocks hb hc
    obtain rfl := hb₁.eq_of_mem ⟨(i.stop, 0), by simp [hchanges], rfl⟩
    obtain rfl := hb₂.eq_of_mem ⟨(i.start, -δ.val), by simp [hchanges], rfl⟩
    exact UncoversZero.twoLeadingZeros ⟨b, c, r, hblocks, hb, hc⟩ h.wellFormed hwf₃ hmerge hvalue₃

/-- An update of a timeline in the stored form restores it, unless it uncovers a zero. -/
theorem applyDelta_represented {tl tl' : SlackTimeline} (h : tl.Represented) {i : Interval}
    {δ : Slack} (hrun : applyDelta i δ tl = .ok ⟨⟩ tl') :
    tl'.Represented ↔ ¬tl.UncoversZero i δ := by
  rw [applyDelta_eq] at hrun
  by_cases hzero : δ.val = 0
  · rw [applyDeltaThen_zero hzero] at hrun
    obtain ⟨-, rfl⟩ := EStateM.Result.ok.inj hrun
    refine iff_of_true h ?_
    rintro ⟨b, c, r, hblocks, hb, -⟩
    have hc := h.canonical
    rw [changes, hblocks, blockChanges_cons, hb, hzero] at hc
    exact hc.1 neg_zero
  · have hδ : ∀ t, i.contains t = true → IsSlack (tl.slackValue t + δ.val) := by
      by_contra hbad
      push Not at hbad
      rw [applyDeltaThen_error h.wellFormed hbad] at hrun
      cases hrun
    obtain ⟨tl₃, hsteps, hwf, hs, hd, hiff⟩ := applyDeltaThen_shifted h hzero hδ
    obtain ⟨tl₄, hnormal, hrep⟩ := normalizeAndRebalance_represented hwf hs hd
    rw [hsteps, hnormal] at hrun
    obtain ⟨-, rfl⟩ := EStateM.Result.ok.inj hrun
    rw [hrep, hiff]

/-! ## Runs of updates -/

/-- The timelines built from capacity and claims and then updated successfully, by updates of an
allowed kind. -/
inductive Updated (allowed : SlackTimeline → Interval → Slack → Prop) (curve : CapacityCurve)
    (claims : List Claim) : SlackTimeline → Prop
  | rebuilt {tl : SlackTimeline} (h : fromCapacityAndClaims curve claims = .ok tl) :
      Updated allowed curve claims tl
  | updated {tl tl' : SlackTimeline} {interval : Interval} {delta : Slack}
      (h : Updated allowed curve claims tl) (hallowed : allowed tl interval delta)
      (hrun : applyDelta interval delta tl = .ok ⟨⟩ tl') : Updated allowed curve claims tl'

/-- Updates that do not uncover a zero keep the stored form, so that the effective points are the
stored ones.  Every other successful update loses it. -/
theorem represented_iff_not_uncoversZero {curve : CapacityCurve} {claims : List Claim}
    {tl : SlackTimeline} (h : Updated (fun tl i δ => ¬tl.UncoversZero i δ) curve claims tl) :
    tl.Represented ∧
    (∃ points, tl.effectivePoints = .ok points ∧ changesOf points = tl.changes) ∧
    ∀ i δ tl', applyDelta i δ tl = .ok ⟨⟩ tl' → (tl'.Represented ↔ ¬tl.UncoversZero i δ) := by
  have hrep : tl.Represented := by
    induction h with
    | rebuilt h => exact fromCapacityAndClaims_represented h
    | updated _ hallowed hrun ih => exact (applyDelta_represented ih hrun).mpr hallowed
  exact ⟨hrep, hrep.effectivePoints, fun i δ tl' hrun => applyDelta_represented hrep hrun⟩

/-! ## A run that loses the stored form -/

/-- Blocks that are settled already stay as they are. -/
theorem rebalanceFrom_of_settled {tl : SlackTimeline} (hwf : tl.WellFormed)
    (h : Settled tl.blocks) (fuel index : Nat) : rebalanceFrom fuel index tl = .ok ⟨⟩ tl := by
  induction fuel generalizing index with
  | zero => rfl
  | succ fuel ih =>
    by_cases hindex : index + 1 < tl.blocks.length
    · obtain ⟨index', tl', hstep, hround, -⟩ := rebalanceFrom_step hwf hindex
      rw [hstep]
      cases hround with
      | merge fits _ =>
        obtain ⟨hfull, -⟩ := (List.isChain_append_cons_cons.mp h).2.1
        exact absurd fits hfull.not_ge
      | drop repeated _ =>
        obtain ⟨-, hdiffer⟩ := (List.isChain_append_cons_cons.mp h).2.1
        obtain ⟨x, hx, y, hy, hxy⟩ := repeated
        exact absurd hxy (hdiffer x hx y hy)
      | advance => exact ih _
    · exact rebalanceFrom_last hindex _

/-- Settled blocks, by their change points. -/
theorem settled_iff {blocks : List SlackBlock} :
    Settled blocks ↔ (blocks.map SlackBlock.changes).IsChain fun l r =>
      maxPointsPerBlock < l.length + r.length ∧ ∀ x ∈ l.getLast?, ∀ y ∈ r.head?, x.2 ≠ y.2 := by
  rw [List.isChain_map]
  simp only [SlackBlock.length_changes]
  rfl

/-- A timeline in the stored form has settled blocks. -/
theorem Represented.settled {tl : SlackTimeline} (h : tl.Represented) : Settled tl.blocks := by
  have hne : ([] : List (Timestamp × ℤ)) ∉ tl.blocks.map SlackBlock.changes := by
    intro hnil
    obtain ⟨b, hb, hnil⟩ := List.mem_map.mp hnil
    exact h.wellFormed.nonempty b hb (SlackBlock.changes_eq_nil.mp hnil)
  have hchain := (canonical_iff_isChain.mp h.canonical).2
  rw [changes, blockChanges, List.flatMap_def, List.isChain_flatten hne, List.isChain_map] at hchain
  refine List.isChain_iff_forall_rel_of_append_cons_cons.mpr fun a b l r hlr => ⟨?_, ?_⟩
  · exact List.isChain_iff_forall_rel_of_append_cons_cons.mp h.balanced hlr
  · exact List.isChain_iff_forall_rel_of_append_cons_cons.mp hchain.2 hlr

/-- No leading zero is removed from canonical change points. -/
theorem LeadingZeroDropped.changes_eq {blocks blocks' : List SlackBlock}
    (h : LeadingZeroDropped blocks blocks') (hc : Canonical 0 (blockChanges blocks)) :
    blocks'.map SlackBlock.changes = blocks.map SlackBlock.changes := by
  cases h with
  | empty => rfl
  | keep first nonzero same => rw [List.map_cons, List.map_cons, same]
  | drop first rest =>
    rw [blockChanges_cons, first] at hc
    exact absurd rfl hc.1
  | dropBlock first =>
    rw [blockChanges_cons, first] at hc
    exact absurd rfl hc.1

/-- The normalization keeps the change points of the blocks of a timeline in the stored form. -/
theorem normalizeAndRebalance_of_represented {tl : SlackTimeline} (h : tl.Represented) :
    ∃ tl', normalizeAndRebalance tl = .ok ⟨⟩ tl' ∧
      tl'.blocks.map SlackBlock.changes = tl.blocks.map SlackBlock.changes := by
  obtain ⟨tl₁, tl₂, h₁, h₂, hdrop, hwf₂, -⟩ := dropLeadingZeroPoint_spec h.wellFormed
  have hsame := hdrop.changes_eq h.canonical
  have hset : Settled tl₂.blocks := by
    rw [settled_iff, hsame]
    exact settled_iff.mp h.settled
  refine ⟨tl₂, ?_, hsame⟩
  rw [normalizeAndRebalance, EStateM.bind_of_ok (retainNonEmpty_of_wellFormed h.wellFormed),
    EStateM.bind_of_ok h₁, EStateM.bind_of_ok h₂, EStateM.get_bind_apply]
  exact rebalanceFrom_of_settled hwf₂ hset _ _

/-- The slack from the first point to the second. -/
theorem slackValue_first {tl : SlackTimeline} (h : tl.WellFormed) {e e' : Timestamp × ℤ}
    {m : List (Timestamp × ℤ)} (hchanges : tl.changes = e :: e' :: m) {t : Timestamp}
    (het : e.1 ≤ t) (hte : t < e'.1) : tl.slackValue t = e.2 := by
  have hinc : Increasing tl.changes := h.increasing
  rw [hchanges] at hinc
  obtain ⟨-, hinc⟩ := List.pairwise_cons.mp hinc
  obtain ⟨hlt, -⟩ := List.pairwise_cons.mp hinc
  rw [slackValue, hchanges, valueAt_cons_of_le het]
  refine valueAt_of_lt fun x hx => ?_
  rcases List.mem_cons.mp hx with rfl | hx
  · exact hte
  · exact hte.trans (hlt x hx)

/-- Before a full block, giving the first point the slack of the second one removes the second. -/
theorem applyDelta_first {tl : SlackTimeline} (h : tl.Represented) {b c : SlackBlock}
    {r : List SlackBlock} {k k' : Timestamp} {v v' : ℤ} {m : List (Timestamp × ℤ)}
    (hblocks : tl.blocks = b :: c :: r) (hb : b.changes = (k, v) :: (k', v') :: m)
    (hv : v < 0) (hv' : v' < 0) (hfull : c.points.length = maxPointsPerBlock) :
    ∃ i δ tl', applyDelta i δ tl = .ok ⟨⟩ tl' ∧ tl'.Represented ∧
      tl'.blocks.map SlackBlock.changes =
        ((k, v') :: m) :: c.changes :: r.map SlackBlock.changes := by
  have hchanges : tl.changes = (k, v) :: (k', v') :: (m ++ blockChanges (c :: r)) := by
    rw [changes, hblocks, blockChanges_cons, hb]
    rfl
  have hinc : Increasing tl.changes := h.wellFormed.increasing
  have hlt : k < k' := by
    rw [hchanges] at hinc
    exact (List.pairwise_cons.mp hinc).1 (k', v') (by simp)
  have hslack : IsSlack v ∧ IsSlack v' := by
    have hk := h.wellFormed.isSlack k
    have hk' := h.wellFormed.isSlack k'
    rw [h.wellFormed.slackValue_of_mem (e := (k, v)) (by simp [hchanges])] at hk
    rw [h.wellFormed.slackValue_of_mem (e := (k', v')) (by simp [hchanges])] at hk'
    exact ⟨hk, hk'⟩
  have hdelta : IsSlack (v' - v) := ⟨by have := hslack.2.1; omega, by have := hslack.1.1; omega⟩
  have hc := h.canonical
  rw [hchanges] at hc
  have hzero : ¬v' - v = 0 := fun hzero => hc.2.1 (sub_eq_zero.mp hzero)
  have hδ : ∀ t, (⟨k, k', hlt⟩ : Interval).contains t = true →
      IsSlack (tl.slackValue t + (v' - v)) := by
    intro t ht
    obtain ⟨h₁, h₂⟩ := Interval.contains_iff.mp ht
    rw [slackValue_first h.wellFormed hchanges h₁ h₂, add_sub_cancel]
    exact hslack.2
  obtain ⟨tl₁, tl₂, tl₃, hb₁, hb₂, ⟨start, stop, hstart, hstop, hbetween⟩, hrun, hwf₃, hmerge, -⟩ :=
    applyDeltaThen_steps (i := ⟨k, k', hlt⟩) (δ := ⟨v' - v, hdelta⟩) h.wellFormed hzero hδ
  obtain rfl := hb₁.eq_of_mem ⟨(k', v'), by simp [hchanges], rfl⟩
  obtain rfl := hb₂.eq_of_mem ⟨(k, v), by simp [hchanges], rfl⟩
  -- both boundaries are points of the first block
  obtain ⟨blocks⟩ := tl₂
  obtain rfl : blocks = [] ++ b :: c :: r := hblocks
  have hwf : WellFormedBlocks ([] ++ b :: c :: r) := h.wellFormed
  have hb₀ : b.changes = [] ++ ((k, v) :: []) ++ (k', v') :: m := hb
  have hb₁ : b.changes = [(k, v)] ++ (k', v') :: m := hb
  have hat : findExactPoint ⟨[] ++ b :: c :: r⟩ k = some (0, 0) :=
    findExactPoint_at hwf (hb.trans (List.nil_append _).symm)
  have hat' := findExactPoint_at hwf hb₁
  obtain rfl := Option.some.inj (hat.symm.trans hstart)
  obtain rfl := Option.some.inj (hat'.symm.trans hstop)
  obtain ⟨b', hinside, hb', -⟩ := applyDeltaBetween_inside (δ := ⟨v' - v, hdelta⟩) hwf hb₀
    (by simpa using hslack.2)
  obtain ⟨-, rfl⟩ := EStateM.Result.ok.inj (hinside.symm.trans hbetween)
  have hwhole : ((k', v') :: m ++ blockChanges (c :: r)).IsChain fun x y => x.2 ≠ y.2 :=
    (canonical_iff_isChain.mp hc.2).2
  have hchain := hwhole.left_of_append
  have hdedup : dedup v' m = m := List.cons_injective (collapse_of_isChain hchain)
  replace hb' : b'.changes = (k, v') :: m := by
    rw [hb', List.nil_append, shift_cons, shift_nil, List.singleton_append, collapse]
    simp only [add_sub_cancel]
    rw [dedup, if_pos rfl, hdedup]
  have hrep₃ : Represented ⟨[] ++ b' :: c :: r⟩ := by
    refine ⟨hwf₃, sized_of_mayMerge hmerge h.sized, ?_, ?_⟩
    · refine List.isChain_cons_cons.mpr ⟨?_, (List.isChain_cons_cons.mp h.balanced).2⟩
      rw [← b'.length_changes, hb', hfull, List.length_cons]
      omega
    · rw [changes, List.nil_append, blockChanges_cons, hb']
      exact ⟨hv'.ne, hc.2.2⟩
  obtain ⟨tl₄, hnormal, hsame⟩ := normalizeAndRebalance_of_represented hrep₃
  have hupdate : applyDelta ⟨k, k', hlt⟩ ⟨v' - v, hdelta⟩ ⟨[] ++ b :: c :: r⟩ = .ok ⟨⟩ tl₄ := by
    rw [applyDelta_eq, hrun, hnormal]
  refine ⟨_, _, tl₄, hupdate, (applyDelta_represented h hupdate).mpr ?_, ?_⟩
  · rintro ⟨_, _, _, hblocks, hsingle, -⟩
    obtain ⟨rfl, -⟩ := List.cons.inj hblocks
    rw [hb] at hsingle
    cases (List.cons.inj hsingle).2
  · rw [hsame, List.nil_append, List.map_cons, List.map_cons, hb']

variable {curve : CapacityCurve} {claims : List Claim}

/-- Before a full block, a block of negative slack can be brought down to one point. -/
theorem Updated.exists_singleton {tl : SlackTimeline}
    (h : Updated (fun _ _ _ => True) curve claims tl)
    (hrep : tl.Represented) {b c : SlackBlock} {r : List SlackBlock} {k : Timestamp} {v : ℤ}
    {m : List (Timestamp × ℤ)} (hblocks : tl.blocks = b :: c :: r) (hb : b.changes = (k, v) :: m)
    (hv : v < 0) (hm : ∀ e ∈ m, e.2 < 0) (hfull : c.points.length = maxPointsPerBlock) :
    ∃ tl' b' c' r', Updated (fun _ _ _ => True) curve claims tl' ∧ tl'.Represented ∧
      tl'.blocks = b' :: c' :: r' ∧ c'.changes = c.changes ∧
      b'.changes = [(k, ((m.map Prod.snd).getLast?).getD v)] := by
  induction m generalizing tl b c r v with
  | nil => exact ⟨tl, b, c, r, h, hrep, hblocks, rfl, hb⟩
  | cons e m ih =>
    obtain ⟨k', v'⟩ := e
    obtain ⟨hv', hm⟩ := List.forall_mem_cons.mp hm
    obtain ⟨i, δ, tl₁, hrun, hrep₁, hsame⟩ := applyDelta_first hrep hblocks hb hv hv' hfull
    obtain ⟨b₁, blocks₁, hblocks₁, hb₁, hrest⟩ := List.map_eq_cons_iff.mp hsame
    obtain ⟨c₁, r₁, rfl, hc₁, -⟩ := List.map_eq_cons_iff.mp hrest
    have hfull₁ : c₁.points.length = maxPointsPerBlock := by
      rw [← c₁.length_changes, hc₁, c.length_changes, hfull]
    obtain ⟨tl', b', c', r', h', hrep', hblocks', hc', hb'⟩ :=
      ih (h.updated trivial hrun) hrep₁ hblocks₁ hb₁ hv' hm hfull₁
    refine ⟨tl', b', c', r', h', hrep', hblocks', hc'.trans hc₁, ?_⟩
    rw [hb', List.map_cons, List.getLast?_cons]
    rfl

/-- A claim of quantity one of a sample pool. -/
def sampleClaim (bounds : ℤ × ℤ) : Option Claim := do
  let start ← BoundedInt.ofInt? bounds.1
  let stop ← BoundedInt.ofInt? bounds.2
  let interval ← (Interval.new start stop).toOption
  let quantity ← BoundedInt.ofInt? 1
  (Claim.new ⟨⟨1, U128.one_range⟩⟩ interval quantity).toOption

/-- A long claim, and short ones at every second timestamp, during it and for as long after it. -/
def alternatingClaims : List Claim :=
  ((0, 256) :: (List.range 256).map fun k : Nat => (2 * (k : ℤ) + 1, 2 * (k : ℤ) + 2)).filterMap
    sampleClaim

/-- A first block of negative slack, down to -2 at its end, before a full block that begins with
slack zero. -/
def negativeBeforeZero : List SlackBlock → Bool
  | b :: c :: _ =>
    b.changes.all (fun e => decide (e.2 < 0)) && decide (b.changes.getLast?.map Prod.snd = some (-2)) &&
      decide (c.points.length = maxPointsPerBlock) && decide (c.changes.head?.map Prod.snd = some 0)
  | _ => false

/-- The alternating claims lead to blocks of this kind. -/
theorem negativeBeforeZero_alternatingClaims :
    (fromCapacityAndClaims .empty alternatingClaims).toOption.any
      (fun tl => negativeBeforeZero tl.blocks) = true := by
  decide +kernel

/-- The timeline of the sample has the blocks that are looked for. -/
theorem alternatingClaims_blocks :
    ∃ tl b c r k v m w, fromCapacityAndClaims .empty alternatingClaims = .ok tl ∧
      tl.blocks = b :: c :: r ∧ b.changes = (k, v) :: m ∧ v < 0 ∧ (∀ e ∈ m, e.2 < 0) ∧
      ((m.map Prod.snd).getLast?).getD v = -2 ∧ c.points.length = maxPointsPerBlock ∧
      (w, 0) ∈ c.changes.head? := by
  obtain ⟨tl, htl, hblocks⟩ := (Option.any_eq_true _ _).mp negativeBeforeZero_alternatingClaims
  have hok : fromCapacityAndClaims .empty alternatingClaims = .ok tl := by
    revert htl
    cases fromCapacityAndClaims .empty alternatingClaims with
    | error => exact fun htl => by cases htl
    | ok tl' => exact fun htl => by rw [Option.some.inj htl]
  obtain ⟨blocks⟩ := tl
  obtain ⟨b, c, r, rfl⟩ : ∃ b c r, blocks = b :: c :: r := by
    rcases blocks with - | ⟨b, - | ⟨c, r⟩⟩
    · cases hblocks
    · cases hblocks
    · exact ⟨b, c, r, rfl⟩
  simp only [negativeBeforeZero, Bool.and_eq_true, decide_eq_true_eq, List.all_eq_true] at hblocks
  obtain ⟨⟨⟨hneg, hlast⟩, hfull⟩, hhead⟩ := hblocks
  have hwf := (fromCapacityAndClaims_sound hok).1
  obtain ⟨⟨k, v⟩, m, hm⟩ := List.exists_cons_of_ne_nil
    (mt SlackBlock.changes_eq_nil.mp (hwf.nonempty b (by simp)))
  rw [hm] at hneg hlast
  obtain ⟨⟨w, z⟩, hw, hz⟩ := Option.map_eq_some_iff.mp hhead
  obtain rfl : z = 0 := hz
  refine ⟨_, b, c, r, k, v, m, w, hok, rfl, hm, hneg (k, v) (by simp), fun e he => hneg e (by simp [he]),
    ?_, hfull, hw⟩
  rw [← List.getLast?_map, List.map_cons, List.getLast?_cons] at hlast
  exact Option.some.inj hlast

/-- A timeline built from claims stores a leading zero after some successful updates. -/
theorem represented_lost :
    ∃ tl, Updated (fun _ _ _ => True) .empty alternatingClaims tl ∧ ¬tl.Represented := by
  obtain ⟨tl, b, c, r, k, v, m, w, htl, hblocks, hb, hv, hm, hlast, hfull, hc⟩ :=
    alternatingClaims_blocks
  obtain ⟨tl', b', c', r', h', hrep', hblocks', hc', hb'⟩ :=
    Updated.exists_singleton (.rebuilt htl) (fromCapacityAndClaims_represented htl) hblocks hb hv hm
      hfull
  rw [hlast] at hb'
  rw [← hc'] at hc
  obtain ⟨m', hchanges⟩ := changes_of_first_block hblocks' hb' hc
  have hinc : Increasing tl'.changes := hrep'.wellFormed.increasing
  rw [hchanges] at hinc
  have hkw : k < w := (List.pairwise_cons.mp hinc).1 (w, 0) (by simp)
  obtain ⟨tl'', hrun, -⟩ := applyDelta_spec (i := ⟨k, w, hkw⟩) (δ := ⟨2, by decide⟩)
    hrep'.wellFormed (fun t ht => by
      obtain ⟨h₁, h₂⟩ := Interval.contains_iff.mp ht
      rw [slackValue_first hrep'.wellFormed hchanges h₁ h₂]
      exact ⟨by norm_num, by norm_num⟩)
  refine ⟨tl'', h'.updated trivial hrun, fun hrep => ?_⟩
  exact (applyDelta_represented hrep' hrun).mp hrep ⟨b', c', r', hblocks', hb', hc⟩

/-- A first block of several change points covers no zero that an update could uncover. -/
theorem not_uncoversZero_of_long {tl : SlackTimeline} {i : Interval} {δ : Slack}
    (h : tl.blocks.head?.any (fun b => decide (1 < b.changes.length)) = true) :
    ¬tl.UncoversZero i δ := by
  rintro ⟨b, c, r, hblocks, hb, -⟩
  rw [hblocks, List.head?_cons, Option.any_some, hb] at h
  cases h

/-- After an update the timeline of the sample still has the stored form, and keeps it in every
further update that does not uncover a zero. -/
theorem represented_iff_not_uncoversZero_sample :
    ∃ tl tl₁, fromCapacityAndClaims .empty alternatingClaims = .ok tl ∧
      applyDelta takenTicks ⟨-3, by decide⟩ tl = .ok ⟨⟩ tl₁ ∧ tl₁.Represented ∧
      (∃ points, tl₁.effectivePoints = .ok points ∧ changesOf points = tl₁.changes) ∧
      ∀ i δ tl₂, applyDelta i δ tl₁ = .ok ⟨⟩ tl₂ → (tl₂.Represented ↔ ¬tl₁.UncoversZero i δ) := by
  have hrun : (fromCapacityAndClaims .empty alternatingClaims).toOption.map (fun tl =>
      (tl.blocks.head?.any (fun b => decide (1 < b.changes.length)),
        (EStateM.run' (applyDelta takenTicks ⟨-3, by decide⟩) tl).isSome)) = some (true, true) := by
    decide +kernel
  obtain ⟨tl, htl, hchecked⟩ := Option.map_eq_some_iff.mp hrun
  obtain ⟨hlong, htaken⟩ := Prod.mk.inj hchecked
  obtain ⟨⟨⟩, tl₁, htl₁⟩ := EStateM.exists_ok_of_isSome htaken
  have hok := Except.toOption_eq_some.mp htl
  refine ⟨tl, tl₁, hok, htl₁, ?_⟩
  exact represented_iff_not_uncoversZero
    (.updated (.rebuilt hok) (not_uncoversZero_of_long hlong) htl₁)

end SlackTimeline

end PromiseDb
