import PromiseDb.Index.SlackFunction

/-!
# Updating a timeline

Every step of an update is described on a timeline cut at the block it works on.  Boundaries are
inserted without changing the step function, the change between two boundaries shifts the change
points between them, and the normalization afterwards keeps the function.  Together they give
the meaning of a whole update: it adds its delta on the interval, or fails without an effect when
some value would leave the range of slack.
-/

namespace PromiseDb

open StepFunction

namespace SlackTimeline

/-! ## Access to one block -/

/-- The block behind a part is found at the length of the part. -/
theorem getBlock_at (l : List SlackBlock) (b : SlackBlock) (r : List SlackBlock) :
    getBlock l.length ⟨l ++ b :: r⟩ = .ok b ⟨l ++ b :: r⟩ := by
  simp [getBlock]

/-- The block after that is found one further. -/
theorem getBlock_next (l : List SlackBlock) (a b : SlackBlock) (r : List SlackBlock) :
    getBlock (l.length + 1) ⟨l ++ a :: b :: r⟩ = .ok b ⟨l ++ a :: b :: r⟩ := by
  have := getBlock_at (l ++ [a]) b r
  simpa using this

/-- The block behind a part is updated at the length of the part. -/
theorem updateBlock_at {l : List SlackBlock} {b c : SlackBlock} {r : List SlackBlock}
    {f : SlackBlock → Except IndexError SlackBlock} (h : f b = .ok c) :
    updateBlock l.length f ⟨l ++ b :: r⟩ = .ok ⟨⟩ ⟨l ++ c :: r⟩ := by
  rw [updateBlock, EStateM.bind_of_ok (getBlock_at l b r), h,
    EStateM.bind_of_ok (EStateM.ofExcept_ok _ _)]
  simp

/-- An operation on a block that cannot fail. -/
theorem updateBlock_map_at (l : List SlackBlock) (b : SlackBlock) (r : List SlackBlock)
    (f : SlackBlock → SlackBlock) :
    updateBlock l.length (fun b => .ok (f b)) ⟨l ++ b :: r⟩ = .ok ⟨⟩ ⟨l ++ f b :: r⟩ :=
  updateBlock_at rfl

/-- The block after that is updated one further. -/
theorem updateBlock_next {l : List SlackBlock} {a b b' : SlackBlock} {r : List SlackBlock}
    {f : SlackBlock → Except IndexError SlackBlock} (h : f b = .ok b') :
    updateBlock (l.length + 1) f ⟨l ++ a :: b :: r⟩ = .ok ⟨⟩ ⟨l ++ a :: b' :: r⟩ := by
  have := updateBlock_at (l := l ++ [a]) (r := r) h
  simpa using this

end SlackTimeline

/-! ## Keeping blocks well formed -/

/-- Well-formed blocks, part by part. -/
theorem wellFormedBlocks_append {l r : List SlackBlock} :
    WellFormedBlocks (l ++ r) ↔ WellFormedBlocks l ∧ WellFormedBlocks r ∧
      ∀ a ∈ blockChanges l, ∀ b ∈ blockChanges r, a.1 < b.1 := by
  constructor
  · rintro ⟨hne, hex, hinc⟩
    rw [blockChanges_append] at hinc
    obtain ⟨hl, hr, hlr⟩ := List.pairwise_append.mp hinc
    exact ⟨⟨fun b hb => hne b (by simp [hb]), fun b hb => hex b (by simp [hb]), hl⟩,
      ⟨fun b hb => hne b (by simp [hb]), fun b hb => hex b (by simp [hb]), hr⟩, hlr⟩
  · rintro ⟨hl, hr, hlr⟩
    refine ⟨fun b hb => ?_, fun b hb => ?_, ?_⟩
    · exact (List.mem_append.mp hb).elim (hl.nonempty b) (hr.nonempty b)
    · exact (List.mem_append.mp hb).elim (hl.exact b) (hr.exact b)
    · rw [blockChanges_append]
      exact List.pairwise_append.mpr ⟨hl.increasing, hr.increasing, hlr⟩

/-- When a single block is well formed. -/
theorem wellFormedBlocks_singleton {b : SlackBlock} :
    WellFormedBlocks [b] ↔ b.points ≠ [] ∧ b.Exact ∧ Increasing b.changes := by
  constructor
  · rintro ⟨hne, hex, hinc⟩
    exact ⟨hne b (by simp), hex b (by simp), by simpa using hinc⟩
  · rintro ⟨hne, hex, hinc⟩
    exact ⟨by simpa using hne, by simpa using hex, by simpa using hinc⟩

/-- When a first block before others is well formed. -/
theorem wellFormedBlocks_cons {b : SlackBlock} {r : List SlackBlock} :
    WellFormedBlocks (b :: r) ↔ (b.points ≠ [] ∧ b.Exact ∧ Increasing b.changes) ∧
      WellFormedBlocks r ∧ ∀ a ∈ b.changes, ∀ c ∈ blockChanges r, a.1 < c.1 := by
  rw [← List.singleton_append, wellFormedBlocks_append, wellFormedBlocks_singleton]
  simp

/-- Replacing a part by blocks with fewer timestamps. -/
theorem WellFormedBlocks.replace {l m n r : List SlackBlock} (h : WellFormedBlocks (l ++ m ++ r))
    (hm : WellFormedBlocks n)
    (hkeys : ∀ e ∈ blockChanges n, ∃ e' ∈ blockChanges m, e'.1 = e.1) :
    WellFormedBlocks (l ++ n ++ r) := by
  obtain ⟨hlm, hr, hlmr⟩ := wellFormedBlocks_append.mp h
  obtain ⟨hl, -, hlm⟩ := wellFormedBlocks_append.mp hlm
  refine wellFormedBlocks_append.mpr ⟨wellFormedBlocks_append.mpr ⟨hl, hm, fun a ha b hb => ?_⟩,
    hr, fun a ha b hb => ?_⟩
  · obtain ⟨b', hb', hbb'⟩ := hkeys b hb
    exact hbb' ▸ hlm a ha b' hb'
  · rw [blockChanges_append] at ha hlmr
    rcases List.mem_append.mp ha with ha | ha
    · exact hlmr a (by simp [ha]) b hb
    · obtain ⟨a', ha', haa'⟩ := hkeys a ha
      exact haa' ▸ hlmr a' (by simp [ha']) b hb

/-- Some of the times of an increasing list are increasing. -/
theorem increasing_of_sublist {l r : List (Timestamp × ℤ)}
    (h : (l.map Prod.fst).Sublist (r.map Prod.fst)) (hr : Increasing r) : Increasing l :=
  List.pairwise_map.mp ((List.pairwise_map.mpr hr).sublist h)

/-! ## Searching a boundary -/

/-- Binary search, read on the change points. -/
theorem SlackBlock.binarySearch_eq (b : SlackBlock) (t : Timestamp) :
    b.binarySearch t =
      match b.changes[(b.changes.takeWhile fun e => decide (e.1 < t)).length]? with
      | some e =>
        if e.1 = t then .ok (b.changes.takeWhile fun e => decide (e.1 < t)).length
        else .error (b.changes.takeWhile fun e => decide (e.1 < t)).length
      | none => .error (b.changes.takeWhile fun e => decide (e.1 < t)).length := by
  have hlen : (b.changes.takeWhile fun e => decide (e.1 < t)).length =
      (b.points.takeWhile fun p => decide (p.timestamp < t)).length := by
    rw [changes, List.takeWhile_map, List.length_map]
    rfl
  rw [hlen, binarySearch, changes, List.getElem?_map]
  cases b.points[(b.points.takeWhile fun p => decide (p.timestamp < t)).length]? <;> rfl

/-- Cutting an increasing list at a timestamp that it does not have. -/
theorem exists_cut {l : List (Timestamp × ℤ)} (hl : Increasing l) {t : Timestamp}
    (ht : ∀ e ∈ l, e.1 ≠ t) :
    ∃ l₁ l₂, l = l₁ ++ l₂ ∧ (∀ e ∈ l₁, e.1 < t) ∧ (∀ e ∈ l₂, t < e.1) ∧
      l.takeWhile (fun e => decide (e.1 < t)) = l₁ := by
  refine ⟨l.takeWhile fun e => decide (e.1 < t), l.dropWhile fun e => decide (e.1 < t),
    List.takeWhile_append_dropWhile.symm, fun e he => ?_, fun e he => ?_, rfl⟩
  · exact of_decide_eq_true (List.all_eq_true.mp List.all_takeWhile e he)
  · have hinc : Increasing (l.dropWhile fun e => decide (e.1 < t)) :=
      hl.sublist (List.dropWhile_sublist _)
    cases hr : l.dropWhile fun e => decide (e.1 < t) with
    | nil => simp [hr] at he
    | cons a r =>
      have hat : t < a.1 := by
        have := List.head?_dropWhile_not (fun e : Timestamp × ℤ => decide (e.1 < t)) l
        rw [hr] at this
        have hmem : a ∈ l := (List.dropWhile_sublist _).subset (hr ▸ List.mem_cons_self)
        exact lt_of_le_of_ne (not_lt.mp (by simpa using this)) (Ne.symm (ht a hmem))
      rw [hr] at he hinc
      rcases List.mem_cons.mp he with rfl | he
      · exact hat
      · exact hat.trans ((List.pairwise_cons.mp hinc).1 e he)

/-- The search finds the index of a change point. -/
theorem SlackBlock.binarySearch_of_mem {b : SlackBlock} {l r : List (Timestamp × ℤ)}
    {t : Timestamp} {x : ℤ} (hinc : Increasing b.changes) (hb : b.changes = l ++ (t, x) :: r) :
    b.binarySearch t = .ok l.length := by
  have hl : ∀ e ∈ l, decide (e.1 < t) = true := by
    rw [hb] at hinc
    exact fun e he => decide_eq_true ((List.pairwise_append.mp hinc).2.2 e he (t, x) (by simp))
  have htake : b.changes.takeWhile (fun e => decide (e.1 < t)) = l := by
    rw [hb, List.takeWhile_append_of_pos hl, List.takeWhile_cons_of_neg (by simp), List.append_nil]
  rw [binarySearch_eq, htake, hb]
  simp

/-- The search for an absent timestamp gives the place to insert it. -/
theorem SlackBlock.binarySearch_of_not_mem {b : SlackBlock} {l r : List (Timestamp × ℤ)}
    {t : Timestamp} (hb : b.changes = l ++ r) (hl : ∀ e ∈ l, e.1 < t) (hr : ∀ e ∈ r, t < e.1) :
    b.binarySearch t = .error l.length := by
  have htake : b.changes.takeWhile (fun e => decide (e.1 < t)) = l := by
    rw [hb, List.takeWhile_append_of_pos fun e he => decide_eq_true (hl e he)]
    cases r with
    | nil => simp
    | cons a r => rw [List.takeWhile_cons_of_neg (by simpa using (hr a (by simp)).le), List.append_nil]
  rw [binarySearch_eq, htake, hb]
  cases r with
  | nil => simp
  | cons a r => simp [(hr a (by simp)).ne']

namespace SlackTimeline

/-- A timestamp with a change point is found, in its block. -/
theorem findExactPoint_at {l r : List SlackBlock} {b : SlackBlock} {lb rb : List (Timestamp × ℤ)}
    {t : Timestamp} {x : ℤ} (h : WellFormedBlocks (l ++ b :: r))
    (hb : b.changes = lb ++ (t, x) :: rb) :
    findExactPoint ⟨l ++ b :: r⟩ t = some (l.length, lb.length) := by
  obtain ⟨hl, hbr, hlb⟩ := wellFormedBlocks_append.mp h
  obtain ⟨⟨hne, -, hinc⟩, hr, hbrc⟩ := wellFormedBlocks_cons.mp hbr
  have htb : (t, x) ∈ b.changes := by simp [hb]
  have hlstart : ∀ a ∈ l, SlackBlock.startsBy t a = true := by
    intro a ha
    obtain ⟨p, ps, hp⟩ := List.exists_cons_of_ne_nil (hl.nonempty a ha)
    refine SlackBlock.startsBy_iff.mpr ⟨p, ps, hp, le_of_lt ?_⟩
    refine hlb (p.timestamp, p.slack.val + a.slackDelta.val) ?_ (t, x) ?_
    · exact mem_blockChanges.mpr ⟨a, ha, by simp [SlackBlock.changes, hp]⟩
    · exact mem_blockChanges.mpr ⟨b, by simp, htb⟩
  have hbstart : SlackBlock.startsBy t b = true := by
    obtain ⟨p, ps, hp⟩ := List.exists_cons_of_ne_nil hne
    exact SlackBlock.startsBy_iff.mpr ⟨p, ps, hp, b.le_of_head hinc (by rw [hp]; rfl) _ htb⟩
  have htake : (l ++ b :: r).takeWhile (SlackBlock.startsBy t) = l ++ [b] := by
    rw [List.takeWhile_append_of_pos hlstart, List.takeWhile_cons_of_pos hbstart]
    cases r with
    | nil => rfl
    | cons c r =>
      rw [List.takeWhile_cons_of_neg]
      rw [SlackBlock.startsBy_iff]
      rintro ⟨p, ps, hp, hpt⟩
      refine hpt.not_gt (hbrc (t, x) htb (p.timestamp, p.slack.val + c.slackDelta.val) ?_)
      exact mem_blockChanges.mpr ⟨c, by simp, by simp [SlackBlock.changes, hp]⟩
  rw [findExactPoint, htake]
  simp [SlackBlock.binarySearch_of_mem hinc hb]

/-- Every change point lies in one of the blocks. -/
theorem exists_block {blocks : List SlackBlock} {e : Timestamp × ℤ} (he : e ∈ blockChanges blocks) :
    ∃ l b r lb rb, blocks = l ++ b :: r ∧ b.changes = lb ++ e :: rb := by
  obtain ⟨b, hb, heb⟩ := mem_blockChanges.mp he
  obtain ⟨l, r, rfl⟩ := List.append_of_mem hb
  obtain ⟨lb, rb, hlb⟩ := List.append_of_mem heb
  exact ⟨l, b, r, lb, rb, rfl, hlb⟩

/-- A timestamp without a change point is not found. -/
theorem findExactPoint_of_not_mem {tl : SlackTimeline} (h : tl.WellFormed) {t : Timestamp}
    (ht : ∀ e ∈ tl.changes, e.1 ≠ t) : tl.findExactPoint t = none := by
  rcases h.split t with ⟨hnil, -⟩ | ⟨l, b, r, hblocks, htake, -, -⟩
  · simp [findExactPoint, hnil]
  · have hwf : WellFormedBlocks tl.blocks := h
    obtain ⟨-, hbr, -⟩ := wellFormedBlocks_append.mp (hblocks ▸ hwf)
    obtain ⟨⟨-, -, hinc⟩, -, -⟩ := wellFormedBlocks_cons.mp hbr
    have htb : ∀ e ∈ b.changes, e.1 ≠ t := fun e he =>
      ht e (mem_blockChanges.mpr ⟨b, by simp [hblocks], he⟩)
    obtain ⟨lb, rb, hb, hlt, hgt, -⟩ := exists_cut hinc htb
    rw [findExactPoint, htake, hblocks]
    simp [SlackBlock.binarySearch_of_not_mem hb hlt hgt]

/-! ## Inserting a boundary -/

/-- An insertion at the length of a part goes behind it. -/
theorem insertIdx_length_append {α : Type*} (l r : List α) (a : α) :
    (l ++ r).insertIdx l.length a = l ++ a :: r := by
  induction l with
  | nil => rfl
  | cons b l ih => simpa using ih

/-- Without a delta a block changes where its points do. -/
theorem changes_zeroDelta (points : List SlackPoint) (mn mx : Option Slack) :
    (SlackBlock.mk points mn mx ⟨0, by decide⟩).changes = changesOf points := by
  simp [SlackBlock.changes, changesOf, SlackPoint.change]

/-- Without a delta the slack of a block is in range. -/
theorem representable_zeroDelta (points : List SlackPoint) (mn mx : Option Slack) :
    (SlackBlock.mk points mn mx ⟨0, by decide⟩).Representable := by
  intro e he
  rw [changes_zeroDelta] at he
  obtain ⟨p, -, rfl⟩ := List.mem_map.mp he
  exact isSlack_val p.slack

/-- No block holds more points than it may. -/
def Sized (blocks : List SlackBlock) : Prop :=
  ∀ b ∈ blocks, b.points.length ≤ maxPointsPerBlock

/-- Two parts keep the size limit if both do. -/
theorem sized_append {l r : List SlackBlock} : Sized (l ++ r) ↔ Sized l ∧ Sized r :=
  List.forall_mem_append

/-- A first block and the rest keep the size limit if both do. -/
theorem sized_cons {b : SlackBlock} {r : List SlackBlock} :
    Sized (b :: r) ↔ b.points.length ≤ maxPointsPerBlock ∧ Sized r := List.forall_mem_cons

/-- Splitting an oversized block keeps all change points. -/
theorem splitOversizedBlock_spec {l r : List SlackBlock} {b : SlackBlock}
    (h : WellFormedBlocks (l ++ b :: r)) :
    ∃ blocks, splitOversizedBlock l.length ⟨l ++ b :: r⟩ = .ok ⟨⟩ ⟨blocks⟩ ∧
      WellFormedBlocks blocks ∧ blockChanges blocks = blockChanges (l ++ b :: r) ∧
      (Sized l → b.points.length ≤ maxPointsPerBlock + 1 → Sized r → Sized blocks) := by
  rw [splitOversizedBlock, EStateM.bind_of_ok (getBlock_at l b r)]
  by_cases hlen : b.points.length ≤ maxPointsPerBlock
  · rw [if_pos hlen]
    exact ⟨_, rfl, h, rfl, fun hl _ hr => sized_append.mpr ⟨hl, sized_cons.mpr ⟨hlen, hr⟩⟩⟩
  · rw [if_neg hlen]
    rw [maxPointsPerBlock] at hlen
    obtain ⟨hl, hbr, hlb⟩ := wellFormedBlocks_append.mp h
    obtain ⟨⟨hne, hex, hinc⟩, hr, hbr'⟩ := wellFormedBlocks_cons.mp hbr
    obtain ⟨points, hmat, hc⟩ := SlackBlock.materializeDelta_spec hex.representable
    have hplen : points.length = b.points.length := by
      rw [← changesOf_length, hc, SlackBlock.length_changes]
    -- the left half gets new aggregates, the right half becomes a block of its own
    obtain ⟨left, hleft, hlp, -, hlc, hlex⟩ := SlackBlock.recomputeAggregates_spec
      (representable_zeroDelta (points.take (points.length / 2)) b.minimumSlack b.maximumSlack)
    rw [changes_zeroDelta] at hlc
    have hpinc : Increasing (changesOf points) := hc ▸ hinc
    have hrinc : Increasing (changesOf (points.drop (points.length / 2))) :=
      hpinc.sublist ((List.drop_sublist _ _).map _)
    have hlinc : Increasing (changesOf (points.take (points.length / 2))) :=
      hpinc.sublist ((List.take_sublist _ _).map _)
    have hcut : left.changes ++ changesOf (points.drop (points.length / 2)) = b.changes := by
      rw [hlc, ← changesOf_append, List.take_append_drop, hc]
    refine ⟨l ++ [left, .ofPoints (points.drop (points.length / 2))] ++ r, ?_, ?_, ?_, ?_⟩
    · rw [EStateM.bind_of_ok (updateBlock_at hmat), EStateM.bind_of_ok (getBlock_at _ _ _)]
      rw [EStateM.bind_of_ok (updateBlock_map_at _ _ _ fun b =>
          { b with points := b.points.take (points.length / 2) }),
        EStateM.bind_of_ok (updateBlock_at hleft),
        SlackBlock.fromSortedPointsPreservingBoundaries_eq hrinc,
        EStateM.bind_of_ok (EStateM.ofExcept_ok _ _), EStateM.modify_apply]
      congr 2
      have := insertIdx_length_append (l ++ [left]) r
        (SlackBlock.ofPoints (points.drop (points.length / 2)))
      simpa using this
    · refine WellFormedBlocks.replace (m := [b]) (by simpa using h) ?_ ?_
      · refine wellFormedBlocks_cons.mpr ⟨⟨?_, hlex, hlc ▸ hlinc⟩,
          wellFormedBlocks_singleton.mpr ⟨?_, SlackBlock.ofPoints_exact _, ?_⟩, ?_⟩
        · rw [hlp]
          exact List.ne_nil_of_length_pos (by rw [List.length_take]; omega)
        · exact List.ne_nil_of_length_pos (by
            rw [SlackBlock.ofPoints, List.length_drop]
            omega)
        · rw [changes_ofPoints]
          exact hrinc
        · rw [blockChanges_cons, blockChanges_nil, List.append_nil, changes_ofPoints]
          rw [← hcut] at hinc
          exact (List.pairwise_append.mp hinc).2.2
      · intro e he
        refine ⟨e, ?_, rfl⟩
        simpa [changes_ofPoints, ← hcut] using he
    · simp [changes_ofPoints, ← hcut]
    · intro hl hb hr
      rw [maxPointsPerBlock] at hb
      refine sized_append.mpr ⟨sized_append.mpr ⟨hl, sized_cons.mpr ⟨?_, sized_cons.mpr ⟨?_, ?_⟩⟩⟩, hr⟩
      · rw [hlp, List.length_take, maxPointsPerBlock]
        omega
      · rw [SlackBlock.ofPoints, List.length_drop, maxPointsPerBlock]
        omega
      · exact fun b hb => absurd hb List.not_mem_nil

/-- Blocks stay well formed when a point is inserted into one of them. -/
theorem wellFormedBlocks_insertPoint {l r : List SlackBlock} {b b' : SlackBlock}
    {lb rb : List (Timestamp × ℤ)} {t : Timestamp} {v : ℤ} (h : WellFormedBlocks (l ++ b :: r))
    (hb : b.changes = lb ++ rb) (hb' : b'.changes = lb ++ (t, v) :: rb) (hex : b'.Exact)
    (hlt : ∀ e ∈ lb, e.1 < t) (hgt : ∀ e ∈ rb, t < e.1)
    (hl : ∀ e ∈ blockChanges l, e.1 < t) (hr : ∀ e ∈ blockChanges r, t < e.1) :
    WellFormedBlocks (l ++ b' :: r) := by
  obtain ⟨hlw, hbr, hlb⟩ := wellFormedBlocks_append.mp h
  obtain ⟨⟨-, -, hinc⟩, hrw, hbrc⟩ := wellFormedBlocks_cons.mp hbr
  have hinc' : Increasing b'.changes := by
    rw [hb']
    exact Increasing.insert (hb ▸ hinc) hlt hgt
  have hne : b'.points ≠ [] := by
    refine mt SlackBlock.changes_eq_nil.mpr ?_
    rw [hb']
    exact List.append_ne_nil_of_right_ne_nil _ (List.cons_ne_nil _ _)
  have hcase : ∀ e ∈ b'.changes, e ∈ b.changes ∨ e.1 = t := by
    rw [hb', hb]
    intro e he
    rcases List.mem_append.mp he with he | he
    · exact .inl (by simp [he])
    · rcases List.mem_cons.mp he with rfl | he
      · exact .inr rfl
      · exact .inl (by simp [he])
  refine wellFormedBlocks_append.mpr ⟨hlw, wellFormedBlocks_cons.mpr
    ⟨⟨hne, hex, hinc'⟩, hrw, fun e he c hc => ?_⟩, fun e he c hc => ?_⟩
  · rcases hcase e he with he | rfl
    · exact hbrc e he c hc
    · exact hr c hc
  · rw [blockChanges_cons] at hc
    rcases List.mem_append.mp hc with hc | hc
    · rcases hcase c hc with hc | rfl
      · exact hlb e he c (by rw [blockChanges_cons]; exact List.mem_append_left _ hc)
      · exact hl e he
    · exact hlb e he c (by rw [blockChanges_cons]; exact List.mem_append_right _ hc)

/-- Inserting a point into the block that has room for its timestamp. -/
theorem insertBoundary_spec {l r : List SlackBlock} {b : SlackBlock} {t : Timestamp} {slack : Slack}
    (h : WellFormedBlocks (l ++ b :: r)) (ht : ∀ e ∈ blockChanges (l ++ b :: r), e.1 ≠ t)
    (hl : ∀ e ∈ blockChanges l, e.1 < t) (hr : ∀ e ∈ blockChanges r, t < e.1) :
    ∃ lc rc blocks,
      (do
        updateBlock l.length SlackBlock.materializeDelta
        updateBlock l.length fun block =>
          let pointIndex := match block.binarySearch t with
            | .ok index => index
            | .error index => index
          .ok { block with points := block.points.insertIdx pointIndex ⟨t, slack⟩ }
        updateBlock l.length SlackBlock.recomputeAggregates
        splitOversizedBlock l.length : Update Unit) ⟨l ++ b :: r⟩ = .ok ⟨⟩ ⟨blocks⟩ ∧
      WellFormedBlocks blocks ∧ blockChanges (l ++ b :: r) = lc ++ rc ∧
      blockChanges blocks = lc ++ (t, slack.val) :: rc ∧
      (∀ e ∈ lc, e.1 < t) ∧ (∀ e ∈ rc, t < e.1) ∧ (Sized (l ++ b :: r) → Sized blocks) := by
  obtain ⟨-, hbr, -⟩ := wellFormedBlocks_append.mp h
  obtain ⟨⟨-, hex, hinc⟩, -, -⟩ := wellFormedBlocks_cons.mp hbr
  obtain ⟨points, hmat, hc⟩ := SlackBlock.materializeDelta_spec hex.representable
  obtain ⟨lb, rb, hb, hlt, hgt, -⟩ := exists_cut hinc fun e he =>
    ht e (mem_blockChanges.mpr ⟨b, by simp, he⟩)
  obtain ⟨lp, rp, rfl, hlp, hrp⟩ := List.map_eq_append_iff.mp (hc.trans hb)
  replace hlp : changesOf lp = lb := hlp
  replace hrp : changesOf rp = rb := hrp
  -- the search in the materialized block finds the cut
  have hsearch : (SlackBlock.mk (lp ++ rp) b.minimumSlack b.maximumSlack ⟨0, by decide⟩).binarySearch
      t = .error lp.length := by
    rw [← changesOf_length lp, hlp]
    refine SlackBlock.binarySearch_of_not_mem ?_ hlt hgt
    rw [changes_zeroDelta, hc, hb]
  have hinsert : (lp ++ rp).insertIdx lp.length ⟨t, slack⟩ = lp ++ ⟨t, slack⟩ :: rp :=
    insertIdx_length_append _ _ _
  obtain ⟨b', hrec, hbp, -, hbc, hbex⟩ := SlackBlock.recomputeAggregates_spec
    (representable_zeroDelta (lp ++ ⟨t, slack⟩ :: rp) b.minimumSlack b.maximumSlack)
  have hbc' : b'.changes = lb ++ (t, slack.val) :: rb := by
    rw [hbc, changes_zeroDelta, changesOf_append, changesOf_cons, hlp, hrp]
    rfl
  obtain ⟨blocks, hsplit, hblocks, hchanges, hsized⟩ := splitOversizedBlock_spec
    (wellFormedBlocks_insertPoint h hb hbc' hbex hlt hgt hl hr)
  refine ⟨blockChanges l ++ lb, rb ++ blockChanges r, blocks, ?_, hblocks, ?_, ?_, ?_, ?_, ?_⟩
  · rw [EStateM.bind_of_ok (updateBlock_at hmat)]
    rw [EStateM.bind_of_ok (updateBlock_at (c := ⟨lp ++ ⟨t, slack⟩ :: rp, b.minimumSlack,
      b.maximumSlack, ⟨0, by decide⟩⟩) (by simp only [hsearch, hinsert]))]
    rw [EStateM.bind_of_ok (updateBlock_at hrec), hsplit]
  · simp [hb]
  · rw [hchanges]
    simp [hbc']
  · intro e he
    rcases List.mem_append.mp he with he | he
    · exact hl e he
    · exact hlt e he
  · intro e he
    rcases List.mem_append.mp he with he | he
    · exact hgt e he
    · exact hr e he
  · intro hs
    obtain ⟨hsl, hsbr⟩ := sized_append.mp hs
    obtain ⟨hsb, hsr⟩ := sized_cons.mp hsbr
    refine hsized hsl ?_ hsr
    rw [← SlackBlock.length_changes, hb, List.length_append] at hsb
    rw [← SlackBlock.length_changes, hbc', List.length_append, List.length_cons]
    omega

/-- What inserting a boundary does: there is a point at the timestamp, and no value changes. -/
structure Bounded (t : Timestamp) (tl tl' : SlackTimeline) : Prop where
  /-- The timeline can be read. -/
  wellFormed : tl'.WellFormed
  /-- It has the same slack. -/
  value : ∀ s, tl'.slackValue s = tl.slackValue s
  /-- There is a change point at the timestamp. -/
  mem : ∃ e ∈ tl'.changes, e.1 = t
  /-- The other change points stay, -/
  keep : ∀ e ∈ tl.changes, e ∈ tl'.changes
  /-- and the timeline too when the change point was there; otherwise it is new. -/
  inserted : ((∃ e ∈ tl.changes, e.1 = t) ∧ tl' = tl) ∨ ∃ lc rc, tl.changes = lc ++ rc ∧
    tl'.changes = lc ++ (t, tl.slackValue t) :: rc ∧ (∀ e ∈ lc, e.1 < t) ∧ ∀ e ∈ rc, t < e.1
  /-- Blocks do not grow beyond their bound. -/
  sized : Sized tl.blocks → Sized tl'.blocks

/-- A boundary is there afterwards, and nothing else changes. -/
theorem ensureBoundary_spec {tl : SlackTimeline} (h : tl.WellFormed) (t : Timestamp) :
    ∃ tl', ensureBoundary t tl = .ok ⟨⟩ tl' ∧ Bounded t tl tl' := by
  rw [ensureBoundary, EStateM.get_bind_apply]
  by_cases hmem : ∃ e ∈ tl.changes, e.1 = t
  · obtain ⟨⟨_, x⟩, he, rfl⟩ := hmem
    obtain ⟨l, b, r, lb, rb, hblocks, hb⟩ := exists_block he
    obtain ⟨blocks⟩ := tl
    obtain rfl : blocks = _ := hblocks
    rw [findExactPoint_at h hb]
    exact ⟨_, rfl, h, fun _ => rfl, ⟨_, he, rfl⟩, fun _ he => he, .inl ⟨⟨_, he, rfl⟩, rfl⟩, id⟩
  · have hnot : ∀ e ∈ tl.changes, e.1 ≠ t := fun e he het => hmem ⟨e, he, het⟩
    obtain ⟨slack, hslack, hval⟩ := slackAt_spec h t
    rw [findExactPoint_of_not_mem h hnot, if_neg (by simp), hslack,
      EStateM.bind_of_ok (EStateM.ofExcept_ok _ _)]
    obtain ⟨blocks⟩ := tl
    -- the block that gets the point is the last one that starts by `t`, or the first one
    have hblock : blocks ≠ [] → ∃ l b r, blocks = l ++ b :: r ∧
        min ((blocks.takeWhile (SlackBlock.startsBy t)).length - 1) (blocks.length - 1) = l.length ∧
        (∀ e ∈ blockChanges l, e.1 < t) ∧ ∀ e ∈ blockChanges r, t < e.1 := by
      intro hne
      rcases WellFormedBlocks.split h t with ⟨hnil, hlt⟩ | ⟨l, b, r, hblocks, htake, hstart, hlt⟩
      · obtain ⟨b, r, rfl⟩ := List.exists_cons_of_ne_nil hne
        refine ⟨[], b, r, rfl, by rw [hnil]; simp, by simp, fun e he => hlt e ?_⟩
        rw [blockChanges_cons]
        exact List.mem_append_right _ he
      · simp only at hblocks htake
        refine ⟨l, b, r, hblocks, ?_, ?_, hlt⟩
        · rw [htake, hblocks]
          simp
        · obtain ⟨p, ps, hp, hpt⟩ := SlackBlock.startsBy_iff.mp hstart
          have hwf : WellFormedBlocks (l ++ b :: r) := hblocks ▸ (h : WellFormedBlocks blocks)
          obtain ⟨-, -, hlb⟩ := wellFormedBlocks_append.mp hwf
          intro e he
          refine (hlb e he (p.timestamp, p.slack.val + b.slackDelta.val) ?_).trans_le hpt
          simp [SlackBlock.changes, hp]
    rcases eq_or_ne blocks [] with rfl | hne
    · have hinc : Increasing (changesOf [⟨t, slack⟩]) := List.pairwise_singleton _ _
      simp only [List.isEmpty_nil, if_true]
      rw [SlackBlock.fromSortedPointsPreservingBoundaries_eq hinc,
        EStateM.bind_of_ok (EStateM.ofExcept_ok _ _)]
      have h₀ : slack.val = 0 := hval
      refine ⟨_, rfl, ?_, fun s => ?_, ?_, ?_, .inr ⟨[], [], rfl, ?_, by simp, by simp⟩, fun _ => ?_⟩
      · exact wellFormedBlocks_singleton.mpr ⟨by simp [SlackBlock.ofPoints],
          SlackBlock.ofPoints_exact _, by rw [changes_ofPoints]; exact hinc⟩
      · simp [slackValue, changes, changes_ofPoints, SlackPoint.change, h₀]
      · exact ⟨(t, slack.val), by simp [changes, changes_ofPoints, SlackPoint.change], rfl⟩
      · simp [changes]
      · simp [slackValue, changes, changes_ofPoints, SlackPoint.change, h₀]
      · exact sized_cons.mpr ⟨by simp [SlackBlock.ofPoints, maxPointsPerBlock], fun b hb => by
          simp at hb⟩
    · obtain ⟨l, b, r, rfl, hindex, hl, hr⟩ := hblock hne
      obtain ⟨lc, rc, blocks', hrun, hwf, hsplit, hchanges, hlc, hrc, hsized⟩ :=
        insertBoundary_spec h hnot hl hr
      have hempty : (l ++ b :: r).isEmpty = false := by cases l <;> rfl
      simp only [hempty, Bool.false_eq_true, if_false, hindex]
      refine ⟨⟨blocks'⟩, hrun, hwf, fun s => ?_, ⟨(t, slack.val), ?_, rfl⟩, fun e he => ?_,
        .inr ⟨lc, rc, hsplit, hval ▸ hchanges, hlc, hrc⟩, hsized⟩
      · have hv : slack.val = valueAt 0 (lc ++ rc) t := by
          rw [hval, slackValue, changes, hsplit]
        rw [slackValue, slackValue, changes, changes, hchanges, hsplit, hv]
        exact valueAt_insert (fun e he => (hlc e he).le) hrc s
      · simp [changes, hchanges]
      · simp only [changes, hchanges, hsplit] at he ⊢
        rcases List.mem_append.mp he with he | he
        · simp [he]
        · simp [he]

/-! ## Shifting between two boundaries -/

end SlackTimeline

/-- Blocks rewritten to blocks that stand for given change points, with no new timestamps. -/
structure Rewrites (blocks blocks' : List SlackBlock) (target : List (Timestamp × ℤ)) : Prop where
  /-- No new block is empty. -/
  nonempty : ∀ b ∈ blocks', b.points ≠ []
  /-- The new blocks are exact. -/
  exact : ∀ b ∈ blocks', b.Exact
  /-- They stand for the target. -/
  same : Same (blockChanges blocks') target
  /-- They have no new timestamps. -/
  keys : ((blockChanges blocks').map Prod.fst).Sublist ((blockChanges blocks).map Prod.fst)

/-- Blocks are rewritten to themselves. -/
theorem Rewrites.refl {blocks : List SlackBlock} (h : WellFormedBlocks blocks) :
    Rewrites blocks blocks (blockChanges blocks) :=
  ⟨h.nonempty, h.exact, .refl _, .refl _⟩

/-- Two parts are rewritten one after the other. -/
theorem Rewrites.append {l l' r r' : List SlackBlock} {lt rt : List (Timestamp × ℤ)}
    (hl : Rewrites l l' lt) (hr : Rewrites r r' rt) : Rewrites (l ++ r) (l' ++ r') (lt ++ rt) where
  nonempty b hb := (List.mem_append.mp hb).elim (hl.nonempty b) (hr.nonempty b)
  exact b hb := (List.mem_append.mp hb).elim (hl.exact b) (hr.exact b)
  same := by
    rw [blockChanges_append]
    exact hl.same.append hr.same
  keys := by
    simp only [blockChanges_append, List.map_append]
    exact hl.keys.append hr.keys

/-- What well formed blocks are rewritten to is well formed. -/
theorem Rewrites.wellFormed {blocks blocks' : List SlackBlock} {target : List (Timestamp × ℤ)}
    (h : Rewrites blocks blocks' target) (hw : WellFormedBlocks blocks) : WellFormedBlocks blocks' :=
  ⟨h.nonempty, h.exact, increasing_of_sublist h.keys hw.increasing⟩

/-- The lazy update of a block rewrites it to its shift. -/
theorem SlackBlock.rewrites_applyDelta {b : SlackBlock} {δ : Slack} (h : b.Exact)
    (hne : b.points ≠ []) (hδ : ∀ e ∈ b.changes, IsSlack (e.2 + δ.val)) :
    ∃ b', b.applyDelta δ = .ok b' ∧ Rewrites [b] [b'] (shift δ.val b.changes) ∧
      b'.changes = shift δ.val b.changes := by
  obtain ⟨b', hb', hc, hex⟩ := applyDelta_spec h hne hδ
  refine ⟨b', hb', ⟨?_, by simpa using hex, by simpa [hc] using Same.refl _,
    by simp [hc, map_fst_shift]⟩, hc⟩
  have : b'.changes ≠ [] := by
    rw [hc]
    simpa [shift] using mt SlackBlock.changes_eq_nil.mp hne
  simpa using mt SlackBlock.changes_eq_nil.mpr this

/-- The update of a range of points rewrites the block to the shift of the range, with repeated
values merged. -/
theorem SlackBlock.rewrites_range {b : SlackBlock} {δ : Slack} {l m r : List (Timestamp × ℤ)}
    (h : b.Exact) (hinc : Increasing b.changes) (hb : b.changes = l ++ m ++ r)
    (hδ : ∀ e ∈ m, IsSlack (e.2 + δ.val)) (hm : m ≠ []) :
    ∃ b', b.applyDeltaToPointRange l.length (l.length + m.length) δ = .ok b' ∧
      Rewrites [b] [b'] (l ++ shift δ.val m ++ r) ∧
      b'.changes = collapse (l ++ shift δ.val m ++ r) := by
  obtain ⟨b', hb', hc, hex, hne⟩ := applyDeltaToPointRange_spec h.representable hb hδ hm
  have hkeys : (l ++ shift δ.val m ++ r).map Prod.fst = b.changes.map Prod.fst := by
    simp only [hb, List.map_append, map_fst_shift]
  refine ⟨b', hb', ⟨by simpa using hne, by simpa using hex, ?_, ?_⟩, hc⟩
  · rw [blockChanges_cons, blockChanges_nil, List.append_nil, hc]
    exact same_collapse (Increasing.of_keys hkeys hinc)
  · rw [blockChanges_cons, blockChanges_nil, List.append_nil, blockChanges_cons, blockChanges_nil,
      List.append_nil, hc, ← hkeys]
    exact (collapse_sublist _).map _

/-- What shifting between two boundaries makes of a block that has none of them behind its first
point: all of its change points are shifted alike.  In any other block those that repeat a value
are merged. -/
def MayMerge (start stop : Timestamp) (b b' : SlackBlock) : Prop :=
  (∃ d, b'.changes = shift d b.changes ∧ ∀ c ∈ b.changes.tail, c.1 ≠ start ∧ c.1 ≠ stop) ∨
    ∃ target, target.map Prod.fst = b.changes.map Prod.fst ∧ b'.changes = collapse target

/-- Blocks without the boundaries are shifted alike. -/
theorem mayMerge_shift {start stop : Timestamp} {d : ℤ} {blocks blocks' : List SlackBlock}
    (h : ∀ c ∈ blockChanges blocks, c.1 ≠ start ∧ c.1 ≠ stop)
    (hs : List.Forall₂ (fun b b' => b'.changes = shift d b.changes) blocks blocks') :
    List.Forall₂ (MayMerge start stop) blocks blocks' := by
  induction hs with
  | nil => exact .nil
  | cons hb _ ih =>
    rw [blockChanges_cons] at h
    refine .cons (.inl ⟨d, hb, fun c hc => ?_⟩) (ih fun c hc => h c (List.mem_append_right _ hc))
    exact h c (List.mem_append_left _ (List.mem_of_mem_tail hc))

/-- Blocks without the boundaries may stay as they are. -/
theorem mayMerge_refl {start stop : Timestamp} {blocks : List SlackBlock}
    (h : ∀ c ∈ blockChanges blocks, c.1 ≠ start ∧ c.1 ≠ stop) :
    List.Forall₂ (MayMerge start stop) blocks blocks :=
  mayMerge_shift h (List.forall₂_same.mpr fun b _ => show b.changes = shift 0 b.changes by
    simp [shift])

namespace SlackTimeline

/-- The complete blocks in the middle are shifted one after the other. -/
theorem forM_applyDelta_spec {l m r : List SlackBlock} {δ : Slack} (h : WellFormedBlocks m)
    (hδ : ∀ e ∈ blockChanges m, IsSlack (e.2 + δ.val)) :
    ∃ m', forM (List.range' l.length m.length)
        (fun index => updateBlock index fun b => b.applyDelta δ) ⟨l ++ m ++ r⟩ =
          .ok ⟨⟩ ⟨l ++ m' ++ r⟩ ∧
      m'.length = m.length ∧ Rewrites m m' (shift δ.val (blockChanges m)) ∧
      List.Forall₂ (fun b b' => b'.changes = shift δ.val b.changes) m m' := by
  induction m generalizing l with
  | nil => exact ⟨[], rfl, rfl, Rewrites.refl h, .nil⟩
  | cons b m ih =>
    obtain ⟨⟨hne, hex, -⟩, hm, -⟩ := wellFormedBlocks_cons.mp h
    rw [blockChanges_cons] at hδ
    obtain ⟨b', hb', hrb, hcb⟩ :=
      SlackBlock.rewrites_applyDelta hex hne fun e he => hδ e (by simp [he])
    obtain ⟨m', hm', hlen, hrm, hcm⟩ := ih (l := l ++ [b']) hm fun e he => hδ e (by simp [he])
    refine ⟨b' :: m', ?_, by rw [List.length_cons, List.length_cons, hlen], ?_, .cons hcb hcm⟩
    · rw [List.length_cons, List.range'_succ, List.forM_cons, List.append_assoc, List.cons_append,
        EStateM.bind_of_ok (updateBlock_at hb')]
      simpa using hm'
    · rw [blockChanges_cons, shift_append]
      exact hrb.append hrm

/-- Adding a delta between two boundaries of one block. -/
theorem applyDeltaBetween_inside {l r : List SlackBlock} {b : SlackBlock} {δ : Slack}
    {lc mc rc : List (Timestamp × ℤ)} {s e : Timestamp} {x y : ℤ}
    (h : WellFormedBlocks (l ++ b :: r)) (hb : b.changes = lc ++ ((s, x) :: mc) ++ (e, y) :: rc)
    (hδ : ∀ c ∈ (s, x) :: mc, IsSlack (c.2 + δ.val)) :
    ∃ b', applyDeltaBetween (l.length, lc.length)
        (l.length, lc.length + ((s, x) :: mc).length) δ ⟨l ++ b :: r⟩ = .ok ⟨⟩ ⟨l ++ b' :: r⟩ ∧
      b'.changes = collapse (lc ++ shift δ.val ((s, x) :: mc) ++ (e, y) :: rc) ∧
      Rewrites (l ++ b :: r) (l ++ b' :: r)
        (blockChanges l ++ lc ++ shift δ.val ((s, x) :: mc) ++ ((e, y) :: rc ++ blockChanges r)) ∧
      List.Forall₂ (MayMerge s e) (l ++ b :: r) (l ++ b' :: r) := by
  obtain ⟨hl, hbr, hlb⟩ := wellFormedBlocks_append.mp h
  obtain ⟨⟨hne, hex, hinc⟩, hr, hbr⟩ := wellFormedBlocks_cons.mp hbr
  obtain ⟨b', hb', hrw, hbc⟩ := SlackBlock.rewrites_range hex hinc hb hδ (List.cons_ne_nil _ _)
  have hs : (s, x) ∈ b.changes := by simp [hb]
  have he : (e, y) ∈ b.changes := by simp [hb]
  refine ⟨b', ?_, hbc, ?_, ?_⟩
  · rw [applyDeltaBetween, if_pos rfl]
    exact updateBlock_at hb'
  · have := (Rewrites.refl hl).append (hrw.append (Rewrites.refl hr))
    simpa using this
  · refine List.rel_append (mayMerge_refl fun c hc => ?_) (.cons (.inr ⟨_, ?_, hbc⟩)
      (mayMerge_refl fun c hc => ?_))
    · rw [blockChanges_cons] at hlb
      exact ⟨(hlb c hc _ (List.mem_append_left _ hs)).ne, (hlb c hc _ (List.mem_append_left _ he)).ne⟩
    · simp only [hb, List.map_append, map_fst_shift]
    · exact ⟨(hbr _ hs c hc).ne', (hbr _ he c hc).ne'⟩

/-- A block is shifted from one of its change points on: as a whole if that is its first one. -/
theorem rewrites_from {b : SlackBlock} {δ : Slack} {l m : List (Timestamp × ℤ)} {s e : Timestamp}
    {x : ℤ} (hwf : WellFormedBlocks [b]) (hb : b.changes = l ++ (s, x) :: m)
    (hδ : ∀ a ∈ (s, x) :: m, IsSlack (a.2 + δ.val)) (he : ∀ a ∈ b.changes, a.1 < e) :
    ∃ b', (if l.length = 0 then b.applyDelta δ
        else b.applyDeltaToPointRange l.length b.points.length δ) = .ok b' ∧
      Rewrites [b] [b'] (l ++ shift δ.val ((s, x) :: m)) ∧ MayMerge s e b b' := by
  obtain ⟨hne, hex, hinc⟩ := wellFormedBlocks_singleton.mp hwf
  by_cases hl : l.length = 0
  · obtain rfl := List.length_eq_zero_iff.mp hl
    rw [List.nil_append] at hb
    obtain ⟨b', hb', hrw, hbc⟩ := SlackBlock.rewrites_applyDelta (δ := δ) hex hne fun a ha =>
      hδ a (by rwa [hb] at ha)
    refine ⟨b', by rw [if_pos hl, hb'], by simpa [hb] using hrw, .inl ⟨_, hbc, fun a ha => ?_⟩⟩
    rw [hb, List.tail_cons] at ha
    have hlater := he a (by rw [hb]; exact List.mem_cons_of_mem _ ha)
    rw [hb] at hinc
    exact ⟨((List.pairwise_cons.mp hinc).1 a ha).ne', hlater.ne⟩
  · have hlen : b.points.length = l.length + ((s, x) :: m).length := by
      rw [← b.length_changes, hb, List.length_append]
    obtain ⟨b', hb', hrw, hbc⟩ := SlackBlock.rewrites_range (δ := δ) (m := (s, x) :: m) (r := [])
      hex hinc (by simpa using hb) hδ (List.cons_ne_nil _ _)
    refine ⟨b', by rw [if_neg hl, hlen, hb'], by simpa using hrw, .inr ⟨_, ?_, hbc⟩⟩
    simp only [hb, List.map_append, map_fst_shift, List.append_nil]

/-- A block is shifted up to one of its change points: not at all if that is its first one. -/
theorem rewrites_upTo {c : SlackBlock} {δ : Slack} {m r : List (Timestamp × ℤ)} {s e : Timestamp}
    {y : ℤ} (hwf : WellFormedBlocks [c]) (hc : c.changes = m ++ (e, y) :: r)
    (hδ : ∀ a ∈ m, IsSlack (a.2 + δ.val)) (hs : ∀ a ∈ c.changes, s < a.1) :
    ∃ c', (m.length > 0 → c.applyDeltaToPointRange 0 m.length δ = .ok c') ∧
      (m.length = 0 → c' = c) ∧ Rewrites [c] [c'] (shift δ.val m ++ (e, y) :: r) ∧
      MayMerge s e c c' := by
  obtain ⟨-, hex, hinc⟩ := wellFormedBlocks_singleton.mp hwf
  by_cases hm : m.length = 0
  · obtain rfl := List.length_eq_zero_iff.mp hm
    rw [List.nil_append] at hc
    refine ⟨c, by simp, by simp, ?_, .inl ⟨0, by simp [shift], fun a ha => ?_⟩⟩
    · simpa [hc] using Rewrites.refl hwf
    · rw [hc, List.tail_cons] at ha
      have hlater := hs a (by rw [hc]; exact List.mem_cons_of_mem _ ha)
      rw [hc] at hinc
      exact ⟨hlater.ne', ((List.pairwise_cons.mp hinc).1 a ha).ne'⟩
  · obtain ⟨c', hc', hrw, hcc⟩ := SlackBlock.rewrites_range (δ := δ) (l := []) (m := m)
      (r := (e, y) :: r) hex hinc (by simpa using hc) hδ fun hnil => hm (by simp [hnil])
    refine ⟨c', fun _ => by simpa using hc', fun h => absurd h hm, by simpa using hrw,
      .inr ⟨_, ?_, hcc⟩⟩
    simp only [hc, List.map_append, map_fst_shift, List.nil_append]

/-- Of the blocks between two boundaries only those of the boundaries may be merged. -/
theorem mayMerge_across {l m m' r : List SlackBlock} {b b' c c' : SlackBlock} {δ : ℤ}
    {s e : Timestamp} {x y : ℤ} (h : WellFormedBlocks (l ++ b :: m ++ c :: r))
    (hs : (s, x) ∈ b.changes) (he : (e, y) ∈ c.changes) (hb : MayMerge s e b b')
    (hm : List.Forall₂ (fun a a' => a'.changes = shift δ a.changes) m m')
    (hc : MayMerge s e c c') :
    List.Forall₂ (MayMerge s e) (l ++ b :: m ++ c :: r) (l ++ b' :: m' ++ c' :: r) := by
  obtain ⟨hlbm, hcr, hlbmc⟩ := wellFormedBlocks_append.mp h
  obtain ⟨-, hbm, hlb⟩ := wellFormedBlocks_append.mp hlbm
  obtain ⟨-, -, hbm'⟩ := wellFormedBlocks_cons.mp hbm
  obtain ⟨-, -, hcr'⟩ := wellFormedBlocks_cons.mp hcr
  have hs' : (s, x) ∈ blockChanges (b :: m) := by
    rw [blockChanges_cons]
    exact List.mem_append_left _ hs
  have he' : (e, y) ∈ blockChanges (c :: r) := by
    rw [blockChanges_cons]
    exact List.mem_append_left _ he
  have hse : s < e := hlbmc (s, x) (by rw [blockChanges_append]; exact List.mem_append_right _ hs')
    (e, y) he'
  rw [List.append_assoc, List.append_assoc]
  refine List.rel_append (mayMerge_refl fun a ha => ?_) (.cons hb (List.rel_append
    (mayMerge_shift (fun a ha => ?_) hm) (.cons hc (mayMerge_refl fun a ha => ?_))))
  · have hbefore : a.1 < s := hlb a ha (s, x) hs'
    exact ⟨hbefore.ne, (hbefore.trans hse).ne⟩
  · have hafter : s < a.1 := hbm' (s, x) hs a ha
    have hbefore : a.1 < e := hlbmc a (by simp [ha]) (e, y) he'
    exact ⟨hafter.ne', hbefore.ne⟩
  · have hafter : e < a.1 := hcr' (e, y) he a ha
    exact ⟨(hse.trans hafter).ne', hafter.ne'⟩

/-- The update between two blocks is the updates of the blocks one after the other. -/
theorem applyDeltaBetween_run {l m m' r : List SlackBlock} {b b' c c' : SlackBlock} {δ : Slack}
    {start stop : Nat}
    (hb : (if start = 0 then b.applyDelta δ
      else b.applyDeltaToPointRange start b.points.length δ) = .ok b')
    (hm : forM (List.range' (l ++ [b']).length m.length)
      (fun index => updateBlock index fun a => a.applyDelta δ) ⟨l ++ [b'] ++ m ++ c :: r⟩ =
        .ok ⟨⟩ ⟨l ++ [b'] ++ m' ++ c :: r⟩)
    (hlen : m'.length = m.length)
    (hc : stop > 0 → c.applyDeltaToPointRange 0 stop δ = .ok c') (hc' : stop = 0 → c' = c) :
    applyDeltaBetween (l.length, start) ((l ++ b :: m).length, stop) δ
      ⟨l ++ b :: m ++ c :: r⟩ = .ok ⟨⟩ ⟨l ++ b' :: m' ++ c' :: r⟩ := by
  have hne : ¬l.length = (l ++ b :: m).length := by simp
  have hcount : (l ++ b :: m).length - (l.length + 1) = m.length := by
    rw [List.length_append, List.length_cons]
    omega
  have hget := getBlock_at l b (m ++ c :: r)
  have hfirst := updateBlock_at (l := l) (r := m ++ c :: r) (f := fun a => if start = 0 then
    a.applyDelta δ else a.applyDeltaToPointRange start b.points.length δ) hb
  simp only [List.append_assoc, List.cons_append, List.nil_append] at hm ⊢
  rw [applyDeltaBetween, if_neg hne, EStateM.bind_of_ok hget, EStateM.bind_of_ok hfirst, hcount]
  rw [List.length_append, List.length_singleton] at hm
  rw [EStateM.bind_of_ok hm]
  have hlen' : (l ++ b :: m).length = (l ++ b' :: m').length := by
    rw [List.length_append, List.length_append, List.length_cons, List.length_cons, hlen]
  by_cases hstop : stop > 0
  · rw [if_pos hstop, hlen']
    have hlast := updateBlock_at (l := l ++ b' :: m') (r := r)
      (f := fun a => a.applyDeltaToPointRange 0 stop δ) (hc hstop)
    simpa using hlast
  · obtain rfl := hc' (by omega)
    rw [if_neg hstop]
    rfl

/-- Adding a delta from a boundary of one block to a boundary of a later one. -/
theorem applyDeltaBetween_across {l m r : List SlackBlock} {b c : SlackBlock} {δ : Slack}
    {lb mb mc rc : List (Timestamp × ℤ)} {s e : Timestamp} {x y : ℤ}
    (h : WellFormedBlocks (l ++ b :: m ++ c :: r))
    (hb : b.changes = lb ++ (s, x) :: mb) (hc : c.changes = mc ++ (e, y) :: rc)
    (hδ : ∀ a ∈ (s, x) :: mb ++ blockChanges m ++ mc, IsSlack (a.2 + δ.val)) :
    ∃ blocks, applyDeltaBetween (l.length, lb.length) ((l ++ b :: m).length, mc.length) δ
        ⟨l ++ b :: m ++ c :: r⟩ = .ok ⟨⟩ ⟨blocks⟩ ∧
      Rewrites (l ++ b :: m ++ c :: r) blocks
        (blockChanges l ++ lb ++ shift δ.val ((s, x) :: mb ++ blockChanges m ++ mc) ++
          ((e, y) :: rc ++ blockChanges r)) ∧
      List.Forall₂ (MayMerge s e) (l ++ b :: m ++ c :: r) blocks := by
  obtain ⟨hlbm, hcr, hlbmc⟩ := wellFormedBlocks_append.mp h
  obtain ⟨hl, hbm, -⟩ := wellFormedBlocks_append.mp hlbm
  obtain ⟨hwfb, hm, -⟩ := wellFormedBlocks_cons.mp hbm
  obtain ⟨hwfc, hr, -⟩ := wellFormedBlocks_cons.mp hcr
  have hs : (s, x) ∈ b.changes := by simp [hb]
  have he : (e, y) ∈ c.changes := by simp [hc]
  have hbefore : ∀ a ∈ b.changes, a.1 < e := fun a ha =>
    hlbmc a (by simp [ha]) (e, y) (by simp [he])
  have hafter : ∀ a ∈ c.changes, s < a.1 := fun a ha =>
    hlbmc (s, x) (by simp [hs]) a (by simp [ha])
  obtain ⟨b', hb', hrb, hmb⟩ := rewrites_from (δ := δ) (wellFormedBlocks_singleton.mpr hwfb) hb
    (fun a ha => hδ a (List.mem_append_left _ (List.mem_append_left _ ha))) hbefore
  obtain ⟨m', hm', hmlen, hrm, hcm⟩ := forM_applyDelta_spec (l := l ++ [b']) (r := c :: r) (δ := δ)
    hm fun a ha => hδ a (List.mem_append_left _ (List.mem_append_right _ ha))
  obtain ⟨c', hc', hstays, hrc, hmc⟩ := rewrites_upTo (δ := δ) (wellFormedBlocks_singleton.mpr hwfc)
    hc (fun a ha => hδ a (List.mem_append_right _ ha)) hafter
  refine ⟨l ++ b' :: m' ++ c' :: r, applyDeltaBetween_run hb' hm' hmlen hc' hstays, ?_,
    mayMerge_across h hs he hmb hcm hmc⟩
  have hall := (Rewrites.refl hl).append (hrb.append (hrm.append (hrc.append (Rewrites.refl hr))))
  simpa using hall

/-- What shifting the change points between two boundaries means for the slack. -/
theorem slackValue_of_rewrites {blocks blocks' : List SlackBlock} {i : Interval} {δ x y : ℤ}
    {lc mc rc : List (Timestamp × ℤ)} (h : WellFormedBlocks blocks)
    (hc : blockChanges blocks = lc ++ ((i.start, x) :: mc) ++ (i.stop, y) :: rc)
    (hrw : Rewrites blocks blocks' (lc ++ shift δ ((i.start, x) :: mc) ++ (i.stop, y) :: rc))
    (t : Timestamp) :
    slackValue ⟨blocks'⟩ t = slackValue ⟨blocks⟩ t + if i.contains t then δ else 0 := by
  rw [slackValue, slackValue, changes, changes, hrw.same 0 t, hc,
    valueAt_shift_range (hc ▸ h.increasing)]
  simp only [Interval.contains_iff]

/-- Adding a delta between two boundaries adds it to the step function in between. -/
theorem applyDeltaBetween_spec {tl : SlackTimeline} (h : tl.WellFormed) {i : Interval} {δ : Slack}
    (hstart : ∃ e ∈ tl.changes, e.1 = i.start) (hstop : ∃ e ∈ tl.changes, e.1 = i.stop)
    (hδ : ∀ t, i.contains t = true → IsSlack (tl.slackValue t + δ.val)) :
    ∃ start stop tl', tl.findExactPoint i.start = some start ∧
      tl.findExactPoint i.stop = some stop ∧ applyDeltaBetween start stop δ tl = .ok ⟨⟩ tl' ∧
      tl'.WellFormed ∧ List.Forall₂ (MayMerge i.start i.stop) tl.blocks tl'.blocks ∧
      ∀ t, tl'.slackValue t = tl.slackValue t + if i.contains t then δ.val else 0 := by
  obtain ⟨blocks⟩ := tl
  obtain ⟨⟨s, x⟩, hs, rfl⟩ := hstart
  obtain ⟨⟨e, y⟩, he, hei⟩ := hstop
  obtain rfl : e = i.stop := hei
  obtain ⟨l, b, r, lb, rb, hblocks, hb⟩ := exists_block hs
  obtain rfl : blocks = l ++ b :: r := hblocks
  have hwf : WellFormedBlocks (l ++ b :: r) := h
  have hinc := hwf.increasing
  -- the values of the change points in between can be shifted
  have hshift : ∀ c ∈ blockChanges (l ++ b :: r), i.start ≤ c.1 → c.1 < i.stop →
      IsSlack (c.2 + δ.val) := by
    intro c hc h₁ h₂
    have := hδ c.1 (Interval.contains_iff.mpr ⟨h₁, h₂⟩)
    rwa [slackValue, changes, valueAt_self hinc hc] at this
  have hall : blockChanges (l ++ b :: r) =
      (blockChanges l ++ lb) ++ (i.start, x) :: (rb ++ blockChanges r) := by
    simp [hb]
  have he' : (i.stop, y) ∈ rb ++ blockChanges r := by
    rw [changes, hall] at he
    rw [hall] at hinc
    obtain ⟨-, -, hlt⟩ := List.pairwise_append.mp hinc
    rcases List.mem_append.mp he with he | he
    · exact absurd (hlt _ he (i.start, x) (by simp)) i.start_lt_stop.not_gt
    · rcases List.mem_cons.mp he with he | he
      · exact absurd (Prod.mk.inj he).1 i.start_lt_stop.ne'
      · exact he
  rcases List.mem_append.mp he' with he' | he'
  · -- both boundaries lie in the same block
    obtain ⟨mc, rc, rfl⟩ := List.append_of_mem he'
    have hb' : b.changes = (lb ++ (i.start, x) :: mc) ++ (i.stop, y) :: rc := by simp [hb]
    have hc : blockChanges (l ++ b :: r) = (blockChanges l ++ lb) ++ ((i.start, x) :: mc) ++
        (i.stop, y) :: (rc ++ blockChanges r) := by simp [hb]
    have hbetween : ∀ c ∈ (i.start, x) :: mc, IsSlack (c.2 + δ.val) := by
      intro c hcm
      obtain ⟨h₁, h₂⟩ := Increasing.between (hc ▸ hinc) hcm
      exact hshift c (hc ▸ List.mem_append_left _ (List.mem_append_right _ hcm)) h₁ h₂
    obtain ⟨b', hrun, -, hrw, hmerge⟩ := applyDeltaBetween_inside hwf hb' hbetween
    refine ⟨_, _, ⟨l ++ b' :: r⟩, findExactPoint_at hwf hb, findExactPoint_at hwf hb', ?_,
      hrw.wellFormed hwf, hmerge, fun t => ?_⟩
    · rw [List.length_append]
      exact hrun
    · exact slackValue_of_rewrites hwf hc (by simpa using hrw) t
  · -- the second boundary lies in a later block
    obtain ⟨m, c, r', mc, rc, rfl, hcc⟩ := exists_block he'
    have hc : blockChanges (l ++ b :: (m ++ c :: r')) = (blockChanges l ++ lb) ++
        ((i.start, x) :: (rb ++ blockChanges m ++ mc)) ++ (i.stop, y) :: (rc ++ blockChanges r') := by
      simp [hb, hcc]
    have hbetween : ∀ c ∈ (i.start, x) :: rb ++ blockChanges m ++ mc, IsSlack (c.2 + δ.val) := by
      intro c hcm
      have hcm' : c ∈ (i.start, x) :: (rb ++ blockChanges m ++ mc) := by simpa using hcm
      obtain ⟨h₁, h₂⟩ := Increasing.between (hc ▸ hinc) hcm'
      exact hshift c (hc ▸ List.mem_append_left _ (List.mem_append_right _ hcm')) h₁ h₂
    have hsplit : l ++ b :: (m ++ c :: r') = l ++ b :: m ++ c :: r' := by simp
    have hwf' : WellFormedBlocks (l ++ b :: m ++ c :: r') := hsplit ▸ hwf
    obtain ⟨blocks', hrun, hrw, hmerge⟩ := applyDeltaBetween_across hwf' hb hcc hbetween
    refine ⟨_, ((l ++ b :: m).length, mc.length), ⟨blocks'⟩, findExactPoint_at hwf hb, ?_, ?_,
      hrw.wellFormed hwf', hsplit ▸ hmerge, fun t => ?_⟩
    · rw [hsplit]
      exact findExactPoint_at hwf' hcc
    · rw [hsplit]
      exact hrun
    · exact slackValue_of_rewrites hwf hc (by simpa using hrw) t

/-! ## Normalization -/

/-- How much is left to do for the rebalancing loop, at most. -/
def rounds (blocks : List SlackBlock) : Nat := (blocks.map fun b => b.points.length + 1).sum

/-- The rounds of two parts add up. -/
theorem rounds_append (l r : List SlackBlock) : rounds (l ++ r) = rounds l + rounds r := by
  simp [rounds]

/-- A block takes a round for each of its points and one more. -/
theorem rounds_cons (b : SlackBlock) (r : List SlackBlock) :
    rounds (b :: r) = b.points.length + 1 + rounds r := by
  simp [rounds]

/-- There is at least one round for each block. -/
theorem length_le_rounds (blocks : List SlackBlock) : blocks.length ≤ rounds blocks := by
  induction blocks with
  | nil => simp
  | cons b r ih =>
    rw [rounds_cons, List.length_cons]
    omega

/-- Appending the next block merges repeated values and keeps the function. -/
theorem mergeWithNext_spec {l r : List SlackBlock} {a b : SlackBlock}
    (h : WellFormedBlocks (l ++ a :: b :: r)) :
    ∃ c, mergeWithNext l.length ⟨l ++ a :: b :: r⟩ = .ok ⟨⟩ ⟨l ++ c :: r⟩ ∧
      c.changes = collapse (a.changes ++ b.changes) ∧ WellFormedBlocks (l ++ c :: r) ∧
      Same (blockChanges (l ++ c :: r)) (blockChanges (l ++ a :: b :: r)) ∧
      rounds (l ++ c :: r) < rounds (l ++ a :: b :: r) := by
  obtain ⟨hl, habr, hlabr⟩ := wellFormedBlocks_append.mp h
  obtain ⟨⟨hane, haex, hainc⟩, hbr, habr⟩ := wellFormedBlocks_cons.mp habr
  obtain ⟨⟨hbne, hbex, hbinc⟩, hr, hbr'⟩ := wellFormedBlocks_cons.mp hbr
  obtain ⟨ap, hamat, hac⟩ := SlackBlock.materializeDelta_spec haex.representable
  obtain ⟨bp, hbmat, hbc⟩ := SlackBlock.materializeDelta_spec hbex.representable
  have hinc : Increasing (changesOf (ap ++ bp)) := by
    rw [changesOf_append, hac, hbc]
    exact List.pairwise_append.mpr ⟨hainc, hbinc, fun x hx y hy => habr x hx y (by simp [hy])⟩
  have hrw : Rewrites [a, b] [.ofPoints (dropRepeats none (ap ++ bp))] (blockChanges [a, b]) := by
    refine ⟨?_, ?_, ?_, ?_⟩
    · have : ap ++ bp ≠ [] := by
        intro hnil
        obtain ⟨rfl, -⟩ := List.append_eq_nil_iff.mp hnil
        exact hane (SlackBlock.changes_eq_nil.mp hac.symm)
      simpa [SlackBlock.ofPoints] using SlackBlock.dropRepeats_none_ne_nil this
    · simpa using SlackBlock.ofPoints_exact _
    · simp only [blockChanges_cons, blockChanges_nil, List.append_nil, changes_ofPoints, ← hac,
        ← hbc, ← changesOf_append]
      exact SlackBlock.same_dropRepeats hinc
    · simp only [blockChanges_cons, blockChanges_nil, List.append_nil, changes_ofPoints, ← hac,
        ← hbc, ← changesOf_append]
      exact ((SlackBlock.dropRepeats_sublist _ _).map _).map _
  have hwhole := (Rewrites.refl hl).append (hrw.append (Rewrites.refl hr))
  have hab : l ++ ([a, b] ++ r) = l ++ a :: b :: r := by simp
  rw [hab] at hwhole
  refine ⟨.ofPoints (dropRepeats none (ap ++ bp)), ?_, ?_, hwhole.wellFormed h, ?_, ?_⟩
  · rw [mergeWithNext, EStateM.bind_of_ok (getBlock_next l a b r),
      EStateM.bind_of_ok (EStateM.modify_apply _ _)]
    have herase : (l ++ a :: b :: r).eraseIdx (l.length + 1) = l ++ a :: r := by
      rw [List.eraseIdx_append_of_length_le (by omega)]
      simp
    rw [herase, EStateM.bind_of_ok (updateBlock_at hamat), hbmat,
      EStateM.bind_of_ok (EStateM.ofExcept_ok _ _),
      EStateM.bind_of_ok (updateBlock_map_at _ _ _ fun c => { c with points := c.points ++ bp })]
    exact updateBlock_at (f := fun c => SlackBlock.fromSortedPoints c.points)
      (SlackBlock.fromSortedPoints_eq hinc)
  · rw [changes_ofPoints, SlackBlock.changesOf_dropRepeats, changesOf_append, hac, hbc]
  · simpa using hwhole.same
  · have hlen := (SlackBlock.dropRepeats_sublist none (ap ++ bp)).length_le
    have hap : ap.length = a.points.length := by
      rw [← changesOf_length, hac, SlackBlock.length_changes]
    have hbp : bp.length = b.points.length := by
      rw [← changesOf_length, hbc, SlackBlock.length_changes]
    rw [List.length_append] at hlen
    simp only [rounds_append, rounds_cons, SlackBlock.ofPoints]
    omega

/-- Removing the first point of a block removes its first change point. -/
theorem dropPoint_spec {b : SlackBlock} (h : b.Exact) :
    ∃ points b', b.materializeDelta =
        .ok { b with points := points, slackDelta := ⟨0, by decide⟩ } ∧
      changesOf points = b.changes ∧
      SlackBlock.recomputeAggregates ⟨points.drop 1, b.minimumSlack, b.maximumSlack,
        ⟨0, by decide⟩⟩ = .ok b' ∧
      b'.points = points.drop 1 ∧ b'.changes = b.changes.drop 1 ∧ b'.Exact := by
  obtain ⟨points, hmat, hc⟩ := SlackBlock.materializeDelta_spec h.representable
  obtain ⟨b', hrec, hp, -, hbc, hex⟩ := SlackBlock.recomputeAggregates_spec
    (representable_zeroDelta (points.drop 1) b.minimumSlack b.maximumSlack)
  refine ⟨points, b', hmat, hc, hrec, hp, ?_, hex⟩
  rw [hbc, changes_zeroDelta, ← hc, changesOf, changesOf, List.map_drop]

/-- Removing a first point that repeats the last value of the block before keeps the function. -/
theorem dropFirstPoint_spec {l r : List SlackBlock} {a b : SlackBlock} {la : List (Timestamp × ℤ)}
    {rb : List (Timestamp × ℤ)} {j k : Timestamp} {v : ℤ}
    (h : WellFormedBlocks (l ++ a :: b :: r)) (ha : a.changes = la ++ [(j, v)])
    (hb : b.changes = (k, v) :: rb) :
    ∃ rest, dropFirstPoint (l.length + 1) ⟨l ++ a :: b :: r⟩ = .ok ⟨⟩ ⟨l ++ a :: rest⟩ ∧
      ((rb = [] ∧ rest = r) ∨ ∃ b', b'.changes = rb ∧ rest = b' :: r) ∧
      WellFormedBlocks (l ++ a :: rest) ∧
      Same (blockChanges (l ++ a :: rest)) (blockChanges (l ++ a :: b :: r)) ∧
      rounds (l ++ a :: rest) < rounds (l ++ a :: b :: r) := by
  obtain ⟨hl, habr, hlabr⟩ := wellFormedBlocks_append.mp h
  obtain ⟨ha', hbr, habr'⟩ := wellFormedBlocks_cons.mp habr
  obtain ⟨⟨hbne, hbex, hbinc⟩, hr, hbr'⟩ := wellFormedBlocks_cons.mp hbr
  obtain ⟨points, b', hmat, hc, hrec, hbp, hbc, hex⟩ := dropPoint_spec hbex
  rw [hb, List.drop_one, List.tail_cons] at hbc
  have hplen : points.length = b.points.length := by
    rw [← changesOf_length, hc, SlackBlock.length_changes]
  have hpos : 0 < b.points.length := List.length_pos_iff.mpr hbne
  have hjk : j < k := by
    refine habr' (j, v) (by simp [ha]) (k, v) ?_
    rw [blockChanges_cons, hb]
    simp
  have hsame : Same (blockChanges (l ++ a :: []) ++ rb ++ blockChanges r)
      (blockChanges (l ++ a :: b :: r)) := by
    have h₁ : blockChanges (l ++ a :: []) ++ rb ++ blockChanges r =
        (blockChanges l ++ la) ++ (j, v) :: (rb ++ blockChanges r) := by simp [ha]
    have h₂ : blockChanges (l ++ a :: b :: r) =
        (blockChanges l ++ la) ++ (j, v) :: (k, v) :: (rb ++ blockChanges r) := by simp [ha, hb]
    have hdrop : Same ((j, v) :: (k, v) :: (rb ++ blockChanges r))
        ((j, v) :: (rb ++ blockChanges r)) := same_cons_cons hjk.le rfl
    rw [h₁, h₂]
    exact (Same.refl _).append hdrop.symm
  have hrun : dropFirstPoint (l.length + 1) ⟨l ++ a :: b :: r⟩ =
      .ok ⟨⟩ ⟨if b'.points.isEmpty then l ++ a :: r else l ++ a :: b' :: r⟩ := by
    rw [dropFirstPoint, EStateM.bind_of_ok (updateBlock_next hmat),
      EStateM.bind_of_ok (updateBlock_next (f := fun b => .ok { b with points := b.points.drop 1 })
        rfl), EStateM.bind_of_ok (updateBlock_next hrec), EStateM.bind_of_ok (getBlock_next _ _ _ _)]
    split
    · rw [EStateM.modify_apply, List.eraseIdx_append_of_length_le (by omega)]
      simp
    · rfl
  by_cases hemp : b'.points.isEmpty = true
  · rw [if_pos hemp] at hrun
    have hrb : rb = [] := by
      rw [List.isEmpty_iff] at hemp
      rw [← hbc, SlackBlock.changes_eq_nil, hemp]
    subst hrb
    refine ⟨r, hrun, .inl ⟨rfl, rfl⟩, ?_, by simpa using hsame, ?_⟩
    · have hsplit : l ++ a :: b :: r = (l ++ [a]) ++ [b] ++ r := by simp
      have := WellFormedBlocks.replace (m := [b]) (n := []) (hsplit ▸ h)
        ⟨by simp, by simp, by simp⟩ (by simp)
      simpa using this
    · simp only [rounds_append, rounds_cons]
      omega
  · rw [if_neg hemp] at hrun
    have hbne' : b'.points ≠ [] := fun hnil => hemp (List.isEmpty_iff.mpr hnil)
    have hb'inc : Increasing b'.changes := by
      rw [hbc]
      rw [hb] at hbinc
      exact (List.pairwise_cons.mp hbinc).2
    refine ⟨b' :: r, hrun, .inr ⟨b', hbc, rfl⟩, ?_, ?_, ?_⟩
    · have hsplit : l ++ a :: b :: r = (l ++ [a]) ++ [b] ++ r := by simp
      have := WellFormedBlocks.replace (m := [b]) (n := [b']) (hsplit ▸ h)
        (wellFormedBlocks_singleton.mpr ⟨hbne', hex, hb'inc⟩) fun e he => ⟨e, by
          rw [blockChanges_cons, blockChanges_nil, List.append_nil, hbc] at he
          rw [blockChanges_cons, blockChanges_nil, List.append_nil, hb]
          exact List.mem_cons_of_mem _ he, rfl⟩
      simpa using this
    · simpa [hbc] using hsame
    · simp only [rounds_append, rounds_cons, hbp, List.length_drop]
      omega

/-- One round of the loop: it merges two blocks, drops a point or goes on. -/
inductive Round : Nat → SlackTimeline → Nat → SlackTimeline → Prop
  | merge {l r : List SlackBlock} {a b c : SlackBlock}
      (fits : a.points.length + b.points.length ≤ maxPointsPerBlock)
      (merged : c.changes = collapse (a.changes ++ b.changes)) :
      Round l.length ⟨l ++ a :: b :: r⟩ l.length ⟨l ++ c :: r⟩
  | drop {l r rest : List SlackBlock} {a b : SlackBlock}
      (repeated : ∃ x ∈ a.changes.getLast?, ∃ y ∈ b.changes.head?, x.2 = y.2)
      (dropped : (b.changes.tail = [] ∧ rest = r) ∨
        ∃ b', b'.changes = b.changes.tail ∧ rest = b' :: r) :
      Round l.length ⟨l ++ a :: b :: r⟩ l.length ⟨l ++ a :: rest⟩
  | advance {l r : List SlackBlock} {a b : SlackBlock}
      (full : maxPointsPerBlock < a.points.length + b.points.length)
      (differ : ∀ x ∈ a.changes.getLast?, ∀ y ∈ b.changes.head?, x.2 ≠ y.2) :
      Round l.length ⟨l ++ a :: b :: r⟩ (l.length + 1) ⟨l ++ a :: b :: r⟩

/-- One round of the loop merges, drops a point or goes on. -/
theorem rebalanceFrom_step {tl : SlackTimeline} (h : tl.WellFormed) {index : Nat}
    (hindex : index + 1 < tl.blocks.length) :
    ∃ index' tl', (∀ fuel, rebalanceFrom (fuel + 1) index tl = rebalanceFrom fuel index' tl') ∧
      Round index tl index' tl' ∧ tl'.WellFormed ∧ Same tl'.changes tl.changes ∧
      rounds tl'.blocks - index' < rounds tl.blocks - index := by
  obtain ⟨blocks⟩ := tl
  replace h : WellFormedBlocks blocks := h
  replace hindex : index + 1 < blocks.length := hindex
  obtain ⟨l, a, b, r, rfl, rfl⟩ : ∃ l a b r, blocks = l ++ a :: b :: r ∧ l.length = index := by
    refine ⟨blocks.take index, blocks[index], blocks[index + 1], blocks.drop (index + 2), ?_, ?_⟩
    · rw [List.cons_getElem_drop_succ, List.cons_getElem_drop_succ, List.take_append_drop]
    · rw [List.length_take]
      omega
  have hlen := length_le_rounds (l ++ a :: b :: r)
  obtain ⟨-, habr, -⟩ := wellFormedBlocks_append.mp h
  obtain ⟨⟨hane, haex, -⟩, hbr, -⟩ := wellFormedBlocks_cons.mp habr
  obtain ⟨⟨hbne, hbex, -⟩, -, -⟩ := wellFormedBlocks_cons.mp hbr
  have hunfold (fuel : Nat) := show rebalanceFrom (fuel + 1) l.length ⟨l ++ a :: b :: r⟩ = _ by
    rw [rebalanceFrom, EStateM.get_bind_apply, if_pos hindex,
      EStateM.bind_of_ok (getBlock_at l a (b :: r)), EStateM.bind_of_ok (getBlock_next l a b r)]
  by_cases hmerge : a.points.length + b.points.length ≤ maxPointsPerBlock
  · obtain ⟨c, hrun, hc, hwf, hsame, hrounds⟩ := mergeWithNext_spec h
    refine ⟨l.length, ⟨l ++ c :: r⟩, fun fuel => ?_, .merge hmerge hc, hwf, hsame, ?_⟩
    · rw [hunfold, if_pos hmerge, EStateM.bind_of_ok hrun]
    · show rounds (l ++ c :: r) - l.length < rounds (l ++ a :: b :: r) - l.length
      omega
  · obtain ⟨pa, p, hp⟩ : ∃ pa p, a.points = pa ++ [p] :=
      ⟨_, _, (List.dropLast_append_getLast hane).symm⟩
    obtain ⟨q, pb, hq⟩ := List.exists_cons_of_ne_nil hbne
    have hlast : a.points.getLast? = some p := by rw [hp, List.getLast?_concat]
    have hhead : b.points.head? = some q := by rw [hq, List.head?_cons]
    have hac : a.changes = pa.map (fun x => (x.timestamp, x.slack.val + a.slackDelta.val)) ++
        [(p.timestamp, p.slack.val + a.slackDelta.val)] := by
      rw [SlackBlock.changes, hp, List.map_append, List.map_singleton]
    have hbc : b.changes = (q.timestamp, q.slack.val + b.slackDelta.val) ::
        pb.map (fun x => (x.timestamp, x.slack.val + b.slackDelta.val)) := by
      rw [SlackBlock.changes, hq, List.map_cons]
    have hps : IsSlack (p.slack.val + a.slackDelta.val) :=
      haex.representable (p.timestamp, _) (by rw [hac]; simp)
    have hqs : IsSlack (q.slack.val + b.slackDelta.val) :=
      hbex.representable (q.timestamp, _) (by rw [hbc]; simp)
    have hunfold' (fuel : Nat) : rebalanceFrom (fuel + 1) l.length ⟨l ++ a :: b :: r⟩ =
        (if (⟨_, hps⟩ : Slack) = ⟨_, hqs⟩ then (do
          dropFirstPoint (l.length + 1)
          rebalanceFrom fuel l.length)
        else rebalanceFrom fuel (l.length + 1)) ⟨l ++ a :: b :: r⟩ := by
      rw [hunfold, if_neg hmerge, hlast, hhead]
      simp only []
      rw [addSlack_of_isSlack hps, addSlack_of_isSlack hqs,
        EStateM.bind_of_ok (EStateM.ofExcept_ok _ _), EStateM.bind_of_ok (EStateM.ofExcept_ok _ _)]
    by_cases heq : (⟨_, hps⟩ : Slack) = ⟨_, hqs⟩
    · have hv : p.slack.val + a.slackDelta.val = q.slack.val + b.slackDelta.val := congrArg Subtype.val heq
      obtain ⟨rest, hrun, hrest, hwf, hsame, hrounds⟩ := dropFirstPoint_spec h (hv ▸ hac) hbc
      refine ⟨l.length, ⟨l ++ a :: rest⟩, fun fuel => ?_,
        .drop ?_ (by rwa [hbc, List.tail_cons]), hwf, hsame, ?_⟩
      · rw [hunfold', if_pos heq, EStateM.bind_of_ok hrun]
      · rw [hac, hbc, List.getLast?_concat, List.head?_cons]
        exact ⟨_, rfl, _, rfl, hv⟩
      · show rounds (l ++ a :: rest) - l.length < rounds (l ++ a :: b :: r) - l.length
        omega
    · refine ⟨l.length + 1, ⟨l ++ a :: b :: r⟩, fun fuel => ?_, .advance (by omega) ?_, h,
        .refl _, ?_⟩
      · rw [hunfold', if_neg heq]
      · rw [hac, hbc, List.getLast?_concat, List.head?_cons]
        rintro _ ⟨⟩ _ ⟨⟩ hv
        exact heq (Subtype.ext hv)
      · show rounds (l ++ a :: b :: r) - (l.length + 1) < rounds (l ++ a :: b :: r) - l.length
        omega

/-- The loop ends at the last block. -/
theorem rebalanceFrom_last {tl : SlackTimeline} {index : Nat}
    (hindex : ¬index + 1 < tl.blocks.length) (fuel : Nat) :
    rebalanceFrom fuel index tl = .ok ⟨⟩ tl := by
  cases fuel with
  | zero => rfl
  | succ fuel =>
    rw [rebalanceFrom, EStateM.get_bind_apply, if_neg hindex]
    rfl

/-- The loop keeps the function. -/
theorem rebalanceFrom_spec {tl : SlackTimeline} (h : tl.WellFormed) (fuel index : Nat) :
    ∃ tl', rebalanceFrom fuel index tl = .ok ⟨⟩ tl' ∧ tl'.WellFormed ∧
      Same tl'.changes tl.changes := by
  induction fuel generalizing tl index with
  | zero => exact ⟨tl, rfl, h, .refl _⟩
  | succ fuel ih =>
    by_cases hindex : index + 1 < tl.blocks.length
    · obtain ⟨index', tl₁, hstep, -, hwf, hsame, -⟩ := rebalanceFrom_step h hindex
      obtain ⟨tl₂, hrun, hwf', hsame'⟩ := ih hwf index'
      exact ⟨tl₂, by rw [hstep, hrun], hwf', hsame'.trans hsame⟩
    · exact ⟨tl, rebalanceFrom_last hindex _, h, .refl _⟩

/-- The fuel that the normalization gives to the loop is enough: more makes no difference. -/
theorem rebalanceFrom_fuel {tl : SlackTimeline} (h : tl.WellFormed) {fuel index : Nat}
    (hfuel : rounds tl.blocks - index ≤ fuel) (extra : Nat) :
    rebalanceFrom (fuel + extra) index tl = rebalanceFrom fuel index tl := by
  induction fuel generalizing tl index with
  | zero =>
    have hindex : ¬index + 1 < tl.blocks.length := by
      have := length_le_rounds tl.blocks
      omega
    rw [rebalanceFrom_last hindex, rebalanceFrom_last hindex]
  | succ fuel ih =>
    rw [Nat.succ_add]
    by_cases hindex : index + 1 < tl.blocks.length
    · obtain ⟨index', tl', hstep, -, hwf, -, hlt⟩ := rebalanceFrom_step h hindex
      rw [hstep, hstep]
      exact ih hwf (by omega)
    · rw [rebalanceFrom_last hindex, rebalanceFrom_last hindex]

/-- A well formed timeline has no empty blocks to remove. -/
theorem retainNonEmpty_of_wellFormed {tl : SlackTimeline} (h : tl.WellFormed) :
    retainNonEmpty tl = .ok ⟨⟩ tl := by
  rw [retainNonEmpty, EStateM.modify_apply, List.filter_eq_self.mpr]
  intro b hb
  simpa using h.nonempty b hb

/-- What dropping a leading point of slack zero makes of the blocks: the first block loses its first
point when this has slack zero, and disappears when it has no other. -/
inductive LeadingZeroDropped : List SlackBlock → List SlackBlock → Prop
  | empty : LeadingZeroDropped [] []
  | keep {b b' : SlackBlock} {r : List SlackBlock} {e : Timestamp × ℤ} (first : e ∈ b.changes.head?)
      (nonzero : e.2 ≠ 0) (same : b'.changes = b.changes) :
      LeadingZeroDropped (b :: r) (b' :: r)
  | drop {b b' : SlackBlock} {r : List SlackBlock} {t : Timestamp} {e : Timestamp × ℤ}
      {l : List (Timestamp × ℤ)} (first : b.changes = (t, 0) :: e :: l)
      (rest : b'.changes = e :: l) : LeadingZeroDropped (b :: r) (b' :: r)
  | dropBlock {b : SlackBlock} {r : List SlackBlock} {t : Timestamp} (first : b.changes = [(t, 0)]) :
      LeadingZeroDropped (b :: r) r

/-- Empty blocks have no change points. -/
theorem blockChanges_retained (l : List SlackBlock) :
    blockChanges (l.filter fun b => !b.points.isEmpty) = blockChanges l := by
  induction l with
  | nil => rfl
  | cons b l ih =>
    by_cases hemp : b.points = []
    · rw [List.filter_cons_of_neg (by simp [hemp]), blockChanges_cons, ih,
        SlackBlock.changes_eq_nil.mpr hemp, List.nil_append]
    · rw [List.filter_cons_of_pos (by simpa using hemp), blockChanges_cons, blockChanges_cons, ih]

/-- Before blocks that are not empty only a new one may be. -/
theorem filter_cons_nonempty {b : SlackBlock} {r : List SlackBlock} (hr : WellFormedBlocks r) :
    (b :: r).filter (fun b => !b.points.isEmpty) = if b.points = [] then r else b :: r := by
  have hrest : r.filter (fun b => !b.points.isEmpty) = r :=
    List.filter_eq_self.mpr fun c hc => by simpa using hr.nonempty c hc
  split
  · rename_i hemp
    rw [List.filter_cons_of_neg (by simp [hemp]), hrest]
  · rename_i hemp
    rw [List.filter_cons_of_pos (by simpa using hemp), hrest]

/-- A first point of slack zero is dropped, and with it perhaps its block. -/
theorem LeadingZeroDropped.of_first {b b' : SlackBlock} {r : List SlackBlock} {t : Timestamp}
    (hr : WellFormedBlocks r) (hb : b.changes = (t, 0) :: b'.changes) :
    LeadingZeroDropped (b :: r) ((b' :: r).filter fun b => !b.points.isEmpty) := by
  rw [filter_cons_nonempty hr]
  split
  · rename_i hemp
    exact .dropBlock (by rw [hb, SlackBlock.changes_eq_nil.mpr hemp])
  · rename_i hemp
    obtain ⟨e, l, hel⟩ := List.exists_cons_of_ne_nil
      (mt SlackBlock.changes_eq_nil.mp hemp : b'.changes ≠ [])
    exact .drop (by rw [hb, hel]) hel

/-- Blocks are well formed without their first point. -/
theorem wellFormedBlocks_dropFirst {b b' : SlackBlock} {r : List SlackBlock} {e : Timestamp × ℤ}
    (h : WellFormedBlocks (b :: r)) (hex : b'.Exact) (hb : b.changes = e :: b'.changes) :
    WellFormedBlocks ((b' :: r).filter fun b => !b.points.isEmpty) := by
  obtain ⟨⟨-, -, hinc⟩, hr, hbr⟩ := wellFormedBlocks_cons.mp h
  rw [filter_cons_nonempty hr]
  split
  · exact hr
  · rename_i hemp
    rw [hb] at hinc hbr
    exact wellFormedBlocks_cons.mpr ⟨⟨hemp, hex, (List.pairwise_cons.mp hinc).2⟩, hr,
      fun a ha => hbr a (List.mem_cons_of_mem _ ha)⟩

/-- Dropping a leading point of slack zero keeps the slack. -/
theorem dropLeadingZeroPoint_spec {tl : SlackTimeline} (h : tl.WellFormed) :
    ∃ tl₁ tl', dropLeadingZeroPoint tl = .ok ⟨⟩ tl₁ ∧ retainNonEmpty tl₁ = .ok ⟨⟩ tl' ∧
      LeadingZeroDropped tl.blocks tl'.blocks ∧ tl'.WellFormed ∧
      ∀ t, tl'.slackValue t = tl.slackValue t := by
  obtain ⟨blocks⟩ := tl
  cases blocks with
  | nil => exact ⟨⟨[]⟩, ⟨[]⟩, rfl, rfl, .empty, h, fun _ => rfl⟩
  | cons b r =>
    replace h : WellFormedBlocks (b :: r) := h
    obtain ⟨⟨hbne, hbex, hbinc⟩, hr, hbr⟩ := wellFormedBlocks_cons.mp h
    obtain ⟨points, b', hmat, hc, hrec, hbp, hbc, hex⟩ := dropPoint_spec hbex
    have hget (c : SlackBlock) : getBlock 0 ⟨c :: r⟩ = .ok c ⟨c :: r⟩ := getBlock_at [] c r
    have hupd {c c' : SlackBlock} {f : SlackBlock → Except IndexError SlackBlock}
        (hf : f c = .ok c') : updateBlock 0 f ⟨c :: r⟩ = .ok ⟨⟩ ⟨c' :: r⟩ :=
      updateBlock_at (l := []) hf
    obtain ⟨q, ps, rfl⟩ : ∃ q ps, points = q :: ps := by
      refine List.exists_cons_of_ne_nil ?_
      rintro rfl
      exact hbne (SlackBlock.changes_eq_nil.mp hc.symm)
    rw [dropLeadingZeroPoint, EStateM.get_bind_apply]
    simp only [List.isEmpty_cons, Bool.false_eq_true, if_false]
    rw [EStateM.bind_of_ok (hupd hmat), EStateM.bind_of_ok (hget _)]
    by_cases hzero : q.slack.val = 0
    · -- the first point disappears, and with it perhaps the block
      have hb : b.changes = (q.timestamp, 0) :: b'.changes := by
        rw [hbc, ← hc, changesOf_cons, List.drop_one, List.tail_cons, SlackPoint.change, hzero]
      rw [if_pos (by exact decide_eq_true hzero), EStateM.bind_of_ok
        (hupd (f := fun b => .ok { b with points := b.points.drop 1 }) rfl)]
      refine ⟨⟨b' :: r⟩, ⟨(b' :: r).filter fun b => !b.points.isEmpty⟩, hupd hrec, rfl,
        .of_first hr hb, wellFormedBlocks_dropFirst h hex hb, fun t => ?_⟩
      rw [slackValue, slackValue, changes, changes, blockChanges_retained, blockChanges_cons,
        blockChanges_cons, hb, List.cons_append, valueAt_cons, ite_self]
    · rw [if_neg (by exact fun h => hzero (of_decide_eq_true h))]
      have hwf : WellFormedBlocks (⟨q :: ps, b.minimumSlack, b.maximumSlack, ⟨0, by decide⟩⟩ :: r) := by
        refine wellFormedBlocks_cons.mpr ⟨⟨by simp, ⟨representable_zeroDelta _ _ _, ?_, ?_⟩, ?_⟩, hr, ?_⟩
        · rw [changes_zeroDelta, hc]
          exact fun _ => hbex.minimum hbne
        · rw [changes_zeroDelta, hc]
          exact fun _ => hbex.maximum hbne
        · rw [changes_zeroDelta, hc]
          exact hbinc
        · rw [changes_zeroDelta, hc]
          exact hbr
      have hfirst : q.change ∈ b.changes.head? := by
        rw [← hc]
        rfl
      refine ⟨_, _, rfl, retainNonEmpty_of_wellFormed hwf, .keep hfirst hzero ?_, hwf, fun t => ?_⟩
      · rw [changes_zeroDelta, hc]
      rw [slackValue, slackValue, changes, changes, blockChanges_cons, blockChanges_cons,
        changes_zeroDelta, hc]

/-- Normalization keeps the slack. -/
theorem normalizeAndRebalance_spec {tl : SlackTimeline} (h : tl.WellFormed) :
    ∃ tl', normalizeAndRebalance tl = .ok ⟨⟩ tl' ∧ tl'.WellFormed ∧
      ∀ t, tl'.slackValue t = tl.slackValue t := by
  obtain ⟨tl₁, tl₂, h₁, h₂, -, hwf, hvalue⟩ := dropLeadingZeroPoint_spec h
  obtain ⟨tl₃, h₃, hwf', hsame⟩ := rebalanceFrom_spec hwf (rebalanceFuel tl₂) 0
  refine ⟨tl₃, ?_, hwf', fun t => (hsame 0 t).trans (hvalue t)⟩
  rw [normalizeAndRebalance, EStateM.bind_of_ok (retainNonEmpty_of_wellFormed h),
    EStateM.bind_of_ok h₁, EStateM.bind_of_ok h₂, EStateM.get_bind_apply, h₃]

/-! ## The whole update -/

/-- An update up to the normalization, for which something else can be put. -/
def applyDeltaThen (finish : Update Unit) (interval : Interval) (delta : Slack) : Update Unit := do
  if delta.val = 0 then return
  let tl ← get
  let minimum ← ofExcept (tl.minimumSlack interval)
  let _ ← ofExcept (addSlack minimum delta)
  let maximum ← ofExcept (tl.maximumSlack interval)
  let _ ← ofExcept (addSlack maximum delta)
  ensureBoundary interval.stop
  ensureBoundary interval.start
  let tl ← get
  match tl.findExactPoint interval.start with
  | none => throw .invalidPointRange
  | some start =>
    match tl.findExactPoint interval.stop with
    | none => throw .invalidPointRange
    | some stop =>
      applyDeltaBetween start stop delta
      finish

/-- An update is followed by the normalization. -/
theorem applyDelta_eq (i : Interval) (δ : Slack) :
    applyDelta i δ = applyDeltaThen normalizeAndRebalance i δ := rfl

/-- Nothing is done for a delta of zero. -/
theorem applyDeltaThen_zero {δ : Slack} (hzero : δ.val = 0) (finish : Update Unit) (i : Interval)
    (tl : SlackTimeline) : applyDeltaThen finish i δ tl = .ok ⟨⟩ tl := by
  rw [applyDeltaThen, if_pos hzero]
  rfl

/-- A delta that keeps the slack representable is added on the interval, by boundaries at its ends
and a change between them.  What is left is the normalization. -/
theorem applyDeltaThen_steps {tl : SlackTimeline} (h : tl.WellFormed) {i : Interval} {δ : Slack}
    (hzero : ¬δ.val = 0) (hδ : ∀ t, i.contains t = true → IsSlack (tl.slackValue t + δ.val)) :
    ∃ tl₁ tl₂ tl₃, Bounded i.stop tl tl₁ ∧ Bounded i.start tl₁ tl₂ ∧
      (∃ start stop, tl₂.findExactPoint i.start = some start ∧
        tl₂.findExactPoint i.stop = some stop ∧ applyDeltaBetween start stop δ tl₂ = .ok ⟨⟩ tl₃) ∧
      (∀ finish, applyDeltaThen finish i δ tl = finish tl₃) ∧ tl₃.WellFormed ∧
      List.Forall₂ (MayMerge i.start i.stop) tl₂.blocks tl₃.blocks ∧
      ∀ t, tl₃.slackValue t = tl.slackValue t + if i.contains t then δ.val else 0 := by
  obtain ⟨m, hm, hleast⟩ := minimumSlack_spec h i
  obtain ⟨M, hM, hgreatest⟩ := maximumSlack_spec h i
  have hmδ : IsSlack (m.val + δ.val) := by
    obtain ⟨t, h₁, h₂, ht⟩ := hleast.1
    exact ht ▸ hδ t (Interval.contains_iff.mpr ⟨h₁, h₂⟩)
  have hMδ : IsSlack (M.val + δ.val) := by
    obtain ⟨t, h₁, h₂, ht⟩ := hgreatest.1
    exact ht ▸ hδ t (Interval.contains_iff.mpr ⟨h₁, h₂⟩)
  obtain ⟨tl₁, h₁, hb₁⟩ := ensureBoundary_spec h i.stop
  obtain ⟨tl₂, h₂, hb₂⟩ := ensureBoundary_spec hb₁.wellFormed i.start
  have hvalue (t : Timestamp) : tl₂.slackValue t = tl.slackValue t := by rw [hb₂.value, hb₁.value]
  have hstop₂ : ∃ e ∈ tl₂.changes, e.1 = i.stop := by
    obtain ⟨e, he, hei⟩ := hb₁.mem
    exact ⟨e, hb₂.keep e he, hei⟩
  obtain ⟨start, stop, tl₃, hfind, hfind', h₃, hwf₃, hmerge, hvalue₃⟩ :=
    applyDeltaBetween_spec hb₂.wellFormed hb₂.mem hstop₂ fun t ht => hvalue t ▸ hδ t ht
  refine ⟨tl₁, tl₂, tl₃, hb₁, hb₂, ⟨start, stop, hfind, hfind', h₃⟩, fun finish => ?_, hwf₃, hmerge,
    fun t => by rw [hvalue₃, hvalue]⟩
  rw [applyDeltaThen, if_neg hzero, EStateM.get_bind_apply, hm,
    EStateM.bind_of_ok (EStateM.ofExcept_ok _ _), addSlack_of_isSlack hmδ,
    EStateM.bind_of_ok (EStateM.ofExcept_ok _ _), hM, EStateM.bind_of_ok (EStateM.ofExcept_ok _ _),
    addSlack_of_isSlack hMδ, EStateM.bind_of_ok (EStateM.ofExcept_ok _ _), EStateM.bind_of_ok h₁,
    EStateM.bind_of_ok h₂, EStateM.get_bind_apply, hfind, hfind']
  simp only []
  rw [EStateM.bind_of_ok h₃]

/-- A delta that keeps the slack representable is added on the interval. -/
theorem applyDelta_spec {tl : SlackTimeline} (h : tl.WellFormed) {i : Interval} {δ : Slack}
    (hδ : ∀ t, i.contains t = true → IsSlack (tl.slackValue t + δ.val)) :
    ∃ tl', applyDelta i δ tl = .ok ⟨⟩ tl' ∧ tl'.WellFormed ∧
      ∀ t, tl'.slackValue t = tl.slackValue t + if i.contains t then δ.val else 0 := by
  rw [applyDelta_eq]
  by_cases hzero : δ.val = 0
  · refine ⟨tl, applyDeltaThen_zero hzero _ i tl, h, fun t => ?_⟩
    rw [hzero, ite_self, add_zero]
  · obtain ⟨-, -, tl₃, -, -, -, hrun, hwf₃, -, hvalue₃⟩ := applyDeltaThen_steps h hzero hδ
    obtain ⟨tl₄, h₄, hwf₄, hvalue₄⟩ := normalizeAndRebalance_spec hwf₃
    exact ⟨tl₄, by rw [hrun, h₄], hwf₄, fun t => by rw [hvalue₄, hvalue₃]⟩

/-- A delta that leaves the range of slack somewhere fails before anything is written. -/
theorem applyDeltaThen_error {tl : SlackTimeline} (h : tl.WellFormed) {i : Interval} {δ : Slack}
    (hδ : ∃ t, i.contains t = true ∧ ¬IsSlack (tl.slackValue t + δ.val)) (finish : Update Unit) :
    applyDeltaThen finish i δ tl = .error .slackOverflow tl := by
  obtain ⟨t, ht, hbad⟩ := hδ
  have hzero : ¬δ.val = 0 := by
    intro h₀
    exact hbad (by rw [h₀, add_zero]; exact h.isSlack t)
  obtain ⟨m, hm, hleast⟩ := minimumSlack_spec h i
  obtain ⟨M, hM, hgreatest⟩ := maximumSlack_spec h i
  have hmt : m.val ≤ tl.slackValue t :=
    hleast.2 ⟨t, (Interval.contains_iff.mp ht).1, (Interval.contains_iff.mp ht).2, rfl⟩
  have hMt : tl.slackValue t ≤ M.val :=
    hgreatest.2 ⟨t, (Interval.contains_iff.mp ht).1, (Interval.contains_iff.mp ht).2, rfl⟩
  rw [applyDeltaThen, if_neg hzero, EStateM.get_bind_apply, hm,
    EStateM.bind_of_ok (EStateM.ofExcept_ok _ _)]
  by_cases hmδ : IsSlack (m.val + δ.val)
  · have hMδ : ¬IsSlack (M.val + δ.val) := by
      intro hMδ
      exact hbad ⟨hmδ.1.trans (by omega), le_trans (by omega) hMδ.2⟩
    rw [addSlack_of_isSlack hmδ, EStateM.bind_of_ok (EStateM.ofExcept_ok _ _), hM,
      EStateM.bind_of_ok (EStateM.ofExcept_ok _ _), addSlack_of_not_isSlack hMδ,
      EStateM.bind_of_error (EStateM.ofExcept_error _ _)]
  · rw [addSlack_of_not_isSlack hmδ, EStateM.bind_of_error (EStateM.ofExcept_error _ _)]

/-- An update that does not fit fails without an effect. -/
theorem applyDelta_error {tl : SlackTimeline} (h : tl.WellFormed) {i : Interval} {δ : Slack}
    (hδ : ∃ t, i.contains t = true ∧ ¬IsSlack (tl.slackValue t + δ.val)) :
    applyDelta i δ tl = .error .slackOverflow tl :=
  applyDeltaThen_error h hδ _

end SlackTimeline

end PromiseDb
