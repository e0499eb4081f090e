import PromiseDb.Index.SlackFunction

/-!
# Rebuilding a timeline

The rebuild records what happens to capacity and usage at each timestamp and sweeps over these
events in order.  The events of a capacity curve stand for its capacity, and the sum of the usage
that has started minus the usage that has ended is the usage of the claims that cover a
timestamp.  So the rebuilt timeline stands for capacity minus usage, and the rebuild succeeds
whenever that difference is representable everywhere.
-/

namespace PromiseDb

open StepFunction

/-! ## Usage -/

/-- What a claim takes from its pool at a timestamp. -/
def Claim.usageAt (c : Claim) (t : Timestamp) : ℤ :=
  if c.interval.contains t then c.quantity.val else 0

/-- What a list of claims takes at a timestamp. -/
def claimUsage (claims : List Claim) (t : Timestamp) : ℤ := (claims.map (·.usageAt t)).sum

/-- No claims use nothing. -/
@[simp] theorem claimUsage_nil (t : Timestamp) : claimUsage [] t = 0 := rfl

/-- The first claim uses its share. -/
@[simp] theorem claimUsage_cons (c : Claim) (claims : List Claim) (t : Timestamp) :
    claimUsage (c :: claims) t = c.usageAt t + claimUsage claims t := by
  simp [claimUsage]

/-- The usage of two lists adds up. -/
@[simp] theorem claimUsage_append (l r : List Claim) (t : Timestamp) :
    claimUsage (l ++ r) t = claimUsage l t + claimUsage r t := by
  simp [claimUsage]

/-- A claim does not use less than nothing. -/
theorem Claim.usageAt_nonneg (c : Claim) (t : Timestamp) : 0 ≤ c.usageAt t := by
  unfold usageAt
  split
  · exact c.quantity_pos.le
  · exact le_rfl

/-- Claims do not use less than nothing. -/
theorem claimUsage_nonneg (claims : List Claim) (t : Timestamp) : 0 ≤ claimUsage claims t := by
  induction claims with
  | nil => exact le_rfl
  | cons c claims ih => exact claimUsage_cons c claims t ▸ add_nonneg (c.usageAt_nonneg t) ih

/-- The sum of the quantities of the claims for which `key` gives `k`. -/
def quantitySum (key : Claim → Timestamp) (claims : List Claim) (k : Timestamp) : ℤ :=
  (claims.map fun c => if key c = k then c.quantity.val else 0).sum

/-- No claims add up to nothing. -/
@[simp] theorem quantitySum_nil (key : Claim → Timestamp) (k : Timestamp) :
    quantitySum key [] k = 0 := rfl

/-- The first claim counts if it has the key. -/
@[simp] theorem quantitySum_cons (key : Claim → Timestamp) (c : Claim) (claims : List Claim)
    (k : Timestamp) :
    quantitySum key (c :: claims) k =
      (if key c = k then c.quantity.val else 0) + quantitySum key claims k := by
  simp [quantitySum]

/-- The sums of two lists add up. -/
@[simp] theorem quantitySum_append (key : Claim → Timestamp) (l r : List Claim) (k : Timestamp) :
    quantitySum key (l ++ r) k = quantitySum key l k + quantitySum key r k := by
  simp [quantitySum]

/-- Quantities do not add up to less than nothing. -/
theorem quantitySum_nonneg (key : Claim → Timestamp) (claims : List Claim) (k : Timestamp) :
    0 ≤ quantitySum key claims k := by
  induction claims with
  | nil => exact le_rfl
  | cons c claims ih =>
    rw [quantitySum_cons]
    have := c.quantity_pos
    split <;> omega

/-- Claims that start at a timestamp cover it. -/
theorem startSum_le_usage (claims : List Claim) (k : Timestamp) :
    quantitySum (fun c => c.interval.start) claims k ≤ claimUsage claims k := by
  induction claims with
  | nil => exact le_rfl
  | cons c claims ih =>
    rw [quantitySum_cons, claimUsage_cons]
    refine add_le_add ?_ ih
    split
    · rename_i hk
      rw [Claim.usageAt, if_pos (Interval.contains_iff.mpr ⟨hk.le, hk ▸ c.interval.start_lt_stop⟩)]
    · exact c.usageAt_nonneg k

/-- Claims that end at a timestamp cover the timestamp before. -/
theorem endSum_le_usage (claims : List Claim) (k : Timestamp) :
    ∃ j, quantitySum (fun c => c.interval.stop) claims k ≤ claimUsage claims j := by
  by_cases hmin : (-9223372036854775808 : ℤ) ≤ k.val - 1
  · refine ⟨⟨k.val - 1, hmin, by have := k.property; omega⟩, ?_⟩
    induction claims with
    | nil => exact le_rfl
    | cons c claims ih =>
      rw [quantitySum_cons, claimUsage_cons]
      refine add_le_add ?_ ih
      split
      · rename_i hk
        have hlt : c.interval.start.val < c.interval.stop.val := c.interval.start_lt_stop
        rw [hk] at hlt
        rw [Claim.usageAt, if_pos]
        rw [Interval.contains_iff, hk]
        constructor
        · show c.interval.start.val ≤ k.val - 1
          omega
        · show k.val - 1 < k.val
          omega
      · exact c.usageAt_nonneg _
  · refine ⟨k, ?_⟩
    have hnone : quantitySum (fun c => c.interval.stop) claims k = 0 := by
      induction claims with
      | nil => rfl
      | cons c claims ih =>
        rw [quantitySum_cons, ih, if_neg, add_zero]
        intro hk
        have hlt : c.interval.start.val < c.interval.stop.val := c.interval.start_lt_stop
        rw [hk] at hlt
        have := c.interval.start.property
        omega
    rw [hnone]
    exact claimUsage_nonneg claims k

/-- A claim covers a timestamp when it has started and not yet ended. -/
theorem Claim.usageAt_eq (c : Claim) (t : Timestamp) :
    c.usageAt t = (if c.interval.start ≤ t then c.quantity.val else 0) -
      (if c.interval.stop ≤ t then c.quantity.val else 0) := by
  have hlt := c.interval.start_lt_stop
  simp only [usageAt, Interval.contains_iff]
  rcases lt_or_ge t c.interval.start with h | h
  · rw [if_neg fun h' => h'.1.not_gt h, if_neg h.not_ge, if_neg (h.trans hlt).not_ge, sub_zero]
  · rcases lt_or_ge t c.interval.stop with h' | h'
    · rw [if_pos ⟨h, h'⟩, if_pos h, if_neg h'.not_ge, sub_zero]
    · rw [if_neg fun hc => hc.2.not_ge h', if_pos h, if_pos h', sub_self]

namespace SlackTimeline

/-! ## The events of a curve -/

/-- What a list of segments does to capacity at a timestamp. -/
def capacityEvent (segments : List CapacitySegment) (k : Timestamp) : Option ℤ :=
  match segments.find? fun s => decide (s.interval.start = k) with
  | some s => some s.capacity.val
  | none => if segments.any fun s => decide (s.interval.stop = k) then some 0 else none

/-- The event at a timestamp, where nothing happens if there is no entry. -/
def eventAt (events : OrderedMap Timestamp TimelineEvent) (k : Timestamp) : TimelineEvent :=
  events[k]?.getD .default

/-- An update changes the event at one timestamp. -/
theorem eventAt_upsert (events : OrderedMap Timestamp TimelineEvent) (k k' : Timestamp)
    (f : TimelineEvent → TimelineEvent) :
    eventAt (OrderedMap.upsert events k .default f) k' =
      if k = k' then f (eventAt events k) else eventAt events k' := by
  rw [eventAt, OrderedMap.lookup_upsert]
  split <;> rfl

/-- The events of a curve hold its capacity changes and no usage. -/
theorem segmentEvents_spec {segments : List CapacitySegment}
    (h : segments.Pairwise fun a b => a.interval.stop ≤ b.interval.start) (k : Timestamp) :
    (eventAt (segments.foldl addSegmentEvents ∅) k).capacity.map (·.val) = capacityEvent segments k ∧
      (eventAt (segments.foldl addSegmentEvents ∅) k).usageStarted.val = 0 ∧
      (eventAt (segments.foldl addSegmentEvents ∅) k).usageEnded.val = 0 := by
  induction segments using List.reverseRecOn generalizing k with
  | nil => exact ⟨rfl, rfl, rfl⟩
  | append_singleton l s ih =>
    obtain ⟨hl, -, hls⟩ := List.pairwise_append.mp h
    -- the segments before start before the new one
    have hbefore : ∀ a ∈ l, a.interval.start < s.interval.start := fun a ha =>
      a.interval.start_lt_stop.trans_le (hls a ha s (by simp))
    have hfind {k : Timestamp} (hk : s.interval.start ≤ k) :
        l.find? (fun a => decide (a.interval.start = k)) = none := by
      rw [List.find?_eq_none]
      intro a ha
      simpa using ((hbefore a ha).trans_le hk).ne
    rw [List.foldl_append, List.foldl_cons, List.foldl_nil, addSegmentEvents, eventAt_upsert]
    by_cases hstop : s.interval.stop = k
    · subst hstop
      have hne : s.interval.start ≠ s.interval.stop := s.interval.start_lt_stop.ne
      rw [if_pos rfl, eventAt_upsert, if_neg hne]
      refine ⟨?_, (ih hl _).2.1, (ih hl _).2.2⟩
      rw [capacityEvent, List.find?_append, hfind s.interval.start_lt_stop.le]
      simp [hne]
    · rw [if_neg hstop, eventAt_upsert]
      by_cases hstart : s.interval.start = k
      · subst hstart
        rw [if_pos rfl]
        refine ⟨?_, (ih hl _).2.1, (ih hl _).2.2⟩
        rw [capacityEvent, List.find?_append, hfind le_rfl]
        simp [wideCapacity]
      · rw [if_neg hstart]
        refine ⟨?_, (ih hl k).2.1, (ih hl k).2.2⟩
        rw [(ih hl k).1, capacityEvent, capacityEvent, List.find?_append, List.any_append]
        simp [hstart, hstop]

/-! ## Adding the claims -/

/-- Events that hold the given capacity changes and the usage changes of some claims, with an
entry for every change of usage. -/
structure Records (capacity : Timestamp → Option ℤ) (claims : List Claim)
    (events : OrderedMap Timestamp TimelineEvent) : Prop where
  /-- The capacity changes. -/
  capacity_eq : ∀ k, (eventAt events k).capacity.map (·.val) = capacity k
  /-- The usage that starts. -/
  started_eq : ∀ k, (eventAt events k).usageStarted.val =
    quantitySum (fun c => c.interval.start) claims k
  /-- The usage that ends. -/
  ended_eq : ∀ k, (eventAt events k).usageEnded.val =
    quantitySum (fun c => c.interval.stop) claims k
  /-- Starts of claims have entries. -/
  start_mem : ∀ c ∈ claims, c.interval.start ∈ events
  /-- Ends of claims have entries. -/
  stop_mem : ∀ c ∈ claims, c.interval.stop ∈ events

/-- An insertion sets the event at one timestamp. -/
theorem eventAt_insert (events : OrderedMap Timestamp TimelineEvent) (k k' : Timestamp)
    (e : TimelineEvent) :
    eventAt (events.insert k e) k' = if k = k' then e else eventAt events k' := by
  rw [eventAt, OrderedMap.lookup_insert]
  split <;> rfl

/-- The events after one more claim is recorded. -/
def recordClaim (events : OrderedMap Timestamp TimelineEvent) (c : Claim) (started ended : U128) :
    OrderedMap Timestamp TimelineEvent :=
  (events.insert c.interval.start { eventAt events c.interval.start with
    usageStarted := started }).insert c.interval.stop { eventAt events c.interval.stop with
    usageEnded := ended }

/-- Recording a claim adds its quantity to the usage that starts and to the usage that ends. -/
theorem addClaimEvents_eq_ok {events events' : OrderedMap Timestamp TimelineEvent} {c : Claim} :
    addClaimEvents events c = .ok events' ↔ ∃ started ended : U128,
      (eventAt events c.interval.start).usageStarted.val + c.quantity.val = started.val ∧
      (eventAt events c.interval.stop).usageEnded.val + c.quantity.val = ended.val ∧
      recordClaim events c started ended = events' := by
  have hne : c.interval.start ≠ c.interval.stop := c.interval.start_lt_stop.ne
  have hlookup (e : TimelineEvent) : (events.insert c.interval.start e)[c.interval.stop]?.getD
      .default = eventAt events c.interval.stop := by
    rw [OrderedMap.lookup_insert_of_ne _ hne]
    rfl
  unfold addClaimEvents
  simp only [hlookup, Except.bind_eq_ok, Except.elim_eq_ok, BoundedInt.checkedAdd_eq_some,
    Except.pure_eq_ok, Except.ok.injEq]
  constructor
  · rintro ⟨started, hstarted, ended, hended, rfl⟩
    exact ⟨started, ended, hstarted, hended, rfl⟩
  · rintro ⟨started, ended, hstarted, hended, rfl⟩
    exact ⟨started, hstarted, ended, hended, rfl⟩

/-- Recording one more claim keeps the record. -/
theorem Records.addClaim {capacity : Timestamp → Option ℤ} {claims : List Claim} {c : Claim}
    {events : OrderedMap Timestamp TimelineEvent} (h : Records capacity claims events)
    {started ended : U128}
    (hstarted : (eventAt events c.interval.start).usageStarted.val + c.quantity.val = started.val)
    (hended : (eventAt events c.interval.stop).usageEnded.val + c.quantity.val = ended.val) :
    Records capacity (claims ++ [c]) (recordClaim events c started ended) := by
  have hsum (key : Claim → Timestamp) (k : Timestamp) : quantitySum key (claims ++ [c]) k =
      quantitySum key claims k + if key c = k then c.quantity.val else 0 := by simp
  have hne : c.interval.start ≠ c.interval.stop := c.interval.start_lt_stop.ne
  unfold recordClaim
  constructor
  · intro k
    rw [eventAt_insert, eventAt_insert]
    split
    · rename_i hk
      rw [← h.capacity_eq k, ← hk]
    · split
      · rename_i hk
        rw [← h.capacity_eq k, ← hk]
      · exact h.capacity_eq k
  · intro k
    rw [eventAt_insert, eventAt_insert, hsum]
    split
    · rename_i hk
      subst hk
      rw [if_neg hne, add_zero, ← h.started_eq]
    · split
      · rename_i hk
        rw [← hk, ← h.started_eq]
        exact hstarted.symm
      · rw [add_zero, ← h.started_eq]
  · intro k
    rw [eventAt_insert, eventAt_insert, hsum]
    split
    · rename_i hk
      rw [← hk, ← h.ended_eq]
      exact hended.symm
    · rw [add_zero, ← h.ended_eq]
      split
      · rename_i hk
        rw [← hk]
      · rfl
  · intro a ha
    rw [OrderedMap.mem_insert_iff, OrderedMap.mem_insert_iff]
    rcases List.mem_append.mp ha with ha | ha
    · exact .inr (.inr (h.start_mem a ha))
    · exact .inr (.inl (by rw [List.mem_singleton.mp ha]))
  · intro a ha
    rw [OrderedMap.mem_insert_iff, OrderedMap.mem_insert_iff]
    rcases List.mem_append.mp ha with ha | ha
    · exact .inr (.inr (h.stop_mem a ha))
    · exact .inl (by rw [List.mem_singleton.mp ha])

/-- A claim can be recorded when the sums stay small. -/
theorem addClaimEvents_spec {capacity : Timestamp → Option ℤ} {claims : List Claim} {c : Claim}
    {events : OrderedMap Timestamp TimelineEvent} (h : Records capacity claims events)
    (hstart : ∀ k, quantitySum (fun c => c.interval.start) (claims ++ [c]) k ≤ 2 ^ 64)
    (hstop : ∀ k, quantitySum (fun c => c.interval.stop) (claims ++ [c]) k ≤ 2 ^ 64) :
    ∃ events', addClaimEvents events c = .ok events' ∧ Records capacity (claims ++ [c]) events' := by
  have hsum (key : Claim → Timestamp) (k : Timestamp) : quantitySum key (claims ++ [c]) k =
      quantitySum key claims k + if key c = k then c.quantity.val else 0 := by simp
  have hq := c.quantity.property
  have hs := hstart c.interval.start
  have he := hstop c.interval.stop
  have hs₀ := quantitySum_nonneg (fun c => c.interval.start) claims c.interval.start
  have he₀ := quantitySum_nonneg (fun c => c.interval.stop) claims c.interval.stop
  rw [hsum, if_pos rfl] at hs he
  rw [← h.started_eq] at hs hs₀
  rw [← h.ended_eq] at he he₀
  obtain ⟨started, hstarted⟩ : ∃ started : U128,
      (eventAt events c.interval.start).usageStarted.val + c.quantity.val = started.val :=
    ⟨⟨_, by omega⟩, rfl⟩
  obtain ⟨ended, hended⟩ : ∃ ended : U128,
      (eventAt events c.interval.stop).usageEnded.val + c.quantity.val = ended.val :=
    ⟨⟨_, by omega⟩, rfl⟩
  exact ⟨_, addClaimEvents_eq_ok.mpr ⟨started, ended, hstarted, hended, rfl⟩,
    h.addClaim hstarted hended⟩

/-- Recording all claims. -/
theorem addClaimEvents_foldlM {capacity : Timestamp → Option ℤ} {claims : List Claim}
    {events : OrderedMap Timestamp TimelineEvent} (h : Records capacity [] events)
    (hstart : ∀ k, quantitySum (fun c => c.interval.start) claims k ≤ 2 ^ 64)
    (hstop : ∀ k, quantitySum (fun c => c.interval.stop) claims k ≤ 2 ^ 64) :
    ∃ events', claims.foldlM addClaimEvents events = .ok events' ∧
      Records capacity claims events' := by
  refine List.foldlM_invariant (I := Records capacity) h ?_
  rintro done c s ⟨rest, rfl⟩ hI
  have hinitial (key : Claim → Timestamp) (k : Timestamp) :
      quantitySum key (done ++ [c]) k ≤ quantitySum key (done ++ c :: rest) k := by
    have := quantitySum_nonneg key rest k
    simp only [quantitySum_append, quantitySum_cons, quantitySum_nil]
    omega
  exact addClaimEvents_spec hI (fun k => (hinitial _ k).trans (hstart k)) fun k =>
    (hinitial _ k).trans (hstop k)

/-- Claims that have been recorded. -/
theorem addClaimEvents_foldlM_ok {capacity : Timestamp → Option ℤ} {before claims : List Claim}
    {events events' : OrderedMap Timestamp TimelineEvent} (h : Records capacity before events)
    (hok : claims.foldlM addClaimEvents events = .ok events') :
    Records capacity (before ++ claims) events' := by
  induction claims generalizing before events with
  | nil =>
    obtain rfl : events = events' := Except.ok.inj hok
    rwa [List.append_nil]
  | cons c claims ih =>
    rw [List.foldlM_cons] at hok
    obtain ⟨next, hnext, hok⟩ := Except.bind_eq_ok.mp hok
    obtain ⟨started, ended, hstarted, hended, rfl⟩ := addClaimEvents_eq_ok.mp hnext
    rw [List.append_cons]
    exact ih (h.addClaim hstarted hended) hok

/-! ## The sweep -/

/-- The change points of the sweep, as mathematical integers. -/
def sweepChanges (capacity usage : ℤ) :
    List (Timestamp × TimelineEvent) → List (Timestamp × ℤ)
  | [] => []
  | (k, e) :: rest =>
    let capacity := (e.capacity.map (·.val)).getD capacity
    let usage := usage - e.usageEnded.val + e.usageStarted.val
    (k, capacity - usage) :: sweepChanges capacity usage rest

/-- The capacity changes of a list of events. -/
def capacityChanges (events : List (Timestamp × TimelineEvent)) : List (Timestamp × ℤ) :=
  events.filterMap fun e => e.2.capacity.map fun c => (e.1, c.val)

/-- The change of usage up to a timestamp. -/
def usageChange (events : List (Timestamp × TimelineEvent)) (t : Timestamp) : ℤ :=
  (events.map fun e => if e.1 ≤ t then e.2.usageStarted.val - e.2.usageEnded.val else 0).sum

/-- The sweep makes one change for each event. -/
theorem sweepChanges_keys (capacity usage : ℤ) (events : List (Timestamp × TimelineEvent)) :
    (sweepChanges capacity usage events).map Prod.fst = events.map Prod.fst := by
  induction events generalizing capacity usage with
  | nil => rfl
  | cons e rest ih =>
    obtain ⟨k, e⟩ := e
    rw [sweepChanges, List.map_cons, List.map_cons, ih]

/-- The sweep stands for capacity minus usage. -/
theorem valueAt_sweepChanges (capacity usage : ℤ) {events : List (Timestamp × TimelineEvent)}
    (h : events.Pairwise fun a b => a.1 < b.1) (t : Timestamp) :
    valueAt (capacity - usage) (sweepChanges capacity usage events) t =
      valueAt capacity (capacityChanges events) t - (usage + usageChange events t) := by
  induction events generalizing capacity usage with
  | nil => simp [sweepChanges, capacityChanges, usageChange]
  | cons e rest ih =>
    obtain ⟨k, e⟩ := e
    obtain ⟨hk, hrest⟩ := List.pairwise_cons.mp h
    rw [sweepChanges, valueAt_cons]
    by_cases hkt : k ≤ t
    · rw [if_pos hkt, ih _ _ hrest]
      have hcap : valueAt ((e.capacity.map (·.val)).getD capacity) (capacityChanges rest) t =
          valueAt capacity (capacityChanges ((k, e) :: rest)) t := by
        cases hc : e.capacity with
        | none => simp [capacityChanges, hc]
        | some c => simp [capacityChanges, hc, hkt]
      have huse : usageChange ((k, e) :: rest) t =
          e.usageStarted.val - e.usageEnded.val + usageChange rest t := by
        simp [usageChange, hkt]
      rw [hcap, huse]
      ring
    · -- every event comes later
      have hlater : ∀ a ∈ (k, e) :: rest, ¬a.1 ≤ t := by
        intro a ha hat
        rcases List.mem_cons.mp ha with rfl | ha
        · exact hkt hat
        · exact hkt ((hk a ha).le.trans hat)
      have huse : usageChange ((k, e) :: rest) t = 0 := by
        refine List.sum_eq_zero fun x hx => ?_
        obtain ⟨a, ha, rfl⟩ := List.mem_map.mp hx
        exact if_neg (hlater a ha)
      rw [if_neg hkt, huse, valueAt_of_lt, valueAt_of_lt, add_zero]
      · intro a ha
        obtain ⟨b, hb, hba⟩ := List.mem_filterMap.mp ha
        obtain ⟨c, -, rfl⟩ := Option.map_eq_some_iff.mp hba
        exact not_le.mp (hlater b hb)
      · intro a ha
        have hka := List.mem_map_of_mem (f := Prod.fst) ha
        rw [sweepChanges_keys] at hka
        obtain ⟨b, hb, hba⟩ := List.mem_map.mp hka
        rw [← hba]
        exact not_le.mp (hlater b (List.mem_cons_of_mem _ hb))

/-- The change of usage up to an event sums over the events up to it. -/
theorem usageChange_prefix {l r : List (Timestamp × TimelineEvent)} {k : Timestamp}
    {e : TimelineEvent} (h : (l ++ (k, e) :: r).Pairwise fun a b => a.1 < b.1) :
    usageChange (l ++ (k, e) :: r) k =
      ((l ++ [(k, e)]).map fun a => a.2.usageStarted.val - a.2.usageEnded.val).sum := by
  obtain ⟨-, hr, hl⟩ := List.pairwise_append.mp h
  have hsplit : l ++ (k, e) :: r = (l ++ [(k, e)]) ++ r := by simp
  have hlate : (r.map fun a => if a.1 ≤ k then a.2.usageStarted.val - a.2.usageEnded.val
      else 0).sum = 0 := by
    refine List.sum_eq_zero fun x hx => ?_
    obtain ⟨a, ha, rfl⟩ := List.mem_map.mp hx
    exact if_neg ((List.pairwise_cons.mp hr).1 a ha).not_ge
  rw [usageChange, hsplit, List.map_append, List.sum_append, hlate, add_zero]
  congr 1
  refine List.map_congr_left fun a ha => if_pos ?_
  rcases List.mem_append.mp ha with ha | ha
  · exact (hl a ha (k, e) (by simp)).le
  · rw [List.mem_singleton.mp ha]

/-- One step of the sweep, when all its results are representable. -/
theorem sweep_cons {capacity signed wide : I128} {usage usage₁ usage₂ : U128} {slack : Slack}
    {previous : Option Slack} {k : Timestamp} {e : TimelineEvent}
    {rest : List (Timestamp × TimelineEvent)}
    (hu₁ : usage.val - e.usageEnded.val = usage₁.val)
    (hu₂ : usage₁.val + e.usageStarted.val = usage₂.val) (hsigned : usage₂.val = signed.val)
    (hwide : (e.capacity.getD capacity).val - signed.val = wide.val) (hslack : wide.val = slack.val) :
    sweep capacity usage previous ((k, e) :: rest) =
      if previous = some slack then sweep (e.capacity.getD capacity) usage₂ previous rest
      else (do
        return ⟨k, slack⟩ :: (← sweep (e.capacity.getD capacity) usage₂ (some slack) rest)) := by
  rw [sweep, BoundedInt.checkedSub_eq_some.mpr hu₁, Option.elim_some, Except.ok_bind,
    BoundedInt.checkedAdd_eq_some.mpr hu₂, Option.elim_some, Except.ok_bind,
    BoundedInt.tryFrom_eq_some.mpr hsigned, Option.elim_some, Except.ok_bind,
    BoundedInt.checkedSub_eq_some.mpr hwide, Option.elim_some, Except.ok_bind,
    BoundedInt.tryFrom_eq_some.mpr hslack, Option.elim_some, Except.ok_bind]

/-- The sweep succeeds when usage never falls below what ends and every slack is
representable. -/
theorem sweep_spec {capacity : I128} {usage : U128} {previous : Option Slack}
    {events : List (Timestamp × TimelineEvent)}
    (hended : ∀ l k e r, events = l ++ (k, e) :: r →
      0 ≤ usage.val + (l.map fun a => a.2.usageStarted.val - a.2.usageEnded.val).sum -
        e.usageEnded.val)
    (husage : ∀ l k e r, events = l ++ (k, e) :: r →
      usage.val + ((l ++ [(k, e)]).map fun a => a.2.usageStarted.val - a.2.usageEnded.val).sum ≤
        2 ^ 64)
    (hslack : ∀ c ∈ sweepChanges capacity.val usage.val events, IsSlack c.2) :
    ∃ points, sweep capacity usage previous events = .ok (dropRepeats previous points) ∧
      changesOf points = sweepChanges capacity.val usage.val events := by
  induction events generalizing capacity usage previous with
  | nil => exact ⟨[], rfl, rfl⟩
  | cons e rest ih =>
    obtain ⟨k, e⟩ := e
    have h₁ := hended [] k e rest rfl
    have h₂ := husage [] k e rest rfl
    simp only [List.map_nil, List.sum_nil, add_zero, List.nil_append, List.map_cons,
      List.sum_cons] at h₁ h₂
    have hend := e.usageEnded.property
    have hstart := e.usageStarted.property
    have huse := usage.property
    have hcap : (e.capacity.getD capacity).val = (e.capacity.map (·.val)).getD capacity.val := by
      cases e.capacity <;> rfl
    have hs : IsSlack ((e.capacity.getD capacity).val -
        (usage.val - e.usageEnded.val + e.usageStarted.val)) := by
      rw [hcap]
      exact hslack (k, _) (by rw [sweepChanges]; exact List.mem_cons_self)
    obtain ⟨usage₁, hu₁⟩ : ∃ u : U128, usage.val - e.usageEnded.val = u.val :=
      ⟨⟨_, by omega⟩, rfl⟩
    obtain ⟨usage₂, hu₂⟩ : ∃ u : U128, usage₁.val + e.usageStarted.val = u.val :=
      ⟨⟨_, by omega⟩, rfl⟩
    obtain ⟨signed, hsigned⟩ : ∃ i : I128, usage₂.val = i.val := ⟨⟨usage₂.val, by omega⟩, rfl⟩
    rw [hu₁, hu₂] at hs
    obtain ⟨wide, hwide⟩ : ∃ i : I128, (e.capacity.getD capacity).val - signed.val = i.val := by
      rw [hsigned] at hs
      exact ⟨⟨_, by omega⟩, rfl⟩
    obtain ⟨slack, hsl⟩ : ∃ s : Slack, wide.val = s.val := by
      rw [hsigned, hwide] at hs
      exact ⟨⟨_, hs⟩, rfl⟩
    have hval : slack.val = (e.capacity.getD capacity).val - usage₂.val := by
      rw [← hsl, ← hwide, hsigned]
    have hsum : usage₂.val = usage.val - e.usageEnded.val + e.usageStarted.val := by
      rw [← hu₂, ← hu₁]
    have hchanges : sweepChanges capacity.val usage.val ((k, e) :: rest) =
        (k, slack.val) :: sweepChanges (e.capacity.getD capacity).val usage₂.val rest := by
      rw [sweepChanges, hval, hcap, hsum]
    have hrun (previous : Option Slack) : ∃ points,
        sweep (e.capacity.getD capacity) usage₂ previous rest = .ok (dropRepeats previous points) ∧
        changesOf points = sweepChanges (e.capacity.getD capacity).val usage₂.val rest := by
      refine ih (fun l k' e' r hr => ?_) (fun l k' e' r hr => ?_) fun c hc => ?_
      · have := hended ((k, e) :: l) k' e' r (by rw [hr]; rfl)
        simp only [List.map_cons, List.sum_cons] at this
        omega
      · have := husage ((k, e) :: l) k' e' r (by rw [hr]; rfl)
        simp only [List.cons_append, List.map_cons, List.sum_cons] at this
        omega
      · exact hslack c (hchanges ▸ List.mem_cons_of_mem _ hc)
    rw [sweep_cons hu₁ hu₂ hsigned hwide hsl, hchanges]
    obtain ⟨points, hpoints, hc⟩ := hrun (if previous = some slack then previous else some slack)
    refine ⟨⟨k, slack⟩ :: points, ?_, by rw [changesOf_cons, hc]; rfl⟩
    by_cases hprev : previous = some slack
    · rw [if_pos hprev] at hpoints ⊢
      rw [hpoints, dropRepeats, if_pos hprev]
    · rw [if_neg hprev] at hpoints ⊢
      rw [hpoints, dropRepeats, if_neg hprev]
      rfl

/-! ## What the events stand for -/

/-- A sum over distinct timestamps with one contribution. -/
theorem sum_single {keys : List Timestamp} (hnodup : keys.Nodup) {k₀ : Timestamp} (h : k₀ ∈ keys)
    (t : Timestamp) (q : ℤ) :
    (keys.map fun k => if k ≤ t then (if k₀ = k then q else 0) else 0).sum =
      if k₀ ≤ t then q else 0 := by
  have hsingle (k : Timestamp) : (if k ≤ t then (if k₀ = k then q else 0) else 0) =
      if k = k₀ then (if k₀ ≤ t then q else 0) else 0 := by
    by_cases hk : k = k₀
    · rw [if_pos hk, hk, if_pos rfl]
    · rw [if_neg hk, if_neg (Ne.symm hk), ite_self]
  simp only [hsingle]
  induction keys with
  | nil => simp at h
  | cons a keys ih =>
    obtain ⟨ha, hnodup⟩ := List.nodup_cons.mp hnodup
    rw [List.map_cons, List.sum_cons]
    rcases List.mem_cons.mp h with rfl | h
    · rw [if_pos rfl, List.sum_eq_zero, add_zero]
      intro x hx
      obtain ⟨b, hb, rfl⟩ := List.mem_map.mp hx
      rw [if_neg]
      rintro rfl
      exact ha hb
    · rw [ih hnodup h, if_neg, zero_add]
      rintro rfl
      exact ha h

/-- Usage changes summed over the events, up to a timestamp, by claims. -/
theorem sum_quantitySum {keys : List Timestamp} (hnodup : keys.Nodup) (key : Claim → Timestamp)
    {claims : List Claim} (hmem : ∀ c ∈ claims, key c ∈ keys) (t : Timestamp) :
    (keys.map fun k => if k ≤ t then quantitySum key claims k else 0).sum =
      (claims.map fun c => if key c ≤ t then c.quantity.val else 0).sum := by
  induction claims with
  | nil => simp
  | cons c claims ih =>
    have hc : (keys.map fun k => if k ≤ t then (if key c = k then c.quantity.val else 0) else 0).sum =
        if key c ≤ t then c.quantity.val else 0 :=
      sum_single hnodup (hmem c (by simp)) t c.quantity.val
    rw [List.map_cons, List.sum_cons, ← ih fun c hc => hmem c (List.mem_cons_of_mem _ hc), ← hc,
      ← List.sum_map_add]
    congr 1
    refine List.map_congr_left fun k _ => ?_
    rw [quantitySum_cons]
    split <;> simp

/-- A sum of differences is the difference of the sums. -/
theorem sum_map_sub {α : Type*} (l : List α) (f g : α → ℤ) :
    (l.map fun a => f a - g a).sum = (l.map f).sum - (l.map g).sum := by
  induction l with
  | nil => rfl
  | cons a l ih =>
    rw [List.map_cons, List.map_cons, List.map_cons, List.sum_cons, List.sum_cons, List.sum_cons, ih]
    ring

/-- The usage recorded in the events up to a timestamp is the usage of the claims there. -/
theorem usageChange_eq {capacity : Timestamp → Option ℤ} {claims : List Claim}
    {events : OrderedMap Timestamp TimelineEvent} (h : Records capacity claims events)
    (t : Timestamp) : usageChange events.toList t = claimUsage claims t := by
  have hnodup : (events.toList.map Prod.fst).Nodup :=
    List.pairwise_map.mpr ((OrderedMap.toList_sorted events).imp fun h => h.ne)
  have hkeys {k : Timestamp} (hk : k ∈ events) : k ∈ events.toList.map Prod.fst := by
    obtain ⟨v, hv⟩ := OrderedMap.mem_iff_lookup.mp hk
    exact List.mem_map_of_mem (f := Prod.fst) (OrderedMap.mem_toList (e := (k, v)).mpr hv)
  have hentry : usageChange events.toList t = ((events.toList.map Prod.fst).map fun k =>
      (if k ≤ t then quantitySum (fun c => c.interval.start) claims k else 0) -
        (if k ≤ t then quantitySum (fun c => c.interval.stop) claims k else 0)).sum := by
    rw [usageChange, List.map_map]
    congr 1
    refine List.map_congr_left fun e he => ?_
    have hat : eventAt events e.1 = e.2 := by
      rw [eventAt, OrderedMap.mem_toList.mp he]
      rfl
    simp only [Function.comp_apply, ← h.started_eq, ← h.ended_eq, hat]
    split <;> simp
  rw [hentry, sum_map_sub, sum_quantitySum hnodup _ (fun c hc => hkeys (h.start_mem c hc)),
    sum_quantitySum hnodup _ (fun c hc => hkeys (h.stop_mem c hc)), ← sum_map_sub, claimUsage]
  congr 1
  exact List.map_congr_left fun c _ => (c.usageAt_eq t).symm

/-- The event at a timestamp with an entry. -/
theorem eventAt_of_mem {events : OrderedMap Timestamp TimelineEvent} {e : Timestamp × TimelineEvent}
    (he : e ∈ events.toList) : eventAt events e.1 = e.2 := by
  rw [eventAt, OrderedMap.mem_toList.mp he]
  rfl

/-- The recorded capacity changes, by timestamp. -/
theorem mem_capacityChanges {capacity : Timestamp → Option ℤ} {claims : List Claim}
    {events : OrderedMap Timestamp TimelineEvent} (h : Records capacity claims events)
    {k : Timestamp} {c : ℤ} : (k, c) ∈ capacityChanges events.toList ↔ capacity k = some c := by
  simp only [capacityChanges, List.mem_filterMap, Option.map_eq_some_iff, Prod.mk.injEq]
  constructor
  · rintro ⟨e, he, c', hc', rfl, rfl⟩
    rw [← h.capacity_eq, eventAt_of_mem he, hc']
    rfl
  · intro hc
    rw [← h.capacity_eq] at hc
    obtain ⟨c', hc', rfl⟩ := Option.map_eq_some_iff.mp hc
    unfold eventAt at hc'
    cases hk : events[k]? with
    | none =>
      rw [hk] at hc'
      cases hc'
    | some e =>
      rw [hk] at hc'
      exact ⟨(k, e), OrderedMap.mem_toList.mpr hk, c', hc', rfl, rfl⟩

/-- The changes of capacity are in the order of their timestamps. -/
theorem increasing_capacityChanges (events : OrderedMap Timestamp TimelineEvent) :
    Increasing (capacityChanges events.toList) := by
  refine List.pairwise_filterMap.mpr ((OrderedMap.toList_sorted events).imp ?_)
  intro a b hab x hx y hy
  obtain ⟨_, -, rfl⟩ := Option.map_eq_some_iff.mp hx
  obtain ⟨_, -, rfl⟩ := Option.map_eq_some_iff.mp hy
  exact hab

/-- Capacity changes at the start of every segment. -/
theorem capacityEvent_start {curve : CapacityCurve} {s : CapacitySegment}
    (hs : s ∈ curve.segments) :
    capacityEvent curve.segments s.interval.start = some s.capacity.val := by
  unfold capacityEvent
  cases hf : curve.segments.find? fun a => decide (a.interval.start = s.interval.start) with
  | none => exact absurd (decide_eq_true rfl) (List.find?_eq_none.mp hf s hs)
  | some a =>
    have ha := List.mem_of_find?_eq_some hf
    have hstart : a.interval.start = s.interval.start := by simpa using List.find?_some hf
    have := a.interval.start_lt_stop
    have := s.interval.start_lt_stop
    rcases curve.segments_disjoint ha hs with rfl | h | h
    · rfl
    · order
    · order

/-- What a capacity change says about the segments. -/
theorem capacityEvent_cases {curve : CapacityCurve} {k : Timestamp} {c : ℤ}
    (h : capacityEvent curve.segments k = some c) :
    (∃ s ∈ curve.segments, s.interval.start = k ∧ s.capacity.val = c) ∨
      (∀ s ∈ curve.segments, s.interval.start ≠ k) ∧ c = 0 ∧
        ∃ s ∈ curve.segments, s.interval.stop = k := by
  unfold capacityEvent at h
  cases hf : curve.segments.find? fun a => decide (a.interval.start = k) with
  | some a =>
    rw [hf] at h
    exact .inl ⟨a, List.mem_of_find?_eq_some hf, by simpa using List.find?_some hf, by simpa using h⟩
  | none =>
    rw [hf] at h
    simp only [Option.ite_none_right_eq_some, Option.some.injEq, List.any_eq_true,
      decide_eq_true_eq] at h
    exact .inr ⟨fun s hs => by simpa using List.find?_eq_none.mp hf s hs, h.2.symm, h.1⟩

/-- Capacity changes at the end of every segment. -/
theorem capacityEvent_stop {curve : CapacityCurve} {s : CapacitySegment}
    (hs : s ∈ curve.segments) : ∃ c, capacityEvent curve.segments s.interval.stop = some c := by
  unfold capacityEvent
  cases curve.segments.find? fun a => decide (a.interval.start = s.interval.stop) with
  | some a => exact ⟨_, rfl⟩
  | none => exact ⟨0, if_pos (List.any_eq_true.mpr ⟨s, hs, by simp⟩)⟩

/-- The capacity changes recorded in the events stand for the capacity of the curve. -/
theorem capacityChanges_eq {curve : CapacityCurve} {claims : List Claim}
    {events : OrderedMap Timestamp TimelineEvent}
    (h : Records (capacityEvent curve.segments) claims events) (t : Timestamp) :
    valueAt 0 (capacityChanges events.toList) t = (curve.capacityAt t).val := by
  rcases valueAt_cases 0 (increasing_capacityChanges events) t with
    ⟨hlt, hv⟩ | ⟨⟨k, c⟩, hkc, hkt, hv, hmax⟩
  · rw [hv, CapacityCurve.capacityAt_of_not_contains]
    intro s hs ht
    have hmem := (mem_capacityChanges h).mpr (capacityEvent_start hs)
    exact (hlt _ hmem).not_ge (Interval.contains_iff.mp ht).1
  · rw [hv]
    have hlast {k' : Timestamp} {c' : ℤ} (hk' : capacityEvent curve.segments k' = some c')
        (hkt' : k' ≤ t) : k' ≤ k := hmax (k', c') ((mem_capacityChanges h).mpr hk') hkt'
    rcases capacityEvent_cases ((mem_capacityChanges h).mp hkc) with
      ⟨s, hs, rfl, rfl⟩ | ⟨hnone, rfl, s, hs, rfl⟩
    · -- the last change is a segment's start, and the segment has not ended yet
      have hstop : t < s.interval.stop := by
        by_contra hts
        obtain ⟨c', hc'⟩ := capacityEvent_stop hs
        exact (hlast hc' (not_lt.mp hts)).not_gt s.interval.start_lt_stop
      rw [CapacityCurve.capacityAt_of_contains hs (Interval.contains_iff.mpr ⟨hkt, hstop⟩)]
    · -- the last change is a segment's end, and no segment has started since
      rw [CapacityCurve.capacityAt_of_not_contains]
      intro a ha hat
      obtain ⟨h₁, h₂⟩ := Interval.contains_iff.mp hat
      have hle := hlast (capacityEvent_start ha) h₁
      have hne := hnone a ha
      have hs' := s.interval.start_lt_stop
      replace hkt : s.interval.stop ≤ t := hkt
      rcases curve.segments_disjoint ha hs with rfl | h | h
      · order
      · order
      · order

/-! ## Packing into blocks -/

/-- The chunks are not empty and their concatenation is the list. -/
theorem chunks_spec {n fuel : Nat} {points : List SlackPoint} (h : points.length ≤ fuel) :
    (chunks n fuel points).flatten = points ∧ ∀ c ∈ chunks n fuel points, c ≠ [] := by
  induction fuel generalizing points with
  | zero =>
    obtain rfl : points = [] := List.length_eq_zero_iff.mp (by omega)
    exact ⟨rfl, by simp [chunks]⟩
  | succ fuel ih =>
    cases points with
    | nil => exact ⟨rfl, by simp [chunks]⟩
    | cons p rest =>
      have hdrop : ((p :: rest).drop (n + 1)).length ≤ fuel := by
        rw [List.length_drop]
        rw [List.length_cons] at h ⊢
        omega
      obtain ⟨hflat, hne⟩ := ih hdrop
      rw [chunks]
      refine ⟨by rw [List.flatten_cons, hflat, List.take_append_drop], fun c hc => ?_⟩
      rcases List.mem_cons.mp hc with rfl | hc
      · simp
      · exact hne c hc

/-- Blocks built from consecutive chunks of ordered points stand for the same function. -/
theorem mapM_fromSortedPoints {parts : List (List SlackPoint)}
    (hinc : Increasing (changesOf parts.flatten)) (hne : ∀ c ∈ parts, c ≠ []) :
    ∃ blocks, parts.mapM SlackBlock.fromSortedPoints = .ok blocks ∧ WellFormedBlocks blocks ∧
      Same (blockChanges blocks) (changesOf parts.flatten) ∧
      ((blockChanges blocks).map Prod.fst).Sublist ((changesOf parts.flatten).map Prod.fst) := by
  induction parts with
  | nil => exact ⟨[], rfl, ⟨by simp, by simp, by simp⟩, .refl _, .refl _⟩
  | cons c parts ih =>
    rw [List.flatten_cons, changesOf_append] at hinc ⊢
    obtain ⟨hc, hparts, hlt⟩ := List.pairwise_append.mp hinc
    obtain ⟨blocks, hblocks, hwf, hsame, hkeys⟩ := ih hparts fun d hd => hne d (by simp [hd])
    have hsub : ((changesOf (dropRepeats none c)).map Prod.fst).Sublist ((changesOf c).map Prod.fst) :=
      ((SlackBlock.dropRepeats_sublist none c).map _).map _
    refine ⟨.ofPoints (dropRepeats none c) :: blocks, ?_, ⟨?_, ?_, ?_⟩, ?_, ?_⟩
    · rw [List.mapM_cons, SlackBlock.fromSortedPoints_eq hc, Except.ok_bind, hblocks]
      rfl
    · intro b hb
      rcases List.mem_cons.mp hb with rfl | hb
      · exact SlackBlock.dropRepeats_none_ne_nil (hne c (by simp))
      · exact hwf.nonempty b hb
    · intro b hb
      rcases List.mem_cons.mp hb with rfl | hb
      · exact SlackBlock.ofPoints_exact _
      · exact hwf.exact b hb
    · rw [blockChanges_cons, changes_ofPoints]
      refine List.pairwise_map.mp (((List.pairwise_map.mpr hinc).sublist ?_))
      rw [List.map_append, List.map_append]
      exact hsub.append hkeys
    · rw [blockChanges_cons, changes_ofPoints]
      exact (SlackBlock.same_dropRepeats hc).append hsame
    · rw [blockChanges_cons, changes_ofPoints, List.map_append, List.map_append]
      exact hsub.append hkeys

/-- Packing ordered points into blocks keeps the slack they stand for. -/
theorem blocksFromSortedPoints_spec {points : List SlackPoint} (h : Increasing (changesOf points)) :
    ∃ blocks, blocksFromSortedPoints points = .ok blocks ∧ WellFormedBlocks blocks ∧
      ∀ t, valueAt 0 (blockChanges blocks) t = valueAt 0 (changesOf points) t := by
  have hcanon := changesOf_dropLeadingZero points
  have hinc : Increasing (changesOf (dropLeadingZero (dropRepeats none points))) := by
    rw [hcanon]
    exact h.dedup 0
  obtain ⟨hflat, hne⟩ := chunks_spec (n := maxPointsPerBlock - 1)
    le_rfl
  obtain ⟨blocks, hblocks, hwf, hsame, -⟩ := mapM_fromSortedPoints (by rwa [hflat]) hne
  refine ⟨blocks, ?_, hwf, fun t => ?_⟩
  · rw [blocksFromSortedPoints, SlackBlock.fromSortedPoints_eq h]
    exact hblocks
  · rw [hsame 0 t, hflat, hcanon, valueAt_dedup h]

/-- The sweep checks that every slack is representable. -/
theorem sweep_isSlack {capacity : I128} {usage : U128} {previous : Option Slack}
    {events : List (Timestamp × TimelineEvent)} {points : List SlackPoint}
    (h : sweep capacity usage previous events = .ok points) :
    ∀ c ∈ sweepChanges capacity.val usage.val events, IsSlack c.2 := by
  induction events generalizing capacity usage previous points with
  | nil => simp [sweepChanges]
  | cons e rest ih =>
    obtain ⟨k, e⟩ := e
    rw [sweep] at h
    obtain ⟨usage₁, hu₁, h⟩ := Except.bind_eq_ok.mp h
    obtain ⟨usage₂, hu₂, h⟩ := Except.bind_eq_ok.mp h
    obtain ⟨signed, hsigned, h⟩ := Except.bind_eq_ok.mp h
    obtain ⟨wide, hwide, h⟩ := Except.bind_eq_ok.mp h
    obtain ⟨slack, hslack, h⟩ := Except.bind_eq_ok.mp h
    replace hu₁ := BoundedInt.checkedSub_eq_some.mp (Except.elim_eq_ok.mp hu₁)
    replace hu₂ := BoundedInt.checkedAdd_eq_some.mp (Except.elim_eq_ok.mp hu₂)
    replace hsigned := BoundedInt.tryFrom_eq_some.mp (Except.elim_eq_ok.mp hsigned)
    replace hwide := BoundedInt.checkedSub_eq_some.mp (Except.elim_eq_ok.mp hwide)
    replace hslack := BoundedInt.tryFrom_eq_some.mp (Except.elim_eq_ok.mp hslack)
    have hcap : (e.capacity.getD capacity).val = (e.capacity.map (·.val)).getD capacity.val := by
      cases e.capacity <;> rfl
    have hrest : ∃ previous' points',
        sweep (e.capacity.getD capacity) usage₂ previous' rest = .ok points' := by
      split at h
      · exact ⟨_, _, h⟩
      · obtain ⟨points', hpoints', -⟩ := Except.bind_eq_ok.mp h
        exact ⟨_, _, hpoints'⟩
    obtain ⟨previous', points', hrest⟩ := hrest
    intro c hc
    rw [sweepChanges, ← hcap, hu₁, hu₂] at hc
    rcases List.mem_cons.mp hc with rfl | hc
    · dsimp only
      rw [hsigned, hwide, hslack]
      exact slack.property
    · exact ih hrest c hc

/-! ## The rebuilt timeline -/

/-- The events of a curve record its capacity changes and no claims. -/
theorem records_segments (curve : CapacityCurve) :
    Records (capacityEvent curve.segments) [] (curve.segments.foldl addSegmentEvents ∅) := by
  have hsegments := segmentEvents_spec curve.segments_pairwise
  exact ⟨fun k => (hsegments k).1, fun k => (hsegments k).2.1, fun k => (hsegments k).2.2,
    by simp, by simp⟩

/-- The usage recorded up to an event is the usage of the claims at its timestamp. -/
theorem Records.usage_prefix {capacity : Timestamp → Option ℤ} {claims : List Claim}
    {events : OrderedMap Timestamp TimelineEvent} (h : Records capacity claims events)
    {l r : List (Timestamp × TimelineEvent)} {k : Timestamp} {e : TimelineEvent}
    (hl : events.toList = l ++ (k, e) :: r) :
    ((l ++ [(k, e)]).map fun a => a.2.usageStarted.val - a.2.usageEnded.val).sum =
      claimUsage claims k := by
  rw [← usageChange_eq h k, hl, usageChange_prefix (hl ▸ OrderedMap.toList_sorted events)]

/-- No more usage ends at an event than is there before it. -/
theorem Records.ended_le {capacity : Timestamp → Option ℤ} {claims : List Claim}
    {events : OrderedMap Timestamp TimelineEvent} (h : Records capacity claims events)
    {l r : List (Timestamp × TimelineEvent)} {k : Timestamp} {e : TimelineEvent}
    (hl : events.toList = l ++ (k, e) :: r) :
    0 ≤ (l.map fun a => a.2.usageStarted.val - a.2.usageEnded.val).sum - e.usageEnded.val := by
  have husage := h.usage_prefix hl
  have hstart := startSum_le_usage claims k
  have he : eventAt events k = e := eventAt_of_mem (e := (k, e)) (by rw [hl]; simp)
  rw [← h.started_eq, he] at hstart
  rw [List.map_append, List.sum_append, List.map_singleton, List.sum_singleton] at husage
  dsimp only at husage
  omega

/-- The rebuild succeeds when capacity minus usage is representable everywhere, and stands for
it. -/
theorem fromCapacityAndClaims_spec {curve : CapacityCurve} {claims : List Claim}
    (h : ∀ t, IsSlack ((curve.capacityAt t).val - claimUsage claims t)) :
    ∃ tl, fromCapacityAndClaims curve claims = .ok tl ∧ tl.WellFormed ∧
      ∀ t, tl.slackValue t = (curve.capacityAt t).val - claimUsage claims t := by
  have husage (t : Timestamp) : claimUsage claims t ≤ 2 ^ 64 := by
    have h₁ := (h t).1
    have h₂ : (curve.capacityAt t).val ≤ 9223372036854775807 := curve.capacityAt_le t
    omega
  have hstop (k : Timestamp) : quantitySum (fun c => c.interval.stop) claims k ≤ 2 ^ 64 := by
    obtain ⟨j, hj⟩ := endSum_le_usage claims k
    exact hj.trans (husage j)
  obtain ⟨events, hevents, hrec⟩ := addClaimEvents_foldlM (records_segments curve)
    (fun k => (startSum_le_usage claims k).trans (husage k)) hstop
  have hsorted := OrderedMap.toList_sorted events
  have hvalue (t : Timestamp) : valueAt 0 (sweepChanges 0 0 events.toList) t =
      (curve.capacityAt t).val - claimUsage claims t := by
    have := valueAt_sweepChanges 0 0 hsorted t
    rwa [sub_zero, zero_add, capacityChanges_eq hrec, usageChange_eq hrec] at this
  have hinc : Increasing (sweepChanges 0 0 events.toList) := by
    refine List.pairwise_map.mp ?_
    rw [sweepChanges_keys]
    exact List.pairwise_map.mpr hsorted
  obtain ⟨points, hsweep, hpoints⟩ := @sweep_spec ⟨0, by decide⟩ ⟨0, by decide⟩ none events.toList
    (fun l k e r hl => by
      show 0 ≤ 0 + _ - _
      rw [zero_add]
      exact hrec.ended_le hl)
    (fun l k e r hl => by
      rw [hrec.usage_prefix hl]
      show 0 + _ ≤ _
      rw [zero_add]
      exact husage k)
    (fun c hc => by
      have := hvalue c.1
      rw [valueAt_self hinc hc] at this
      exact this ▸ h c.1)
  replace hpoints : changesOf points = sweepChanges 0 0 events.toList := hpoints
  have hpinc : Increasing (changesOf points) := hpoints ▸ hinc
  have hdinc : Increasing (changesOf (dropRepeats none points)) :=
    hpinc.sublist ((SlackBlock.dropRepeats_sublist _ _).map _)
  obtain ⟨blocks, hblocks, hwf, hbvalue⟩ := blocksFromSortedPoints_spec hdinc
  refine ⟨⟨blocks⟩, ?_, hwf, fun t => ?_⟩
  · rw [fromCapacityAndClaims, hevents, Except.ok_bind, hsweep, Except.ok_bind, hblocks]
    rfl
  · rw [slackValue, changes, hbvalue, SlackBlock.same_dropRepeats hpinc 0 t, hpoints, hvalue]

/-- The sweep over the events of a curve and claims succeeds only when capacity minus usage is
representable everywhere. -/
theorem sweep_records_isSlack {curve : CapacityCurve} {claims : List Claim}
    {events : OrderedMap Timestamp TimelineEvent} {points : List SlackPoint}
    (h : Records (capacityEvent curve.segments) claims events)
    (hsweep : sweep ⟨0, I128.zero_range⟩ ⟨0, U128.zero_range⟩ none events.toList = .ok points)
    (t : Timestamp) : IsSlack ((curve.capacityAt t).val - claimUsage claims t) := by
  have hvalue := valueAt_sweepChanges 0 0 (OrderedMap.toList_sorted events) t
  rw [sub_zero, zero_add, capacityChanges_eq h, usageChange_eq h] at hvalue
  rw [← hvalue]
  exact valueAt_induction ⟨by norm_num, by norm_num⟩ (sweep_isSlack hsweep) t

/-- The rebuild succeeds only when capacity minus usage is representable everywhere. -/
theorem fromCapacityAndClaims_isSlack {curve : CapacityCurve} {claims : List Claim}
    {tl : SlackTimeline} (h : fromCapacityAndClaims curve claims = .ok tl) (t : Timestamp) :
    IsSlack ((curve.capacityAt t).val - claimUsage claims t) := by
  obtain ⟨events, hevents, h⟩ := Except.bind_eq_ok.mp h
  obtain ⟨points, hsweep, -⟩ := Except.bind_eq_ok.mp h
  have hrec := addClaimEvents_foldlM_ok (records_segments curve) hevents
  exact sweep_records_isSlack hrec hsweep t

/-- A rebuilt timeline stands for capacity minus usage. -/
theorem fromCapacityAndClaims_sound {curve : CapacityCurve} {claims : List Claim}
    {tl : SlackTimeline} (h : fromCapacityAndClaims curve claims = .ok tl) :
    tl.WellFormed ∧ ∀ t, tl.slackValue t = (curve.capacityAt t).val - claimUsage claims t := by
  obtain ⟨tl', htl', hspec⟩ := fromCapacityAndClaims_spec (fromCapacityAndClaims_isSlack h)
  obtain rfl : tl = tl' := Except.ok.inj (h.symm.trans htl')
  exact hspec

/-- The initial timeline of a pool stands for its capacity. -/
theorem fromCapacityCurve_spec (curve : CapacityCurve) :
    ∃ tl, fromCapacityCurve curve = .ok tl ∧ tl.WellFormed ∧
      ∀ t, tl.slackValue t = (curve.capacityAt t).val := by
  obtain ⟨tl, htl, hwf, hvalue⟩ := fromCapacityAndClaims_spec fun t => by
    have h₁ := (curve.capacityAt t).property.1
    have h₂ : (curve.capacityAt t).val ≤ 9223372036854775807 := curve.capacityAt_le t
    rw [claimUsage_nil, sub_zero]
    exact ⟨by omega, h₂⟩
  exact ⟨tl, htl, hwf, fun t => by rw [hvalue, claimUsage_nil, sub_zero]⟩

end SlackTimeline

end PromiseDb
