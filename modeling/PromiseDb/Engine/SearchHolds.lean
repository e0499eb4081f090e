import PromiseDb.Engine.Reachable

/-!
# Search-based holds refine the plain hold

A hold of the first slot, or of one of several alternatives, tries its candidates in order
against the same state.  It ends like the plain hold of the first candidate that is not refused,
and when every candidate is refused it says so with the number of candidates, or with the
conflicts of each.
-/

namespace PromiseDb

/-- The position of the last candidate of a range. -/
def SlotRange.lastIndex (range : SlotRange) : Nat :=
  ((range.latest.val - range.earliest.val) / range.step.val).toNat

/-- The candidates are exactly the positions whose start is not after the end of the range. -/
theorem SlotRange.le_lastIndex_iff {range : SlotRange} (hle : range.earliest ≤ range.latest)
    (hstep : 0 < range.step.val) {k : Nat} :
    k ≤ range.lastIndex ↔ range.earliest.val + k * range.step.val ≤ range.latest.val := by
  have hle' : range.earliest.val ≤ range.latest.val := hle
  have hnonneg : 0 ≤ (range.latest.val - range.earliest.val) / range.step.val :=
    Int.ediv_nonneg (by omega) hstep.le
  rw [lastIndex, ← Int.ofNat_le, Int.toNat_of_nonneg hnonneg, Int.le_ediv_iff_mul_le hstep]
  omega

namespace EngineState

/-! ## The search loop -/

/-- The bundle of the candidate at a position. -/
def CandidateAt (relativeBundle : RelativeBundle) (range : SlotRange) (k : Nat) (start : Timestamp)
    (bundle : Bundle) : Prop :=
  start.val = range.earliest.val + k * range.step.val ∧ relativeBundle.materialize start = .ok bundle

/-- The candidate at a position is not admitted. -/
def RefusedAt (s : EngineState) (relativeBundle : RelativeBundle) (range : SlotRange) (k : Nat) :
    Prop :=
  ∃ start bundle conflicts, CandidateAt relativeBundle range k start bundle ∧
    s.evaluateBundleAdmission bundle = .ok (.unavailable conflicts)

/-- The next position is a candidate when its start is not after the end of the range. -/
theorem succ_le_lastIndex_iff {range : SlotRange} (hle : range.earliest ≤ range.latest)
    (hstep : 0 < range.step.val) {k : Nat} {start : Timestamp}
    (hstart : start.val = range.earliest.val + k * range.step.val) :
    k + 1 ≤ range.lastIndex ↔ start.val + range.step.val ≤ range.latest.val := by
  rw [SlotRange.le_lastIndex_iff hle hstep, hstart]
  push_cast
  rw [add_mul, one_mul, add_assoc]

/-- A later start in the range is the candidate at the next position. -/
theorem next_candidate {range : SlotRange} (hle : range.earliest ≤ range.latest)
    (hstep : 0 < range.step.val) {k : Nat} {start next : Timestamp}
    (hstart : start.val = range.earliest.val + k * range.step.val)
    (hadd : start.checkedAdd range.step = some next) (hnot : next ≤ range.latest) :
    k + 1 ≤ range.lastIndex ∧
      next.val = range.earliest.val + (k + 1 : ℕ) * range.step.val := by
  have hval := BoundedInt.checkedAdd_eq_some.mp hadd
  have hnot' : next.val ≤ range.latest.val := hnot
  refine ⟨(succ_le_lastIndex_iff hle hstep hstart).mpr (by omega), ?_⟩
  rw [← hval, hstart]
  push_cast
  ring

/-- How the search ends at a candidate. -/
inductive EndsAt (s : EngineState) (relativeBundle : RelativeBundle) (range : SlotRange) (k : Nat)
    (start : Timestamp) : Except DomainError SlotSearch → Prop
  /-- The candidate has no bundle. -/
  | unmaterialized {e : DomainError} (h : relativeBundle.materialize start = .error e) :
      EndsAt s relativeBundle range k start (.error e)
  /-- The bundle cannot be evaluated. -/
  | failed {bundle : Bundle} {e : DomainError} (h : relativeBundle.materialize start = .ok bundle)
      (failed : s.evaluateBundleAdmission bundle = .error e) :
      EndsAt s relativeBundle range k start (.error e)
  /-- The bundle is admitted. -/
  | found {bundle : Bundle} {timelines : OrderedMap ResourcePoolId SlackTimeline}
      (h : relativeBundle.materialize start = .ok bundle)
      (admitted : s.evaluateBundleAdmission bundle = .ok (.available timelines)) :
      EndsAt s relativeBundle range k start (.ok (.found ⟨start, bundle⟩ timelines))
  /-- The last candidate is refused too. -/
  | exhausted {bundle : Bundle} {conflicts : List AvailabilityConflict}
      (h : relativeBundle.materialize start = .ok bundle)
      (refused : s.evaluateBundleAdmission bundle = .ok (.unavailable conflicts))
      (last : k = range.lastIndex) :
      EndsAt s relativeBundle range k start (.ok (.unavailable (k + 1)))

/-- The loop, at the candidate of a position, ends at the first candidate from there that is not
refused, or at the last one. -/
theorem searchSlotsFrom_spec {s : EngineState} {relativeBundle : RelativeBundle}
    {range : SlotRange} (hle : range.earliest ≤ range.latest) (hstep : 0 < range.step.val)
    {fuel k : Nat} {start : Timestamp}
    (hstart : start.val = range.earliest.val + k * range.step.val) (hk : k ≤ range.lastIndex)
    (hfuel : range.lastIndex - k < fuel) :
    ∃ i start', k ≤ i ∧ i ≤ range.lastIndex ∧
      start'.val = range.earliest.val + i * range.step.val ∧
      (∀ j, k ≤ j → j < i → s.RefusedAt relativeBundle range j) ∧
      s.EndsAt relativeBundle range i start'
        (s.searchSlotsFrom relativeBundle range fuel start k) := by
  induction fuel generalizing k start with
  | zero => omega
  | succ fuel ih =>
    have hhere : ∀ j, k ≤ j → j < k → s.RefusedAt relativeBundle range j := by
      intro j hkj hjk
      omega
    rw [searchSlotsFrom]
    cases hbundle : relativeBundle.materialize start with
    | error e => exact ⟨k, start, le_rfl, hk, hstart, hhere, .unmaterialized hbundle⟩
    | ok bundle =>
      rw [Except.ok_bind]
      cases hadm : s.evaluateBundleAdmission bundle with
      | error e => exact ⟨k, start, le_rfl, hk, hstart, hhere, .failed hbundle hadm⟩
      | ok admission =>
        rw [Except.ok_bind]
        cases admission with
        | available timelines => exact ⟨k, start, le_rfl, hk, hstart, hhere, .found hbundle hadm⟩
        | unavailable conflicts =>
          have hend (hlast : k = range.lastIndex) :
              s.EndsAt relativeBundle range k start (.ok (.unavailable (k + 1))) :=
            .exhausted hbundle hadm hlast
          have hnext := succ_le_lastIndex_iff hle hstep hstart
          dsimp only
          split
          · rename_i hlatest
            refine ⟨k, start, le_rfl, hk, hstart, hhere, hend ?_⟩
            rw [← hlatest] at hnext
            omega
          · cases hadd : start.checkedAdd range.step with
            | none =>
              refine ⟨k, start, le_rfl, hk, hstart, hhere, hend ?_⟩
              have hrange := BoundedInt.ofInt?_eq_none.mp hadd
              have := range.latest.property.2
              have := start.property.1
              omega
            | some next =>
              have hval := BoundedInt.checkedAdd_eq_some.mp hadd
              dsimp only
              split
              · rename_i hafter
                refine ⟨k, start, le_rfl, hk, hstart, hhere, hend ?_⟩
                have hafter' : range.latest.val < next.val := hafter
                omega
              · rename_i hnot
                obtain ⟨hk', hstart'⟩ := next_candidate hle hstep hstart hadd (not_lt.mp hnot)
                obtain ⟨i, start', hki, hi, hs', hrefused, hends⟩ := ih hstart' hk' (by omega)
                refine ⟨i, start', by omega, hi, hs', ?_, hends⟩
                intro j hkj hji
                rcases eq_or_lt_of_le hkj with rfl | hkj
                · exact ⟨start, bundle, conflicts, ⟨hstart, hbundle⟩, hadm⟩
                · exact hrefused j hkj hji

/-- The bound on the rounds is enough to reach the last candidate. -/
theorem lastIndex_lt_fuel {range : SlotRange} (hle : range.earliest ≤ range.latest)
    (hstep : 0 < range.step.val) : range.lastIndex < range.fuel := by
  have hmul := (SlotRange.le_lastIndex_iff hle hstep).mp (le_refl range.lastIndex)
  have hone : (range.lastIndex : ℤ) ≤ range.lastIndex * range.step.val :=
    le_mul_of_one_le_right (Int.natCast_nonneg _) hstep
  unfold SlotRange.fuel
  omega

/-- The search ends at the first candidate that is not refused, or at the last one. -/
theorem searchSlots_spec (s : EngineState) (relativeBundle : RelativeBundle) {range : SlotRange}
    (hle : range.earliest ≤ range.latest) (hstep : 0 < range.step.val) :
    ∃ i start, i ≤ range.lastIndex ∧ start.val = range.earliest.val + i * range.step.val ∧
      (∀ j < i, s.RefusedAt relativeBundle range j) ∧
      s.EndsAt relativeBundle range i start (s.searchSlots relativeBundle range) := by
  have hlast := lastIndex_lt_fuel hle hstep
  have hzero : range.earliest.val = range.earliest.val + (0 : ℕ) * range.step.val := by simp
  obtain ⟨i, start, -, hi, hstart, hrefused, hends⟩ := @searchSlotsFrom_spec s relativeBundle range
    hle hstep range.fuel 0 range.earliest hzero (Nat.zero_le _) (by omega)
  refine ⟨i, start, hi, hstart, fun j hj => hrefused j (Nat.zero_le j) hj, ?_⟩
  rw [searchSlots, if_neg (not_lt.mpr hle), if_neg (not_le.mpr hstep)]
  exact hends

/-- The loop has ended before its bound on the rounds: more rounds change nothing. -/
theorem searchSlotsFrom_fuel {s : EngineState} {relativeBundle : RelativeBundle}
    {range : SlotRange} (hle : range.earliest ≤ range.latest) (hstep : 0 < range.step.val)
    {fuel more k : Nat} {start : Timestamp}
    (hstart : start.val = range.earliest.val + k * range.step.val)
    (hfuel : range.lastIndex - k < fuel) :
    s.searchSlotsFrom relativeBundle range (fuel + more) start k =
      s.searchSlotsFrom relativeBundle range fuel start k := by
  induction fuel generalizing k start with
  | zero => omega
  | succ fuel ih =>
    rw [Nat.add_right_comm, searchSlotsFrom, searchSlotsFrom]
    refine bind_congr fun bundle => bind_congr fun admission => ?_
    cases admission with
    | available timelines => rfl
    | unavailable conflicts =>
      dsimp only
      split
      · rfl
      · cases hadd : start.checkedAdd range.step with
        | none => rfl
        | some next =>
          dsimp only
          split
          · rfl
          · rename_i hnot
            obtain ⟨hk', hstart'⟩ := next_candidate hle hstep hstart hadd (not_lt.mp hnot)
            exact ih hstart' (by omega)

/-- The first feasible slot of a range, without holding it. -/
def findFirstSlot (s : EngineState) (relativeBundle : RelativeBundle)
    (earliestStart latestStart : Timestamp) (step : I64) : Except DomainError (Option Slot) := do
  match ← s.searchSlots relativeBundle ⟨earliestStart, latestStart, step⟩ with
  | .found slot _ => return some slot
  | .unavailable _ => return none

/-! ## Comparison with the plain hold -/

/-- The expirations and checks that every kind of hold begins with. -/
inductive Begins (id : PromiseId) (expiresAt now : Timestamp) (s : EngineState) :
    EngineState → Option DomainError → Prop
  /-- An expiration fails. -/
  | expirationFailed {e : DomainError} {s₁ : EngineState}
      (h : processExpirations now s = .error e s₁) : Begins id expiresAt now s s₁ (some e)
  /-- The identity is in use. -/
  | taken {count : Nat} {s₁ : EngineState} (h : processExpirations now s = .ok count s₁)
      (present : s₁.promises.contains id = true) :
      Begins id expiresAt now s s₁ (some .promiseAlreadyExists)
  /-- The deadline has passed. -/
  | late {count : Nat} {s₁ : EngineState} (h : processExpirations now s = .ok count s₁)
      (absent : ¬s₁.promises.contains id = true) (late : expiresAt ≤ now) :
      Begins id expiresAt now s s₁ (some .invalidExpiration)
  /-- The hold goes on. -/
  | ready {count : Nat} {s₁ : EngineState} (h : processExpirations now s = .ok count s₁)
      (absent : ¬s₁.promises.contains id = true) (ahead : ¬expiresAt ≤ now) :
      Begins id expiresAt now s s₁ none

/-- Every hold begins with the expirations and the check of its deadline. -/
theorem begins_exists (id : PromiseId) (expiresAt now : Timestamp) (s : EngineState) :
    ∃ s₁ failure, Begins id expiresAt now s s₁ failure := by
  cases h : processExpirations now s with
  | error e s₁ => exact ⟨s₁, _, .expirationFailed h⟩
  | ok count s₁ =>
    by_cases hpresent : s₁.promises.contains id = true
    · exact ⟨s₁, _, .taken h hpresent⟩
    · by_cases hlate : expiresAt ≤ now
      · exact ⟨s₁, _, .late h hpresent hlate⟩
      · exact ⟨s₁, _, .ready h hpresent hlate⟩

/-- Every kind of hold fails with the first failure, or goes on with its own part. -/
theorem Begins.run {α : Type} {id : PromiseId} {expiresAt now : Timestamp} {s s₁ : EngineState}
    {failure : Option DomainError} (h : Begins id expiresAt now s s₁ failure)
    (f : EngineState → EngineM α) :
    (do
      let _ ← processExpirations now
      let s ← get
      if s.promises.contains id then throw .promiseAlreadyExists
      if expiresAt ≤ now then throw .invalidExpiration
      f s : EngineM α) s =
      failure.elim (f s₁ s₁) fun e => .error e s₁ := by
  cases h with
  | expirationFailed h => exact EStateM.bind_of_error h
  | taken h present =>
    rw [EStateM.bind_of_ok h, EStateM.get_bind_apply]
    simp only [present, if_true]
    rfl
  | late h absent late =>
    rw [EStateM.bind_of_ok h, EStateM.get_bind_apply]
    simp only [if_neg absent, if_pos late]
    rfl
  | ready h absent ahead =>
    rw [EStateM.bind_of_ok h, EStateM.get_bind_apply]
    simp only [if_neg absent, if_neg ahead]
    rfl

/-- A plain hold after the checks. -/
theorem Begins.holdWithIdAt {id : PromiseId} {expiresAt now : Timestamp} {s s₁ : EngineState}
    {failure : Option DomainError} (h : Begins id expiresAt now s s₁ failure) (bundle : Bundle) :
    EngineState.holdWithIdAt id bundle expiresAt now s =
      failure.elim
        (match s₁.evaluateBundleAdmission bundle with
        | .error e => .error e s₁
        | .ok (.unavailable conflicts) => .ok (.unavailable conflicts) s₁
        | .ok (.available timelines) =>
          (acceptHold id bundle expiresAt now timelines >>= fun _ => pure (.held id)) s₁)
        fun e => .error e s₁ := by
  unfold EngineState.holdWithIdAt
  refine (h.run _).trans ?_
  cases failure with
  | some e => rfl
  | none =>
    rw [Option.elim_none]
    cases s₁.evaluateBundleAdmission bundle with
    | error e => rfl
    | ok admission => cases admission <;> rfl

/-- A hold of the first slot after the checks. -/
theorem Begins.holdSlotAt {id : PromiseId} {expiresAt now : Timestamp} {s s₁ : EngineState}
    {failure : Option DomainError} (h : Begins id expiresAt now s s₁ failure)
    (relativeBundle : RelativeBundle) (range : SlotRange) :
    EngineState.holdSlotAt id relativeBundle range expiresAt now s =
      failure.elim
        (match s₁.searchSlots relativeBundle range with
        | .error e => .error e s₁
        | .ok (.unavailable attempts) => .ok (.unavailable attempts) s₁
        | .ok (.found slot timelines) =>
          (acceptHold id slot.bundle expiresAt now timelines >>= fun _ =>
            pure (.held id slot.start)) s₁)
        fun e => .error e s₁ := by
  unfold EngineState.holdSlotAt
  refine (h.run _).trans ?_
  cases failure with
  | some e => rfl
  | none =>
    rw [Option.elim_none]
    cases s₁.searchSlots relativeBundle range with
    | error e => rfl
    | ok search => cases search <;> rfl

/-- A hold of a choice after the checks. -/
theorem Begins.holdChoiceAt {id : PromiseId} {expiresAt now : Timestamp} {s s₁ : EngineState}
    {failure : Option DomainError} (h : Begins id expiresAt now s s₁ failure) (choice : Choice) :
    EngineState.holdChoiceAt id choice expiresAt now s =
      failure.elim (holdAlternatives id expiresAt now 0 [] choice.alternatives s₁)
        fun e => .error e s₁ :=
  h.run fun _ => holdAlternatives id expiresAt now 0 [] choice.alternatives

/-- The result of an operation under another name. -/
theorem map_apply {α β : Type} (f : α → β) (x : EngineM α) (s : EngineState) :
    (do return f (← x) : EngineM β) s =
      match x s with
      | .ok a s' => .ok (f a) s'
      | .error e s' => .error e s' := by
  cases h : x s with
  | ok a s' => exact EStateM.bind_of_ok h
  | error e s' => exact EStateM.bind_of_error h

/-- A plain hold as an operation. -/
abbrev plainHold (id : PromiseId) (bundle : Bundle) (expiresAt now : Timestamp) (s : EngineState) :
    EStateM.Result DomainError EngineState CommandResult :=
  applyOnce (.hold id bundle expiresAt) now s

/-- The plain hold of a bundle is refused, leaving a state. -/
def Refuses (id : PromiseId) (bundle : Bundle) (expiresAt now : Timestamp) (s s' : EngineState)
    (conflicts : List AvailabilityConflict) : Prop :=
  plainHold id bundle expiresAt now s = .ok (.holdCompleted (.unavailable conflicts)) s'

/-- A plain hold goes on after its beginning. -/
theorem Begins.plainHold {id : PromiseId} {expiresAt now : Timestamp} {s s₁ : EngineState}
    {failure : Option DomainError} (h : Begins id expiresAt now s s₁ failure) (bundle : Bundle) :
    EngineState.plainHold id bundle expiresAt now s =
      failure.elim
        (match s₁.evaluateBundleAdmission bundle with
        | .error e => .error e s₁
        | .ok (.unavailable conflicts) => .ok (.holdCompleted (.unavailable conflicts)) s₁
        | .ok (.available timelines) =>
          match acceptHold id bundle expiresAt now timelines s₁ with
          | .ok _ s' => .ok (.holdCompleted (.held id)) s'
          | .error e s' => .error e s')
        fun e => .error e s₁ := by
  refine (map_apply CommandResult.holdCompleted _ s).trans ?_
  rw [h.holdWithIdAt bundle]
  cases failure with
  | some e => rfl
  | none =>
    rw [Option.elim_none]
    cases s₁.evaluateBundleAdmission bundle with
    | error e => rfl
    | ok admission =>
      cases admission with
      | unavailable conflicts => rfl
      | available timelines =>
        dsimp only
        cases hrun : acceptHold id bundle expiresAt now timelines s₁ with
        | ok u s' => rw [EStateM.bind_of_ok hrun]; rfl
        | error e s' => rw [EStateM.bind_of_error hrun]; rfl

/-- When nothing fails before, a bundle that is not admitted is refused, and conversely. -/
theorem Begins.refuses_iff {id : PromiseId} {expiresAt now : Timestamp} {s s₁ : EngineState}
    (h : Begins id expiresAt now s s₁ none) {bundle : Bundle}
    {conflicts : List AvailabilityConflict} :
    Refuses id bundle expiresAt now s s₁ conflicts ↔
      s₁.evaluateBundleAdmission bundle = .ok (.unavailable conflicts) := by
  rw [Refuses, h.plainHold bundle, Option.elim_none]
  cases s₁.evaluateBundleAdmission bundle with
  | error e => simp
  | ok admission =>
    cases admission with
    | unavailable conflicts' => simp
    | available timelines =>
      dsimp only
      cases acceptHold id bundle expiresAt now timelines s₁ <;> simp

/-! ## Holds of the first slot -/

/-- The plain hold of the candidate at a position is refused. -/
def RefusesAt (id : PromiseId) (relativeBundle : RelativeBundle) (range : SlotRange)
    (expiresAt now : Timestamp) (s : EngineState) (k : Nat) : Prop :=
  ∃ start bundle conflicts s', CandidateAt relativeBundle range k start bundle ∧
    Refuses id bundle expiresAt now s s' conflicts

/-- A hold of the first slot as an operation. -/
abbrev slotHold (id : PromiseId) (relativeBundle : RelativeBundle) (range : SlotRange)
    (expiresAt now : Timestamp) (s : EngineState) :
    EStateM.Result DomainError EngineState CommandResult :=
  applyOnce (.holdFirstSlot id relativeBundle range.earliest range.latest range.step expiresAt) now s

/-- A hold of the first slot ends like the plain hold of the candidate: it holds its bundle and
leaves the same state, it fails alike, or the last candidate is refused like all others. -/
inductive SlotEnds (id : PromiseId) (relativeBundle : RelativeBundle) (range : SlotRange)
    (expiresAt now : Timestamp) (s : EngineState) (k : Nat) (start : Timestamp) (bundle : Bundle) :
    Prop
  /-- The candidate is held, and it is the first feasible slot after the expirations. -/
  | held {s' : EngineState}
      (plain : plainHold id bundle expiresAt now s = .ok (.holdCompleted (.held id)) s')
      (slot : slotHold id relativeBundle range expiresAt now s =
        .ok (.slotCompleted (.held id start)) s')
      (found : ∀ count s₁, processExpirations now s = .ok count s₁ →
        s₁.findFirstSlot relativeBundle range.earliest range.latest range.step =
          .ok (some ⟨start, bundle⟩))
  /-- Both fail with the same error in the same state. -/
  | failed {e : DomainError} {s' : EngineState}
      (plain : plainHold id bundle expiresAt now s = .error e s')
      (slot : slotHold id relativeBundle range expiresAt now s = .error e s')
  /-- The last candidate is refused, and there is no feasible slot after the expirations. -/
  | unavailable {conflicts : List AvailabilityConflict} {s' : EngineState}
      (last : k = range.lastIndex) (plain : Refuses id bundle expiresAt now s s' conflicts)
      (slot : slotHold id relativeBundle range expiresAt now s =
        .ok (.slotCompleted (.unavailable (range.lastIndex + 1))) s')
      (found : ∀ count s₁, processExpirations now s = .ok count s₁ →
        s₁.findFirstSlot relativeBundle range.earliest range.latest range.step = .ok none)

/-- The hold of a slot goes on after its beginning. -/
theorem Begins.slotHold {id : PromiseId} {expiresAt now : Timestamp} {s s₁ : EngineState}
    {failure : Option DomainError} (h : Begins id expiresAt now s s₁ failure)
    (relativeBundle : RelativeBundle) (range : SlotRange) :
    EngineState.slotHold id relativeBundle range expiresAt now s =
      failure.elim
        (match s₁.searchSlots relativeBundle range with
        | .error e => .error e s₁
        | .ok (.unavailable attempts) => .ok (.slotCompleted (.unavailable attempts)) s₁
        | .ok (.found slot timelines) =>
          match acceptHold id slot.bundle expiresAt now timelines s₁ with
          | .ok _ s' => .ok (.slotCompleted (.held id slot.start)) s'
          | .error e s' => .error e s')
        fun e => .error e s₁ := by
  refine (map_apply CommandResult.slotCompleted _ s).trans ?_
  rw [h.holdSlotAt relativeBundle range]
  cases failure with
  | some e => rfl
  | none =>
    rw [Option.elim_none]
    cases s₁.searchSlots relativeBundle range with
    | error e => rfl
    | ok search =>
      cases search with
      | unavailable attempts => rfl
      | found slot timelines =>
        dsimp only
        cases hrun : acceptHold id slot.bundle expiresAt now timelines s₁ with
        | ok u s' => rw [EStateM.bind_of_ok hrun]; rfl
        | error e s' => rw [EStateM.bind_of_error hrun]; rfl

/-- After the checks, the expirations have ended in the state that is searched. -/
theorem Begins.expired {id : PromiseId} {expiresAt now : Timestamp} {s s₁ : EngineState}
    (h : Begins id expiresAt now s s₁ none) {count : Nat} {s₂ : EngineState}
    (hexpired : processExpirations now s = .ok count s₂) : s₂ = s₁ := by
  cases h with
  | ready h absent ahead =>
    rw [h] at hexpired
    cases hexpired
    rfl

/-- A hold of the first slot of a valid range ends like the plain hold of the first candidate
that is not refused, or of the last one, when the candidates up to it have bundles. -/
theorem slotHold_spec {id : PromiseId} {relativeBundle : RelativeBundle} {range : SlotRange}
    {expiresAt now : Timestamp} {s : EngineState} (hle : range.earliest ≤ range.latest)
    (hstep : 0 < range.step.val)
    (hbundles : ∀ k ≤ range.lastIndex,
      (∀ j < k, RefusesAt id relativeBundle range expiresAt now s j) →
      ∃ start bundle, CandidateAt relativeBundle range k start bundle) :
    ∃ k start bundle, k ≤ range.lastIndex ∧ CandidateAt relativeBundle range k start bundle ∧
      (∀ j < k, RefusesAt id relativeBundle range expiresAt now s j) ∧
      SlotEnds id relativeBundle range expiresAt now s k start bundle := by
  obtain ⟨s₁, failure, hbegins⟩ := begins_exists id expiresAt now s
  cases failure with
  | some e =>
    -- the first candidate already shows the failure
    have hnone : ∀ j < 0, RefusesAt id relativeBundle range expiresAt now s j :=
      fun j hj => absurd hj (Nat.not_lt_zero j)
    obtain ⟨start, bundle, hcandidate⟩ := hbundles 0 (Nat.zero_le _) hnone
    exact ⟨0, start, bundle, Nat.zero_le _, hcandidate, hnone,
      .failed (hbegins.plainHold bundle) (hbegins.slotHold relativeBundle range)⟩
  | none =>
    obtain ⟨k, start, hk, hstart, hbefore, hends⟩ := searchSlots_spec s₁ relativeBundle hle hstep
    have hrefuses : ∀ j < k, RefusesAt id relativeBundle range expiresAt now s j := by
      intro j hj
      obtain ⟨start', bundle, conflicts, hcandidate, hrefused⟩ := hbefore j hj
      exact ⟨start', bundle, conflicts, s₁, hcandidate, hbegins.refuses_iff.mpr hrefused⟩
    obtain ⟨start', bundle, hcandidate⟩ := hbundles k hk hrefuses
    obtain rfl : start' = start := Subtype.ext (hcandidate.1.trans hstart.symm)
    refine ⟨k, start', bundle, hk, hcandidate, hrefuses, ?_⟩
    have hplain := hbegins.plainHold bundle
    have hslot := hbegins.slotHold relativeBundle range
    rw [Option.elim_none] at hplain hslot
    have hfind (count : Nat) (s₂ : EngineState) (h : processExpirations now s = .ok count s₂) :
        s₂.findFirstSlot relativeBundle range.earliest range.latest range.step =
          (s₁.searchSlots relativeBundle range).bind fun search =>
            match search with
            | .found slot _ => .ok (some slot)
            | .unavailable _ => .ok none := by
      rw [hbegins.expired h, findFirstSlot]
      cases s₁.searchSlots relativeBundle range with
      | error e => rfl
      | ok search => cases search <;> rfl
    generalize s₁.searchSlots relativeBundle range = search at hends hslot hfind
    cases hends with
    | unmaterialized h => cases h.symm.trans hcandidate.2
    | failed h failed =>
      obtain rfl := Except.ok.inj (h.symm.trans hcandidate.2)
      rw [failed] at hplain
      exact .failed hplain hslot
    | @found _ timelines h admitted =>
      obtain rfl := Except.ok.inj (h.symm.trans hcandidate.2)
      rw [admitted] at hplain
      dsimp only at hplain hslot
      cases hrun : acceptHold id _ expiresAt now timelines s₁ with
      | ok u s' =>
        rw [hrun] at hplain hslot
        exact .held hplain hslot hfind
      | error e s' =>
        rw [hrun] at hplain hslot
        exact .failed hplain hslot
    | exhausted h refused last =>
      obtain rfl := Except.ok.inj (h.symm.trans hcandidate.2)
      rw [refused] at hplain
      rw [last] at hslot
      exact .unavailable last hplain hslot hfind

/-! ## Holds of a choice -/

/-- A hold of a choice as an operation. -/
abbrev choiceHold (id : PromiseId) (choice : Choice) (expiresAt now : Timestamp) (s : EngineState) :
    EStateM.Result DomainError EngineState CommandResult :=
  applyOnce (.holdOneOf id choice expiresAt) now s

/-- How the loop over the alternatives ends. -/
inductive AlternativesEnd (id : PromiseId) (expiresAt now : Timestamp) (s : EngineState)
    (alternatives : List Bundle) (first : Nat) (before : List ChoiceConflict) :
    EStateM.Result DomainError EngineState ChoiceOutcome → Prop
  /-- At an alternative that cannot be evaluated. -/
  | failed {i : Nat} {bundle : Bundle} {e : DomainError} (h : alternatives[i]? = some bundle)
      (refused : ∀ j < i, ∃ b conflicts, alternatives[j]? = some b ∧
        s.evaluateBundleAdmission b = .ok (.unavailable conflicts))
      (failed : s.evaluateBundleAdmission bundle = .error e) :
      AlternativesEnd id expiresAt now s alternatives first before (.error e s)
  /-- At an alternative that is admitted. -/
  | found {i : Nat} {bundle : Bundle} {timelines : OrderedMap ResourcePoolId SlackTimeline}
      (h : alternatives[i]? = some bundle)
      (refused : ∀ j < i, ∃ b conflicts, alternatives[j]? = some b ∧
        s.evaluateBundleAdmission b = .ok (.unavailable conflicts))
      (admitted : s.evaluateBundleAdmission bundle = .ok (.available timelines)) :
      AlternativesEnd id expiresAt now s alternatives first before
        ((acceptHold id bundle expiresAt now timelines >>= fun _ =>
          pure (.held id (first + i))) s)
  /-- Behind the last alternative. -/
  | exhausted {conflicts : List ChoiceConflict}
      (refused : List.Forall₂ (fun bundle (conflict : ChoiceConflict) =>
        s.evaluateBundleAdmission bundle = .ok (.unavailable conflict.conflicts))
        alternatives conflicts)
      (positions : conflicts.map (·.alternativeIndex) = List.range' first conflicts.length) :
      AlternativesEnd id expiresAt now s alternatives first before
        (.ok (.unavailable (before ++ conflicts)) s)

/-- The loop ends at the first alternative that is not refused, or behind the last one. -/
theorem holdAlternatives_spec (id : PromiseId) (expiresAt now : Timestamp) (s : EngineState)
    (alternatives : List Bundle) (first : Nat) (before : List ChoiceConflict) :
    AlternativesEnd id expiresAt now s alternatives first before
      (holdAlternatives id expiresAt now first before alternatives s) := by
  induction alternatives generalizing first before with
  | nil =>
    have h : AlternativesEnd id expiresAt now s [] first before
        (.ok (.unavailable (before ++ [])) s) := .exhausted .nil rfl
    rwa [List.append_nil] at h
  | cons bundle rest ih =>
    rw [holdAlternatives, EStateM.get_bind_apply]
    have hnone : ∀ j < 0, ∃ b conflicts, (bundle :: rest)[j]? = some b ∧
        s.evaluateBundleAdmission b = .ok (.unavailable conflicts) :=
      fun j hj => absurd hj (Nat.not_lt_zero j)
    cases hadm : s.evaluateBundleAdmission bundle with
    | error e => exact .failed (i := 0) rfl hnone hadm
    | ok admission =>
      cases admission with
      | available timelines => exact .found (i := 0) rfl hnone hadm
      | unavailable conflicts =>
        -- the refused alternative comes before those of the rest
        have hlater {i : Nat} (h : ∀ j < i, ∃ b conflicts, rest[j]? = some b ∧
            s.evaluateBundleAdmission b = .ok (.unavailable conflicts)) :
            ∀ j < i + 1, ∃ b conflicts, (bundle :: rest)[j]? = some b ∧
              s.evaluateBundleAdmission b = .ok (.unavailable conflicts) := by
          intro j hj
          cases j with
          | zero => exact ⟨bundle, conflicts, rfl, hadm⟩
          | succ j => exact h j (by omega)
        change AlternativesEnd id expiresAt now s (bundle :: rest) first before (holdAlternatives id
          expiresAt now (first + 1) (before ++ [⟨first, conflicts⟩]) rest s)
        have h := ih (first + 1) (before ++ [⟨first, conflicts⟩])
        generalize holdAlternatives id expiresAt now (first + 1) (before ++ [⟨first, conflicts⟩])
          rest s = r at h
        cases h with
        | @failed i _ _ h refused failed => exact .failed (i := i + 1) h (hlater refused) failed
        | @found i _ _ h refused admitted =>
          rw [Nat.add_right_comm, Nat.add_assoc]
          exact .found (i := i + 1) h (hlater refused) admitted
        | @exhausted more refused positions =>
          rw [List.append_assoc]
          refine .exhausted (.cons hadm refused) ?_
          rw [List.singleton_append, List.map_cons, positions]
          rfl

/-- A hold of a choice ends like the plain hold of an alternative: it holds it and leaves the same
state, or it fails alike, or every alternative is refused with the conflicts of its plain hold. -/
inductive ChoiceEnds (id : PromiseId) (choice : Choice) (expiresAt now : Timestamp)
    (s : EngineState) : Prop
  /-- The first alternative that is not refused is held. -/
  | held {i : Nat} {bundle : Bundle} {s' : EngineState} (h : choice.alternatives[i]? = some bundle)
      (before : ∀ j < i, ∃ b conflicts s', choice.alternatives[j]? = some b ∧
        Refuses id b expiresAt now s s' conflicts)
      (plain : plainHold id bundle expiresAt now s = .ok (.holdCompleted (.held id)) s')
      (choice : choiceHold id choice expiresAt now s = .ok (.choiceCompleted (.held id i)) s')
  /-- The first alternative that is not refused fails with the same error in the same state. -/
  | failed {i : Nat} {bundle : Bundle} {e : DomainError} {s' : EngineState}
      (h : choice.alternatives[i]? = some bundle)
      (before : ∀ j < i, ∃ b conflicts s', choice.alternatives[j]? = some b ∧
        Refuses id b expiresAt now s s' conflicts)
      (plain : plainHold id bundle expiresAt now s = .error e s')
      (choice : choiceHold id choice expiresAt now s = .error e s')
  /-- Every alternative is refused, with its own conflicts. -/
  | unavailable {conflicts : List ChoiceConflict} {s' : EngineState}
      (refused : List.Forall₂ (fun bundle (conflict : ChoiceConflict) =>
        Refuses id bundle expiresAt now s s' conflict.conflicts) choice.alternatives conflicts)
      (positions : conflicts.map (·.alternativeIndex) = List.range conflicts.length)
      (choice : choiceHold id choice expiresAt now s =
        .ok (.choiceCompleted (.unavailable conflicts)) s')

/-- Every hold of a choice ends like a plain hold of one of its alternatives. -/
theorem choiceHold_spec (id : PromiseId) (choice : Choice) (expiresAt now : Timestamp)
    (s : EngineState) : ChoiceEnds id choice expiresAt now s := by
  obtain ⟨s₁, failure, hbegins⟩ := begins_exists id expiresAt now s
  have hchoice := map_apply CommandResult.choiceCompleted
    (EngineState.holdChoiceAt id choice expiresAt now) s
  rw [hbegins.holdChoiceAt choice] at hchoice
  cases failure with
  | some e =>
    -- the first alternative already shows the failure
    have hlen : 0 < choice.alternatives.length :=
      List.length_pos_of_ne_nil choice.alternatives_ne_nil
    exact .failed (List.getElem?_eq_getElem hlen) (fun j hj => absurd hj (Nat.not_lt_zero j))
      (hbegins.plainHold _) hchoice
  | none =>
    rw [Option.elim_none] at hchoice
    have hends := holdAlternatives_spec id expiresAt now s₁ choice.alternatives 0 []
    have hrefuses {i : Nat} (h : ∀ j < i, ∃ b conflicts, choice.alternatives[j]? = some b ∧
        s₁.evaluateBundleAdmission b = .ok (.unavailable conflicts)) :
        ∀ j < i, ∃ b conflicts s', choice.alternatives[j]? = some b ∧
          Refuses id b expiresAt now s s' conflicts := by
      intro j hj
      obtain ⟨b, conflicts, hb, hrefused⟩ := h j hj
      exact ⟨b, conflicts, s₁, hb, hbegins.refuses_iff.mpr hrefused⟩
    generalize holdAlternatives id expiresAt now 0 [] choice.alternatives s₁ = r at hends hchoice
    cases hends with
    | @failed i bundle e h refused failed =>
      have hplain := hbegins.plainHold bundle
      rw [Option.elim_none, failed] at hplain
      exact .failed h (hrefuses refused) hplain hchoice
    | @found i bundle timelines h refused admitted =>
      have hplain := hbegins.plainHold bundle
      rw [Option.elim_none, admitted] at hplain
      dsimp only at hplain
      cases hrun : acceptHold id bundle expiresAt now timelines s₁ with
      | ok u s' =>
        rw [EStateM.bind_of_ok hrun, Nat.zero_add] at hchoice
        rw [hrun] at hplain
        exact .held h (hrefuses refused) hplain hchoice
      | error e s' =>
        rw [EStateM.bind_of_error hrun] at hchoice
        rw [hrun] at hplain
        exact .failed h (hrefuses refused) hplain hchoice
    | @exhausted conflicts refused positions =>
      rw [List.nil_append] at hchoice
      refine .unavailable (refused.imp fun _ _ h => hbegins.refuses_iff.mpr h) ?_ hchoice
      rw [positions, List.range_eq_range']

/-- The search-based holds refine the plain hold.  The search of a valid range ends before its
bound on the rounds, and a hold of the first slot ends like the plain hold of the first candidate
that is not refused, when the candidates that it tries have bundles; a hold of a choice ends like
the plain hold of its first alternative that is not refused.  When all are refused, the answers
have the number of candidates and the conflicts of each alternative. -/
theorem search_holds_refine_hold (s : EngineState) (id : PromiseId) (expiresAt now : Timestamp) :
    (∀ (relativeBundle : RelativeBundle) (range : SlotRange), range.earliest ≤ range.latest →
      0 < range.step.val →
      (∀ (s₁ : EngineState) (more : Nat),
        s₁.searchSlotsFrom relativeBundle range (range.fuel + more) range.earliest 0 =
          s₁.searchSlotsFrom relativeBundle range range.fuel range.earliest 0) ∧
      ((∀ k ≤ range.lastIndex,
        (∀ j < k, RefusesAt id relativeBundle range expiresAt now s j) →
        ∃ start bundle, CandidateAt relativeBundle range k start bundle) →
      ∃ k start bundle, k ≤ range.lastIndex ∧ CandidateAt relativeBundle range k start bundle ∧
        (∀ j < k, RefusesAt id relativeBundle range expiresAt now s j) ∧
        SlotEnds id relativeBundle range expiresAt now s k start bundle)) ∧
    ∀ choice : Choice, ChoiceEnds id choice expiresAt now s := by
  refine ⟨?_, fun choice => choiceHold_spec id choice expiresAt now s⟩
  intro relativeBundle range hle hstep
  refine ⟨?_, slotHold_spec hle hstep⟩
  intro s₁ more
  refine searchSlotsFrom_fuel hle hstep (by simp) ?_
  have := lastIndex_lt_fuel hle hstep
  omega

/-- A range of three candidate starts. -/
def sampleRange : SlotRange := ⟨Engine.sampleTime 0, Engine.sampleTime 20, Engine.sampleTime 10⟩

/-- The sample times are in order. -/
theorem sampleTime_zero_lt_ten : Engine.sampleTime 0 < Engine.sampleTime 10 := by decide

/-- Six units are something. -/
theorem sampleQuantity_six_pos : 0 < (Engine.sampleQuantity 6).val := by decide

/-- Six units are not too many. -/
theorem sampleQuantity_six_le : Engine.sampleQuantity 6 ≤ maxQuantity := by decide

/-- Six units during ten ticks from a start. -/
def sampleRelativeClaim : RelativeClaim where
  poolId := Engine.samplePoolId
  startOffset := Engine.sampleTime 0
  endOffset := Engine.sampleTime 10
  quantity := Engine.sampleQuantity 6
  start_lt_end := sampleTime_zero_lt_ten
  quantity_pos := sampleQuantity_six_pos
  quantity_le := sampleQuantity_six_le

/-- There is a claim. -/
theorem sampleRelativeClaims_ne_nil : [sampleRelativeClaim] ≠ [] := List.cons_ne_nil _ _

/-- The claim of six units on its own. -/
def sampleRelativeBundle : RelativeBundle := ⟨[sampleRelativeClaim], sampleRelativeClaims_ne_nil⟩

/-- After the sample run only five units are left during the first ten ticks, so six units are
held from the second candidate start on, like by the plain hold there. -/
theorem search_holds_refine_hold_sample :
    ∃ k start bundle, k ≤ sampleRange.lastIndex ∧
      CandidateAt sampleRelativeBundle sampleRange k start bundle ∧
      (∀ j < k, RefusesAt ⟨⟨2, by decide⟩⟩ sampleRelativeBundle sampleRange (Engine.sampleTime 60)
        (Engine.sampleTime 2) Engine.sampleEngine.state j) ∧
      SlotEnds ⟨⟨2, by decide⟩⟩ sampleRelativeBundle sampleRange (Engine.sampleTime 60)
        (Engine.sampleTime 2) Engine.sampleEngine.state k start bundle := by
  have hlast : sampleRange.lastIndex = 2 := by decide +kernel
  refine ((search_holds_refine_hold Engine.sampleEngine.state ⟨⟨2, by decide⟩⟩
    (Engine.sampleTime 60) (Engine.sampleTime 2)).1 sampleRelativeBundle sampleRange
    (by decide +kernel) (by decide +kernel)).2 ?_
  intro k hk _
  rw [hlast] at hk
  have hstarts : ∀ k ≤ 2, ∃ start bundle,
      CandidateAt sampleRelativeBundle sampleRange k start bundle := by
    intro k hk
    interval_cases k
    · exact ⟨Engine.sampleTime 0, Engine.sampleBundle 0 10 6 (by decide) (by decide),
        by decide +kernel, by decide +kernel⟩
    · exact ⟨Engine.sampleTime 10, Engine.sampleBundle 10 10 6 (by decide) (by decide),
        by decide +kernel, by decide +kernel⟩
    · exact ⟨Engine.sampleTime 20, Engine.sampleBundle 20 10 6 (by decide) (by decide),
        by decide +kernel, by decide +kernel⟩
  exact hstarts k hk

example : (slotHold ⟨⟨2, by decide⟩⟩ sampleRelativeBundle sampleRange (Engine.sampleTime 60)
    (Engine.sampleTime 2) Engine.sampleEngine.state).finalState.events.length = 3 := by
  decide +kernel

end EngineState

end PromiseDb
