import PromiseDb.Engine.Publication
import PromiseDb.Engine.Transition

/-!
# Reachable engines

An engine is reachable when it is the result of applying commands, one after another and each at
any timestamp, to the empty engine.  A property of states that every transition keeps, and that
does not depend on the cached responses, holds of every reachable state; this is the only
induction over runs of commands that the invariants need.
-/

namespace PromiseDb

open EngineState

namespace Engine

variable (blake3 : List UInt8 → CommandHash)

/-- The engines reached by commands that satisfy a condition. -/
inductive ReachableBy (allowed : Command → Prop) : Engine → Prop
  | empty : ReachableBy allowed Engine.empty
  | apply {e : Engine} {command : Command} {now : Timestamp} (h : ReachableBy allowed e)
      (ok : allowed command) : ReachableBy allowed (Engine.apply blake3 e command now).2

/-- The engines reached by commands. -/
abbrev Reachable : Engine → Prop := ReachableBy blake3 fun _ => True

variable {blake3}

/-- The state after an operation, without its cached response. -/
theorem executeOnce_snd (s : EngineState) (command : Command) (now : Timestamp) :
    (executeOnce blake3 s command now).2 =
      { (applyOnce command.operation now s).finalState with
        idempotencyRecords := (applyOnce command.operation now s).finalState.idempotencyRecords.insert
          command.identity ⟨hashOperation blake3 command.operation,
            (executeOnce blake3 s command now).1⟩ } := by
  unfold executeOnce
  cases applyOnce command.operation now s <;> rfl

/-- The response of an operation. -/
theorem executeOnce_fst (s : EngineState) (command : Command) (now : Timestamp) :
    (executeOnce blake3 s command now).1 =
      match applyOnce command.operation now s with
      | .ok result _ => .ok result
      | .error error _ => .error error := by
  unfold executeOnce
  cases applyOnce command.operation now s <;> rfl

end Engine

namespace EngineState

/-- A property that every expiration keeps holds after the expirations. -/
theorem Expirations.invariant {P : EngineState → Prop} {now : Timestamp} {s s' : EngineState}
    (hstep : ∀ s s' id, P s → Transition now (.expire id) s s' → P s') (h : Expirations now s s')
    (hs : P s) : P s' := by
  induction h with
  | refl => exact hs
  | tail _ hlast ih =>
    obtain ⟨id, hid⟩ := hlast
    exact hstep _ _ id ih hid

/-- A property that every transition of the operation keeps holds after the operation. -/
theorem applyOnce_invariant {P : EngineState → Prop} {Q : Change → Prop}
    {operation : CommandOperation} {now : Timestamp} {s : EngineState}
    (hexpire : ∀ id, Q (.expire id))
    (hchange : ∀ change result, Answers operation change result → Q change)
    (hstep : ∀ change s s', Q change → P s → Transition now change s s' → P s') (hs : P s) :
    P (applyOnce operation now s).finalState := by
  obtain ⟨s₁, hs₁, hcompletes⟩ := applyOnce_cases (r := applyOnce operation now s) rfl
  have hP₁ : P s₁ := hs₁.invariant (fun s s' id => hstep (.expire id) s s' (hexpire id)) hs
  generalize applyOnce operation now s = r at hcompletes
  cases hcompletes with
  | failed error => exact hP₁
  | declined h => exact hP₁
  | accepted h answers => exact hstep _ _ _ (hchange _ _ answers) hP₁ h

/-- A transition does not touch the cached responses. -/
theorem Transition.records {now : Timestamp} {change : Change} {s s' : EngineState}
    (h : Transition now change s s') : s'.idempotencyRecords = s.idempotencyRecords := by
  cases h <;> rfl

/-- An operation does not touch the cached responses. -/
theorem applyOnce_records (operation : CommandOperation) (now : Timestamp) (s : EngineState) :
    (applyOnce operation now s).finalState.idempotencyRecords = s.idempotencyRecords :=
  applyOnce_invariant (P := fun s' => s'.idempotencyRecords = s.idempotencyRecords)
    (Q := fun _ => True) (fun _ => trivial) (fun _ _ _ => trivial)
    (fun _ _ _ _ hs hstep => hstep.records.trans hs) rfl

end EngineState

namespace Engine

variable {blake3 : List UInt8 → CommandHash}

/-- The property holds after a first-seen command. -/
theorem executeOnce_invariant {P : EngineState → Prop} {Q : Change → Prop} {command : Command}
    {now : Timestamp} {s : EngineState} (hexpire : ∀ id, Q (.expire id))
    (hchange : ∀ change result, Answers command.operation change result → Q change)
    (hstep : ∀ change s s', Q change → P s → Transition now change s s' → P s')
    (hrecords : ∀ s records, P s → P { s with idempotencyRecords := records }) (hs : P s) :
    P (executeOnce blake3 s command now).2 := by
  rw [executeOnce_snd]
  exact hrecords _ _ (applyOnce_invariant hexpire hchange hstep hs)

/-- What applying a command does: it answers from the cache, refuses, or executes. -/
theorem apply_cases (e : Engine) (command : Command) (now : Timestamp) :
    (∃ record, e.state.idempotencyRecords[command.identity]? = some record ∧
      apply blake3 e command now =
        (cachedResponse record (hashOperation blake3 command.operation), e)) ∨
    (e.state.idempotencyRecords[command.identity]? = none ∧ e.nextRevision = none ∧
      apply blake3 e command now = (.error .publicationRevisionOverflow, e)) ∨
    ∃ next, e.state.idempotencyRecords[command.identity]? = none ∧ e.nextRevision = some next ∧
      apply blake3 e command now = ((executeOnce blake3 e.state command now).1,
        ⟨(executeOnce blake3 e.state command now).2, next⟩) := by
  unfold apply
  cases hrecord : e.state.idempotencyRecords[command.identity]? with
  | some record => exact .inl ⟨record, rfl, rfl⟩
  | none =>
    cases hnext : e.nextRevision with
    | none => exact .inr (.inl ⟨rfl, rfl, rfl⟩)
    | some next => exact .inr (.inr ⟨next, rfl, rfl, rfl⟩)

/-- A property that holds of the empty state and that every allowed transition keeps holds of
every reachable state. -/
theorem ReachableBy.invariant {allowed : Command → Prop} {P : EngineState → Prop}
    {Q : Change → Prop} (hempty : P .empty) (hexpire : ∀ id, Q (.expire id))
    (hchange : ∀ command, allowed command → ∀ change result,
      Answers command.operation change result → Q change)
    (hstep : ∀ now change s s', Q change → P s → Transition now change s s' → P s')
    (hrecords : ∀ s records, P s → P { s with idempotencyRecords := records }) {e : Engine}
    (h : ReachableBy blake3 allowed e) : P e.state := by
  induction h with
  | empty => exact hempty
  | @apply e command now _ ok ih =>
    obtain ⟨record, -, heq⟩ | ⟨-, -, heq⟩ | ⟨next, -, -, heq⟩ :=
      apply_cases e command now <;> rw [heq]
    · exact ih
    · exact ih
    · exact executeOnce_invariant hexpire (hchange command ok) (hstep now) hrecords ih

/-- The induction for runs without a condition on the commands. -/
theorem Reachable.invariant {P : EngineState → Prop} (hempty : P .empty)
    (hstep : ∀ now change s s', P s → Transition now change s s' → P s')
    (hrecords : ∀ s records, P s → P { s with idempotencyRecords := records }) {e : Engine}
    (h : Reachable blake3 e) : P e.state :=
  ReachableBy.invariant (Q := fun _ => True) hempty (fun _ => trivial) (fun _ _ _ _ _ => trivial)
    (fun now change s s' _ => hstep now change s s') hrecords h

/-! ## Applying commands in order -/

/-- Applies commands one after another. -/
def applyAll (blake3 : List UInt8 → CommandHash) (e : Engine) :
    List (Command × Timestamp) → List CommandResponse × Engine
  | [] => ([], e)
  | (command, now) :: rest =>
    let (response, e') := apply blake3 e command now
    let (responses, e'') := applyAll blake3 e' rest
    (response :: responses, e'')

/-- Commands are applied in parts. -/
theorem applyAll_append (e : Engine) (l r : List (Command × Timestamp)) :
    applyAll blake3 e (l ++ r) =
      ((applyAll blake3 e l).1 ++ (applyAll blake3 (applyAll blake3 e l).2 r).1,
        (applyAll blake3 (applyAll blake3 e l).2 r).2) := by
  induction l generalizing e with
  | nil => rfl
  | cons entry rest ih =>
    obtain ⟨command, now⟩ := entry
    rw [List.cons_append, applyAll, applyAll]
    dsimp only
    rw [ih]
    rfl

/-- The engine after commands applied one after another is reachable. -/
theorem ReachableBy.applyAll {allowed : Command → Prop} {e : Engine}
    (h : ReachableBy blake3 allowed e) {commands : List (Command × Timestamp)}
    (hallowed : ∀ entry ∈ commands, allowed entry.1) :
    ReachableBy blake3 allowed (applyAll blake3 e commands).2 := by
  induction commands generalizing e with
  | nil => exact h
  | cons entry rest ih =>
    exact ih (h.apply (hallowed entry (by simp))) fun a ha => hallowed a (List.mem_cons_of_mem _ ha)

/-- A property that every transition keeps, and that does not depend on the cached responses, is
kept by applying a command. -/
theorem apply_invariant {P : EngineState → Prop}
    (hstep : ∀ now change s s', P s → Transition now change s s' → P s')
    (hrecords : ∀ s records, P s → P { s with idempotencyRecords := records }) (command : Command)
    (now : Timestamp) {e : Engine} (h : P e.state) : P (apply blake3 e command now).2.state := by
  obtain ⟨record, -, heq⟩ | ⟨-, -, heq⟩ | ⟨next, -, -, heq⟩ :=
    apply_cases e command now <;> rw [heq]
  · exact h
  · exact h
  · exact executeOnce_invariant (Q := fun _ => True) (fun _ => trivial) (fun _ _ _ => trivial)
      (fun change s s' _ => hstep now change s s') hrecords h

/-- Such a property is kept along a run. -/
theorem applyAll_invariant {P : EngineState → Prop}
    (hstep : ∀ now change s s', P s → Transition now change s s' → P s')
    (hrecords : ∀ s records, P s → P { s with idempotencyRecords := records })
    (commands : List (Command × Timestamp)) {e : Engine} (h : P e.state) :
    P (applyAll blake3 e commands).2.state := by
  induction commands generalizing e with
  | nil => exact h
  | cons entry rest ih => exact ih (apply_invariant hstep hrecords entry.1 entry.2 h)

/-! ## Cached responses -/

/-- Executing a command caches its response and keeps the other records. -/
theorem executeOnce_record (s : EngineState) (command : Command) (now : Timestamp) :
    (executeOnce blake3 s command now).2.idempotencyRecords[command.identity]? =
      some ⟨hashOperation blake3 command.operation, (executeOnce blake3 s command now).1⟩ := by
  rw [executeOnce_snd, OrderedMap.lookup_insert_self]

/-- Executing a command keeps the responses cached for other identities. -/
theorem executeOnce_record_of_ne (s : EngineState) {command : Command} (now : Timestamp)
    {identity : Identity} (h : command.identity ≠ identity) :
    (executeOnce blake3 s command now).2.idempotencyRecords[identity]? =
      s.idempotencyRecords[identity]? := by
  rw [executeOnce_snd, OrderedMap.lookup_insert_of_ne _ h, applyOnce_records]

/-- A cached response stays as it is. -/
theorem apply_record_kept {e : Engine} (command : Command) (now : Timestamp) {identity : Identity}
    {record : IdempotencyRecord} (h : e.state.idempotencyRecords[identity]? = some record) :
    (apply blake3 e command now).2.state.idempotencyRecords[identity]? = some record := by
  obtain ⟨cached, -, heq⟩ | ⟨-, -, heq⟩ | ⟨next, hnew, -, heq⟩ := apply_cases e command now <;>
    rw [heq]
  · exact h
  · exact h
  · have hne : command.identity ≠ identity := by
      intro hidentity
      rw [hidentity, h] at hnew
      cases hnew
    exact (executeOnce_record_of_ne e.state now hne).trans h

/-- Cached responses stay as they are along a run. -/
theorem applyAll_record_kept (commands : List (Command × Timestamp)) {e : Engine}
    {identity : Identity} {record : IdempotencyRecord}
    (h : e.state.idempotencyRecords[identity]? = some record) :
    (applyAll blake3 e commands).2.state.idempotencyRecords[identity]? = some record := by
  induction commands generalizing e with
  | nil => exact h
  | cons entry rest ih => exact ih (apply_record_kept entry.1 entry.2 h)

/-! ## A sample run

A pool with ten units and a hold of five of them, at small timestamps. -/

/-- The numbers of the sample are below a bound that is not zero. -/
instance sampleBound_ne_zero : NeZero 1000 := ⟨by decide⟩

/-- A digest that keeps the first bytes. -/
def sampleHash (bytes : List UInt8) : CommandHash :=
  ⟨Bytes.le 32 (Bytes.ofLe bytes), Bytes.length_le _ _⟩

/-- The interval between two small natural numbers. -/
def sampleInterval (start length : Fin 1000) (h : 0 < length.val) : Interval :=
  ⟨⟨start.val, by omega⟩, ⟨start.val + length.val, by omega⟩, by
    show (start.val : ℤ) < start.val + length.val
    omega⟩

/-- A small timestamp. -/
def sampleTime (t : Fin 1000) : Timestamp := ⟨t.val, by omega⟩

/-- A small quantity. -/
def sampleQuantity (quantity : Fin 1000) : Quantity := ⟨quantity.val, by omega⟩

/-- Five is positive. -/
theorem sample_five_pos : 0 < (5 : Fin 1000).val := by decide

/-- Eight is positive. -/
theorem sample_eight_pos : 0 < (8 : Fin 1000).val := by decide

/-- Ten is positive. -/
theorem sample_ten_pos : 0 < (10 : Fin 1000).val := by decide

/-- Twelve is positive. -/
theorem sample_twelve_pos : 0 < (12 : Fin 1000).val := by decide

/-- Twenty is positive. -/
theorem sample_twenty_pos : 0 < (20 : Fin 1000).val := by decide

/-- A pool of the sample run. -/
def samplePoolId : ResourcePoolId := ⟨⟨1, U128.one_range⟩⟩

/-- A promise of the sample run. -/
def samplePromiseId : PromiseId := ⟨⟨1, U128.one_range⟩⟩

/-- A constant capacity during the first hundred ticks. -/
def sampleCurve (capacity : Fin 1000) : CapacityCurve :=
  ⟨[⟨sampleInterval 0 100 (by decide), ⟨capacity.val, by omega⟩⟩], by
    intro s hs
    rw [List.mem_singleton.mp hs]
    show (capacity.val : ℤ) ≤ 9223372036854775807
    omega, .singleton _⟩

/-- A bundle of one claim on the sample pool. -/
def sampleBundle (start length quantity : Fin 1000) (h : 0 < length.val) (hq : 0 < quantity.val) :
    Bundle :=
  ⟨[⟨samplePoolId, sampleInterval start length h, ⟨quantity.val, by omega⟩, by
      show (0 : ℤ) < quantity.val
      omega, by
      show (quantity.val : ℤ) ≤ 9223372036854775807
      omega⟩], by simp⟩

/-- A command of the sample client. -/
def sampleCommand (key : String) (operation : CommandOperation) : Command :=
  ⟨⟨"client"⟩, ⟨key⟩, operation⟩

/-- The unit of the sample pool. -/
def sampleUnit : ResourceUnit := ⟨"seat", ⟨1, U64.one_range⟩, by decide, U64.one_ne_zero⟩

/-- The creation of the sample pool. -/
def sampleCreate : Command :=
  sampleCommand "create" (.createResourcePool samplePoolId "seats" sampleUnit (sampleCurve 10))

/-- The hold of the sample run. -/
def sampleHold : Command :=
  sampleCommand "hold" (.hold samplePromiseId (sampleBundle 0 10 5 (by decide) (by decide))
    (sampleTime 50))

/-- The commands of the sample run. -/
def sampleCommands : List (Command × Timestamp) :=
  [(sampleCreate, sampleTime 0), (sampleHold, sampleTime 1)]

/-- The engine after the sample run. -/
def sampleEngine : Engine := (applyAll sampleHash Engine.empty sampleCommands).2

/-- The engine of the sample run is reachable. -/
theorem sampleEngine_reachable : Reachable sampleHash sampleEngine :=
  ReachableBy.empty.applyAll fun _ _ => trivial

/-- The sample run creates its pool. -/
theorem sampleEngine_pool :
    ∃ pool, sampleEngine.state.resourcePools[samplePoolId]? = some pool ∧
      (pool.capacityAt (sampleTime 3)).val = 10 := by
  have h : sampleEngine.state.resourcePools[samplePoolId]?.map
      (fun pool => (pool.capacityAt (sampleTime 3)).val) = some 10 := by decide +kernel
  exact Option.map_eq_some_iff.mp h

/-! ## A sample group

The group creates a second pool and holds a second promise, which expires at its end.  A third
promise is refused.  The capacity of the sample pool is revised twice: it falls below what is held
and rises again. -/

/-- A second pool of the sample. -/
def sampleSecondPoolId : ResourcePoolId := ⟨⟨2, U128.two_range⟩⟩

/-- A second promise of the sample. -/
def sampleSecondId : PromiseId := ⟨⟨2, U128.two_range⟩⟩

/-- A third promise of the sample. -/
def sampleThirdId : PromiseId := ⟨⟨3, by decide⟩⟩

/-- There are claims in both bundles together. -/
theorem sampleClaims_ne_nil (b b' : Bundle) : b.claims ++ b'.claims ≠ [] :=
  fun h => b.claims_ne_nil (List.append_eq_nil_iff.mp h).1

/-- The claims of two bundles. -/
def sampleBoth (b b' : Bundle) : Bundle := ⟨b.claims ++ b'.claims, sampleClaims_ne_nil b b'⟩

/-- The first half of a sample bundle. -/
def sampleShort : Bundle := sampleBundle 20 10 5 sample_ten_pos sample_five_pos

/-- The second half of a sample bundle. -/
def sampleLong : Bundle := sampleBundle 20 20 5 sample_twenty_pos sample_five_pos

/-- A hold of the claims of two bundles. -/
def sampleHoldBoth (b b' : Bundle) : CommandOperation :=
  .hold sampleSecondId (sampleBoth b b') (sampleTime 50)

/-- A revision of the sample pool. -/
def sampleRevise (key : String) (capacity : Fin 1000) : Command :=
  sampleCommand key (.reviseCapacity samplePoolId (sampleCurve capacity) .strict)

/-- The commands of the sample group before the capacity rises again. -/
def sampleFall : List (Command × Timestamp) :=
  [(sampleCommand "room"
      (.createResourcePool sampleSecondPoolId "rooms" sampleUnit (sampleCurve 3)), sampleTime 2),
    (sampleCommand "second" (.hold sampleSecondId
      (sampleBundle 20 10 5 sample_ten_pos sample_five_pos) (sampleTime 50)), sampleTime 2),
    (sampleCommand "third" (.hold sampleThirdId
      (sampleBundle 0 10 8 sample_ten_pos sample_eight_pos) (sampleTime 50)), sampleTime 3),
    (sampleCommand "fall" (.reviseCapacity samplePoolId (sampleCurve 3) .force), sampleTime 4)]

/-- The sample group. -/
def sampleGroup : List (Command × Timestamp) :=
  sampleFall ++ [(sampleCommand "commit" (.commit samplePromiseId .initial), sampleTime 5),
    (sampleRevise "rise" 20, sampleTime 6),
    (sampleCommand "expire" .processExpirations, sampleTime 60)]

/-- The engine after the capacity of the sample pool has fallen below what is held. -/
def sampleFallenEngine : Engine := (applyAll sampleHash sampleEngine sampleFall).2

/-- The engine with the fallen capacity is reachable. -/
theorem sampleFallenEngine_reachable : Reachable sampleHash sampleFallenEngine :=
  sampleEngine_reachable.applyAll fun _ _ => trivial

end Engine

end PromiseDb
