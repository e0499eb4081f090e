import PromiseDb.Library.MachineInt
import PromiseDb.Library.OrderedMap

/-!
# Core domain values

Timestamps, quantities, identities, half-open intervals, claims and the groups in which claims
are admitted.  A value that a constructor of the source validates carries the validated fact as
a field, so only values that pass the validation exist; `new` is the source's constructor and
decides which error an invalid input gets.
-/

namespace PromiseDb

/-! ## Errors -/

/-- The errors of validation and of state transitions. -/
inductive DomainError
  | invalidInterval
  | unsortedCapacitySegments
  | overlappingCapacitySegments
  | invalidUnitName
  | invalidUnitScale
  | invalidQuantity
  | quantityOutOfRange
  | quantityOverflow
  | indexOverflow
  | invalidExpiration
  | emptyBundle
  | emptyRelativeBundle
  | emptyChoice
  | invalidSearchRange
  | invalidStep
  | timestampOverflow
  | resourcePoolAlreadyExists
  | resourcePoolNotFound
  | capacityExceeded
  | capacityRevisionCreatesDeficit
  | promiseAlreadyExists
  | promiseNotFound
  | invalidPromiseState
  | idempotencyConflict
  | versionConflict
  | versionOverflow
  | sequenceOverflow
  | publicationRevisionOverflow
  | invalidPromiseHistory
  | systemTimeOutOfRange
  | holdExpired
  | holdNotExpired
  deriving DecidableEq, Repr

/-! ## Numbers -/

/-- An integer UTC timestamp. -/
abbrev Timestamp := I64

/-- A count of a resource pool's configured subunits. -/
abbrev Quantity := U64

/-- The largest supported claim quantity or capacity value. -/
def maxQuantity : Quantity := ⟨9223372036854775807, by decide⟩

/-- The largest quantity is the largest signed integer. -/
@[simp] theorem maxQuantity_val : maxQuantity.val = 9223372036854775807 := rfl

/-! ## Identities -/

/-- A UUID as the number written by its sixteen bytes, most significant byte first.  The order
of numbers is the lexicographic order of the bytes. -/
abbrev Uuid := U128

/-- The opaque identifier of a resource pool. -/
structure ResourcePoolId where
  /-- The stable UUID. -/
  uuid : Uuid
  deriving DecidableEq, Repr

/-- The opaque identifier of a promise. -/
structure PromiseId where
  /-- The stable UUID. -/
  uuid : Uuid
  deriving DecidableEq, Repr

/-- Pools with the same identifier are the same. -/
theorem ResourcePoolId.uuid_injective : Function.Injective ResourcePoolId.uuid :=
  fun ⟨_⟩ ⟨_⟩ h => congrArg ResourcePoolId.mk h

/-- Promises with the same identifier are the same. -/
theorem PromiseId.uuid_injective : Function.Injective PromiseId.uuid :=
  fun ⟨_⟩ ⟨_⟩ h => congrArg PromiseId.mk h

/-- Pool identities are ordered by their bytes. -/
instance : LinearOrder ResourcePoolId :=
  LinearOrder.lift' ResourcePoolId.uuid ResourcePoolId.uuid_injective

/-- Promise identities are ordered by their bytes. -/
instance : LinearOrder PromiseId := LinearOrder.lift' PromiseId.uuid PromiseId.uuid_injective

instance : Std.TransCmp (compare : ResourcePoolId → ResourcePoolId → Ordering) :=
  LinearOrder.transCmp ResourcePoolId

instance : Std.TransCmp (compare : PromiseId → PromiseId → Ordering) :=
  LinearOrder.transCmp PromiseId

instance : Std.TransCmp (compare : Timestamp → Timestamp → Ordering) :=
  LinearOrder.transCmp Timestamp

/-! ## Intervals -/

/-- A half-open UTC time interval `[start, stop)`. -/
structure Interval where
  /-- The inclusive start. -/
  start : Timestamp
  /-- The exclusive end. -/
  stop : Timestamp
  /-- An interval is not empty. -/
  start_lt_stop : start < stop
  deriving DecidableEq

/-- Creates a validated half-open interval. -/
def Interval.new (start stop : Timestamp) : Except DomainError Interval :=
  if h : start < stop then .ok ⟨start, stop, h⟩ else .error .invalidInterval

/-- Whether `timestamp` belongs to the interval. -/
def Interval.contains (i : Interval) (timestamp : Timestamp) : Bool :=
  decide (i.start ≤ timestamp) && decide (timestamp < i.stop)

/-- Whether two half-open intervals overlap. -/
def Interval.overlaps (i other : Interval) : Bool :=
  decide (i.start < other.stop) && decide (other.start < i.stop)

/-- An interval contains its start, but not its end. -/
@[simp] theorem Interval.contains_iff {i : Interval} {t : Timestamp} :
    i.contains t = true ↔ i.start ≤ t ∧ t < i.stop := by
  simp [Interval.contains]

/-- Intervals overlap if each starts before the other ends. -/
@[simp] theorem Interval.overlaps_iff {i j : Interval} :
    i.overlaps j = true ↔ i.start < j.stop ∧ j.start < i.stop := by
  simp [Interval.overlaps]

/-- A validated interval has the given bounds. -/
@[simp] theorem Interval.new_eq_ok {s e : Timestamp} {i : Interval} :
    Interval.new s e = .ok i ↔ s = i.start ∧ e = i.stop := by
  obtain ⟨s', e', h⟩ := i
  unfold Interval.new
  split
  · simp
  · rename_i hn
    simp only [reduceCtorEq, false_iff]
    rintro ⟨rfl, rfl⟩
    exact hn h

/-- An interval is determined by its ends. -/
theorem Interval.eq_of_ends {i j : Interval} (hstart : i.start = j.start) (hstop : i.stop = j.stop) :
    i = j := by
  obtain ⟨s, e, h⟩ := i
  obtain ⟨s', e', h'⟩ := j
  dsimp only at hstart hstop
  subst hstart hstop
  rfl

/-- Two intervals overlap exactly when they share a timestamp. -/
theorem Interval.overlaps_iff_exists {i j : Interval} :
    i.overlaps j = true ↔ ∃ t, i.contains t = true ∧ j.contains t = true := by
  simp only [overlaps_iff, contains_iff]
  constructor
  · intro ⟨h₁, h₂⟩
    exact ⟨max i.start j.start, ⟨le_max_left _ _, max_lt i.start_lt_stop h₂⟩, le_max_right _ _,
      max_lt h₁ j.start_lt_stop⟩
  · rintro ⟨t, ⟨h₁, h₂⟩, h₃, h₄⟩
    exact ⟨h₁.trans_lt h₄, h₃.trans_lt h₂⟩

/-! ## Claims and bundles -/

/-- A positive quantity requested from a pool during an interval. -/
structure Claim where
  /-- The claimed resource pool. -/
  poolId : ResourcePoolId
  /-- The claimed interval. -/
  interval : Interval
  /-- The claimed quantity in the pool's subunits. -/
  quantity : Quantity
  /-- A claim asks for something. -/
  quantity_pos : 0 < quantity.val
  /-- The quantity has a lossless signed representation. -/
  quantity_le : quantity ≤ maxQuantity
  deriving DecidableEq

/-- Creates a validated claim. -/
def Claim.new (poolId : ResourcePoolId) (interval : Interval) (quantity : Quantity) :
    Except DomainError Claim :=
  if h₀ : quantity.val = 0 then .error .invalidQuantity
  else if h : quantity > maxQuantity then .error .quantityOutOfRange
  else .ok ⟨poolId, interval, quantity, lt_of_le_of_ne quantity.property.1 (Ne.symm h₀), not_lt.mp h⟩

/-- A non-empty group of claims that is admitted or rejected as a whole. -/
structure Bundle where
  /-- The claims in their original order. -/
  claims : List Claim
  /-- A bundle is not empty. -/
  claims_ne_nil : claims ≠ []
  deriving DecidableEq

/-- Creates a bundle from one or more claims. -/
def Bundle.new (claims : List Claim) : Except DomainError Bundle :=
  if h : claims = [] then .error .emptyBundle else .ok ⟨claims, h⟩

/-- A non-empty ordered collection of alternative bundles. -/
structure Choice where
  /-- The alternatives in selection order. -/
  alternatives : List Bundle
  /-- There is something to choose from. -/
  alternatives_ne_nil : alternatives ≠ []
  deriving DecidableEq

/-- Creates a choice from one or more alternatives. -/
def Choice.new (alternatives : List Bundle) : Except DomainError Choice :=
  if h : alternatives = [] then .error .emptyChoice else .ok ⟨alternatives, h⟩

/-- A validated claim has the given parts. -/
@[simp] theorem Claim.new_eq_ok {p : ResourcePoolId} {i : Interval} {q : Quantity} {c : Claim} :
    Claim.new p i q = .ok c ↔ p = c.poolId ∧ i = c.interval ∧ q = c.quantity := by
  obtain ⟨p', i', q', hpos, hle⟩ := c
  unfold Claim.new
  split
  · rename_i h
    simp only [reduceCtorEq, false_iff]
    rintro ⟨-, -, rfl⟩
    exact hpos.ne' h
  · split
    · rename_i h
      simp only [reduceCtorEq, false_iff]
      rintro ⟨-, -, rfl⟩
      exact hle.not_gt h
    · simp

/-- A validated bundle has the given claims. -/
@[simp] theorem Bundle.new_eq_ok {cs : List Claim} {b : Bundle} :
    Bundle.new cs = .ok b ↔ cs = b.claims := by
  obtain ⟨cs', h⟩ := b
  unfold Bundle.new
  split
  · rename_i hn
    simp only [reduceCtorEq, false_iff]
    rintro rfl
    exact h hn
  · simp

/-- A validated choice has the given alternatives. -/
@[simp] theorem Choice.new_eq_ok {bs : List Bundle} {c : Choice} :
    Choice.new bs = .ok c ↔ bs = c.alternatives := by
  obtain ⟨bs', h⟩ := c
  unfold Choice.new
  split
  · rename_i hn
    simp only [reduceCtorEq, false_iff]
    rintro rfl
    exact h hn
  · simp

/-! ## Relative claims -/

/-- A positive demand over a half-open interval relative to a candidate start. -/
structure RelativeClaim where
  /-- The claimed resource pool. -/
  poolId : ResourcePoolId
  /-- The inclusive start offset from the candidate anchor. -/
  startOffset : I64
  /-- The exclusive end offset from the candidate anchor. -/
  endOffset : I64
  /-- The requested quantity in the pool's subunits. -/
  quantity : Quantity
  /-- The relative interval is not empty. -/
  start_lt_end : startOffset < endOffset
  /-- A claim asks for something. -/
  quantity_pos : 0 < quantity.val
  /-- The quantity has a lossless signed representation. -/
  quantity_le : quantity ≤ maxQuantity
  deriving DecidableEq

/-- Creates a validated relative claim. -/
def RelativeClaim.new (poolId : ResourcePoolId) (startOffset endOffset : I64)
    (quantity : Quantity) : Except DomainError RelativeClaim :=
  if hi : startOffset ≥ endOffset then .error .invalidInterval
  else if h₀ : quantity.val = 0 then .error .invalidQuantity
  else if h : quantity > maxQuantity then .error .quantityOutOfRange
  else .ok ⟨poolId, startOffset, endOffset, quantity, not_le.mp hi,
    lt_of_le_of_ne quantity.property.1 (Ne.symm h₀), not_lt.mp h⟩

/-- Materializes the relative claim at `start`. -/
def RelativeClaim.materialize (c : RelativeClaim) (start : Timestamp) :
    Except DomainError Claim := do
  let intervalStart ← (start.checkedAdd c.startOffset).elim (.error .timestampOverflow) .ok
  let intervalEnd ← (start.checkedAdd c.endOffset).elim (.error .timestampOverflow) .ok
  let interval ← Interval.new intervalStart intervalEnd
  Claim.new c.poolId interval c.quantity

/-- A non-empty group of relative claims, materialized and admitted as a whole. -/
structure RelativeBundle where
  /-- The relative claims in their original order. -/
  claims : List RelativeClaim
  /-- A relative bundle is not empty. -/
  claims_ne_nil : claims ≠ []
  deriving DecidableEq

/-- Creates a relative bundle from one or more claims. -/
def RelativeBundle.new (claims : List RelativeClaim) : Except DomainError RelativeBundle :=
  if h : claims = [] then .error .emptyRelativeBundle else .ok ⟨claims, h⟩

/-- A validated relative claim has the given parts. -/
@[simp] theorem RelativeClaim.new_eq_ok {p : ResourcePoolId} {s e : I64} {q : Quantity}
    {c : RelativeClaim} : RelativeClaim.new p s e q = .ok c ↔
      p = c.poolId ∧ s = c.startOffset ∧ e = c.endOffset ∧ q = c.quantity := by
  obtain ⟨p', s', e', q', hlt, hpos, hle⟩ := c
  unfold RelativeClaim.new
  split
  · rename_i h
    simp only [reduceCtorEq, false_iff]
    rintro ⟨-, rfl, rfl, -⟩
    exact h.not_gt hlt
  · split
    · rename_i h
      simp only [reduceCtorEq, false_iff]
      rintro ⟨-, -, -, rfl⟩
      exact hpos.ne' h
    · split
      · rename_i h
        simp only [reduceCtorEq, false_iff]
        rintro ⟨-, -, -, rfl⟩
        exact hle.not_gt h
      · simp

/-- A validated relative bundle has the given claims. -/
@[simp] theorem RelativeBundle.new_eq_ok {cs : List RelativeClaim} {b : RelativeBundle} :
    RelativeBundle.new cs = .ok b ↔ cs = b.claims := by
  obtain ⟨cs', h⟩ := b
  unfold RelativeBundle.new
  split
  · rename_i hn
    simp only [reduceCtorEq, false_iff]
    rintro rfl
    exact h hn
  · simp

/-- Materializes every claim at the same candidate start. -/
def RelativeBundle.materialize (b : RelativeBundle) (start : Timestamp) :
    Except DomainError Bundle := do
  let claims ← b.claims.mapM (·.materialize start)
  Bundle.new claims

end PromiseDb
