import PromiseDb.Domain.CapacityCurve
import PromiseDb.Library.StateRun

/-!
# Resource pools and promises

A resource pool is a capacity curve with a name and a unit.  A promise is a bundle with a
versioned life cycle: it is created as a hold, may be committed, replaced while it is live, and
ends released or expired.  Every transition raises the version by one and records the global
sequence number at which it happened.
-/

namespace PromiseDb

/-! ## Units -/

/-- The characters of the Unicode `White_Space` property. -/
def isWhitespace (c : Char) : Bool :=
  let n := c.toNat
  (0x9 ≤ n && n ≤ 0xD) || n == 0x20 || n == 0x85 || n == 0xA0 || n == 0x1680 ||
    (0x2000 ≤ n && n ≤ 0x200A) || n == 0x2028 || n == 0x2029 || n == 0x202F || n == 0x205F ||
    n == 0x3000

/-- Whether nothing is left of a name after trimming white space at both ends. -/
def isBlank (name : String) : Bool := name.toList.all isWhitespace

/-- The unit and fixed-point scale of one resource pool. -/
structure ResourceUnit where
  /-- The human-readable name of the displayed unit. -/
  name : String
  /-- How many integer subunits make one displayed unit. -/
  subunitsPerUnit : U64
  /-- The name is not empty or white space only. -/
  name_not_blank : isBlank name = false
  /-- The scale is positive. -/
  subunitsPerUnit_ne_zero : subunitsPerUnit.val ≠ 0
  deriving DecidableEq

/-- Creates a unit and its fixed-point scale. -/
def ResourceUnit.new (name : String) (subunitsPerUnit : U64) : Except DomainError ResourceUnit :=
  if hn : isBlank name = true then .error .invalidUnitName
  else if hs : subunitsPerUnit.val = 0 then .error .invalidUnitScale
  else .ok ⟨name, subunitsPerUnit, Bool.eq_false_iff.mpr hn, hs⟩

/-- A validated unit has the given name and scale. -/
@[simp] theorem ResourceUnit.new_eq_ok {name : String} {scale : U64} {u : ResourceUnit} :
    ResourceUnit.new name scale = .ok u ↔ name = u.name ∧ scale = u.subunitsPerUnit := by
  obtain ⟨name', scale', hn, hs⟩ := u
  unfold ResourceUnit.new
  split
  · rename_i h
    simp only [reduceCtorEq, false_iff]
    rintro ⟨rfl, -⟩
    exact Bool.false_ne_true (hn.symm.trans h)
  · split
    · rename_i h
      simp only [reduceCtorEq, false_iff]
      rintro ⟨-, rfl⟩
      exact hs h
    · simp

/-! ## Resource pools -/

/-- A named pool with finite capacity measured in one unit. -/
structure ResourcePool where
  /-- The opaque identifier. -/
  id : ResourcePoolId
  /-- The human-readable name. -/
  displayName : String
  /-- The fixed-point unit of capacities and claims. -/
  unit : ResourceUnit
  /-- The physical capacity over time. -/
  capacityCurve : CapacityCurve
  deriving DecidableEq

/-- The pool's capacity at `timestamp`. -/
def ResourcePool.capacityAt (pool : ResourcePool) (timestamp : Timestamp) : Quantity :=
  pool.capacityCurve.capacityAt timestamp

/-! ## Versions and sequence numbers -/

/-- The local revision of a promise, starting at one. -/
structure Version where
  /-- The numeric representation. -/
  get : U64
  /-- Versions are not zero. -/
  get_ne_zero : get.val ≠ 0
  deriving DecidableEq

/-- The version of a new promise. -/
def Version.initial : Version := ⟨⟨1, U64.one_range⟩, U64.one_ne_zero⟩

/-- Creates a version from a non-zero number. -/
def Version.new (value : U64) : Option Version :=
  if h : value.val = 0 then none else some ⟨value, h⟩

/-- The next version. -/
def Version.next (v : Version) : Except DomainError Version :=
  match h : v.get.checkedAdd ⟨1, U64.one_range⟩ with
  | none => .error .versionOverflow
  | some n => .ok ⟨n, by
      have hn : v.get.val + 1 = n.val := BoundedInt.checkedAdd_eq_some.mp h
      have := v.get.property.1
      omega⟩

/-- A position in the global transition order. -/
structure SequenceNumber where
  /-- The numeric representation. -/
  get : U64
  deriving DecidableEq

/-- Sequence numbers with the same value are the same. -/
theorem SequenceNumber.get_injective : Function.Injective SequenceNumber.get :=
  fun ⟨_⟩ ⟨_⟩ h => congrArg SequenceNumber.mk h

/-- Sequence numbers are ordered by their value. -/
instance : LinearOrder SequenceNumber :=
  LinearOrder.lift' SequenceNumber.get SequenceNumber.get_injective

/-- The sequence number before every transition. -/
def SequenceNumber.zero : SequenceNumber := ⟨⟨0, U64.zero_range⟩⟩

/-- The next global sequence number. -/
def SequenceNumber.next (s : SequenceNumber) : Except DomainError SequenceNumber :=
  match s.get.checkedAdd ⟨1, U64.one_range⟩ with
  | none => .error .sequenceOverflow
  | some n => .ok ⟨n⟩

/-- The next sequence number is one larger. -/
@[simp] theorem SequenceNumber.next_eq_ok {s s' : SequenceNumber} :
    s.next = .ok s' ↔ s.get.val + 1 = s'.get.val := by
  obtain ⟨n⟩ := s'
  unfold SequenceNumber.next
  split
  · rename_i h
    simp only [reduceCtorEq, false_iff]
    intro hn
    rw [BoundedInt.checkedAdd_eq_some.mpr hn] at h
    cases h
  · rename_i m h
    have hm := BoundedInt.checkedAdd_eq_some.mp h
    rw [hm]
    simp [Subtype.ext_iff]

/-- The next version is one larger. -/
@[simp] theorem Version.next_eq_ok {v v' : Version} :
    v.next = .ok v' ↔ v.get.val + 1 = v'.get.val := by
  obtain ⟨n, hn⟩ := v'
  unfold Version.next
  split
  · rename_i h
    simp only [reduceCtorEq, false_iff]
    intro hn
    rw [BoundedInt.checkedAdd_eq_some.mpr hn] at h
    cases h
  · rename_i m h
    have hm := BoundedInt.checkedAdd_eq_some.mp h
    rw [hm]
    simp [Subtype.ext_iff]

/-- Only the last sequence number has no next one. -/
theorem SequenceNumber.next_eq_error {s : SequenceNumber} {e : DomainError} :
    s.next = .error e ↔ e = .sequenceOverflow ∧ s.get.val = 18446744073709551615 := by
  rw [← U64.checkedAdd_one_eq_none]
  unfold SequenceNumber.next
  split
  · rename_i h
    simp [h, eq_comm]
  · rename_i n h
    simp [h]

/-- Only the last version has no next one. -/
theorem Version.next_eq_error {v : Version} {e : DomainError} :
    v.next = .error e ↔ e = .versionOverflow ∧ v.get.val = 18446744073709551615 := by
  rw [← U64.checkedAdd_one_eq_none]
  unfold Version.next
  split
  · rename_i h
    simp [h, eq_comm]
  · rename_i n h
    simp [h]

/-! ## Promises -/

/-- The life cycle state of a promise. -/
inductive PromiseState
  /-- A temporary reservation that must be committed before its deadline. -/
  | held (expiresAt : Timestamp)
  /-- A confirmed commitment. -/
  | committed
  /-- A released promise, which consumes no capacity. -/
  | released
  /-- A hold that reached its deadline before being committed. -/
  | expired
  deriving DecidableEq

/-- A live state requested for a replacement. -/
inductive ReplacementState
  /-- Replace by a temporary hold with a new deadline. -/
  | held (expiresAt : Timestamp)
  /-- Replace by a confirmed commitment. -/
  | committed
  deriving DecidableEq

/-- The promise state asked for by a replacement. -/
def ReplacementState.toPromiseState : ReplacementState → PromiseState
  | .held expiresAt => .held expiresAt
  | .committed => .committed

/-- Held and committed promises consume capacity. -/
def PromiseState.isActive : PromiseState → Bool
  | .held _ => true
  | .committed => true
  | .released => false
  | .expired => false

/-- Rejects a hold whose deadline has been reached, and the states that are not live. -/
def PromiseState.checkLive (state : PromiseState) (now : Timestamp) : Except DomainError Unit :=
  match state with
  | .held expiresAt => if expiresAt ≤ now then .error .holdExpired else .ok ()
  | .committed => .ok ()
  | .released => .error .invalidPromiseState
  | .expired => .error .invalidPromiseState

/-- Rejects a replacement by a hold whose deadline has been reached. -/
def ReplacementState.checkDeadline (state : ReplacementState) (now : Timestamp) :
    Except DomainError Unit :=
  match state with
  | .held expiresAt => if expiresAt ≤ now then .error .invalidExpiration else .ok ()
  | .committed => .ok ()

/-- A promise that passes the check consumes capacity. -/
theorem PromiseState.isActive_of_checkLive {state : PromiseState} {now : Timestamp}
    (h : state.checkLive now = .ok ()) : state.isActive = true := by
  cases state with
  | held expiresAt => rfl
  | committed => rfl
  | released => cases h
  | expired => cases h

/-- An accepted bundle with a versioned life cycle. -/
structure Promise where
  /-- The opaque identifier. -/
  id : PromiseId
  /-- The current life cycle state. -/
  state : PromiseState
  /-- The accepted bundle. -/
  bundle : Bundle
  /-- The current local version. -/
  version : Version
  /-- The sequence that created the promise. -/
  createdSequence : SequenceNumber
  /-- The sequence of the latest successful transition. -/
  updatedSequence : SequenceNumber
  deriving DecidableEq

namespace Promise

/-- Restores a promise from durable after-values. -/
def restore (id : PromiseId) (state : PromiseState) (bundle : Bundle) (version : Version)
    (createdSequence updatedSequence : SequenceNumber) : Except DomainError Promise :=
  if createdSequence.get.val = 0 ∨ updatedSequence < createdSequence ∨ version.get.val = 0 then
    .error .invalidPromiseHistory
  else .ok ⟨id, state, bundle, version, createdSequence, updatedSequence⟩

/-- Creates a held promise with a prepared identity. -/
def withId (id : PromiseId) (bundle : Bundle) (expiresAt now : Timestamp)
    (sequence : SequenceNumber) : Except DomainError Promise :=
  if expiresAt ≤ now then .error .invalidExpiration
  else .ok ⟨id, .held expiresAt, bundle, .initial, sequence, sequence⟩

/-- Commits a live hold. -/
def commit (p : Promise) (expectedVersion : Version) (now : Timestamp)
    (sequence : SequenceNumber) : Except DomainError (Version × Promise) :=
  if expectedVersion ≠ p.version then .error .versionConflict
  else match p.state with
    | .held expiresAt =>
      if expiresAt ≤ now then .error .holdExpired
      else do
        let nextVersion ← p.version.next
        .ok (nextVersion,
          { p with version := nextVersion, updatedSequence := sequence, state := .committed })
    | _ => .error .invalidPromiseState

/-- Releases a live hold or a committed promise. -/
def release (p : Promise) (expectedVersion : Version) (now : Timestamp)
    (sequence : SequenceNumber) : Except DomainError (Version × Promise) :=
  if expectedVersion ≠ p.version then .error .versionConflict
  else do
    p.state.checkLive now
    let nextVersion ← p.version.next
    .ok (nextVersion,
      { p with version := nextVersion, updatedSequence := sequence, state := .released })

/-- Replaces the bundle and the live state. -/
def replace (p : Promise) (expectedVersion : Version) (newBundle : Bundle)
    (newState : ReplacementState) (now : Timestamp) (sequence : SequenceNumber) :
    Except DomainError (Version × Promise) :=
  if expectedVersion ≠ p.version then .error .versionConflict
  else do
    p.state.checkLive now
    newState.checkDeadline now
    let nextVersion ← p.version.next
    .ok (nextVersion,
      { p with bundle := newBundle, state := newState.toPromiseState, version := nextVersion,
               updatedSequence := sequence })

/-- Expires a hold whose deadline has been reached. -/
def expire (p : Promise) (now : Timestamp) (sequence : SequenceNumber) :
    Except DomainError Promise :=
  match p.state with
  | .held expiresAt =>
    if expiresAt > now then .error .holdNotExpired
    else do
      let nextVersion ← p.version.next
      .ok { p with version := nextVersion, updatedSequence := sequence, state := .expired }
  | _ => .error .invalidPromiseState

/-- Whether the promise consumes capacity. -/
def isActive (p : Promise) : Bool := p.state.isActive

/-! ## What a transition does to a promise -/

/-- A live promise has advanced by one version at a sequence. -/
structure Advances (p p' : Promise) (sequence : SequenceNumber) : Prop where
  /-- Only live promises advance. -/
  active : p.isActive = true
  /-- The identity stays. -/
  id_eq : p'.id = p.id
  /-- The sequence of the creation stays. -/
  created_eq : p'.createdSequence = p.createdSequence
  /-- The version is the next one. -/
  version_eq : p.version.get.val + 1 = p'.version.get.val
  /-- The sequence of the transition is recorded. -/
  updated_eq : p'.updatedSequence = sequence

/-- A hold that is created starts its history at the sequence. -/
theorem withId_eq_ok {id : PromiseId} {bundle : Bundle} {expiresAt now : Timestamp}
    {sequence : SequenceNumber} {p : Promise}
    (h : withId id bundle expiresAt now sequence = .ok p) :
    now < expiresAt ∧ p = ⟨id, .held expiresAt, bundle, .initial, sequence, sequence⟩ := by
  unfold withId at h
  split at h
  · cases h
  · rename_i hlt
    exact ⟨not_le.mp hlt, (Except.ok.inj h).symm⟩

/-- A commitment turns a live hold of the expected version into a committed promise. -/
theorem commit_eq_ok {p p' : Promise} {expected new : Version} {now : Timestamp}
    {sequence : SequenceNumber} (h : p.commit expected now sequence = .ok (new, p')) :
    expected = p.version ∧ new = p'.version ∧ p.Advances p' sequence ∧
      p'.state = .committed ∧ p'.bundle = p.bundle := by
  unfold commit at h
  split at h
  · cases h
  rename_i hversion
  split at h
  · rename_i expiresAt hstate
    split at h
    · cases h
    obtain ⟨next, hnext, h⟩ := Except.bind_eq_ok.mp h
    obtain ⟨rfl, rfl⟩ := Prod.mk.inj (Except.ok.inj h)
    refine ⟨not_not.mp hversion, rfl, ⟨?_, rfl, rfl, Version.next_eq_ok.mp hnext, rfl⟩, rfl, rfl⟩
    rw [isActive, hstate]
    rfl
  · cases h

/-- A release ends a live promise of the expected version. -/
theorem release_eq_ok {p p' : Promise} {expected new : Version} {now : Timestamp}
    {sequence : SequenceNumber} (h : p.release expected now sequence = .ok (new, p')) :
    expected = p.version ∧ new = p'.version ∧ p.Advances p' sequence ∧
      p'.state = .released ∧ p'.bundle = p.bundle := by
  unfold release at h
  split at h
  · cases h
  rename_i hversion
  obtain ⟨⟨⟩, hlive, h⟩ := Except.bind_eq_ok.mp h
  obtain ⟨next, hnext, h⟩ := Except.bind_eq_ok.mp h
  obtain ⟨rfl, rfl⟩ := Prod.mk.inj (Except.ok.inj h)
  exact ⟨not_not.mp hversion, rfl, ⟨PromiseState.isActive_of_checkLive hlive, rfl, rfl,
    Version.next_eq_ok.mp hnext, rfl⟩, rfl, rfl⟩

/-- A replacement gives a live promise of the expected version a new bundle and a live state. -/
theorem replace_eq_ok {p p' : Promise} {expected new : Version} {bundle : Bundle}
    {live : ReplacementState} {now : Timestamp} {sequence : SequenceNumber}
    (h : p.replace expected bundle live now sequence = .ok (new, p')) :
    expected = p.version ∧ new = p'.version ∧ p.Advances p' sequence ∧
      p'.state = live.toPromiseState ∧ p'.bundle = bundle := by
  unfold replace at h
  split at h
  · cases h
  rename_i hversion
  obtain ⟨⟨⟩, hlive, h⟩ := Except.bind_eq_ok.mp h
  obtain ⟨⟨⟩, -, h⟩ := Except.bind_eq_ok.mp h
  obtain ⟨next, hnext, h⟩ := Except.bind_eq_ok.mp h
  obtain ⟨rfl, rfl⟩ := Prod.mk.inj (Except.ok.inj h)
  exact ⟨not_not.mp hversion, rfl, ⟨PromiseState.isActive_of_checkLive hlive, rfl, rfl,
    Version.next_eq_ok.mp hnext, rfl⟩, rfl, rfl⟩

/-- An expiration ends a due hold. -/
theorem expire_eq_ok {p p' : Promise} {now : Timestamp} {sequence : SequenceNumber}
    (h : p.expire now sequence = .ok p') :
    p.Advances p' sequence ∧ p'.state = .expired ∧ p'.bundle = p.bundle := by
  unfold expire at h
  split at h
  · rename_i expiresAt hstate
    split at h
    · cases h
    obtain ⟨next, hnext, h⟩ := Except.bind_eq_ok.mp h
    obtain rfl := Except.ok.inj h
    refine ⟨⟨?_, rfl, rfl, Version.next_eq_ok.mp hnext, rfl⟩, rfl, rfl⟩
    rw [isActive, hstate]
    rfl
  · cases h

end Promise

end PromiseDb
