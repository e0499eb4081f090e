import PromiseDb.Engine.Idempotency
import PromiseDb.Library.CanonicalForm

/-!
# What canonical representations tell apart

The canonical representation of an operation mixes fields of a fixed width, strings and collections
with their lengths, and sorted claims.  Each writer separates its values from the front, so the
representations of two operations are equal exactly when the operations are, up to the order of the
claims within a bundle.
-/

namespace PromiseDb

open CanonicalForm

/-! ## Operations up to the order of claims -/

/-- The bundles have the same claims, in whatever order. -/
def Bundle.Reorders (b b' : Bundle) : Prop := b.claims.Perm b'.claims

/-- The relative bundles have the same claims, in whatever order. -/
def RelativeBundle.Reorders (b b' : RelativeBundle) : Prop := b.claims.Perm b'.claims

/-- The choices have alternatives with the same claims, in the same order of alternatives. -/
def Choice.Reorders (c c' : Choice) : Prop :=
  List.Forall₂ Bundle.Reorders c.alternatives c'.alternatives

/-- The operations differ at most in the order of the claims within their bundles. -/
inductive CommandOperation.Reorders : CommandOperation → CommandOperation → Prop
  | refl (operation : CommandOperation) : Reorders operation operation
  | hold {promiseId : PromiseId} {bundle bundle' : Bundle} {expiresAt : Timestamp}
      (bundles : bundle.Reorders bundle') :
      Reorders (.hold promiseId bundle expiresAt) (.hold promiseId bundle' expiresAt)
  | holdOneOf {promiseId : PromiseId} {choice choice' : Choice} {expiresAt : Timestamp}
      (choices : choice.Reorders choice') :
      Reorders (.holdOneOf promiseId choice expiresAt) (.holdOneOf promiseId choice' expiresAt)
  | holdFirstSlot {promiseId : PromiseId} {bundle bundle' : RelativeBundle}
      {earliestStart latestStart : Timestamp} {step : I64} {expiresAt : Timestamp}
      (bundles : bundle.Reorders bundle') :
      Reorders (.holdFirstSlot promiseId bundle earliestStart latestStart step expiresAt)
        (.holdFirstSlot promiseId bundle' earliestStart latestStart step expiresAt)
  | replace {promiseId : PromiseId} {expectedVersion : Version} {bundle bundle' : Bundle}
      {newState : ReplacementState} (bundles : bundle.Reorders bundle') :
      Reorders (.replace promiseId expectedVersion bundle newState)
        (.replace promiseId expectedVersion bundle' newState)

/-! ## Lengths of the machine -/

/-- A length that the machine can count. -/
def Addressable (length : Nat) : Prop := length < 2 ^ 64

instance (length : Nat) : Decidable (Addressable length) :=
  inferInstanceAs (Decidable (length < 2 ^ 64))

/-- The strings and collections of an operation are no longer than the machine can count, as those
of every value that a program can hold. -/
def CommandOperation.Addressable : CommandOperation → Prop
  | .createResourcePool _ displayName unit capacityCurve =>
    PromiseDb.Addressable displayName.toUTF8.toList.length ∧
      PromiseDb.Addressable unit.name.toUTF8.toList.length ∧
      PromiseDb.Addressable capacityCurve.segments.length
  | .reviseCapacity _ capacityCurve _ => PromiseDb.Addressable capacityCurve.segments.length
  | .hold _ bundle _ => PromiseDb.Addressable bundle.claims.length
  | .holdOneOf _ choice _ => PromiseDb.Addressable choice.alternatives.length ∧
      ∀ bundle ∈ choice.alternatives, PromiseDb.Addressable bundle.claims.length
  | .holdFirstSlot _ relativeBundle _ _ _ _ => PromiseDb.Addressable relativeBundle.claims.length
  | .commit _ _ => True
  | .release _ _ => True
  | .replace _ _ newBundle _ => PromiseDb.Addressable newBundle.claims.length
  | .processExpirations => True

/-! ## Fields -/

/-- Every value has the property that nothing is asked of. -/
abbrev Any {α : Type} (_ : α) : Prop := True

/-- Lengths can be told from their bytes. -/
theorem hashLength_separates : Separates Eq Addressable hashLength := by
  apply Separates.of_length
  · exact fun n _ => Bytes.length_le 8 n
  · intro n m hn hm h
    have hn' : n < 256 ^ 8 := hn.trans_eq (by norm_num)
    have hm' : m < 256 ^ 8 := hm.trans_eq (by norm_num)
    have hbytes := congrArg Bytes.ofLe h
    rwa [hashLength, hashLength, Bytes.ofLe_le_of_lt hn', Bytes.ofLe_le_of_lt hm'] at hbytes

/-- Unsigned integers can be told from their bytes. -/
theorem hashU64_separates : Separates Eq Any hashU64 := by
  apply Separates.of_length
  · exact fun x _ => BoundedInt.length_toLeBytes 8 x
  · intro x y _ _ h
    have hvalue := congrArg (BoundedInt.ofLeBytes U64.width) h
    rwa [hashU64, hashU64, BoundedInt.ofLeBytes_toLeBytes,
      BoundedInt.ofLeBytes_toLeBytes] at hvalue

/-- Signed integers can be told from their bytes. -/
theorem hashI64_separates : Separates Eq Any hashI64 := by
  apply Separates.of_length
  · exact fun x _ => BoundedInt.length_toLeBytes 8 x
  · intro x y _ _ h
    have hvalue := congrArg (BoundedInt.ofLeBytes I64.width) h
    rwa [hashI64, hashI64, BoundedInt.ofLeBytes_toLeBytes,
      BoundedInt.ofLeBytes_toLeBytes] at hvalue

/-- Identifiers can be told from their bytes. -/
theorem hashUuid_separates : Separates Eq Any hashUuid := by
  apply Separates.of_length
  · exact fun x _ => BoundedInt.length_toBeBytes 16 x
  · intro x y _ _ h
    have hvalue := congrArg (BoundedInt.ofBeBytes U128.width) h
    rwa [hashUuid, hashUuid, BoundedInt.ofBeBytes_toBeBytes,
      BoundedInt.ofBeBytes_toBeBytes] at hvalue

/-- Strings can be told from their bytes, as their length comes first. -/
theorem hashString_separates :
    Separates Eq (fun s : String => Addressable s.toUTF8.toList.length) hashString := by
  intro s s' hs hs' r r' h
  rw [hashString, hashString, List.append_assoc, List.append_assoc] at h
  obtain ⟨hlength, h⟩ := hashLength_separates hs hs' h
  obtain ⟨hbytes, hrest⟩ := List.append_inj h hlength
  exact ⟨string_eq_of_bytes hbytes, hrest⟩

/-- Versions can be told from their bytes. -/
theorem hashVersion_separates : Separates Eq Any hashVersion := by
  intro v v' _ _ r r' h
  obtain ⟨hget, hrest⟩ := hashU64_separates trivial trivial h
  cases v
  cases v'
  cases hget
  exact ⟨rfl, hrest⟩

/-- Intervals can be told from their bytes. -/
theorem hashInterval_separates : Separates Eq Any hashInterval := by
  intro i i' _ _ r r' h
  rw [hashInterval, hashInterval, List.append_assoc, List.append_assoc] at h
  obtain ⟨hstart, h⟩ := hashI64_separates trivial trivial h
  obtain ⟨hstop, hrest⟩ := hashI64_separates trivial trivial h
  cases i
  cases i'
  cases hstart
  cases hstop
  exact ⟨rfl, hrest⟩

/-- Units can be told from their bytes. -/
theorem hashUnit_separates :
    Separates Eq (fun u : ResourceUnit => Addressable u.name.toUTF8.toList.length) hashUnit := by
  intro u u' hu hu' r r' h
  rw [hashUnit, hashUnit, List.append_assoc, List.append_assoc] at h
  obtain ⟨hname, h⟩ := hashString_separates hu hu' h
  obtain ⟨hscale, hrest⟩ := hashU64_separates trivial trivial h
  cases u
  cases u'
  cases hname
  cases hscale
  exact ⟨rfl, hrest⟩

/-- Capacity segments can be told from their bytes. -/
theorem hashSegment_separates :
    Separates Eq Any fun s : CapacitySegment => hashInterval s.interval ++ hashU64 s.capacity := by
  intro s s' _ _ r r' h
  rw [List.append_assoc, List.append_assoc] at h
  obtain ⟨hinterval, h⟩ := hashInterval_separates trivial trivial h
  obtain ⟨hcapacity, hrest⟩ := hashU64_separates trivial trivial h
  cases s
  cases s'
  cases hinterval
  cases hcapacity
  exact ⟨rfl, hrest⟩

/-- Capacity curves can be told from their bytes. -/
theorem hashCapacityCurve_separates :
    Separates Eq (fun c : CapacityCurve => Addressable c.segments.length) hashCapacityCurve := by
  intro c c' hc hc' r r' h
  rw [hashCapacityCurve, hashCapacityCurve, List.append_assoc, List.append_assoc] at h
  obtain ⟨hlength, h⟩ := hashLength_separates hc hc' h
  obtain ⟨hsegments, hrest⟩ := hashSegment_separates.flatMap (fun _ _ => trivial)
    (fun _ _ => trivial) hlength h
  rw [List.forall₂_eq_eq_eq] at hsegments
  cases c
  cases c'
  cases hsegments
  exact ⟨rfl, hrest⟩

/-- Claims can be told from their bytes. -/
theorem hashClaim_separates : Separates Eq Any hashClaim := by
  intro c c' _ _ r r' h
  rw [hashClaim, hashClaim, List.append_assoc, List.append_assoc, List.append_assoc,
    List.append_assoc] at h
  obtain ⟨hpool, h⟩ := hashUuid_separates trivial trivial h
  obtain ⟨hinterval, h⟩ := hashInterval_separates trivial trivial h
  obtain ⟨hquantity, hrest⟩ := hashU64_separates trivial trivial h
  have hid := ResourcePoolId.uuid_injective hpool
  cases c
  cases c'
  cases hid
  cases hinterval
  cases hquantity
  exact ⟨rfl, hrest⟩

/-- Relative claims can be told from their bytes. -/
theorem hashRelativeClaim_separates : Separates Eq Any hashRelativeClaim := by
  intro c c' _ _ r r' h
  rw [hashRelativeClaim, hashRelativeClaim, List.append_assoc, List.append_assoc, List.append_assoc,
    List.append_assoc, List.append_assoc, List.append_assoc] at h
  obtain ⟨hpool, h⟩ := hashUuid_separates trivial trivial h
  obtain ⟨hstart, h⟩ := hashI64_separates trivial trivial h
  obtain ⟨hend, h⟩ := hashI64_separates trivial trivial h
  obtain ⟨hquantity, hrest⟩ := hashU64_separates trivial trivial h
  have hid := ResourcePoolId.uuid_injective hpool
  cases c
  cases c'
  cases hid
  cases hstart
  cases hend
  cases hquantity
  exact ⟨rfl, hrest⟩

/-! ## Sorted claims -/

/-- The four parts of the key determine a claim. -/
theorem Claim.sortKey_injective : Function.Injective Claim.sortKey := by
  intro c c' h
  obtain ⟨poolId, ⟨start, stop, hlt⟩, quantity, hpos, hle⟩ := c
  obtain ⟨poolId', ⟨start', stop', hlt'⟩, quantity', hpos', hle'⟩ := c'
  have hparts : poolId = poolId' ∧ start = start' ∧ stop = stop' ∧ quantity = quantity' := by
    simpa [Claim.sortKey] using h
  obtain ⟨rfl, rfl, rfl, rfl⟩ := hparts
  rfl

/-- Relative claims with the same sort key are the same. -/
theorem RelativeClaim.sortKey_injective : Function.Injective RelativeClaim.sortKey := by
  intro c c' h
  obtain ⟨poolId, start, stop, quantity, hlt, hpos, hle⟩ := c
  obtain ⟨poolId', start', stop', quantity', hlt', hpos', hle'⟩ := c'
  have hparts : poolId = poolId' ∧ start = start' ∧ stop = stop' ∧ quantity = quantity' := by
    simpa [RelativeClaim.sortKey] using h
  obtain ⟨rfl, rfl, rfl, rfl⟩ := hparts
  rfl

/-- Bundles can be told from their bytes up to the order of their claims. -/
theorem hashBundle_separates :
    Separates Bundle.Reorders (fun b => Addressable b.claims.length) hashBundle := by
  intro b b' hb hb' r r' h
  dsimp only [hashBundle] at h
  rw [List.append_assoc, List.append_assoc, List.length_insertionSort,
    List.length_insertionSort] at h
  obtain ⟨hlength, h⟩ := hashLength_separates hb hb' h
  obtain ⟨hclaims, hrest⟩ := hashClaim_separates.flatMap (fun _ _ => trivial) (fun _ _ => trivial)
    (by rw [List.length_insertionSort, List.length_insertionSort, hlength]) h
  rw [List.forall₂_eq_eq_eq] at hclaims
  exact ⟨(insertionSort_eq_iff Claim.sortKey_injective).mp hclaims, hrest⟩

/-- Bundles with the same claims are written alike. -/
theorem hashBundle_eq {b b' : Bundle} (h : b.Reorders b') : hashBundle b = hashBundle b' := by
  have hsorted := (insertionSort_eq_iff Claim.sortKey_injective).mpr h
  unfold hashBundle
  rw [hsorted]

/-- Relative bundles can be told from their bytes up to the order of their claims. -/
theorem hashRelativeBundle_separates :
    Separates RelativeBundle.Reorders (fun b => Addressable b.claims.length)
      hashRelativeBundle := by
  intro b b' hb hb' r r' h
  dsimp only [hashRelativeBundle] at h
  rw [List.append_assoc, List.append_assoc, List.length_insertionSort,
    List.length_insertionSort] at h
  obtain ⟨hlength, h⟩ := hashLength_separates hb hb' h
  obtain ⟨hclaims, hrest⟩ := hashRelativeClaim_separates.flatMap (fun _ _ => trivial)
    (fun _ _ => trivial) (by rw [List.length_insertionSort, List.length_insertionSort, hlength]) h
  rw [List.forall₂_eq_eq_eq] at hclaims
  exact ⟨(insertionSort_eq_iff RelativeClaim.sortKey_injective).mp hclaims, hrest⟩

/-- The order of the claims of a relative bundle does not show in its bytes. -/
theorem hashRelativeBundle_eq {b b' : RelativeBundle} (h : b.Reorders b') :
    hashRelativeBundle b = hashRelativeBundle b' := by
  have hsorted := (insertionSort_eq_iff RelativeClaim.sortKey_injective).mpr h
  unfold hashRelativeBundle
  rw [hsorted]

/-- Choices can be told from their bytes up to the order of claims within alternatives. -/
theorem hashChoice_separates :
    Separates Choice.Reorders (fun c => Addressable c.alternatives.length ∧
      ∀ b ∈ c.alternatives, Addressable b.claims.length) hashChoice := by
  intro c c' hc hc' r r' h
  rw [hashChoice, hashChoice, List.append_assoc, List.append_assoc] at h
  obtain ⟨hlength, h⟩ := hashLength_separates hc.1 hc'.1 h
  exact hashBundle_separates.flatMap hc.2 hc'.2 hlength h

/-- The order of the claims within alternatives does not show in the bytes of a choice. -/
theorem hashChoice_eq {c c' : Choice} (h : c.Reorders c') : hashChoice c = hashChoice c' := by
  have hlength := h.length_eq
  have hbundles : c.alternatives.flatMap hashBundle = c'.alternatives.flatMap hashBundle := by
    rw [List.flatMap, List.flatMap, h.map_eq fun b b' => hashBundle_eq]
  rw [hashChoice, hashChoice, hlength, hbundles]

/-! ## Variants -/

/-- Modes of revision can be told from their bytes. -/
theorem hashRevisionMode_separates : Separates Eq Any hashRevisionMode := by
  intro m m' _ _ r r' h
  cases m <;> cases m' <;> simp [hashRevisionMode] at h ⊢ <;> exact h

/-- The states of replacements can be told from their bytes. -/
theorem hashReplacementState_separates : Separates Eq Any hashReplacementState := by
  intro s s' _ _ r r' h
  cases s with
  | held expiresAt =>
    cases s' with
    | held expiresAt' =>
      rw [hashReplacementState, hashReplacementState, List.append_assoc, List.append_assoc] at h
      obtain ⟨rfl, hrest⟩ := hashI64_separates trivial trivial (List.append_cancel_left h)
      exact ⟨rfl, hrest⟩
    | committed => simp [hashReplacementState] at h
  | committed =>
    cases s' with
    | held expiresAt' => simp [hashReplacementState] at h
    | committed => exact ⟨rfl, List.append_cancel_left h⟩

/-! ## Operations -/

/-- Operations that differ in the order of claims only are written alike. -/
theorem canonicalOperation_reorders {o o' : CommandOperation} (h : o.Reorders o') :
    canonicalOperation o = canonicalOperation o' := by
  cases h with
  | refl => rfl
  | hold bundles => rw [canonicalOperation, canonicalOperation, canonicalOperands,
      canonicalOperands, hashBundle_eq bundles, operationTag, operationTag]
  | holdOneOf choices => rw [canonicalOperation, canonicalOperation, canonicalOperands,
      canonicalOperands, hashChoice_eq choices, operationTag, operationTag]
  | holdFirstSlot bundles => rw [canonicalOperation, canonicalOperation, canonicalOperands,
      canonicalOperands, hashRelativeBundle_eq bundles, operationTag, operationTag]
  | replace bundles => rw [canonicalOperation, canonicalOperation, canonicalOperands,
      canonicalOperands, hashBundle_eq bundles, operationTag, operationTag]

/-- Operations whose operands are written alike, when their tags are the same, differ in the order
of claims only. -/
theorem canonicalOperands_separates {o o' : CommandOperation} (ho : o.Addressable)
    (ho' : o'.Addressable) (htag : operationTag o = operationTag o') {r r' : List UInt8}
    (h : canonicalOperands o ++ r = canonicalOperands o' ++ r') : o.Reorders o' := by
  cases o with
  | createResourcePool poolId displayName unit curve =>
    cases o' with
    | createResourcePool poolId' displayName' unit' curve' =>
      simp only [canonicalOperands, List.append_assoc] at h
      obtain ⟨hid, h⟩ := hashUuid_separates trivial trivial h
      obtain ⟨hname, h⟩ := hashString_separates ho.1 ho'.1 h
      obtain ⟨hunit, h⟩ := hashUnit_separates ho.2.1 ho'.2.1 h
      obtain ⟨hcurve, -⟩ := hashCapacityCurve_separates ho.2.2 ho'.2.2 h
      rw [ResourcePoolId.uuid_injective hid, hname, hunit, hcurve]
      apply CommandOperation.Reorders.refl
    | _ => simp [operationTag] at htag
  | reviseCapacity poolId curve mode =>
    cases o' with
    | reviseCapacity poolId' curve' mode' =>
      simp only [canonicalOperands, List.append_assoc] at h
      obtain ⟨hid, h⟩ := hashUuid_separates trivial trivial h
      obtain ⟨hcurve, h⟩ := hashCapacityCurve_separates ho ho' h
      obtain ⟨hmode, -⟩ := hashRevisionMode_separates trivial trivial h
      rw [ResourcePoolId.uuid_injective hid, hcurve, hmode]
      apply CommandOperation.Reorders.refl
    | _ => simp [operationTag] at htag
  | hold promiseId bundle expiresAt =>
    cases o' with
    | hold promiseId' bundle' expiresAt' =>
      simp only [canonicalOperands, List.append_assoc] at h
      obtain ⟨hid, h⟩ := hashUuid_separates trivial trivial h
      obtain ⟨hbundle, h⟩ := hashBundle_separates ho ho' h
      obtain ⟨hexpires, -⟩ := hashI64_separates trivial trivial h
      rw [PromiseId.uuid_injective hid, hexpires]
      exact .hold hbundle
    | _ => simp [operationTag] at htag
  | holdOneOf promiseId choice expiresAt =>
    cases o' with
    | holdOneOf promiseId' choice' expiresAt' =>
      simp only [canonicalOperands, List.append_assoc] at h
      obtain ⟨hid, h⟩ := hashUuid_separates trivial trivial h
      obtain ⟨hchoice, h⟩ := hashChoice_separates ho ho' h
      obtain ⟨hexpires, -⟩ := hashI64_separates trivial trivial h
      rw [PromiseId.uuid_injective hid, hexpires]
      exact .holdOneOf hchoice
    | _ => simp [operationTag] at htag
  | holdFirstSlot promiseId bundle earliestStart latestStart step expiresAt =>
    cases o' with
    | holdFirstSlot promiseId' bundle' earliestStart' latestStart' step' expiresAt' =>
      simp only [canonicalOperands, List.append_assoc] at h
      obtain ⟨hid, h⟩ := hashUuid_separates trivial trivial h
      obtain ⟨hbundle, h⟩ := hashRelativeBundle_separates ho ho' h
      obtain ⟨hearliest, h⟩ := hashI64_separates trivial trivial h
      obtain ⟨hlatest, h⟩ := hashI64_separates trivial trivial h
      obtain ⟨hstep, h⟩ := hashI64_separates trivial trivial h
      obtain ⟨hexpires, -⟩ := hashI64_separates trivial trivial h
      rw [PromiseId.uuid_injective hid, hearliest, hlatest, hstep, hexpires]
      exact .holdFirstSlot hbundle
    | _ => simp [operationTag] at htag
  | commit promiseId expectedVersion =>
    cases o' with
    | commit promiseId' expectedVersion' =>
      simp only [canonicalOperands, List.append_assoc] at h
      obtain ⟨hid, h⟩ := hashUuid_separates trivial trivial h
      obtain ⟨hversion, -⟩ := hashVersion_separates trivial trivial h
      rw [PromiseId.uuid_injective hid, hversion]
      apply CommandOperation.Reorders.refl
    | _ => simp [operationTag] at htag
  | release promiseId expectedVersion =>
    cases o' with
    | release promiseId' expectedVersion' =>
      simp only [canonicalOperands, List.append_assoc] at h
      obtain ⟨hid, h⟩ := hashUuid_separates trivial trivial h
      obtain ⟨hversion, -⟩ := hashVersion_separates trivial trivial h
      rw [PromiseId.uuid_injective hid, hversion]
      apply CommandOperation.Reorders.refl
    | _ => simp [operationTag] at htag
  | replace promiseId expectedVersion bundle newState =>
    cases o' with
    | replace promiseId' expectedVersion' bundle' newState' =>
      simp only [canonicalOperands, List.append_assoc] at h
      obtain ⟨hid, h⟩ := hashUuid_separates trivial trivial h
      obtain ⟨hversion, h⟩ := hashVersion_separates trivial trivial h
      obtain ⟨hbundle, h⟩ := hashBundle_separates ho ho' h
      obtain ⟨hstate, -⟩ := hashReplacementState_separates trivial trivial h
      rw [PromiseId.uuid_injective hid, hversion, hstate]
      exact .replace hbundle
    | _ => simp [operationTag] at htag
  | processExpirations =>
    cases o' with
    | processExpirations => exact .refl _
    | _ => simp [operationTag] at htag

/-- Canonical representations are equal exactly when the operations are, up to the order of the
claims. -/
theorem canonicalOperation_inj {o o' : CommandOperation} (ho : o.Addressable)
    (ho' : o'.Addressable) : canonicalOperation o = canonicalOperation o' ↔ o.Reorders o' := by
  constructor
  · intro h
    obtain ⟨htag, hoperands⟩ := List.cons.inj h
    have happend : canonicalOperands o ++ [] = canonicalOperands o' ++ [] := by rw [hoperands]
    exact canonicalOperands_separates ho ho' htag happend
  · exact canonicalOperation_reorders

end PromiseDb
