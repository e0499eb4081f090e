import Mathlib.Algebra.BigOperators.Group.List.Basic
import Mathlib.Data.List.Sort
import Mathlib.Order.Compare
import Mathlib.Tactic
import Std.Data.ExtTreeMap

/-!
# Ordered maps over a linear order

Maps from a linearly ordered key type, iterated in increasing key order.  The carrier is the
extensional tree map of the standard library, so two maps are equal exactly when they answer
every lookup alike.  Added here are the lookup equations in terms of key equality, the list of
entries as a sorted list, and sums over the entries with their update law.
-/

/-- The order of a linear order decides equality of keys. -/
instance LinearOrder.lawfulEqCmp {K : Type*} [LinearOrder K] :
    Std.LawfulEqCmp (compare : K → K → Ordering) where
  eq_of_compare h := compare_eq_iff_eq.mp h

/-- The order of a linear order is transitive. -/
theorem LinearOrder.transCmp (K : Type*) [LinearOrder K] :
    Std.TransCmp (compare : K → K → Ordering) := inferInstance

/-- Maps whose entries are listed in increasing key order. -/
abbrev OrderedMap (K V : Type*) [LinearOrder K] := Std.ExtTreeMap K V compare

namespace OrderedMap

open Std

variable {K V : Type*} [LinearOrder K]

/-- The values of a map in key order. -/
def vals (m : OrderedMap K V) : List V := m.toList.map Prod.snd

/-- Overwrite the entries of `m` by those of `n`. -/
def extend (m n : OrderedMap K V) : OrderedMap K V := m ∪ n

/-- Update the entry at `k`, starting from `init` when there is none. -/
def upsert (m : OrderedMap K V) (k : K) (init : V) (f : V → V) : OrderedMap K V :=
  m.insert k (f (m[k]?.getD init))

/-! ## Lookup -/

/-- Looking a key up after an insertion. -/
@[simp] theorem lookup_insert (m : OrderedMap K V) (k k' : K) (v : V) :
    (m.insert k v)[k']? = if k = k' then some v else m[k']? := by
  rw [ExtTreeMap.getElem?_insert]
  simp

/-- An inserted value is found. -/
theorem lookup_insert_self (m : OrderedMap K V) (k : K) (v : V) : (m.insert k v)[k]? = some v := by
  simp

/-- An insertion does not change the other values. -/
theorem lookup_insert_of_ne (m : OrderedMap K V) {k k' : K} (h : k ≠ k') (v : V) :
    (m.insert k v)[k']? = m[k']? := by
  simp [h]

/-- Looking a key up after a removal. -/
@[simp] theorem lookup_erase (m : OrderedMap K V) (k k' : K) :
    (m.erase k)[k']? = if k = k' then none else m[k']? := by
  rw [ExtTreeMap.getElem?_erase]
  simp

/-- An erased value is not found. -/
theorem lookup_erase_self (m : OrderedMap K V) (k : K) : (m.erase k)[k]? = none := by
  simp

/-- Erasing does not change the other values. -/
theorem lookup_erase_of_ne (m : OrderedMap K V) {k k' : K} (h : k ≠ k') :
    (m.erase k)[k']? = m[k']? := by
  simp [h]

/-- Looking a key up after an extension: the second map wins. -/
@[simp] theorem lookup_extend (m n : OrderedMap K V) (k : K) :
    (extend m n)[k]? = n[k]?.or m[k]? :=
  ExtTreeMap.getElem?_union

/-- An update changes the value of one key, which starts with a default. -/
@[simp] theorem lookup_upsert (m : OrderedMap K V) (k k' : K) (init : V) (f : V → V) :
    (upsert m k init f)[k']? = if k = k' then some (f (m[k]?.getD init)) else m[k']? :=
  lookup_insert _ _ _ _

/-- Nothing is found in the empty map. -/
@[simp] theorem lookup_empty (k : K) : (∅ : OrderedMap K V)[k]? = none :=
  ExtTreeMap.getElem?_empty

/-- A key is present exactly when its lookup succeeds. -/
theorem mem_iff_lookup {m : OrderedMap K V} {k : K} : k ∈ m ↔ ∃ v, m[k]? = some v := by
  rw [ExtTreeMap.mem_iff_isSome_getElem?, Option.isSome_iff_exists]

/-- A key is absent exactly if nothing is found. -/
theorem not_mem_iff_lookup {m : OrderedMap K V} {k : K} : k ∉ m ↔ m[k]? = none := by
  rw [ExtTreeMap.mem_iff_isSome_getElem?]
  simp

/-- Whether a key is there is decided by a test. -/
theorem contains_iff {m : OrderedMap K V} {k : K} : m.contains k = true ↔ k ∈ m :=
  ExtTreeMap.contains_iff_mem

/-- An insertion adds one key. -/
@[simp] theorem mem_insert_iff {m : OrderedMap K V} {k k' : K} {v : V} :
    k' ∈ m.insert k v ↔ k = k' ∨ k' ∈ m := by
  rw [ExtTreeMap.mem_insert]
  simp

/-- Two maps with the same lookups are equal. -/
theorem ext_lookup {m n : OrderedMap K V} (h : ∀ k : K, m[k]? = n[k]?) : m = n :=
  ExtTreeMap.ext_getElem? h

/-- The last value that is inserted remains. -/
theorem insert_insert (m : OrderedMap K V) (k : K) (v w : V) :
    (m.insert k v).insert k w = m.insert k w := by
  apply ext_lookup
  intro k'
  rw [lookup_insert, lookup_insert, lookup_insert]
  split <;> rfl

/-- Inserting the value that is already there changes nothing. -/
theorem insert_eq_self {m : OrderedMap K V} {k : K} {v : V} (h : m[k]? = some v) :
    m.insert k v = m := by
  refine ext_lookup fun k' => ?_
  rw [lookup_insert]
  split
  · rename_i hk
    rw [← hk, h]
  · rfl

/-! ## Entries -/

/-- The entries are the values that are found. -/
theorem mem_toList {m : OrderedMap K V} {e : K × V} : e ∈ m.toList ↔ m[e.1]? = some e.2 :=
  ExtTreeMap.mem_toList_iff_getElem?_eq_some

/-- The values are those of the keys. -/
theorem mem_vals {m : OrderedMap K V} {v : V} : v ∈ vals m ↔ ∃ k : K, m[k]? = some v := by
  simp only [vals, List.mem_map, Prod.exists, exists_eq_right]
  exact exists_congr fun k => mem_toList

/-- The entries come in strictly increasing key order. -/
theorem toList_sorted (m : OrderedMap K V) : m.toList.Pairwise (fun a b => a.1 < b.1) :=
  (ExtTreeMap.ordered_keys_toList (t := m)).imp fun h => compare_lt_iff_lt.mp h

/-- Every entry is listed once. -/
theorem toList_nodup (m : OrderedMap K V) : m.toList.Nodup :=
  (toList_sorted m).imp fun h he => absurd (he ▸ h) (lt_irrefl _)

/-- The empty map has no entries. -/
@[simp] theorem toList_empty : (∅ : OrderedMap K V).toList = [] :=
  ExtTreeMap.toList_eq_nil_iff.mpr rfl

/-- The entries after an insertion, up to order. -/
theorem toList_insert_perm (m : OrderedMap K V) (k : K) (v : V) :
    (m.insert k v).toList.Perm ((k, v) :: m.toList.filter (fun e => e.1 ≠ k)) := by
  refine (List.perm_ext_iff_of_nodup (toList_nodup _) ?_).mpr fun e => ?_
  · exact List.nodup_cons.mpr ⟨by simp, (toList_nodup m).filter _⟩
  · obtain ⟨k', v'⟩ := e
    simp only [mem_toList, lookup_insert, List.mem_cons, List.mem_filter, Prod.mk.injEq,
      decide_eq_true_eq]
    by_cases hk : k = k'
    · subst hk
      simp [eq_comm]
    · simp [hk, Ne.symm hk]

/-! ## Loops that fill a map -/

section Loops

variable {ε : Type*} {A W : Type u} {K : Type u} [LinearOrder K]

/-- A loop that inserts one value under the key of each entry, when it succeeds. -/
theorem foldlM_insert_ok {f : K × A → Except ε W} {l : List (K × A)}
    (hl : (l.map Prod.fst).Nodup) {acc r : OrderedMap K W}
    (h : l.foldlM (fun (acc : OrderedMap K W) e => return acc.insert e.1 (← f e)) acc = .ok r) :
    (∀ e ∈ l, ∃ w, f e = .ok w ∧ r[e.1]? = some w) ∧
      ∀ k, k ∉ l.map Prod.fst → r[k]? = acc[k]? := by
  induction l generalizing acc with
  | nil =>
    obtain rfl : acc = r := Except.ok.inj h
    simp
  | cons e l ih =>
    obtain ⟨hnotin, hl⟩ := List.nodup_cons.mp hl
    rw [List.foldlM_cons] at h
    cases hf : f e with
    | error x =>
      rw [hf] at h
      cases h
    | ok w =>
      rw [hf] at h
      obtain ⟨hall, hrest⟩ := ih hl h
      refine ⟨fun a ha => ?_, fun k hk => ?_⟩
      · rcases List.mem_cons.mp ha with rfl | ha
        · exact ⟨w, hf, by rw [hrest _ hnotin, lookup_insert_self]⟩
        · exact hall a ha
      · rw [List.map_cons, List.mem_cons, not_or] at hk
        rw [hrest k hk.2, lookup_insert_of_ne _ (Ne.symm hk.1)]

/-- The loop succeeds when every value can be computed. -/
theorem foldlM_insert_exists {f : K × A → Except ε W} {l : List (K × A)}
    (h : ∀ e ∈ l, ∃ w, f e = .ok w) (acc : OrderedMap K W) :
    ∃ r, l.foldlM (fun (acc : OrderedMap K W) e => return acc.insert e.1 (← f e)) acc =
      .ok r := by
  induction l generalizing acc with
  | nil => exact ⟨acc, rfl⟩
  | cons e l ih =>
    obtain ⟨w, hw⟩ := h e (by simp)
    rw [List.foldlM_cons, hw]
    exact ih (fun a ha => h a (List.mem_cons_of_mem _ ha)) (acc.insert e.1 w)

end Loops

/-- Inserts one value for each element of a list. -/
def insertAll {A : Type*} (key : A → K) (value : A → V) (m : OrderedMap K V) (l : List A) :
    OrderedMap K V :=
  l.foldl (fun m a => m.insert (key a) (value a)) m

section InsertAll

variable {A : Type*} {key : A → K} {value : A → V} {l : List A}

/-- Keys that are not inserted keep their values. -/
theorem lookup_insertAll_of_ne (m : OrderedMap K V) {k : K} (h : ∀ a ∈ l, key a ≠ k) :
    (insertAll key value m l)[k]? = m[k]? := by
  induction l generalizing m with
  | nil => rfl
  | cons a l ih =>
    have hrest := ih (m.insert (key a) (value a)) fun b hb => h b (List.mem_cons_of_mem a hb)
    exact hrest.trans (lookup_insert_of_ne m (h a List.mem_cons_self) (value a))

/-- What is found afterwards was there before or is the value of an element. -/
theorem lookup_insertAll_cases {m : OrderedMap K V} {k : K} {v : V}
    (h : (insertAll key value m l)[k]? = some v) :
    m[k]? = some v ∨ ∃ a ∈ l, key a = k ∧ value a = v := by
  induction l generalizing m with
  | nil => exact .inl h
  | cons a l ih =>
    rcases ih h with hm | ⟨b, hb, hkey⟩
    · rw [lookup_insert] at hm
      split at hm
      · rename_i hk
        exact .inr ⟨a, List.mem_cons_self, hk, Option.some.inj hm⟩
      · exact .inl hm
    · exact .inr ⟨b, List.mem_cons_of_mem a hb, hkey⟩

/-- Insertions drop no key. -/
theorem mem_insertAll {m : OrderedMap K V} {k : K} (h : k ∈ m) : k ∈ insertAll key value m l := by
  induction l generalizing m with
  | nil => exact h
  | cons a l ih => exact ih (mem_insert_iff.mpr (.inr h))

/-- One list after another. -/
theorem insertAll_append (m : OrderedMap K V) (l l' : List A) :
    insertAll key value m (l ++ l') = insertAll key value (insertAll key value m l) l' :=
  List.foldl_append

/-- Elements with different keys are all found again. -/
theorem lookup_insertAll_of_mem (hl : l.Pairwise fun a b => key a ≠ key b) (m : OrderedMap K V)
    {a : A} (ha : a ∈ l) : (insertAll key value m l)[key a]? = some (value a) := by
  induction l generalizing m with
  | nil => cases ha
  | cons b l ih =>
    obtain ⟨hb, hl⟩ := List.pairwise_cons.mp hl
    rcases List.mem_cons.mp ha with rfl | ha
    · have hrest : (insertAll key value (m.insert (key a) (value a)) l)[key a]? =
          (m.insert (key a) (value a))[key a]? :=
        lookup_insertAll_of_ne _ fun c hc => (hb c hc).symm
      exact hrest.trans (lookup_insert_self m (key a) (value a))
    · exact ih hl _ ha

/-- Inserting what a map has, and nothing else that it lacks, gives the map. -/
theorem insertAll_eq (hl : l.Pairwise fun a b => key a ≠ key b) {m n : OrderedMap K V}
    (hmem : ∀ a ∈ l, n[key a]? = some (value a))
    (hrest : ∀ k : K, (∀ a ∈ l, key a ≠ k) → m[k]? = n[k]?) : insertAll key value m l = n := by
  apply ext_lookup
  intro k
  by_cases h : ∃ a ∈ l, key a = k
  · obtain ⟨a, ha, rfl⟩ := h
    rw [lookup_insertAll_of_mem hl m ha, hmem a ha]
  · push Not at h
    rw [lookup_insertAll_of_ne m h, hrest k h]

/-- Values that carry their keys come in the order of the keys. -/
theorem values_sorted {id : V → K} {m : OrderedMap K V}
    (hid : ∀ (k : K) (v : V), m[k]? = some v → id v = k) {l : List (K × V)}
    (hl : l.Sublist m.toList) : (l.map Prod.snd).Pairwise fun a b => id a < id b := by
  have hkeys : ∀ e ∈ l, id e.2 = e.1 := fun e he => hid _ _ (mem_toList.mp (hl.subset he))
  refine List.pairwise_map.mpr (((toList_sorted m).sublist hl).imp_of_mem ?_)
  intro a b ha hb hlt
  rw [hkeys a ha, hkeys b hb]
  exact hlt

/-- Inserting the values of the entries in which two maps differ makes them equal. -/
theorem insertAll_values {id : V → K} {m n : OrderedMap K V}
    (hid : ∀ (k : K) (v : V), m[k]? = some v → id v = k) {l : List (K × V)}
    (hl : l.Sublist m.toList) (hsame : ∀ e ∈ m.toList, e ∉ l → n[e.1]? = some e.2)
    (hkeys : ∀ k : K, k ∈ n → k ∈ m) :
    insertAll id (fun v => v) n (l.map Prod.snd) = m := by
  apply insertAll_eq
  · exact (values_sorted hid hl).imp fun h => h.ne
  · intro v hv
    obtain ⟨e, he, rfl⟩ := List.mem_map.mp hv
    have hlookup := mem_toList.mp (hl.subset he)
    rw [hid _ _ hlookup, hlookup]
  · intro k hk
    cases hm : m[k]? with
    | none => exact not_mem_iff_lookup.mp (mt (hkeys k) (not_mem_iff_lookup.mpr hm))
    | some v =>
      have he : (k, v) ∈ m.toList := mem_toList.mpr hm
      apply hsame (k, v) he
      intro hin
      exact hk v (List.mem_map.mpr ⟨(k, v), hin, rfl⟩) (hid k v hm)

/-- Values that carry their keys are listed in the order of the keys. -/
theorem vals_sorted {id : V → K} {m : OrderedMap K V}
    (hid : ∀ (k : K) (v : V), m[k]? = some v → id v = k) :
    (vals m).Pairwise fun a b => id a < id b :=
  values_sorted hid (List.Sublist.refl _)

/-- Inserting all values of a map into the empty one gives the map. -/
theorem insertAll_vals {id : V → K} {m : OrderedMap K V}
    (hid : ∀ (k : K) (v : V), m[k]? = some v → id v = k) :
    insertAll id (fun v => v) ∅ (vals m) = m := by
  apply insertAll_values hid (List.Sublist.refl _)
  · exact fun e he hout => absurd he hout
  · intro k hk
    obtain ⟨v, hv⟩ := mem_iff_lookup.mp hk
    rw [lookup_empty] at hv
    cases hv

/-- Elements in the order of their keys are listed in this order. -/
theorem toList_insertAll (hl : l.Pairwise fun a b => key a < key b) :
    (insertAll key value (∅ : OrderedMap K V) l).toList = l.map fun a => (key a, value a) := by
  have hne : l.Pairwise fun a b => key a ≠ key b := hl.imp fun h => h.ne
  have hsorted : (l.map fun a => (key a, value a)).Pairwise fun a b => a.1 < b.1 :=
    List.pairwise_map.mpr hl
  have hnodup : (l.map fun a => (key a, value a)).Nodup :=
    hsorted.imp fun h he => absurd (he ▸ h) (lt_irrefl _)
  have hperm : (insertAll key value (∅ : OrderedMap K V) l).toList.Perm
      (l.map fun a => (key a, value a)) := by
    refine (List.perm_ext_iff_of_nodup (toList_nodup _) hnodup).mpr ?_
    intro e
    rw [mem_toList, List.mem_map]
    constructor
    · intro he
      by_cases h : ∃ a ∈ l, key a = e.1
      · obtain ⟨a, ha, hkey⟩ := h
        rw [← hkey, lookup_insertAll_of_mem hne _ ha] at he
        exact ⟨a, ha, Prod.ext hkey (Option.some.inj he)⟩
      · push Not at h
        rw [lookup_insertAll_of_ne _ h, lookup_empty] at he
        cases he
    · rintro ⟨a, ha, rfl⟩
      exact lookup_insertAll_of_mem hne _ ha
  apply hperm.eq_of_pairwise ?_ (toList_sorted _) hsorted
  intro a b _ _ hab hba
  exact absurd (hab.trans hba) (lt_irrefl _)

/-- Values in the order of the keys that they carry are listed in this order. -/
theorem vals_insertAll {id : V → K} {l : List V} (hl : l.Pairwise fun a b => id a < id b) :
    vals (insertAll id (fun v => v) ∅ l) = l := by
  rw [vals, toList_insertAll hl, List.map_map]
  exact List.map_id l

end InsertAll

/-- The keys of a map are listed without repetition. -/
theorem toList_keys_nodup (m : OrderedMap K V) : (m.toList.map Prod.fst).Nodup :=
  List.pairwise_map.mpr ((toList_sorted m).imp fun h => h.ne)

/-- The listed keys are those of the map. -/
theorem mem_keys_iff {m : OrderedMap K V} {k : K} : k ∈ m.toList.map Prod.fst ↔ k ∈ m := by
  simp only [List.mem_map, Prod.exists, exists_and_right, exists_eq_right, mem_iff_lookup]
  exact exists_congr fun v => mem_toList

/-! ## Maps with related entries -/

section Related

variable {W : Type*} {R : V → W → Prop}

/-- The maps have the same keys, with related values. -/
def Rel (R : V → W → Prop) (m : OrderedMap K V) (n : OrderedMap K W) : Prop :=
  ∀ k : K, Option.Rel R m[k]? n[k]?

/-- Empty maps are related. -/
theorem Rel.empty : Rel R (∅ : OrderedMap K V) (∅ : OrderedMap K W) := by
  intro k
  rw [lookup_empty, lookup_empty]
  exact .none

/-- Related maps stay related when related values are inserted. -/
theorem Rel.insert {m : OrderedMap K V} {n : OrderedMap K W} (h : Rel R m n) (k : K) {v : V} {w : W}
    (hvw : R v w) : Rel R (m.insert k v) (n.insert k w) := by
  intro k'
  rw [lookup_insert, lookup_insert]
  split
  · exact .some hvw
  · exact h k'

/-- A key is in both maps or in none. -/
theorem Rel.mem_iff {m : OrderedMap K V} {n : OrderedMap K W} (h : Rel R m n) (k : K) :
    k ∈ m ↔ k ∈ n := by
  rw [mem_iff_lookup, mem_iff_lookup]
  have hk := h k
  cases hm : m[k]? with
  | none =>
    rw [hm] at hk
    cases hn : n[k]? with
    | none => simp
    | some w =>
      rw [hn] at hk
      cases hk
  | some v =>
    rw [hm] at hk
    cases hn : n[k]? with
    | none =>
      rw [hn] at hk
      cases hk
    | some w => simp

/-- Related maps have the same keys. -/
theorem Rel.contains_eq {m : OrderedMap K V} {n : OrderedMap K W} (h : Rel R m n) (k : K) :
    m.contains k = n.contains k :=
  Bool.eq_iff_iff.mpr (contains_iff.trans ((h.mem_iff k).trans contains_iff.symm))

/-- Related maps stay related when a key is removed. -/
theorem Rel.erase {m : OrderedMap K V} {n : OrderedMap K W} (h : Rel R m n) (k : K) :
    Rel R (m.erase k) (n.erase k) := by
  intro k'
  rw [lookup_erase, lookup_erase]
  split
  · exact .none
  · exact h k'

/-- The keys are listed in the same order. -/
theorem Rel.keys_eq {m : OrderedMap K V} {n : OrderedMap K W} (h : Rel R m n) :
    m.toList.map Prod.fst = n.toList.map Prod.fst := by
  apply List.Pairwise.eq_of_mem_iff (r := (· < ·))
  · exact List.pairwise_map.mpr (toList_sorted m)
  · exact List.pairwise_map.mpr (toList_sorted n)
  · intro k
    rw [mem_keys_iff, mem_keys_iff, h.mem_iff]

/-- The entries are listed in the same order. -/
theorem Rel.toList {m : OrderedMap K V} {n : OrderedMap K W} (h : Rel R m n) :
    List.Forall₂ (fun a b => a.1 = b.1 ∧ R a.2 b.2) m.toList n.toList := by
  have hkeys := h.keys_eq
  have hsame : List.Forall₂ (fun a b => a.1 = b.1) m.toList n.toList := by
    rw [← List.forall₂_map_right_iff, ← List.forall₂_map_left_iff, List.forall₂_eq_eq_eq]
    exact hkeys
  refine List.forall₂_iff_zip.mpr ⟨hsame.length_eq, fun {a b} hab => ?_⟩
  have hkey : a.1 = b.1 := List.forall₂_zip hsame hab
  obtain ⟨ha, hb⟩ := List.of_mem_zip hab
  have hrel := h a.1
  rw [mem_toList.mp ha, hkey, mem_toList.mp hb] at hrel
  cases hrel with
  | some hvalue => exact ⟨hkey, hvalue⟩

end Related

/-! ## Sums over the entries -/

section Sums

variable {M : Type*} [AddCommGroup M]

/-- The sum of `f` over the entries of a map. -/
def sumOn (m : OrderedMap K V) (f : K → V → M) : M := (m.toList.map fun e => f e.1 e.2).sum

/-- The sum over the empty map is zero. -/
@[simp] theorem sumOn_empty (f : K → V → M) : sumOn (∅ : OrderedMap K V) f = 0 := by
  simp [sumOn]

/-- The sum over a map splits into the contribution of one key and the rest. -/
theorem sumOn_eq_add_filter (m : OrderedMap K V) (f : K → V → M) (k : K) :
    sumOn m f = m[k]?.elim 0 (f k) +
      ((m.toList.filter (fun e => e.1 ≠ k)).map fun e => f e.1 e.2).sum := by
  cases hk : m[k]? with
  | none =>
    have hfilter : m.toList.filter (fun e => e.1 ≠ k) = m.toList := by
      refine List.filter_eq_self.mpr fun e he => ?_
      have : e.1 ≠ k := by
        rintro rfl
        rw [mem_toList.mp he] at hk
        exact absurd hk (by simp)
      simpa using this
    rw [hfilter]
    simp [sumOn]
  | some v =>
    have hperm := toList_insert_perm m k v
    rw [insert_eq_self hk] at hperm
    simp only [sumOn, Option.elim_some]
    rw [(hperm.map fun e => f e.1 e.2).sum_eq]
    simp

/-- Inserting an entry replaces the contribution of its key. -/
theorem sumOn_insert (m : OrderedMap K V) (f : K → V → M) (k : K) (v : V) :
    sumOn (m.insert k v) f = sumOn m f - m[k]?.elim 0 (f k) + f k v := by
  have hperm := toList_insert_perm m k v
  rw [sumOn_eq_add_filter m f k]
  simp only [sumOn]
  rw [(hperm.map fun e => f e.1 e.2).sum_eq]
  simp [add_comm]

/-- Erasing a key takes its contribution away. -/
theorem sumOn_erase (m : OrderedMap K V) (f : K → V → M) (k : K) :
    sumOn (m.erase k) f = sumOn m f - m[k]?.elim 0 (f k) := by
  cases hk : m[k]? with
  | none =>
    have hsame : m.erase k = m := by
      apply ext_lookup
      intro k'
      rw [lookup_erase]
      split
      · rename_i heq
        rw [← heq, hk]
      · rfl
    rw [hsame, Option.elim_none, sub_zero]
  | some v =>
    have hsame : (m.erase k).insert k v = m := by
      apply ext_lookup
      intro k'
      rw [lookup_insert, lookup_erase]
      split
      · rename_i heq
        rw [← heq, hk]
      · rfl
    have hinsert := sumOn_insert (m.erase k) f k v
    rw [hsame, lookup_erase_self, Option.elim_none, sub_zero] at hinsert
    rw [hinsert, Option.elim_some, add_sub_cancel_right]

/-- The sums over maps with related entries agree if the contributions do. -/
theorem Rel.sumOn_eq {W : Type*} {R : V → W → Prop} {m : OrderedMap K V} {n : OrderedMap K W}
    (h : Rel R m n) {f : K → V → M} {g : K → W → M} (hfg : ∀ k v w, m[k]? = some v → R v w →
      f k v = g k w) : sumOn m f = sumOn n g := by
  have hsame : List.Forall₂ (fun a b => f a.1 a.2 = g b.1 b.2) m.toList n.toList := by
    refine List.forall₂_iff_zip.mpr ⟨h.toList.length_eq, fun {a b} hab => ?_⟩
    obtain ⟨hkey, hvalue⟩ := List.forall₂_zip h.toList hab
    rw [← hkey]
    exact hfg a.1 a.2 b.2 (mem_toList.mp (List.of_mem_zip hab).1) hvalue
  have hmap : m.toList.map (fun e => f e.1 e.2) = n.toList.map fun e => g e.1 e.2 := by
    rw [← List.forall₂_eq_eq_eq, List.forall₂_map_left_iff, List.forall₂_map_right_iff]
    exact hsame
  rw [sumOn, sumOn, hmap]

/-- Without negative contributions a sum is at least each of them. -/
theorem le_sumOn {f : K → V → ℤ} (hf : ∀ k v, 0 ≤ f k v) {m : OrderedMap K V} {k : K} {v : V}
    (h : m[k]? = some v) : f k v ≤ sumOn m f := by
  rw [sumOn_eq_add_filter m f k, h, Option.elim_some]
  refine le_add_of_nonneg_right (List.sum_nonneg fun x hx => ?_)
  obtain ⟨e, -, rfl⟩ := List.mem_map.mp hx
  exact hf e.1 e.2

end Sums

end OrderedMap
