import Mathlib.Data.List.Forall2
import Mathlib.Data.List.Sort
import Mathlib.Tactic

/-!
# Canonical representations

A way of writing values separates them up to a relation when two values that are written at the
front of the same string are related, and what follows them is the same.  Fields that are written
one after the other are then told apart from the front: those of a fixed width by their width, and
lists of such fields by their length.  A list that is sorted by an injective key is a canonical form
of its elements, whatever their order was.
-/

namespace CanonicalForm

variable {α β γ : Type*} {R : α → α → Prop} {P : α → Prop} {w : α → List γ}

/-! ## Writers that separate values -/

/-- Values with the property `P` that are written at the front of the same string are related by
`R`, and the rest of the string is the same. -/
def Separates (R : α → α → Prop) (P : α → Prop) (w : α → List γ) : Prop :=
  ∀ ⦃a b : α⦄, P a → P b → ∀ ⦃r s : List γ⦄, w a ++ r = w b ++ s → R a b ∧ r = s

/-- Values that are written alike are related. -/
theorem Separates.rel (h : Separates R P w) {a b : α} (ha : P a) (hb : P b) (heq : w a = w b) :
    R a b := by
  have happend : w a ++ [] = w b ++ [] := by rw [heq]
  exact (h ha hb happend).1

/-- Values that are written with a fixed width are told apart by what is written. -/
theorem Separates.of_length {n : ℕ} (hlength : ∀ a, P a → (w a).length = n)
    (hrel : ∀ a b, P a → P b → w a = w b → R a b) : Separates R P w := by
  intro a b ha hb r s h
  have hlen : (w a).length = (w b).length := (hlength a ha).trans (hlength b hb).symm
  obtain ⟨hw, hrest⟩ := List.append_inj h hlen
  exact ⟨hrel a b ha hb hw, hrest⟩

/-- Lists of the same length, whose elements are written one after the other. -/
theorem Separates.flatMap (h : Separates R P w) {l l' : List α} (hl : ∀ a ∈ l, P a)
    (hl' : ∀ a ∈ l', P a) (hlength : l.length = l'.length) {r s : List γ}
    (heq : l.flatMap w ++ r = l'.flatMap w ++ s) : List.Forall₂ R l l' ∧ r = s := by
  induction l generalizing l' with
  | nil =>
    obtain rfl := List.eq_nil_of_length_eq_zero hlength.symm
    exact ⟨.nil, heq⟩
  | cons a l ih =>
    cases l' with
    | nil => cases hlength
    | cons b l' =>
      rw [List.flatMap_cons, List.flatMap_cons, List.append_assoc, List.append_assoc] at heq
      obtain ⟨hab, hrest⟩ := h (hl a List.mem_cons_self) (hl' b List.mem_cons_self) heq
      obtain ⟨hall, hrs⟩ := ih (fun c hc => hl c (List.mem_cons_of_mem a hc))
        (fun c hc => hl' c (List.mem_cons_of_mem b hc)) (Nat.succ.inj hlength) hrest
      exact ⟨.cons hab hall, hrs⟩

/-! ## Strings -/

/-- The loop that lists the bytes of an array from a position on. -/
theorem toList_loop_eq (bytes : ByteArray) (i : ℕ) (r : List UInt8) :
    ByteArray.toList.loop bytes i r = r.reverse ++ bytes.data.toList.drop i := by
  induction i, r using ByteArray.toList.loop.induct bytes with
  | case1 i r hlt ih =>
    have hlt' : i < bytes.data.toList.length := hlt
    have hget : bytes.get! i = bytes.data.toList[i] := by
      rw [ByteArray.get!, getElem!_pos bytes.data i hlt]
      rfl
    rw [ByteArray.toList.loop, if_pos hlt, ih, List.drop_eq_getElem_cons hlt', List.reverse_cons,
      List.append_assoc, hget]
    rfl
  | case2 i r hge =>
    have hlength : bytes.data.toList.length ≤ i := not_lt.mp hge
    rw [ByteArray.toList.loop, if_neg hge, List.drop_eq_nil_of_le hlength, List.append_nil]

/-- A string is determined by its bytes. -/
theorem string_eq_of_bytes {s s' : String} (h : s.toUTF8.toList = s'.toUTF8.toList) : s = s' := by
  rw [ByteArray.toList, ByteArray.toList, toList_loop_eq, toList_loop_eq] at h
  have hdata : s.toUTF8.data = s'.toUTF8.data := Array.toList_inj.mp h
  exact String.toByteArray_inj.mp (ByteArray.ext hdata)

/-! ## Sorted lists -/

section Sorting

variable {K : Type*} [LinearOrder K] {key : α → K}

/-- Sorting by an injective key gives the same list exactly for the same elements. -/
theorem insertionSort_eq_iff (hkey : Function.Injective key) {l l' : List α} :
    l.insertionSort (fun a b => key a ≤ key b) = l'.insertionSort (fun a b => key a ≤ key b) ↔
      l.Perm l' := by
  constructor
  · intro h
    have hperm := List.perm_insertionSort (fun a b => key a ≤ key b) l
    rw [h] at hperm
    exact hperm.symm.trans (List.perm_insertionSort _ l')
  · intro h
    have hperm : (l.insertionSort fun a b => key a ≤ key b).Perm
        (l'.insertionSort fun a b => key a ≤ key b) :=
      (List.perm_insertionSort _ l).trans (h.trans (List.perm_insertionSort _ l').symm)
    apply hperm.eq_of_pairwise ?_ (List.pairwise_insertionSort _ l)
      (List.pairwise_insertionSort _ l')
    intro a b _ _ hab hba
    exact hkey (le_antisymm hab hba)

end Sorting

end CanonicalForm
