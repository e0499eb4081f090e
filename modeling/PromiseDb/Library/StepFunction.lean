import Mathlib.Algebra.Group.Basic
import Mathlib.Algebra.Order.Group.Defs
import Mathlib.Data.List.Basic
import Mathlib.Order.Basic
import Mathlib.Tactic

/-!
# Step functions over a linear order

A step function is given by a list of change points `(t, v)` in increasing order of `t`: from
`t` on, up to the next point, its value is `v`, and before the first point its value is a
default `d`.  The list is a representation only; `valueAt` is what it stands for.

The development gives the value of a concatenation, adds a constant over a half-open range, cuts
the list at a new point without changing the function, and drops the points at which the value
does not change.  The list left by the last operation is canonical: two canonical lists with
the same values are equal.
-/

namespace StepFunction

variable {T V : Type*} [LinearOrder T]

/-- The value at `t` of the step function with change points `l` and default value `d`. -/
def valueAt (d : V) (l : List (T × V)) (t : T) : V :=
  l.foldl (fun v e => if e.1 ≤ t then e.2 else v) d

/-- The change points come in strictly increasing order. -/
abbrev Increasing (l : List (T × V)) : Prop := l.Pairwise fun a b => a.1 < b.1

/-! ## Values -/

/-- Without change points the value is the default. -/
@[simp] theorem valueAt_nil (d : V) (t : T) : valueAt d [] t = d := rfl

/-- A change point that has passed gives the value from there on. -/
@[simp] theorem valueAt_cons (d : V) (e : T × V) (l : List (T × V)) (t : T) :
    valueAt d (e :: l) t = valueAt (if e.1 ≤ t then e.2 else d) l t := rfl

/-- The value of a concatenation: the first list supplies the default of the second. -/
theorem valueAt_append (d : V) (l₁ l₂ : List (T × V)) (t : T) :
    valueAt d (l₁ ++ l₂) t = valueAt (valueAt d l₁ t) l₂ t := List.foldl_append

/-- Before every change point the value is the default. -/
theorem valueAt_of_lt {d : V} {l : List (T × V)} {t : T} (h : ∀ e ∈ l, t < e.1) :
    valueAt d l t = d := by
  induction l with
  | nil => rfl
  | cons e l ih =>
    rw [valueAt_cons, if_neg (h e (by simp)).not_ge]
    exact ih fun e' he' => h e' (List.mem_cons_of_mem _ he')

/-- A change point at or before `t` makes the default irrelevant. -/
theorem valueAt_cons_of_le {d : V} {e : T × V} {l : List (T × V)} {t : T} (h : e.1 ≤ t) :
    valueAt d (e :: l) t = valueAt e.2 l t := by
  rw [valueAt_cons, if_pos h]

/-- Later change points do not matter. -/
theorem valueAt_append_of_lt {d : V} {l₁ l₂ : List (T × V)} {t : T} (h : ∀ e ∈ l₂, t < e.1) :
    valueAt d (l₁ ++ l₂) t = valueAt d l₁ t := by
  rw [valueAt_append, valueAt_of_lt h]

/-- The value is the default or the value of the last change point at or before `t`. -/
theorem valueAt_cases (d : V) {l : List (T × V)} (hl : Increasing l) (t : T) :
    ((∀ e ∈ l, t < e.1) ∧ valueAt d l t = d) ∨
      ∃ e ∈ l, e.1 ≤ t ∧ valueAt d l t = e.2 ∧ ∀ e' ∈ l, e'.1 ≤ t → e'.1 ≤ e.1 := by
  induction l generalizing d with
  | nil => exact .inl ⟨by simp, rfl⟩
  | cons a l ih =>
    obtain ⟨ha, hl⟩ := List.pairwise_cons.mp hl
    rw [valueAt_cons]
    rcases ih (if a.1 ≤ t then a.2 else d) hl with ⟨hlt, hv⟩ | ⟨e, he, het, hv, hmax⟩
    · rw [hv]
      by_cases hat : a.1 ≤ t
      · refine .inr ⟨a, by simp, hat, if_pos hat, fun e' he' het' => ?_⟩
        rcases List.mem_cons.mp he' with rfl | he'
        · exact le_rfl
        · exact absurd het' (hlt e' he').not_ge
      · refine .inl ⟨fun e' he' => ?_, if_neg hat⟩
        rcases List.mem_cons.mp he' with rfl | he'
        · exact not_le.mp hat
        · exact hlt e' he'
    · refine .inr ⟨e, by simp [he], het, hv, fun e' he' het' => ?_⟩
      rcases List.mem_cons.mp he' with rfl | he'
      · exact (ha e he).le
      · exact hmax e' he' het'

/-- An increasing list has at most one change point at each timestamp. -/
theorem Increasing.eq_of_key {l : List (T × V)} (hl : Increasing l) {a b : T × V} (ha : a ∈ l)
    (hb : b ∈ l) (h : a.1 = b.1) : a = b :=
  List.inj_on_of_nodup_map (List.pairwise_map.mpr (hl.imp fun h => h.ne)) ha hb h

/-- The value from a change point that is the last one at or before `t`. -/
theorem valueAt_eq_of_mem {d : V} {l : List (T × V)} (hl : Increasing l) {t : T} {e : T × V}
    (he : e ∈ l) (het : e.1 ≤ t) (hmax : ∀ e' ∈ l, e'.1 ≤ t → e'.1 ≤ e.1) :
    valueAt d l t = e.2 := by
  rcases valueAt_cases d hl t with ⟨hlt, -⟩ | ⟨e', he', het', hv, hmax'⟩
  · exact absurd het (hlt e he).not_ge
  · have hkey : e'.1 = e.1 := le_antisymm (hmax e' he' het') (hmax' e he het)
    rw [hv, hl.eq_of_key he' he hkey]

/-- The value at a change point. -/
theorem valueAt_self {d : V} {l : List (T × V)} (hl : Increasing l) {e : T × V} (he : e ∈ l) :
    valueAt d l e.1 = e.2 :=
  valueAt_eq_of_mem hl he le_rfl fun _ _ h => h

/-- The last change point at or before `t`, found by scanning an increasing list. -/
theorem valueAt_eq_getLast {l : List (T × V)} (hl : Increasing l) (d : V) (t : T) :
    valueAt d l t =
      ((l.takeWhile fun e => decide (e.1 ≤ t)).getLast?.map Prod.snd).getD d := by
  induction l using List.reverseRecOn generalizing d with
  | nil => rfl
  | append_singleton l e ih =>
    obtain ⟨hl, -, hle⟩ := List.pairwise_append.mp hl
    rw [valueAt_append, valueAt_cons, valueAt_nil]
    by_cases het : e.1 ≤ t
    · have hall : ∀ a ∈ l, decide (a.1 ≤ t) = true := fun a ha =>
        decide_eq_true ((hle a ha e (by simp)).le.trans het)
      rw [if_pos het, List.takeWhile_append_of_pos hall, List.takeWhile_cons_of_pos (by simpa),
        List.takeWhile_nil, List.getLast?_concat]
      rfl
    · rw [if_neg het, ih hl, List.takeWhile_append]
      split
      · rw [List.takeWhile_cons_of_neg (by simpa using het), List.append_nil]
        rename_i hlen
        rw [(List.takeWhile_prefix _).eq_of_length hlen]
      · rfl

/-- Between two timestamps with no change point in between the value stays the same. -/
theorem valueAt_congr_of_no_change {d : V} {l : List (T × V)} {s t : T} (hst : s ≤ t)
    (h : ∀ e ∈ l, e.1 ≤ s ∨ t < e.1) : valueAt d l t = valueAt d l s := by
  induction l generalizing d with
  | nil => rfl
  | cons e l ih =>
    have hcond : e.1 ≤ t ↔ e.1 ≤ s := by
      constructor
      · intro het
        exact (h e (by simp)).resolve_right het.not_gt
      · exact fun hes => hes.trans hst
    simp only [valueAt_cons, hcond]
    exact ih fun e' he' => h e' (List.mem_cons_of_mem _ he')

/-- A property of the default and of every change point's value holds of every value. -/
theorem valueAt_induction {P : V → Prop} {d : V} {l : List (T × V)} (hd : P d)
    (hl : ∀ e ∈ l, P e.2) (t : T) : P (valueAt d l t) := by
  induction l generalizing d with
  | nil => exact hd
  | cons e l ih =>
    rw [valueAt_cons]
    refine ih ?_ fun e' he' => hl e' (List.mem_cons_of_mem _ he')
    split
    · exact hl e (by simp)
    · exact hd

/-- The values taken on a half-open range: the value at its start, and those of the change points
inside. -/
theorem values_on_range {d : V} {l : List (T × V)} (hl : Increasing l) {s e : T} (hse : s < e) :
    {x | ∃ t, s ≤ t ∧ t < e ∧ valueAt d l t = x} =
      {x | x = valueAt d l s ∨ ∃ c ∈ l, s < c.1 ∧ c.1 < e ∧ c.2 = x} := by
  ext x
  constructor
  · rintro ⟨t, hst, hte, rfl⟩
    rcases valueAt_cases d hl t with ⟨hlt, hv⟩ | ⟨c, hc, hct, hv, hmax⟩
    · left
      rw [hv, valueAt_of_lt fun a ha => hst.trans_lt (hlt a ha)]
    · rcases lt_or_ge s c.1 with hsc | hcs
      · exact .inr ⟨c, hc, hsc, hct.trans_lt hte, hv.symm⟩
      · left
        rw [hv, valueAt_eq_of_mem hl hc hcs fun a ha has => hmax a ha (has.trans hst)]
  · rintro (rfl | ⟨c, hc, hsc, hce, rfl⟩)
    · exact ⟨s, le_rfl, hse, rfl⟩
    · exact ⟨c.1, hsc.le, hce, valueAt_self hl hc⟩

/-! ## Same function -/

/-- Two lists of change points stand for the same function, whatever the default. -/
def Same (l₁ l₂ : List (T × V)) : Prop := ∀ d t, valueAt d l₁ t = valueAt d l₂ t

/-- Change points stand for the function they stand for. -/
theorem Same.refl (l : List (T × V)) : Same l l := fun _ _ => rfl

/-- Standing for the same function is symmetric. -/
theorem Same.symm {l₁ l₂ : List (T × V)} (h : Same l₁ l₂) : Same l₂ l₁ := fun d t => (h d t).symm

/-- Standing for the same function is transitive. -/
theorem Same.trans {l₁ l₂ l₃ : List (T × V)} (h : Same l₁ l₂) (h' : Same l₂ l₃) : Same l₁ l₃ :=
  fun d t => (h d t).trans (h' d t)

/-- Replacing parts of a concatenation by parts that stand for the same function. -/
theorem Same.append {l₁ l₂ r₁ r₂ : List (T × V)} (hl : Same l₁ l₂) (hr : Same r₁ r₂) :
    Same (l₁ ++ r₁) (l₂ ++ r₂) := by
  intro d t
  rw [valueAt_append, valueAt_append, hl d t, hr]

/-- A point that repeats the value of the point before it can be dropped. -/
theorem same_cons_cons {a b : T × V} {l : List (T × V)} (hab : a.1 ≤ b.1) (hv : a.2 = b.2) :
    Same (a :: b :: l) (a :: l) := by
  intro d t
  simp only [valueAt_cons]
  congr 1
  by_cases hb : b.1 ≤ t
  · rw [if_pos hb, if_pos (hab.trans hb), hv]
  · rw [if_neg hb]

/-! ## Cutting at a new point -/

/-- A new point that repeats the value there changes nothing. -/
theorem valueAt_insert {d : V} {l r : List (T × V)} {k : T} (hl : ∀ e ∈ l, e.1 ≤ k)
    (hr : ∀ e ∈ r, k < e.1) (t : T) :
    valueAt d (l ++ (k, valueAt d (l ++ r) k) :: r) t = valueAt d (l ++ r) t := by
  rw [valueAt_append_of_lt hr, valueAt_append, valueAt_append, valueAt_cons]
  by_cases hk : k ≤ t
  · rw [if_pos hk, valueAt_congr_of_no_change hk fun e he => .inl (hl e he)]
  · rw [if_neg hk]

/-- Inserting a point between smaller and larger ones keeps the order. -/
theorem Increasing.insert {l r : List (T × V)} {e : T × V} (h : Increasing (l ++ r))
    (hl : ∀ a ∈ l, a.1 < e.1) (hr : ∀ b ∈ r, e.1 < b.1) : Increasing (l ++ e :: r) := by
  obtain ⟨hil, hir, hlr⟩ := List.pairwise_append.mp h
  refine List.pairwise_append.mpr ⟨hil, List.pairwise_cons.mpr ⟨hr, hir⟩, fun a ha b hb => ?_⟩
  rcases List.mem_cons.mp hb with rfl | hb
  · exact hl a ha
  · exact hlr a ha b hb

/-! ## Adding a constant over a range -/

section Shift

variable [Add V]

/-- Add `δ` to every change point's value. -/
def shift (δ : V) (l : List (T × V)) : List (T × V) := l.map fun e => (e.1, e.2 + δ)

omit [LinearOrder T] in
/-- Nothing is shifted to nothing. -/
@[simp] theorem shift_nil (δ : V) : shift δ ([] : List (T × V)) = [] := rfl

omit [LinearOrder T] in
/-- The first change point is shifted like the others. -/
@[simp] theorem shift_cons (δ : V) (e : T × V) (l : List (T × V)) :
    shift δ (e :: l) = (e.1, e.2 + δ) :: shift δ l := rfl

omit [LinearOrder T] in
/-- A shift goes through both parts. -/
@[simp] theorem shift_append (δ : V) (l r : List (T × V)) :
    shift δ (l ++ r) = shift δ l ++ shift δ r := List.map_append

omit [LinearOrder T] in
/-- A shift leaves the times as they are. -/
theorem map_fst_shift (δ : V) (l : List (T × V)) :
    (shift δ l).map Prod.fst = l.map Prod.fst := by
  simp [shift]

/-- Shifting the change points and the default shifts the value. -/
theorem valueAt_shift (d δ : V) (l : List (T × V)) (t : T) :
    valueAt (d + δ) (shift δ l) t = valueAt d l t + δ := by
  induction l generalizing d with
  | nil => rfl
  | cons e l ih =>
    rw [shift_cons, valueAt_cons, valueAt_cons, ← ih]
    split <;> rfl

end Shift

/-- Two lists with the same timestamps are increasing together. -/
theorem Increasing.of_keys {l r : List (T × V)} (h : l.map Prod.fst = r.map Prod.fst)
    (hr : Increasing r) : Increasing l := by
  have : (l.map Prod.fst).Pairwise (· < ·) := h ▸ List.pairwise_map.mpr hr
  exact List.pairwise_map.mp this

/-- The change points between two given ones lie between them. -/
theorem Increasing.between {l m r : List (T × V)} {a b c : T × V}
    (h : Increasing (l ++ (a :: m) ++ b :: r)) (hc : c ∈ a :: m) : a.1 ≤ c.1 ∧ c.1 < b.1 := by
  obtain ⟨hlm, -, hlt⟩ := List.pairwise_append.mp h
  refine ⟨?_, hlt c (List.mem_append_right _ hc) b (by simp)⟩
  rcases List.mem_cons.mp hc with rfl | hc
  · exact le_rfl
  · exact ((List.pairwise_cons.mp (List.pairwise_append.mp hlm).2.1).1 c hc).le

/-- Adding `δ` to the change points from `s` to the one before `e` adds `δ` on `[s, e)` and
nothing elsewhere. -/
theorem valueAt_shift_range [AddZeroClass V] {l m r : List (T × V)} {s e : T} {x y : V} {d δ : V}
    (h : Increasing (l ++ ((s, x) :: m) ++ (e, y) :: r)) (t : T) :
    valueAt d (l ++ shift δ ((s, x) :: m) ++ (e, y) :: r) t =
      valueAt d (l ++ ((s, x) :: m) ++ (e, y) :: r) t + if s ≤ t ∧ t < e then δ else 0 := by
  obtain ⟨hlm, her, hlme⟩ := List.pairwise_append.mp h
  obtain ⟨-, hsm, -⟩ := List.pairwise_append.mp hlm
  have hse : s < e := hlme (s, x) (by simp) (e, y) (by simp)
  have hsm' : ∀ a ∈ m, s < a.1 := (List.pairwise_cons.mp hsm).1
  rcases lt_or_ge t s with hts | hst
  · -- before `s` only `l` matters
    rw [if_neg fun h => h.1.not_gt hts, add_zero]
    have hback : ∀ b ∈ (e, y) :: r, t < b.1 := fun b hb =>
      hts.trans (hlme (s, x) (by simp) b hb)
    have hmid : ∀ b ∈ ((s, x) :: m), t < b.1 := by
      intro b hb
      rcases List.mem_cons.mp hb with rfl | hb
      · exact hts
      · exact hts.trans (hsm' b hb)
    have hmid' : ∀ b ∈ shift δ ((s, x) :: m), t < b.1 := by
      intro b hb
      obtain ⟨a, ha, rfl⟩ := List.mem_map.mp hb
      exact hmid a ha
    rw [valueAt_append_of_lt hback, valueAt_append_of_lt hback, valueAt_append_of_lt hmid,
      valueAt_append_of_lt hmid']
  · rcases lt_or_ge t e with hte | het
    · -- on `[s, e)` the value comes from the shifted part
      have hback : ∀ b ∈ (e, y) :: r, t < b.1 := by
        intro b hb
        rcases List.mem_cons.mp hb with rfl | hb
        · exact hte
        · exact hte.trans ((List.pairwise_cons.mp her).1 b hb)
      rw [if_pos ⟨hst, hte⟩, valueAt_append_of_lt hback, valueAt_append_of_lt hback,
        valueAt_append, valueAt_append, shift_cons, valueAt_cons_of_le hst,
        valueAt_cons_of_le hst, valueAt_shift]
    · -- from `e` on the value comes from the last part
      rw [if_neg fun h => h.2.not_ge het, add_zero, valueAt_append, valueAt_cons_of_le het,
        valueAt_append, valueAt_cons_of_le het]

/-! ## Canonical change points -/

section Canonical

variable [DecidableEq V]

/-- Keep the points at which the value differs from the value before, which is `v` at first. -/
def dedup (v : V) : List (T × V) → List (T × V)
  | [] => []
  | e :: l => if e.2 = v then dedup v l else e :: dedup e.2 l

/-- The value changes at every point, starting from `v`. -/
def Canonical (v : V) : List (T × V) → Prop
  | [] => True
  | e :: l => e.2 ≠ v ∧ Canonical e.2 l

omit [LinearOrder T] in
/-- Removing repetitions keeps some of the change points. -/
theorem dedup_sublist (v : V) (l : List (T × V)) : (dedup v l).Sublist l := by
  induction l generalizing v with
  | nil => exact .slnil
  | cons e l ih =>
    rw [dedup]
    split
    · exact (ih v).cons e
    · exact (ih e.2).cons_cons e

/-- Removing repetitions keeps the order. -/
theorem Increasing.dedup {l : List (T × V)} (hl : Increasing l) (v : V) :
    Increasing (dedup v l) := hl.sublist (dedup_sublist v l)

omit [LinearOrder T] in
/-- Without repetitions every change point changes something. -/
theorem dedup_canonical (v : V) (l : List (T × V)) : Canonical v (dedup v l) := by
  induction l generalizing v with
  | nil => exact trivial
  | cons e l ih =>
    rw [dedup]
    split
    · exact ih v
    · rename_i h
      exact ⟨h, ih e.2⟩

/-- Dropping repeated values does not change the function. -/
theorem valueAt_dedup {l : List (T × V)} (hl : Increasing l) (v : V) (t : T) :
    valueAt v (dedup v l) t = valueAt v l t := by
  induction l generalizing v with
  | nil => rfl
  | cons e l ih =>
    obtain ⟨he, hl⟩ := List.pairwise_cons.mp hl
    rw [dedup]
    split
    · rename_i hev
      rw [ih hl, valueAt_cons, hev, ite_self]
    · rw [valueAt_cons, valueAt_cons]
      by_cases het : e.1 ≤ t
      · rw [if_pos het, ih hl]
      · have hlt : ∀ b ∈ l, t < b.1 := fun b hb => (not_le.mp het).trans (he b hb)
        rw [if_neg het, valueAt_of_lt hlt,
          valueAt_of_lt fun b hb => hlt b ((dedup_sublist _ _).subset hb)]

omit [DecidableEq V] in
/-- Canonical change points are determined by the function they stand for. -/
theorem Canonical.unique {v : V} {l r : List (T × V)} (hl : Increasing l) (hr : Increasing r)
    (hcl : Canonical v l) (hcr : Canonical v r) (h : ∀ t, valueAt v l t = valueAt v r t) :
    l = r := by
  induction l generalizing v r with
  | nil =>
    cases r with
    | nil => rfl
    | cons b r =>
      have := h b.1
      rw [valueAt_self hr (by simp)] at this
      exact absurd this.symm hcr.1
  | cons a l ih =>
    obtain ⟨ha, hil⟩ := List.pairwise_cons.mp hl
    cases r with
    | nil =>
      have := h a.1
      rw [valueAt_self hl (by simp)] at this
      exact absurd this hcl.1
    | cons b r =>
      obtain ⟨hb, hir⟩ := List.pairwise_cons.mp hr
      -- the earlier of the two first points would be a change in one function only
      have hkey : a.1 = b.1 := by
        rcases lt_trichotomy a.1 b.1 with hab | hab | hab
        · have hv := h a.1
          rw [valueAt_self hl (by simp), valueAt_of_lt] at hv
          · exact absurd hv hcl.1
          · rintro e (_ | ⟨_, he⟩)
            · exact hab
            · exact hab.trans (hb e he)
        · exact hab
        · have hv := h b.1
          rw [valueAt_self hr (by simp), valueAt_of_lt] at hv
          · exact absurd hv.symm hcr.1
          · rintro e (_ | ⟨_, he⟩)
            · exact hab
            · exact hab.trans (ha e he)
      have hval : a.2 = b.2 := by
        have hv := h a.1
        rw [valueAt_self hl (by simp), hkey, valueAt_self hr (by simp)] at hv
        exact hv
      obtain rfl : a = b := Prod.ext hkey hval
      congr 1
      refine ih hil hir hcl.2 hcr.2 fun t => ?_
      by_cases hat : a.1 ≤ t
      · simpa only [valueAt_cons_of_le hat] using h t
      · rw [valueAt_of_lt fun e he => (not_le.mp hat).trans (ha e he),
          valueAt_of_lt fun e he => (not_le.mp hat).trans (hb e he)]

/-- Two lists that stand for the same function have the same canonical form. -/
theorem dedup_eq_dedup {v : V} {l r : List (T × V)} (hl : Increasing l) (hr : Increasing r)
    (h : ∀ t, valueAt v l t = valueAt v r t) : dedup v l = dedup v r :=
  Canonical.unique (hl.dedup v) (hr.dedup v) (dedup_canonical v l) (dedup_canonical v r)
    fun t => by rw [valueAt_dedup hl, valueAt_dedup hr, h t]

/-! ## Merging neighbours -/

omit [LinearOrder T] [DecidableEq V] in
/-- Canonical change points begin with another value than the default, and no two neighbours have
the same. -/
theorem canonical_iff_isChain {v : V} {l : List (T × V)} :
    Canonical v l ↔ (∀ e ∈ l.head?, e.2 ≠ v) ∧ l.IsChain fun a b => a.2 ≠ b.2 := by
  induction l generalizing v with
  | nil => simp [Canonical]
  | cons e l ih =>
    rw [Canonical, ih, List.isChain_cons]
    simp only [List.head?_cons, Option.mem_some_iff, forall_eq', ne_comm]

omit [LinearOrder T] in
/-- Nothing is removed where every change point changes something. -/
theorem dedup_of_canonical {v : V} {l : List (T × V)} (h : Canonical v l) : dedup v l = l := by
  induction l generalizing v with
  | nil => rfl
  | cons e l ih => rw [dedup, if_neg h.1, ih h.2]

omit [LinearOrder T] in
/-- The second part is freed of repetitions of the last value of the first one. -/
theorem dedup_append (v : V) (l r : List (T × V)) :
    dedup v (l ++ r) = dedup v l ++ dedup (((dedup v l).getLast?.map Prod.snd).getD v) r := by
  induction l generalizing v with
  | nil => rfl
  | cons e l ih =>
    rw [List.cons_append, dedup, dedup]
    split
    · exact ih v
    · rw [ih, List.cons_append, List.getLast?_cons]
      cases (dedup e.2 l).getLast? <;> rfl

/-- Drops the points that repeat the value of the last point kept. -/
def collapse : List (T × V) → List (T × V)
  | [] => []
  | e :: l => e :: dedup e.2 l

omit [LinearOrder T] in
/-- Collapsing keeps some of the change points. -/
theorem collapse_sublist (l : List (T × V)) : (collapse l).Sublist l := by
  cases l with
  | nil => exact .slnil
  | cons e l => exact (dedup_sublist _ _).cons_cons e

omit [LinearOrder T] in
/-- Collapsing keeps the first change point. -/
@[simp] theorem head?_collapse (l : List (T × V)) : (collapse l).head? = l.head? := by
  cases l <;> rfl

omit [LinearOrder T] in
/-- No two neighbours have the same value afterwards. -/
theorem collapse_isChain (l : List (T × V)) : (collapse l).IsChain fun a b => a.2 ≠ b.2 := by
  cases l with
  | nil => exact .nil
  | cons e l =>
    obtain ⟨hhead, hchain⟩ := canonical_iff_isChain.mp (dedup_canonical e.2 l)
    exact hchain.cons fun b hb => (hhead b hb).symm

omit [LinearOrder T] in
/-- Nothing is dropped when no two neighbours have the same value. -/
theorem collapse_of_isChain {l : List (T × V)} (h : l.IsChain fun a b => a.2 ≠ b.2) :
    collapse l = l := by
  cases l with
  | nil => rfl
  | cons e l =>
    obtain ⟨hhead, hchain⟩ := List.isChain_cons.mp h
    rw [collapse, dedup_of_canonical (canonical_iff_isChain.mpr
      ⟨fun b hb => (hhead b hb).symm, hchain⟩)]

omit [LinearOrder T] in
/-- Only the points behind a part without repeats are dropped. -/
theorem collapse_append {l r : List (T × V)} (h : l.IsChain fun a b => a.2 ≠ b.2) (hne : l ≠ []) :
    ∃ v, collapse (l ++ r) = l ++ dedup v r := by
  cases l with
  | nil => exact absurd rfl hne
  | cons e l =>
    have hl : dedup e.2 l = l := List.cons_injective (collapse_of_isChain h)
    exact ⟨_, by rw [List.cons_append, collapse, dedup_append, hl, List.cons_append]⟩

/-- Merging neighbours of equal value does not change the function. -/
theorem same_collapse {l : List (T × V)} (h : Increasing l) : Same (collapse l) l := by
  cases l with
  | nil => exact .refl _
  | cons e l =>
    intro d t
    obtain ⟨he, hl⟩ := List.pairwise_cons.mp h
    rw [collapse]
    rcases le_or_gt e.1 t with ht | ht
    · rw [valueAt_cons_of_le ht, valueAt_cons_of_le ht]
      exact valueAt_dedup hl _ t
    · have hlt : ∀ a ∈ l, t < a.1 := fun a ha => ht.trans (he a ha)
      rw [valueAt_cons, valueAt_cons, if_neg ht.not_ge, valueAt_of_lt hlt,
        valueAt_of_lt fun a ha => hlt a ((dedup_sublist _ _).subset ha)]

/-! ## Marked points -/

/-- The value changes at every point, starting from `v`, except perhaps at the marked ones. -/
def CanonicalOutside (marked : T → Prop) (v : V) : List (T × V) → Prop
  | [] => True
  | e :: l => (e.2 = v → marked e.1) ∧ CanonicalOutside marked e.2 l

omit [LinearOrder T] [DecidableEq V] in
/-- A canonical list is canonical outside of any marked times. -/
theorem Canonical.outside {v : V} {l : List (T × V)} (h : Canonical v l) (marked : T → Prop) :
    CanonicalOutside marked v l := by
  induction l generalizing v with
  | nil => exact trivial
  | cons e l ih => exact ⟨fun he => absurd he h.1, ih h.2⟩

omit [LinearOrder T] [DecidableEq V] in
/-- More points may be marked. -/
theorem CanonicalOutside.mono {marked marked' : T → Prop} {v : V} {l : List (T × V)}
    (h : CanonicalOutside marked v l) (hm : ∀ t, marked t → marked' t) :
    CanonicalOutside marked' v l := by
  induction l generalizing v with
  | nil => exact trivial
  | cons e l ih => exact ⟨fun he => hm _ (h.1 he), ih h.2⟩

omit [LinearOrder T] [DecidableEq V] in
/-- Neighbours of the same value are marked, also inside a longer list. -/
theorem CanonicalOutside.isChain {marked : T → Prop} {v : V} {l m r : List (T × V)}
    (h : CanonicalOutside marked v (l ++ m ++ r)) :
    m.IsChain fun a b => b.2 = a.2 → marked b.1 := by
  induction l generalizing v with
  | cons e l ih => exact ih h.2
  | nil =>
    induction m generalizing v with
    | nil => exact .nil
    | cons e m ih =>
      refine List.isChain_cons.mpr ⟨fun b hb => ?_, ih h.2⟩
      obtain ⟨m', rfl⟩ : ∃ m', m = b :: m' := by
        cases m with
        | nil => cases hb
        | cons c m' => exact ⟨m', by rw [Option.mem_some_iff.mp hb]⟩
      exact h.2.1

omit [DecidableEq V] in
/-- A marked point that repeats the value there may be inserted. -/
theorem CanonicalOutside.insert {marked : T → Prop} {v : V} {l r : List (T × V)} {t : T}
    (h : CanonicalOutside marked v (l ++ r)) (hl : ∀ e ∈ l, e.1 ≤ t) (ht : marked t) :
    CanonicalOutside marked v (l ++ (t, valueAt v l t) :: r) := by
  induction l generalizing v with
  | nil => exact ⟨fun _ => ht, h⟩
  | cons e l ih =>
    obtain ⟨he, hl⟩ := List.forall_mem_cons.mp hl
    rw [valueAt_cons_of_le he]
    exact ⟨h.1, ih h.2 hl⟩

/-! ## Changes of the value -/

/-- The function has another value just before `t`, or `t` is the first point and the value there
is not the default. -/
def ChangesAt (d : V) (f : T → V) (t : T) : Prop :=
  (∃ u, u ⋖ t ∧ f u ≠ f t) ∨ (IsMin t ∧ f t ≠ d)

omit [DecidableEq V] in
/-- Canonical change points are those at which the value differs from the value just before. -/
theorem Canonical.mem_iff_of_covBy {d : V} {l : List (T × V)} (hl : Increasing l)
    (hc : Canonical d l) {u t : T} (hut : u ⋖ t) :
    (∃ e ∈ l, e.1 = t) ↔ valueAt d l u ≠ valueAt d l t := by
  induction l generalizing d with
  | nil => simp
  | cons a l ih =>
    obtain ⟨ha, hl⟩ := List.pairwise_cons.mp hl
    rcases lt_trichotomy a.1 t with hat | rfl | hta
    · have hau : a.1 ≤ u := not_lt.mp fun hua => hut.2 hua hat
      rw [valueAt_cons_of_le hat.le, valueAt_cons_of_le hau, ← ih hl hc.2]
      constructor
      · rintro ⟨e, he, rfl⟩
        rcases List.mem_cons.mp he with rfl | he
        · exact absurd hat (lt_irrefl _)
        · exact ⟨e, he, rfl⟩
      · rintro ⟨e, he, rfl⟩
        exact ⟨e, List.mem_cons_of_mem _ he, rfl⟩
    · have hafter : ∀ e ∈ a :: l, u < e.1 := by
        intro e he
        rcases List.mem_cons.mp he with rfl | he
        · exact hut.lt
        · exact hut.lt.trans (ha e he)
      rw [valueAt_of_lt hafter, valueAt_cons_of_le le_rfl, valueAt_of_lt ha]
      exact ⟨fun _ => hc.1.symm, fun _ => ⟨a, by simp, rfl⟩⟩
    · have hafter : ∀ e ∈ a :: l, t < e.1 := by
        intro e he
        rcases List.mem_cons.mp he with rfl | he
        · exact hta
        · exact hta.trans (ha e he)
      rw [valueAt_of_lt hafter, valueAt_of_lt fun e he => hut.lt.trans (hafter e he)]
      constructor
      · rintro ⟨e, he, rfl⟩
        exact absurd (hafter e he) (lt_irrefl _)
      · exact fun h => absurd rfl h

omit [DecidableEq V] in
/-- The first point is a canonical change point when the value there is not the default. -/
theorem Canonical.mem_iff_of_isMin {d : V} {l : List (T × V)} (hl : Increasing l)
    (hc : Canonical d l) {t : T} (ht : IsMin t) : (∃ e ∈ l, e.1 = t) ↔ valueAt d l t ≠ d := by
  cases l with
  | nil => simp
  | cons a l =>
    obtain ⟨ha, -⟩ := List.pairwise_cons.mp hl
    have hta : t ≤ a.1 := ht.isBot a.1
    rcases hta.eq_or_lt with rfl | hta
    · rw [valueAt_cons_of_le le_rfl, valueAt_of_lt ha]
      exact ⟨fun _ => hc.1, fun _ => ⟨a, by simp, rfl⟩⟩
    · have hafter : ∀ e ∈ a :: l, t < e.1 := by
        intro e he
        rcases List.mem_cons.mp he with rfl | he
        · exact hta
        · exact hta.trans (ha e he)
      rw [valueAt_of_lt hafter]
      constructor
      · rintro ⟨e, he, rfl⟩
        exact absurd (hafter e he) (lt_irrefl _)
      · exact fun h => absurd rfl h

/-- Where every point is the first one or has one just before, the points that are left when
repeats are dropped are those at which the value changes. -/
theorem mem_dedup_iff {d : V} {l : List (T × V)} (hl : Increasing l) {t : T}
    (hbefore : IsMin t ∨ ∃ u, u ⋖ t) :
    (∃ e ∈ dedup d l, e.1 = t) ↔ ChangesAt d (valueAt d l) t := by
  have hvalue := valueAt_dedup hl d
  rcases hbefore with hmin | ⟨u, hut⟩
  · rw [(dedup_canonical d l).mem_iff_of_isMin (hl.dedup d) hmin, hvalue]
    constructor
    · exact fun h => .inr ⟨hmin, h⟩
    · rintro (⟨u, hut, -⟩ | ⟨-, h⟩)
      · exact absurd hut.lt hmin.not_lt
      · exact h
  · rw [(dedup_canonical d l).mem_iff_of_covBy (hl.dedup d) hut, hvalue, hvalue]
    constructor
    · exact fun h => .inl ⟨u, hut, h⟩
    · rintro (⟨u', hut', h⟩ | ⟨hmin, -⟩)
      · rwa [hut.unique_left hut']
      · exact absurd hut.lt hmin.not_lt

end Canonical

end StepFunction
