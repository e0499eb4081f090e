import Mathlib.Data.List.Forall2
import Mathlib.Tactic

/-!
# Running fallible computations

Rules for computations that may fail (`Except`) and for computations on a state that keep the
state they have reached when they fail (`EStateM`): how a sequence of two computations runs when
the first one succeeds or fails, what a successful sequence says about its parts, and the
pointwise meaning of a list traversal.
-/

universe u

/-! ## Failure without state -/

namespace Except

variable {ε : Type*} {α β : Type u}

/-- A successful sequence comes from a successful first part. -/
theorem bind_eq_ok {x : Except ε α} {f : α → Except ε β} {b : β} :
    (x >>= f) = .ok b ↔ ∃ a, x = .ok a ∧ f a = .ok b := by
  cases x with
  | error e => simp [bind, Except.bind]
  | ok a => simp [bind, Except.bind]

/-- A success goes on with its value. -/
@[simp] theorem ok_bind (a : α) (f : α → Except ε β) : (Except.ok a >>= f) = f a := rfl

/-- An error ends a sequence. -/
@[simp] theorem error_bind (e : ε) (f : α → Except ε β) :
    ((Except.error e : Except ε α) >>= f) = .error e := rfl

/-- A value that is given is a success. -/
theorem pure_eq_ok (a : α) : (pure a : Except ε α) = .ok a := rfl

/-- An absent value turned into an error. -/
theorem elim_eq_ok {o : Option α} {e : ε} {a : α} :
    o.elim (Except.error e) Except.ok = .ok a ↔ o = some a := by
  cases o <;> simp

/-- Another name for the error does not matter for the value. -/
theorem mapError_eq_ok {ε' : Type*} {f : ε → ε'} {x : Except ε α} {a : α} :
    x.mapError f = .ok a ↔ x = .ok a := by
  cases x <;> simp [Except.mapError]

/-- A renamed error is the new name of an error. -/
theorem mapError_eq_error {ε' : Type*} {f : ε → ε'} {x : Except ε α} {e : ε'} :
    x.mapError f = .error e ↔ ∃ e', x = .error e' ∧ f e' = e := by
  cases x with
  | error e' =>
    constructor
    · intro h
      exact ⟨e', rfl, Except.error.inj h⟩
    · rintro ⟨e'', h, rfl⟩
      cases h
      rfl
  | ok a =>
    constructor
    · intro h
      cases h
    · rintro ⟨e', h, -⟩
      cases h

/-- The value of a success. -/
theorem toOption_eq_some {x : Except ε α} {a : α} : x.toOption = some a ↔ x = .ok a := by
  cases x <;> simp [Except.toOption]

/-- Goes on if a condition holds. -/
def ensure (condition : Prop) [Decidable condition] (e : ε) : Except ε PUnit :=
  if condition then .ok ⟨⟩ else .error e

/-- A check succeeds exactly if its condition holds. -/
@[simp] theorem ensure_eq_ok {condition : Prop} [Decidable condition] {e : ε} {u : PUnit} :
    ensure condition e = .ok u ↔ condition := by
  unfold ensure
  split <;> simp_all

end Except

namespace List

variable {ε : Type*} {α β : Type u}

/-- Checks of every element succeed together. -/
theorem forM_eq_ok {f : α → Except ε PUnit} {l : List α} {u : PUnit} :
    l.forM f = .ok u ↔ ∀ a ∈ l, f a = .ok ⟨⟩ := by
  induction l with
  | nil => exact ⟨fun _ a ha => (by cases ha), fun _ => rfl⟩
  | cons a l ih =>
    rw [List.forM_eq_forM, List.forM_cons, Except.bind_eq_ok, List.forall_mem_cons, ← ih]
    exact ⟨fun ⟨_, ha, hl⟩ => ⟨ha, hl⟩, fun ⟨ha, hl⟩ => ⟨⟨⟩, ha, hl⟩⟩

/-- A traversal succeeds exactly when every element does, with the list of the results. -/
theorem mapM_eq_ok_iff {f : α → Except ε β} {l : List α} {r : List β} :
    l.mapM f = .ok r ↔ List.Forall₂ (fun a b => f a = .ok b) l r := by
  induction l generalizing r with
  | nil =>
    rw [List.mapM_nil, Except.pure_eq_ok]
    constructor
    · rintro ⟨⟩
      exact .nil
    · rintro ⟨⟩
      rfl
  | cons a l ih =>
    simp only [List.mapM_cons, Except.bind_eq_ok, Except.pure_eq_ok, Except.ok.injEq,
      List.forall₂_cons_left_iff]
    constructor
    · rintro ⟨b, hb, bs, hbs, rfl⟩
      exact ⟨b, bs, hb, ih.mp hbs, rfl⟩
    · rintro ⟨b, bs, hb, hbs, rfl⟩
      exact ⟨b, hb, bs, ih.mpr hbs, rfl⟩

/-- A traversal whose steps all succeed, with results described by a relation. -/
theorem mapM_exists {f : α → Except ε β} {P : α → β → Prop} {l : List α}
    (h : ∀ a ∈ l, ∃ b, f a = .ok b ∧ P a b) :
    ∃ r, l.mapM f = .ok r ∧ List.Forall₂ P l r := by
  induction l with
  | nil => exact ⟨[], rfl, .nil⟩
  | cons a l ih =>
    obtain ⟨b, hb, hP⟩ := h a (by simp)
    obtain ⟨bs, hbs, hPs⟩ := ih fun a ha => h a (List.mem_cons_of_mem _ ha)
    refine ⟨b :: bs, ?_, .cons hP hPs⟩
    rw [List.mapM_cons, hb, Except.ok_bind, hbs]
    rfl

/-- The values of related lists under functions that agree on related elements. -/
theorem Forall₂.map_eq {γ : Type*} {R : α → β → Prop} {f : α → γ} {g : β → γ} {l : List α}
    {r : List β} (h : List.Forall₂ R l r) (hfg : ∀ a b, R a b → f a = g b) :
    l.map f = r.map g := by
  induction h with
  | nil => rfl
  | cons hab _ ih => rw [List.map_cons, List.map_cons, hfg _ _ hab, ih]

/-- What is kept of related lists by functions that agree on related elements. -/
theorem Forall₂.filterMap_eq {γ : Type*} {R : α → β → Prop} {f : α → Option γ} {g : β → Option γ}
    {l : List α} {r : List β} (h : List.Forall₂ R l r) (hfg : ∀ a b, R a b → f a = g b) :
    l.filterMap f = r.filterMap g := by
  induction h with
  | nil => rfl
  | cons hab _ ih => rw [List.filterMap_cons, List.filterMap_cons, hfg _ _ hab, ih]

/-- Every element on the right is related to one on the left. -/
theorem Forall₂.exists_left {R : α → β → Prop} {l : List α} {r : List β} (h : List.Forall₂ R l r)
    {b : β} (hb : b ∈ r) : ∃ a ∈ l, R a b := by
  induction h with
  | nil => cases hb
  | @cons a b' l r hab _ ih =>
    rcases List.mem_cons.mp hb with rfl | hb
    · exact ⟨a, List.mem_cons_self, hab⟩
    · obtain ⟨a', ha', hrel⟩ := ih hb
      exact ⟨a', List.mem_cons_of_mem a ha', hrel⟩

/-- Every element on the left is related to one on the right. -/
theorem Forall₂.exists_right {R : α → β → Prop} {l : List α} {r : List β} (h : List.Forall₂ R l r)
    {a : α} (ha : a ∈ l) : ∃ b ∈ r, R a b := by
  induction h with
  | nil => cases ha
  | @cons a' b l r hab _ ih =>
    rcases List.mem_cons.mp ha with rfl | ha
    · exact ⟨b, List.mem_cons_self, hab⟩
    · obtain ⟨b', hb', hrel⟩ := ih ha
      exact ⟨b', List.mem_cons_of_mem b hb', hrel⟩

/-- A fold of successful steps that keep an invariant. -/
theorem foldlM_invariant {ε : Type*} {α : Type*} {σ : Type u} {f : σ → α → Except ε σ} {I : List α → σ → Prop}
    {l : List α} {s : σ} (h₀ : I [] s)
    (hstep : ∀ done a s, (∃ rest, done ++ a :: rest = l) → I done s →
      ∃ s', f s a = .ok s' ∧ I (done ++ [a]) s') :
    ∃ s', l.foldlM f s = .ok s' ∧ I l s' := by
  suffices H : ∀ rest done s, done ++ rest = l → I done s →
      ∃ s', rest.foldlM f s = .ok s' ∧ I l s' from H l [] s rfl h₀
  intro rest
  induction rest with
  | nil =>
    rintro done s rfl hI
    exact ⟨s, rfl, by simpa using hI⟩
  | cons a rest ih =>
    intro done s hl hI
    obtain ⟨s', hs', hI'⟩ := hstep done a s ⟨rest, hl⟩ hI
    obtain ⟨s'', hs'', hI''⟩ := ih (done ++ [a]) s' (by simpa using hl) hI'
    exact ⟨s'', by rw [List.foldlM_cons, hs', Except.ok_bind, hs''], hI''⟩

/-- A list that is long enough starts with as many elements. -/
theorem exists_append_of_le_length {α : Type*} {l : List α} {n : Nat} (h : n ≤ l.length) :
    ∃ front back, front.length = n ∧ l = front ++ back :=
  ⟨l.take n, l.drop n, List.length_take_of_le h, (List.take_append_drop n l).symm⟩

end List

/-! ## Failure with state -/

namespace EStateM

variable {ε σ α β : Type u}

/-- Going on after a successful first part. -/
theorem bind_of_ok {x : EStateM ε σ α} {f : α → EStateM ε σ β} {s s' : σ} {a : α}
    (h : x s = .ok a s') : (x >>= f) s = f a s' := by
  simp [bind, EStateM.bind, h]

/-- A failure of the first part is the failure of the sequence. -/
theorem bind_of_error {x : EStateM ε σ α} {f : α → EStateM ε σ β} {s s' : σ} {e : ε}
    (h : x s = .error e s') : (x >>= f) s = .error e s' := by
  simp [bind, EStateM.bind, h]

/-- A successful sequence comes from two successful parts. -/
theorem bind_eq_ok {x : EStateM ε σ α} {f : α → EStateM ε σ β} {s s'' : σ} {b : β} :
    (x >>= f) s = .ok b s'' ↔ ∃ a s', x s = .ok a s' ∧ f a s' = .ok b s'' := by
  simp only [bind, EStateM.bind]
  cases h : x s with
  | ok a s' => simp
  | error e s' => simp

/-- A failed sequence fails in its first or in its second part. -/
theorem bind_eq_error {x : EStateM ε σ α} {f : α → EStateM ε σ β} {s s'' : σ} {e : ε} :
    (x >>= f) s = .error e s'' ↔
      x s = .error e s'' ∨ ∃ a s', x s = .ok a s' ∧ f a s' = .error e s'' := by
  simp only [bind, EStateM.bind]
  cases h : x s with
  | ok a s' => simp
  | error e s' => simp

/-- A value that is given leaves the state as it is. -/
@[simp] theorem pure_apply (a : α) (s : σ) : (pure a : EStateM ε σ α) s = .ok a s := rfl

/-- A thrown error leaves the state as it is. -/
@[simp] theorem throw_apply (e : ε) (s : σ) : (throw e : EStateM ε σ α) s = .error e s := rfl

/-- Looking at the state gives the state. -/
@[simp] theorem get_apply (s : σ) : (get : EStateM ε σ σ) s = .ok s s := rfl

/-- Setting the state gives nothing. -/
@[simp] theorem set_apply (s s' : σ) : (set s' : EStateM ε σ PUnit) s = .ok ⟨⟩ s' := rfl

/-- Changing the state gives nothing. -/
@[simp] theorem modify_apply (f : σ → σ) (s : σ) :
    (modify f : EStateM ε σ PUnit) s = .ok ⟨⟩ (f s) := rfl

/-- A success without state leaves the state as it is. -/
@[simp] theorem ofExcept_ok (a : α) (s : σ) :
    (ofExcept (Except.ok a : Except ε α) : EStateM ε σ α) s = .ok a s := rfl

/-- An error without state leaves the state as it is. -/
@[simp] theorem ofExcept_error (e : ε) (s : σ) :
    (ofExcept (Except.error e : Except ε α) : EStateM ε σ α) s = .error e s := rfl

/-- Running `f` on the state that `get` reads. -/
@[simp] theorem get_bind_apply (f : σ → EStateM ε σ β) (s : σ) : (get >>= f) s = f s s := rfl

/-- After setting the state the rest runs on the new one. -/
@[simp] theorem set_bind_apply (s' : σ) (f : PUnit → EStateM ε σ β) (s : σ) :
    (set s' >>= f) s = f ⟨⟩ s' := rfl

/-- After a thrown error nothing runs. -/
@[simp] theorem throw_bind_apply (e : ε) (f : α → EStateM ε σ β) (s : σ) :
    ((throw e : EStateM ε σ α) >>= f) s = .error e s := rfl

/-- A pure part fails with the state unchanged, or the sequence goes on with its value. -/
theorem ofExcept_bind_cases {x : Except ε α} {f : α → EStateM ε σ β} {s : σ}
    {r : EStateM.Result ε σ β} (h : (ofExcept x >>= f) s = r) :
    (∃ e, x = .error e ∧ r = .error e s) ∨ ∃ a, x = .ok a ∧ f a s = r := by
  cases x with
  | error e => exact .inl ⟨e, rfl, h.symm⟩
  | ok a => exact .inr ⟨a, rfl, h⟩

/-- The state that a computation ends in, whether or not it fails. -/
def Result.finalState : EStateM.Result ε σ α → σ
  | .ok _ s => s
  | .error _ s => s

/-- The state that a success ends in. -/
@[simp] theorem Result.finalState_ok (a : α) (s : σ) :
    (EStateM.Result.ok a s : EStateM.Result ε σ α).finalState = s := rfl

/-- The state that an error ends in. -/
@[simp] theorem Result.finalState_error (e : ε) (s : σ) :
    (EStateM.Result.error e s : EStateM.Result ε σ α).finalState = s := rfl

/-- A run with a value has succeeded with it. -/
theorem exists_ok_of_run'_eq_some {x : EStateM ε σ α} {s : σ} {a : α} (h : x.run' s = some a) :
    ∃ s', x s = .ok a s' := by
  unfold run' run at h
  cases hx : x s with
  | ok b s' =>
    rw [hx] at h
    obtain rfl := Option.some.inj h
    exact ⟨s', rfl⟩
  | error e s' =>
    rw [hx] at h
    cases h

/-- A run that has a value has succeeded. -/
theorem exists_ok_of_isSome {x : EStateM ε σ α} {s : σ} (h : (x.run' s).isSome = true) :
    ∃ a s', x s = .ok a s' := by
  obtain ⟨a, ha⟩ := Option.isSome_iff_exists.mp h
  exact ⟨a, exists_ok_of_run'_eq_some ha⟩

/-- A run that has no value has failed. -/
theorem exists_error_of_isNone {x : EStateM ε σ α} {s : σ} (h : (x.run' s).isNone = true) :
    ∃ e s', x s = .error e s' := by
  unfold run' run at h
  cases hx : x s with
  | error e s' => exact ⟨e, s', rfl⟩
  | ok a s' =>
    rw [hx] at h
    cases h

/-- Runs a computation on a part of the state, with other names for its errors. -/
def within {ε' τ : Type u} (part : τ → σ) (update : τ → σ → τ) (f : ε → ε') (x : EStateM ε σ α) :
    EStateM ε' τ α := fun t =>
  match x (part t) with
  | .ok a s => .ok a (update t s)
  | .error e s => .error (f e) (update t s)

end EStateM
