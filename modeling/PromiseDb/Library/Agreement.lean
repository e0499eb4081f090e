import PromiseDb.Library.Failures

/-!
# Two runs side by side

Two fallible computations agree when they fail with the same error or both succeed with related
results.  Two computations on states agree when, from related states, their outcomes agree and
the states they end in are related.  There is one rule for each way of composing computations,
so that two programs of the same shape agree as soon as their parts do.
-/

universe u

/-! ## Without state -/

namespace Except

variable {ε α α' β β' : Type u} {R : α → α' → Prop} {S : β → β' → Prop}

/-- Both computations fail with the same error, or both succeed with related results. -/
inductive Agree (R : α → α' → Prop) : Except ε α → Except ε α' → Prop
  | ok {a : α} {a' : α'} (h : R a a') : Agree R (.ok a) (.ok a')
  | error (e : ε) : Agree R (.error e) (.error e)

namespace Agree

/-- A computation agrees with itself. -/
theorem rfl {x : Except ε α} : Agree Eq x x := by
  cases x with
  | ok a => exact .ok (Eq.refl a)
  | error e => exact .error e

/-- Equal computations agree on equal values. -/
theorem of_eq {x y : Except ε α} (h : x = y) : Agree Eq x y := by
  subst h
  exact .rfl

/-- One computation after another. -/
theorem bind {x : Except ε α} {y : Except ε α'} {f : α → Except ε β} {g : α' → Except ε β'}
    (h : Agree R x y) (hfg : ∀ a a', R a a' → Agree S (f a) (g a')) :
    Agree S (x >>= f) (y >>= g) := by
  cases h with
  | ok h => exact hfg _ _ h
  | error e => exact .error e

/-- A choice agrees if both of its branches do. -/
theorem ite {c : Prop} [Decidable c] {x x' : Except ε α} {y y' : Except ε α'} (h : Agree R x y)
    (h' : Agree R x' y') : Agree R (if c then x else x') (if c then y else y') := by
  split
  · exact h
  · exact h'

/-- A traversal with an accumulator. -/
theorem foldlM {γ : Type u} {f : α → γ → Except ε α} {g : α' → γ → Except ε α'} {l : List γ}
    (h : ∀ a a', R a a' → ∀ c ∈ l, Agree R (f a c) (g a' c)) {a : α} {a' : α'} (ha : R a a') :
    Agree R (l.foldlM f a) (l.foldlM g a') := by
  induction l generalizing a a' with
  | nil => exact .ok ha
  | cons c l ih =>
    rw [List.foldlM_cons, List.foldlM_cons]
    apply (h a a' ha c List.mem_cons_self).bind
    intro b b' hb
    exact ih (fun a a' ha c hc => h a a' ha c (List.mem_cons_of_mem _ hc)) hb

/-- Traversals of related lists with accumulators. -/
theorem foldlM₂ {γ δ : Type u} {Q : γ → δ → Prop} {f : α → γ → Except ε α}
    {g : α' → δ → Except ε α'} {l : List γ} {r : List δ} (hlr : List.Forall₂ Q l r)
    (h : ∀ a a', R a a' → ∀ c d, Q c d → Agree R (f a c) (g a' d)) {a : α} {a' : α'} (ha : R a a') :
    Agree R (l.foldlM f a) (r.foldlM g a') := by
  induction hlr generalizing a a' with
  | nil => exact .ok ha
  | cons hcd _ ih =>
    rw [List.foldlM_cons, List.foldlM_cons]
    apply (h a a' ha _ _ hcd).bind
    intro b b' hb
    exact ih hb

/-- A value that is there on both sides or on none. -/
theorem elim {o : Option α} {o' : Option α'} {e : ε} (h : Option.Rel R o o') :
    Agree R (o.elim (.error e) .ok) (o'.elim (.error e) .ok) := by
  cases h with
  | some h => exact .ok h
  | none => exact .error e

/-- One agreement after another. -/
theorem trans {α'' : Type u} {R' : α' → α'' → Prop} {T : α → α'' → Prop} {x : Except ε α}
    {y : Except ε α'} {z : Except ε α''} (h : Agree R x y) (h' : Agree R' y z)
    (hT : ∀ a b c, R a b → R' b c → T a c) : Agree T x z := by
  cases h with
  | ok h =>
    cases h' with
    | ok h' => exact .ok (hT _ _ _ h h')
  | error e =>
    cases h' with
    | error e => exact .error e

/-- A traversal with one possible error does not depend on the order of the list. -/
theorem mapM_perm {f : α → Except ε β} {e : ε} (hf : ∀ a, (f a).FailsIn (· = e)) {l r : List α}
    (h : l.Perm r) : Agree List.Perm (l.mapM f) (r.mapM f) := by
  induction h with
  | nil => exact .ok .nil
  | cons a _ ih =>
    rw [List.mapM_cons, List.mapM_cons]
    refine rfl.bind fun b _ hb => hb ▸ ?_
    exact ih.bind fun bs bs' hbs => .ok (hbs.cons b)
  | swap a b l =>
    rw [List.mapM_cons, List.mapM_cons, List.mapM_cons, List.mapM_cons]
    cases ha : f a with
    | error e₁ =>
      cases hb : f b with
      | error e₂ =>
        rw [hf a e₁ ha, hf b e₂ hb]
        exact .error e
      | ok b' => exact .error e₁
    | ok a' =>
      cases hb : f b with
      | error e₂ => exact .error e₂
      | ok b' =>
        cases l.mapM f with
        | error e₃ => exact .error e₃
        | ok rest => exact .ok (.swap a' b' rest)
  | trans _ _ ih ih' => exact ih.trans ih' fun _ _ _ h h' => h.trans h'

end Agree

end Except

/-! ## With state -/

namespace EStateM

variable {ε σ τ α α' β β' : Type u} {I : σ → τ → Prop} {R : α → α' → Prop} {S : β → β' → Prop}

/-- The outcomes agree and the final states are related. -/
inductive Result.Agree (I : σ → τ → Prop) (R : α → α' → Prop) :
    Result ε σ α → Result ε τ α' → Prop
  | ok {a : α} {a' : α'} {s : σ} {t : τ} (h : R a a') (hst : I s t) : Agree I R (.ok a s) (.ok a' t)
  | error (e : ε) {s : σ} {t : τ} (hst : I s t) : Agree I R (.error e s) (.error e t)

/-- The final states are related in a weaker way as well. -/
theorem Result.Agree.imp {J : σ → τ → Prop} {x : Result ε σ α} {y : Result ε τ α'}
    (h : Result.Agree I R x y) (hIJ : ∀ s t, I s t → J s t) : Result.Agree J R x y := by
  cases h with
  | ok h hst => exact .ok h (hIJ _ _ hst)
  | error e hst => exact .error e (hIJ _ _ hst)

/-- The final states are related, whether or not the runs have failed. -/
theorem Result.Agree.finalState {x : Result ε σ α} {y : Result ε τ α'} (h : Result.Agree I R x y) :
    I x.finalState y.finalState := by
  cases h with
  | ok h hst => exact hst
  | error e hst => exact hst

/-- A run that agrees with one that succeeds succeeds. -/
theorem Result.Agree.of_ok {a : α} {s : σ} {y : Result ε τ α'}
    (h : Result.Agree I R (.ok a s) y) : ∃ a' t, y = .ok a' t ∧ R a a' ∧ I s t := by
  cases h with
  | ok h hst => exact ⟨_, _, rfl, h, hst⟩

/-- A run that agrees with one that fails fails. -/
theorem Result.Agree.of_error {e : ε} {s : σ} {y : Result ε τ α'}
    (h : Result.Agree I R (.error e s) y) : ∃ t, y = .error e t ∧ I s t := by
  cases h with
  | error e hst => exact ⟨_, rfl, hst⟩

/-- The sides of two runs do not matter. -/
theorem Result.Agree.symm {J : τ → σ → Prop} {T : α' → α → Prop} {x : Result ε σ α}
    {y : Result ε τ α'} (h : Result.Agree I R x y) (hJ : ∀ s t, I s t → J t s)
    (hT : ∀ a a', R a a' → T a' a) : Result.Agree J T y x := by
  cases h with
  | ok h hst => exact .ok (hT _ _ h) (hJ _ _ hst)
  | error e hst => exact .error e (hJ _ _ hst)

/-- From related states, the computations agree. -/
def Agree (I : σ → τ → Prop) (R : α → α' → Prop) (x : EStateM ε σ α) (y : EStateM ε τ α') : Prop :=
  ∀ s t, I s t → Result.Agree I R (x s) (y t)

namespace Agree

/-- Related values agree. -/
theorem pure {a : α} {a' : α'} (h : R a a') :
    Agree I R (Pure.pure a : EStateM ε σ α) (Pure.pure a' : EStateM ε τ α') :=
  fun _ _ hst => .ok h hst

/-- The same error agrees with itself, whatever is related. -/
theorem throw (e : ε) :
    Agree I R (MonadExcept.throw e : EStateM ε σ α) (MonadExcept.throw e : EStateM ε τ α') :=
  fun _ _ hst => .error e hst

/-- One computation after another. -/
theorem bind {x : EStateM ε σ α} {y : EStateM ε τ α'} {f : α → EStateM ε σ β}
    {g : α' → EStateM ε τ β'} (h : Agree I R x y) (hfg : ∀ a a', R a a' → Agree I S (f a) (g a')) :
    Agree I S (x >>= f) (y >>= g) := by
  intro s t hst
  have hx := h s t hst
  simp only [Bind.bind, EStateM.bind]
  cases hx' : x s with
  | ok a s' =>
    cases hy' : y t with
    | ok a' t' =>
      rw [hx', hy'] at hx
      cases hx with
      | ok ha hst' => exact hfg a a' ha s' t' hst'
    | error e t' =>
      rw [hx', hy'] at hx
      cases hx
  | error e s' =>
    cases hy' : y t with
    | ok a' t' =>
      rw [hx', hy'] at hx
      cases hx
    | error e' t' =>
      rw [hx', hy'] at hx
      cases hx with
      | error e hst' => exact .error e hst'

/-- Reading the states hands related states on. -/
theorem get_bind {f : σ → EStateM ε σ β} {g : τ → EStateM ε τ β'}
    (h : ∀ s t, I s t → Agree I S (f s) (g t)) : Agree I S (get >>= f) (get >>= g) :=
  fun s t hst => h s t hst s t hst

/-- Setting related states agrees. -/
theorem set {s : σ} {t : τ} (h : I s t) :
    Agree I (fun _ _ => True) (MonadStateOf.set s : EStateM ε σ PUnit)
      (MonadStateOf.set t : EStateM ε τ PUnit) :=
  fun _ _ _ => .ok trivial h

/-- Changing related states agrees. -/
theorem modify {f : σ → σ} {g : τ → τ} (h : ∀ s t, I s t → I (f s) (g t)) :
    Agree I (fun _ _ => True) (modify f : EStateM ε σ PUnit)
      (modify g : EStateM ε τ PUnit) :=
  fun s t hst => .ok trivial (h s t hst)

/-- The traversal of a list agrees if its steps do. -/
theorem forM {γ : Type u} {f : γ → EStateM ε σ PUnit} {g : γ → EStateM ε τ PUnit}
    (h : ∀ c, Agree I Eq (f c) (g c)) (l : List γ) : Agree I Eq (l.forM f) (l.forM g) := by
  induction l with
  | nil => exact pure (Eq.refl _)
  | cons c l ih => exact (h c).bind fun _ _ _ => ih

/-- Computations on parts of the states. -/
theorem within {ε' σ' τ' : Type u} {J : σ' → τ' → Prop} {part : σ' → σ} {part' : τ' → τ}
    {update : σ' → σ → σ'} {update' : τ' → τ → τ'} {x : EStateM ε σ α} {y : EStateM ε τ α'}
    (h : Agree I R x y) (f : ε → ε') (hpart : ∀ s t, J s t → I (part s) (part' t))
    (hupdate : ∀ s t a b, J s t → I a b → J (update s a) (update' t b)) :
    Agree J R (x.within part update f) (y.within part' update' f) := by
  intro s t hst
  have hrun := h (part s) (part' t) (hpart s t hst)
  unfold EStateM.within
  cases hx : x (part s) with
  | ok a s' =>
    cases hy : y (part' t) with
    | ok a' t' =>
      rw [hx, hy] at hrun
      cases hrun with
      | ok ha hst' => exact .ok ha (hupdate s t s' t' hst hst')
    | error e t' =>
      rw [hx, hy] at hrun
      cases hrun
  | error e s' =>
    cases hy : y (part' t) with
    | ok a' t' =>
      rw [hx, hy] at hrun
      cases hrun
    | error e' t' =>
      rw [hx, hy] at hrun
      cases hrun with
      | error e hst' => exact .error (f e) (hupdate s t s' t' hst hst')

/-- Computations that do not touch the state. -/
theorem ofExcept {x : Except ε α} {y : Except ε α'} (h : Except.Agree R x y) :
    Agree I R (MonadExcept.ofExcept x : EStateM ε σ α) (MonadExcept.ofExcept y : EStateM ε τ α') := by
  intro s t hst
  cases h with
  | ok h => exact .ok h hst
  | error e => exact .error e hst

/-- A choice between runs agrees if both of its branches do. -/
theorem ite {c : Prop} [Decidable c] {x x' : EStateM ε σ α} {y y' : EStateM ε τ α'}
    (h : Agree I R x y) (h' : Agree I R x' y') :
    Agree I R (if c then x else x') (if c then y else y') := by
  split
  · exact h
  · exact h'

end Agree

end EStateM
