import PromiseDb.Library.StateRun

/-!
# Specifications with a failure

A program on a state may fail, and it keeps the state that it has reached when it does.  A
specification of such a program has three assertions about states: what holds before it, what holds
after it about its value and the state, and what holds where it has failed.  There is one rule for
each way of composing programs.
-/

universe u

namespace EStateM

variable {ε ε' σ τ α β : Type u}

/-- From a state with the first assertion the program ends in one with the second, or fails in one
with the third. -/
def Spec (P : σ → Prop) (x : EStateM ε σ α) (Q : α → σ → Prop) (C : σ → Prop) : Prop :=
  ∀ s, P s → (∃ a s', x s = .ok a s' ∧ Q a s') ∨ ∃ e s', x s = .error e s' ∧ C s'

variable {P P' : σ → Prop} {Q Q' : α → σ → Prop} {C C' : σ → Prop} {x : EStateM ε σ α}

/-! ## Single steps -/

/-- A program that only hands on a value. -/
theorem spec_pure {a : α} (h : ∀ s, P s → Q a s) : Spec P (pure a : EStateM ε σ α) Q C :=
  fun s hP => .inl ⟨a, s, rfl, h s hP⟩

/-- A program that fails. -/
theorem spec_throw {e : ε} (h : ∀ s, P s → C s) : Spec P (throw e : EStateM ε σ α) Q C :=
  fun s hP => .inr ⟨e, s, rfl, h s hP⟩

/-- A program that reads the state. -/
theorem spec_get {R : σ → σ → Prop} (h : ∀ s, P s → R s s) :
    Spec P (get : EStateM ε σ σ) R C :=
  fun s hP => .inl ⟨s, s, rfl, h s hP⟩

/-- A program that changes the state. -/
theorem spec_modify {f : σ → σ} {R : PUnit → σ → Prop} (h : ∀ s, P s → R ⟨⟩ (f s)) :
    Spec P (modify f : EStateM ε σ PUnit) R C :=
  fun s hP => .inl ⟨⟨⟩, f s, rfl, h s hP⟩

/-- A value that may be missing. -/
theorem spec_ofExcept {v : Except ε α} (hok : ∀ a, v = .ok a → ∀ s, P s → Q a s)
    (herror : ∀ e, v = .error e → ∀ s, P s → C s) :
    Spec P (ofExcept v : EStateM ε σ α) Q C := by
  intro s hP
  cases v with
  | ok a => exact .inl ⟨a, s, rfl, hok a rfl s hP⟩
  | error e => exact .inr ⟨e, s, rfl, herror e rfl s hP⟩

/-- A value that is not missing. -/
theorem spec_ofExcept_ok {v : Except ε α} {a : α} (hv : v = .ok a) (h : ∀ s, P s → Q a s) :
    Spec P (ofExcept v : EStateM ε σ α) Q C := by
  refine spec_ofExcept ?_ ?_
  · intro b hb s hP
    rw [hv] at hb
    cases hb
    exact h s hP
  · intro e he
    rw [hv] at he
    cases he

/-- A condition that holds. -/
theorem spec_ensure {condition : Prop} [Decidable condition] {e : ε} (h : condition) :
    Spec P (ofExcept (Except.ensure condition e) : EStateM ε σ PUnit) (fun _ => P) C :=
  spec_ofExcept_ok (a := ⟨⟩) (Except.ensure_eq_ok.mpr h) fun _ hP => hP

/-! ## Composition -/

namespace Spec

/-- One program after another. -/
theorem bind {R : β → σ → Prop} {y : EStateM ε σ β} {f : β → EStateM ε σ α}
    (hy : Spec P y R C) (hf : ∀ b, Spec (R b) (f b) Q C) : Spec P (y >>= f) Q C := by
  intro s hP
  obtain ⟨b, s', hrun, hR⟩ | ⟨e, s', hrun, hC⟩ := hy s hP
  · rw [EStateM.bind_of_ok hrun]
    exact hf b s' hR
  · exact .inr ⟨e, s', EStateM.bind_of_error hrun, hC⟩

/-- A program whose value is not used, before another one. -/
theorem andThen {R : σ → Prop} {y : EStateM ε σ PUnit} {z : PUnit → EStateM ε σ α}
    (hy : Spec P y (fun _ => R) C) (hz : Spec R (z ⟨⟩) Q C) : Spec P (y >>= z) Q C :=
  hy.bind fun _ => hz

/-- A value that is not missing, before another program. -/
theorem value {v : Except ε β} {b : β} {f : β → EStateM ε σ α} (hv : v = .ok b)
    (hf : Spec P (f b) Q C) : Spec P (ofExcept v >>= f) Q C := by
  rw [hv]
  exact hf

/-- What holds of a run that ends. -/
theorem of_ok (h : Spec P x Q C) {s s' : σ} {a : α} (hrun : x s = .ok a s') (hP : P s) : Q a s' := by
  obtain ⟨b, t, hok, hQ⟩ | ⟨e, t, herror, -⟩ := h s hP
  · obtain ⟨rfl, rfl⟩ := EStateM.Result.ok.inj (hrun.symm.trans hok)
    exact hQ
  · cases hrun.symm.trans herror

/-- What holds of a run that fails. -/
theorem of_error (h : Spec P x Q C) {s s' : σ} {e : ε} (hrun : x s = .error e s') (hP : P s) :
    C s' := by
  obtain ⟨b, t, hok, -⟩ | ⟨e', t, herror, hC⟩ := h s hP
  · cases hrun.symm.trans hok
  · obtain ⟨rfl, rfl⟩ := EStateM.Result.error.inj (hrun.symm.trans herror)
    exact hC

/-- Less before, more after. -/
theorem weaken (h : Spec P x Q C) (hP : ∀ s, P' s → P s) (hQ : ∀ a s, Q a s → Q' a s)
    (hC : ∀ s, C s → C' s) : Spec P' x Q' C' := by
  intro s hP'
  obtain ⟨a, s', hrun, hQa⟩ | ⟨e, s', hrun, hCs⟩ := h s (hP s hP')
  · exact .inl ⟨a, s', hrun, hQ a s' hQa⟩
  · exact .inr ⟨e, s', hrun, hC s' hCs⟩

/-- One of two programs. -/
theorem ite {c : Prop} [Decidable c] {y : EStateM ε σ α} (hx : c → Spec P x Q C)
    (hy : ¬c → Spec P y Q C) : Spec P (if c then x else y) Q C := by
  split
  · exact hx ‹c›
  · exact hy ‹¬c›

/-- A fact that does not depend on the state. -/
theorem fact {p : Prop} (h : p → Spec P x Q C) : Spec (fun s => p ∧ P s) x Q C :=
  fun s hP => h hP.1 s hP.2

/-- The state before is known. -/
theorem states (h : ∀ s, P s → Spec (fun s' => s' = s) x Q C) : Spec P x Q C :=
  fun s hP => h s hP s rfl

/-- How the run from a known state ends. -/
theorem run {s₀ : σ} (h : Spec (fun s => s = s₀) x Q C) :
    Spec (fun s => s = s₀) x (fun a s => x s₀ = .ok a s ∧ Q a s)
      fun s => (∃ e, x s₀ = .error e s) ∧ C s := by
  rintro s rfl
  obtain ⟨a, s', hrun, hQ⟩ | ⟨e, s', hrun, hC⟩ := h s rfl
  · exact .inl ⟨a, s', hrun, hrun, hQ⟩
  · exact .inr ⟨e, s', hrun, ⟨e, hrun⟩, hC⟩

/-- A program on a part of the state. -/
theorem within {part : τ → σ} {update : τ → σ → τ} {f : ε → ε'} {P : τ → Prop}
    {Q : α → τ → Prop} {C : τ → Prop}
    (h : ∀ t, P t → Spec (fun s => s = part t) x (fun a s => Q a (update t s))
      fun s => C (update t s)) : Spec P (x.within part update f) Q C := by
  intro t hP
  obtain ⟨a, s, hrun, hQ⟩ | ⟨e, s, hrun, hC⟩ := h t hP (part t) rfl
  · refine .inl ⟨a, update t s, ?_, hQ⟩
    rw [EStateM.within, hrun]
  · refine .inr ⟨f e, update t s, ?_, hC⟩
    rw [EStateM.within, hrun]

/-- The traversal of a list, with an assertion about the elements that are done. -/
theorem forM {l : List β} {f : β → EStateM ε σ PUnit} {I : List β → σ → Prop}
    (h : ∀ done b rest, l = done ++ b :: rest →
      Spec (I done) (f b) (fun _ => I (done ++ [b])) C) :
    Spec (I []) (l.forM f) (fun _ => I l) C := by
  suffices H : ∀ rest done, l = done ++ rest → Spec (I done) (rest.forM f) (fun _ => I l) C
    from H l [] rfl
  intro rest
  induction rest with
  | nil =>
    intro done hl
    rw [List.append_nil] at hl
    subst hl
    exact spec_pure fun _ hI => hI
  | cons b rest ih =>
    intro done hl
    have hrest := ih (done ++ [b]) (by rw [hl, List.append_assoc, List.singleton_append])
    exact (h done b rest hl).andThen hrest

end Spec

end EStateM
