import PromiseDb.Library.Codec

/-!
# Which failures are possible

A bound on the errors that a fallible computation can fail with.  There is one rule for each way of
composing computations, with a state, without one or reading bytes, so that a program stays within a
bound as soon as its parts do.
-/

universe u

/-! ## Without state -/

namespace Except

variable {ε α β : Type u} {P : ε → Prop}

/-- Whatever error the computation fails with, it has the property. -/
def FailsIn (P : ε → Prop) (x : Except ε α) : Prop := ∀ e, x = .error e → P e

namespace FailsIn

/-- A success does not fail. -/
theorem ok (a : α) : FailsIn P (.ok a : Except ε α) := by
  intro e h
  cases h

/-- An error fails as it says. -/
theorem error {e : ε} (h : P e) : FailsIn P (.error e : Except ε α) := by
  intro e' he
  cases he
  exact h

/-- One computation after another. -/
theorem bind {x : Except ε α} {f : α → Except ε β} (hx : FailsIn P x)
    (hf : ∀ a, FailsIn P (f a)) : FailsIn P (x >>= f) := by
  cases x with
  | ok a => exact hf a
  | error e => exact error (hx e rfl)

/-- An error under another name. -/
theorem mapError {ε' : Type u} {Q : ε' → Prop} {x : Except ε α} {f : ε → ε'}
    (h : FailsIn (fun e => Q (f e)) x) : FailsIn Q (x.mapError f) := by
  cases x with
  | ok a => exact ok a
  | error e => exact error (h e rfl)

/-- A traversal for its checks. -/
theorem forM {ε : Type u} {P : ε → Prop} {γ : Type u} {f : γ → Except ε PUnit}
    (hf : ∀ c, FailsIn P (f c)) (l : List γ) : FailsIn P (l.forM f) := by
  induction l with
  | nil => exact ok _
  | cons c l ih => exact bind (hf c) fun _ => ih

/-- An absent value turned into an error. -/
theorem elim {o : Option α} {e : ε} (h : P e) : FailsIn P (o.elim (.error e) Except.ok) := by
  cases o with
  | none => exact error h
  | some a => exact ok a

/-- A choice fails as its branches do. -/
theorem ite {c : Prop} [Decidable c] {x y : Except ε α} (hx : FailsIn P x) (hy : FailsIn P y) :
    FailsIn P (if c then x else y) := by
  split
  · exact hx
  · exact hy

/-- A check. -/
theorem ensure {c : Prop} [Decidable c] {e : ε} (h : P e) : FailsIn P (Except.ensure c e) :=
  ite (ok _) (error h)

/-- A traversal with an accumulator. -/
theorem foldlM {γ : Type u} {f : α → γ → Except ε α} (hf : ∀ a c, FailsIn P (f a c)) (l : List γ)
    (a : α) : FailsIn P (l.foldlM f a) := by
  induction l generalizing a with
  | nil => exact ok a
  | cons c l ih =>
    rw [List.foldlM_cons]
    exact bind (hf a c) fun a' => ih a'

/-- A traversal. -/
theorem mapM {f : α → Except ε β} (hf : ∀ a, FailsIn P (f a)) (l : List α) :
    FailsIn P (l.mapM f) := by
  induction l with
  | nil => exact ok []
  | cons a l ih =>
    rw [List.mapM_cons]
    exact bind (hf a) fun b => bind ih fun bs => ok (b :: bs)

end FailsIn

end Except

/-! ## With state -/

namespace EStateM

variable {ε σ α β : Type u} {P : ε → Prop}

/-- Whatever error the computation fails with, on whatever state, it has the property. -/
def FailsIn (P : ε → Prop) (x : EStateM ε σ α) : Prop := ∀ s e s', x s = .error e s' → P e

namespace FailsIn

/-- A value that is given does not fail. -/
theorem pure (a : α) : FailsIn P (Pure.pure a : EStateM ε σ α) := by
  intro s e s' h
  cases h

/-- A thrown error fails as it says. -/
theorem throw {e : ε} (h : P e) : FailsIn P (MonadExcept.throw e : EStateM ε σ α) := by
  intro s e' s' he
  cases he
  exact h

/-- Looking at the state does not fail. -/
theorem get : FailsIn P (MonadState.get : EStateM ε σ σ) := by
  intro s e s' h
  cases h

/-- Setting the state does not fail. -/
theorem set (s : σ) : FailsIn P (MonadStateOf.set s : EStateM ε σ PUnit) := by
  intro s₁ e s₂ h
  cases h

/-- A pure part. -/
theorem ofExcept {x : Except ε α} (h : x.FailsIn P) :
    FailsIn P (MonadExcept.ofExcept x : EStateM ε σ α) := by
  intro s e s' he
  cases x with
  | ok a => cases he
  | error e' =>
    cases he
    exact h e rfl

/-- One computation after another. -/
theorem bind {x : EStateM ε σ α} {f : α → EStateM ε σ β} (hx : FailsIn P x)
    (hf : ∀ a, FailsIn P (f a)) : FailsIn P (x >>= f) := by
  intro s e s' h
  rcases EStateM.bind_eq_error.mp h with hfirst | ⟨a, s₁, -, hsecond⟩
  · exact hx s e s' hfirst
  · exact hf a s₁ e s' hsecond

/-- A choice between runs fails as its branches do. -/
theorem ite {c : Prop} [Decidable c] {x y : EStateM ε σ α} (hx : FailsIn P x) (hy : FailsIn P y) :
    FailsIn P (if c then x else y) := by
  split
  · exact hx
  · exact hy

end FailsIn

end EStateM

/-! ## Readers -/

namespace Codec

variable {ε α β : Type} {P : ε → Prop}

/-- Whatever error the reader fails with, on whatever input, it has the property. -/
def FailsIn (P : ε → Prop) (r : Reader ε α) : Prop := ∀ input, (r input).FailsIn P

namespace FailsIn

/-- A reader of nothing does not fail. -/
theorem pure (a : α) : FailsIn P (Pure.pure a : Reader ε α) := by
  intro input
  exact .ok _

/-- A reader that throws fails as it says. -/
theorem throw {e : ε} (h : P e) : FailsIn P (MonadExcept.throw e : Reader ε α) := by
  intro input
  exact .error h

/-- A pure part. -/
theorem lift {x : Except ε α} (h : x.FailsIn P) : FailsIn P (Reader.lift x) := by
  intro input
  cases x with
  | ok a => exact .ok _
  | error e => exact .error (h e rfl)

/-- Taking bytes fails with the error for too few of them. -/
theorem take {truncated : ε} (h : P truncated) (length : Nat) :
    FailsIn P (Reader.take truncated length) := by
  intro input
  exact .ite (.ok _) (.error h)

/-- One reader after another. -/
theorem bind {r : Reader ε α} {k : α → Reader ε β} (hr : FailsIn P r) (hk : ∀ a, FailsIn P (k a)) :
    FailsIn P (r >>= k) := by
  intro input
  exact .bind (hr input) fun result => hk result.1 result.2

/-- A choice between readers fails as its branches do. -/
theorem ite {c : Prop} [Decidable c] {r r' : Reader ε α} (hr : FailsIn P r) (hr' : FailsIn P r') :
    FailsIn P (if c then r else r') := by
  split
  · exact hr
  · exact hr'

/-- Elements read one after the other. -/
theorem times {r : Reader ε α} (h : FailsIn P r) (n : Nat) : FailsIn P (r.times n) := by
  induction n with
  | zero => exact pure []
  | succ n ih => exact bind h fun a => bind ih fun as => pure (a :: as)

/-- Elements whose order is checked. -/
theorem timesInOrder {r : Reader ε α} (h : FailsIn P r) {inOrder : α → α → Bool} {disorder : ε}
    (hdisorder : P disorder) (previous : Option α) (n : Nat) :
    FailsIn P (r.timesInOrder inOrder disorder previous n) := by
  induction n generalizing previous with
  | zero => exact pure []
  | succ n ih =>
    exact bind h fun a => ite (bind (ih (some a)) fun as => pure (a :: as)) (throw hdisorder)

/-- Elements that depend on their position. -/
theorem timesFrom {r : Nat → Reader ε α} (h : ∀ i, FailsIn P (r i)) (position n : Nat) :
    FailsIn P (Reader.timesFrom r position n) := by
  induction n generalizing position with
  | zero => exact pure []
  | succ n ih =>
    exact bind (h position) fun a => bind (ih (position + 1)) fun as => pure (a :: as)

end FailsIn

end Codec
