import PromiseDb.Library.Agreement
import PromiseDb.Library.Specifications

/-!
# Calls that may fail

A program makes calls that change an outer state, and one of the calls may fail: without effect,
with its effect, or because everything ends there, so that no later call has an effect either.  The
assertion where a program has failed is then what holds wherever a fault may have stopped it.
-/

namespace Faults

/-! ## Calls -/

/-- How a call fails. -/
inductive Failure
  /-- The call has no effect, and neither has any later one. -/
  | crash
  /-- The call has no effect. -/
  | before
  /-- The call has its effect. -/
  | after
  deriving DecidableEq

/-- A failure that is met after a number of calls. -/
structure Fault where
  remaining : Nat
  failure : Failure
  deriving DecidableEq

/-- A state that calls change, and the failure that one of them is going to meet. -/
structure World (σ : Type) where
  state : σ
  fault : Option Fault

variable {ε σ α β : Type}

/-- The world after an attempt to change its state. -/
def World.attempt (x : Except ε (α × σ)) (w : World σ) : EStateM.Result ε (World σ) α :=
  match x with
  | .ok (a, s) => .ok a { w with state := s }
  | .error e => .error e w

/-- A call that changes the state or refuses to. -/
def call (injected : ε) (f : σ → Except ε (α × σ)) : EStateM ε (World σ) α := fun w =>
  match w.fault with
  | none => w.attempt (f w.state)
  | some ⟨n + 1, failure⟩ => ({ w with fault := some ⟨n, failure⟩ } : World σ).attempt (f w.state)
  | some ⟨0, .crash⟩ => .error injected w
  | some ⟨0, .before⟩ => .error injected { w with fault := none }
  | some ⟨0, .after⟩ =>
    .error injected (({ w with fault := none } : World σ).attempt (f w.state)).finalState

/-- A call is attempted, or a failure is met at it. -/
theorem call_cases (injected : ε) (f : σ → Except ε (α × σ)) (w : World σ) :
    (∃ fault, (fault ≠ none → w.fault ≠ none) ∧
      call injected f w = World.attempt (f w.state) ⟨w.state, fault⟩) ∨
    (w.fault ≠ none ∧ ∃ s fault, call injected f w = .error injected ⟨s, fault⟩ ∧
      (s = w.state ∨ ∃ a, f w.state = .ok (a, s))) := by
  obtain ⟨state, fault⟩ := w
  cases fault with
  | none => exact .inl ⟨none, id, rfl⟩
  | some fault =>
    obtain ⟨n, failure⟩ := fault
    have hsome : some (Fault.mk n failure) ≠ none := Option.some_ne_none _
    cases n with
    | succ n => exact .inl ⟨some ⟨n, failure⟩, fun _ => Option.some_ne_none _, rfl⟩
    | zero =>
      refine .inr ⟨hsome, ?_⟩
      cases failure with
      | crash => exact ⟨state, some ⟨0, .crash⟩, rfl, .inl rfl⟩
      | before => exact ⟨state, none, rfl, .inl rfl⟩
      | after =>
        cases hf : f state with
        | ok r =>
          refine ⟨r.2, none, ?_, .inr ⟨r.1, rfl⟩⟩
          show EStateM.Result.error injected
            (World.attempt (f state) (⟨state, none⟩ : World σ)).finalState = _
          rw [hf]
          rfl
        | error e =>
          refine ⟨state, none, ?_, .inl rfl⟩
          show EStateM.Result.error injected
            (World.attempt (f state) (⟨state, none⟩ : World σ)).finalState = _
          rw [hf]
          rfl

/-- A call leads from a state with the first assertion to one with the second, or it is refused in one
with the third. -/
def Effect (P : σ → Prop) (x : EStateM ε (World σ) α) (Q : α → σ → Prop) (R : σ → Prop) : Prop :=
  ∃ injected f, x = call injected f ∧ (∀ s, P s → ∀ a s', f s = .ok (a, s') → Q a s') ∧
    ∀ s, P s → ∀ e, f s = .error e → R s

/-- What a call does with the state. -/
theorem effect_call {P R : σ → Prop} {Q : α → σ → Prop} {injected : ε}
    {f : σ → Except ε (α × σ)} (hok : ∀ s, P s → ∀ a s', f s = .ok (a, s') → Q a s')
    (hrefused : ∀ s, P s → ∀ e, f s = .error e → R s) : Effect P (call injected f) Q R :=
  ⟨injected, f, rfl, hok, hrefused⟩

/-! ## Assertions -/

/-- An assertion about the state, with a failure ahead only if there may be one. -/
def Upto (faulty : Prop) (P : σ → Prop) (w : World σ) : Prop :=
  (w.fault ≠ none → faulty) ∧ P w.state

/-- Less is asserted. -/
theorem Upto.imp {faulty : Prop} {P P' : σ → Prop} {w : World σ} (h : Upto faulty P w)
    (himp : P w.state → P' w.state) : Upto faulty P' w :=
  ⟨h.1, himp h.2⟩

/-- A specification of a program of calls. -/
abbrev Spec (faulty : Prop) (P : σ → Prop) (x : EStateM ε (World σ) α) (Q : α → σ → Prop)
    (C : σ → Prop) : Prop :=
  EStateM.Spec (Upto faulty P) x (fun a => Upto faulty (Q a)) (Upto faulty C)

/-- A call has its effect, is refused, or fails with or without its effect. -/
theorem spec_call {faulty : Prop} {P : σ → Prop} {Q : α → σ → Prop} {C : σ → Prop} {injected : ε}
    {f : σ → Except ε (α × σ)} (hok : ∀ s, P s → ∀ a s', f s = .ok (a, s') → Q a s')
    (hrefused : ∀ s, P s → ∀ e, f s = .error e → C s) (hbefore : faulty → ∀ s, P s → C s)
    (hafter : faulty → ∀ a s, Q a s → C s) : Spec faulty P (call injected f) Q C := by
  intro w hw
  obtain ⟨fault, hfault, hrun⟩ | ⟨hfault, s, fault, hrun, hs⟩ := call_cases injected f w
  · have hless : fault ≠ none → faulty := fun h => hw.1 (hfault h)
    rw [hrun]
    cases hf : f w.state with
    | ok r => exact .inl ⟨r.1, ⟨r.2, fault⟩, rfl, hless, hok w.state hw.2 r.1 r.2 hf⟩
    | error e => exact .inr ⟨e, ⟨w.state, fault⟩, rfl, hless, hrefused w.state hw.2 e hf⟩
  · have hfaulty : faulty := hw.1 hfault
    refine .inr ⟨injected, ⟨s, fault⟩, hrun, fun _ => hfaulty, ?_⟩
    rcases hs with rfl | ⟨a, hs⟩
    · exact hbefore hfaulty _ hw.2
    · exact hafter hfaulty a s (hok w.state hw.2 a s hs)

/-- What is known of a call wherever a fault may be met. -/
theorem Effect.spec {faulty : Prop} {P R C : σ → Prop} {Q : α → σ → Prop}
    {x : EStateM ε (World σ) α} (h : Effect P x Q R) (hR : ∀ s, R s → C s)
    (hP : faulty → ∀ s, P s → C s) (hQ : faulty → ∀ a s, Q a s → C s) : Spec faulty P x Q C := by
  obtain ⟨injected, f, rfl, hok, hrefused⟩ := h
  exact spec_call hok (fun s hs e hf => hR s (hrefused s hs e hf)) hP hQ

namespace Spec

variable {faulty : Prop} {P : σ → Prop} {x : EStateM ε (World σ) α} {Q : α → σ → Prop} {C : σ → Prop}

/-- The state before is known. -/
theorem known (h : ∀ s, P s → Spec faulty (fun s' => s' = s) x Q C) : Spec faulty P x Q C :=
  fun w hP => h w.state hP.2 w ⟨hP.1, rfl⟩

/-- A fact that does not depend on the state. -/
theorem fact {p : Prop} (h : p → Spec faulty P x Q C) : Spec faulty (fun s => p ∧ P s) x Q C :=
  fun w hP => h hP.2.1 w ⟨hP.1, hP.2.2⟩

/-- A program that reads a value, before another one. -/
theorem reads {s : σ} {b : β} {y : EStateM ε (World σ) β} {f : β → EStateM ε (World σ) α}
    (hy : Spec faulty (fun s' => s' = s) y (fun b' s' => b' = b ∧ s' = s) C)
    (hf : Spec faulty (fun s' => s' = s) (f b) Q C) :
    Spec faulty (fun s' => s' = s) (y >>= f) Q C := by
  refine EStateM.Spec.bind hy fun b' => ?_
  rintro w ⟨hfault, rfl, hs⟩
  exact hf w ⟨hfault, hs⟩

/-- A program that is run without its own kind of errors. -/
theorem renamed {ε' : Type} {f : ε → ε'} (h : Spec faulty P x Q C) :
    Spec faulty P (x.within id (fun _ w => w) f) Q C :=
  EStateM.Spec.within fun w hw s hs => by
    rw [hs]
    exact h w hw

end Spec

/-- Wherever a program ends or is stopped, the assertion still holds. -/
abbrev Keeps (I : σ → Prop) (x : EStateM ε (World σ) α) : Prop := Spec True I x (fun _ => I) I

/-- A call keeps what its effect keeps. -/
theorem keeps_call {I : σ → Prop} {injected : ε} {f : σ → Except ε (α × σ)}
    (h : ∀ s a s', I s → f s = .ok (a, s') → I s') : Keeps I (call injected f) :=
  spec_call (fun s hs a s' hf => h s a s' hs hf) (fun _ hs _ _ => hs) (fun _ _ hs => hs)
    fun _ _ _ hs => hs

/-- A pure part keeps everything. -/
theorem keeps_ofExcept {I : σ → Prop} (v : Except ε α) :
    Keeps I (ofExcept v : EStateM ε (World σ) α) :=
  EStateM.spec_ofExcept (fun _ _ _ h => h) fun _ _ _ h => h

/-- What is kept implies what is asserted where a program has failed. -/
theorem Keeps.fails {I C : σ → Prop} {x : EStateM ε (World σ) α} (h : Keeps I x)
    (hC : ∀ s, I s → C s) : Spec True I x (fun _ => I) C :=
  EStateM.Spec.weaken h (fun _ hw => hw) (fun _ _ hw => hw) fun w hw => hw.imp (hC w.state)

/-- Where a program ends or is stopped. -/
theorem Spec.finalState {P C : σ → Prop} {x : EStateM ε (World σ) α}
    (h : Spec True P x (fun _ => C) C) {s : σ} (hs : P s) (fault : Option Fault) :
    C (x ⟨s, fault⟩).finalState.state := by
  obtain ⟨a, w, hrun, -, hw⟩ | ⟨e, w, hrun, -, hw⟩ := h ⟨s, fault⟩ ⟨fun _ => trivial, hs⟩
  · rw [hrun]
    exact hw
  · rw [hrun]
    exact hw

/-- Without a fault, a program that cannot fail otherwise ends. -/
theorem Spec.ok {P : σ → Prop} {x : EStateM ε (World σ) α} {Q : α → σ → Prop}
    (h : Spec False P x Q fun _ => False) {s : σ} (hP : P s) :
    ∃ a s', x ⟨s, none⟩ = .ok a ⟨s', none⟩ ∧ Q a s' := by
  obtain ⟨a, ⟨s', fault⟩, hrun, hfault, hQ⟩ | ⟨e, w', -, -, hfalse⟩ :=
    h ⟨s, none⟩ ⟨fun hne => hne rfl, hP⟩
  · have hnone : fault = none := by
      by_contra hne
      exact hfault hne
    subst hnone
    exact ⟨a, s', hrun, hQ⟩
  · exact hfalse.elim

/-! ## Two worlds side by side -/

/-- Worlds with related states, in which the same failure lies ahead. -/
def Alike {τ : Type} (I : σ → τ → Prop) (w : World σ) (w' : World τ) : Prop :=
  I w.state w'.state ∧ w.fault = w'.fault

section Alike

variable {τ α' : Type} {I : σ → τ → Prop} {R : α → α' → Prop}

/-- Attempts that agree leave related worlds. -/
theorem agree_attempt {x : Except ε (α × σ)} {y : Except ε (α' × τ)} {w : World σ} {w' : World τ}
    (h : Except.Agree (fun a b => R a.1 b.1 ∧ I a.2 b.2) x y) (hw : Alike I w w') :
    EStateM.Result.Agree (Alike I) R (w.attempt x) (w'.attempt y) := by
  cases h with
  | ok h => exact .ok h.1 ⟨h.2, hw.2⟩
  | error e => exact .error e hw

/-- Calls whose effects agree meet the same failure. -/
theorem agree_call {injected : ε} {f : σ → Except ε (α × σ)} {g : τ → Except ε (α' × τ)}
    (h : ∀ s t, I s t → Except.Agree (fun a b => R a.1 b.1 ∧ I a.2 b.2) (f s) (g t)) :
    EStateM.Agree (Alike I) R (call injected f) (call injected g) := by
  rintro ⟨s, fault⟩ ⟨t, _⟩ ⟨hst, rfl⟩
  have hattempt (fault : Option Fault) : EStateM.Result.Agree (Alike I) R
      (World.attempt (f s) ⟨s, fault⟩) (World.attempt (g t) ⟨t, fault⟩) :=
    agree_attempt (h s t hst) ⟨hst, rfl⟩
  obtain _ | ⟨_ | n, failure⟩ := fault
  · exact hattempt none
  · cases failure with
    | crash => exact .error _ ⟨hst, rfl⟩
    | before => exact .error _ ⟨hst, rfl⟩
    | after => exact .error _ (hattempt none).finalState
  · exact hattempt (some ⟨n, failure⟩)

end Alike

/-! ## The call at which a fault is met -/

/-- So many calls were made, the fault lies ahead, and something is known of the state. -/
def Ahead (fault : Fault) (calls : Nat) (P : σ → Prop) (w : World σ) : Prop :=
  ∃ n, calls + n = fault.remaining ∧ w.fault = some ⟨n, fault.failure⟩ ∧ P w.state

/-- Something is known of the state if the fault has been met. -/
def Met (C : σ → Prop) (w : World σ) : Prop := w.fault = none → C w.state

/-- One more call is attempted with the fault still ahead, or the fault is met there: with the effect of
the call or without. -/
theorem Ahead.call_cases {P : σ → Prop} {fault : Fault} {calls : Nat} {w : World σ}
    (h : Ahead fault calls P w) (injected : ε) (f : σ → Except ε (α × σ)) :
    (∃ n, calls + 1 + n = fault.remaining ∧
      call injected f w = World.attempt (f w.state) ⟨w.state, some ⟨n, fault.failure⟩⟩) ∨
    (fault.remaining = calls ∧ ∃ w', call injected f w = .error injected w' ∧ (w'.fault = none →
      (fault = ⟨calls, .before⟩ ∧ w'.state = w.state) ∨ (fault = ⟨calls, .after⟩ ∧
        w'.state = (World.attempt (f w.state) ⟨w.state, none⟩).finalState.state))) := by
  obtain ⟨remaining, failure⟩ := fault
  obtain ⟨s, _⟩ := w
  obtain ⟨n, hn, rfl, -⟩ := h
  cases n with
  | succ n => exact .inl ⟨n, by dsimp only at hn ⊢; omega, rfl⟩
  | zero =>
    obtain rfl : calls = remaining := hn
    refine .inr ⟨rfl, ?_⟩
    cases failure with
    | crash => exact ⟨⟨s, some ⟨0, .crash⟩⟩, rfl, nofun⟩
    | before => exact ⟨⟨s, none⟩, rfl, fun _ => .inl ⟨rfl, rfl⟩⟩
    | after => exact ⟨_, rfl, fun _ => .inr ⟨rfl, rfl⟩⟩

/-- After one more call the fault still lies ahead, unless it is met there. -/
theorem Effect.ahead {P R C : σ → Prop} {Q : α → σ → Prop} {x : EStateM ε (World σ) α}
    {fault : Fault} {calls : Nat} (h : Effect P x Q R)
    (hbefore : fault = ⟨calls, .before⟩ → ∀ s, P s → C s)
    (hafter : fault = ⟨calls, .after⟩ → (∀ a s, Q a s → C s) ∧ ∀ s, R s → C s) :
    EStateM.Spec (Ahead fault calls P) x (fun a => Ahead fault (calls + 1) (Q a)) (Met C) := by
  obtain ⟨injected, f, rfl, hok, hrefused⟩ := h
  intro w hw
  have hcases := hw.call_cases injected f
  obtain ⟨-, -, -, hs⟩ := hw
  obtain ⟨n, hn, hrun⟩ | ⟨-, w', hfailed, hstate⟩ := hcases
  · -- the fault is not met yet
    rw [hrun]
    cases hf : f w.state with
    | ok r => exact .inl ⟨r.1, ⟨r.2, some ⟨n, fault.failure⟩⟩, rfl, n, hn, rfl,
        hok w.state hs r.1 r.2 hf⟩
    | error e => exact .inr ⟨e, ⟨w.state, some ⟨n, fault.failure⟩⟩, rfl, nofun⟩
  · refine .inr ⟨injected, w', hfailed, fun hnone => ?_⟩
    obtain ⟨hat, hsame⟩ | ⟨hat, hsame⟩ := hstate hnone
    · rw [hsame]
      exact hbefore hat w.state hs
    · rw [hsame]
      cases hf : f w.state with
      | ok r => exact (hafter hat).1 r.1 r.2 (hok w.state hs r.1 r.2 hf)
      | error e => exact (hafter hat).2 w.state (hrefused w.state hs e hf)

end Faults
