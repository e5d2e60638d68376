import Qutty.Lib.Records

/-!
# Computations that change a state and may abort

Rules for `EStateM`: what a run that returns did between its two states.
`Ensures R x` says that every run of `x` that returns leads from a state to one
related to it by the preorder `R`; a run that aborts is not restricted.  `Keeps R x`
says it of all runs.
-/

namespace Qutty
namespace Lib

variable {ε σ α β : Type}

/-- A run of a sequence that returns is a run of its parts. -/
theorem run_bind_ok {x : EStateM ε σ α} {f : α → EStateM ε σ β} {s s' : σ} {b : β} :
    (x >>= f).run s = .ok b s' ↔
      ∃ a s₁, x.run s = .ok a s₁ ∧ (f a).run s₁ = .ok b s' := by
  rw [EStateM.run_bind]
  cases hx : x.run s with
  | ok a s₁ =>
      constructor
      · intro h
        exact ⟨a, s₁, rfl, h⟩
      · rintro ⟨a', s₂, heq, h⟩
        cases heq
        exact h
  | error e s₁ => simp

/-- The run has returned, in a state that passes the test `p`. -/
def returns (p : σ → Bool) : EStateM.Result ε σ α → Bool
  | .ok _ s => p s
  | .error _ _ => false

theorem exists_of_returns {p : σ → Bool} {x : EStateM ε σ α} {s : σ}
    (h : returns p (x.run s) = true) : ∃ a s', x.run s = .ok a s' ∧ p s' = true := by
  cases hx : x.run s with
  | ok a s' =>
      rw [hx] at h
      exact ⟨a, s', rfl, h⟩
  | error e s' =>
      rw [hx] at h
      cases h

/-- Every step of a run on successive inputs starts in a state that meets the
condition for its input. -/
def AllSteps (cond : σ → β → Prop) (step : β → EStateM ε σ α) : σ → List β → Prop
  | _, [] => True
  | s, i :: is => cond s i ∧ ∀ a s', (step i).run s = .ok a s' → AllSteps cond step s' is

/-- Every run that returns respects `R`. -/
def Ensures (R : σ → σ → Prop) (x : EStateM ε σ α) : Prop :=
  ∀ s a s', x.run s = .ok a s' → R s s'

namespace Ensures

variable {R : σ → σ → Prop}

theorem throw (e : ε) : Ensures R (MonadExcept.throw e : EStateM ε σ α) := by
  intro s b s' h
  cases h

theorem of_modify {f : σ → σ} (h : ∀ s, R s (f s)) :
    Ensures R (modify f : EStateM ε σ PUnit) := by
  intro s b s' hr
  cases hr
  exact h s

theorem ite {c : Prop} [Decidable c] {x y : EStateM ε σ α} (hx : Ensures R x)
    (hy : Ensures R y) : Ensures R (if c then x else y) := by
  split_ifs
  · exact hx
  · exact hy

variable [IsPreorder σ R]

theorem pure (a : α) : Ensures R (Pure.pure a : EStateM ε σ α) := by
  intro s b s' h
  cases h
  exact refl_of R s

theorem get : Ensures R (MonadState.get : EStateM ε σ σ) := by
  intro s b s' h
  cases h
  exact refl_of R s

theorem bind {x : EStateM ε σ α} {f : α → EStateM ε σ β} (hx : Ensures R x)
    (hf : ∀ a, Ensures R (f a)) : Ensures R (x >>= f) := by
  intro s b s' h
  obtain ⟨a, s₁, h₁, h₂⟩ := run_bind_ok.mp h
  exact trans_of R (hx s a s₁ h₁) (hf a s₁ b s' h₂)

theorem map {x : EStateM ε σ α} (f : α → β) (hx : Ensures R x) : Ensures R (f <$> x) := by
  rw [← bind_pure_comp]
  exact hx.bind (fun a => .pure (f a))

/-- Handing over records respects what handing over one of them does. -/
theorem feedUntil {γ : Type} {accept : γ → EStateM ε σ Bool}
    (h : ∀ r, Ensures R (accept r)) (rs : List γ) : Ensures R (feedUntil accept rs) := by
  induction rs with
  | nil => exact .pure none
  | cons r rs ih =>
      rw [feedUntil_cons]
      exact (h r).bind (fun _ => .ite ih (.pure _))

end Ensures

/-- The state in which a run ends, also if it aborts. -/
def finalState : EStateM.Result ε σ α → σ
  | .ok _ s => s
  | .error _ s => s

/-- Every run respects `R`, also one that aborts. -/
def Keeps (R : σ → σ → Prop) (x : EStateM ε σ α) : Prop :=
  ∀ s, R s (finalState (x.run s))

namespace Keeps

variable {R : σ → σ → Prop}

theorem of_modify {f : σ → σ} (h : ∀ s, R s (f s)) : Keeps R (modify f : EStateM ε σ PUnit) :=
  h

theorem ite {c : Prop} [Decidable c] {x y : EStateM ε σ α} (hx : Keeps R x) (hy : Keeps R y) :
    Keeps R (if c then x else y) := by
  split_ifs
  · exact hx
  · exact hy

/-- A computation that begins by reading the state. -/
theorem bind_get {f : σ → EStateM ε σ α} (h : ∀ s, R s (finalState ((f s).run s))) :
    Keeps R (MonadState.get >>= f) :=
  h

variable [IsPreorder σ R]

theorem throw (e : ε) : Keeps R (MonadExcept.throw e : EStateM ε σ α) :=
  fun s => refl_of R s

theorem pure (a : α) : Keeps R (Pure.pure a : EStateM ε σ α) :=
  fun s => refl_of R s

theorem get : Keeps R (MonadState.get : EStateM ε σ σ) :=
  fun s => refl_of R s

/-- What comes after the first part of a run respects `R` from where that has ended. -/
theorem run_bind {x : EStateM ε σ α} {f : α → EStateM ε σ β} (hf : ∀ a, Keeps R (f a)) (s : σ) :
    R (finalState (x.run s)) (finalState ((x >>= f).run s)) := by
  rw [EStateM.run_bind]
  cases x.run s with
  | ok a s' => exact hf a s'
  | error e s' => exact refl_of R s'

theorem bind {x : EStateM ε σ α} {f : α → EStateM ε σ β} (hx : Keeps R x)
    (hf : ∀ a, Keeps R (f a)) : Keeps R (x >>= f) :=
  fun s => trans_of R (hx s) (run_bind hf s)

theorem map {x : EStateM ε σ α} (f : α → β) (hx : Keeps R x) : Keeps R (f <$> x) := by
  rw [← bind_pure_comp]
  exact hx.bind (fun a => .pure (f a))

/-- Handing over records respects what handing over one of them does. -/
theorem feedUntil {γ : Type} {accept : γ → EStateM ε σ Bool} (h : ∀ r, Keeps R (accept r))
    (rs : List γ) : Keeps R (feedUntil accept rs) := by
  induction rs with
  | nil => exact .pure none
  | cons r rs ih =>
      rw [feedUntil_cons]
      exact (h r).bind (fun _ => .ite ih (.pure _))

end Keeps

/-- From a state that satisfies `P` the computation returns with `Q`, or aborts
with an error that `allowed` admits. -/
def Meets (allowed : ε → Prop) (P : σ → Prop) (x : EStateM ε σ α) (Q : α → σ → Prop) : Prop :=
  ∀ s, P s →
    match x.run s with
    | .ok a s' => Q a s'
    | .error e _ => allowed e

namespace Meets

variable {allowed : ε → Prop} {P : σ → Prop} {Q : α → σ → Prop}

theorem pure {a : α} (h : ∀ s, P s → Q a s) :
    Meets allowed P (Pure.pure a : EStateM ε σ α) Q :=
  fun s hs => h s hs

/-- A computation that begins by reading the state. -/
theorem bind_get {f : σ → EStateM ε σ α} (h : ∀ s, P s → Meets allowed (· = s) (f s) Q) :
    Meets allowed P (MonadState.get >>= f) Q :=
  fun s hs => h s hs s rfl

theorem bind_get_eq {f : σ → EStateM ε σ α} {s : σ} (h : Meets allowed (· = s) (f s) Q) :
    Meets allowed (· = s) (MonadState.get >>= f) Q :=
  fun _ hs => hs ▸ h s rfl

theorem of_modify {f : σ → σ} {R : σ → Prop} (h : ∀ s, P s → R (f s)) :
    Meets allowed P (modify f : EStateM ε σ PUnit) (fun _ => R) :=
  fun s hs => h s hs

theorem of_modify_eq {f : σ → σ} {s t : σ} (h : f s = t) :
    Meets allowed (· = s) (modify f : EStateM ε σ PUnit) (fun _ => (· = t)) :=
  fun _ hs => (congrArg f hs).trans h

theorem of_set {t : σ} {R : σ → Prop} (h : R t) :
    Meets allowed P (MonadState.set t : EStateM ε σ PUnit) (fun _ => R) :=
  fun _ _ => h

theorem throw {e : ε} (h : allowed e) :
    Meets allowed P (MonadExcept.throw e : EStateM ε σ α) Q :=
  fun _ _ => h

/-- The condition may be strengthened. -/
theorem of_imp {P' : σ → Prop} {x : EStateM ε σ α} (h : Meets allowed P x Q)
    (hP : ∀ s, P' s → P s) : Meets allowed P' x Q :=
  fun s hs => h s (hP s hs)

theorem bind {x : EStateM ε σ α} {f : α → EStateM ε σ β} {R : β → σ → Prop}
    (hx : Meets allowed P x Q) (hf : ∀ a, Meets allowed (Q a) (f a) R) :
    Meets allowed P (x >>= f) R := by
  intro s hs
  have h := hx s hs
  rw [EStateM.run_bind]
  cases hrun : x.run s with
  | ok a s' =>
      rw [hrun] at h
      exact hf a s' h
  | error e s' =>
      rw [hrun] at h
      exact h

theorem map {x : EStateM ε σ α} {f : α → β} {R : β → σ → Prop}
    (hx : Meets allowed P x (fun a => R (f a))) : Meets allowed P (f <$> x) R := by
  rw [← bind_pure_comp]
  exact .bind hx fun a => .pure fun s hs => hs

/-- What a run that meets its condition and returns has established. -/
theorem of_ok {x : EStateM ε σ α} (h : Meets allowed P x Q) {s s' : σ} {a : α} (hs : P s)
    (hrun : x.run s = .ok a s') : Q a s' := by
  have hq := h s hs
  rw [hrun] at hq
  exact hq

theorem of_error {x : EStateM ε σ α} (h : Meets allowed P x Q) {s s' : σ} {e : ε} (hs : P s)
    (hrun : x.run s = .error e s') : allowed e := by
  have hq := h s hs
  rw [hrun] at hq
  exact hq

/-- Handing over records keeps what handing over one of them keeps. -/
theorem feedUntil {γ : Type} {accept : γ → EStateM ε σ Bool}
    (h : ∀ r, Meets allowed P (accept r) (fun _ => P)) (rs : List γ) :
    Meets allowed P (feedUntil accept rs) (fun _ => P) := by
  induction rs with
  | nil => exact .pure fun s hs => hs
  | cons r rs ih =>
      rw [feedUntil_cons]
      refine .bind (h r) fun b => ?_
      cases b with
      | true => exact ih
      | false => exact .pure fun s hs => hs

end Meets

end Lib
end Qutty
