import Mathlib.Tactic

/-!
# Runs of a partial step function

A system takes steps on events; a step that is not possible ends the run.  `Always`
says that a property holds in every state of a run, and `Steps` that every step meets
a condition on the state before it.  Where a step keeps the property exactly if it meets
the condition, so does a run (`always_iff_steps`).
-/

namespace Qutty
namespace Lib

variable {σ ε : Type} (step : σ → ε → Option σ)

/-- The state after some events. -/
def runSteps : σ → List ε → Option σ
  | s, [] => some s
  | s, e :: es => (step s e).bind (fun s' => runSteps s' es)

/-- Some events lead from a state to another one. -/
def Reaches (s s' : σ) : Prop := ∃ es, runSteps step s es = some s'

/-- A property of all states of a run. -/
def Always (P : σ → Prop) : σ → List ε → Prop
  | s, [] => P s
  | s, e :: es => P s ∧ ∀ s', step s e = some s' → Always P s' es

/-- A condition on all steps of a run. -/
def Steps (C : σ → ε → Prop) : σ → List ε → Prop
  | _, [] => True
  | s, e :: es => ∀ s', step s e = some s' → C s e ∧ Steps C s' es

/-- A condition that every step of a run is asked for, also one that is not possible. -/
def Guarded (C : σ → ε → Prop) : σ → List ε → Prop
  | _, [] => True
  | s, e :: es => C s e ∧ ∀ s', step s e = some s' → Guarded C s' es

/-- What every step of a run does. -/
def EachStep (R : σ → ε → σ → Prop) : σ → List ε → Prop
  | _, [] => True
  | s, e :: es => ∀ s', step s e = some s' → R s e s' ∧ EachStep R s' es

variable {step} {P Inv : σ → Prop} {C : σ → ε → Prop} {R : σ → ε → σ → Prop} {s : σ} {es : List ε}

theorem Always.first (h : Always step P s es) : P s := by
  cases es with
  | nil => exact h
  | cons e es => exact h.1

theorem Always.imp {Q : σ → Prop} (h : Always step P s es) (himp : ∀ s, P s → Q s) :
    Always step Q s es := by
  induction es generalizing s with
  | nil => exact himp s h
  | cons e es ih => exact ⟨himp s h.1, fun s' hs' => ih (h.2 s' hs')⟩

/-- The property holds in the last state too. -/
theorem Always.last (h : Always step P s es) {s' : σ} (hrun : runSteps step s es = some s') :
    P s' := by
  induction es generalizing s with
  | nil =>
      obtain rfl := Option.some.inj hrun
      exact h
  | cons e es ih =>
      obtain ⟨s₁, hstep, hrest⟩ := Option.bind_eq_some_iff.mp hrun
      exact ih (h.2 s₁ hstep) hrest

variable (Inv) in
/-- **The rule for runs**: what a step keeps exactly if it meets a condition. -/
theorem always_iff_steps (hinv : ∀ s e s', Inv s → step s e = some s' → Inv s')
    (hstep : ∀ s e s', Inv s → P s → step s e = some s' → (P s' ↔ C s e))
    (hs : Inv s) (hp : P s) : Always step P s es ↔ Steps step C s es := by
  induction es generalizing s with
  | nil => exact iff_of_true hp trivial
  | cons e es ih =>
      constructor
      · rintro ⟨-, hrest⟩ s' hs'
        have hp' := (hrest s' hs').first
        exact ⟨(hstep s e s' hs hp hs').mp hp', (ih (hinv s e s' hs hs') hp').mp (hrest s' hs')⟩
      · intro h
        refine ⟨hp, fun s' hs' => ?_⟩
        obtain ⟨hc, hrest⟩ := h s' hs'
        have hp' := (hstep s e s' hs hp hs').mpr hc
        exact (ih (hinv s e s' hs hs') hp').mpr hrest

/-- **A guarded run goes through**, and every state of it has the property. -/
theorem always_of_guarded (hstep : ∀ s e, P s → C s e → ∃ s', step s e = some s' ∧ P s')
    (hs : P s) (h : Guarded step C s es) :
    Always step P s es ∧ ∃ s', runSteps step s es = some s' := by
  induction es generalizing s with
  | nil => exact ⟨hs, s, rfl⟩
  | cons e es ih =>
      obtain ⟨s₁, hs₁, hp⟩ := hstep s e hs h.1
      obtain ⟨halways, s', hrun⟩ := ih hp (h.2 s₁ hs₁)
      refine ⟨⟨hs, fun s' hs' => ?_⟩, s', ?_⟩
      · obtain rfl := Option.some.inj (hs₁.symm.trans hs')
        exact halways
      · rw [runSteps, hs₁, Option.bind_some, hrun]

/-- The steps of a run that meet a condition do what the condition is enough for. -/
theorem eachStep_of_steps (hstep : ∀ s e s', C s e → step s e = some s' → R s e s')
    (h : Steps step C s es) : EachStep step R s es := by
  induction es generalizing s with
  | nil => exact trivial
  | cons e es ih =>
      intro s' hs'
      obtain ⟨hc, hrest⟩ := h s' hs'
      exact ⟨hstep s e s' hc hs', ih hrest⟩

/-- What a step does where an invariant holds, every step of a run does. -/
theorem eachStep_of_invariant (hinv : ∀ s e s', P s → step s e = some s' → P s')
    (hstep : ∀ s e s', P s → step s e = some s' → R s e s') (hs : P s) (es : List ε) :
    EachStep step R s es := by
  induction es generalizing s with
  | nil => exact trivial
  | cons e es ih => exact fun s' hs' => ⟨hstep s e s' hs hs', ih (hinv s e s' hs hs')⟩

/-- **The rule for invariants**: a property that every admitted event keeps holds at the end. -/
theorem runSteps_preserves {A : ε → Prop}
    (hstep : ∀ s e s', P s → A e → step s e = some s' → P s') (hs : P s)
    (hes : ∀ e ∈ es, A e) {s' : σ} (hrun : runSteps step s es = some s') : P s' := by
  induction es generalizing s with
  | nil =>
      obtain rfl := Option.some.inj hrun
      exact hs
  | cons e es ih =>
      obtain ⟨s₁, hs₁, hrest⟩ := Option.bind_eq_some_iff.mp hrun
      have he := hes e (by simp)
      exact ih (hstep s e s₁ hs he hs₁) (fun e' he' => hes e' (by simp [he'])) hrest

/-- **The rule for simulations**: what a step of one system does, a step of the other does too,
and so for runs. -/
theorem runSteps_simulates {τ : Type} {step' : τ → ε → Option τ} (Rel : σ → τ → Prop)
    (hstep : ∀ s t e s', Rel s t → step s e = some s' → ∃ t', step' t e = some t' ∧ Rel s' t')
    {t : τ} (h : Rel s t) {s' : σ} (hrun : runSteps step s es = some s') :
    ∃ t', runSteps step' t es = some t' ∧ Rel s' t' := by
  induction es generalizing s t with
  | nil =>
      obtain rfl := Option.some.inj hrun
      exact ⟨t, rfl, h⟩
  | cons e es ih =>
      obtain ⟨s₁, hs₁, hrest⟩ := Option.bind_eq_some_iff.mp hrun
      obtain ⟨t₁, ht₁, h₁⟩ := hstep s t e s₁ h hs₁
      obtain ⟨t', hrun', h'⟩ := ih h₁ hrest
      exact ⟨t', by rw [runSteps, ht₁, Option.bind_some, hrun'], h'⟩

theorem runSteps_append (s : σ) (es es' : List ε) :
    runSteps step s (es ++ es') = (runSteps step s es).bind fun s' => runSteps step s' es' := by
  induction es generalizing s with
  | nil => rfl
  | cons e es ih =>
      cases hs : step s e with
      | none => simp [runSteps, hs]
      | some s₁ => simp [runSteps, hs, ih]

theorem Reaches.refl (s : σ) : Reaches step s s := ⟨[], rfl⟩

theorem Reaches.next {s' s'' : σ} {e : ε} (h : Reaches step s s') (hstep : step s' e = some s'') :
    Reaches step s s'' := by
  obtain ⟨es, hrun⟩ := h
  refine ⟨es ++ [e], ?_⟩
  rw [runSteps_append, hrun]
  simp [runSteps, hstep]

end Lib
end Qutty
