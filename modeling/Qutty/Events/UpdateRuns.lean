import Qutty.Events.Updates

/-!
# No update is lost

While an update of the window is pending, a callback or the timer of the cooldown will come for
it (`run_updates`).  The functions look at the flags of the terminal only, and `term_timer`
compares its argument with four times, so that each of them has to be that of a timer that is set
as long as its flag is (`Timed`).  While `term_timer` runs, this may be wrong for those of the
four that it has still to look at.

During the cooldown no callback paints, and it ends only when `term_timer` is called with its
time (`run_throttled`).
-/

namespace Qutty
namespace Events

open Lib

section Waiting

variable {w : Nat} {φ γ : Type} [LinearOrder φ] [LinearOrder γ]
variable {m m' : Timing w φ γ} {fn : φ} {ctx : γ} {now : BitVec w}

/-- A timer is set for a function at a time. -/
def Timing.Waits (m : Timing w φ γ) (fn : φ) (ctx : γ) (now : BitVec w) : Prop :=
  ∃ t ∈ m.timers, t.fn = fn ∧ t.ctx = ctx ∧ t.now = now

/-- The context has not been given up, so that its timers are not dropped. -/
def Timing.Knows (m : Timing w φ γ) (ctx : γ) : Prop :=
  ∀ t ∈ m.timers, t.ctx = ctx → ctx ∈ m.timerContexts

theorem compareTimers_eq {now : BitVec w} {t u : Timer w φ γ}
    (h : Timing.compareTimers now t u = .eq) : u.fn = t.fn ∧ u.ctx = t.ctx ∧ u.now = t.now := by
  simp only [Timing.compareTimers] at h
  split_ifs at h with hlt hgt hfn hfn' hctx hctx'
  refine ⟨le_antisymm (not_lt.mp hfn) (not_lt.mp hfn'),
    le_antisymm (not_lt.mp hctx) (not_lt.mp hctx'), ?_⟩
  have hint : (t.now - now).toInt = (u.now - now).toInt :=
    le_antisymm (not_lt.mp hgt) (not_lt.mp hlt)
  have hsub : t.now - now = u.now - now := BitVec.eq_of_toInt_eq hint
  calc u.now = u.now - now + now := (BitVec.sub_add_cancel _ _).symm
    _ = t.now - now + now := by rw [hsub]
    _ = t.now := BitVec.sub_add_cancel _ _

/-- The timer that `schedule_timer` makes, and where it goes. -/
theorem scheduleTimer_timers (m : Timing w φ γ) (ticks : Int) (fn : φ) (ctx : γ) :
    (m.scheduleTimer ticks fn ctx).timers =
      (insertBy (Timing.compareTimers m.getTickCount)
        ⟨fn, ctx, m.when ticks, m.getTickCount⟩ m.timers).1 := by
  simp only [Timing.scheduleTimer, Timing.startTimerForTick, apply_ite Timing.timers, ite_self]
  rfl

/-- The function will be called at the time that `schedule_timer` has returned. -/
theorem waits_scheduleTimer (m : Timing w φ γ) (ticks : Int) (fn : φ) (ctx : γ) :
    (m.scheduleTimer ticks fn ctx).Waits fn ctx (m.when ticks) := by
  rw [Timing.Waits, scheduleTimer_timers]
  generalize ht : (⟨fn, ctx, m.when ticks, m.getTickCount⟩ : Timer w φ γ) = t
  cases hnew : (insertBy (Timing.compareTimers m.getTickCount) t m.timers).2 with
  | false =>
      obtain ⟨u, hu, heq⟩ := insertBy_found hnew
      obtain ⟨hfn, hctx, hnow⟩ := compareTimers_eq heq
      rw [← ht] at hfn hctx hnow
      exact ⟨u, mem_insertBy.mpr (.inl hu), hfn, hctx, hnow⟩
  | true =>
      subst ht
      exact ⟨_, mem_insertBy.mpr (.inr ⟨hnew, rfl⟩), rfl, rfl, rfl⟩

theorem calls_scheduleTimer (m : Timing w φ γ) (ticks : Int) (fn : φ) (ctx : γ) :
    (m.scheduleTimer ticks fn ctx).calls = m.calls := by
  simp only [Timing.scheduleTimer, Timing.startTimerForTick]
  split_ifs <;> rfl

theorem Timing.Waits.scheduleTimer (h : m.Waits fn ctx now) (ticks : Int) (fn' : φ) (ctx' : γ) :
    (m.scheduleTimer ticks fn' ctx').Waits fn ctx now := by
  obtain ⟨t, ht, hwaits⟩ := h
  refine ⟨t, ?_, hwaits⟩
  rw [scheduleTimer_timers]
  exact mem_insertBy.mpr (.inl ht)

theorem Timing.Knows.scheduleTimer (h : m.Knows ctx) (ticks : Int) (fn : φ) (ctx' : γ) :
    (m.scheduleTimer ticks fn ctx').Knows ctx := by
  intro t ht hctx
  rw [scheduleTimer_timers, mem_insertBy] at ht
  have hcontexts : (m.scheduleTimer ticks fn ctx').timerContexts =
      if (insertBy (Timing.compareTimers m.getTickCount)
        ⟨fn, ctx', m.when ticks, m.getTickCount⟩ m.timers).2 then insert ctx' m.timerContexts
      else m.timerContexts := by
    simp only [Timing.scheduleTimer, Timing.startTimerForTick, apply_ite Timing.timerContexts,
      ite_self]
    rfl
  rw [hcontexts]
  rcases ht with ht | ⟨hnew, rfl⟩
  · have hold := h t ht hctx
    split_ifs
    · exact Finset.mem_insert_of_mem hold
    · exact hold
  · rw [if_pos hnew, ← hctx]
    exact Finset.mem_insert_self _ _

/-- A step leaves a timer, or calls its function. -/
theorem Timing.Waits.step (h : m.Waits fn ctx now) (hknows : m.Knows ctx) {e : TimingEvent φ γ}
    (hstep : timingStep m e = some m') :
    m'.Waits fn ctx now ∨ m'.calls = m.calls ++ [(fn, ctx, now)] := by
  cases e with
  | pass ms =>
      obtain rfl := Option.some.inj hstep
      exact .inl h
  | schedule ticks fn' ctx' =>
      obtain rfl := Option.some.inj hstep
      exact .inl (h.scheduleTimer ticks fn' ctx')
  | expire ctx' =>
      obtain rfl := Option.some.inj hstep
      exact .inl h
  | timerEvent =>
      obtain ⟨-, rfl⟩ := Option.ite_none_right_eq_some.mp hstep |>.imp_right Option.some.inj
      exact .inl h
  | round =>
      obtain ⟨-, rfl⟩ := Option.ite_none_right_eq_some.mp hstep |>.imp_right Option.some.inj
      obtain ⟨timers, contexts, now', clock, timerId, running, calls⟩ := m
      obtain ⟨t, ht, hwaits⟩ := h
      cases timers with
      | nil => exact absurd ht (by simp)
      | cons first rest =>
          simp only [Timing.round]
          rcases List.mem_cons.mp ht with rfl | ht
          · obtain ⟨rfl, rfl, rfl⟩ := hwaits
            rw [if_neg (not_not.mpr (hknows t List.mem_cons_self rfl))]
            split_ifs
            · exact .inr rfl
            · exact .inl ⟨t, List.mem_cons_self, rfl, rfl, rfl⟩
          · refine .inl ?_
            split_ifs
            · exact ⟨t, ht, hwaits⟩
            · exact ⟨t, List.mem_cons_of_mem _ ht, hwaits⟩
            · exact ⟨t, ht, hwaits⟩

theorem Timing.Knows.step (h : m.Knows ctx) {e : TimingEvent φ γ} (he : e ≠ .expire ctx)
    (hstep : timingStep m e = some m') : m'.Knows ctx := by
  cases e with
  | pass ms =>
      obtain rfl := Option.some.inj hstep
      exact h
  | schedule ticks fn' ctx' =>
      obtain rfl := Option.some.inj hstep
      exact h.scheduleTimer ticks fn' ctx'
  | expire ctx' =>
      obtain rfl := Option.some.inj hstep
      have hne : ctx ≠ ctx' := fun heq => he (by rw [heq])
      exact fun t ht hctx => Finset.mem_erase.mpr ⟨hne, h t ht hctx⟩
  | timerEvent =>
      obtain ⟨-, rfl⟩ := Option.ite_none_right_eq_some.mp hstep |>.imp_right Option.some.inj
      exact h
  | round =>
      obtain ⟨-, rfl⟩ := Option.ite_none_right_eq_some.mp hstep |>.imp_right Option.some.inj
      obtain ⟨timers, contexts, now', clock, timerId, running, calls⟩ := m
      cases timers with
      | nil => exact h
      | cons first rest =>
          simp only [Timing.round]
          split_ifs
          · exact fun t ht => h t (List.mem_cons_of_mem _ ht)
          · exact h
          · exact fun t ht => h t (List.mem_cons_of_mem _ ht)

/-- A step calls one function at most. -/
theorem calls_step {e : TimingEvent φ γ} (hstep : timingStep m e = some m') :
    m'.calls = m.calls ∨ ∃ call, m'.calls = m.calls ++ [call] := by
  cases e with
  | pass ms =>
      obtain rfl := Option.some.inj hstep
      exact .inl rfl
  | schedule ticks fn' ctx' =>
      obtain rfl := Option.some.inj hstep
      exact .inl (calls_scheduleTimer m ticks fn' ctx')
  | expire ctx' =>
      obtain rfl := Option.some.inj hstep
      exact .inl rfl
  | timerEvent =>
      obtain ⟨-, rfl⟩ := Option.ite_none_right_eq_some.mp hstep |>.imp_right Option.some.inj
      exact .inl rfl
  | round =>
      obtain ⟨-, rfl⟩ := Option.ite_none_right_eq_some.mp hstep |>.imp_right Option.some.inj
      obtain ⟨timers, contexts, now', clock, timerId, running, calls⟩ := m
      cases timers with
      | nil => exact .inl rfl
      | cons first rest =>
          simp only [Timing.round]
          split_ifs
          · exact .inr ⟨_, rfl⟩
          · exact .inl rfl
          · exact .inl rfl

end Waiting

/-- The timers of the terminal. -/
inductive Alarm where
  | tblink
  | cblink
  | vbell
  | cooldown
deriving DecidableEq

section Invariant

variable {w : Nat} {φ γ : Type} [LinearOrder φ] [LinearOrder γ]
variable {a : UpdateSetup φ γ} {s s' : Screen w φ γ} {al : Alarm} {late : List Alarm}
  {now : BitVec w}

namespace Screen

/-- The terminal waits for a timer. -/
def on (s : Screen w φ γ) : Alarm → Bool
  | .tblink => s.tblinkPending
  | .cblink => s.cblinkPending
  | .vbell => s.inVbell
  | .cooldown => s.windowUpdateCooldown

/-- The time that `term_timer` compares with. -/
def due (s : Screen w φ γ) : Alarm → BitVec w
  | .tblink => s.nextTblink
  | .cblink => s.nextCblink
  | .vbell => s.vbellEnd
  | .cooldown => s.windowUpdateCooldownEnd

/-- For what the terminal waits there is a timer, but for those of some that are due now. -/
structure Timed (a : UpdateSetup φ γ) (s : Screen w φ γ) (late : List Alarm) (now : BitVec w) :
    Prop where
  waits : ∀ al, s.on al = true →
    s.timing.Waits a.termTimer a.term (s.due al) ∨ (al ∈ late ∧ now = s.due al)
  knows : s.timing.Knows a.term

omit [LinearOrder φ] [LinearOrder γ] in
theorem Timed.congr (h : s.Timed a late now) (htiming : s'.timing = s.timing) (hon : s'.on = s.on)
    (hdue : s'.due = s.due) : s'.Timed a late now := by
  refine ⟨fun al hal => ?_, htiming ▸ h.knows⟩
  rw [hon] at hal
  rw [htiming, hdue]
  exact h.waits al hal

omit [LinearOrder φ] [LinearOrder γ] in
/-- An alarm is changed and the others are as before. -/
theorem Timed.replace (h : s.Timed a (al :: late) now) (hknows : s'.timing.Knows a.term)
    (hkept : ∀ d, s.timing.Waits a.termTimer a.term d → s'.timing.Waits a.termTimer a.term d)
    (hother : ∀ b, b ≠ al → s'.on b = s.on b ∧ s'.due b = s.due b)
    (hal : s'.on al = true → s'.timing.Waits a.termTimer a.term (s'.due al)) :
    s'.Timed a late now := by
  refine ⟨fun b hb => ?_, hknows⟩
  by_cases heq : b = al
  · subst heq
    exact .inl (hal hb)
  · obtain ⟨hon, hdue⟩ := hother b heq
    rw [hon] at hb
    rw [hdue]
    exact (h.waits b hb).imp (hkept _) fun hlate =>
      ⟨(List.mem_cons.mp hlate.1).resolve_left heq, hlate.2⟩

omit [LinearOrder φ] [LinearOrder γ] in
theorem Timed.weaken (h : s.Timed a late now) (al : Alarm) : s.Timed a (al :: late) now :=
  ⟨fun b hb => (h.waits b hb).imp_right fun hlate => ⟨List.mem_cons_of_mem _ hlate.1, hlate.2⟩,
    h.knows⟩

/-- An alarm is set. -/
theorem Timed.set (h : s.Timed a (al :: late) now) (ticks : Int)
    (htiming : s'.timing = s.timing.scheduleTimer ticks a.termTimer a.term)
    (hdue : s'.due al = s.timing.when ticks)
    (hother : ∀ b, b ≠ al → s'.on b = s.on b ∧ s'.due b = s.due b) : s'.Timed a late now := by
  refine h.replace ?_ (fun d hd => ?_) hother fun _ => ?_
  · rw [htiming]
    exact h.knows.scheduleTimer ticks _ _
  · rw [htiming]
    exact hd.scheduleTimer ticks _ _
  · rw [htiming, hdue]
    exact waits_scheduleTimer _ ticks _ _

omit [LinearOrder φ] [LinearOrder γ] in
/-- An alarm is given up. -/
theorem Timed.unset (h : s.Timed a (al :: late) now) (htiming : s'.timing = s.timing)
    (hoff : s'.on al = false) (hother : ∀ b, b ≠ al → s'.on b = s.on b ∧ s'.due b = s.due b) :
    s'.Timed a late now := by
  refine h.replace (htiming ▸ h.knows) (fun d hd => htiming ▸ hd) hother fun hon => ?_
  rw [hoff] at hon
  exact absurd hon (by simp)

omit [LinearOrder φ] [LinearOrder γ] in
/-- An alarm is not due now. -/
theorem Timed.skip (h : s.Timed a (al :: late) now) (hnot : ¬(s.on al = true ∧ now = s.due al)) :
    s.Timed a late now :=
  h.replace h.knows (fun _ hd => hd) (fun _ _ => ⟨rfl, rfl⟩) fun hon =>
    (h.waits al hon).resolve_right fun hlate => hnot ⟨hon, hlate.2⟩

theorem Timed.scheduleTblink (h : s.Timed a late now) :
    (s.termScheduleTblink a).Timed a late now := by
  simp only [termScheduleTblink]
  split_ifs
  · exact h
  · exact (h.weaken .tblink).set tblinkDelay rfl rfl fun b hb => by
      cases b <;> simp_all [on, due, setTimer]
  · exact (h.weaken .tblink).unset rfl rfl fun b hb => by cases b <;> simp_all [on, due]

theorem Timed.scheduleCblink (h : s.Timed a late now) :
    (s.termScheduleCblink a).Timed a late now := by
  simp only [termScheduleCblink]
  split_ifs
  · exact h
  · exact (h.weaken .cblink).set a.cursorblink rfl rfl fun b hb => by
      cases b <;> simp_all [on, due, setTimer]
  · exact (h.weaken .cblink).unset rfl rfl fun b hb => by cases b <;> simp_all [on, due]

theorem Timed.scheduleVbell (h : s.Timed a late now) (ticksAlreadyGone : Int) :
    (s.termScheduleVbell a ticksAlreadyGone).Timed a late now := by
  simp only [termScheduleVbell]
  split_ifs
  · exact (h.weaken .vbell).set (vbellDelay - ticksAlreadyGone) rfl rfl fun b hb => by
      cases b <;> simp_all [on, due, setTimer]
  · exact (h.weaken .vbell).unset rfl rfl fun b hb => by cases b <;> simp_all [on, due]

theorem Timed.updateCallback (h : s.Timed a late now) :
    (s.termUpdateCallback a).Timed a late now := by
  simp only [termUpdateCallback]
  split_ifs
  · exact h
  · exact (h.weaken .cooldown).set updateDelay rfl rfl fun b hb => by
      cases b <;> simp_all [on, due, setTimer, termUpdate]
  · exact h

theorem Timed.timeTblink (h : s.Timed a (.tblink :: late) now) :
    (s.timeTblink a now).Timed a late now := by
  simp only [Screen.timeTblink]
  split_ifs with hdue
  · have hoff : ({ s with tblinker := !s.tblinker, tblinkPending := false }).Timed a late now :=
      h.unset rfl rfl fun b hb => by cases b <;> simp_all [on, due]
    exact hoff.scheduleTblink.congr rfl rfl rfl
  · exact h.skip hdue

theorem Timed.timeCblink (h : s.Timed a (.cblink :: late) now) :
    (s.timeCblink a now).Timed a late now := by
  simp only [Screen.timeCblink]
  split_ifs with hdue
  · have hoff : ({ s with cblinker := !s.cblinker, cblinkPending := false }).Timed a late now :=
      h.unset rfl rfl fun b hb => by cases b <;> simp_all [on, due]
    exact hoff.scheduleCblink.congr rfl rfl rfl
  · exact h.skip hdue

omit [LinearOrder φ] [LinearOrder γ] in
theorem Timed.timeVbell (h : s.Timed a (.vbell :: late) now) :
    (s.timeVbell now).Timed a late now := by
  simp only [Screen.timeVbell]
  split_ifs with hdue
  · exact h.unset rfl rfl fun b hb => by cases b <;> simp_all [on, due]
  · exact h.skip hdue

omit [LinearOrder φ] [LinearOrder γ] in
theorem Timed.timeCooldown (h : s.Timed a (.cooldown :: late) now) :
    (s.timeCooldown now).Timed a late now := by
  simp only [Screen.timeCooldown]
  split_ifs with hdue
  · exact h.unset rfl rfl fun b hb => by cases b <;> simp_all [on, due]
  · exact h.skip hdue

/-- `term_timer` takes care of everything that is due. -/
theorem Timed.termTimer (h : s.Timed a [.tblink, .cblink, .vbell, .cooldown] now) :
    (s.termTimer a now).Timed a [] now :=
  h.timeTblink.timeCblink.timeVbell.timeCooldown.updateCallback

/-- What is left alone when an alarm goes off. -/
structure SameCooldown (s s' : Screen w φ γ) : Prop where
  cooldown : s'.windowUpdateCooldown = s.windowUpdateCooldown
  cooldownEnd : s'.windowUpdateCooldownEnd = s.windowUpdateCooldownEnd
  updates : s'.updates = s.updates
  callbacks : s'.callbacks = s.callbacks
  calls : s'.timing.calls = s.timing.calls

/-- What is left alone when an alarm is set. -/
structure SameUpdates (s s' : Screen w φ γ) : Prop extends SameCooldown s s' where
  pending : s'.windowUpdatePending = s.windowUpdatePending

omit [LinearOrder φ] [LinearOrder γ] in
theorem SameCooldown.trans {s'' : Screen w φ γ} (h : SameCooldown s s')
    (h' : SameCooldown s' s'') : SameCooldown s s'' :=
  ⟨h'.cooldown.trans h.cooldown, h'.cooldownEnd.trans h.cooldownEnd,
    h'.updates.trans h.updates, h'.callbacks.trans h.callbacks, h'.calls.trans h.calls⟩

theorem same_scheduleTblink : SameUpdates s (s.termScheduleTblink a) := by
  simp only [termScheduleTblink]
  split_ifs
  · exact ⟨⟨rfl, rfl, rfl, rfl, rfl⟩, rfl⟩
  · exact ⟨⟨rfl, rfl, rfl, rfl, calls_scheduleTimer ..⟩, rfl⟩
  · exact ⟨⟨rfl, rfl, rfl, rfl, rfl⟩, rfl⟩

theorem same_scheduleCblink : SameUpdates s (s.termScheduleCblink a) := by
  simp only [termScheduleCblink]
  split_ifs
  · exact ⟨⟨rfl, rfl, rfl, rfl, rfl⟩, rfl⟩
  · exact ⟨⟨rfl, rfl, rfl, rfl, calls_scheduleTimer ..⟩, rfl⟩
  · exact ⟨⟨rfl, rfl, rfl, rfl, rfl⟩, rfl⟩

theorem same_scheduleVbell (ticksAlreadyGone : Int) :
    SameUpdates s (s.termScheduleVbell a ticksAlreadyGone) := by
  simp only [termScheduleVbell]
  split_ifs
  · exact ⟨⟨rfl, rfl, rfl, rfl, calls_scheduleTimer ..⟩, rfl⟩
  · exact ⟨⟨rfl, rfl, rfl, rfl, rfl⟩, rfl⟩

theorem same_timeTblink (now : BitVec w) : SameCooldown s (s.timeTblink a now) := by
  simp only [Screen.timeTblink]
  split_ifs
  · have hsame := same_scheduleTblink (a := a)
      (s := { s with tblinker := !s.tblinker, tblinkPending := false })
    exact ⟨hsame.cooldown, hsame.cooldownEnd, hsame.updates, hsame.callbacks, hsame.calls⟩
  · exact ⟨rfl, rfl, rfl, rfl, rfl⟩

theorem same_timeCblink (now : BitVec w) : SameCooldown s (s.timeCblink a now) := by
  simp only [Screen.timeCblink]
  split_ifs
  · have hsame := same_scheduleCblink (a := a)
      (s := { s with cblinker := !s.cblinker, cblinkPending := false })
    exact ⟨hsame.cooldown, hsame.cooldownEnd, hsame.updates, hsame.callbacks, hsame.calls⟩
  · exact ⟨rfl, rfl, rfl, rfl, rfl⟩

omit [LinearOrder φ] [LinearOrder γ] in
theorem same_timeVbell (now : BitVec w) : SameCooldown s (s.timeVbell now) := by
  simp only [Screen.timeVbell]
  split_ifs <;> exact ⟨rfl, rfl, rfl, rfl, rfl⟩

/-- Blinking and the bell leave the cooldown alone. -/
theorem same_timeAlarms (now : BitVec w) :
    SameCooldown s (((s.timeTblink a now).timeCblink a now).timeVbell now) :=
  ((same_timeTblink now).trans (same_timeCblink now)).trans (same_timeVbell now)

/-- An update that is still pending waits for the cooldown. -/
theorem cooldown_of_pending (h : (s.termUpdateCallback a).windowUpdatePending = true) :
    (s.termUpdateCallback a).windowUpdateCooldown = true := by
  simp only [termUpdateCallback] at h ⊢
  split_ifs at h ⊢ with hpending hcooldown
  · rw [hpending] at h
    exact absurd h (by simp)
  · rfl
  · exact Bool.eq_true_of_not_eq_false hcooldown

theorem kept_termUpdateCallback : (s.termUpdateCallback a).callbacks = s.callbacks ∧
    (s.termUpdateCallback a).timing.calls = s.timing.calls := by
  simp only [termUpdateCallback]
  split_ifs
  · exact ⟨rfl, rfl⟩
  · exact ⟨rfl, calls_scheduleTimer ..⟩
  · exact ⟨rfl, rfl⟩

theorem kept_termTimer (now : BitVec w) : (s.termTimer a now).callbacks = s.callbacks ∧
    (s.termTimer a now).timing.calls = s.timing.calls := by
  have hsame := same_timeAlarms (a := a) (s := s) now
  rw [Screen.termTimer]
  generalize ((s.timeTblink a now).timeCblink a now).timeVbell now = s₁ at hsame ⊢
  have hcooldown : (s₁.timeCooldown now).callbacks = s₁.callbacks ∧
      (s₁.timeCooldown now).timing.calls = s₁.timing.calls := by
    simp only [Screen.timeCooldown]
    split_ifs <;> exact ⟨rfl, rfl⟩
  have hcallback := kept_termUpdateCallback (a := a) (s := s₁.timeCooldown now)
  exact ⟨hcallback.1.trans (hcooldown.1.trans hsame.callbacks),
    hcallback.2.trans (hcooldown.2.trans hsame.calls)⟩

/-- **The timer of the cooldown** paints what is pending. -/
theorem termTimer_cooldownEnd :
    (s.termTimer a s.windowUpdateCooldownEnd).windowUpdatePending = false := by
  obtain ⟨hcooldown, hend, -⟩ := same_timeAlarms (a := a) (s := s) s.windowUpdateCooldownEnd
  rw [Screen.termTimer]
  generalize ((s.timeTblink a s.windowUpdateCooldownEnd).timeCblink a
    s.windowUpdateCooldownEnd).timeVbell s.windowUpdateCooldownEnd = s₁ at hcooldown hend ⊢
  have hover : (s₁.timeCooldown s.windowUpdateCooldownEnd).windowUpdateCooldown = false := by
    simp only [Screen.timeCooldown]
    split_ifs with hdue
    · rfl
    · by_contra hon
      exact hdue ⟨by simpa using hon, hend.symm⟩
  by_contra hpending
  have hstill := cooldown_of_pending (Bool.eq_true_of_not_eq_false hpending)
  simp only [termUpdateCallback, hover] at hpending
  split_ifs at hpending with hnone
  · exact hpending hnone
  · exact hpending rfl

/-- No update is forgotten. -/
structure Tended (a : UpdateSetup φ γ) (s : Screen w φ γ) : Prop where
  timed : s.Timed a [] 0
  queued : s.windowUpdatePending = true →
    ⟨.other a.termUpdateCallback, a.term⟩ ∈ s.callbacks.queue ∨ s.windowUpdateCooldown = true
  orderly : s.callbacks.Orderly

omit [LinearOrder φ] [LinearOrder γ] in
theorem Timed.any (h : s.Timed a [] now) (now' : BitVec w) : s.Timed a [] now' :=
  ⟨fun al hal => .inl ((h.waits al hal).resolve_right fun hlate => absurd hlate.1 (by simp)),
    h.knows⟩

theorem Tended.of_same (h : s.Tended a) (htimed : s'.Timed a [] 0) (hsame : SameUpdates s s') :
    s'.Tended a := by
  refine ⟨htimed, fun hpending => ?_, hsame.callbacks ▸ h.orderly⟩
  rw [hsame.pending] at hpending
  rw [hsame.cooldown, hsame.callbacks]
  exact h.queued hpending

theorem Tended.scheduleUpdate (h : s.Tended a) : (s.termScheduleUpdate a).Tended a := by
  simp only [termScheduleUpdate]
  split_ifs
  · exact ⟨h.timed.congr rfl rfl rfl, fun _ => .inl (List.mem_append_right _ List.mem_cons_self),
      h.orderly.queue _ _⟩
  · exact h

theorem Tended.termStep (h : s.Tended a) (e : TermEvent) : (s.termStep a e).Tended a := by
  cases e with
  | dispEvent =>
      have hoff : ({ s with cblinker := true, cblinkPending := false }).Timed a [] 0 :=
        (h.timed.weaken .cblink).unset rfl rfl fun b hb => by cases b <;> simp_all [on, due]
      have hsame := same_scheduleCblink (a := a)
        (s := { s with cblinker := true, cblinkPending := false })
      exact (h.of_same hoff.scheduleCblink
        ⟨⟨hsame.cooldown, hsame.cooldownEnd, hsame.updates, hsame.callbacks, hsame.calls⟩,
          hsame.pending⟩).scheduleUpdate
  | scheduleUpdate => exact h.scheduleUpdate
  | blinkText real =>
      have hreal : ({ s with blinkIsReal := real }).Tended a :=
        h.of_same (h.timed.congr rfl rfl rfl) ⟨⟨rfl, rfl, rfl, rfl, rfl⟩, rfl⟩
      exact hreal.of_same hreal.timed.scheduleTblink same_scheduleTblink
  | blinkCursor blinks =>
      have hblinks : ({ s with blinkCur := blinks }).Tended a :=
        h.of_same (h.timed.congr rfl rfl rfl) ⟨⟨rfl, rfl, rfl, rfl, rfl⟩, rfl⟩
      exact hblinks.of_same hblinks.timed.scheduleCblink same_scheduleCblink
  | setFocus hasFocus =>
      have hfocus : ({ s with hasFocus := hasFocus }).Tended a :=
        h.of_same (h.timed.congr rfl rfl rfl) ⟨⟨rfl, rfl, rfl, rfl, rfl⟩, rfl⟩
      exact hfocus.of_same hfocus.timed.scheduleCblink same_scheduleCblink
  | vbell ticksAlreadyGone =>
      exact h.of_same (h.timed.scheduleVbell ticksAlreadyGone) (same_scheduleVbell ticksAlreadyGone)
  | update =>
      exact ⟨h.timed.congr rfl rfl rfl,
        fun hpending => absurd hpending (by simp [Screen.termStep, termUpdate]), h.orderly⟩

/-- A step of the timers leaves those that the terminal waits for, or calls `term_timer` with the
time of one. -/
theorem Timed.step (h : s.Timed a [] 0) {e : TimingEvent φ γ} {m : Timing w φ γ}
    (hstep : timingStep s.timing e = some m) (hal : s.on al = true) :
    m.Waits a.termTimer a.term (s.due al) ∨
      m.calls = s.timing.calls ++ [(a.termTimer, a.term, s.due al)] :=
  ((h.waits al hal).resolve_right fun hlate => absurd hlate.1 (by simp)).step h.knows hstep

theorem Tended.timing (h : s.Tended a) {e : TimingEvent φ γ} (he : e ≠ .expire a.term)
    {m : Timing w φ γ} (hstep : timingStep s.timing e = some m) :
    (s.afterTiming a m).Tended a := by
  have hknows := h.timed.knows.step he hstep
  -- if `term_timer` is not called, no timer of the terminal has gone
  have hquiet (hnone : ∀ d, m.calls ≠ s.timing.calls ++ [(a.termTimer, a.term, d)]) :
      ({ s with timing := m }).Tended a :=
    ⟨⟨fun al (hal : s.on al = true) => .inl ((h.timed.step hstep hal).resolve_right (hnone _)),
      hknows⟩, h.queued, h.orderly⟩
  rcases calls_step hstep with hcalls | ⟨⟨fn, ctx, now⟩, hcalls⟩
  · have hdrop : m.calls.drop s.timing.calls.length = [] := by simp [hcalls]
    simp only [afterTiming, hdrop]
    refine hquiet fun d hcall => ?_
    rw [hcalls] at hcall
    simp at hcall
  · have hdrop : m.calls.drop s.timing.calls.length = [(fn, ctx, now)] := by simp [hcalls]
    have hcall : ∀ d, m.calls = s.timing.calls ++ [(a.termTimer, a.term, d)] →
        fn = a.termTimer ∧ ctx = a.term ∧ now = d := fun d hd => by
      rw [hcalls] at hd
      simpa using hd
    simp only [afterTiming, hdrop]
    split_ifs with hours
    · have htimed : ({ s with timing := m }).Timed a [.tblink, .cblink, .vbell, .cooldown] now :=
        ⟨fun al (hal : s.on al = true) => (h.timed.step hstep hal).imp_right fun hd =>
          ⟨by cases al <;> simp, (hcall _ hd).2.2⟩, hknows⟩
      refine ⟨htimed.termTimer.any 0, fun hpending => .inr (cooldown_of_pending hpending), ?_⟩
      rw [(kept_termTimer now).1]
      exact h.orderly
    · exact hquiet fun d hd => hours ⟨(hcall d hd).1, (hcall d hd).2.1⟩

theorem Tended.callback (h : s.Tended a) {e : CallbackEvent φ γ} (he : e ≠ .delete a.term)
    {c : Callbacks φ γ} (hstep : callbackStep s.callbacks e = some c) :
    (s.afterCallbacks a c).Tended a := by
  have horderly := h.orderly.step hstep
  have hqueued : s.windowUpdatePending = true →
      (⟨.other a.termUpdateCallback, a.term⟩ ∈ c.queue ∨ s.windowUpdateCooldown = true) ∨
        c.calls = s.callbacks.calls ++ [⟨.other a.termUpdateCallback, a.term⟩] := fun hpending => by
    rcases h.queued hpending with hmem | hcooldown
    · rcases Callbacks.mem_step hmem he hstep with hmem | hcall
      · exact .inl (.inl hmem)
      · exact .inr hcall
    · exact .inl (.inr hcooldown)
  rcases Callbacks.calls_step hstep with hcalls | ⟨cb, hcalls⟩
  · have hdrop : c.calls.drop s.callbacks.calls.length = [] := by simp [hcalls]
    simp only [afterCallbacks, hdrop]
    refine ⟨h.timed.congr rfl rfl rfl, fun hpending => ?_, horderly⟩
    refine (hqueued hpending).resolve_right fun hcall => ?_
    rw [hcalls] at hcall
    simp at hcall
  · have hdrop : c.calls.drop s.callbacks.calls.length = [cb] := by simp [hcalls]
    simp only [afterCallbacks, hdrop]
    have htimed : ({ s with callbacks := c }).Timed a [] 0 := h.timed.congr rfl rfl rfl
    split_ifs with hours
    · refine ⟨htimed.updateCallback, fun hpending => .inr (cooldown_of_pending hpending), ?_⟩
      rw [kept_termUpdateCallback.1]
      exact horderly
    · refine ⟨htimed, fun hpending => (hqueued hpending).resolve_right fun hcall => hours ?_,
        horderly⟩
      rw [hcalls] at hcall
      simpa using hcall

/-- A step, in which the terminal is not freed. -/
theorem Tended.step (h : s.Tended a) {e : ScreenEvent φ γ}
    (he : e ≠ .timing (.expire a.term) ∧ e ≠ .callback (.delete a.term))
    (hstep : screenStep a s e = some s') : s'.Tended a := by
  cases e with
  | term e =>
      obtain ⟨-, rfl⟩ := Option.ite_none_left_eq_some.mp hstep |>.imp_right Option.some.inj
      exact h.termStep e
  | timing e =>
      obtain ⟨-, hmap⟩ := Option.ite_none_left_eq_some.mp hstep
      obtain ⟨m, hm, rfl⟩ := Option.map_eq_some_iff.mp hmap
      exact h.timing (fun heq => he.1 (by rw [heq])) hm
  | callback e =>
      obtain ⟨c, hc, rfl⟩ := Option.map_eq_some_iff.mp hstep
      exact h.callback (fun heq => he.2 (by rw [heq])) hc

theorem tended_start (clock : Nat) (ics : γ → IdempotentCallback φ γ) :
    (start w clock ics).Tended a := by
  refine ⟨⟨fun al hal => ?_, fun t ht => absurd ht (by simp [start, Timing.start])⟩,
    fun hpending => absurd hpending (by simp [start]), Callbacks.orderly_start ics⟩
  cases al <;> exact absurd hal (by simp [start, on])

/-- During the cooldown no callback paints. -/
theorem updateCallback_cooldown (hcooldown : s.windowUpdateCooldown = true) :
    s.termUpdateCallback a = s := by
  rw [termUpdateCallback]
  split_ifs with hpending hover
  · rfl
  · exact absurd (hcooldown.symm.trans hover) (by simp)
  · rfl

/-- `term_timer` leaves a cooldown alone that ends at another time. -/
theorem termTimer_cooldown (hcooldown : s.windowUpdateCooldown = true)
    (hnow : now ≠ s.windowUpdateCooldownEnd) : SameCooldown s (s.termTimer a now) := by
  have hsame := same_timeAlarms (a := a) (s := s) now
  rw [Screen.termTimer]
  generalize ((s.timeTblink a now).timeCblink a now).timeVbell now = s₁ at hsame ⊢
  have hkept : s₁.timeCooldown now = s₁ := by
    rw [Screen.timeCooldown, if_neg]
    rintro ⟨-, hend⟩
    exact hnow (hend.trans hsame.cooldownEnd)
  rw [hkept, updateCallback_cooldown (hsame.cooldown.trans hcooldown)]
  exact hsame

/-- The cooldown goes on, and no callback has painted. -/
def CoolsOn (s s' : Screen w φ γ) : Prop :=
  s'.windowUpdateCooldown = true ∧ s'.windowUpdateCooldownEnd = s.windowUpdateCooldownEnd ∧
    s'.updates = s.updates

omit [LinearOrder φ] [LinearOrder γ] in
theorem SameCooldown.coolsOn (h : SameCooldown s s') (hcooldown : s.windowUpdateCooldown = true) :
    CoolsOn s s' :=
  ⟨h.cooldown.trans hcooldown, h.cooldownEnd, h.updates⟩

theorem coolsOn_termStep (hcooldown : s.windowUpdateCooldown = true) (e : TermEvent) :
    CoolsOn s (s.termStep a e) := by
  cases e with
  | dispEvent =>
      have hsame := same_scheduleCblink (a := a)
        (s := { s with cblinker := true, cblinkPending := false })
      have hcools : CoolsOn s (({ s with cblinker := true, cblinkPending := false } :
          Screen w φ γ).termScheduleCblink a) := hsame.toSameCooldown.coolsOn hcooldown
      simp only [Screen.termStep, seenDispEvent, termScheduleUpdate]
      split_ifs
      · exact hcools
      · exact hcools
  | scheduleUpdate =>
      simp only [Screen.termStep, termScheduleUpdate]
      split_ifs <;> exact ⟨hcooldown, rfl, rfl⟩
  | blinkText real =>
      exact (same_scheduleTblink (a := a) (s := { s with blinkIsReal := real })).coolsOn hcooldown
  | blinkCursor blinks =>
      exact (same_scheduleCblink (a := a) (s := { s with blinkCur := blinks })).coolsOn hcooldown
  | setFocus hasFocus =>
      exact (same_scheduleCblink (a := a) (s := { s with hasFocus := hasFocus })).coolsOn hcooldown
  | vbell ticksAlreadyGone => exact (same_scheduleVbell ticksAlreadyGone).coolsOn hcooldown
  | update => exact ⟨hcooldown, rfl, rfl⟩

/-- `term_timer` calls nothing through `run_timers`. -/
theorem calls_afterTiming (m : Timing w φ γ) : (s.afterTiming a m).timing.calls = m.calls := by
  simp only [afterTiming]
  split
  · split_ifs
    · exact (kept_termTimer _).2
    · rfl
  · rfl

theorem coolsOn_afterTiming (hcooldown : s.windowUpdateCooldown = true) {e : TimingEvent φ γ}
    {m : Timing w φ γ} (hstep : timingStep s.timing e = some m) :
    CoolsOn s (s.afterTiming a m) ∨
      m.calls = s.timing.calls ++ [(a.termTimer, a.term, s.windowUpdateCooldownEnd)] := by
  have hsame : CoolsOn s { s with timing := m } := ⟨hcooldown, rfl, rfl⟩
  rcases calls_step hstep with hcalls | ⟨⟨fn, ctx, now⟩, hcalls⟩
  · have hdrop : m.calls.drop s.timing.calls.length = [] := by simp [hcalls]
    simp only [afterTiming, hdrop]
    exact .inl hsame
  · have hdrop : m.calls.drop s.timing.calls.length = [(fn, ctx, now)] := by simp [hcalls]
    simp only [afterTiming, hdrop]
    split_ifs with hours
    · by_cases hnow : now = s.windowUpdateCooldownEnd
      · exact .inr (by rw [hcalls, hours.1, hours.2, hnow])
      · have hkept := termTimer_cooldown (a := a) (s := { s with timing := m }) hcooldown hnow
        exact .inl (hkept.coolsOn hcooldown)
    · exact .inl hsame

theorem coolsOn_afterCallbacks (hcooldown : s.windowUpdateCooldown = true)
    (c : Callbacks φ γ) : CoolsOn s (s.afterCallbacks a c) := by
  have hsame : CoolsOn s { s with callbacks := c } := ⟨hcooldown, rfl, rfl⟩
  simp only [afterCallbacks]
  split
  · split_ifs
    · rw [updateCallback_cooldown (s := { s with callbacks := c }) hcooldown]
      exact hsame
    · exact hsame
  · exact hsame

section Parts

variable {m₀ : Timing w φ γ} {c₀ : Callbacks φ γ}

/-- The timers of the program are in a state that steps of their own lead to, and so are the
callbacks. -/
structure Parts (m₀ : Timing w φ γ) (c₀ : Callbacks φ γ) (s : Screen w φ γ) : Prop where
  timing : Reaches timingStep m₀ s.timing
  callbacks : Reaches callbackStep c₀ s.callbacks

theorem reaches_scheduleTimer {m : Timing w φ γ} (h : Reaches timingStep m₀ m) (ticks : Int)
    (fn : φ) (ctx : γ) : Reaches timingStep m₀ (m.scheduleTimer ticks fn ctx) :=
  h.next (e := .schedule ticks fn ctx) rfl

theorem Parts.scheduleTblink (h : s.Parts m₀ c₀) : (s.termScheduleTblink a).Parts m₀ c₀ := by
  simp only [termScheduleTblink]
  split_ifs
  · exact h
  · exact ⟨reaches_scheduleTimer h.timing _ _ _, h.callbacks⟩
  · exact ⟨h.timing, h.callbacks⟩

theorem Parts.scheduleCblink (h : s.Parts m₀ c₀) : (s.termScheduleCblink a).Parts m₀ c₀ := by
  simp only [termScheduleCblink]
  split_ifs
  · exact h
  · exact ⟨reaches_scheduleTimer h.timing _ _ _, h.callbacks⟩
  · exact ⟨h.timing, h.callbacks⟩

theorem Parts.scheduleVbell (h : s.Parts m₀ c₀) (ticksAlreadyGone : Int) :
    (s.termScheduleVbell a ticksAlreadyGone).Parts m₀ c₀ := by
  simp only [termScheduleVbell]
  split_ifs
  · exact ⟨reaches_scheduleTimer h.timing _ _ _, h.callbacks⟩
  · exact ⟨h.timing, h.callbacks⟩

theorem Parts.scheduleUpdate (h : s.Parts m₀ c₀)
    (hframes : s.callbacks.frames.head? ≠ some .loop) :
    (s.termScheduleUpdate a).Parts m₀ c₀ := by
  simp only [termScheduleUpdate]
  split_ifs
  · exact ⟨h.timing, h.callbacks.next (e := .queue a.termUpdateCallback a.term) (if_neg hframes)⟩
  · exact h

theorem Parts.updateCallback (h : s.Parts m₀ c₀) : (s.termUpdateCallback a).Parts m₀ c₀ := by
  simp only [termUpdateCallback]
  split_ifs
  · exact h
  · exact ⟨reaches_scheduleTimer h.timing _ _ _, h.callbacks⟩
  · exact h

theorem Parts.timeTblink (h : s.Parts m₀ c₀) : (s.timeTblink a now).Parts m₀ c₀ := by
  simp only [Screen.timeTblink]
  split_ifs
  · have hoff : ({ s with tblinker := !s.tblinker, tblinkPending := false }).Parts m₀ c₀ :=
      ⟨h.timing, h.callbacks⟩
    exact ⟨hoff.scheduleTblink.timing, hoff.scheduleTblink.callbacks⟩
  · exact h

theorem Parts.timeCblink (h : s.Parts m₀ c₀) : (s.timeCblink a now).Parts m₀ c₀ := by
  simp only [Screen.timeCblink]
  split_ifs
  · have hoff : ({ s with cblinker := !s.cblinker, cblinkPending := false }).Parts m₀ c₀ :=
      ⟨h.timing, h.callbacks⟩
    exact ⟨hoff.scheduleCblink.timing, hoff.scheduleCblink.callbacks⟩
  · exact h

theorem Parts.termTimer (h : s.Parts m₀ c₀) : (s.termTimer a now).Parts m₀ c₀ := by
  have hblinks : ((s.timeTblink a now).timeCblink a now).Parts m₀ c₀ := h.timeTblink.timeCblink
  refine Parts.updateCallback ?_
  simp only [Screen.timeCooldown, Screen.timeVbell]
  split_ifs <;> exact ⟨hblinks.timing, hblinks.callbacks⟩

theorem Parts.termStep (h : s.Parts m₀ c₀) (hframes : s.callbacks.frames.head? ≠ some .loop)
    (e : TermEvent) : (s.termStep a e).Parts m₀ c₀ := by
  cases e with
  | dispEvent =>
      have hoff : ({ s with cblinker := true, cblinkPending := false }).Parts m₀ c₀ :=
        ⟨h.timing, h.callbacks⟩
      have hsame := same_scheduleCblink (a := a)
        (s := { s with cblinker := true, cblinkPending := false })
      exact hoff.scheduleCblink.scheduleUpdate (by rwa [hsame.callbacks])
  | scheduleUpdate => exact h.scheduleUpdate hframes
  | blinkText real =>
      have hreal : ({ s with blinkIsReal := real }).Parts m₀ c₀ := ⟨h.timing, h.callbacks⟩
      exact hreal.scheduleTblink
  | blinkCursor blinks =>
      have hblinks : ({ s with blinkCur := blinks }).Parts m₀ c₀ := ⟨h.timing, h.callbacks⟩
      exact hblinks.scheduleCblink
  | setFocus hasFocus =>
      have hfocus : ({ s with hasFocus := hasFocus }).Parts m₀ c₀ := ⟨h.timing, h.callbacks⟩
      exact hfocus.scheduleCblink
  | vbell ticksAlreadyGone => exact h.scheduleVbell ticksAlreadyGone
  | update => exact ⟨h.timing, h.callbacks⟩

theorem Parts.step (h : s.Parts m₀ c₀) {e : ScreenEvent φ γ} (hstep : screenStep a s e = some s') :
    s'.Parts m₀ c₀ := by
  cases e with
  | term e =>
      obtain ⟨hframes, rfl⟩ := Option.ite_none_left_eq_some.mp hstep |>.imp_right Option.some.inj
      exact h.termStep hframes e
  | timing e =>
      obtain ⟨-, hmap⟩ := Option.ite_none_left_eq_some.mp hstep
      obtain ⟨m, hm, rfl⟩ := Option.map_eq_some_iff.mp hmap
      have hnext : ({ s with timing := m }).Parts m₀ c₀ := ⟨h.timing.next hm, h.callbacks⟩
      simp only [afterTiming]
      split
      · split_ifs
        · exact hnext.termTimer
        · exact hnext
      · exact hnext
  | callback e =>
      obtain ⟨c, hc, rfl⟩ := Option.map_eq_some_iff.mp hstep
      have hnext : ({ s with callbacks := c }).Parts m₀ c₀ := ⟨h.timing, h.callbacks.next hc⟩
      simp only [afterCallbacks]
      split
      · split_ifs
        · exact hnext.updateCallback
        · exact hnext
      · exact hnext

end Parts

end Screen

/-- **No update is lost**, in every run in which the terminal is not freed.  While an update is
pending, its callback waits, which a wakeup or a loop at work will call, or the cooldown goes on;
for the cooldown, the blinking and the bell there is a timer at the time that `term_timer`
compares with, and it will not be dropped; and the timer of the cooldown paints what is pending.
The timers and the callbacks are in states that their own steps lead to. -/
theorem run_updates (a : UpdateSetup φ γ) (clock : Nat) (ics : γ → IdempotentCallback φ γ)
    (es : List (ScreenEvent φ γ))
    (hes : ∀ e ∈ es, e ≠ .timing (.expire a.term) ∧ e ≠ .callback (.delete a.term))
    (s : Screen w φ γ) (hrun : runSteps (screenStep a) (.start w clock ics) es = some s) :
    (s.windowUpdatePending = true →
      (⟨.other a.termUpdateCallback, a.term⟩ ∈ s.callbacks.queue ∧
        (0 < s.callbacks.wakeups ∨ s.callbacks.frames ≠ [])) ∨ s.windowUpdateCooldown = true) ∧
      (∀ al, s.on al = true → s.timing.Waits a.termTimer a.term (s.due al)) ∧
      s.timing.Knows a.term ∧
      (s.termTimer a s.windowUpdateCooldownEnd).windowUpdatePending = false ∧
      Reaches timingStep (.start w φ γ clock) s.timing ∧
      Reaches callbackStep (.start ics) s.callbacks := by
  have h : s.Tended a := runSteps_preserves (fun _ _ _ h he hstep => h.step he hstep)
    (Screen.tended_start clock ics) hes hrun
  have hparts : s.Parts (.start w φ γ clock) (.start ics) :=
    runSteps_preserves (A := fun _ => True) (fun _ _ _ h _ hstep => h.step hstep)
      ⟨.refl _, .refl _⟩ (fun _ _ => trivial) hrun
  refine ⟨fun hpending => (h.queued hpending).imp_left fun hmem => ⟨hmem, ?_⟩, fun al hal => ?_,
    h.timed.knows, Screen.termTimer_cooldownEnd, hparts.timing, hparts.callbacks⟩
  · exact h.orderly.awake (List.ne_nil_of_mem hmem)
  · exact (h.timed.waits al hal).resolve_right fun hlate => absurd hlate.1 (by simp)

/-- **Updates are not too close together**: during the cooldown that follows an update no callback
paints the window, and the cooldown ends only in a step in which `run_timers` calls `term_timer`
with the time for which its timer was set. -/
theorem run_throttled (a : UpdateSetup φ γ) (s : Screen w φ γ) (es : List (ScreenEvent φ γ)) :
    EachStep (screenStep a)
      (fun s _ s' => s.windowUpdateCooldown = true →
        s.CoolsOn s' ∨
          s'.timing.calls =
            s.timing.calls ++ [(a.termTimer, a.term, s.windowUpdateCooldownEnd)]) s es := by
  refine eachStep_of_invariant (P := fun _ => True) (fun _ _ _ _ _ => trivial)
    (fun s e s' _ hstep hcooldown => ?_) trivial es
  cases e with
  | term e =>
      obtain ⟨-, rfl⟩ := Option.ite_none_left_eq_some.mp hstep |>.imp_right Option.some.inj
      exact .inl (Screen.coolsOn_termStep hcooldown e)
  | timing e =>
      obtain ⟨-, hmap⟩ := Option.ite_none_left_eq_some.mp hstep
      obtain ⟨m, hm, rfl⟩ := Option.map_eq_some_iff.mp hmap
      refine (Screen.coolsOn_afterTiming hcooldown hm).imp_right fun hcalls => ?_
      rw [Screen.calls_afterTiming, hcalls]
  | callback e =>
      obtain ⟨c, -, rfl⟩ := Option.map_eq_some_iff.mp hstep
      exact .inl (Screen.coolsOn_afterCallbacks hcooldown c)

/-- Two things to show: the second waits for the cooldown. -/
def twoUpdates : List (ScreenEvent Nat Nat) :=
  [.term .dispEvent, .callback .wakeup, .callback .loop, .callback .returned, .callback .loop,
    .term .dispEvent, .callback .wakeup, .callback .loop, .callback .returned, .callback .loop]

theorem run_updates_sample :
    ∃ s : Screen 32 Nat Nat, s.windowUpdatePending = true ∧
      runSteps (screenStep ⟨1, 2, 7, 450⟩) (.start 32 0 fun _ => ⟨0, 0, false⟩) twoUpdates =
        some s ∧
      s.timing.Waits 1 7 s.windowUpdateCooldownEnd := by
  obtain ⟨s, hs, hpending, hcooldown⟩ : ∃ s : Screen 32 Nat Nat,
      runSteps (screenStep ⟨1, 2, 7, 450⟩) (.start 32 0 fun _ => ⟨0, 0, false⟩) twoUpdates =
        some s ∧ s.windowUpdatePending = true ∧ s.windowUpdateCooldown = true :=
    ⟨_, rfl, rfl, rfl⟩
  have hwaits := (run_updates ⟨1, 2, 7, 450⟩ 0 _ twoUpdates (by simp [twoUpdates]) s hs).2.1
  exact ⟨s, hpending, hs, hwaits .cooldown hcooldown⟩

end Invariant

end Events
end Qutty
