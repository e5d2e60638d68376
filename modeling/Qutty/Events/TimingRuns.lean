import Mathlib.Data.BitVec
import Qutty.Events.Timing

/-!
# Timers over whole runs

As long as no timer is set for too far away, and none is left for too long, the times that wrap
around stand for times that do not (`run_agenda`).  Then no timer is lost: it waits, has been
called or was given up with its context, and the program is woken in time for the first of those
that wait; the functions are called in the order of their times, and never early (`run_prompt`).
Whatever the clock does, the function of a context that was given up is not called
(`run_annulled`).
-/

namespace Qutty
namespace Events

open Lib

section Words

variable {w H : Nat}

/-- The distance of two times that are not too far apart. -/
theorem toInt_sub_ofNat (hw : 2 * H + 10 < 2 ^ w) {a b : Nat} (hab : a ≤ b + H)
    (hba : b ≤ a + H) : (BitVec.ofNat w a - BitVec.ofNat w b).toInt = (a : Int) - b := by
  have hwInt : (2 * H + 10 : Int) < 2 ^ w := by exact_mod_cast hw
  rw [BitVec.toInt_sub, BitVec.toInt_ofNat', BitVec.toInt_ofNat', Int.bmod_sub_bmod,
    Int.sub_bmod_bmod]
  apply Int.bmod_eq_of_le_mul_two <;> push_cast <;> omega

theorem ofNat_inj_of_near (hw : 2 * H + 10 < 2 ^ w) {a b : Nat} (hab : a ≤ b + 2 * H)
    (hba : b ≤ a + 2 * H) (h : BitVec.ofNat w a = BitVec.ofNat w b) : a = b := by
  have hmod : a % 2 ^ w = b % 2 ^ w := by simpa using congrArg BitVec.toNat h
  rcases Nat.le_total a b with hle | hle
  · have hzero := (Nat.modEq_iff_dvd' hle).mp hmod
    have hlt : b - a < 2 ^ w := by omega
    have := Nat.eq_zero_of_dvd_of_lt hzero hlt
    omega
  · have hzero := (Nat.modEq_iff_dvd' hle).mp hmod.symm
    have hlt : a - b < 2 ^ w := by omega
    have := Nat.eq_zero_of_dvd_of_lt hzero hlt
    omega

end Words

section Images

variable {φ γ : Type} (w : Nat)

/-- A timer, as it is stored. -/
def Due.word (t : Due φ γ) : Timer w φ γ :=
  ⟨t.fn, t.ctx, BitVec.ofNat w t.due, BitVec.ofNat w t.whenSet⟩

/-- The agenda, as it is stored. -/
def Agenda.image (s : Agenda φ γ) : Timing w φ γ where
  timers := s.timers.map (Due.word w)
  timerContexts := s.timerContexts
  now := BitVec.ofNat w s.now
  clock := s.clock
  timerId := s.timerId
  running := s.running
  calls := s.calls.map fun c => (c.1.fn, c.1.ctx, BitVec.ofNat w c.1.due)

end Images

section Refinement

variable {φ γ : Type} {w H : Nat}

/-- The times of a timer are close enough to the clock. -/
structure Due.Near (H now clock : Nat) (t : Due φ γ) : Prop where
  later : t.whenSet < t.due
  far : t.due ≤ t.whenSet + H
  past : t.whenSet ≤ now
  left : clock ≤ t.due + H

/-- The times of an agenda are close together. -/
structure Agenda.Near (H : Nat) (s : Agenda φ γ) : Prop where
  now : s.now ≤ s.clock
  timers : ∀ t ∈ s.timers, t.Near H s.now s.clock

theorem word_injective (hw : 2 * H + 10 < 2 ^ w) {now clock : Nat} (hnow : now ≤ clock)
    {a b : Due φ γ} (ha : a.Near H now clock) (hb : b.Near H now clock)
    (h : a.word w = b.word w) : a = b := by
  obtain ⟨fn, ctx, due, whenSet⟩ := a
  obtain ⟨fn', ctx', due', whenSet'⟩ := b
  obtain ⟨halater, hafar, hapast, haleft⟩ := ha
  obtain ⟨hblater, hbfar, hbpast, hbleft⟩ := hb
  simp only [Due.word, Timer.mk.injEq] at h
  obtain ⟨rfl, rfl, hdue, hset⟩ := h
  simp only at halater hafar hapast haleft hblater hbfar hbpast hbleft
  obtain rfl := ofNat_inj_of_near hw (by omega) (by omega) hdue
  obtain rfl := ofNat_inj_of_near hw (by omega) (by omega) hset
  rfl

/-- A new timer. -/
theorem near_new (hH : 0 < H) {now clock ticks : Nat} (hticks : ticks ≤ H) (hnow : clock ≤ now)
    (fn : φ) (ctx : γ) : (⟨fn, ctx, clock + max ticks 1, clock⟩ : Due φ γ).Near H now clock :=
  ⟨by simp, by simp; omega, hnow, by simp; omega⟩

theorem image_wakeFor (hw : 2 * H + 10 < 2 ^ w) (s : Agenda φ γ) {due : Nat}
    (hfar : due ≤ s.clock + H) (hleft : s.clock ≤ due + H) :
    (s.image w).startTimerForTick (BitVec.ofNat w due) = (s.wakeFor due).image w := by
  have hticks : (BitVec.ofNat w due - (s.image w).getTickCount).toInt = (due : Int) - s.clock :=
    toInt_sub_ofNat hw hfar hleft
  have hclock : (s.image w).clock = s.clock := rfl
  simp only [Timing.startTimerForTick, hticks, hclock]
  by_cases hlate : due ≤ s.clock
  · have hsoon : (due : Int) - s.clock ≤ 0 := by omega
    simp only [hsoon, ↓reduceIte, Agenda.wakeFor, hlate]
    rfl
  · have hsoon : ¬(due : Int) - s.clock ≤ 0 := by omega
    have hwake : s.clock + ((due : Int) - s.clock).toNat = due := by omega
    simp only [hsoon, ↓reduceIte, Agenda.wakeFor, hlate, hwake]
    rfl

variable [LinearOrder φ] [LinearOrder γ]

/-- Timers compare as they are stored. -/
theorem compareTimers_word (hw : 2 * H + 10 < 2 ^ w) {clock : Nat} {a b : Due φ γ}
    (ha : a.Near H clock clock) (hb : b.Near H clock clock) :
    Timing.compareTimers (BitVec.ofNat w clock) (a.word w) (b.word w) =
      Agenda.compareDue a b := by
  obtain ⟨halater, hafar, hapast, haleft⟩ := ha
  obtain ⟨hblater, hbfar, hbpast, hbleft⟩ := hb
  have hta : (BitVec.ofNat w a.due - BitVec.ofNat w clock).toInt = (a.due : Int) - clock :=
    toInt_sub_ofNat hw (by omega) (by omega)
  have htb : (BitVec.ofNat w b.due - BitVec.ofNat w clock).toInt = (b.due : Int) - clock :=
    toInt_sub_ofNat hw (by omega) (by omega)
  unfold Timing.compareTimers Agenda.compareDue
  dsimp only [Due.word]
  rw [hta, htb]
  rcases Nat.lt_trichotomy a.due b.due with hlt | heq | hgt
  · rw [if_pos (by omega), if_pos hlt]
  · rw [if_neg (by omega), if_neg (by omega), if_neg (by omega), if_neg (by omega)]
    rfl
  · rw [if_neg (by omega), if_pos (by omega), if_neg (by omega), if_pos (by omega)]

/-- **A timer is set** at the same place and for the same time. -/
theorem image_schedule (hH : 0 < H) (hw : 2 * H + 10 < 2 ^ w) {s : Agenda φ γ} (h : s.Near H)
    (ticks : Nat) (hticks : ticks ≤ H) (fn : φ) (ctx : γ) :
    (s.image w).scheduleTimer ticks fn ctx = (s.schedule ticks fn ctx).image w ∧
      (s.schedule ticks fn ctx).Near H := by
  have hnew : (⟨fn, ctx, s.clock + max ticks 1, s.clock⟩ : Due φ γ).Near H s.clock s.clock :=
    near_new hH hticks le_rfl fn ctx
  have hold : ∀ x ∈ s.timers, x.Near H s.clock s.clock := fun x hx =>
    ⟨(h.timers x hx).later, (h.timers x hx).far, (h.timers x hx).past.trans h.now,
      (h.timers x hx).left⟩
  have hdue : (if BitVec.ofInt w ticks + BitVec.ofNat w s.clock - BitVec.ofNat w s.clock = 0 then
      BitVec.ofNat w s.clock + 1 else BitVec.ofInt w ticks + BitVec.ofNat w s.clock) =
      BitVec.ofNat w (s.clock + max ticks 1) := by
    have hsum : BitVec.ofInt w ticks + BitVec.ofNat w s.clock = BitVec.ofNat w (s.clock + ticks) := by
      rw [BitVec.ofInt_natCast, ← BitVec.ofNat_add, Nat.add_comm]
    have hsub : BitVec.ofNat w (s.clock + ticks) - BitVec.ofNat w s.clock = BitVec.ofNat w ticks := by
      rw [BitVec.ofNat_add, BitVec.add_comm, BitVec.add_sub_cancel]
    rw [hsum, hsub]
    by_cases hnone : ticks = 0
    · subst hnone
      rw [if_pos (show 0#w = 0 from rfl)]
      exact (BitVec.ofNat_add ..).symm
    · have hzero : BitVec.ofNat w ticks ≠ 0 := fun hzero =>
        hnone (ofNat_inj_of_near hw (by omega) (by omega) hzero)
      rw [if_neg hzero, Nat.max_eq_left (by omega)]
  have hinsert := insertBy_map (e := ⟨fn, ctx, s.clock + max ticks 1, s.clock⟩) (Due.word w)
    fun x hx => compareTimers_word hw hnew (hold x hx)
  have hmem : ∀ x ∈ (insertBy Agenda.compareDue ⟨fn, ctx, s.clock + max ticks 1, s.clock⟩
      s.timers).1, x.Near H s.clock s.clock := by
    intro x hx
    rcases mem_insertBy.mp hx with hx | ⟨-, rfl⟩
    · exact hold x hx
    · exact hnew
  have hclock : (s.image w).getTickCount = BitVec.ofNat w s.clock := rfl
  have htimers : (s.image w).timers = s.timers.map (Due.word w) := rfl
  simp only [Timing.scheduleTimer, Agenda.schedule, hclock, hdue, htimers]
  simp only [Due.word] at hinsert
  rw [hinsert]
  generalize insertBy Agenda.compareDue ⟨fn, ctx, s.clock + max ticks 1, s.clock⟩ s.timers = inserted
    at hmem ⊢
  obtain ⟨timers, added⟩ := inserted
  simp only at hmem ⊢
  cases added with
  | false => exact ⟨by simp only [Bool.false_eq_true, false_and, ↓reduceIte]; rfl, le_rfl, hmem⟩
  | true =>
      have hhead : (timers.map (Due.word w)).head? =
          some (Due.word w ⟨fn, ctx, s.clock + max ticks 1, s.clock⟩) ↔
          timers.head? = some ⟨fn, ctx, s.clock + max ticks 1, s.clock⟩ := by
        cases timers with
        | nil => simp
        | cons x xs =>
            have hx := hmem x List.mem_cons_self
            simp only [List.map_cons, List.head?_cons, Option.some.injEq]
            exact ⟨fun heq => word_injective hw le_rfl hx hnew heq, fun heq => by rw [heq]⟩
      by_cases hfirst : timers.head? = some ⟨fn, ctx, s.clock + max ticks 1, s.clock⟩
      · have hfirst' : (timers.map (Due.word w)).head? = some ⟨fn, ctx,
            BitVec.ofNat w (s.clock + max ticks 1), BitVec.ofNat w s.clock⟩ := hhead.mpr hfirst
        simp only [hfirst, hfirst', and_self, ↓reduceIte]
        have hwake := image_wakeFor hw (w := w) (s := { s with
          now := s.clock
          timers := timers
          timerContexts := insert ctx s.timerContexts
          added := s.added ++ [⟨fn, ctx, s.clock + max ticks 1, s.clock⟩] })
          (Nat.add_le_add_left (max_le hticks hH) s.clock) hnew.left
        exact ⟨hwake, le_rfl, hmem⟩
      · have hfirst' : ¬(timers.map (Due.word w)).head? = some ⟨fn, ctx,
            BitVec.ofNat w (s.clock + max ticks 1), BitVec.ofNat w s.clock⟩ :=
          fun h => hfirst (hhead.mp h)
        simp only [hfirst, hfirst', and_false, ↓reduceIte]
        exact ⟨rfl, le_rfl, hmem⟩

omit [LinearOrder φ] in
/-- **A round of `run_timers`** does the same. -/
theorem image_round (hw : 2 * H + 10 < 2 ^ w) {s : Agenda φ γ} (h : s.Near H) :
    (s.image w).round = s.round.image w ∧ s.round.Near H := by
  obtain ⟨timers, contexts, now, clock, timerId, running, calls, added, dropped⟩ := s
  obtain ⟨hnow, hnear⟩ := h
  cases timers with
  | nil => exact ⟨rfl, hnow, hnear⟩
  | cons first rest =>
      simp only at hnow hnear
      obtain ⟨hlater, hfar, hpast, hleft⟩ := hnear first List.mem_cons_self
      have hrest : ∀ t ∈ rest, t.Near H now clock := fun t ht => hnear t (List.mem_cons_of_mem _ ht)
      have hsince : ∀ n, first.whenSet ≤ n → n ≤ first.due + H →
          (BitVec.ofNat w n - (BitVec.ofNat w first.whenSet - 10)).toNat = n + 10 - first.whenSet := by
        intro n hge hle
        have hword : BitVec.ofNat w n - (BitVec.ofNat w first.whenSet - 10) =
            BitVec.ofNat w (n + 10 - first.whenSet) := by
          have hsum : BitVec.ofNat w (n + 10 - first.whenSet) + BitVec.ofNat w first.whenSet =
              BitVec.ofNat w n + 10 := by
            rw [← BitVec.ofNat_add, Nat.sub_add_cancel (by omega), BitVec.ofNat_add]
            rfl
          rw [sub_sub_eq_add_sub, ← hsum, add_sub_cancel_right]
        rw [hword, BitVec.toNat_ofNat, Nat.mod_eq_of_lt (by omega)]
      have hrun : (BitVec.ofNat w now - (BitVec.ofNat w first.whenSet - 10) >
          BitVec.ofNat w first.due - (BitVec.ofNat w first.whenSet - 10)) ↔ first.due < now := by
        rw [gt_iff_lt, BitVec.lt_def, hsince now hpast (hnow.trans hleft),
          hsince first.due hlater.le (Nat.le_add_right _ _)]
        omega
      by_cases hlive : first.ctx ∈ contexts
      · have hlive' : ¬first.ctx ∉ contexts := not_not.mpr hlive
        by_cases hdue : first.due < now
        · have hrun' := hrun.mpr hdue
          simp only [Timing.round, Agenda.round, Agenda.image, List.map_cons, Due.word, hlive', hrun',
            hdue, ↓reduceIte, List.map_append, List.map_nil]
          exact ⟨trivial, hnow, hrest⟩
        · have hrun' : ¬_ := fun h => hdue (hrun.mp h)
          have hwake := image_wakeFor hw (w := w) (s := ⟨first :: rest, contexts, now, clock, timerId,
            running - 1, calls, added, dropped⟩) (by simp; omega) hleft
          simp only [Timing.round, Agenda.round, Agenda.image, List.map_cons, Due.word, hlive', hrun',
            hdue, ↓reduceIte]
          exact ⟨hwake, hnow, hnear⟩
      · simp only [Timing.round, Agenda.round, Agenda.image, List.map_cons, Due.word, hlive,
          not_false_eq_true, ↓reduceIte]
        exact ⟨trivial, hnow, hrest⟩

/-- **The stored times stand for the times**: no step of the program is led astray by the
wrapping of its clock. -/
theorem image_step (hH : 0 < H) (hw : 2 * H + 10 < 2 ^ w) {s s' : Agenda φ γ} (h : s.Near H)
    {e : TimingEvent φ γ} (hstep : agendaStep H s e = some s') :
    timingStep (s.image w) e = some (s'.image w) ∧ s'.Near H := by
  cases e with
  | pass ms =>
      obtain ⟨hleft, rfl⟩ := Option.ite_none_right_eq_some.mp hstep |>.imp_right Option.some.inj
      exact ⟨rfl, h.now.trans (Nat.le_add_right ..), fun t ht =>
        ⟨(h.timers t ht).later, (h.timers t ht).far, (h.timers t ht).past, hleft t ht⟩⟩
  | schedule ticks fn ctx =>
      obtain ⟨⟨hpos, hle⟩, rfl⟩ :=
        Option.ite_none_right_eq_some.mp hstep |>.imp_right Option.some.inj
      obtain ⟨ticks, rfl⟩ := Int.eq_ofNat_of_zero_le hpos
      obtain ⟨himage, hnear⟩ := image_schedule hH hw h ticks (by exact_mod_cast hle) fn ctx
      exact ⟨congrArg some himage, hnear⟩
  | expire ctx =>
      obtain rfl := Option.some.inj hstep
      exact ⟨rfl, h.now, h.timers⟩
  | timerEvent =>
      obtain ⟨hdue, rfl⟩ := Option.ite_none_right_eq_some.mp hstep |>.imp_right Option.some.inj
      refine ⟨if_pos hdue, le_rfl, fun t ht => ?_⟩
      exact ⟨(h.timers t ht).later, (h.timers t ht).far, (h.timers t ht).past.trans h.now,
        (h.timers t ht).left⟩
  | round =>
      obtain ⟨hrunning, rfl⟩ := Option.ite_none_right_eq_some.mp hstep |>.imp_right Option.some.inj
      obtain ⟨himage, hnear⟩ := image_round hw h
      exact ⟨(if_pos hrunning).trans (congrArg some himage), hnear⟩

/-- **The agenda is what the program does**, in every run that does not set a timer too far away
and does not leave one for too long. -/
theorem run_agenda (hH : 0 < H) (hw : 2 * H + 10 < 2 ^ w) (clock : Nat)
    (es : List (TimingEvent φ γ)) (s : Agenda φ γ)
    (hrun : runSteps (agendaStep H) (Agenda.start φ γ clock) es = some s) :
    runSteps timingStep (Timing.start w φ γ clock) es = some (s.image w) := by
  have hstart : (Agenda.start φ γ clock).Near H := ⟨le_rfl, by simp [Agenda.start]⟩
  obtain ⟨m, hm, rfl, -⟩ := runSteps_simulates
    (fun (s : Agenda φ γ) (m : Timing w φ γ) => m = s.image w ∧ s.Near H)
    (by
      rintro s m e s' ⟨rfl, hnear⟩ hstep
      obtain ⟨himage, hnear'⟩ := image_step hH hw hnear hstep
      exact ⟨_, himage, rfl, hnear'⟩)
    ⟨rfl, hstart⟩ hrun
  exact hm

/-- Two timers that are set just before the clock wraps around. -/
def wrappingEvents : List (TimingEvent Nat Nat) :=
  [.schedule 5 1 7, .schedule 3 2 7, .pass 4, .timerEvent, .round, .round]

theorem run_agenda_sample :
    ∃ s m, runSteps (agendaStep 1000) (Agenda.start Nat Nat 4294967294) wrappingEvents = some s ∧
      runSteps timingStep (Timing.start 32 Nat Nat 4294967294) wrappingEvents = some m ∧
      m.calls = [(2, 7, 1)] := by
  have hcalls : (runSteps (agendaStep 1000) (Agenda.start Nat Nat 4294967294) wrappingEvents).map
      (fun s => (s.image 32).calls) = some [(2, 7, 1)] := by decide
  obtain ⟨s, hrun, hcalls⟩ := Option.map_eq_some_iff.mp hcalls
  exact ⟨s, s.image 32, hrun, run_agenda (by decide) (by decide) 4294967294 wrappingEvents s hrun,
    hcalls⟩

end Refinement

section Promptness

variable {φ γ : Type} [LinearOrder φ] [LinearOrder γ] {s s' : Agenda φ γ} {H : Nat}

/-- The program is woken in time for the first timer. -/
def Agenda.Woken (s : Agenda φ γ) : Prop :=
  s.running = 0 → ∀ first ∈ s.timers.head?,
    ∃ wake, s.timerId = some wake ∧ wake ≤ max first.due (s.clock + 1)

/-- Nothing is lost, and nothing is called too early. -/
structure Agenda.Prompt (s : Agenda φ γ) : Prop where
  now : s.now ≤ s.clock
  sorted : s.timers.Pairwise fun a b => a.due ≤ b.due
  woken : s.Woken
  account : s.added.Perm (s.timers ++ s.calls.map Prod.fst ++ s.dropped)
  late : ∀ c ∈ s.calls, c.1.due < c.2 ∧ c.2 ≤ s.now
  later : ∀ c ∈ s.calls, ∀ t ∈ s.timers, c.1.due ≤ t.due
  ordered : s.calls.Pairwise fun a b => a.1.due ≤ b.1.due

omit [LinearOrder φ] [LinearOrder γ] in
theorem wake_le (s : Agenda φ γ) (due : Nat) :
    ∃ wake, (s.wakeFor due).timerId = some wake ∧ wake ≤ max due (s.clock + 1) := by
  refine ⟨_, rfl, ?_⟩
  split
  · exact le_max_right ..
  · exact le_max_left ..

theorem compareDue_lt {a b : Due φ γ} (h : Agenda.compareDue a b = .lt) : a.due ≤ b.due := by
  unfold Agenda.compareDue at h
  by_contra hlt
  rw [if_neg (by omega), if_pos (by omega)] at h
  exact absurd h (by simp)

theorem compareDue_gt {a b : Due φ γ} (h : Agenda.compareDue a b = .gt) : b.due ≤ a.due := by
  unfold Agenda.compareDue at h
  by_contra hlt
  rw [if_pos (by omega)] at h
  exact absurd h (by simp)

/-- A timer that is set. -/
theorem Agenda.Prompt.schedule (h : s.Prompt) (ticks : Nat) (fn : φ) (ctx : γ) :
    (s.schedule ticks fn ctx).Prompt := by
  obtain ⟨t, ht⟩ : ∃ t : Due φ γ, t = ⟨fn, ctx, s.clock + max ticks 1, s.clock⟩ := ⟨_, rfl⟩
  have hdue : t.due = s.clock + max ticks 1 := by rw [ht]
  have hlate : ∀ c ∈ s.calls, c.1.due ≤ t.due := fun c hc => by
    have hc' := h.late c hc
    have hnow := h.now
    omega
  have hsorted : (insertBy Agenda.compareDue t s.timers).1.Pairwise fun a b => a.due ≤ b.due :=
    pairwise_insertBy (fun _ _ _ => le_trans) (fun x _ => compareDue_lt) (fun x _ => compareDue_gt)
      h.sorted
  have hlater : ∀ c ∈ s.calls, ∀ x ∈ (insertBy Agenda.compareDue t s.timers).1, c.1.due ≤ x.due := by
    intro c hc x hx
    rcases mem_insertBy.mp hx with hx | ⟨-, rfl⟩
    · exact h.later c hc x hx
    · exact hlate c hc
  have hold := fun c hc => And.intro (h.late c hc).1 ((h.late c hc).2.trans h.now)
  simp only [Agenda.schedule, ← ht]
  cases hnew : (insertBy Agenda.compareDue t s.timers).2 with
  | false =>
      simp only [Bool.false_eq_true, false_and, ↓reduceIte, insertBy_old hnew]
      exact ⟨le_rfl, h.sorted, h.woken, h.account, hold, h.later, h.ordered⟩
  | true =>
      have haccount : (s.added ++ [t]).Perm ((insertBy Agenda.compareDue t s.timers).1 ++
          s.calls.map Prod.fst ++ s.dropped) := by
        refine (List.perm_append_singleton t s.added).trans ((h.account.cons t).trans ?_)
        exact ((insertBy_new hnew).symm.append_right _).append_right _
      simp only [true_and, ↓reduceIte]
      split_ifs with hfirst
      · refine ⟨le_rfl, hsorted, fun _ first hhead => ?_, haccount, hold, hlater, h.ordered⟩
        obtain rfl : t = first := Option.some.inj (hfirst.symm.trans hhead)
        rw [hdue]
        exact wake_le _ _
      · refine ⟨le_rfl, hsorted, fun hrunning first hhead => ?_, haccount, hold, hlater, h.ordered⟩
        refine h.woken hrunning first ?_
        rcases head_insertBy Agenda.compareDue t s.timers with hhead' | hhead'
        · exact absurd hhead' hfirst
        · exact hhead'.symm.trans hhead

omit [LinearOrder φ] in
/-- A round of `run_timers`. -/
theorem Agenda.Prompt.round (h : s.Prompt) (hrunning : 0 < s.running) : s.round.Prompt := by
  obtain ⟨timers, contexts, now, clock, timerId, running, calls, added, dropped⟩ := s
  obtain ⟨hnow, hsorted, hwoken, haccount, hlate, hlater, hordered⟩ := h
  simp only at hnow hsorted haccount hlate hlater hordered hrunning
  cases timers with
  | nil => exact ⟨hnow, hsorted, fun _ first hfirst => by simp [Agenda.round] at hfirst, haccount, hlate,
      hlater, hordered⟩
  | cons first rest =>
      obtain ⟨hfirst, hrest⟩ := List.pairwise_cons.mp hsorted
      have hbusy : ∀ {P : Prop}, running = 0 → P := fun h => absurd h (Nat.pos_iff_ne_zero.mp hrunning)
      simp only [Agenda.round]
      split_ifs with hlive hdue
      · refine ⟨hnow, hrest, fun h => hbusy h, haccount.trans ?_, fun c hc => ?_, fun c hc t ht => ?_,
          ?_⟩
        · have hmiddle := (List.perm_middle : (rest ++ calls.map Prod.fst ++ first :: dropped).Perm _)
          simpa using hmiddle.symm
        · rcases List.mem_append.mp hc with hc | hc
          · exact hlate c hc
          · obtain rfl := List.mem_singleton.mp hc
            exact ⟨hdue, le_rfl⟩
        · rcases List.mem_append.mp hc with hc | hc
          · exact hlater c hc t (List.mem_cons_of_mem _ ht)
          · obtain rfl := List.mem_singleton.mp hc
            exact hfirst t ht
        · refine List.pairwise_append.mpr ⟨hordered, List.pairwise_singleton .., fun c hc c' hc' => ?_⟩
          obtain rfl := List.mem_singleton.mp hc'
          exact hlater c hc first List.mem_cons_self
      · exact ⟨hnow, hsorted, fun _ t ht => by
          obtain rfl : first = t := by simpa [Agenda.wakeFor] using ht
          exact wake_le _ _, haccount, hlate, hlater, hordered⟩
      · refine ⟨hnow, hrest, fun h => hbusy h, haccount.trans ?_, hlate, fun c hc t ht =>
          hlater c hc t (List.mem_cons_of_mem _ ht), hordered⟩
        have hmiddle := (List.perm_middle : (rest ++ calls.map Prod.fst ++ dropped ++ first :: []).Perm _)
        simpa using hmiddle.symm

/-- A step of the agenda. -/
theorem Agenda.Prompt.step (h : s.Prompt) {e : TimingEvent φ γ}
    (hstep : agendaStep H s e = some s') : s'.Prompt := by
  cases e with
  | pass ms =>
      obtain ⟨-, rfl⟩ := Option.ite_none_right_eq_some.mp hstep |>.imp_right Option.some.inj
      refine ⟨h.now.trans (Nat.le_add_right ..), h.sorted, fun hrunning first hfirst => ?_, h.account,
        h.late, h.later, h.ordered⟩
      obtain ⟨wake, hwake, hle⟩ := h.woken hrunning first hfirst
      exact ⟨wake, hwake, hle.trans (max_le_max_left _ (by simp))⟩
  | schedule ticks fn ctx =>
      obtain ⟨-, rfl⟩ := Option.ite_none_right_eq_some.mp hstep |>.imp_right Option.some.inj
      exact h.schedule ticks.toNat fn ctx
  | expire ctx =>
      obtain rfl := Option.some.inj hstep
      exact ⟨h.now, h.sorted, h.woken, h.account, h.late, h.later, h.ordered⟩
  | timerEvent =>
      obtain ⟨-, rfl⟩ := Option.ite_none_right_eq_some.mp hstep |>.imp_right Option.some.inj
      exact ⟨le_rfl, h.sorted, fun hrunning => absurd hrunning (Nat.succ_ne_zero _), h.account,
        fun c hc => ⟨(h.late c hc).1, (h.late c hc).2.trans h.now⟩, h.later, h.ordered⟩
  | round =>
      obtain ⟨hrunning, rfl⟩ := Option.ite_none_right_eq_some.mp hstep |>.imp_right Option.some.inj
      exact h.round hrunning

omit [LinearOrder φ] [LinearOrder γ] in
theorem prompt_start (clock : Nat) : (Agenda.start φ γ clock).Prompt :=
  ⟨le_rfl, .nil, fun _ first hfirst => by simp [Agenda.start] at hfirst, .refl _,
    by simp [Agenda.start], by simp [Agenda.start], .nil⟩

/-- `run_timers` leaves no timer that is due. -/
theorem round_leaves (h : s.Prompt) {e : TimingEvent φ γ} (hstep : agendaStep H s e = some s')
    (hreturn : s'.running < s.running) : ∀ t ∈ s'.timers, s.now ≤ t.due := by
  cases e with
  | pass ms =>
      obtain ⟨-, rfl⟩ := Option.ite_none_right_eq_some.mp hstep |>.imp_right Option.some.inj
      exact absurd hreturn (lt_irrefl _)
  | schedule ticks fn ctx =>
      obtain ⟨-, rfl⟩ := Option.ite_none_right_eq_some.mp hstep |>.imp_right Option.some.inj
      have hrunning : (s.schedule ticks.toNat fn ctx).running = s.running := by
        simp only [Agenda.schedule]
        split_ifs <;> rfl
      exact absurd hreturn (by rw [hrunning]; exact lt_irrefl _)
  | expire ctx =>
      obtain rfl := Option.some.inj hstep
      exact absurd hreturn (lt_irrefl _)
  | timerEvent =>
      obtain ⟨-, rfl⟩ := Option.ite_none_right_eq_some.mp hstep |>.imp_right Option.some.inj
      exact absurd hreturn (by simp)
  | round =>
      obtain ⟨-, rfl⟩ := Option.ite_none_right_eq_some.mp hstep |>.imp_right Option.some.inj
      obtain ⟨timers, contexts, now, clock, timerId, running, calls, added, dropped⟩ := s
      cases timers with
      | nil => simp [Agenda.round]
      | cons first rest =>
          have hsorted := List.pairwise_cons.mp h.sorted
          simp only [Agenda.round] at hreturn ⊢
          split_ifs at hreturn ⊢ with hlive hdue
          · exact absurd hreturn (lt_irrefl _)
          · intro t ht
            rcases List.mem_cons.mp ht with rfl | ht
            · exact Nat.le_of_not_lt hdue
            · exact (Nat.le_of_not_lt hdue).trans (hsorted.1 t ht)
          · exact absurd hreturn (lt_irrefl _)

/-- **No timer is lost or late**, in every run as above.  Each timer that was set waits, has been
called or was given up with its context; outside of `run_timers`, the program is woken at the
time of the first that waits, or at once if that has passed; `run_timers` does not return while
one is due; and the functions are called in the order of their times, none before its time. -/
theorem run_prompt {w : Nat} (hH : 0 < H) (hw : 2 * H + 10 < 2 ^ w) (clock : Nat)
    (es : List (TimingEvent φ γ)) (s : Agenda φ γ)
    (hrun : runSteps (agendaStep H) (Agenda.start φ γ clock) es = some s) :
    ∃ m, runSteps timingStep (Timing.start w φ γ clock) es = some m ∧
      m.timers = s.timers.map (Due.word w) ∧
      m.calls = s.calls.map (fun c => (c.1.fn, c.1.ctx, BitVec.ofNat w c.1.due)) ∧
      s.added.Perm (s.timers ++ s.calls.map Prod.fst ++ s.dropped) ∧
      (m.running = 0 → ∀ first ∈ s.timers.head?,
        ∃ wake, m.timerId = some wake ∧ wake ≤ max first.due (m.clock + 1)) ∧
      (∀ c ∈ s.calls, c.1.due < c.2) ∧
      s.calls.Pairwise (fun a b => a.1.due ≤ b.1.due) ∧
      EachStep (agendaStep H)
        (fun s _ s' => s'.running < s.running → ∀ t ∈ s'.timers, s.now ≤ t.due)
        (Agenda.start φ γ clock) es := by
  have hnear : (Agenda.start φ γ clock).Near H := ⟨le_rfl, by simp [Agenda.start]⟩
  obtain ⟨m, hm, ⟨rfl, -⟩, hprompt⟩ := runSteps_simulates
    (fun (s : Agenda φ γ) (m : Timing w φ γ) => (m = s.image w ∧ s.Near H) ∧ s.Prompt)
    (by
      rintro s m e s' ⟨⟨rfl, hnear⟩, hprompt⟩ hstep
      obtain ⟨himage, hnear'⟩ := image_step hH hw hnear hstep
      exact ⟨_, himage, ⟨rfl, hnear'⟩, hprompt.step hstep⟩)
    ⟨⟨rfl, hnear⟩, prompt_start clock⟩ hrun
  have hsteps : EachStep (agendaStep H)
      (fun s _ s' => s'.running < s.running → ∀ t ∈ s'.timers, s.now ≤ t.due)
      (Agenda.start φ γ clock) es :=
    eachStep_of_invariant (P := Agenda.Prompt) (fun _ _ _ h hstep => h.step hstep)
      (fun _ _ _ h hstep => round_leaves h hstep) (prompt_start clock) es
  exact ⟨_, hm, rfl, rfl, hprompt.account, hprompt.woken, fun c hc => (hprompt.late c hc).1,
    hprompt.ordered, hsteps⟩

theorem run_prompt_sample :
    ∃ m : Timing 32 Nat Nat,
      runSteps timingStep (Timing.start 32 Nat Nat 4294967294) wrappingEvents = some m ∧
      m.calls = [(2, 7, 1)] := by
  have hcalls : (runSteps (agendaStep 1000) (Agenda.start Nat Nat 4294967294) wrappingEvents).map
      (fun s => s.calls.map fun c => (c.1.fn, c.1.ctx, BitVec.ofNat 32 c.1.due)) =
      some [(2, 7, 1)] := by decide
  obtain ⟨s, hrun, hcalls⟩ := Option.map_eq_some_iff.mp hcalls
  obtain ⟨m, hm, -, hmcalls, -⟩ :=
    run_prompt (w := 32) (by decide) (by decide) 4294967294 wrappingEvents s hrun
  exact ⟨m, hm, hmcalls.trans hcalls⟩

end Promptness

section Annulment

variable {φ γ : Type} [LinearOrder φ] [LinearOrder γ] {w : Nat} {m m' : Timing w φ γ} {ctx : γ}

/-- The calls of the functions of a context. -/
def Timing.callsOf (m : Timing w φ γ) (ctx : γ) : List (φ × γ × BitVec w) :=
  m.calls.filter fun c => c.2.1 = ctx

/-- A step that sets no timer for a context that was given up does not bring it back. -/
theorem annulled_step {e : TimingEvent φ γ} (hctx : ctx ∉ m.timerContexts)
    (he : ∀ ticks fn, e ≠ .schedule ticks fn ctx) (hstep : timingStep m e = some m') :
    ctx ∉ m'.timerContexts ∧ m'.callsOf ctx = m.callsOf ctx := by
  cases e with
  | pass ms =>
      obtain rfl := Option.some.inj hstep
      exact ⟨hctx, rfl⟩
  | schedule ticks fn other =>
      obtain rfl := Option.some.inj hstep
      have hne : ctx ≠ other := fun heq => he ticks fn (by rw [heq])
      simp only [Timing.scheduleTimer, Timing.startTimerForTick]
      split_ifs <;> exact ⟨by simp [hctx, hne], rfl⟩
  | expire other =>
      obtain rfl := Option.some.inj hstep
      exact ⟨fun hmem => hctx (Finset.mem_of_mem_erase hmem), rfl⟩
  | timerEvent =>
      obtain ⟨-, rfl⟩ := Option.ite_none_right_eq_some.mp hstep |>.imp_right Option.some.inj
      exact ⟨hctx, rfl⟩
  | round =>
      obtain ⟨-, rfl⟩ := Option.ite_none_right_eq_some.mp hstep |>.imp_right Option.some.inj
      obtain ⟨timers, contexts, now, clock, timerId, running, calls⟩ := m
      cases timers with
      | nil => exact ⟨hctx, rfl⟩
      | cons first rest =>
          simp only [Timing.round]
          split_ifs with hlive hdue
          · have hne : first.ctx ≠ ctx := fun heq => hctx (heq ▸ hlive)
            exact ⟨hctx, by simp [Timing.callsOf, hne]⟩
          · exact ⟨hctx, rfl⟩
          · exact ⟨hctx, rfl⟩

/-- **The timers of a context are annulled at once**: after `expire_timer_context`, whatever
happens and whatever the clock shows, no function is called with that context before a timer is
set for it again. -/
theorem run_annulled (m m' : Timing w φ γ) (ctx : γ) (es : List (TimingEvent φ γ))
    (hes : ∀ ticks fn, TimingEvent.schedule ticks fn ctx ∉ es)
    (hrun : runSteps timingStep (m.expireTimerContext ctx) es = some m') :
    m'.callsOf ctx = m.callsOf ctx := by
  have hgone : ctx ∉ (m.expireTimerContext ctx).timerContexts := by
    simp [Timing.expireTimerContext]
  have hinv : ctx ∉ m'.timerContexts ∧ m'.callsOf ctx = m.callsOf ctx :=
    runSteps_preserves (P := fun m₁ => ctx ∉ m₁.timerContexts ∧ m₁.callsOf ctx = m.callsOf ctx)
      (A := fun e => ∀ ticks fn, e ≠ TimingEvent.schedule ticks fn ctx)
      (fun m₁ e m₂ h he hstep => by
        obtain ⟨hctx, hcalls⟩ := annulled_step h.1 he hstep
        exact ⟨hctx, hcalls.trans h.2⟩)
      ⟨hgone, rfl⟩ (fun e he ticks fn heq => hes ticks fn (by rwa [heq] at he)) hrun
  exact hinv.2

theorem run_annulled_sample :
    ∃ m : Timing 32 Nat Nat,
      runSteps timingStep (((Timing.start 32 Nat Nat 0).scheduleTimer 5 1 7).expireTimerContext 7)
        [.pass 100, .timerEvent, .round] = some m ∧ m.callsOf 7 = [] := by
  obtain ⟨m, hm⟩ : ∃ m, runSteps timingStep
      (((Timing.start 32 Nat Nat 0).scheduleTimer 5 1 7).expireTimerContext 7)
      [.pass 100, .timerEvent, .round] = some m := Option.isSome_iff_exists.mp (by decide)
  exact ⟨m, hm, run_annulled _ m 7 _ (by simp) hm⟩

end Annulment

end Events
end Qutty
