import Qutty.Lib.Runs

/-!
# Callbacks from the event loop

`puttysrc/callback.c` queues functions that are to be called from the event loop, and
`GuiMain.cpp` asks Qt for a wakeup whenever it is told of the first of them.  A function that is
called may run an event loop of its own, as a dialog does, in which a wakeup may come too.

No callback is lost, and none is called twice or out of turn; while one waits, a wakeup will come
or the queue is being worked off (`run_callbacks`).
-/

namespace Qutty
namespace Events

open Lib

section Callbacks

variable (φ γ : Type)

/-- `toplevel_callback_fn_t`: `run_idempotent_callback`, or another function. -/
inductive CallbackFn where
  | runIdempotentCallback
  | other (fn : φ)
deriving DecidableEq

/-- `struct callback`. -/
structure Callback where
  fn : CallbackFn φ
  ctx : γ
deriving DecidableEq

/-- `struct IdempotentCallback`. -/
structure IdempotentCallback where
  fn : φ
  ctx : γ
  queued : Bool

/-- What the program is in the middle of: the loop that a wakeup has begun, between two
callbacks, or a function that this loop has called. -/
inductive Frame where
  | loop
  | call
deriving DecidableEq

/-- The variables of `callback.c`, the wakeups that Qt has been asked for, and a record of what
has been queued, called and deleted. -/
structure Callbacks where
  /-- `cbhead`, to `cbtail`. -/
  queue : List (Callback φ γ)
  cbcurr : Option (Callback φ γ)
  /-- The memory: what an address is the `IdempotentCallback` of. -/
  ics : γ → IdempotentCallback φ γ
  wakeups : Nat
  frames : List Frame
  added : List (Callback φ γ)
  calls : List (Callback φ γ)
  deleted : List (Callback φ γ)

end Callbacks

namespace Callbacks

variable {φ γ : Type} [DecidableEq φ] [DecidableEq γ] (s : Callbacks φ γ)

/-- `queue_toplevel_callback`, with the notification of `GuiMain.cpp`. -/
def queueToplevelCallback (cb : Callback φ γ) : Callbacks φ γ :=
  { s with
    wakeups := if s.queue = [] ∧ s.cbcurr = none then s.wakeups + 1 else s.wakeups
    queue := s.queue ++ [cb]
    added := s.added ++ [cb] }

/-- `ic->queued = queued`. -/
def setQueued (ic : γ) (queued : Bool) : Callbacks φ γ :=
  { s with ics := Function.update s.ics ic { s.ics ic with queued := queued } }

/-- `queue_idempotent_callback`. -/
def queueIdempotentCallback (ic : γ) : Callbacks φ γ :=
  if (s.ics ic).queued then s
  else (s.setQueued ic true).queueToplevelCallback ⟨.runIdempotentCallback, ic⟩

/-- Whether a callback belongs to a context. -/
def belongs (ctx : γ) (cb : Callback φ γ) : Bool :=
  cb.ctx = ctx ∨ (cb.fn = .runIdempotentCallback ∧ (s.ics cb.ctx).ctx = ctx)

/-- `delete_callbacks_for_context`. -/
def deleteCallbacksForContext (ctx : γ) : Callbacks φ γ :=
  { s with
    queue := s.queue.filter fun cb => !s.belongs ctx cb
    deleted := s.deleted ++ s.queue.filter (s.belongs ctx) }

/-- `run_toplevel_callbacks`, up to the function that is called. -/
def runToplevelCallbacks : Callbacks φ γ :=
  match s.queue with
  | [] => { s with frames := s.frames.tail }
  | cb :: rest =>
      let s := { s with
        queue := rest
        cbcurr := some cb
        frames := .call :: s.frames
        calls := s.calls ++ [cb] }
      match cb.fn with
      | .runIdempotentCallback => s.setQueued cb.ctx false
      | .other _ => s

end Callbacks

/-- What happens to the callbacks: the program queues or deletes some, a wakeup comes, the loop
that it begins goes on, or the function that is called returns. -/
inductive CallbackEvent (φ γ : Type) where
  | queue (fn : φ) (ctx : γ)
  | queueIdempotent (ic : γ)
  | delete (ctx : γ)
  | wakeup
  | loop
  | returned

section Steps

variable {φ γ : Type} [DecidableEq φ] [DecidableEq γ]

/-- A step.  Between two callbacks of a loop, nothing else runs. -/
def callbackStep (s : Callbacks φ γ) : CallbackEvent φ γ → Option (Callbacks φ γ)
  | .queue fn ctx =>
      if s.frames.head? = some .loop then none else some (s.queueToplevelCallback ⟨.other fn, ctx⟩)
  | .queueIdempotent ic =>
      if s.frames.head? = some .loop then none else some (s.queueIdempotentCallback ic)
  | .delete ctx =>
      if s.frames.head? = some .loop then none else some (s.deleteCallbacksForContext ctx)
  | .wakeup =>
      if s.frames.head? = some .loop ∨ s.wakeups = 0 then none
      else some { s with wakeups := s.wakeups - 1, frames := .loop :: s.frames }
  | .loop => if s.frames.head? = some .loop then some s.runToplevelCallbacks else none
  | .returned =>
      if s.frames.head? = some .call then
        some { s with cbcurr := none, frames := s.frames.tail }
      else none

/-- The program before its first callback; the notifications have been requested. -/
def Callbacks.start (ics : γ → IdempotentCallback φ γ) : Callbacks φ γ where
  queue := []
  cbcurr := none
  ics := fun ic => { ics ic with queued := false }
  wakeups := 0
  frames := []
  added := []
  calls := []
  deleted := []

end Steps

section Invariant

variable {φ γ : Type} [DecidableEq φ] [DecidableEq γ] {s s' : Callbacks φ γ} {ic : γ}

/-- What `queue_idempotent_callback` queues. -/
def Callback.ofIc (ic : γ) : Callback φ γ := ⟨.runIdempotentCallback, ic⟩

omit [DecidableEq φ] [DecidableEq γ] in
theorem ofIc_inj {ic ic' : γ} : (Callback.ofIc ic : Callback φ γ) = .ofIc ic' ↔ ic = ic' := by
  simp [Callback.ofIc]

/-- The callbacks are in order, and a wakeup will come for them. -/
structure Callbacks.Orderly (s : Callbacks φ γ) : Prop where
  order : (s.calls ++ s.queue).Sublist s.added
  account : s.added.Perm (s.calls ++ s.queue ++ s.deleted)
  awake : s.queue ≠ [] → 0 < s.wakeups ∨ s.frames ≠ []
  current : s.cbcurr ≠ none → .call ∈ s.frames
  bottom : s.frames.getLast? ≠ some .call
  once : ∀ ic, s.queue.count (.ofIc ic) ≤ 1
  queued : ∀ ic, .ofIc ic ∈ s.queue → (s.ics ic).queued = true
  kept : ∀ ic, (s.ics ic).queued = true → .ofIc ic ∈ s.queue ∨ .ofIc ic ∈ s.deleted

namespace Callbacks

omit [DecidableEq φ] in
theorem setQueued_self (ic : γ) (queued : Bool) :
    ((s.setQueued ic queued).ics ic).queued = queued := by
  simp [setQueued]

omit [DecidableEq φ] in
theorem setQueued_ne {ic ic' : γ} (hne : ic' ≠ ic) (queued : Bool) :
    (s.setQueued ic queued).ics ic' = s.ics ic' := by
  simp [setQueued, hne]

/-- A callback that is not there yet goes to the end. -/
theorem Orderly.queueToplevelCallback (h : s.Orderly) (cb : Callback φ γ)
    (hnew : ∀ ic, cb = .ofIc ic → .ofIc ic ∉ s.queue) :
    (s.queueToplevelCallback cb).queue = s.queue ++ [cb] ∧
      ((s.calls ++ (s.queue ++ [cb])).Sublist (s.added ++ [cb])) ∧
      (s.added ++ [cb]).Perm (s.calls ++ (s.queue ++ [cb]) ++ s.deleted) ∧
      (0 < (s.queueToplevelCallback cb).wakeups ∨ s.frames ≠ []) ∧
      ∀ ic, (s.queue ++ [cb]).count (.ofIc ic) ≤ 1 := by
  refine ⟨rfl, ?_, ?_, ?_, fun ic => ?_⟩
  · rw [← List.append_assoc]
    exact h.order.append_right _
  · refine (h.account.append_right [cb]).trans ?_
    have hswap : (s.deleted ++ [cb]).Perm ([cb] ++ s.deleted) := List.perm_append_comm
    simpa using hswap.append_left (s.calls ++ s.queue)
  · simp only [Callbacks.queueToplevelCallback]
    split_ifs with hfirst
    · exact .inl (Nat.succ_pos _)
    · by_cases hqueue : s.queue = []
      · have hcurrent := h.current fun hnone => hfirst ⟨hqueue, hnone⟩
        exact .inr (List.ne_nil_of_mem hcurrent)
      · exact h.awake hqueue
  · rw [List.count_append, List.count_singleton]
    by_cases hcb : cb = .ofIc ic
    · subst hcb
      have hzero := List.count_eq_zero.mpr (hnew ic rfl)
      simp [hzero]
    · simpa [hcb] using h.once ic

theorem Orderly.queue (h : s.Orderly) (fn : φ) (ctx : γ) :
    (s.queueToplevelCallback ⟨.other fn, ctx⟩).Orderly := by
  obtain ⟨hqueue, horder, haccount, hawake, honce⟩ := h.queueToplevelCallback
    ⟨.other fn, ctx⟩ (fun ic heq => by simp [Callback.ofIc] at heq)
  refine ⟨horder, haccount, fun _ => hawake, h.current, h.bottom, honce, fun ic hic => ?_,
    fun ic hic => ?_⟩
  · rw [hqueue, List.mem_append, List.mem_singleton] at hic
    exact h.queued ic (hic.resolve_right (by simp [Callback.ofIc]))
  · exact (h.kept ic hic).imp_left (List.mem_append_left _)

theorem Orderly.queueIdempotent (h : s.Orderly) (ic : γ) :
    (s.queueIdempotentCallback ic).Orderly := by
  simp only [Callbacks.queueIdempotentCallback]
  split_ifs with hqueued
  · exact h
  · have hnew : .ofIc ic ∉ s.queue := fun hmem => hqueued (h.queued ic hmem)
    obtain ⟨hqueue, horder, haccount, hawake, honce⟩ := h.queueToplevelCallback (.ofIc ic)
      (fun ic' heq => by rwa [← heq])
    refine ⟨horder, haccount, fun _ => hawake, h.current, h.bottom, honce, fun ic' hic' => ?_,
      fun ic' hic' => ?_⟩
    · by_cases hne : ic' = ic
      · subst hne
        exact setQueued_self ic' true
      · have hold : .ofIc ic' ∈ s.queue := by
          have hmem : Callback.ofIc ic' ∈ s.queue ++ [.ofIc ic] := hic'
          rw [List.mem_append, List.mem_singleton, ofIc_inj] at hmem
          exact hmem.resolve_right hne
        exact (congrArg IdempotentCallback.queued (setQueued_ne hne true)).trans (h.queued ic' hold)
    · by_cases hne : ic' = ic
      · subst hne
        exact .inl (List.mem_append_right _ List.mem_cons_self)
      · have hold : (s.ics ic').queued = true :=
          (congrArg IdempotentCallback.queued (setQueued_ne hne true)).symm.trans hic'
        exact (h.kept ic' hold).imp_left (List.mem_append_left _)

theorem Orderly.delete (h : s.Orderly) (ctx : γ) : (s.deleteCallbacksForContext ctx).Orderly := by
  have hsub : (s.queue.filter fun cb => !s.belongs ctx cb).Sublist s.queue := List.filter_sublist
  refine ⟨(hsub.append_left _).trans h.order, h.account.trans ?_, fun hne => ?_, h.current,
    h.bottom, fun ic => (hsub.count_le _).trans (h.once ic),
    fun ic hic => h.queued ic (hsub.subset hic), fun ic hic => ?_⟩
  · have hsplit := List.filter_append_perm (fun cb => s.belongs ctx cb) s.queue
    have hswap := (List.perm_append_comm.trans hsplit).symm
    refine ((hswap.append_left s.calls).append_right s.deleted).trans ?_
    have hlast : (s.queue.filter (s.belongs ctx) ++ s.deleted).Perm
        (s.deleted ++ s.queue.filter (s.belongs ctx)) := List.perm_append_comm
    simpa [deleteCallbacksForContext] using
      hlast.append_left (s.calls ++ s.queue.filter fun cb => !s.belongs ctx cb)
  · exact h.awake fun hnil => hne (by simp [deleteCallbacksForContext, hnil])
  · rcases h.kept ic hic with hmem | hmem
    · by_cases hbelongs : s.belongs ctx (.ofIc ic)
      · exact .inr (List.mem_append_right _ (List.mem_filter.mpr ⟨hmem, hbelongs⟩))
      · exact .inl (List.mem_filter.mpr ⟨hmem, by simpa using hbelongs⟩)
    · exact .inr (List.mem_append_left _ hmem)

/-- The loop goes on: it ends, or the first callback is called. -/
theorem Orderly.runToplevelCallbacks (h : s.Orderly) (hloop : s.frames.head? = some .loop) :
    s.runToplevelCallbacks.Orderly := by
  obtain ⟨queue, cbcurr, ics, wakeups, frames, added, calls, deleted⟩ := s
  obtain ⟨rest, rfl⟩ : ∃ rest, frames = .loop :: rest := by
    cases frames with
    | nil => simp at hloop
    | cons frame rest => exact ⟨rest, by rw [Option.some.inj hloop]⟩
  obtain ⟨horder, haccount, hawake, hcurrent, hbottom, honce, hqueued, hkept⟩ := h
  simp only at horder haccount hawake hcurrent hbottom honce hqueued hkept
  cases queue with
  | nil =>
      refine ⟨horder, haccount, fun hne => absurd rfl hne, fun hne => ?_, fun hlast => ?_, honce,
        hqueued, hkept⟩
      · exact (List.mem_cons.mp (hcurrent hne)).resolve_left (by simp)
      · refine hbottom ?_
        have hlast' : rest.getLast? = some .call := hlast
        rw [List.getLast?_cons, hlast']
        rfl
  | cons cb queue =>
      have hmoved : calls ++ [cb] ++ queue = calls ++ cb :: queue := by simp
      have horder' : (calls ++ [cb] ++ queue).Sublist added := by rwa [hmoved]
      have haccount' : added.Perm (calls ++ [cb] ++ queue ++ deleted) := by rwa [hmoved]
      have hbottom' : (Frame.call :: .loop :: rest).getLast? ≠ some .call := by
        rwa [List.getLast?_cons_cons]
      have honce' : ∀ ic, queue.count (.ofIc ic) ≤ 1 := fun ic =>
        ((List.sublist_cons_self cb queue).count_le _).trans (honce ic)
      obtain ⟨fn, ctx⟩ := cb
      cases fn with
      | runIdempotentCallback =>
          have hgone : .ofIc ctx ∉ queue := fun hmem => by
            have htwice := honce ctx
            have hpos := List.count_pos_iff.mpr hmem
            have hcount : (⟨.runIdempotentCallback, ctx⟩ :: queue : List (Callback φ γ)).count
                (.ofIc ctx) = queue.count (.ofIc ctx) + 1 := List.count_cons_self
            omega
          refine ⟨horder', haccount',
            fun _ => .inr (by simp [setQueued, Callbacks.runToplevelCallbacks]),
            fun _ => List.mem_cons_self, hbottom', honce', fun ic hic => ?_, fun ic hic => ?_⟩
          · have hne : ic ≠ ctx := fun heq => hgone (heq ▸ hic)
            exact (congrArg IdempotentCallback.queued (setQueued_ne hne false)).trans
              (hqueued ic (List.mem_cons_of_mem _ hic))
          · have hne : ic ≠ ctx := fun heq => by
              subst heq
              exact absurd ((setQueued_self ic false).symm.trans hic) (by simp)
            have hold : (ics ic).queued = true :=
              (congrArg IdempotentCallback.queued (setQueued_ne hne false)).symm.trans hic
            refine (hkept ic hold).imp_left fun hmem => ?_
            exact (List.mem_cons.mp hmem).resolve_left fun heq => hne (ofIc_inj.mp heq)
      | other fn =>
          refine ⟨horder', haccount', fun _ => .inr (by simp [Callbacks.runToplevelCallbacks]),
            fun _ => List.mem_cons_self, hbottom', honce', fun ic hic =>
              hqueued ic (List.mem_cons_of_mem _ hic), fun ic hic => ?_⟩
          exact (hkept ic hic).imp_left fun hmem =>
            (List.mem_cons.mp hmem).resolve_left (by simp [Callback.ofIc])

/-- A step. -/
theorem Orderly.step (h : s.Orderly) {e : CallbackEvent φ γ} (hstep : callbackStep s e = some s') :
    s'.Orderly := by
  cases e with
  | queue fn ctx =>
      obtain ⟨-, rfl⟩ := Option.ite_none_left_eq_some.mp hstep |>.imp_right Option.some.inj
      exact h.queue fn ctx
  | queueIdempotent ic =>
      obtain ⟨-, rfl⟩ := Option.ite_none_left_eq_some.mp hstep |>.imp_right Option.some.inj
      exact h.queueIdempotent ic
  | delete ctx =>
      obtain ⟨-, rfl⟩ := Option.ite_none_left_eq_some.mp hstep |>.imp_right Option.some.inj
      exact h.delete ctx
  | wakeup =>
      obtain ⟨-, rfl⟩ := Option.ite_none_left_eq_some.mp hstep |>.imp_right Option.some.inj
      refine ⟨h.order, h.account, fun _ => .inr (by simp), fun hne =>
        List.mem_cons_of_mem _ (h.current hne), fun hlast => ?_, h.once, h.queued, h.kept⟩
      have hlast' : (Frame.loop :: s.frames).getLast? = some .call := hlast
      cases hframes : s.frames.getLast? with
      | none => simp [List.getLast?_cons, hframes] at hlast'
      | some frame =>
          rw [List.getLast?_cons, hframes] at hlast'
          exact h.bottom (hframes.trans hlast')
  | loop =>
      obtain ⟨hloop, rfl⟩ := Option.ite_none_right_eq_some.mp hstep |>.imp_right Option.some.inj
      exact h.runToplevelCallbacks hloop
  | returned =>
      obtain ⟨hcall, rfl⟩ := Option.ite_none_right_eq_some.mp hstep |>.imp_right Option.some.inj
      obtain ⟨rest, hframes⟩ : ∃ rest, s.frames = .call :: rest := by
        cases hframes : s.frames with
        | nil => simp [hframes] at hcall
        | cons frame rest =>
            rw [hframes] at hcall
            exact ⟨rest, by rw [Option.some.inj hcall]⟩
      have hbottom := h.bottom
      rw [hframes] at hbottom
      -- below a function that is called there is the loop that has called it
      have hrest : rest ≠ [] := fun hnil => hbottom (by rw [hnil]; rfl)
      refine ⟨h.order, h.account, fun _ => .inr ?_, fun hne => absurd rfl hne, fun hlast => ?_,
        h.once, h.queued, h.kept⟩
      · simpa [hframes] using hrest
      · have hlast' : rest.getLast? = some .call := by
          simpa [hframes] using hlast
        refine hbottom ?_
        rw [List.getLast?_cons, hlast']
        rfl

/-- A function that waits goes on waiting, or is called. -/
theorem mem_step {fn : φ} {ctx : γ} (h : ⟨.other fn, ctx⟩ ∈ s.queue) {e : CallbackEvent φ γ}
    (he : e ≠ .delete ctx) (hstep : callbackStep s e = some s') :
    ⟨.other fn, ctx⟩ ∈ s'.queue ∨ s'.calls = s.calls ++ [⟨.other fn, ctx⟩] := by
  cases e with
  | queue fn' ctx' =>
      obtain ⟨-, rfl⟩ := Option.ite_none_left_eq_some.mp hstep |>.imp_right Option.some.inj
      exact .inl (List.mem_append_left _ h)
  | queueIdempotent ic =>
      obtain ⟨-, rfl⟩ := Option.ite_none_left_eq_some.mp hstep |>.imp_right Option.some.inj
      simp only [Callbacks.queueIdempotentCallback]
      split_ifs
      · exact .inl h
      · exact .inl (List.mem_append_left _ h)
  | delete ctx' =>
      obtain ⟨-, rfl⟩ := Option.ite_none_left_eq_some.mp hstep |>.imp_right Option.some.inj
      have hne : ctx ≠ ctx' := fun heq => he (by rw [heq])
      exact .inl (List.mem_filter.mpr ⟨h, by simp [belongs, hne]⟩)
  | wakeup =>
      obtain ⟨-, rfl⟩ := Option.ite_none_left_eq_some.mp hstep |>.imp_right Option.some.inj
      exact .inl h
  | loop =>
      obtain ⟨-, rfl⟩ := Option.ite_none_right_eq_some.mp hstep |>.imp_right Option.some.inj
      obtain ⟨queue, cbcurr, ics, wakeups, frames, added, calls, deleted⟩ := s
      cases queue with
      | nil => exact absurd h (by simp)
      | cons cb rest =>
          rcases List.mem_cons.mp h with rfl | hmem
          · exact .inr rfl
          · obtain ⟨cbfn, cbctx⟩ := cb
            cases cbfn with
            | runIdempotentCallback => exact .inl hmem
            | other fn' => exact .inl hmem
  | returned =>
      obtain ⟨-, rfl⟩ := Option.ite_none_right_eq_some.mp hstep |>.imp_right Option.some.inj
      exact .inl h

/-- A step calls one function at most. -/
theorem calls_step {e : CallbackEvent φ γ} (hstep : callbackStep s e = some s') :
    s'.calls = s.calls ∨ ∃ cb, s'.calls = s.calls ++ [cb] := by
  cases e with
  | queue fn' ctx' =>
      obtain ⟨-, rfl⟩ := Option.ite_none_left_eq_some.mp hstep |>.imp_right Option.some.inj
      exact .inl rfl
  | queueIdempotent ic =>
      obtain ⟨-, rfl⟩ := Option.ite_none_left_eq_some.mp hstep |>.imp_right Option.some.inj
      simp only [Callbacks.queueIdempotentCallback]
      split_ifs <;> exact .inl rfl
  | delete ctx' =>
      obtain ⟨-, rfl⟩ := Option.ite_none_left_eq_some.mp hstep |>.imp_right Option.some.inj
      exact .inl rfl
  | wakeup =>
      obtain ⟨-, rfl⟩ := Option.ite_none_left_eq_some.mp hstep |>.imp_right Option.some.inj
      exact .inl rfl
  | loop =>
      obtain ⟨-, rfl⟩ := Option.ite_none_right_eq_some.mp hstep |>.imp_right Option.some.inj
      obtain ⟨queue, cbcurr, ics, wakeups, frames, added, calls, deleted⟩ := s
      cases queue with
      | nil => exact .inl rfl
      | cons cb rest =>
          obtain ⟨cbfn, cbctx⟩ := cb
          cases cbfn with
          | runIdempotentCallback => exact .inr ⟨_, rfl⟩
          | other fn' => exact .inr ⟨_, rfl⟩
  | returned =>
      obtain ⟨-, rfl⟩ := Option.ite_none_right_eq_some.mp hstep |>.imp_right Option.some.inj
      exact .inl rfl

theorem orderly_start (ics : γ → IdempotentCallback φ γ) : (start ics).Orderly :=
  ⟨.refl _, .refl _, fun hne => absurd rfl hne, fun hne => absurd rfl hne, by simp [start],
    by simp [start], by simp [start], by simp [start]⟩

end Callbacks

/-- **No callback is lost**, in every run, with event loops within event loops.  What has been
queued has been called, waits or was deleted, and what is called is called in the order in which
it was queued; while a callback waits, a wakeup will come or a loop is at work; and an idempotent
callback waits at most once, and exactly while it is marked as queued, unless it was deleted. -/
theorem run_callbacks (ics : γ → IdempotentCallback φ γ) (es : List (CallbackEvent φ γ))
    (s : Callbacks φ γ) (hrun : runSteps callbackStep (Callbacks.start ics) es = some s) :
    (s.calls ++ s.queue).Sublist s.added ∧
      s.added.Perm (s.calls ++ s.queue ++ s.deleted) ∧
      (s.queue ≠ [] → 0 < s.wakeups ∨ s.frames ≠ []) ∧
      ∀ ic, s.queue.count (.ofIc ic) ≤ 1 ∧
        (.ofIc ic ∉ s.deleted → ((s.ics ic).queued = true ↔ .ofIc ic ∈ s.queue)) := by
  have h : s.Orderly :=
    runSteps_preserves (A := fun _ => True) (fun _ _ _ h _ hstep => h.step hstep)
      (Callbacks.orderly_start ics) (fun _ _ => trivial) hrun
  exact ⟨h.order, h.account, h.awake, fun ic => ⟨h.once ic, fun hkept =>
    ⟨fun hqueued => (h.kept ic hqueued).resolve_right hkept, h.queued ic⟩⟩⟩

/-- A callback is queued while another is called, and an idempotent one twice. -/
def queueingEvents : List (CallbackEvent Nat Nat) :=
  [.queue 1 5, .wakeup, .loop, .queue 2 6, .queueIdempotent 8, .queueIdempotent 8, .returned]

theorem run_callbacks_sample :
    ∃ s, runSteps callbackStep (Callbacks.start fun _ => ⟨0, 7, false⟩) queueingEvents = some s ∧
      s.queue.count (.ofIc 8) ≤ 1 := by
  obtain ⟨s, hs⟩ : ∃ s, runSteps callbackStep (Callbacks.start fun _ => ⟨0, 7, false⟩)
      queueingEvents = some s := Option.isSome_iff_exists.mp (by decide)
  exact ⟨s, hs, ((run_callbacks _ queueingEvents s hs).2.2.2 8).1⟩

end Invariant

end Events
end Qutty
