import Qutty.Net.Socket

/-!
# What is received

A frozen socket keeps the data that arrive, and `frozen_readable` says that there are
some.  The loop of `on_readyRead` goes on until nothing is left, and does not look at
`frozen` again: where the plug freezes the socket in `plug_receive` and data are left, it
is called once more.

Nothing is lost, and nothing is left behind (`received_step`).  The plug is never called
while the socket is frozen exactly if every `plug_receive` returns with the socket thawed
or with nothing left to read (`always_flow_iff`).
-/

namespace Qutty
namespace Net

open Lib

variable {α : Type}

namespace QtSocket

/-- The plug is inside `plug_receive`. -/
def Reading (s : QtSocket α) : Prop := ∃ caller, .receive caller ∈ s.stack

/-- Flow control: the plug gets the data that have arrived, in their order and only while
the socket is not frozen; and outside of `plug_receive` data wait only in a frozen socket
that knows of them. -/
structure Flow (s : QtSocket α) : Prop where
  thawed : ∀ call ∈ s.received, call.1 = false
  order : s.received.flatMap Prod.snd ++ s.buffer = s.arrived
  delivered : ¬ s.Reading → s.buffer ≠ [] → s.frozen = true ∧ s.frozenReadable = true

/-- `plug_receive` returns with the socket thawed or with nothing left to read. -/
def Yields (s : QtSocket α) : Event α → Prop
  | .plugReturn => ∀ caller stack, s.stack = .receive caller :: stack →
      s.frozen = true → s.buffer = []
  | _ => True

/-- What holds of every run. -/
structure Sound (s : QtSocket α) : Prop where
  order : s.received.flatMap Prod.snd ++ s.buffer = s.arrived
  delivered : ¬ s.Reading → s.buffer ≠ [] → s.frozen = true ∧ s.frozenReadable = true
  emitting : s.stack.count (.receive .signal) = if s.emitting then 1 else 0

/-- The fields that reading uses. -/
def input (s : QtSocket α) : Bool × Bool × List α × Bool × List α × List (Bool × List α) :=
  (s.frozen, s.frozenReadable, s.buffer, s.emitting, s.arrived, s.received)

variable {s s' t : QtSocket α}

/-- Other callbacks are none of its business. -/
theorem Sound.of_input (h : s.Sound) (hinput : t.input = s.input)
    (hreceive : ∀ c, t.stack.count (.receive c) = s.stack.count (.receive c)) : t.Sound := by
  simp only [input, Prod.mk.injEq] at hinput
  obtain ⟨hf, hfr, hb, he, ha, hr⟩ := hinput
  have hreading : t.Reading ↔ s.Reading := by
    refine exists_congr fun c => ?_
    rw [← List.count_pos_iff, ← List.count_pos_iff, hreceive c]
  refine ⟨?_, ?_, ?_⟩
  · rw [hr, hb, ha]
    exact h.order
  · rw [hreading, hb, hf, hfr]
    exact h.delivered
  · rw [hreceive, he]
    exact h.emitting

/-- A turn of the loop hands out the first bytes that wait. -/
theorem sound_readLoop {caller : ReadCaller}
    (horder : s.received.flatMap Prod.snd ++ s.buffer = s.arrived)
    (hcount : (Frame.receive caller :: s.stack).count (.receive .signal) =
      if s.emitting then 1 else 0) : (s.readLoop caller).Sound where
  order := by simpa [readLoop] using horder
  delivered hno := absurd ⟨caller, by simp [readLoop]⟩ hno
  emitting := hcount

theorem Sound.arrive (h : s.Sound) (data : List α) : (s.arrive data).Sound := by
  have horder : s.received.flatMap Prod.snd ++ (s.buffer ++ data) = s.arrived ++ data := by
    rw [← List.append_assoc, h.order]
  have hcount := h.emitting
  rw [QtSocket.arrive]
  dsimp only
  by_cases he : s.emitting = true
  · rw [if_pos he]
    rw [if_pos he] at hcount
    have hmem : Frame.receive .signal ∈ s.stack := List.count_pos_iff.mp (by rw [hcount]; omega)
    refine ⟨horder, fun hno => absurd ⟨.signal, hmem⟩ hno, ?_⟩
    exact h.emitting
  · rw [if_neg he, onReadyRead]
    rw [if_neg he] at hcount
    dsimp only
    by_cases hf : s.frozen = true
    · rw [if_pos hf]
      exact ⟨horder, fun _ _ => ⟨hf, rfl⟩, hcount⟩
    · rw [if_neg hf]
      exact sound_readLoop horder (by simpa using hcount)

theorem Sound.skTcpSetFrozen (h : s.Sound) (isFrozen : Bool) :
    (s.skTcpSetFrozen isFrozen).Sound := by
  rw [QtSocket.skTcpSetFrozen]
  dsimp only
  by_cases hsame : s.frozen = isFrozen
  · rw [if_pos hsame]
    exact h
  · rw [if_neg hsame]
    by_cases hread : (!isFrozen && s.frozenReadable) = true
    · obtain ⟨hthaw, -⟩ : isFrozen = false ∧ s.frozenReadable = true := by simpa using hread
      rw [if_pos hread, onReadyRead, if_neg (by simp [hthaw])]
      exact sound_readLoop h.order (by simpa using h.emitting)
    · rw [if_neg hread]
      refine ⟨h.order, fun hno hbuf => ?_, h.emitting⟩
      obtain ⟨hf, hfr⟩ := h.delivered hno hbuf
      -- it was frozen, so it is thawed, and then it reads
      have hthaw : isFrozen = false := by
        cases isFrozen with
        | false => rfl
        | true => exact absurd hf hsame
      exact absurd (by simp [hthaw, hfr]) hread

/-- The loop ends when nothing is left. -/
theorem Sound.afterReading {caller : ReadCaller} {stack : List Frame} (h : s.Sound)
    (hstack : s.stack = .receive caller :: stack) (hbuf : s.buffer = []) :
    ({ s with stack := stack }.afterReading caller).Sound := by
  have hcount := h.emitting
  rw [hstack] at hcount
  cases caller with
  | signal =>
      refine ⟨h.order, fun _ hne => absurd hbuf hne, ?_⟩
      rw [List.count_cons_self] at hcount
      have hzero : stack.count (.receive .signal) = 0 := by
        split_ifs at hcount
        all_goals omega
      exact hzero
  | thaw =>
      refine ⟨h.order, fun _ hne => absurd hbuf hne, ?_⟩
      rw [List.count_cons_of_ne (by decide)] at hcount
      exact hcount

theorem Sound.plugReturn (h : s.Sound) (hreturn : s.plugReturn = some s') : s'.Sound := by
  rcases hstack : s.stack with _ | ⟨_ | _ | caller, stack⟩
  · rw [QtSocket.plugReturn, hstack] at hreturn
    exact absurd hreturn (by simp)
  · rw [QtSocket.plugReturn, hstack] at hreturn
    obtain rfl := Option.some.inj hreturn
    exact h.of_input rfl (fun c => by rw [hstack]; simp [writeWaiting, qtWrite])
  · rw [QtSocket.plugReturn, hstack] at hreturn
    obtain rfl := Option.some.inj hreturn
    exact h.of_input rfl (fun c => by rw [hstack]; simp [dropWaiting])
  · rw [QtSocket.plugReturn, hstack] at hreturn
    dsimp only at hreturn
    obtain rfl := Option.some.inj hreturn
    by_cases hbuf : s.buffer.isEmpty = true
    · rw [if_pos hbuf]
      exact h.afterReading hstack (List.isEmpty_iff.mp hbuf)
    · rw [if_neg hbuf]
      have hcount := h.emitting
      rw [hstack] at hcount
      exact sound_readLoop h.order hcount

/-- **One step** loses nothing and leaves nothing behind. -/
theorem sound_step (h : s.Sound) {e : Event α} (hstep : s.step e = some s') : s'.Sound := by
  cases e with
  | write data =>
      obtain rfl := Option.some.inj hstep
      rw [skTcpWrite]
      dsimp only
      split_ifs
      · exact h.of_input rfl (fun _ => rfl)
      · exact h.of_input rfl (fun _ => rfl)
  | connected =>
      obtain rfl := Option.some.inj hstep
      exact h.of_input rfl (fun c => by simp [onConnected])
  | disconnected =>
      obtain rfl := Option.some.inj hstep
      exact h.of_input rfl (fun _ => rfl)
  | error =>
      obtain rfl := Option.some.inj hstep
      rw [onError]
      dsimp only
      split_ifs
      · exact h.of_input rfl (fun _ => rfl)
      · exact h.of_input rfl (fun c => by simp)
  | arrive data =>
      obtain rfl := Option.some.inj hstep
      exact h.arrive data
  | setFrozen isFrozen =>
      obtain rfl := Option.some.inj hstep
      exact h.skTcpSetFrozen isFrozen
  | plugReturn => exact h.plugReturn hstep

/-- The plug has been called only while the socket was not frozen. -/
def CalledThawed (s : QtSocket α) : Prop := ∀ call ∈ s.received, call.1 = false

theorem calledThawed_readLoop_iff (h : s.CalledThawed) (caller : ReadCaller) :
    (s.readLoop caller).CalledThawed ↔ s.frozen = false := by
  rw [CalledThawed] at h ⊢
  simp only [readLoop, List.forall_mem_append, List.forall_mem_singleton]
  exact and_iff_right h

theorem calledThawed_onReadyRead (h : s.CalledThawed) (caller : ReadCaller) :
    (s.onReadyRead caller).CalledThawed := by
  rw [onReadyRead]
  by_cases hf : s.frozen = true
  · rw [if_pos hf]
    cases caller <;> exact h
  · rw [if_neg hf, calledThawed_readLoop_iff h]
    simpa using hf

/-- **One step** calls the plug of a frozen socket exactly if `plug_receive` does not
yield. -/
theorem calledThawed_step_iff (h : s.CalledThawed) {e : Event α} (hstep : s.step e = some s') :
    s'.CalledThawed ↔ s.Yields e := by
  cases e with
  | write data =>
      obtain rfl := Option.some.inj hstep
      rw [skTcpWrite]
      dsimp only
      split_ifs <;> exact iff_of_true h trivial
  | connected =>
      obtain rfl := Option.some.inj hstep
      exact iff_of_true h trivial
  | disconnected =>
      obtain rfl := Option.some.inj hstep
      exact iff_of_true h trivial
  | error =>
      obtain rfl := Option.some.inj hstep
      rw [onError]
      dsimp only
      split_ifs <;> exact iff_of_true h trivial
  | arrive data =>
      obtain rfl := Option.some.inj hstep
      refine iff_of_true ?_ trivial
      rw [QtSocket.arrive]
      dsimp only
      split_ifs
      · exact h
      · refine calledThawed_onReadyRead ?_ .signal
        exact h
  | setFrozen isFrozen =>
      obtain rfl := Option.some.inj hstep
      refine iff_of_true ?_ trivial
      rw [QtSocket.skTcpSetFrozen]
      dsimp only
      split_ifs
      · exact h
      · refine calledThawed_onReadyRead ?_ .thaw
        exact h
      · exact h
  | plugReturn =>
      have hreturn : s.plugReturn = some s' := hstep
      rcases hstack : s.stack with _ | ⟨_ | _ | caller, stack⟩
      · rw [QtSocket.plugReturn, hstack] at hreturn
        exact absurd hreturn (by simp)
      · rw [QtSocket.plugReturn, hstack] at hreturn
        obtain rfl := Option.some.inj hreturn
        exact iff_of_true h (fun c r hr => absurd (hstack.symm.trans hr) (by simp))
      · rw [QtSocket.plugReturn, hstack] at hreturn
        obtain rfl := Option.some.inj hreturn
        exact iff_of_true h (fun c r hr => absurd (hstack.symm.trans hr) (by simp))
      · rw [QtSocket.plugReturn, hstack] at hreturn
        dsimp only at hreturn
        obtain rfl := Option.some.inj hreturn
        by_cases hbuf : s.buffer.isEmpty = true
        · rw [if_pos hbuf]
          refine iff_of_true ?_ (fun _ _ _ _ => List.isEmpty_iff.mp hbuf)
          cases caller <;> exact h
        · have hpop : CalledThawed { s with stack := stack } := h
          rw [if_neg hbuf, calledThawed_readLoop_iff hpop]
          have hne : s.buffer ≠ [] := fun h0 => hbuf (List.isEmpty_iff.mpr h0)
          constructor
          · intro hf _ _ _ htrue
            exact absurd htrue (by simpa using hf)
          · intro hyields
            by_contra hfrozen
            exact hne (hyields caller stack hstack (by simpa using hfrozen))

/-- **Flow control holds** in all states of a run exactly if every `plug_receive` returns
with the socket thawed or with nothing left to read. -/
theorem always_flow_iff (es : List (Event α)) :
    Always step Flow (new : QtSocket α) es ↔ Steps step Yields (new : QtSocket α) es := by
  refine always_iff_steps Sound (fun s e s' hs hstep => sound_step hs hstep)
    (fun s e s' hs hp hstep => ?_) ⟨rfl, fun _ hne => absurd rfl hne, rfl⟩
    ⟨by simp [new], rfl, fun _ hne => absurd rfl hne⟩
  have hsound := sound_step hs hstep
  rw [← calledThawed_step_iff hp.thawed hstep]
  exact ⟨fun hf => hf.thawed, fun hc => ⟨hc, hsound.order, hsound.delivered⟩⟩

/-- Where more data arrive than one turn of the loop reads and the plug freezes the socket
when it gets the first, it gets more although the socket is frozen. -/
theorem received_flood {data : List α} (h : readSize < data.length) :
    (runSteps step (new : QtSocket α) [.arrive data, .setFrozen true, .plugReturn]).map
        QtSocket.received =
      some [(false, data.take readSize), (true, (data.drop readSize).take readSize)] := by
  have hlong : ¬ data.length ≤ readSize := by omega
  have harrive : (new : QtSocket α).arrive data =
      { (new : QtSocket α) with
        buffer := data.drop readSize
        arrived := data
        emitting := true
        received := [(false, data.take readSize)]
        stack := [.receive .signal] } := rfl
  rw [runSteps, step, Option.bind_some, harrive]
  simp [runSteps, step, skTcpSetFrozen, plugReturn, readLoop, new, hlong]

/-- The plug of a frozen socket is called. -/
theorem not_always_flow_flood :
    ¬ Always step Flow (new : QtSocket Nat)
      [.arrive (List.replicate 20481 0), .setFrozen true, .plugReturn] := by
  intro hall
  have hlong : readSize < (List.replicate 20481 0).length := by
    rw [List.length_replicate, readSize]
    omega
  obtain ⟨s, hs, hreceived⟩ := Option.map_eq_some_iff.mp (received_flood hlong)
  have hflow := (hall.last hs).thawed
  rw [hreceived] at hflow
  exact absurd (hflow _ (List.mem_cons_of_mem _ (List.mem_singleton_self _))) (by simp)

end QtSocket

end Net
end Qutty
