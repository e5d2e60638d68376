import Qutty.Net.Socket

/-!
# What is sent

Bytes that are written before the socket is connected are parked in `outputData`, and
`on_connected` passes them on.  It sets `writable` before it calls the plug and passes
them on afterwards.  Bytes that the plug writes in this callback overtake them.

So what is passed and what is parked are what has been given (`Fifo`) in all states of a
run up to the first error exactly if no write overtakes parked bytes
(`always_fifo_iff`).
-/

namespace Qutty
namespace Net

open Lib

variable {α : Type}

namespace QtSocket

/-- Until the first error the bytes that were given are passed or parked, in their order;
they are parked only until the socket is connected and the plug knows of it. -/
structure Fifo (s : QtSocket α) : Prop where
  order : s.failed = false → s.passed ++ s.outputData = s.given
  released : s.failed = false → s.writable = true → .connectSuccess ∉ s.stack → s.outputData = []

/-- A write does not pass bytes on in front of others that are parked. -/
def InTurn (s : QtSocket α) : Event α → Prop
  | .write data =>
      s.failed = false → s.writable = true → data ++ s.outputData = s.outputData ++ data
  | _ => True

/-- What reading and freezing leave alone. -/
structure SameOutput (s s' : QtSocket α) : Prop where
  writable : s'.writable = s.writable
  outputData : s'.outputData = s.outputData
  given : s'.given = s.given
  passed : s'.passed = s.passed
  failed : s'.failed = s.failed
  callbacks : ∀ f ∈ [Frame.connectSuccess, .connectFailed], f ∈ s'.stack ↔ f ∈ s.stack

variable {s s' : QtSocket α}

/-- The fields that a write uses. -/
def output (s : QtSocket α) : Bool × List α × List α × List α × Bool × List Frame :=
  (s.writable, s.outputData, s.given, s.passed, s.failed, s.stack)

theorem SameOutput.of_same {t : QtSocket α} (h : SameOutput t s') (ht : t.output = s.output) :
    SameOutput s s' := by
  simp only [output, Prod.mk.injEq] at ht
  obtain ⟨hw, ho, hg, hp, hf, hs⟩ := ht
  exact ⟨h.writable.trans hw, h.outputData.trans ho, h.given.trans hg, h.passed.trans hp,
    h.failed.trans hf, hs ▸ h.callbacks⟩

theorem SameOutput.fifo_iff (h : SameOutput s s') : s'.Fifo ↔ s.Fifo := by
  constructor
  · intro hf
    refine ⟨fun hfail => ?_, fun hfail hw hsucc => ?_⟩
    · simpa only [h.passed, h.outputData, h.given] using hf.order (h.failed.trans hfail)
    · exact h.outputData ▸ hf.released (h.failed.trans hfail) (h.writable.trans hw)
        (fun hmem => hsucc ((h.callbacks _ (by simp)).mp hmem))
  · intro hf
    refine ⟨fun hfail => ?_, fun hfail hw hsucc => ?_⟩
    · rw [h.passed, h.outputData, h.given]
      exact hf.order (h.failed.symm.trans hfail)
    · rw [h.outputData]
      exact hf.released (h.failed.symm.trans hfail) (h.writable.symm.trans hw)
        (fun hmem => hsucc ((h.callbacks _ (by simp)).mpr hmem))

theorem sameOutput_readLoop (s : QtSocket α) (caller : ReadCaller) :
    SameOutput s (s.readLoop caller) :=
  ⟨rfl, rfl, rfl, rfl, rfl, fun f hf => by
    rcases List.mem_pair.mp hf with rfl | rfl <;> simp [readLoop]⟩

theorem sameOutput_afterReading (s : QtSocket α) (caller : ReadCaller) :
    SameOutput s (s.afterReading caller) := by
  cases caller with
  | signal => exact ⟨rfl, rfl, rfl, rfl, rfl, fun _ _ => Iff.rfl⟩
  | thaw => exact ⟨rfl, rfl, rfl, rfl, rfl, fun _ _ => Iff.rfl⟩

theorem sameOutput_onReadyRead (s : QtSocket α) (caller : ReadCaller) :
    SameOutput s (s.onReadyRead caller) := by
  rw [onReadyRead]
  split_ifs
  · exact (sameOutput_afterReading { s with frozenReadable := true } caller).of_same rfl
  · exact sameOutput_readLoop s caller

theorem sameOutput_arrive (s : QtSocket α) (data : List α) : SameOutput s (s.arrive data) := by
  rw [arrive]
  dsimp only
  split_ifs
  · exact ⟨rfl, rfl, rfl, rfl, rfl, fun _ _ => Iff.rfl⟩
  · exact (sameOutput_onReadyRead _ .signal).of_same rfl

theorem sameOutput_skTcpSetFrozen (s : QtSocket α) (isFrozen : Bool) :
    SameOutput s (s.skTcpSetFrozen isFrozen) := by
  rw [skTcpSetFrozen]
  dsimp only
  split_ifs
  · exact ⟨rfl, rfl, rfl, rfl, rfl, fun _ _ => Iff.rfl⟩
  · exact (sameOutput_onReadyRead _ .thaw).of_same rfl
  · exact ⟨rfl, rfl, rfl, rfl, rfl, fun _ _ => Iff.rfl⟩

theorem sameOutput_plugReturn {caller : ReadCaller} {stack : List Frame}
    (hstack : s.stack = .receive caller :: stack) (h : s.plugReturn = some s') :
    SameOutput s s' := by
  have hpop : ∀ t, SameOutput { s with stack := stack } t → SameOutput s t :=
    fun t ht => ⟨ht.writable, ht.outputData, ht.given, ht.passed, ht.failed,
      fun f hf => (ht.callbacks f hf).trans (by
        rcases List.mem_pair.mp hf with rfl | rfl <;> simp [hstack])⟩
  rw [plugReturn, hstack, Option.some.injEq] at h
  dsimp only at h
  rw [← h]
  split_ifs
  · exact hpop _ (sameOutput_afterReading _ caller)
  · exact hpop _ (sameOutput_readLoop _ caller)

/-- A write keeps the order exactly if it is in its turn. -/
theorem fifo_skTcpWrite_iff (h : s.Fifo) (data : List α) :
    (s.skTcpWrite data).Fifo ↔ s.InTurn (.write data) := by
  cases hw : s.writable with
  | false =>
      have hstep : s.skTcpWrite data =
          { s with given := s.given ++ data, outputData := s.outputData ++ data } := by
        rw [skTcpWrite]
        simp [hw]
      rw [hstep, InTurn]
      refine iff_of_true ⟨fun hfail => ?_, fun _ hwritable => ?_⟩ (fun _ hwritable => ?_)
      · rw [← List.append_assoc, h.order hfail]
      · exact absurd hwritable (by simp [hw])
      · exact absurd hwritable (by simp [hw])
  | true =>
      have hstep : s.skTcpWrite data =
          { s with given := s.given ++ data, passed := s.passed ++ data } := by
        rw [skTcpWrite]
        simp [hw, qtWrite]
      rw [hstep, InTurn]
      constructor
      · intro hf hfail _
        have horder := hf.order hfail
        rw [← h.order hfail, List.append_assoc, List.append_assoc] at horder
        exact List.append_cancel_left horder
      · intro hturn
        refine ⟨fun hfail => ?_, h.released⟩
        rw [← h.order hfail, List.append_assoc, List.append_assoc, hturn hfail hw]

/-- The plug learns of a failure only after an error. -/
def FailureKnown (s : QtSocket α) : Prop := .connectFailed ∈ s.stack → s.failed = true

/-- **One step** keeps the order exactly if it is in its turn. -/
theorem fifo_step_iff (hknown : s.FailureKnown) (h : s.Fifo) {e : Event α} (hstep : s.step e = some s') :
    s'.Fifo ↔ s.InTurn e := by
  cases e with
  | write data =>
      obtain rfl := Option.some.inj hstep
      exact fifo_skTcpWrite_iff h data
  | connected =>
      obtain rfl := Option.some.inj hstep
      refine iff_of_true ⟨h.order, fun _ _ hsucc => ?_⟩ trivial
      simp [onConnected] at hsucc
  | disconnected =>
      obtain rfl := Option.some.inj hstep
      refine iff_of_true ⟨h.order, fun _ hw => ?_⟩ trivial
      simp [onDisconnected] at hw
  | error =>
      obtain rfl := Option.some.inj hstep
      have hfailed : s.onError.failed = true := by
        rw [onError]
        dsimp only
        split_ifs <;> rfl
      refine iff_of_true ⟨fun hfail => ?_, fun hfail => ?_⟩ trivial
      · exact absurd hfail (by simp [hfailed])
      · exact absurd hfail (by simp [hfailed])
  | arrive data =>
      obtain rfl := Option.some.inj hstep
      exact iff_of_true ((sameOutput_arrive s data).fifo_iff.mpr h) trivial
  | setFrozen isFrozen =>
      obtain rfl := Option.some.inj hstep
      exact iff_of_true ((sameOutput_skTcpSetFrozen s isFrozen).fifo_iff.mpr h) trivial
  | plugReturn =>
      refine iff_of_true ?_ trivial
      have hreturn : s.plugReturn = some s' := hstep
      rcases hstack : s.stack with _ | ⟨_ | _ | caller, stack⟩
      · rw [plugReturn, hstack] at hreturn
        exact absurd hreturn (by simp)
      · -- the parked bytes are passed on
        rw [plugReturn, hstack] at hreturn
        obtain rfl := Option.some.inj hreturn
        refine ⟨fun hfail => ?_, fun _ _ _ => rfl⟩
        simpa [writeWaiting, qtWrite] using h.order hfail
      · have hfailed := hknown (by simp [hstack])
        rw [plugReturn, hstack] at hreturn
        obtain rfl := Option.some.inj hreturn
        refine ⟨fun hfail => ?_, fun hfail => ?_⟩
        · exact absurd hfail (by simp [dropWaiting, hfailed])
        · exact absurd hfail (by simp [dropWaiting, hfailed])
      · exact (sameOutput_plugReturn hstack hreturn).fifo_iff.mpr h

theorem SameOutput.failureKnown (h : SameOutput s s') (hs : s.FailureKnown) :
    s'.FailureKnown := by
  intro hmem
  rw [h.failed]
  exact hs ((h.callbacks _ (by simp)).mp hmem)

theorem failureKnown_step (h : s.FailureKnown) {e : Event α} (hstep : s.step e = some s') :
    s'.FailureKnown := by
  cases e with
  | write data =>
      obtain rfl := Option.some.inj hstep
      rw [skTcpWrite]
      dsimp only
      split_ifs <;> exact h
  | connected =>
      obtain rfl := Option.some.inj hstep
      intro hmem
      exact h (by simpa [onConnected] using hmem)
  | disconnected =>
      obtain rfl := Option.some.inj hstep
      exact h
  | error =>
      obtain rfl := Option.some.inj hstep
      intro _
      rw [onError]
      dsimp only
      split_ifs <;> rfl
  | arrive data =>
      obtain rfl := Option.some.inj hstep
      exact (sameOutput_arrive s data).failureKnown h
  | setFrozen isFrozen =>
      obtain rfl := Option.some.inj hstep
      exact (sameOutput_skTcpSetFrozen s isFrozen).failureKnown h
  | plugReturn =>
      have hreturn : s.plugReturn = some s' := hstep
      rcases hstack : s.stack with _ | ⟨_ | _ | caller, stack⟩
      · rw [plugReturn, hstack] at hreturn
        exact absurd hreturn (by simp)
      · rw [plugReturn, hstack] at hreturn
        obtain rfl := Option.some.inj hreturn
        exact fun hmem => h (by rw [hstack]; exact List.mem_cons_of_mem _ hmem)
      · rw [plugReturn, hstack] at hreturn
        obtain rfl := Option.some.inj hreturn
        exact fun hmem => h (by rw [hstack]; exact List.mem_cons_of_mem _ hmem)
      · exact (sameOutput_plugReturn hstack hreturn).failureKnown h

/-- **The bytes are passed on in their order** in all states of a run exactly if every
write is in its turn. -/
theorem always_fifo_iff (es : List (Event α)) :
    Always step Fifo (new : QtSocket α) es ↔ Steps step InTurn (new : QtSocket α) es :=
  always_iff_steps FailureKnown (fun s e s' hs hstep => failureKnown_step hs hstep)
    (fun s e s' hs hp hstep => fifo_step_iff hs hp hstep) (fun h => absurd h (by simp [new]))
    ⟨fun _ => rfl, fun _ _ _ => rfl⟩

/-- The plug writes before the socket is connected, and again when it learns of it. -/
def greeting : List (Event Nat) := [.write [1], .connected, .write [2], .plugReturn]

/-- The second write overtakes the first. -/
theorem not_always_fifo_greeting :
    (runSteps step (new : QtSocket Nat) greeting).map (fun s => (s.failed, s.given, s.passed)) =
        some (false, [1, 2], [2, 1]) ∧
      ¬ Always step Fifo (new : QtSocket Nat) greeting := by
  have hrun : (runSteps step (new : QtSocket Nat) greeting).map
      (fun s => (s.failed, s.given, s.passed)) = some (false, [1, 2], [2, 1]) := by decide
  refine ⟨hrun, fun hall => ?_⟩
  obtain ⟨s, hs, hfields⟩ := Option.map_eq_some_iff.mp hrun
  simp only [Prod.mk.injEq] at hfields
  obtain ⟨hfailed, hgiven, hpassed⟩ := hfields
  have horder := (hall.last hs).order hfailed
  rw [hgiven, hpassed, List.cons_append, List.cons.injEq] at horder
  exact absurd horder.1 (by decide)

end QtSocket

end Net
end Qutty
