import Qutty.Window.Backend
import Qutty.Lib.Aborting

/-!
# Entering control mode

When the introducer `ESC P 1000p` is complete, `term_out` hands the input that
it has not yet read to the gateway.  Two slips make that impossible.

* The bytes of the current granule that are left to read are counted as
  `nchars_used - nchars_got`, which is not positive.  If it is negative, the
  `memcpy` that follows gets a negative size.
* If it is zero, the rest is taken from `inbuf`, where the current granule still
  is, introducer and all, because granules are consumed by the next iteration.

So whenever the window enters control mode and survives it, the gateway gets the
byte that completed the introducer (`Entered`), and never exactly what follows
the introducer.
-/

namespace Qutty

open Lib

variable {α ε ρ σ π : Type}

/-- The bytes that the gateway received. -/
def received (trace : List (WindowEvent α π)) : List α :=
  trace.flatMap (fun
    | .gatewayData bytes => bytes
    | _ => [])

@[simp] theorem received_nil : received ([] : List (WindowEvent α π)) = [] := rfl

@[simp] theorem received_append (s t : List (WindowEvent α π)) :
    received (s ++ t) = received s ++ received t :=
  List.flatMap_append

@[simp] theorem received_gatewayData (bytes : List α) (t : List (WindowEvent α π)) :
    received (.gatewayData bytes :: t) = bytes ++ received t := rfl

/-- The window has gone on from `w` to `w'`, with events that satisfy `P`. -/
def Appends (P : List (WindowEvent α π) → Prop) (w w' : GuiTerminalWindow α ε ρ σ π) :
    Prop :=
  ∃ new, w'.trace = w.trace ++ new ∧ P new

/-- Every introducer that was obeyed ended up at the gateway. -/
def Entered (events : List (WindowEvent α π)) : Prop :=
  ∀ b, .entered b ∈ events → b ∈ received events

theorem Entered.append {s t : List (WindowEvent α π)} (hs : Entered s) (ht : Entered t) :
    Entered (s ++ t) := by
  intro b hb
  rw [received_append]
  rcases List.mem_append.mp hb with hb | hb
  · exact List.mem_append_left _ (hs b hb)
  · exact List.mem_append_right _ (ht b hb)

theorem Entered.of_not_mem {s : List (WindowEvent α π)} (h : ∀ b, .entered b ∉ s) :
    Entered s := by
  intro b hb
  exact absurd hb (h b)

instance : IsPreorder (GuiTerminalWindow α ε ρ σ π) (Appends Entered) where
  refl w := ⟨[], by simp, .of_not_mem (by simp)⟩
  trans := by
    rintro w₁ w₂ w₃ ⟨n₁, h₁, e₁⟩ ⟨n₂, h₂, e₂⟩
    exact ⟨n₁ ++ n₂, by rw [h₂, h₁, List.append_assoc], e₁.append e₂⟩

/-- A step that leaves the trace alone. -/
theorem Appends.of_trace_eq {w w' : GuiTerminalWindow α ε ρ σ π} (h : w'.trace = w.trace) :
    Appends Entered w w' :=
  ⟨[], by simp [h], .of_not_mem (by simp)⟩

namespace Window

variable [Octet α] (W : Window α ε ρ σ π)

theorem parseCommand_enters (line : List α) :
    Ensures (Appends Entered) (W.parseCommand line) := by
  intro w rc w' h
  simp only [parseCommand, EStateM.run] at h
  split at h
  · cases h
  · split at h
    · cases h
    · cases h
      split_ifs
      · exact ⟨[.startDetach], rfl, .of_not_mem (by simp)⟩
      · exact .of_trace_eq rfl

omit [Octet α] in
theorem termDataWith_enters {termOut : WindowM α ε ρ σ π Unit}
    (hout : Ensures (Appends Entered) termOut) (data : List α) :
    Ensures (Appends Entered) (termDataWith termOut data) := by
  unfold termDataWith
  refine .bind (.of_modify fun w => ?_) fun _ => .bind .get fun w => ?_
  · exact ⟨[.termData data], rfl, .of_not_mem (by simp)⟩
  · split_ifs
    · refine .bind (.of_modify fun w => .of_trace_eq rfl) fun _ => .bind hout fun _ => ?_
      exact .bind (.of_modify fun w => .of_trace_eq rfl) fun _ => .bind .get fun w => .pure _
    · exact .bind .get fun w => .pure _

/-- A call of the gateway begins with the data that it was given. -/
theorem gatewayFromBackend_enters {termData : List α → WindowM α ε ρ σ π Nat}
    (hdata : ∀ data, Ensures (Appends Entered) (termData data))
    {data : List α} {w w' : GuiTerminalWindow α ε ρ σ π} {rc : Nat}
    (h : (W.gatewayFromBackend termData data).run w = .ok rc w') :
    ∃ new, w'.trace = w.trace ++ .gatewayData data :: new ∧ Entered new := by
  simp only [gatewayFromBackend, run_bind_ok, EStateM.run_get, EStateM.Result.ok.injEq] at h
  obtain ⟨_, _, ⟨rfl, rfl⟩, h⟩ := h
  split at h
  · cases h
  · rename_i g hg
    simp only [run_bind_ok, EStateM.run_modify, EStateM.run_pure,
      EStateM.Result.ok.injEq] at h
    obtain ⟨_, _, ⟨-, rfl⟩, r, w₂, hr, _, _, ⟨-, rfl⟩, -, rfl⟩ := h
    rw [Tmux.fromBackend_eq] at hr
    have hens : Ensures (Appends Entered) (do
        (do let _ ← termData data : WindowM α ε ρ σ π Unit)
        Tmux.returnOf g.buffer data <$> feedUntil
          (Tmux.accepts (⟨fun data => do let _ ← termData data, W.parseCommand⟩ :
            Tmux.GatewayHooks (WindowM α ε ρ σ π) α))
          (recordsFrom Tmux.isNewline g.buffer.content data)) := by
      refine .bind (.bind (hdata data) fun _ => .pure _) fun _ => .map _ ?_
      exact .feedUntil (fun line => .bind (W.parseCommand_enters line) fun _ => .pure _) _
    obtain ⟨new, hnew, hent⟩ := hens _ _ _ hr
    exact ⟨new, by rw [hnew]; simp [GuiTerminalWindow.record], hent⟩

/-- Control mode is only entered at the end of a granule. -/
theorem enterTmux_used {l : Terminal.ReadAhead α} {b : α}
    {w w' : GuiTerminalWindow α ε ρ σ π} (h : (W.enterTmux l b).run w = .ok () w') :
    l.used = l.chars.length := by
  obtain ⟨_, w₁, -, h⟩ := run_bind_ok.mp h
  split_ifs at h with hused
  · exact hused
  · cases h

/-- **Entering**: the byte that completed the introducer goes to the gateway. -/
theorem enterTmux_enters {l : Terminal.ReadAhead α} {b : α}
    {w w' : GuiTerminalWindow α ε ρ σ π} (hb : b ∈ w.term.inbuf.content)
    (h : (W.enterTmux l b).run w = .ok () w') : Appends Entered w w' := by
  simp only [enterTmux, initTmuxControllerMode, run_bind_ok, EStateM.run_get,
    EStateM.Result.ok.injEq] at h
  obtain ⟨_, w₁, ⟨_, _, ⟨rfl, rfl⟩, hinit⟩, h⟩ := h
  split_ifs at hinit with hmode
  · simp only [EStateM.run_modify, EStateM.Result.ok.injEq, true_and] at hinit
    subst hinit
    split_ifs at h with hused
    · simp only [run_bind_ok, EStateM.run_get, EStateM.run_set, EStateM.run_modify,
        EStateM.Result.ok.injEq] at h
      obtain ⟨_, _, ⟨rfl, rfl⟩, _, w₂, ⟨-, rfl⟩, rc, w₃, hgw, -, rfl⟩ := h
      obtain ⟨new, hnew, hent⟩ := W.gatewayFromBackend_enters
        (fun data => termDataWith_enters (.pure ()) data) hgw
      refine ⟨.entered b :: .gatewayData (w.term.inbuf.fetch w.term.inbuf.size) :: new, ?_, ?_⟩
      · rw [hnew]
        simp [GuiTerminalWindow.record]
      · intro c hc
        have hrec : received (.entered b ::
            .gatewayData (w.term.inbuf.fetch w.term.inbuf.size) :: new) =
              w.term.inbuf.content ++ received new := by
          rw [Bufchain.fetch_size]
          rfl
        rw [hrec]
        rcases List.mem_cons.mp hc with hc | hc
        · cases hc
          exact List.mem_append_left _ hb
        · have hc : .entered c ∈ new := by simpa using hc
          exact List.mem_append_right _ (hent c hc)
    · cases h
  · cases hinit

theorem resume_enters {l l' : Terminal.ReadAhead α} {w w' : GuiTerminalWindow α ε ρ σ π}
    (hl : l.used = l.chars.length) (h : (W.resume l).run w = .ok l' w') :
    Appends Entered w w' := by
  cases hscan : Terminal.scan W.emulator (w.term.inbuf.size - l.used) w.term l with
  | mk t r =>
      obtain ⟨l₁, e⟩ := r
      cases e with
      | done =>
          rw [resume_done hscan] at h
          cases h
          exact .of_trace_eq rfl
      | introducer b =>
          rw [resume_introducer hscan] at h
          obtain ⟨_, w₁, h₁, h₂⟩ := run_bind_ok.mp h
          cases h₂
          have hb := Terminal.scan_introducer W.emulator (.inl hl) hscan
          have hent := W.enterTmux_enters (w := { w with term := t }) hb h₁
          exact hent

theorem outLoop_enters : Ensures (Appends Entered) W.outLoop := by
  intro w l' w' h
  cases hscan : Terminal.scan W.emulator w.term.inbuf.size w.term ⟨[], 0⟩ with
  | mk t r =>
      obtain ⟨l, e⟩ := r
      cases e with
      | done =>
          rw [outLoop_done hscan] at h
          cases h
          exact .of_trace_eq rfl
      | introducer b =>
          rw [outLoop_introducer hscan] at h
          obtain ⟨_, w₁, h₁, h₂⟩ := run_bind_ok.mp h
          have hb := Terminal.scan_introducer W.emulator (.inl rfl) hscan
          have hent := W.enterTmux_enters (w := { w with term := t }) hb h₁
          exact trans_of _ hent (W.resume_enters (W.enterTmux_used h₁) h₂)

theorem termOut_enters : Ensures (Appends Entered) W.termOut := by
  refine .bind .get fun w => .ite (.pure _) (.bind W.outLoop_enters fun l => ?_)
  exact .of_modify fun w => .of_trace_eq rfl

theorem termData_enters (data : List α) : Ensures (Appends Entered) (W.termData data) :=
  termDataWith_enters W.termOut_enters data

theorem fromBackend_enters (data : List α) :
    Ensures (Appends Entered) (W.fromBackend data) := by
  have hgw : Ensures (Appends Entered) (W.gatewayFromBackend W.termData data) := by
    intro w rc w' h
    obtain ⟨new, hnew, hent⟩ := W.gatewayFromBackend_enters W.termData_enters h
    refine ⟨.gatewayData data :: new, hnew, ?_⟩
    exact Entered.append (s := [.gatewayData data]) (.of_not_mem (by simp)) hent
  have hdetach : Ensures (Appends Entered) W.detachTmuxControllerMode := by
    refine .bind .get fun w => .ite ?_ (.throw _)
    split
    · exact .throw _
    · exact .of_modify fun w => ⟨_, rfl, .of_not_mem (by simp)⟩
  refine .bind .get fun w => .ite ?_ (W.termData_enters data)
  refine .bind hgw fun rc => .bind .get fun w => .ite ?_ (W.termData_enters data)
  exact .bind hdetach fun _ => W.termData_enters _

theorem fromBackends_enters (chunks : List (List α)) :
    Ensures (Appends Entered) (W.fromBackends chunks) := by
  induction chunks with
  | nil => exact .pure ()
  | cons data chunks ih => exact .bind (W.fromBackend_enters data) fun _ => ih

end Window

section HandOver

/-- The introducer of control mode. -/
def introducer : List UInt8 := 0x1b :: 0x50 :: tmuxIntroducer

/-- Control mode is entered with the byte at position `n` of the stream, and
the gateway gets exactly what follows it. -/
def HandsOver (W : Window (Nat × UInt8) ε ρ σ π) (e : ε) (n : Nat)
    (chunks : List (List (Nat × UInt8))) : Prop :=
  ∃ w b, (W.fromBackends chunks).run (GuiTerminalWindow.init e) = .ok () w ∧
    chunks.flatten[n]? = some b ∧ .entered b ∈ w.trace ∧
    received w.trace = chunks.flatten.drop (n + 1)

theorem not_mem_drop_of_nodup {l : List α} (hl : l.Nodup) {n : Nat} {b : α}
    (hb : l[n]? = some b) : b ∉ l.drop (n + 1) := by
  obtain ⟨hn, rfl⟩ := List.getElem?_eq_some_iff.mp hb
  have hcut : l.drop n = l[n] :: l.drop (n + 1) := List.drop_eq_getElem_cons hn
  have hdrop : (l[n] :: l.drop (n + 1)).Nodup := by
    rw [← hcut]
    exact hl.sublist (List.drop_sublist n l)
  exact (List.nodup_cons.mp hdrop).1

/-- **The hand-over never succeeds**, whatever stands before and after the
introducer, however the stream is cut and whatever the emulation does. -/
theorem not_handsOver (W : Window (Nat × UInt8) ε ρ σ π) (e : ε) (pre post : List UInt8)
    (chunks : List (List (Nat × UInt8)))
    (hcut : chunks.flatten = label (pre ++ introducer ++ post)) :
    ¬ HandsOver W e (pre.length + 6) chunks := by
  rintro ⟨w, b, hrun, hb, hent, hrec⟩
  have hnodup : chunks.flatten.Nodup := by
    rw [hcut]
    exact label_nodup _
  obtain ⟨new, hnew, hall⟩ := W.fromBackends_enters chunks _ _ _ hrun
  have htrace : w.trace = new := by simpa [GuiTerminalWindow.init] using hnew
  rw [htrace] at hent hrec
  have hmem := hall b hent
  rw [hrec] at hmem
  exact not_mem_drop_of_nodup hnodup hb hmem

/-- An emulation that displays nothing and knows no escape sequence. -/
def plainEmulator : Emulator Unit where
  dragging _ := false
  resizePending _ := false
  print s _ := (s, false)
  translate s b := (s, .char b.toNat)
  vt52Mode _ := false
  hasCompat _ _ := true
  delete s := s
  control s _ := s
  escape s _ := { s with termstate := .toplevel }
  other s _ := s
  checkSelection s := s
  printFlush s := s

/-- A window whose gateway has one pane and ignores its notifications. -/
def plainWindow : Window (Nat × UInt8) Unit Unit Unit Nat where
  emulator := plainEmulator
  handlers := ⟨fun _ _ s => (s, []), fun _ _ _ s => (s, [])⟩
  fresh := ()
  mapPanes _ := [7]

/-- The introducer and one byte, cut between them. -/
def entryChunks : List (List (Nat × UInt8)) :=
  [(label (introducer ++ [0x78])).take 7, (label (introducer ++ [0x78])).drop 7]

theorem not_handsOver_entryChunks : ¬ HandsOver plainWindow () 6 entryChunks :=
  not_handsOver plainWindow () [] [0x78] entryChunks (by decide)

/-- The gateway gets the introducer too. -/
theorem handsOver_entryChunks_fails :
    (∃ w, (plainWindow.fromBackends entryChunks).run (GuiTerminalWindow.init ()) = .ok () w ∧
      .entered (6, 0x70) ∈ w.trace ∧
      received w.trace = label (introducer ++ [0x78])) ∧
    ¬ HandsOver plainWindow () 6 entryChunks := by
  have hrun : returns
      (fun w => decide (WindowEvent.entered (6, 0x70) ∈ w.trace ∧
        received w.trace = label (introducer ++ [0x78])))
      ((plainWindow.fromBackends entryChunks).run (GuiTerminalWindow.init ())) = true := by
    decide +kernel
  obtain ⟨_, w, hw, hp⟩ := exists_of_returns hrun
  obtain ⟨hent, hrec⟩ := of_decide_eq_true hp
  refine ⟨⟨w, hw, hent, hrec⟩, ?_⟩
  rintro ⟨w', b, hw', -, -, hrec'⟩
  rw [hw] at hw'
  cases hw'
  rw [hrec] at hrec'
  exact absurd hrec' (by decide)

end HandOver

end Qutty
