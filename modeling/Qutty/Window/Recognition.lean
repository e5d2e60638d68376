import Qutty.Window.Feed
import Qutty.Terminal.Dcs

/-!
# Recognising control mode

`ESC P`, a body of printable ASCII and `ESC \`, cut into calls of `from_backend` in any way.
`enters_iff` says when control mode is entered, `run_of_not_introducer` what a body that is
not the introducer leaves behind, and `escBuf_bounded` that `esc_buf` does not overflow,
whatever is read.
-/

namespace Qutty

open Lib Terminal

variable {α ε ρ σ π : Type}

/-- The trace grows, and `esc_buf` keeps to its size. -/
structure Grows (w w' : GuiTerminalWindow α ε ρ σ π) : Prop where
  trace : w.trace <+: w'.trace
  escBuf : w.term.escBuf.length ≤ escBufSize → w'.term.escBuf.length ≤ escBufSize

instance : IsPreorder (GuiTerminalWindow α ε ρ σ π) Grows where
  refl _ := ⟨List.prefix_rfl, id⟩
  trans _ _ _ h h' := ⟨h.trace.trans h'.trace, h'.escBuf ∘ h.escBuf⟩

/-- A step that changes neither. -/
theorem Grows.of_eq {w w' : GuiTerminalWindow α ε ρ σ π} (htrace : w'.trace = w.trace)
    (hterm : w'.term.escBuf = w.term.escBuf) : Grows w w' :=
  ⟨by rw [htrace], by rw [hterm]; exact id⟩

/-- A step that is recorded. -/
theorem Grows.of_append {w w' : GuiTerminalWindow α ε ρ σ π} {es : List (WindowEvent α π)}
    (htrace : w'.trace = w.trace ++ es) (hterm : w'.term.escBuf = w.term.escBuf) : Grows w w' :=
  ⟨by rw [htrace]; exact List.prefix_append _ _, by rw [hterm]; exact id⟩

namespace Window

variable [Octet α] (W : Window α ε ρ σ π)

theorem parseCommand_grows (line : List α) : Keeps Grows (W.parseCommand line) := by
  intro w
  simp only [parseCommand, EStateM.run]
  split
  · exact .of_eq rfl rfl
  · split
    · exact .of_eq rfl rfl
    · split_ifs
      · exact .of_append rfl rfl
      · exact .of_eq rfl rfl

omit [Octet α] in
theorem termDataWith_grows {termOut : WindowM α ε ρ σ π Unit} (hout : Keeps Grows termOut)
    (data : List α) : Keeps Grows (termDataWith termOut data) := by
  unfold termDataWith
  refine .bind (.of_modify fun w => .of_append rfl rfl) fun _ => .bind .get fun w => ?_
  split_ifs
  · refine .bind (.of_modify fun w => .of_eq rfl rfl) fun _ => .bind hout fun _ => ?_
    exact .bind (.of_modify fun w => .of_eq rfl rfl) fun _ => .bind .get fun w => .pure _
  · exact .bind .get fun w => .pure _

theorem gatewayFromBackend_grows {termData : List α → WindowM α ε ρ σ π Nat}
    (hdata : ∀ data, Keeps Grows (termData data)) (data : List α) :
    Keeps Grows (W.gatewayFromBackend termData data) := by
  unfold gatewayFromBackend
  refine .bind .get fun w => ?_
  split
  · exact .throw _
  · refine .bind (.of_modify fun w => .of_append rfl rfl) fun _ => .bind ?_ fun r =>
      .bind (.of_modify fun w => .of_eq rfl rfl) fun _ => .pure _
    rw [Tmux.fromBackend_eq]
    refine .bind (.bind (hdata data) fun _ => .pure _) fun _ => .map _ ?_
    exact .feedUntil (fun line => .bind (W.parseCommand_grows line) fun _ => .pure _) _

omit [Octet α] in
theorem initTmuxControllerMode_grows (b : α) : Keeps Grows (W.initTmuxControllerMode b) :=
  .bind .get fun _ => .ite (.of_modify fun _ => .of_append rfl rfl) (.throw _)

/-- What `enterTmux` does after `initTmuxControllerMode`. -/
theorem enterTmux_rest_grows (l : ReadAhead α) : Keeps Grows (do
    if l.used = l.chars.length then
      let w ← get
      let size := w.term.inbuf.size
      let buf := w.term.inbuf.fetch size
      set { w with term := { w.term with inbuf := w.term.inbuf.consume size } }
      let _ ← W.gatewayFromBackend (termDataWith (pure ())) buf
      modify (fun w => { w with
        term := Terminal.endPass W.emulator { w.term with
          escBuf := [], screen := { w.term.screen with termstate := .toplevel } } })
    else throw .memcpySize : WindowM α ε ρ σ π Unit) := by
  refine .ite (.bind_get fun w => ?_) (.throw _)
  let w₁ : GuiTerminalWindow α ε ρ σ π :=
    { w with term := { w.term with inbuf := w.term.inbuf.consume w.term.inbuf.size } }
  have hrest : Keeps Grows (do
      let _ ← W.gatewayFromBackend (termDataWith (pure ())) (w.term.inbuf.fetch w.term.inbuf.size)
      modify (fun w => { w with
        term := Terminal.endPass W.emulator { w.term with
          escBuf := [], screen := { w.term.screen with termstate := .toplevel } } }) :
        WindowM α ε ρ σ π Unit) :=
    .bind (W.gatewayFromBackend_grows (fun data => termDataWith_grows (.pure ()) data) _)
      fun _ => .of_modify fun _ => ⟨List.prefix_rfl, fun _ => Nat.zero_le _⟩
  have hset : Grows w w₁ := .of_eq rfl rfl
  exact trans_of Grows hset (hrest w₁)

theorem enterTmux_grows (l : ReadAhead α) (b : α) : Keeps Grows (W.enterTmux l b) :=
  .bind (W.initTmuxControllerMode_grows b) fun _ => W.enterTmux_rest_grows l

theorem scan_grows (n : Nat) (l : ReadAhead α) : Keeps Grows (W.scan n l) := by
  refine .bind_get fun w => ?_
  exact ⟨List.prefix_rfl, Terminal.scan_escBuf W.emulator n w.term l⟩

theorem resume_grows (l : ReadAhead α) : Keeps Grows (W.resume l) := by
  refine .bind .get fun w => .bind (W.scan_grows _ l) fun r => ?_
  obtain ⟨l, e⟩ := r
  cases e with
  | done => exact .pure l
  | introducer b => exact .bind (W.enterTmux_grows l b) fun _ => .pure l

theorem outLoop_grows : Keeps Grows W.outLoop := by
  refine .bind .get fun w => .bind (W.scan_grows _ _) fun r => ?_
  obtain ⟨l, e⟩ := r
  cases e with
  | done => exact .pure l
  | introducer b => exact .bind (W.enterTmux_grows l b) fun _ => W.resume_grows l

theorem termOut_grows : Keeps Grows W.termOut :=
  .bind .get fun _ => .ite (.pure _) (.bind W.outLoop_grows fun _ =>
    .of_modify fun _ => .of_eq rfl rfl)

theorem termData_grows (data : List α) : Keeps Grows (W.termData data) :=
  termDataWith_grows W.termOut_grows data

omit [Octet α] in
theorem detachTmuxControllerMode_grows : Keeps Grows W.detachTmuxControllerMode := by
  refine .bind .get fun w => .ite ?_ (.throw _)
  split
  · exact .throw _
  · exact .of_modify fun w => .of_append rfl rfl

theorem fromBackend_grows (data : List α) : Keeps Grows (W.fromBackend data) := by
  refine .bind .get fun w => .ite ?_ (W.termData_grows data)
  refine .bind (W.gatewayFromBackend_grows W.termData_grows data) fun rc => .bind .get fun w =>
    .ite ?_ (W.termData_grows data)
  exact .bind W.detachTmuxControllerMode_grows fun _ => W.termData_grows _

/-- **Whatever is read, and also if the program stops**: nothing that has happened is undone, and
`esc_buf` does not overflow. -/
theorem fromBackends_grows (chunks : List (List α)) : Keeps Grows (W.fromBackends chunks) := by
  induction chunks with
  | nil => exact .pure ()
  | cons data chunks ih => exact .bind (W.fromBackend_grows data) fun _ => ih

section Recognition

variable {δ : Type} {d : δ} {R : Reactions δ} {W : Window α (Fields δ) ρ σ π}
  {w : GuiTerminalWindow α (Fields δ) ρ σ π} {body : List UInt8} {k : Nat}

/-- A window outside control mode, between two calls, that takes an `ESC` as the beginning of a
sequence. -/
structure Awaits (R : Reactions δ) (w : GuiTerminalWindow α (Fields δ) ρ σ π) : Prop where
  mode : w.tmuxMode = .none
  inbuf : w.term.inbuf = []
  idle : w.term.inTermOut = false
  escBuf : w.term.escBuf.length ≤ escBufSize
  ready : Terminal.Ready R w.term.screen.rest.shown w.term

/-- Control mode is entered. -/
def Enters (W : Window α (Fields δ) ρ σ π) (w : GuiTerminalWindow α (Fields δ) ρ σ π)
    (chunks : List (List α)) : Prop :=
  ∃ es b, w.trace ++ es ++ [.entered b] <+: (finalState ((W.fromBackends chunks).run w)).trace

/-- The window has read the first `k` bytes of a sequence. -/
structure Reads (R : Reactions δ) (d : δ) (body : List UInt8) (k : Nat)
    (w : GuiTerminalWindow α (Fields δ) ρ σ π) : Prop where
  mode : w.tmuxMode = .none
  inbuf : w.term.inbuf = []
  idle : w.term.inTermOut = false
  after : After R d body k w.term

omit [Octet α] in
theorem Awaits.reads (h : Awaits R w) (body : List UInt8) :
    Reads R w.term.screen.rest.shown body 0 w :=
  ⟨h.mode, h.inbuf, h.idle, h.ready⟩

/-- Outside control mode the data go to the terminal alone. -/
theorem fromBackend_of_mode (hmode : w.tmuxMode = .none) (data : List α) :
    (W.fromBackend data).run w = (W.termData data).run w := by
  simp [fromBackend, hmode]

/-- A call that does not complete the introducer. -/
theorem Reads.termData (hW : W.emulator = R.emulator) (hesc : R.unitabCtrl 0x1b = 0x1b)
    (hbody : ∀ b ∈ body, Printable b) (h : Reads R d body k w) {data : List α}
    (hdata : StandsAt body k data) (hnot : ¬ Completes body k data.length) :
    ∃ n w', (W.fromBackend data).run w = .ok n w' ∧ Reads R d body (k + data.length) w' ∧
      w'.trace = w.trace ++ [.termData data] := by
  obtain ⟨t, hfeed, hafter, hinbuf⟩ :=
    h.after.feed R hesc hbody hdata h.inbuf h.idle hnot
  rw [← hW] at hfeed
  have hrun := termData_of_feed h.idle hfeed
  refine ⟨_, _, (fromBackend_of_mode h.mode data).trans hrun, ⟨h.mode, hinbuf, ?_, hafter⟩, rfl⟩
  exact feed_inTermOut h.idle hfeed

/-- Entering control mode is recorded, and what follows does not undo it. -/
theorem enterTmux_entered (hmode : w.tmuxMode = .none) (l : ReadAhead α) (b : α) :
    w.trace ++ [.entered b] <+: (finalState ((W.enterTmux l b).run w)).trace := by
  have hgrows := Keeps.run_bind (x := W.initTmuxControllerMode b)
    (fun _ => W.enterTmux_rest_grows l) w
  have hinit : (finalState ((W.initTmuxControllerMode b).run w)).trace =
      w.trace ++ [.entered b] := by
    simp [initTmuxControllerMode, hmode, finalState, GuiTerminalWindow.record]
  exact hinit ▸ hgrows.trace

/-- The call that completes the introducer. -/
theorem Reads.enters (hW : W.emulator = R.emulator) (hesc : R.unitabCtrl 0x1b = 0x1b)
    (hbody : ∀ b ∈ body, Printable b) (h : Reads R d body k w) {data : List α}
    (hdata : StandsAt body k data) (hc : Completes body k data.length) :
    ∃ b, w.trace ++ [.termData data] ++ [.entered b] <+:
      (finalState ((W.fromBackend data).run w)).trace := by
  obtain ⟨t, b, hscan⟩ := (h.after.scan_begun R hesc hbody hdata h.inbuf).1 hc
  refine ⟨b, ?_⟩
  rw [fromBackend_of_mode h.mode]
  -- the window when `term_out` begins
  obtain ⟨w₁, hw₁⟩ : ∃ w₁, w₁ = { w.record (.termData data) with term := begun w.term data } :=
    ⟨_, rfl⟩
  have hloop : w.trace ++ [.termData data] ++ [.entered b] <+:
      (finalState (W.outLoop.run w₁)).trace := by
    have hmode : ({ w₁ with term := t } : GuiTerminalWindow α (Fields δ) ρ σ π).tmuxMode =
        .none := by
      rw [hw₁]
      exact h.mode
    have hscan' : Terminal.scan W.emulator w₁.term.inbuf.size w₁.term ⟨[], 0⟩ =
        (t, ⟨data, 6 - k + 1⟩, .introducer b) := by
      rw [hW, hw₁]
      exact hscan
    have hentered := enterTmux_entered (W := W) hmode ⟨data, 6 - k + 1⟩ b
    have hresume := Keeps.run_bind (x := W.enterTmux ⟨data, 6 - k + 1⟩ b)
      (fun _ => W.resume_grows ⟨data, 6 - k + 1⟩) { w₁ with term := t }
    rw [outLoop_introducer hscan']
    have htrace : ({ w₁ with term := t } : GuiTerminalWindow α (Fields δ) ρ σ π).trace =
        w.trace ++ [.termData data] := by
      rw [hw₁]
      rfl
    rw [← htrace]
    exact hentered.trans hresume.trace
  have hout : w.trace ++ [.termData data] ++ [.entered b] <+:
      (finalState (W.termOut.run w₁)).trace := by
    have hdrag : W.emulator.dragging w₁.term.screen.rest = false := by
      rw [hW, hw₁]
      exact decide_eq_false h.after.attends.notDragging
    have hrun : W.termOut.run w₁ = (W.outLoop >>= fun l => modify (fun w =>
        { w with term := Terminal.finish W.emulator w.term l })).run w₁ := by
      simp [termOut, hdrag]
    have hfinish := Keeps.run_bind (R := Grows) (x := W.outLoop) (f := fun l => modify (fun w =>
      { w with term := Terminal.finish W.emulator w.term l }))
      (fun _ => .of_modify fun _ => .of_eq rfl rfl) w₁
    rw [hrun]
    exact hloop.trans hfinish.trace
  have hrun : (W.termData data).run w = (W.termOut >>= fun _ => do
      modify (fun w => { w with term := { w.term with inTermOut := false } })
      let w ← get
      pure w.term.inbuf.size).run w₁ := by
    rw [hw₁]
    simp [Window.termData, termDataWith, GuiTerminalWindow.record, h.idle, begun]
  have hreturn := Keeps.run_bind (R := Grows) (x := W.termOut) (f := fun _ => do
    modify (fun w => { w with term := { w.term with inTermOut := false } })
    let w ← get
    pure w.term.inbuf.size)
    (fun _ => .bind (.of_modify fun _ => .of_eq rfl rfl) fun _ => .bind .get fun _ => .pure _) w₁
  rw [hrun]
  exact hout.trans hreturn.trace

/-- Calls that do not complete the introducer. -/
theorem Reads.run (hW : W.emulator = R.emulator) (hesc : R.unitabCtrl 0x1b = 0x1b)
    (hbody : ∀ b ∈ body, Printable b) (h : Reads R d body k w) {chunks : List (List α)}
    (hdata : StandsAt body k chunks.flatten) (hnot : ¬ Completes body k chunks.flatten.length) :
    ∃ w', (W.fromBackends chunks).run w = .ok () w' ∧
      Reads R d body (k + chunks.flatten.length) w' ∧
      w'.trace = w.trace ++ chunks.map .termData := by
  induction chunks generalizing w k with
  | nil => exact ⟨w, rfl, h, by simp⟩
  | cons data chunks ih =>
      rw [List.flatten_cons] at hdata hnot ⊢
      rw [List.length_append, completes_add, not_or] at hnot
      obtain ⟨hfirst, hrest⟩ := standsAt_append hdata
      obtain ⟨n, w₁, hrun, hreads, htrace⟩ := h.termData hW hesc hbody hfirst hnot.1
      obtain ⟨w', hrun', hreads', htrace'⟩ := ih hreads hrest hnot.2
      refine ⟨w', ?_, ?_, ?_⟩
      · simp only [fromBackends, EStateM.run_bind, hrun]
        exact hrun'
      · rwa [List.length_append, ← Nat.add_assoc]
      · rw [htrace', htrace, List.append_assoc]
        rfl

/-- Calls one of which completes the introducer. -/
theorem Reads.enters_run (hW : W.emulator = R.emulator) (hesc : R.unitabCtrl 0x1b = 0x1b)
    (hbody : ∀ b ∈ body, Printable b) (h : Reads R d body k w) {chunks : List (List α)}
    (hdata : StandsAt body k chunks.flatten) (hc : Completes body k chunks.flatten.length) :
    Enters W w chunks := by
  induction chunks generalizing w k with
  | nil => exact absurd hc.2.2 (by have := hc.2.1; simp; omega)
  | cons data chunks ih =>
      rw [List.flatten_cons] at hdata hc
      obtain ⟨hfirst, hrest⟩ := standsAt_append hdata
      by_cases hnow : Completes body k data.length
      · obtain ⟨b, hb⟩ := h.enters hW hesc hbody hfirst hnow
        have hlater := Keeps.run_bind (x := W.fromBackend data)
          (fun _ => W.fromBackends_grows chunks) w
        exact ⟨[.termData data], b, hb.trans hlater.trace⟩
      · obtain ⟨n, w₁, hrun, hreads, htrace⟩ := h.termData hW hesc hbody hfirst hnow
        rw [List.length_append, completes_add] at hc
        obtain ⟨es, b, hb⟩ := ih hreads hrest (hc.resolve_left hnow)
        refine ⟨.termData data :: es, b, ?_⟩
        have hstep : (W.fromBackends (data :: chunks)).run w = (W.fromBackends chunks).run w₁ := by
          simp only [fromBackends, EStateM.run_bind, hrun]
        rw [hstep]
        rwa [htrace, List.append_assoc _ [_] es] at hb

/-- The bytes of the calls, in the sequence. -/
theorem standsAt_of_cut {n : Nat} {data : List α}
    (hcut : data.map octet = (dcsSequence body).take n) :
    StandsAt body 0 data ∧ data.length = min n (body.length + 4) := by
  have hlen := congrArg List.length hcut
  rw [List.length_map, List.length_take] at hlen
  refine ⟨fun j b hb => ?_, by rw [hlen]; simp [dcsSequence]⟩
  have hj := (List.getElem?_eq_some_iff.mp hb).1
  have hmap : (data.map octet)[j]? = some (octet b) := by
    rw [List.getElem?_map, hb]
    rfl
  rw [hcut, List.getElem?_take_of_lt (by omega)] at hmap
  rwa [Nat.zero_add]

/-- **When control mode is entered**: after any number of bytes of a sequence, however they
are cut, exactly if the first five bytes of the body are the introducer and have been read. -/
theorem enters_iff (hW : W.emulator = R.emulator) (hesc : R.unitabCtrl 0x1b = 0x1b)
    (hbody : ∀ b ∈ body, Printable b) (hw : Awaits R w) {n : Nat} {chunks : List (List α)}
    (hcut : chunks.flatten.map octet = (dcsSequence body).take n) :
    Enters W w chunks ↔ tmuxIntroducer <+: body ∧ 7 ≤ n := by
  obtain ⟨hdata, hlen⟩ := standsAt_of_cut hcut
  have hcomplete : Completes body 0 chunks.flatten.length ↔ tmuxIntroducer <+: body ∧ 7 ≤ n := by
    refine and_congr_right (fun hpre => ?_)
    have hle : 5 ≤ body.length := hpre.length_le
    omega
  rw [← hcomplete]
  constructor
  · rintro ⟨es, b, hb⟩
    by_contra hnot
    obtain ⟨w', hrun, -, htrace⟩ := (hw.reads body).run hW hesc hbody hdata hnot
    rw [hrun] at hb
    have htrace' : (finalState (EStateM.Result.ok () w' : EStateM.Result Fault _ _)).trace =
        w.trace ++ chunks.map .termData := htrace
    rw [htrace', List.append_assoc] at hb
    have hpre := (List.prefix_append_right_inj w.trace).mp hb
    have hmem : WindowEvent.entered b ∈ chunks.map WindowEvent.termData :=
      hpre.subset (by simp)
    simp at hmem
  · exact (hw.reads body).enters_run hW hesc hbody hdata

/-- What is expected of a window that has read the first `n` bytes of a sequence. -/
structure Recognises (W : Window α (Fields δ) ρ σ π) (w : GuiTerminalWindow α (Fields δ) ρ σ π)
    (body : List UInt8) (n : Nat) (chunks : List (List α)) : Prop where
  /-- control mode is entered with the fifth byte of the introducer -/
  enters : Enters W w chunks ↔ tmuxIntroducer <+: body ∧ 7 ≤ n
  bounded : (finalState ((W.fromBackends chunks).run w)).term.escBuf.length ≤ escBufSize
  /-- another body leaves nothing behind -/
  returns : ¬ tmuxIntroducer <+: body → (dcsSequence body).length ≤ n →
    ∃ w', (W.fromBackends chunks).run w = .ok () w' ∧ w'.tmuxMode = .none ∧
      w'.term.screen.termstate = .toplevel ∧
      w'.term.screen.rest.shown = w.term.screen.rest.shown

/-- **Recognising control mode**, for every window that takes an `ESC` as the beginning of a
sequence, every body of printable characters and every way to cut the bytes. -/
theorem recognises_of_awaits (R : Reactions δ) (W : Window α (Fields δ) ρ σ π)
    (w : GuiTerminalWindow α (Fields δ) ρ σ π) (body : List UInt8) (n : Nat)
    (chunks : List (List α)) (hW : W.emulator = R.emulator) (hesc : R.unitabCtrl 0x1b = 0x1b)
    (hw : Awaits R w) (hbody : ∀ b ∈ body, Printable b)
    (hcut : chunks.flatten.map octet = (dcsSequence body).take n) :
    Recognises W w body n chunks where
  enters := enters_iff hW hesc hbody hw hcut
  bounded := (W.fromBackends_grows chunks w).escBuf hw.escBuf
  returns := by
    intro hnot hn
    obtain ⟨hdata, hlen⟩ := standsAt_of_cut hcut
    obtain ⟨w', hrun, hreads, -⟩ :=
      (hw.reads body).run hW hesc hbody hdata (fun hc => hnot hc.1)
    have hall : (dcsSequence body).length = body.length + 4 := by simp [dcsSequence]
    obtain ⟨hattends, hstate⟩ : Attends w.term.screen.rest.shown w'.term.screen.rest ∧
        w'.term.screen.termstate = .toplevel := by
      have hafter := hreads.after
      rw [hlen, Nat.zero_add, Nat.min_eq_right (by omega),
        show body.length + 4 = (body.length + 2) + 2 from rfl, After, if_neg (by omega),
        if_neg (by omega)] at hafter
      exact hafter
    exact ⟨w', hrun, hreads.mode, hstate, hattends.shown⟩

end Recognition

end Window

section Display

/-- A display that shows the characters of the top level in UTF-8, and obeys nothing else. -/
def plainReactions : Reactions (List Nat) where
  curs _ := ⟨0, 0⟩
  cols _ := 80
  inUtf _ := true
  unitabCtrl c := if c < 0x20 ∨ (0x7f ≤ c ∧ c < 0xa0) then c else 0xFF
  utf8linedraw _ := false
  csetAttr _ := .ascii
  scoAcs _ := 0
  delete f := f
  control s _ := s
  doOsc s := s
  escFinal _ s := s
  oscString s _ := s
  other s c :=
    if s.termstate = .toplevel then
      { s with rest := { s.rest with shown := s.rest.shown ++ [c] } }
    else s

/-- A terminal after `power_on`, in the middle of a UTF-8 character if `state` is not zero. -/
def freshFields (state : Nat) : Fields (List Nat) where
  selstate := .noSelection
  selstart := ⟨0, 0⟩
  selend := ⟨0, 0⟩
  winResizePending := false
  printing := false
  onlyPrinting := false
  printState := 0
  printerBuf := []
  utf8 := ⟨state, 2, state⟩
  vt52Mode := false
  compatibilityLevel := 0xFFFF
  shown := []

/-- A window with this display, whose gateway ignores its notifications. -/
def displayWindow : Window UInt8 (Fields (List Nat)) Unit Unit Nat where
  emulator := plainReactions.emulator
  handlers := ⟨fun _ _ s => (s, []), fun _ _ _ s => (s, [])⟩
  fresh := ()
  mapPanes _ := []

theorem awaits_init : Window.Awaits plainReactions
    (GuiTerminalWindow.init (freshFields 0) : GuiTerminalWindow UInt8 _ Unit Unit Nat) where
  mode := rfl
  inbuf := rfl
  idle := rfl
  escBuf := Nat.zero_le _
  ready :=
    { attends := ⟨rfl, by simp [GuiTerminalWindow.init, freshFields], rfl, fun _ => rfl, rfl,
        by simp [GuiTerminalWindow.init, freshFields, Compat.bit]⟩
      obeys := .inl rfl
      query := by simp [GuiTerminalWindow.init]
      between := fun _ _ => rfl }

/-- A sequence of another kind. -/
def otherSequence : List UInt8 := dcsSequence [0x71]

theorem printable_other : ∀ b ∈ [(0x71 : UInt8)], Printable b := by
  simp [Printable]

theorem recognises_of_awaits_init : Window.Recognises displayWindow
    (GuiTerminalWindow.init (freshFields 0)) [0x71] 5 [otherSequence] :=
  Window.recognises_of_awaits plainReactions displayWindow _ [0x71] 5 [otherSequence] rfl rfl
    awaits_init printable_other rfl

/-- In the middle of a UTF-8 character the `ESC` ends that character, which is shown as an
error. -/
theorem not_recognises_utf8 :
    (GuiTerminalWindow.init (freshFields 1) : GuiTerminalWindow UInt8 _ Unit Unit Nat).tmuxMode =
        .none ∧
      (freshFields 1).vt52Mode = false ∧ (∀ b ∈ [(0x71 : UInt8)], Printable b) ∧
      [otherSequence].flatten.map octet = (dcsSequence [0x71]).take 5 ∧
      ¬ Window.Recognises displayWindow (GuiTerminalWindow.init (freshFields 1)) [0x71] 5
        [otherSequence] := by
  refine ⟨rfl, rfl, printable_other, rfl, fun h => ?_⟩
  obtain ⟨w', hrun, -, -, hshown⟩ := h.returns (by decide) (by simp [dcsSequence])
  have herror : returns (fun w => decide (w.term.screen.rest.shown = [ucsErr]))
      ((displayWindow.fromBackends [otherSequence]).run
        (GuiTerminalWindow.init (freshFields 1))) = true := by
    decide +kernel
  obtain ⟨_, w, hw, hp⟩ := exists_of_returns herror
  rw [hrun] at hw
  cases hw
  rw [of_decide_eq_true hp] at hshown
  cases hshown

end Display

end Qutty
