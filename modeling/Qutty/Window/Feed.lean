import Qutty.Window.Entry

/-!
# Which bytes the terminal of the window gets

`from_backend` passes its data to `term_data`; in gateway mode, so does
`TmuxGateway::fromBackend` before it.  The lemmas here say what one call does as
long as the terminal completes no introducer in it (`Terminal.feed` is defined):
for `term_data`, for the gateway, and for `from_backend` in each mode.

`fromBackends_fed_once` is the consequence for a whole run: every byte goes to
`term_data` once and in order, provided that no call finds the window in gateway
mode with data to deliver, and that the terminal completes no introducer.
-/

namespace Qutty

open Lib

variable {α ε ρ σ π : Type}

/-- The bytes passed to `term_data` of the window. -/
def fed (trace : List (WindowEvent α π)) : List α :=
  trace.flatMap (fun
    | .termData bytes => bytes
    | _ => [])

@[simp] theorem fed_nil : fed ([] : List (WindowEvent α π)) = [] := rfl

@[simp] theorem fed_append (s t : List (WindowEvent α π)) : fed (s ++ t) = fed s ++ fed t :=
  List.flatMap_append

@[simp] theorem fed_termData (bytes : List α) (t : List (WindowEvent α π)) :
    fed (.termData bytes :: t) = bytes ++ fed t := rfl

@[simp] theorem fed_gatewayData (bytes : List α) (t : List (WindowEvent α π)) :
    fed (.gatewayData bytes :: t) = fed t := rfl

namespace Window

variable [Octet α] {W : Window α ε ρ σ π} {w : GuiTerminalWindow α ε ρ σ π}
  {g : Gateway α ρ σ} {t : Terminal α ε}

/-- `term_data` outside `term_out`, without introducer. -/
theorem termData_of_feed {data : List α} (hidle : w.term.inTermOut = false)
    (hf : Terminal.feed W.emulator w.term data = some t) :
    (W.termData data).run w =
      .ok t.inbuf.size { w.record (.termData data) with term := t } := by
  simp only [Terminal.feed, hidle, Bool.false_eq_true, false_or] at hf
  simp only [termData, termDataWith, termOut, GuiTerminalWindow.record, EStateM.run_bind,
    EStateM.run_modify, EStateM.run_get, hidle, if_true]
  by_cases hdrag : W.emulator.dragging w.term.screen.rest = true
  · simp only [hdrag, if_true, Option.some.injEq] at hf
    subst hf
    simp [hdrag]
  · simp only [hdrag] at hf ⊢
    -- the window as the loop finds it
    let w₁ : GuiTerminalWindow α ε ρ σ π := { w with
      term := { w.term with inbuf := w.term.inbuf.add data, inTermOut := true }
      trace := w.trace ++ [.termData data] }
    cases hscan : Terminal.scan W.emulator w₁.term.inbuf.size w₁.term ⟨[], 0⟩ with
    | mk t₁ r =>
        obtain ⟨l, e⟩ := r
        have hscan' : Terminal.scan W.emulator (w.term.inbuf.add data).size
            { w.term with inbuf := w.term.inbuf.add data, inTermOut := true } ⟨[], 0⟩ =
              (t₁, l, e) := hscan
        rw [hscan'] at hf
        cases e with
        | introducer b => simp at hf
        | done =>
            have hloop := outLoop_done (w := w₁) hscan
            simp only [Bool.false_eq_true, if_false, Option.some.injEq] at hf
            subst hf
            simp only [Bool.false_eq_true, if_false, EStateM.run_bind, EStateM.run_modify,
              EStateM.run_pure]
            rw [show W.outLoop.run _ = _ from hloop]

/-- `term_data` may end inside or outside `term_out`, but not differently from
where it began. -/
theorem feed_inTermOut {data : List α} (hidle : w.term.inTermOut = false)
    (hf : Terminal.feed W.emulator w.term data = some t) : t.inTermOut = false := by
  simp only [Terminal.feed, hidle, Bool.false_eq_true, false_or] at hf
  split_ifs at hf
  · cases hf
    rfl
  · split at hf
    · cases hf
      rfl
    · cases hf

/-- A line that is accepted only changes the gateway. -/
theorem parseCommand_of_ok {line : List α} {rc : Int} {c : Tmux.TmuxGateway α ρ σ}
    (hg : w.tmuxGateway = some g)
    (hp : (Tmux.TmuxGateway.parseCommand W.handlers line).run g.commands = .ok rc c)
    (hrc : rc ≠ -1) :
    (W.parseCommand line).run w =
      .ok rc { w with tmuxGateway := some { g with commands := c } } := by
  simp only [EStateM.run] at hp ⊢
  simp [parseCommand, hg, hp, hrc]

/-- The lines handed to `parseCommand` only change the gateway, as long as they
are accepted. -/
theorem feedUntil_accepted {h : List α → WindowM α ε ρ σ π Unit} {lines : List (List α)}
    {c : Tmux.TmuxGateway α ρ σ} (rest : List (List α)) (hg : w.tmuxGateway = some g)
    (hacc : Tmux.accepted (Tmux.TmuxGateway.parseCommand W.handlers) g.commands lines =
      some c) :
    (feedUntil (Tmux.accepts ⟨h, W.parseCommand⟩) (lines ++ rest)).run w =
      (feedUntil (Tmux.accepts ⟨h, W.parseCommand⟩) rest).run
        { w with tmuxGateway := some { g with commands := c } } := by
  induction lines generalizing w g with
  | nil =>
      simp only [Tmux.accepted, Option.some.injEq] at hacc
      subst hacc
      simp [← hg]
  | cons line lines ih =>
      obtain ⟨rc, c₁, hp, hrc, hacc⟩ := Tmux.accepted_cons hacc
      rw [List.cons_append, Tmux.run_feedUntil_accepted _ (parseCommand_of_ok hg hp hrc) hrc]
      exact ih (g := { g with commands := c₁ }) rfl hacc

/-- A refused line starts the detach; the lines after it are not looked at. -/
theorem feedUntil_refused {h : List α → WindowM α ε ρ σ π Unit}
    {lines : List (List α)} {line : List α} {c c' : Tmux.TmuxGateway α ρ σ}
    (rest : List (List α)) (hg : w.tmuxGateway = some g)
    (hacc : Tmux.accepted (Tmux.TmuxGateway.parseCommand W.handlers) g.commands lines =
      some c)
    (hline : Tmux.TmuxGateway.parseCommand W.handlers line c = .ok (-1) c') :
    (feedUntil (Tmux.accepts ⟨h, W.parseCommand⟩) (lines ++ line :: rest)).run w =
      .ok (some rest)
        { w with tmuxMode := .gatewayDetachInit
                 tmuxGateway := some { g with commands := c' }
                 trace := w.trace ++ [.startDetach] } := by
  have hcall : (W.parseCommand line).run { w with tmuxGateway := some { g with commands := c } } =
      .ok (-1)
        { w with tmuxMode := .gatewayDetachInit
                 tmuxGateway := some { g with commands := c' }
                 trace := w.trace ++ [.startDetach] } := by
    simp only [EStateM.run, parseCommand, hline]
    rfl
  rw [feedUntil_accepted (line :: rest) hg hacc]
  exact Tmux.run_feedUntil_refused _ hcall rest

/-- The gateway, when it accepts every line that its data completes. -/
theorem gatewayFromBackend_accepted {data : List α} {c : Tmux.TmuxGateway α ρ σ}
    (hidle : w.term.inTermOut = false) (hg : w.tmuxGateway = some g)
    (hf : Terminal.feed W.emulator w.term data = some t)
    (hacc : Tmux.accepted (Tmux.TmuxGateway.parseCommand W.handlers) g.commands
      (recordsFrom Tmux.isNewline g.buffer.content data) = some c) :
    (W.gatewayFromBackend W.termData data).run w =
      .ok (Tmux.acceptedReturn data)
        { w with tmuxGateway := some ⟨Tmux.nextBuffer g.buffer data, c⟩
                 term := t
                 trace := w.trace ++ [.gatewayData data, .termData data] } := by
  have hdata := termData_of_feed (W := W) (w := w.record (.gatewayData data)) hidle hf
  have hfeed := feedUntil_accepted (W := W)
    (w := { (w.record (.gatewayData data)).record (.termData data) with term := t })
    (h := fun data => do let _ ← W.termData data) [] hg hacc
  rw [List.append_nil, feedUntil_nil, EStateM.run_pure] at hfeed
  simp only [gatewayFromBackend, EStateM.run_bind, EStateM.run_get, hg, EStateM.run_modify,
    Tmux.fromBackend_eq, hdata, ← bind_pure_comp, hfeed, EStateM.run_pure, Tmux.returnOf]
  simp [GuiTerminalWindow.record]

/-- The gateway, when it refuses a line: it returns the number of bytes after
that line. -/
theorem gatewayFromBackend_refused {data line : List α} {lines rest : List (List α)}
    {c c' : Tmux.TmuxGateway α ρ σ} (hidle : w.term.inTermOut = false)
    (hg : w.tmuxGateway = some g)
    (hf : Terminal.feed W.emulator w.term data = some t)
    (hrec : recordsFrom Tmux.isNewline g.buffer.content data = lines ++ line :: rest)
    (hacc : Tmux.accepted (Tmux.TmuxGateway.parseCommand W.handlers) g.commands lines =
      some c)
    (hline : Tmux.TmuxGateway.parseCommand W.handlers line c = .ok (-1) c') :
    (W.gatewayFromBackend W.termData data).run w =
      .ok (rest.flatten.length + (residue Tmux.isNewline data).length)
        { w with tmuxMode := .gatewayDetachInit
                 tmuxGateway := some ⟨Tmux.drained g.buffer, c'⟩
                 term := t
                 trace := w.trace ++ [.gatewayData data, .termData data, .startDetach] } := by
  have hdata := termData_of_feed (W := W) (w := w.record (.gatewayData data)) hidle hf
  have hfeed := feedUntil_refused (W := W)
    (w := { (w.record (.gatewayData data)).record (.termData data) with term := t })
    (h := fun data => do let _ ← W.termData data) rest hg hacc hline
  simp only [gatewayFromBackend, EStateM.run_bind, EStateM.run_get, hg, EStateM.run_modify,
    Tmux.fromBackend_eq, hdata, ← bind_pure_comp, hrec, hfeed, EStateM.run_pure,
    Tmux.returnOf]
  simp [GuiTerminalWindow.record]

/-- Outside gateway mode there is only `term_data`. -/
theorem fromBackend_of_not_gateway {data : List α}
    (hmode : ¬ (w.tmuxMode = .gateway ∧ w.tmuxGateway.isSome)) :
    (W.fromBackend data).run w = (W.termData data).run w := by
  simp only [fromBackend, EStateM.run_bind, EStateM.run_get, hmode, if_false]

/-- In gateway mode the data goes to the terminal twice. -/
theorem fromBackend_of_accepted {data : List α} {c : Tmux.TmuxGateway α ρ σ}
    {t₁ : Terminal α ε} (hidle : w.term.inTermOut = false) (hmode : w.tmuxMode = .gateway)
    (hg : w.tmuxGateway = some g)
    (hf : Terminal.feed W.emulator w.term data = some t₁)
    (hf₁ : Terminal.feed W.emulator t₁ data = some t)
    (hacc : Tmux.accepted (Tmux.TmuxGateway.parseCommand W.handlers) g.commands
      (recordsFrom Tmux.isNewline g.buffer.content data) = some c) :
    (W.fromBackend data).run w =
      .ok t.inbuf.size
        { w with tmuxGateway := some ⟨Tmux.nextBuffer g.buffer data, c⟩
                 term := t
                 trace := w.trace ++
                   [.gatewayData data, .termData data, .termData data] } := by
  have hgw := gatewayFromBackend_accepted hidle hg hf hacc
  have hcond : w.tmuxMode = .gateway ∧ w.tmuxGateway.isSome := ⟨hmode, by simp [hg]⟩
  have hdata := termData_of_feed (W := W)
    (w := { w with tmuxGateway := some ⟨Tmux.nextBuffer g.buffer data, c⟩
                   term := t₁
                   trace := w.trace ++ [.gatewayData data, .termData data] })
    (feed_inTermOut hidle hf) hf₁
  simp only [fromBackend, EStateM.run_bind, EStateM.run_get]
  rw [if_pos hcond]
  simp only [EStateM.run_bind, EStateM.run_get, hgw, hmode, reduceCtorEq, and_false, if_false]
  simpa [GuiTerminalWindow.record, hmode] using hdata

/-- What `from_backend` passes to `term_data`. -/
def fedBy (w : GuiTerminalWindow α ε ρ σ π) (data : List α) : List (List α) :=
  if w.tmuxMode = .gateway ∧ w.tmuxGateway.isSome then [data, data] else [data]

/-- The calls that feed the terminal once: none with data in gateway mode, and
none in which the terminal completes an introducer. -/
def SingleFeed (W : Window α ε ρ σ π) (w : GuiTerminalWindow α ε ρ σ π) (data : List α) :
    Prop :=
  (w.tmuxMode = .gateway ∧ w.tmuxGateway.isSome → data = []) ∧
    (Terminal.feeds W.emulator w.term (fedBy w data)).isSome

/-- One call. -/
theorem fromBackend_fed_once {data : List α} (hidle : w.term.inTermOut = false)
    (hs : SingleFeed W w data) :
    ∃ n w', (W.fromBackend data).run w = .ok n w' ∧
      fed w'.trace = fed w.trace ++ data ∧ w'.term.inTermOut = false := by
  obtain ⟨hdata, hquiet⟩ := hs
  obtain ⟨t, ht⟩ := Option.isSome_iff_exists.mp hquiet
  by_cases hmode : w.tmuxMode = .gateway ∧ w.tmuxGateway.isSome
  · have hnil := hdata hmode
    subst hnil
    obtain ⟨g, hg⟩ := Option.isSome_iff_exists.mp hmode.2
    simp only [fedBy, hmode, if_true, and_self, Terminal.feeds] at ht
    obtain ⟨t₁, hf, ht⟩ := Option.bind_eq_some_iff.mp ht
    obtain ⟨t₂, hf₁, ht⟩ := Option.bind_eq_some_iff.mp ht
    have hacc : Tmux.accepted (Tmux.TmuxGateway.parseCommand W.handlers) g.commands
        (recordsFrom Tmux.isNewline g.buffer.content []) = some g.commands := rfl
    refine ⟨_, _, fromBackend_of_accepted hidle hmode.1 hg hf hf₁ hacc, by simp, ?_⟩
    exact feed_inTermOut (w := { w with term := t₁ }) (feed_inTermOut hidle hf) hf₁
  · simp only [fedBy, hmode, if_false, Terminal.feeds] at ht
    obtain ⟨t₁, hf, -⟩ := Option.bind_eq_some_iff.mp ht
    rw [fromBackend_of_not_gateway hmode, termData_of_feed hidle hf]
    exact ⟨_, _, rfl, by simp [GuiTerminalWindow.record], feed_inTermOut hidle hf⟩

/-- **Every byte once and in order**, in every run in which no call has data to
deliver in gateway mode and the terminal completes no introducer. -/
theorem fromBackends_fed_once (W : Window α ε ρ σ π) (w : GuiTerminalWindow α ε ρ σ π)
    (chunks : List (List α)) (hidle : w.term.inTermOut = false)
    (hsteps : AllSteps (SingleFeed W) W.fromBackend w chunks) :
    ∃ w', (W.fromBackends chunks).run w = .ok () w' ∧
      fed w'.trace = fed w.trace ++ chunks.flatten := by
  induction chunks generalizing w with
  | nil => exact ⟨w, rfl, by simp⟩
  | cons data chunks ih =>
      obtain ⟨n, w₁, hrun, hfed, hidle₁⟩ := fromBackend_fed_once hidle hsteps.1
      obtain ⟨w', hrun', hfed'⟩ := ih w₁ hidle₁ (hsteps.2 n w₁ hrun)
      refine ⟨w', run_bind_ok.mpr ⟨n, w₁, hrun, hrun'⟩, ?_⟩
      rw [hfed', hfed, List.flatten_cons, List.append_assoc]

end Window

/-- Two calls outside gateway mode. -/
theorem fromBackends_fed_once_plain :
    ∃ w, (plainWindow.fromBackends [[(0, 0x61)], [(1, 0x62)]]).run (GuiTerminalWindow.init ()) =
        .ok () w ∧ fed w.trace = [(0, 0x61), (1, 0x62)] := by
  refine Window.fromBackends_fed_once plainWindow (GuiTerminalWindow.init ())
    [[(0, 0x61)], [(1, 0x62)]] rfl ?_
  refine ⟨⟨by simp [GuiTerminalWindow.init], by decide⟩, fun n w hw => ?_⟩
  cases hw
  refine ⟨⟨?_, by decide⟩, fun _ _ _ => trivial⟩
  simp [GuiTerminalWindow.init, GuiTerminalWindow.record]

/-- In gateway mode a byte goes to the terminal twice. -/
theorem fed_twice_entryChunks :
    ∃ w, (plainWindow.fromBackends entryChunks).run (GuiTerminalWindow.init ()) = .ok () w ∧
      (fed w.trace).count (7, 0x78) = 2 := by
  have hrun : returns (fun w => decide ((fed w.trace).count (7, 0x78) = 2))
      ((plainWindow.fromBackends entryChunks).run (GuiTerminalWindow.init ())) = true := by
    decide +kernel
  obtain ⟨_, w, hw, hp⟩ := exists_of_returns hrun
  exact ⟨w, hw, of_decide_eq_true hp⟩

end Qutty
