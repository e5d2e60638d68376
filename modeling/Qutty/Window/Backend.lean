import Qutty.Terminal.Input
import Qutty.Tmux.Framing
import Qutty.Tmux.Commands

/-!
# The receive path of a terminal window

`GuiTerminalWindow::from_backend` and what it calls: `term_data`, `term_out`
with its hook for tmux control mode, `TmuxGateway::fromBackend`, and the
functions of `GuiTerminalWindow` that enter and leave control mode.

* `term_out` calls `tmux_init_tmux_mode` and `tmux_from_backend` when an
  introducer is complete.  `tmux_from_backend` calls `term_data` in turn, which
  only adds to `inbuf` because `in_term_out` is set.
* `from_backend` calls the gateway first in gateway mode, and then `term_data`.

`Window` holds the parameters: the emulation, the handlers of the gateway, and
the pane map inside their state.  `trace` is a ghost record of the calls.
-/

namespace Qutty

open Terminal (ReadAhead ScanEnd)

/-- `tmux_mode_t`. -/
inductive TmuxMode where
  | none
  | gateway
  | gatewayDetachInit
  | client
deriving DecidableEq, Repr

/-- Ghost record of the calls on the receive path. -/
inductive WindowEvent (α π : Type) where
  | termData (bytes : List α)
  | gatewayData (bytes : List α)
  /-- `initTmuxControllerMode`, with the byte that completed the introducer -/
  | entered (b : α)
  | startDetach
  | closedPane (p : π)
deriving DecidableEq, Repr

/-- The gateway object: `buffer`, and the fields that `parseCommand` works on. -/
structure Gateway (α ρ σ : Type) where
  buffer : Bufchain α
  commands : Tmux.TmuxGateway α ρ σ

/-- The fields of `GuiTerminalWindow` on the receive path. -/
structure GuiTerminalWindow (α ε ρ σ π : Type) where
  tmuxMode : TmuxMode
  /-- `none` is `NULL` -/
  tmuxGateway : Option (Gateway α ρ σ)
  term : Terminal α ε
  trace : List (WindowEvent α π)

/-- The parameters of the receive path. -/
structure Window (α ε ρ σ π : Type) where
  emulator : Emulator ε
  handlers : Tmux.GatewayHandlers α ρ σ
  /-- the state of the handlers in a new gateway -/
  fresh : σ
  /-- `_mapPanes` -/
  mapPanes : σ → List π

/-- Computations on a window, which may abort. -/
abbrev WindowM (α ε ρ σ π : Type) := EStateM Fault (GuiTerminalWindow α ε ρ σ π)

namespace GuiTerminalWindow

variable {α ε ρ σ π : Type}

/-- A new window. -/
def init (e : ε) : GuiTerminalWindow α ε ρ σ π :=
  ⟨.none, none, ⟨[], false, [], ⟨.toplevel, 0, e⟩⟩, []⟩

/-- Ghost step. -/
def record (w : GuiTerminalWindow α ε ρ σ π) (e : WindowEvent α π) :
    GuiTerminalWindow α ε ρ σ π :=
  { w with trace := w.trace ++ [e] }

/-- `startDetachTmuxControllerMode`. -/
def startDetach (w : GuiTerminalWindow α ε ρ σ π) : GuiTerminalWindow α ε ρ σ π :=
  { w.record .startDetach with tmuxMode := .gatewayDetachInit }

end GuiTerminalWindow

namespace Window

variable {α ε ρ σ π : Type} [Octet α] (W : Window α ε ρ σ π)

/-- `TmuxGateway::parseCommand`, which calls `startDetachTmuxControllerMode`
exactly when it returns -1. -/
def parseCommand (line : List α) : WindowM α ε ρ σ π Int := fun w =>
  match w.tmuxGateway with
  | none => .error .nullGateway w
  | some g =>
      match Tmux.TmuxGateway.parseCommand W.handlers line g.commands with
      | .error e c => .error e { w with tmuxGateway := some { g with commands := c } }
      | .ok rc c =>
          let w := { w with tmuxGateway := some { g with commands := c } }
          .ok rc (if rc = -1 then w.startDetach else w)

/-- `term_data`; the callee `term_out` is a parameter because it calls
`term_data` in turn. -/
def termDataWith (termOut : WindowM α ε ρ σ π Unit) (data : List α) :
    WindowM α ε ρ σ π Nat := do
  modify (fun w => { w.record (.termData data) with
    term := { w.term with inbuf := w.term.inbuf.add data } })
  let w ← get
  if w.term.inTermOut = false then
    modify (fun w => { w with term := { w.term with inTermOut := true } })
    termOut
    modify (fun w => { w with term := { w.term with inTermOut := false } })
  let w ← get
  pure w.term.inbuf.size

/-- `TmuxGateway::fromBackend` on the gateway of the window. -/
def gatewayFromBackend (termData : List α → WindowM α ε ρ σ π Nat) (data : List α) :
    WindowM α ε ρ σ π Nat := do
  let w ← get
  match w.tmuxGateway with
  | none => throw .nullGateway
  | some g =>
      modify (fun w => w.record (.gatewayData data))
      let hooks : Tmux.GatewayHooks (WindowM α ε ρ σ π) α :=
        ⟨fun data => do let _ ← termData data, W.parseCommand⟩
      let r ← Tmux.fromBackend hooks g.buffer data
      modify (fun w => { w with
        tmuxGateway := w.tmuxGateway.map (fun g => { g with buffer := r.buffer }) })
      pure r.rc

/-- `initTmuxControllerMode`, for an introducer completed by `b`. -/
def initTmuxControllerMode (b : α) : WindowM α ε ρ σ π Unit := do
  let w ← get
  if w.tmuxMode = .none then
    modify (fun w => { w.record (.entered b) with
      tmuxMode := .gateway
      tmuxGateway := some ⟨[], Tmux.TmuxGateway.init W.fresh⟩ })
  else throw .tmuxModeAssertion

/-- `SEEN_DCS` with a complete introducer.  The first `nchars_used -
nchars_got` bytes of the buffer for the gateway are copied from `chars`. -/
def enterTmux (l : ReadAhead α) (b : α) : WindowM α ε ρ σ π Unit := do
  W.initTmuxControllerMode b
  if l.used = l.chars.length then
    let w ← get
    let size := w.term.inbuf.size
    let buf := w.term.inbuf.fetch size
    set { w with term := { w.term with inbuf := w.term.inbuf.consume size } }
    -- `in_term_out` is set: this call only adds to `inbuf`
    let _ ← W.gatewayFromBackend (termDataWith (pure ())) buf
    modify (fun w => { w with
      term := Terminal.endPass W.emulator { w.term with
        escBuf := [], screen := { w.term.screen with termstate := .toplevel } } })
  else throw .memcpySize

/-- The loop of `term_out`, resumed with `n` bytes of `inbuf` to be read. -/
def scan (n : Nat) (l : ReadAhead α) :
    WindowM α ε ρ σ π (ReadAhead α × ScanEnd α) := do
  let w ← get
  let (t, l, e) := Terminal.scan W.emulator n w.term l
  set { w with term := t }
  pure (l, e)

/-- The loop of `term_out` after an introducer.  A second one in the same call
fails the assertion of `initTmuxControllerMode`, so it never goes on after
that. -/
def resume (l : ReadAhead α) : WindowM α ε ρ σ π (ReadAhead α) := do
  let w ← get
  let (l, e) ← W.scan (w.term.inbuf.size - l.used) l
  match e with
  | .done => pure l
  | .introducer b => do
      W.enterTmux l b
      pure l

/-- The loop of `term_out`. -/
def outLoop : WindowM α ε ρ σ π (ReadAhead α) := do
  let w ← get
  let (l, e) ← W.scan w.term.inbuf.size ⟨[], 0⟩
  match e with
  | .done => pure l
  | .introducer b => do
      W.enterTmux l b
      W.resume l

/-- `term_out`. -/
def termOut : WindowM α ε ρ σ π Unit := do
  let w ← get
  if W.emulator.dragging w.term.screen.rest then pure ()
  else
    let l ← W.outLoop
    modify (fun w => { w with term := Terminal.finish W.emulator w.term l })

/-- `term_data`. -/
def termData (data : List α) : WindowM α ε ρ σ π Nat :=
  termDataWith W.termOut data

/-- `detachTmuxControllerMode`: `detach` closes the panes of the gateway, and
`delete` finds none left. -/
def detachTmuxControllerMode : WindowM α ε ρ σ π Unit := do
  let w ← get
  if w.tmuxMode = .gatewayDetachInit then
    match w.tmuxGateway with
    | none => throw .nullGateway
    | some g =>
        modify (fun w => { w with
          tmuxMode := .none
          tmuxGateway := none
          trace := w.trace ++ (W.mapPanes g.commands.state).map .closedPane })
  else throw .tmuxModeAssertion

/-- `GuiTerminalWindow::from_backend`. -/
def fromBackend (data : List α) : WindowM α ε ρ σ π Nat := do
  let w ← get
  if w.tmuxMode = .gateway ∧ w.tmuxGateway.isSome then
    let rc ← W.gatewayFromBackend W.termData data
    let w ← get
    if rc ≠ 0 ∧ rc < data.length ∧ w.tmuxMode = .gatewayDetachInit then
      W.detachTmuxControllerMode
      W.termData (data.drop rc)
    else W.termData data
  else W.termData data

/-- Successive `from_backend` calls. -/
def fromBackends : List (List α) → WindowM α ε ρ σ π Unit
  | [] => pure ()
  | data :: rest => do
      let _ ← W.fromBackend data
      fromBackends rest

section Loop

variable {W} {w : GuiTerminalWindow α ε ρ σ π} {l l' : ReadAhead α} {t : Terminal α ε} {b : α}

theorem outLoop_done
    (h : Terminal.scan W.emulator w.term.inbuf.size w.term ⟨[], 0⟩ = (t, l, .done)) :
    W.outLoop.run w = .ok l { w with term := t } := by
  simp only [outLoop, scan, EStateM.run_bind, EStateM.run_get, EStateM.run_set,
    EStateM.run_pure, h]

theorem outLoop_introducer
    (h : Terminal.scan W.emulator w.term.inbuf.size w.term ⟨[], 0⟩ = (t, l, .introducer b)) :
    W.outLoop.run w = (W.enterTmux l b >>= fun _ => W.resume l).run { w with term := t } := by
  simp [outLoop, scan, h]

theorem resume_done
    (h : Terminal.scan W.emulator (w.term.inbuf.size - l.used) w.term l = (t, l', .done)) :
    (W.resume l).run w = .ok l' { w with term := t } := by
  simp only [resume, scan, EStateM.run_bind, EStateM.run_get, EStateM.run_set,
    EStateM.run_pure, h]

theorem resume_introducer
    (h : Terminal.scan W.emulator (w.term.inbuf.size - l.used) w.term l =
      (t, l', .introducer b)) :
    (W.resume l).run w = (W.enterTmux l' b >>= fun _ => pure l').run { w with term := t } := by
  simp [resume, scan, h]

end Loop

end Window

end Qutty
