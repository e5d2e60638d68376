import Qutty.Window.Feed

/-!
# The mode machine of a terminal window

`_tmuxMode` and `_tmuxGateway` over the lifetime of a `GuiTerminalWindow`: it is
set up as a terminal or as a pane of a gateway, it gets data, it is restarted,
and it is destroyed.

Two slips break the agreement of the mode with the pointer.

* Nothing looks at the mode before `initTmuxControllerMode` is called, so an
  introducer that the terminal completes in another mode than `TMUX_MODE_NONE`
  fails its assertion.  In gateway mode the terminal gets all data, too.
* `restartTerminal` deletes the gateway in gateway mode and leaves both the
  pointer and the mode as they are.

`run_modesAgree`: in every run in which neither happens, mode and pointer agree
in every state and the assertions hold.
-/

namespace Qutty

open Lib
open Terminal (ReadAhead)
open Window (termDataWith)

variable {α ε ρ σ π : Type}

namespace Terminal

/-- The terminal when `term_out` goes on after an introducer: what was in
`inbuf` has gone to the gateway, which has put it back. -/
def entered (E : Emulator ε) (t : Terminal α ε) : Terminal α ε :=
  endPass E { t with
    inbuf := (t.inbuf.consume t.inbuf.size).add (t.inbuf.fetch t.inbuf.size)
    escBuf := []
    screen := { t.screen with termstate := .toplevel } }

/-- How many introducers a `term_data` call completes; counting ends at two. -/
def introducers [Octet α] (E : Emulator ε) (t : Terminal α ε) (data : List α) : Nat :=
  let t := { t with inbuf := t.inbuf.add data }
  if t.inTermOut ∨ E.dragging t.screen.rest then 0
  else
    match scan E t.inbuf.size { t with inTermOut := true } ⟨[], 0⟩ with
    | (_, _, .done) => 0
    | (t, l, .introducer _) =>
        match scan E ((entered E t).inbuf.size - l.used) (entered E t) l with
        | (_, _, .done) => 1
        | (_, _, .introducer _) => 2

/-- The loop does not touch `in_term_out`. -/
theorem scan_inTermOut [Octet α] {E : Emulator ε} {n : Nat} {t t' : Terminal α ε}
    {l l' : ReadAhead α} {e : ScanEnd α} (hs : scan E n t l = (t', l', e)) :
    t.inTermOut = t'.inTermOut := by
  induction n generalizing t l with
  | zero =>
      cases hs
      rfl
  | succ n ih =>
      have hr : (refill t l).1.inTermOut = t.inTermOut := by
        unfold refill
        split_ifs <;> rfl
      simp only [scan] at hs
      split_ifs at hs
      · cases hs
        rfl
      · split at hs
        · cases hs
          exact hr.symm
        · rename_i b hb
          have hf := (outByte_frame E (refill t l).1 (octet b)).2
          split at hs
          · rename_i t₁ heq
            cases hs
            rw [heq] at hf
            exact (hf.trans hr).symm
          · rename_i t₁ e hne heq
            rw [heq] at hf
            rw [← ih hs]
            exact (hf.trans hr).symm

theorem feed_of_introducers [Octet α] {E : Emulator ε} {t : Terminal α ε} {data : List α}
    (h : introducers E t data = 0) : ∃ t', feed E t data = some t' := by
  unfold introducers at h
  unfold feed
  dsimp only at h ⊢
  split_ifs at h ⊢
  · exact ⟨_, rfl⟩
  · rcases hscan : scan E (t.inbuf.add data).size
      { t with inbuf := t.inbuf.add data, inTermOut := true } ⟨[], 0⟩ with ⟨t₁, l₁, stop⟩
    rw [hscan] at h
    cases stop with
    | done => exact ⟨_, rfl⟩
    | introducer b =>
        change (match scan E ((entered E t₁).inbuf.size - l₁.used) (entered E t₁) l₁ with
          | (_, _, .done) => 1
          | (_, _, .introducer _) => 2) = 0 at h
        generalize scan E ((entered E t₁).inbuf.size - l₁.used) (entered E t₁) l₁ = r at h
        obtain ⟨_, _, stop⟩ := r
        cases stop with
        | done => cases h
        | introducer b' => cases h

end Terminal

section Lifetime

/-- Where a window is in its life. -/
inductive WindowPhase where
  | created
  /-- with a terminal and a backend -/
  | running
  /-- `backend_init` has reported an error -/
  | disconnected
  | destroyed
deriving DecidableEq, Repr

/-- A window with the phase of its life. -/
structure WindowLife (α ε ρ σ π : Type) where
  phase : WindowPhase
  window : GuiTerminalWindow α ε ρ σ π
  /-- ghost: `_tmuxGateway` points to an object that has been deleted -/
  gatewayDeleted : Bool

/-- The calls made on a window. -/
inductive WindowAct (α ε ρ σ : Type) where
  /-- with the state of the new terminal, unless `backend_init` fails -/
  | initTerminal (result : Option ε)
  | initTmuxClientTerminal (gateway : Gateway α ρ σ) (e : ε)
  | fromBackend (data : List α)
  | restartTerminal (result : Option ε)
  | close

/-- Ways for a window to go down. -/
inductive LifeFault where
  | fault (f : Fault)
  /-- a gateway is used after it was deleted -/
  | deletedGateway
deriving DecidableEq, Repr

/-- The result of a call on a window. -/
abbrev LifeM (α ε ρ σ π : Type) := Except LifeFault (WindowLife α ε ρ σ π)

namespace WindowLife

/-- `new GuiTerminalWindow`. -/
def new (e : ε) : WindowLife α ε ρ σ π :=
  ⟨.created, .init e, false⟩

/-- `GuiTerminalWindow::initTerminal`. -/
def initTerminal (s : WindowLife α ε ρ σ π) : Option ε → WindowLife α ε ρ σ π
  | some e =>
      { s with phase := .running
               window := { s.window with term := ⟨[], false, [], ⟨.toplevel, 0, e⟩⟩ } }
  | none => { s with phase := .disconnected }

/-- `GuiTerminalWindow::initTmuxClientTerminal`. -/
def initTmuxClientTerminal (s : WindowLife α ε ρ σ π) (gateway : Gateway α ρ σ) (e : ε) :
    WindowLife α ε ρ σ π :=
  { s with phase := .running
           window := { s.window with
             tmuxMode := .client
             tmuxGateway := some gateway
             term := ⟨[], false, [], ⟨.toplevel, 0, e⟩⟩ } }

/-- The gateway is about to be used in gateway mode, and is gone. -/
def usesDeleted (s : WindowLife α ε ρ σ π) : Bool :=
  s.window.tmuxMode = .gateway ∧ s.window.tmuxGateway.isSome ∧ s.gatewayDeleted

/-- `initiateDetach` and `delete`, in the destructor and in `restartTerminal`. -/
def deleteGateway (W : Window α ε ρ σ π) (s : WindowLife α ε ρ σ π) : LifeM α ε ρ σ π :=
  if s.usesDeleted then .error .deletedGateway
  else if s.window.tmuxMode = .gateway then
    match s.window.tmuxGateway with
    | none => .ok s
    | some g =>
        .ok { s with
          window := { s.window with
            trace := s.window.trace ++ (W.mapPanes g.commands.state).map .closedPane }
          gatewayDeleted := true }
  else .ok s

/-- `GuiTerminalWindow::restartTerminal`. -/
def restartTerminal (W : Window α ε ρ σ π) (s : WindowLife α ε ρ σ π) (result : Option ε) :
    LifeM α ε ρ σ π :=
  (s.deleteGateway W).map (fun s => s.initTerminal result)

/-- `GuiTerminalWindow::~GuiTerminalWindow`. -/
def close (W : Window α ε ρ σ π) (s : WindowLife α ε ρ σ π) : LifeM α ε ρ σ π :=
  (s.deleteGateway W).map (fun s => { s with phase := .destroyed })

variable [Octet α]

/-- `GuiTerminalWindow::from_backend`. -/
def fromBackend (W : Window α ε ρ σ π) (s : WindowLife α ε ρ σ π) (data : List α) :
    LifeM α ε ρ σ π :=
  if s.usesDeleted then .error .deletedGateway
  else
    match (W.fromBackend data).run s.window with
    | .ok _ w => .ok { s with window := w }
    | .error f _ => .error (.fault f)

/-- One call.  A window is set up once and before all else; a backend that is
not there sends nothing; a destroyed window is not called. -/
def act (W : Window α ε ρ σ π) (s : WindowLife α ε ρ σ π) :
    WindowAct α ε ρ σ → LifeM α ε ρ σ π
  | .initTerminal result =>
      if s.phase = .created then .ok (s.initTerminal result) else .ok s
  | .initTmuxClientTerminal gateway e =>
      if s.phase = .created then .ok (s.initTmuxClientTerminal gateway e) else .ok s
  | .fromBackend data => if s.phase = .running then s.fromBackend W data else .ok s
  | .restartTerminal result =>
      if s.phase = .running ∨ s.phase = .disconnected then s.restartTerminal W result else .ok s
  | .close => if s.phase = .running ∨ s.phase = .disconnected then s.close W else .ok s

end WindowLife

end Lifetime

section Property

/-- Mode and pointer agree. -/
structure ModesAgree (s : WindowLife α ε ρ σ π) : Prop where
  gateway : s.phase ≠ .destroyed →
    s.window.tmuxMode = .gateway ∨ s.window.tmuxMode = .gatewayDetachInit →
      s.window.tmuxGateway.isSome ∧ s.gatewayDeleted = false
  none : s.phase ≠ .destroyed → s.window.tmuxMode = .none → s.window.tmuxGateway = none

/-- The ways to go down that are not about the mode: the gateway gives up on an
unknown line, or the hand-over of the input fails. -/
def LifeFault.keepsModes : LifeFault → Bool
  | .fault .unrecognizedCommand | .fault .memcpySize => true
  | .fault .tmuxModeAssertion | .fault .nullGateway | .deletedGateway => false

variable [Octet α]

/-- Mode and pointer agree in every state of the run, and no call fails an
assertion about the mode or uses a gateway that is not there. -/
def RunsModesAgree (W : Window α ε ρ σ π) :
    WindowLife α ε ρ σ π → List (WindowAct α ε ρ σ) → Prop
  | s, [] => ModesAgree s
  | s, a :: acts =>
      ModesAgree s ∧
        match s.act W a with
        | .ok s' => RunsModesAgree W s' acts
        | .error f => f.keepsModes

/-- What `term_data` gets after the gateway has been left, if it is left in a
call with this data. -/
def leftover (W : Window α ε ρ σ π) (g : Gateway α ρ σ) (data : List α) : Option (List α) :=
  match (Tmux.fromBackend ⟨fun _ => pure (), Tmux.TmuxGateway.parseCommand W.handlers⟩
      g.buffer data).run g.commands with
  | .ok r _ =>
      if r.disconnected ∧ r.rc ≠ 0 ∧ r.rc < data.length then some (data.drop r.rc) else none
  | .error _ _ => none

/-- No introducer is completed in a mode other than `TMUX_MODE_NONE`; the one
that ends that mode is the last of its call. -/
def introducerInNone (W : Window α ε ρ σ π) (w : GuiTerminalWindow α ε ρ σ π)
    (data : List α) : Bool :=
  match w.tmuxMode, w.tmuxGateway, Terminal.feed W.emulator w.term data with
  | .none, _, _ => Terminal.introducers W.emulator w.term data ≤ 1
  | .gateway, some g, some t =>
      match leftover W g data with
      | some rest => Terminal.introducers W.emulator t rest ≤ 1
      | none => Terminal.introducers W.emulator t data = 0
  | _, _, t => t.isSome

/-- The calls that keep mode and pointer in agreement. -/
def keepsModesBy (W : Window α ε ρ σ π) (s : WindowLife α ε ρ σ π) :
    WindowAct α ε ρ σ → Bool
  | .fromBackend data => s.phase = .running → introducerInNone W s.window data
  | .restartTerminal _ => s.window.tmuxMode ≠ .gateway
  | _ => true

/-- Every call of the run is one of these. -/
def allKeepModes (W : Window α ε ρ σ π) :
    WindowLife α ε ρ σ π → List (WindowAct α ε ρ σ) → Bool
  | _, [] => true
  | s, a :: acts =>
      keepsModesBy W s a &&
        match s.act W a with
        | .ok s' => allKeepModes W s' acts
        | .error _ => true

end Property

section Calls

variable [Octet α] {W : Window α ε ρ σ π} {w : GuiTerminalWindow α ε ρ σ π}
  {g : Gateway α ρ σ} {t : Terminal α ε}

/-- Between calls: mode and pointer agree, and the terminal is not at work. -/
structure Settled (w : GuiTerminalWindow α ε ρ σ π) : Prop where
  attached : w.tmuxMode = .gateway ∨ w.tmuxMode = .gatewayDetachInit → w.tmuxGateway.isSome
  detached : w.tmuxMode = .none → w.tmuxGateway = none
  idle : w.term.inTermOut = false

/-- The faults that are not about the mode. -/
def keepsModes (f : Fault) : Prop :=
  (LifeFault.fault f).keepsModes

/-- The gateway is at work and the terminal is as it was. -/
structure Attached (t : Terminal α ε) (w : GuiTerminalWindow α ε ρ σ π) : Prop where
  mode : w.tmuxMode = .gateway ∨ w.tmuxMode = .gatewayDetachInit
  gateway : w.tmuxGateway.isSome
  term : w.term = t

theorem parseCommand_error {h : Tmux.GatewayHandlers α ρ σ} {line : List α}
    {c c' : Tmux.TmuxGateway α ρ σ} {f : Fault}
    (hp : Tmux.TmuxGateway.parseCommand h line c = .error f c') : f = .unrecognizedCommand := by
  simp only [Tmux.TmuxGateway.parseCommand] at hp
  split at hp
  · split at hp <;> cases hp
  · split at hp
    · cases hp
    · split at hp
      · split at hp <;> cases hp
      · split at hp
        · cases hp
          rfl
        · cases hp
        · cases hp

/-- A line leaves the terminal alone and the gateway where it is. -/
theorem parseCommand_attached (line : List α) :
    Meets keepsModes (Attached t) (W.parseCommand line) (fun _ => Attached t) := by
  intro w hw
  obtain ⟨g, hg⟩ := Option.isSome_iff_exists.mp hw.gateway
  simp only [Window.parseCommand, EStateM.run, hg]
  cases hp : Tmux.TmuxGateway.parseCommand W.handlers line g.commands with
  | error f c =>
      cases parseCommand_error hp
      exact rfl
  | ok rc c =>
      dsimp only
      split_ifs
      · exact ⟨.inr rfl, rfl, hw.term⟩
      · exact ⟨hw.mode, rfl, hw.term⟩

theorem feedUntil_attached (h : List α → WindowM α ε ρ σ π Unit) (lines : List (List α)) :
    Meets keepsModes (Attached t) (feedUntil (Tmux.accepts ⟨h, W.parseCommand⟩) lines)
      (fun _ => Attached t) := by
  refine .feedUntil (fun line => ?_) lines
  exact .bind (parseCommand_attached line) fun rc => .pure fun w hw => hw

omit [Octet α] in
/-- Inside `term_out`, `term_data` only adds to `inbuf`. -/
theorem termDataWith_busy (hbusy : t.inTermOut = true) (data : List α) :
    Meets keepsModes (Attached t)
      (termDataWith (pure () : WindowM α ε ρ σ π Unit) data)
      (fun _ => Attached { t with inbuf := t.inbuf.add data }) := by
  rintro w ⟨hmode, hg, rfl⟩
  simp only [termDataWith, EStateM.run_bind, EStateM.run_modify, EStateM.run_get, hbusy,
    Bool.true_eq_false, if_false, EStateM.run_pure]
  exact ⟨hmode, hg, rfl⟩

/-- The hand-over to the gateway, called from `term_out`. -/
theorem gatewayFromBackend_busy (hbusy : t.inTermOut = true) (data : List α) :
    Meets keepsModes (Attached t)
      (W.gatewayFromBackend (termDataWith (pure ())) data)
      (fun _ => Attached { t with inbuf := t.inbuf.add data }) := by
  refine .bind_get fun w hw => ?_
  split
  · rename_i hnone
    have hg := hw.gateway
    rw [hnone] at hg
    cases hg
  · refine .bind (Q := fun _ => Attached t) (.of_modify ?_) fun _ => ?_
    · rintro s rfl
      exact ⟨hw.mode, hw.gateway, hw.term⟩
    · dsimp only
      rw [Tmux.fromBackend_eq]
      refine .bind (Q := fun _ => Attached { t with inbuf := t.inbuf.add data }) ?_ fun r => ?_
      · refine .bind ?_ fun _ => .map (feedUntil_attached _ _)
        exact .bind (termDataWith_busy hbusy data) fun _ => .pure fun s hs => hs
      · refine .bind (.of_modify fun s hs => ?_) fun _ => .pure fun s hs => hs
        exact ⟨hs.mode, by simpa using hs.gateway, hs.term⟩

/-- **Entering control mode** from `TMUX_MODE_NONE`. -/
theorem enterTmux_attached (hbusy : t.inTermOut = true) (l : ReadAhead α) (b : α) :
    Meets keepsModes (fun w => w.tmuxMode = .none ∧ w.term = t) (W.enterTmux l b)
      (fun _ => Attached (Terminal.entered W.emulator t)) := by
  refine .bind (Q := fun _ => Attached t) (.bind_get fun w hw => ?_) fun _ => ?_
  · rw [if_pos hw.1]
    refine .of_modify ?_
    rintro s rfl
    exact ⟨.inl rfl, rfl, hw.2⟩
  · split_ifs with hused
    · refine .bind_get fun w hw => ?_
      obtain ⟨hmode, hg, rfl⟩ := hw
      -- the terminal with its input taken out
      let t₁ : Terminal α ε := { w.term with inbuf := w.term.inbuf.consume w.term.inbuf.size }
      refine .bind (.of_set (R := Attached t₁) ⟨hmode, hg, rfl⟩) fun _ => ?_
      refine .bind (gatewayFromBackend_busy (t := t₁) hbusy _) fun _ => .of_modify fun s hs => ?_
      exact ⟨hs.mode, hs.gateway, by rw [hs.term]; rfl⟩
    · exact .throw rfl

/-- The loop of `term_out` in `TMUX_MODE_NONE`, when it completes at most one
introducer. -/
theorem outLoop_settled {w : GuiTerminalWindow α ε ρ σ π} (hbusy : w.term.inTermOut = true)
    (hmode : w.tmuxMode = .none) (hg : w.tmuxGateway = none)
    (honce : ∀ t l b, Terminal.scan W.emulator w.term.inbuf.size w.term ⟨[], 0⟩ =
        (t, l, .introducer b) →
      ∃ t' l', Terminal.scan W.emulator ((Terminal.entered W.emulator t).inbuf.size - l.used)
        (Terminal.entered W.emulator t) l = (t', l', .done)) :
    Meets keepsModes (· = w) W.outLoop (fun _ w' =>
      (w'.tmuxMode = .none ∧ w'.tmuxGateway = none) ∨ ∃ t, Attached t w') := by
  intro s hs
  rw [hs]
  cases hscan : Terminal.scan W.emulator w.term.inbuf.size w.term ⟨[], 0⟩ with
  | mk t r =>
      obtain ⟨l, e⟩ := r
      cases e with
      | done =>
          rw [Window.outLoop_done hscan]
          exact .inl ⟨hmode, hg⟩
      | introducer b =>
          obtain ⟨t', l', hdone⟩ := honce t l b hscan
          rw [Window.outLoop_introducer hscan]
          have hbusy' := Terminal.scan_inTermOut hscan ▸ hbusy
          have hmeets : Meets keepsModes (fun w => w.tmuxMode = .none ∧ w.term = t)
              (W.enterTmux l b >>= fun _ => W.resume l) (fun _ w' =>
                (w'.tmuxMode = .none ∧ w'.tmuxGateway = none) ∨ ∃ t, Attached t w') := by
            refine .bind (enterTmux_attached hbusy' l b) fun _ => ?_
            rintro s ⟨hs, hsg, hst⟩
            rw [← hst] at hdone
            rw [Window.resume_done hdone]
            exact .inr ⟨t', hs, hsg, rfl⟩
          exact hmeets _ ⟨hmode, rfl⟩

/-- `term_data` in `TMUX_MODE_NONE`. -/
theorem termData_settled {data : List α} (hw : Settled w) (hmode : w.tmuxMode = .none)
    (honce : Terminal.introducers W.emulator w.term data ≤ 1) :
    Meets keepsModes (· = w) (W.termData data) (fun _ => Settled) := by
  have hg := hw.detached hmode
  -- the window as `term_out` finds it
  let w₁ : GuiTerminalWindow α ε ρ σ π := { w.record (.termData data) with
    term := { w.term with inbuf := w.term.inbuf.add data, inTermOut := true } }
  have hout : Meets keepsModes (· = w₁) W.termOut (fun _ w' =>
      (w'.tmuxMode = .none ∧ w'.tmuxGateway = none) ∨ ∃ t, Attached t w') := by
    refine .bind_get_eq ?_
    split_ifs with hdrag
    · exact .pure fun s hs => .inl (hs ▸ ⟨hmode, hg⟩)
    · refine .bind (outLoop_settled rfl hmode hg ?_) fun l => .of_modify fun s hs => ?_
      · intro t l b hscan
        have hdrag' : ¬ (w.term.inTermOut = true ∨
            W.emulator.dragging w.term.screen.rest = true) := by
          rintro (h | h)
          · rw [hw.idle] at h
            cases h
          · exact hdrag h
        simp only [Terminal.introducers, hdrag', if_false] at honce
        rw [hscan] at honce
        dsimp only at honce
        split at honce
        · exact ⟨_, _, by assumption⟩
        · omega
      · rcases hs with hs | ⟨t, hs⟩
        · exact .inl hs
        · exact .inr ⟨_, hs.mode, hs.gateway, rfl⟩
  refine .bind (.of_modify_eq rfl) fun _ => .bind_get_eq ?_
  rw [if_pos (by exact hw.idle)]
  refine .bind (.of_modify_eq (t := w₁) rfl) fun _ => .bind hout fun _ => ?_
  refine .bind (.of_modify (R := Settled) fun s hs => ?_) fun _ => ?_
  · rcases hs with ⟨hm, hgs⟩ | ⟨t, hs⟩
    · exact ⟨by simp [hm], fun _ => hgs, rfl⟩
    · refine ⟨fun _ => hs.gateway, fun hm => ?_, rfl⟩
      rcases hs.mode with h | h
      · exact absurd (hm.symm.trans h) (by decide)
      · exact absurd (hm.symm.trans h) (by decide)
  · exact .bind_get fun v hv => .pure fun s hs => hs ▸ hv

/-- `term_data` without introducer, in any mode. -/
theorem termData_quiet {data : List α} (hw : Settled w)
    (hf : Terminal.feed W.emulator w.term data = some t) :
    Meets keepsModes (· = w) (W.termData data) (fun _ => Settled) := by
  intro s hs
  rw [hs, Window.termData_of_feed hw.idle hf]
  exact ⟨hw.attached, hw.detached, Window.feed_inTermOut hw.idle hf⟩

/-- The lines of the gateway, in a window and on their own. -/
theorem feedUntil_commands (h : List α → WindowM α ε ρ σ π Unit)
    (k : List α → EStateM Fault (Tmux.TmuxGateway α ρ σ) Unit) (lines : List (List α))
    (hg : w.tmuxGateway = some g) :
    match (feedUntil (Tmux.accepts ⟨k, Tmux.TmuxGateway.parseCommand W.handlers⟩) lines).run
        g.commands with
    | .ok r c => ∃ w', (feedUntil (Tmux.accepts ⟨h, W.parseCommand⟩) lines).run w = .ok r w' ∧
        w'.term = w.term ∧ w'.tmuxGateway = some { g with commands := c } ∧
        w'.tmuxMode = if r.isSome then .gatewayDetachInit else w.tmuxMode
    | .error f _ => ∃ w', (feedUntil (Tmux.accepts ⟨h, W.parseCommand⟩) lines).run w =
        .error f w' ∧ keepsModes f := by
  induction lines generalizing w g with
  | nil => exact ⟨w, rfl, rfl, hg, rfl⟩
  | cons line lines ih =>
      cases hp : (Tmux.TmuxGateway.parseCommand W.handlers line).run g.commands with
      | error f c =>
          have hcall : (W.parseCommand line).run w =
              .error f { w with tmuxGateway := some { g with commands := c } } := by
            simp only [EStateM.run] at hp ⊢
            simp [Window.parseCommand, hg, hp]
          have hkeeps : keepsModes f := by
            cases parseCommand_error hp
            rfl
          simp only [feedUntil_cons, Tmux.accepts, EStateM.run_bind, hp, hcall]
          exact ⟨_, rfl, hkeeps⟩
      | ok rc c =>
          by_cases hrc : rc = -1
          · subst hrc
            have hcall : (W.parseCommand line).run w = .ok (-1)
                { w with tmuxMode := .gatewayDetachInit
                         tmuxGateway := some { g with commands := c }
                         trace := w.trace ++ [.startDetach] } := by
              simp only [EStateM.run] at hp ⊢
              simp [Window.parseCommand, hg, hp, GuiTerminalWindow.startDetach,
                GuiTerminalWindow.record]
            rw [Tmux.run_feedUntil_refused ⟨k, _⟩ hp]
            refine ⟨_, Tmux.run_feedUntil_refused ⟨h, _⟩ hcall lines, ?_, ?_, ?_⟩
            · rfl
            · rfl
            · rfl
          · have hcall := Window.parseCommand_of_ok hg hp hrc
            rw [Tmux.run_feedUntil_accepted ⟨k, _⟩ hp hrc,
              Tmux.run_feedUntil_accepted ⟨h, _⟩ hcall hrc]
            exact ih (g := { g with commands := c }) rfl

/-- The gateway, on data in which the terminal completes no introducer. -/
theorem gatewayFromBackend_commands {data : List α} (hidle : w.term.inTermOut = false)
    (hg : w.tmuxGateway = some g) (hf : Terminal.feed W.emulator w.term data = some t) :
    match (Tmux.fromBackend ⟨fun _ => pure (), Tmux.TmuxGateway.parseCommand W.handlers⟩
        g.buffer data).run g.commands with
    | .ok r c => ∃ w', (W.gatewayFromBackend W.termData data).run w = .ok r.rc w' ∧
        w'.term = t ∧ w'.tmuxGateway = some ⟨r.buffer, c⟩ ∧
        w'.tmuxMode = if r.disconnected then .gatewayDetachInit else w.tmuxMode
    | .error f _ => ∃ w', (W.gatewayFromBackend W.termData data).run w = .error f w' ∧
        keepsModes f := by
  have hdata := Window.termData_of_feed (W := W) (w := w.record (.gatewayData data)) hidle hf
  have hlines := feedUntil_commands (W := W)
    (w := { (w.record (.gatewayData data)).record (.termData data) with term := t })
    (fun data => do let _ ← W.termData data) (fun _ => pure ())
    (recordsFrom Tmux.isNewline g.buffer.content data) hg
  simp only [Window.gatewayFromBackend, EStateM.run_bind, EStateM.run_get, hg,
    EStateM.run_modify, Tmux.fromBackend_eq, hdata, ← bind_pure_comp, EStateM.run_pure]
  split at hlines
  · rename_i r c hr
    obtain ⟨w', hw', hterm, hgw, hmode⟩ := hlines
    rw [hr, hw']
    refine ⟨_, rfl, hterm, ?_, ?_⟩
    · simp [hgw]
    · rw [hmode]
      cases r <;> rfl
  · rename_i f c hr
    obtain ⟨w', hw', hkeeps⟩ := hlines
    rw [hr, hw']
    exact ⟨w', rfl, hkeeps⟩

/-- What `from_backend` does when the gateway has returned `rc`. -/
def afterGateway (W : Window α ε ρ σ π) (data : List α) (rc : Nat) : WindowM α ε ρ σ π Nat := do
  let w ← get
  if rc ≠ 0 ∧ rc < data.length ∧ w.tmuxMode = .gatewayDetachInit then
    W.detachTmuxControllerMode
    W.termData (data.drop rc)
  else W.termData data

theorem afterGateway_settled {data : List α} {r : Tmux.FromBackendReturn α}
    {c : Tmux.TmuxGateway α ρ σ} (hterm : w.term = t) (hidle : t.inTermOut = false)
    (hg : w.tmuxGateway = some ⟨r.buffer, c⟩)
    (hmode : w.tmuxMode = if r.disconnected then .gatewayDetachInit else .gateway)
    (hin : match (if r.disconnected ∧ r.rc ≠ 0 ∧ r.rc < data.length then some (data.drop r.rc)
        else none) with
      | some rest => Terminal.introducers W.emulator t rest ≤ 1
      | none => Terminal.introducers W.emulator t data = 0) :
    Meets keepsModes (· = w) (afterGateway W data r.rc) (fun _ => Settled) := by
  subst hterm
  refine .bind_get_eq ?_
  by_cases hleave : r.disconnected ∧ r.rc ≠ 0 ∧ r.rc < data.length
  · rw [if_pos hleave] at hin
    have hdetach : w.tmuxMode = .gatewayDetachInit := by rw [hmode, if_pos hleave.1]
    rw [if_pos ⟨hleave.2.1, hleave.2.2, hdetach⟩]
    refine .bind (Q := fun _ => (· = { w with
      tmuxMode := .none
      tmuxGateway := none
      trace := w.trace ++ (W.mapPanes c.state).map .closedPane })) ?_ fun _ => ?_
    · refine .bind_get_eq ?_
      rw [if_pos hdetach, hg]
      exact .of_modify_eq rfl
    · exact termData_settled ⟨by simp, fun _ => rfl, hidle⟩ rfl hin
  · rw [if_neg hleave] at hin
    obtain ⟨t, hf⟩ := Terminal.feed_of_introducers hin
    have hstay : ¬ (r.rc ≠ 0 ∧ r.rc < data.length ∧ w.tmuxMode = .gatewayDetachInit) := by
      rintro ⟨hrc, hlt, hdet⟩
      by_cases hd : r.disconnected
      · exact hleave ⟨hd, hrc, hlt⟩
      · rw [hmode, if_neg hd] at hdet
        cases hdet
    rw [if_neg hstay]
    refine termData_quiet ⟨fun _ => by simp [hg], fun hnone => ?_, hidle⟩ hf
    rw [hmode] at hnone
    split_ifs at hnone

theorem introducerInNone_gateway {data : List α} (hmode : w.tmuxMode = .gateway)
    (hg : w.tmuxGateway = some g) (hin : introducerInNone W w data = true) :
    ∃ t, Terminal.feed W.emulator w.term data = some t ∧
      match leftover W g data with
      | some rest => Terminal.introducers W.emulator t rest ≤ 1
      | none => Terminal.introducers W.emulator t data = 0 := by
  cases hf : Terminal.feed W.emulator w.term data with
  | none => simp [introducerInNone, hmode, hg, hf] at hin
  | some t =>
      simp only [introducerInNone, hmode, hg, hf] at hin
      refine ⟨t, rfl, ?_⟩
      cases hl : leftover W g data with
      | none => simpa [hl] using hin
      | some rest => simpa [hl] using hin

theorem introducerInNone_other {data : List α} (hgate : w.tmuxMode ≠ .gateway)
    (hnone : w.tmuxMode ≠ .none) (hin : introducerInNone W w data = true) :
    ∃ t, Terminal.feed W.emulator w.term data = some t := by
  cases hmode : w.tmuxMode with
  | none => exact absurd hmode hnone
  | gateway => exact absurd hmode hgate
  | gatewayDetachInit =>
      simp only [introducerInNone, hmode] at hin
      exact Option.isSome_iff_exists.mp hin
  | client =>
      simp only [introducerInNone, hmode] at hin
      exact Option.isSome_iff_exists.mp hin

/-- **`from_backend` keeps mode and pointer in agreement**, as long as
introducers are completed in `TMUX_MODE_NONE` only. -/
theorem fromBackend_settled {data : List α} (hw : Settled w)
    (hin : introducerInNone W w data = true) :
    Meets keepsModes (· = w) (W.fromBackend data) (fun _ => Settled) := by
  by_cases hgate : w.tmuxMode = .gateway
  · obtain ⟨g, hg⟩ := Option.isSome_iff_exists.mp (hw.attached (.inl hgate))
    obtain ⟨t, hf, hrest⟩ := introducerInNone_gateway hgate hg hin
    have hcall := gatewayFromBackend_commands (W := W) hw.idle hg hf
    have hidle := Window.feed_inTermOut hw.idle hf
    refine .bind_get_eq ?_
    rw [if_pos ⟨hgate, by simp [hg]⟩]
    intro s hs
    rw [hs, EStateM.run_bind]
    cases hrun : (Tmux.fromBackend ⟨fun _ => pure (), Tmux.TmuxGateway.parseCommand W.handlers⟩
        g.buffer data).run g.commands with
    | error f c =>
        rw [hrun] at hcall
        obtain ⟨w', hw', hkeeps⟩ := hcall
        rw [hw']
        exact hkeeps
    | ok r c =>
        rw [hrun] at hcall
        obtain ⟨w', hw', hterm, hg', hmode⟩ := hcall
        have hleft : leftover W g data =
            if r.disconnected ∧ r.rc ≠ 0 ∧ r.rc < data.length then some (data.drop r.rc)
            else none := by
          unfold leftover
          rw [hrun]
        rw [hleft] at hrest
        rw [hw']
        rw [hgate] at hmode
        exact afterGateway_settled hterm hidle hg' hmode hrest w' rfl
  · have hno : ¬ (w.tmuxMode = .gateway ∧ w.tmuxGateway.isSome) := fun h => hgate h.1
    intro s hs
    rw [hs, Window.fromBackend_of_not_gateway hno]
    by_cases hmode : w.tmuxMode = .none
    · simp only [introducerInNone, hmode, decide_eq_true_eq] at hin
      exact termData_settled hw hmode hin w rfl
    · obtain ⟨t, hf⟩ := introducerInNone_other hgate hmode hin
      exact termData_quiet hw hf w rfl

end Calls

section Runs

variable [Octet α] {W : Window α ε ρ σ π} {s s' : WindowLife α ε ρ σ π}

/-- The invariant: a window that has not been destroyed is settled, and its
gateway has not been deleted. -/
def Sound (s : WindowLife α ε ρ σ π) : Prop :=
  s.phase ≠ .destroyed → Settled s.window ∧ s.gatewayDeleted = false

omit [Octet α] in
theorem Sound.modesAgree (hs : Sound s) : ModesAgree s where
  gateway hd hmode := ⟨(hs hd).1.attached hmode, (hs hd).2⟩
  none hd hmode := (hs hd).1.detached hmode

omit [Octet α] in
theorem Sound.new (e : ε) : Sound (WindowLife.new e : WindowLife α ε ρ σ π) :=
  fun _ => ⟨⟨by simp [WindowLife.new, GuiTerminalWindow.init], fun _ => rfl, rfl⟩, rfl⟩

omit [Octet α] in
theorem Sound.initTerminal (hs : Sound s) (hd : s.phase ≠ .destroyed) (result : Option ε) :
    Sound (s.initTerminal result) := by
  intro _
  obtain ⟨hset, hdel⟩ := hs hd
  cases result with
  | none => exact ⟨hset, hdel⟩
  | some e => exact ⟨⟨hset.attached, hset.detached, rfl⟩, hdel⟩

omit [Octet α] in
/-- Outside gateway mode there is nothing to delete. -/
theorem deleteGateway_of_ne (hmode : s.window.tmuxMode ≠ .gateway) :
    s.deleteGateway W = .ok s := by
  simp [WindowLife.deleteGateway, WindowLife.usesDeleted, hmode]

omit [Octet α] in
/-- A gateway that is there can be deleted. -/
theorem deleteGateway_of_not_deleted (hdel : s.gatewayDeleted = false) :
    ∃ s', s.deleteGateway W = .ok s' := by
  simp only [WindowLife.deleteGateway, WindowLife.usesDeleted, hdel, Bool.false_eq_true,
    and_false, decide_false, if_false]
  split_ifs
  · split
    · exact ⟨_, rfl⟩
    · exact ⟨_, rfl⟩
  · exact ⟨_, rfl⟩

/-- One call. -/
theorem act_sound {a : WindowAct α ε ρ σ} (hs : Sound s) (ha : keepsModesBy W s a = true) :
    match s.act W a with
    | .ok s' => Sound s'
    | .error f => f.keepsModes := by
  cases a with
  | initTerminal result =>
      simp only [WindowLife.act]
      split_ifs with hphase
      · exact hs.initTerminal (by rw [hphase]; decide) result
      · exact hs
  | initTmuxClientTerminal gateway e =>
      simp only [WindowLife.act]
      split_ifs with hphase
      · intro _
        obtain ⟨-, hdel⟩ := hs (by rw [hphase]; decide)
        refine ⟨⟨fun _ => rfl, fun hmode => ?_, rfl⟩, hdel⟩
        cases hmode
      · exact hs
  | fromBackend data =>
      simp only [WindowLife.act]
      split_ifs with hphase
      · obtain ⟨hset, hdel⟩ := hs (by rw [hphase]; decide)
        have hmeets := fromBackend_settled hset (by simpa [keepsModesBy, hphase] using ha) s.window rfl
        simp only [WindowLife.fromBackend, WindowLife.usesDeleted, hdel, Bool.false_eq_true,
          and_false, decide_false, if_false]
        cases hrun : (W.fromBackend data).run s.window with
        | ok n w =>
            rw [hrun] at hmeets
            exact fun _ => ⟨hmeets, rfl⟩
        | error f w =>
            rw [hrun] at hmeets
            exact hmeets
      · exact hs
  | restartTerminal result =>
      simp only [WindowLife.act]
      split_ifs with hphase
      · rw [WindowLife.restartTerminal, deleteGateway_of_ne (by simpa [keepsModesBy] using ha)]
        refine hs.initTerminal ?_ result
        rcases hphase with h | h
        · rw [h]
          decide
        · rw [h]
          decide
      · exact hs
  | close =>
      simp only [WindowLife.act]
      split_ifs with hphase
      · have hdel : s.gatewayDeleted = false := by
          rcases hphase with h | h
          · exact (hs (by rw [h]; decide)).2
          · exact (hs (by rw [h]; decide)).2
        obtain ⟨s', hs'⟩ := deleteGateway_of_not_deleted (W := W) hdel
        rw [WindowLife.close, hs']
        exact fun hd => absurd rfl hd
      · exact hs

/-- The state in which a run ends. -/
def runActs (W : Window α ε ρ σ π) :
    WindowLife α ε ρ σ π → List (WindowAct α ε ρ σ) → LifeM α ε ρ σ π
  | s, [] => .ok s
  | s, a :: acts =>
      match s.act W a with
      | .ok s' => runActs W s' acts
      | .error f => .error f

theorem RunsModesAgree.outcome {acts : List (WindowAct α ε ρ σ)}
    (h : RunsModesAgree W s acts) :
    match runActs W s acts with
    | .ok s' => ModesAgree s'
    | .error f => f.keepsModes := by
  induction acts generalizing s with
  | nil => exact h
  | cons a acts ih =>
      obtain ⟨-, h⟩ := h
      rw [runActs]
      cases hact : s.act W a with
      | ok s' =>
          rw [hact] at h
          exact ih h
      | error f =>
          rw [hact] at h
          exact h

theorem run_sound (acts : List (WindowAct α ε ρ σ)) (hs : Sound s)
    (hacts : allKeepModes W s acts = true) : RunsModesAgree W s acts := by
  induction acts generalizing s with
  | nil => exact hs.modesAgree
  | cons a acts ih =>
      rw [allKeepModes, Bool.and_eq_true] at hacts
      obtain ⟨ha, hacts⟩ := hacts
      have hstep := act_sound hs ha
      refine ⟨hs.modesAgree, ?_⟩
      cases hact : s.act W a with
      | ok s' =>
          rw [hact] at hstep hacts
          exact ih hstep hacts
      | error f =>
          rw [hact] at hstep
          exact hstep

/-- **Mode and pointer agree along every run** in which no introducer is
completed in a mode other than `TMUX_MODE_NONE`, and no window is restarted in
gateway mode: whatever the data, the emulation and the handlers. -/
theorem run_modesAgree (W : Window α ε ρ σ π) (e : ε) (acts : List (WindowAct α ε ρ σ))
    (hacts : allKeepModes W (WindowLife.new e) acts = true) :
    RunsModesAgree W (WindowLife.new e) acts :=
  run_sound acts (Sound.new e) hacts

end Runs

/-- A terminal that enters control mode, gets data, and is closed. -/
def modeActs : List (WindowAct (Nat × UInt8) Unit Unit Unit) :=
  [.initTerminal (some ()), .fromBackend (label introducer), .fromBackend [(7, 0x78)], .close]

theorem run_modesAgree_modeActs :
    RunsModesAgree plainWindow (WindowLife.new ()) modeActs :=
  run_modesAgree plainWindow () modeActs (by decide +kernel)

/-- Terminals that get a second introducer, and that are restarted, in gateway
mode: the assertion of `initTmuxControllerMode` fails, and the window is left
with a gateway that has been deleted. -/
theorem not_runsModesAgree_gateway :
    ¬ RunsModesAgree plainWindow (WindowLife.new ())
        [.initTerminal (some ()), .fromBackend (label introducer),
          .fromBackend (label introducer)] ∧
      ¬ RunsModesAgree plainWindow (WindowLife.new ())
        [.initTerminal (some ()), .fromBackend (label introducer),
          .restartTerminal (some ())] := by
  constructor
  · intro h
    have hfault : (match runActs plainWindow (WindowLife.new ())
        [.initTerminal (some ()), .fromBackend (label introducer),
          .fromBackend (label introducer)] with
        | .ok _ => false
        | .error f => !f.keepsModes) = true := by
      decide +kernel
    have hend := h.outcome
    split at hend
    · rename_i s hs
      rw [hs] at hfault
      cases hfault
    · rename_i f hf
      rw [hf] at hfault
      dsimp only at hfault
      rw [hend] at hfault
      cases hfault
  · intro h
    have hdeleted : (match runActs plainWindow (WindowLife.new ())
        [.initTerminal (some ()), .fromBackend (label introducer),
          .restartTerminal (some ())] with
        | .ok s => decide (s.phase ≠ .destroyed ∧ s.window.tmuxMode = .gateway) &&
            s.gatewayDeleted
        | .error _ => false) = true := by
      decide +kernel
    have hend := h.outcome
    split at hend
    · rename_i s hs
      rw [hs] at hdeleted
      simp only [Bool.and_eq_true, decide_eq_true_eq] at hdeleted
      have hlive := (hend.gateway hdeleted.1.1 (.inl hdeleted.1.2)).2
      rw [hdeleted.2] at hlive
      cases hlive
    · rename_i f hf
      rw [hf] at hdeleted
      cases hdeleted

end Qutty
