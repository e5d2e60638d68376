import Qutty.Tmux.PaneTable
import Qutty.Tmux.Conservation

/-!
# A control mode session from its start to its end

The gateway together with what happens around it: lines from the server,
commands sent outside handlers, the user's work on the panes, and the end of the
session.  `_mapPanes`, `_commandQueue` and `_currentCommand` hold plain pointers,
and nothing tells the gateway that a terminal has been closed.

`Spares` says that the user does not close a terminal that the gateway still
refers to.  `run_noStale`: as long as that is so, no reference goes stale, and
nothing is done to a closed terminal or to a deleted pane.
-/

namespace Qutty
namespace Tmux

open Lib Pane Pane.GuiMainWindow

/-- How far a session is. -/
inductive Phase where
  /-- `TMUX_MODE_GATEWAY` -/
  | reading
  /-- `TMUX_MODE_GATEWAY_DETACH_INIT` -/
  | leaving
  /-- the gateway has been deleted -/
  | ended
deriving DecidableEq, Repr

/-- The gateway of a session, and how far the session is. -/
structure Session where
  gateway : TmuxGateway UInt8 Receiver Client
  phase : Phase

/-- What happens in a session. -/
inductive SessionEvent where
  /-- `parseCommand`; `following` is what the receive buffer holds behind the line -/
  | line (bytes following : List UInt8)
  /-- `sendCommand(gateway, CB_NULL, ..)`: keys, a new size, a new window -/
  | send (text : List Char)
  | user (op : PaneOp)
  /-- `detachTmuxControllerMode` -/
  | detach
  /-- the gateway's own terminal is deleted or restarted -/
  | initiateDetach

/-- The receivers in `_commandQueue` and in `_currentCommand`. -/
def TmuxGateway.receivers (g : TmuxGateway UInt8 Receiver Client) : List Receiver :=
  g.commandQueue.filterMap TmuxCmdResp.receiver ++ g.currentCommand.receiver.toList

namespace Session

/-- `initTmuxControllerMode` in a main window that shows the terminal `t`. -/
def start (plat : Platform) (main : GuiMainWindow) (t : Nat) : Session :=
  ⟨.init (.init plat (main.tabRemove (indexOf main.tabs (.term t)))), .reading⟩

def client (s : Session) : Client := s.gateway.state

def withClient (s : Session) (c : Client) : Session :=
  { s with gateway := { s.gateway with state := c } }

/-- `sendCommand(gateway, CB_NULL, text)`. -/
def sendCommand (s : Session) (text : List Char) : Session :=
  { s with gateway := s.gateway.sendCommand ⟨.gateway, .null, text⟩ }

/-- `closeAllPanes`, then `delete _tmuxGateway`.  The destructor calls
`closeAllPanes` once more, for an empty map. -/
def finish (s : Session) : Session :=
  { s.withClient (closeAllPanes s.client) with phase := .ended }

/-- `parseCommand`; only an `%exit` line makes it return -1. -/
def parseLine (plat : Platform) (s : Session) (bytes following : List UInt8) :
    Option Session :=
  match TmuxGateway.parseCommand (clientHandlers plat) bytes
      { s.gateway with state := { s.client with following := following } } with
  | .ok rc g => some ⟨g, if rc = -1 then .leaving else .reading⟩
  | .error _ _ => none

/-- One event; `none` if the program stops at it or has stopped before. -/
def step (plat : Platform) (s : Session) (e : SessionEvent) : Option Session :=
  if s.client.stopped then none
  else
    match e, s.phase with
    | .line bytes following, .reading => s.parseLine plat bytes following
    | .send text, .reading => some (s.sendCommand text)
    | .send text, .leaving => some (s.sendCommand text)
    | .user op, _ =>
        (s.client.main.step op).map (fun main => s.withClient { s.client with main := main })
    | .detach, .leaving => some s.finish
    | .initiateDetach, .reading => some (s.sendCommand "detach\n".toList).finish
    | _, _ => some s

/-- A sequence of events. -/
def run (plat : Platform) (s : Session) : List SessionEvent → Option Session
  | [] => some s
  | e :: es => (s.step plat e).bind (fun s => run plat s es)

def receivers (s : Session) : List Receiver := s.gateway.receivers

/-- The panes that the gateway refers to. -/
def referred (s : Session) : List Nat :=
  s.client.mapPanes.values ++ s.receivers.filterMap (fun
    | .pane p => some p
    | .gateway => none)

/-- No reference is stale, and none has been used that was. -/
structure NoStale (s : Session) : Prop where
  entries : s.phase ≠ .ended → ∀ k p, s.client.mapPanes.find k = some p →
    p ∉ s.client.deleted ∧ (s.client.pane p).termWnd ∉ s.client.main.closed
  receivers : s.phase ≠ .ended → ∀ r ∈ s.receivers,
    r = .gateway ∨ ∃ p, r = .pane p ∧ p ∉ s.client.deleted
  unused : s.client.misuses = []
  closedOnce : s.client.main.closed.Nodup

/-- The user does not close a terminal that the gateway refers to. -/
def Spares (s : Session) : SessionEvent → Prop
  | .user (.close t) => s.phase ≠ .ended → t ∈ s.client.main.opened →
      ∀ p ∈ s.referred, (s.client.pane p).termWnd ≠ t
  | _ => True

instance (s : Session) : (e : SessionEvent) → Decidable (s.Spares e)
  | .user (.close _) => inferInstanceAs (Decidable (_ → _ → _))
  | .user .openTab | .user (.split _ _) | .user (.dropOnTerminal _ _ _)
  | .user (.dropOnTabBar _ _ _) | .line _ _ | .send _ | .detach | .initiateDetach =>
      inferInstanceAs (Decidable True)

/-- Every event of a run spares the terminals in use. -/
def AllSpare (plat : Platform) (s : Session) : List SessionEvent → Prop
  | [] => True
  | e :: es => s.Spares e ∧ ∀ s' ∈ s.step plat e, AllSpare plat s' es

instance decidableAllSpare (plat : Platform) (s : Session) :
    (es : List SessionEvent) → Decidable (s.AllSpare plat es)
  | [] => inferInstanceAs (Decidable True)
  | e :: es =>
      match hs : s.step plat e with
      | some s' =>
          have := decidableAllSpare plat s' es
          decidable_of_iff (s.Spares e ∧ s'.AllSpare plat es) (by simp [AllSpare, hs])
      | none => decidable_of_iff (s.Spares e) (by simp [AllSpare, hs])

/-- The invariant: references are good until the end, and then the records are. -/
structure Lively (s : Session) : Prop where
  sound : s.phase ≠ .ended → Sound s.client (panesOf s.receivers)
  unused : s.client.misuses = []
  proper : s.client.main.ledger.Proper

variable {plat : Platform} {s s' : Session}

theorem Lively.of_sound (h : Sound s.client (panesOf s.receivers)) : s.Lively :=
  ⟨fun _ => h, h.misuses, h.proper⟩

theorem Lively.noStale (h : s.Lively) : s.NoStale where
  entries hp k p hk := by
    have hs := h.sound hp
    have hdel : s.client.deleted = [] := hs.deleted
    rw [hdel]
    exact ⟨List.not_mem_nil, hs.mapOpen k p hk⟩
  receivers hp r _ := by
    have hdel : s.client.deleted = [] := (h.sound hp).deleted
    rw [hdel]
    cases r with
    | gateway => exact .inl rfl
    | pane p => exact .inr ⟨p, rfl, List.not_mem_nil⟩
  unused := h.unused
  closedOnce := h.proper.closedNodup

theorem mem_referred {p : Nat} : p ∈ s.referred ↔
    (∃ k, s.client.mapPanes.find k = some p) ∨ p ∈ panesOf s.receivers := by
  rw [referred, List.mem_append, OrderedMap.mem_values]
  refine or_congr Iff.rfl ?_
  rw [List.mem_filterMap]
  constructor
  · rintro ⟨r, hr, hp⟩
    cases r with
    | gateway => cases hp
    | pane q =>
        cases hp
        exact hr
  · exact fun hp => ⟨.pane p, hp, rfl⟩

section Lines

variable {g g' : TmuxGateway UInt8 Receiver Client}

/-- The panes that a gateway's commands are addressed to. -/
theorem panesOf_sendCommands (cs : List (Command Receiver)) :
    panesOf (g.sendCommands cs).receivers = panesOf g.receivers ∪ addressed cs := by
  have hqueue : (cs.map Command.resp).filterMap TmuxCmdResp.receiver =
      cs.map Command.receiver := by
    rw [List.filterMap_map]
    exact congrFun List.filterMap_eq_map cs
  ext p
  simp only [TmuxGateway.receivers, TmuxGateway.sendCommands_eq, List.filterMap_append, hqueue,
    panesOf, addressed, Set.mem_union, Set.mem_ofPred_eq, List.mem_append]
  tauto

theorem state_sendCommands (cs : List (Command Receiver)) :
    (g.sendCommands cs).state = g.state := by
  rw [TmuxGateway.sendCommands_eq]

variable (g') in
/-- A handler that keeps references good, with the commands that it sends. -/
theorem sendCommands_sound {c : Client} {cs : List (Command Receiver)}
    (h : Sound g.state (panesOf g.receivers)) (hr : g'.receivers = g.receivers)
    (hk : KeepsSound (panesOf g.receivers) g.state (c, cs)) (hc : g'.state = c) :
    Sound (g'.sendCommands cs).state (panesOf (g'.sendCommands cs).receivers) := by
  rw [state_sendCommands, panesOf_sendCommands, hr, hc]
  exact hk h

/-- The gateway when a callback has returned, before its commands are sent. -/
def afterCallback (plat : Platform) (line : List UInt8) (g : TmuxGateway UInt8 Receiver Client)
    (receiver : Receiver) : TmuxGateway UInt8 Receiver Client :=
  ({ g.record (.line line) with
      state := (performCallback plat receiver g.currentCommand.callback
        g.currentCommandResponse g.state).1 }).record
    (.performed receiver g.currentCommand.callback g.currentCommandResponse)

/-- A command that has been answered is forgotten. -/
theorem panesOf_finish (g : TmuxGateway UInt8 Receiver Client) (response : List UInt8) :
    panesOf ({ g with currentCommand := ⟨none, .indexMax⟩
                      currentCommandResponse := response } :
        TmuxGateway UInt8 Receiver Client).receivers ⊆ panesOf g.receivers := by
  intro p hp
  simp only [panesOf, TmuxGateway.receivers, Option.toList_none, List.append_nil,
    Set.mem_ofPred_eq] at hp
  exact List.mem_append_left _ hp

variable (plat) in
/-- **One line.** -/
theorem parseStep_sound {line : List UInt8} (h : Sound g.state (panesOf g.receivers))
    (hs : ParseStep (clientHandlers plat) line g g') :
    Sound g'.state (panesOf g'.receivers) := by
  cases hs with
  | strayEnd => exact h
  | strayBegin => exact h
  | collect => exact h
  | finish receiver _ hcur =>
      have hmem : ∀ p, receiver = .pane p → p ∈ panesOf g.receivers := by
        rintro p rfl
        simp [panesOf, TmuxGateway.receivers, hcur]
      have hk : KeepsSound (panesOf g.receivers) g.state (performCallback plat receiver
          g.currentCommand.callback g.currentCommandResponse g.state) :=
        performCallback_sound receiver hmem _ _
      exact (sendCommands_sound (afterCallback plat line g receiver) h rfl hk rfl).mono
        (panesOf_finish _ _)
  | begin c queue _ hcur _ hqueue =>
      refine Sound.mono h ?_
      intro p hp
      simpa [panesOf, TmuxGateway.receivers, TmuxGateway.beginCommand, hcur, hqueue,
        or_comm] using hp
  | dispatch n =>
      exact sendCommands_sound _ h rfl (notify_sound n line) rfl

end Lines

section Events

theorem parseLine_sound {bytes following : List UInt8} (h : s.Lively)
    (hp : s.phase = .reading) (hs : s.parseLine plat bytes following = some s') : s'.Lively := by
  unfold parseLine at hs
  split at hs
  · rename_i rc g hrun
    cases hs
    have hsound : Sound s.client (panesOf s.receivers) := h.sound (by simp [hp])
    exact .of_sound (parseStep_sound plat
      (g := { s.gateway with state := { s.client with following := following } })
      (hsound.of_references rfl) (parseCommand_cases _ _ hrun))
  · cases hs

theorem sendCommand_lively (h : s.Lively) (text : List Char) : (s.sendCommand text).Lively where
  sound hp := by
    refine Sound.mono (h.sound hp) ?_
    intro p hmem
    simpa [panesOf, receivers, TmuxGateway.receivers, sendCommand, TmuxGateway.sendCommand,
      Command.resp] using hmem
  unused := h.unused
  proper := h.proper

/-- Closing the terminals of the panes, each once. -/
theorem closePaneTerminals_proper (ps : List Nat) (c : Client) (hnodup : ps.Nodup)
    (hlt : ∀ p ∈ ps, p < c.nextPane) (hdel : ∀ p ∈ ps, p ∉ c.deleted)
    (hopen : ∀ p ∈ ps, (c.pane p).termWnd ∉ c.main.closed)
    (hfresh : c.references.Fresh) (hmisuses : c.misuses = []) (hproper : c.main.ledger.Proper) :
    (ps.foldl closePaneTerminal c).misuses = [] ∧
      (ps.foldl closePaneTerminal c).main.ledger.Proper := by
  induction ps generalizing c with
  | nil => exact ⟨hmisuses, hproper⟩
  | cons p ps ih =>
      rw [List.nodup_cons] at hnodup
      rw [List.forall_mem_cons] at hlt hdel hopen
      rw [List.foldl_cons]
      by_cases hstop : c.stopped = true
      · rw [closePaneTerminal, if_pos hstop]
        exact ih c hnodup.2 hlt.2 hdel.2 hopen.2 hfresh hmisuses hproper
      · have huse : c.usePane p = c := if_neg hdel.1
        rw [closePaneTerminal, if_neg hstop]
        dsimp only
        rw [huse, Client.useTerminal_of_open hopen.1]
        split
        · rename_i main hmain
          have hledger := ledger_closeTerminal hmain
          have hclosed : main.closed = c.main.closed ++ [(c.pane p).termWnd] :=
            congrArg Ledger.closed hledger
          have hnext : main.nextTerminal = c.main.nextTerminal :=
            congrArg Ledger.nextTerminal hledger
          refine ih _ hnodup.2 hlt.2 ?_ ?_ ?_ hmisuses ?_
          · intro q hq
            have hqp : q ≠ p := fun h => hnodup.1 (h ▸ hq)
            simpa [hqp] using hdel.2 q hq
          · intro q hq
            -- the terminals of different panes are different
            have hne : (c.pane q).termWnd ≠ (c.pane p).termWnd := fun h =>
              hnodup.1 (hfresh.terminalInj q (hlt.2 q hq) p hlt.1 h ▸ hq)
            simpa [hclosed, hne] using hopen.2 q hq
          · exact ⟨fun q hq => (hfresh.terminalLt q hq).trans_eq hnext.symm, hfresh.terminalInj,
              hfresh.mapLt, hfresh.mapInj⟩
          · rw [hledger]
            exact hproper.closes hopen.1 (hfresh.terminalLt p hlt.1)
        · exact ih _ hnodup.2 hlt.2 hdel.2 hopen.2 ⟨hfresh.terminalLt, hfresh.terminalInj,
            hfresh.mapLt, hfresh.mapInj⟩ hmisuses hproper

/-- **The end of a session.** -/
theorem finish_lively (h : s.Lively) (hp : s.phase ≠ .ended) : s.finish.Lively := by
  have hs := h.sound hp
  have hdel : s.client.deleted = [] := hs.deleted
  have hvalues : ∀ p ∈ s.client.mapPanes.values, ∃ k, s.client.mapPanes.find k = some p :=
    fun p => OrderedMap.mem_values.mp
  have hclosed := closePaneTerminals_proper s.client.mapPanes.values s.client
    (OrderedMap.values_nodup hs.fresh.mapInj)
    (fun p hmem => (hvalues p hmem).elim fun k => hs.fresh.mapLt k p) (by simp [hdel])
    (fun p hmem => (hvalues p hmem).elim fun k => hs.mapOpen k p)
    hs.fresh h.unused h.proper
  exact ⟨fun hne => absurd rfl hne, hclosed.1, hclosed.2⟩

/-- **The user's work on the panes.** -/
theorem user_lively {op : PaneOp} {main : GuiMainWindow} (h : s.Lively)
    (hs : s.Spares (.user op)) (hstep : s.client.main.step op = some main) :
    (s.withClient { s.client with main := main }).Lively := by
  have hledger := step_ledger hstep
  have hproper := h.proper.step hledger
  refine ⟨fun hp => ?_, h.unused, hproper⟩
  have hsound : Sound s.client (panesOf s.receivers) := h.sound hp
  generalize hl : main.ledger = l at hledger
  cases hledger with
  | same =>
      have hclosed : main.closed = s.client.main.closed := congrArg Ledger.closed hl
      refine hsound.withMain (congrArg Ledger.nextTerminal hl).ge (fun p hu => ?_) hproper
      rw [hclosed]
      exact hsound.inUse hu
  | opens =>
      have hclosed : main.closed = s.client.main.closed := congrArg Ledger.closed hl
      have hnext : main.nextTerminal = s.client.main.nextTerminal + 1 :=
        congrArg Ledger.nextTerminal hl
      refine hsound.withMain (by omega) (fun p hu => ?_) hproper
      rw [hclosed]
      exact hsound.inUse hu
  | closes t ht =>
      have hclosed : main.closed = s.client.main.closed ++ [t] := congrArg Ledger.closed hl
      refine hsound.withMain (congrArg Ledger.nextTerminal hl).ge (fun p hu => ?_) hproper
      have hne : (s.client.pane p).termWnd ≠ t :=
        hs hp ht p (mem_referred.mpr hu)
      simpa [hclosed, hne] using hsound.inUse hu

/-- **One event.** -/
theorem Lively.step {e : SessionEvent} (h : s.Lively) (hspares : s.Spares e)
    (hs : s.step plat e = some s') : s'.Lively := by
  unfold Session.step at hs
  split_ifs at hs
  split at hs
  · exact parseLine_sound h (by assumption) hs
  · cases hs
    exact sendCommand_lively h _
  · cases hs
    exact sendCommand_lively h _
  · obtain ⟨main, hmain, rfl⟩ := Option.map_eq_some_iff.mp hs
    exact user_lively h hspares hmain
  · rename_i hphase
    cases hs
    exact finish_lively h (by simp [hphase])
  · rename_i hphase
    cases hs
    exact finish_lively (sendCommand_lively h _) (by simp [sendCommand, hphase])
  · cases hs
    exact h

theorem Lively.run {es : List SessionEvent} (h : s.Lively) (hspares : s.AllSpare plat es)
    (hs : s.run plat es = some s') : s'.Lively := by
  induction es generalizing s with
  | nil =>
      cases hs
      exact h
  | cons e es ih =>
      obtain ⟨s₁, hstep, hrun⟩ := Option.bind_eq_some_iff.mp hs
      exact ih (h.step hspares.1 hstep) (hspares.2 s₁ hstep) hrun

end Events

theorem proper_run {w w' : GuiMainWindow} (ops : List PaneOp) (h : w.ledger.Proper)
    (hrun : w.run ops = some w') : w'.ledger.Proper := by
  induction ops generalizing w with
  | nil =>
      cases hrun
      exact h
  | cons op ops ih =>
      obtain ⟨w₁, hstep, hrun⟩ := Option.bind_eq_some_iff.mp hrun
      exact ih (h.step (step_ledger hstep)) hrun

theorem lively_start (plat : Platform) {main : GuiMainWindow} (t : Nat)
    (h : main.ledger.Proper) : (start plat main t).Lively := by
  refine .of_sound (Sound.mono (A := ∅) (sound_init plat ?_) ?_)
  · rw [ledger_tabRemove]
    exact h
  · intro p hp
    simp [panesOf, receivers, TmuxGateway.receivers, start, TmuxGateway.init] at hp

/-- **No stale references**, in a session that starts in any main window, as long as
the user spares the terminals in use. -/
theorem run_noStale (plat : Platform) (ops : List PaneOp) (main : GuiMainWindow) (t : Nat)
    (es : List SessionEvent) (s : Session) (hmain : GuiMainWindow.init.run ops = some main)
    (hspares : (start plat main t).AllSpare plat es)
    (hrun : (start plat main t).run plat es = some s) : s.NoStale :=
  ((lively_start plat t (proper_run ops proper_init hmain)).run hspares hrun).noStale

/-- A main window with one tab. -/
def oneTab : GuiMainWindow := (GuiMainWindow.init.run [.openTab]).getD .init

/-- A line with nothing behind it. -/
def lineOf (text : String) : SessionEvent := .line (ascii text.toList) []

/-- The server lists a window with the pane 5, which becomes terminal 1. -/
def openingEvents : List SessionEvent :=
  [lineOf "%session-changed $0 a\n",
   lineOf "%begin 1\n", lineOf "%end 1\n",
   lineOf "%begin 2\n", lineOf "%end 2\n",
   lineOf "%begin 3\n", lineOf "a\t@0\tx\t80\t24\tb25d,80x24,0,0,5\t*\t1\n", lineOf "%end 3\n"]

/-- The user closes a tab of its own, and the server ends the session. -/
theorem run_noStale_openingEvents :
    ∃ s, (start plainPlatform oneTab 0).run plainPlatform (openingEvents ++
        [.user .openTab, .user (.close 2), lineOf "%exit\n", .detach]) = some s ∧
      s.phase = .ended ∧ s.client.main.closed = [2, 1] ∧ s.NoStale := by
  have hrun : ((start plainPlatform oneTab 0).run plainPlatform (openingEvents ++
      [.user .openTab, .user (.close 2), lineOf "%exit\n", .detach])).map
        (fun s => (s.phase, s.client.main.closed)) = some (.ended, [2, 1]) := by decide +kernel
  obtain ⟨s, hs, heq⟩ := Option.map_eq_some_iff.mp hrun
  exact ⟨s, hs, (Prod.mk.inj heq).1, (Prod.mk.inj heq).2,
    run_noStale plainPlatform [.openTab] oneTab 0 _ s rfl (by decide +kernel) hs⟩

/-- The user closes the tab of the pane; then the history arrives. -/
def closingEvents : List SessionEvent :=
  openingEvents ++
    [.user (.close 1), lineOf "%begin 4\n", lineOf "hello\n", lineOf "%end 4\n"]

/-- The entry of the map goes stale, and the history goes to a closed terminal. -/
theorem not_noStale_closingEvents :
    ∃ s, (start plainPlatform oneTab 0).run plainPlatform closingEvents = some s ∧
      s.phase = .reading ∧ s.client.mapPanes.find 5 = some 0 ∧
      (s.client.pane 0).termWnd ∈ s.client.main.closed ∧
      .closedTerminal 1 ∈ s.client.misuses ∧ ¬ s.NoStale := by
  have hrun : ((start plainPlatform oneTab 0).run plainPlatform closingEvents).map
      (fun s => (s.phase, s.client.mapPanes.find 5, (s.client.pane 0).termWnd,
        s.client.main.closed, s.client.misuses)) =
      some (.reading, some 0, 1, [1], [.closedTerminal 1, .closedTerminal 1]) := by
    decide +kernel
  obtain ⟨s, hs, heq⟩ := Option.map_eq_some_iff.mp hrun
  simp only [Prod.mk.injEq] at heq
  obtain ⟨hphase, hfind, hterm, hclosed, hmis⟩ := heq
  refine ⟨s, hs, hphase, hfind, by simp [hterm, hclosed], by simp [hmis], fun hno => ?_⟩
  exact (hno.entries (by simp [hphase]) 5 0 hfind).2 (by simp [hterm, hclosed])

end Session
end Tmux
end Qutty
