import Qutty.Tmux.WindowIds

/-!
# The output of a new pane

A new pane asks for its history, its other screen and its state, in this order,
and is ready when the state has arrived.  Output that the server reports before
that is dropped.  Up to the reply with the history this is right: the history
has that output in it.  After that reply the output is lost.

`PaneEvent` is what happens to a pane that waits for its three replies: a line of
output, or a reply.  `dataExpected` is the output after the first reply, and
`run_dataFed` says what the terminal gets of it; the two agree exactly if no
output comes between the first reply and readiness (`Quiet`).
-/

namespace Qutty
namespace Tmux

open Lib Pane

/-- `%output %<pane> <payload>`. -/
def outputLine (k : Int) (payload : List UInt8) : List UInt8 :=
  ascii ['%', 'o', 'u', 't', 'p', 'u', 't', ' ', '%'] ++
    (ascii (decimal k) ++ 32 :: (payload ++ [10]))

/-- The data of a payload with what is behind its line in memory. -/
def payloadData (payload following : List UInt8) : List UInt8 :=
  decodeOutput (payload ++ 10 :: following) payload.length

/-- What happens to a pane that waits for its replies. -/
inductive PaneEvent where
  | output (payload following : List UInt8)
  /-- a reply block with its guard and the lines of its body -/
  | reply (guard : List UInt8) (body : List (List UInt8)) (following : List UInt8)

namespace PaneEvent

/-- The lines of an event. -/
def events (k : Int) : PaneEvent → List SessionEvent
  | .output payload following => [.line (outputLine k payload) following]
  | .reply guard body following =>
      .line (percentBegin ++ guard) following ::
        (body.map (fun line => .line line following) ++
          [.line (percentEnd ++ guard) following])

/-- No line of a body looks like the end of the reply. -/
def Regular : PaneEvent → Prop
  | .output _ _ => True
  | .reply _ body _ => ∀ line ∈ body, startsWith percentEnd line = false

instance : (e : PaneEvent) → Decidable e.Regular
  | .output _ _ => inferInstanceAs (Decidable True)
  | .reply _ body _ => inferInstanceAs (Decidable (∀ line ∈ body, _))

end PaneEvent

/-- The verdict on a reply with the state of the pane `k`. -/
def stateAccepted (plat : Platform) (k : Int) (body : List (List UInt8)) : Bool :=
  (readTermState plat k body.flatten plat.termInit).2

/-- No output between the first reply and readiness. -/
def Quiet (plat : Platform) (k : Int) : Nat → Bool → List PaneEvent → Prop
  | _, _, [] => True
  | n, ready, .output payload following :: es =>
      (n ≠ 0 → ready = false → payloadData payload following = []) ∧ Quiet plat k n ready es
  | n, ready, .reply _ body _ :: es =>
      Quiet plat k (n + 1) (ready || (n = 2 && stateAccepted plat k body)) es

instance decidableQuiet (plat : Platform) (k : Int) :
    (n : Nat) → (ready : Bool) → (es : List PaneEvent) → Decidable (Quiet plat k n ready es)
  | _, _, [] => inferInstanceAs (Decidable True)
  | n, ready, .output _ _ :: es =>
      have := decidableQuiet plat k n ready es
      inferInstanceAs (Decidable (_ ∧ _))
  | n, ready, .reply _ body _ :: es =>
      decidableQuiet plat k (n + 1) (ready || (n = 2 && stateAccepted plat k body)) es

/-- The output that has been fed to a terminal. -/
def fedOutput (t : Nat) (fed : List Feed) : List UInt8 :=
  fed.flatMap (fun f => if f.terminal = t ∧ f.source = .output then f.bytes else [])

/-- The commands of a new pane. -/
def paneCommands (p : Nat) : List (TmuxCmdResp Receiver) :=
  [⟨some (.pane p), .dumpHistory⟩, ⟨some (.pane p), .dumpHistoryAlt⟩,
   ⟨some (.pane p), .dumpTermState⟩]

/-- The session reads, and the pane `k` with the terminal `t` waits for the replies
after the first `n`. -/
structure Waiting (s : Session) (k : Int) (p t n : Nat) (ready : Bool)
    (rest : List (TmuxCmdResp Receiver)) : Prop where
  reading : s.phase = .reading
  running : s.client.stopped = false
  idle : s.gateway.currentCommand.receiver = none
  queue : s.gateway.commandQueue = (paneCommands p).drop n ++ rest
  number : -2 ^ 31 ≤ k ∧ k < 2 ^ 31
  mapped : s.client.mapPanes.find k = some p
  id : (s.client.pane p).id = k
  terminal : (s.client.pane p).termWnd = t
  ready : (s.client.pane p).ready = ready

section Data

variable {plat : Platform} {k : Int}

theorem flatten_toChunks_go {α : Type} (n : Nat) (xs : List α) (acc : Array α)
    (accs : Array (List α)) :
    (List.toChunks.go n xs acc accs).flatten = accs.toList.flatten ++ acc.toList ++ xs := by
  induction xs generalizing acc accs with
  | nil => simp [List.toChunks.go]
  | cons x xs ih =>
      rw [List.toChunks.go]
      split_ifs
      · simp [ih]
      · simp [ih]

theorem flatten_toChunks {α : Type} (n : Nat) (xs : List α) : (xs.toChunks n).flatten = xs := by
  cases xs with
  | nil => simp [List.toChunks]
  | cons x xs =>
      cases n with
      | zero => simp [List.toChunks]
      | succ n => simp [List.toChunks, flatten_toChunks_go]

end Data

section Effects

variable {plat : Platform} {k : Int} {c : Client} {p t : Nat}

@[simp] theorem pane_usePane : (c.usePane p).pane = c.pane := by
  unfold Client.usePane
  split_ifs <;> rfl

@[simp] theorem mapPanes_usePane : (c.usePane p).mapPanes = c.mapPanes := by
  unfold Client.usePane
  split_ifs <;> rfl

@[simp] theorem fed_usePane : (c.usePane p).fed = c.fed := by
  unfold Client.usePane
  split_ifs <;> rfl

@[simp] theorem term_usePane : (c.usePane p).term = c.term := by
  unfold Client.usePane
  split_ifs <;> rfl

@[simp] theorem pane_useTerminal : (c.useTerminal t).pane = c.pane := by
  unfold Client.useTerminal
  split_ifs <;> rfl

@[simp] theorem mapPanes_useTerminal : (c.useTerminal t).mapPanes = c.mapPanes := by
  unfold Client.useTerminal
  split_ifs <;> rfl

@[simp] theorem fed_useTerminal : (c.useTerminal t).fed = c.fed := by
  unfold Client.useTerminal
  split_ifs <;> rfl

@[simp] theorem term_useTerminal : (c.useTerminal t).term = c.term := by
  unfold Client.useTerminal
  split_ifs <;> rfl

/-- What an event leaves alone: the panes except for readiness. -/
structure Undisturbed (c c' : Client) : Prop where
  mapPanes : c'.mapPanes = c.mapPanes
  termWnd : ∀ q, (c'.pane q).termWnd = (c.pane q).termWnd
  id : ∀ q, (c'.pane q).id = (c.pane q).id
  stopped : c'.stopped = c.stopped

theorem Undisturbed.trans {c₁ c₂ c₃ : Client} (h : Undisturbed c₁ c₂) (h' : Undisturbed c₂ c₃) :
    Undisturbed c₁ c₃ where
  mapPanes := h'.mapPanes.trans h.mapPanes
  termWnd q := (h'.termWnd q).trans (h.termWnd q)
  id q := (h'.id q).trans (h.id q)
  stopped := h'.stopped.trans h.stopped

/-- Pieces of output that are fed to a pane. -/
theorem feedPieces_fed (p : Nat) (pieces : List (List UInt8)) (c : Client) :
    let c' := pieces.foldl (fun c piece => c.fromBackend (c.pane p).termWnd .output piece) c
    Undisturbed c c' ∧ c'.pane = c.pane ∧
      fedOutput (c.pane p).termWnd c'.fed =
        fedOutput (c.pane p).termWnd c.fed ++ pieces.flatten := by
  induction pieces generalizing c with
  | nil => exact ⟨⟨rfl, fun _ => rfl, fun _ => rfl, rfl⟩, rfl, by simp⟩
  | cons piece pieces ih =>
      obtain ⟨hsame, hpane, hfed⟩ := ih (c.fromBackend (c.pane p).termWnd .output piece)
      have hstep : Undisturbed c (c.fromBackend (c.pane p).termWnd .output piece) :=
        ⟨by simp [Client.fromBackend], by simp [Client.fromBackend],
          by simp [Client.fromBackend], by simp [Client.fromBackend]⟩
      rw [pane_fromBackend] at hpane hfed
      refine ⟨hstep.trans hsame, hpane, ?_⟩
      rw [List.foldl_cons, hfed]
      simp [Client.fromBackend, fedOutput]

/-- The parts of an output line. -/
theorem cmdHdlrOutput_eq (payload : List UInt8) (hk : -2 ^ 31 ≤ k ∧ k < 2 ^ 31)
    (hm : c.mapPanes.find k = some p) :
    cmdHdlrOutput (outputLine k payload) c =
      if ((c.usePane p).pane p).ready = false then c.usePane p
      else ((payloadData payload c.following).toChunks outputBufferSize).foldl
        (fun c piece => c.fromBackend (c.pane p).termWnd .output piece) (c.usePane p) := by
  have hread : strtol (ascii (decimal k) ++ 32 :: (payload ++ 10 :: c.following)) =
      some (k, 32 :: (payload ++ 10 :: c.following)) := by
    have hfit : Istream.fitInt k = (k, false) := by
      rw [Istream.fitInt, if_neg (by omega), if_neg (by omega)]
    rw [strtol, readInt_intNumeral (toNat_ascii_decimal k) (by simp; rfl)]
    simp [hfit]
  have hmem : outputLine k payload ++ c.following =
      ascii ['%', 'o', 'u', 't', 'p', 'u', 't', ' '] ++
        TmuxLayout.octetOf '%' :: (ascii (decimal k) ++ 32 :: (payload ++ 10 :: c.following)) := by
    simp [outputLine, ascii, TmuxLayout.octetOf]
  -- the data begins behind the number and one blank
  have hstart : (outputLine k payload ++ c.following).length -
      (32 :: (payload ++ 10 :: c.following)).length + 1 = (ascii (decimal k)).length + 10 := by
    simp only [hmem, List.length_append, List.length_cons]
    have hlen : (ascii ['%', 'o', 'u', 't', 'p', 'u', 't', ' ']).length = 8 := rfl
    omega
  have hlength : (outputLine k payload).length - ((ascii (decimal k)).length + 10) - 1 =
      payload.length := by
    have hlen : (ascii ['%', 'o', 'u', 't', 'p', 'u', 't', ' ', '%']).length = 9 := rfl
    simp only [outputLine, List.length_append, List.length_cons, List.length_nil]
    omega
  have hbytes : (outputLine k payload ++ c.following).drop ((ascii (decimal k)).length + 10) =
      payload ++ 10 :: c.following := by
    have hsplit : outputLine k payload ++ c.following =
        (ascii ['%', 'o', 'u', 't', 'p', 'u', 't', ' ', '%'] ++ (ascii (decimal k) ++ [32])) ++
          (payload ++ 10 :: c.following) := by
      simp [outputLine]
    rw [hsplit]
    refine List.drop_left' ?_
    have hlen : (ascii ['%', 'o', 'u', 't', 'p', 'u', 't', ' ', '%']).length = 9 := rfl
    simp only [List.length_append, List.length_cons, List.length_nil]
    omega
  have hcmd : (outputLine k payload ++ c.following).drop 8 = TmuxLayout.octetOf '%' ::
      (ascii (decimal k) ++ 32 :: (payload ++ 10 :: c.following)) := by
    rw [hmem]
    rfl
  simp only [cmdHdlrOutput, hcmd, List.head?_cons, ne_eq, not_true_eq_false, if_false,
    List.drop_one, List.tail_cons, hread, hm, hstart, hlength, hbytes, payloadData]

/-- A line of output for a pane. -/
theorem output_effect (payload : List UInt8) (hk : -2 ^ 31 ≤ k ∧ k < 2 ^ 31)
    (hm : c.mapPanes.find k = some p) :
    let c' := cmdHdlrOutput (outputLine k payload) c
    Undisturbed c c' ∧ (c'.pane p).ready = (c.pane p).ready ∧
      fedOutput (c.pane p).termWnd c'.fed = fedOutput (c.pane p).termWnd c.fed ++
        (if (c.pane p).ready then payloadData payload c.following else []) := by
  intro c'
  have hc' : c' = _ := cmdHdlrOutput_eq payload hk hm
  rw [pane_usePane] at hc'
  have hsame : Undisturbed c (c.usePane p) := ⟨by simp, by simp, by simp, by simp⟩
  cases hr : (c.pane p).ready with
  | false =>
      rw [if_pos hr] at hc'
      rw [hc']
      exact ⟨hsame, by simp [hr], by simp⟩
  | true =>
      rw [if_neg (by simp [hr])] at hc'
      obtain ⟨hfeeds, hpane, hfed⟩ := feedPieces_fed p
        ((payloadData payload c.following).toChunks outputBufferSize) (c.usePane p)
      rw [flatten_toChunks, pane_usePane, fed_usePane] at hfed
      rw [hc']
      exact ⟨hsame.trans hfeeds, by simp [hpane, hr], hfed⟩

/-- Two readers of a terminal state that agree but for the terminal. -/
def StateReader.Agree (r r' : StateReader) : Prop := r' = { r with fields := r'.fields }

variable (plat k) in
theorem readKeyval_agree (keyval : List UInt8) {r r' : StateReader} (h : r.Agree r') :
    (readKeyval plat k keyval r).1.Agree (readKeyval plat k keyval r').1 ∧
      (readKeyval plat k keyval r).2 = (readKeyval plat k keyval r').2 := by
  rw [h]
  simp only [readKeyval]
  split_ifs
  · exact ⟨rfl, rfl⟩
  · exact ⟨rfl, rfl⟩
  · exact ⟨rfl, rfl⟩
  · exact ⟨rfl, rfl⟩
  · cases stateSetters.find? _ with
    | none => exact ⟨rfl, rfl⟩
    | some e => exact ⟨rfl, rfl⟩

variable (plat k) in
theorem readKeyvals_agree (keyvals : List (List UInt8)) {r r' : StateReader} (h : r.Agree r') :
    (readKeyvals plat k keyvals r).1.Agree (readKeyvals plat k keyvals r').1 ∧
      (readKeyvals plat k keyvals r).2 = (readKeyvals plat k keyvals r').2 := by
  induction keyvals generalizing r r' with
  | nil => exact ⟨h, rfl⟩
  | cons keyval keyvals ih =>
      obtain ⟨hone, hexit⟩ := readKeyval_agree plat k keyval h
      rw [readKeyvals, readKeyvals]
      generalize readKeyval plat k keyval r = x at hone hexit ⊢
      generalize readKeyval plat k keyval r' = y at hone hexit ⊢
      obtain ⟨r₁, e⟩ := x
      obtain ⟨r₁', e'⟩ := y
      dsimp only at hone hexit
      subst hexit
      cases e with
      | next => exact ih hone
      | other => exact ⟨hone, rfl⟩
      | invalid => exact ⟨hone, rfl⟩

variable (plat k) in
theorem readPanes_agree (lines : List (List UInt8)) {r r' : StateReader} (h : r.Agree r') :
    (readPanes plat k lines r).1.Agree (readPanes plat k lines r').1 ∧
      (readPanes plat k lines r).2 = (readPanes plat k lines r').2 := by
  induction lines generalizing r r' with
  | nil => exact ⟨h, rfl⟩
  | cons line lines ih =>
      obtain ⟨hone, hexit⟩ := readKeyvals_agree plat k (Istream.linesOf 9 line) h
      rw [readPanes, readPanes]
      generalize readKeyvals plat k (Istream.linesOf 9 line) r = x at hone hexit ⊢
      generalize readKeyvals plat k (Istream.linesOf 9 line) r' = y at hone hexit ⊢
      obtain ⟨r₁, e⟩ := x
      obtain ⟨r₁', e'⟩ := y
      dsimp only at hone hexit
      subst hexit
      cases e with
      | true => exact ih hone
      | false => exact ⟨hone, rfl⟩

variable (plat k) in
/-- The verdict on a state does not depend on the terminal. -/
theorem readTermState_verdict (response : List UInt8) (fields fields' : TermFields) :
    (readTermState plat k response fields).2 = (readTermState plat k response fields').2 := by
  have hstart : StateReader.Agree ⟨[], plat.anyInt, false, fields⟩
      ⟨[], plat.anyInt, false, fields'⟩ := rfl
  have hagree := readPanes_agree plat k (Istream.linesOf 10 response) hstart
  simp only [readTermState, hagree.2, congrArg StateReader.found hagree.1]

/-- The history of a pane is fed to it, but not as output. -/
theorem dumpHistory_effect (alt : Bool) (response : List UInt8) :
    let c' := respHdlrDumpHistory alt p response c
    Undisturbed c c' ∧ c'.pane = c.pane ∧ fedOutput t c'.fed = fedOutput t c.fed := by
  simp only [respHdlrDumpHistory]
  split_ifs
  · refine ⟨⟨?_, ?_, ?_, ?_⟩, ?_, ?_⟩ <;>
      simp [Client.fromBackend, Client.updateTerm, fedOutput]
  · refine ⟨⟨?_, ?_, ?_, ?_⟩, ?_, ?_⟩ <;>
      simp [Client.fromBackend, fedOutput]
  · exact ⟨⟨by simp, by simp, by simp, by simp⟩, by simp, by simp⟩

variable (plat) in
/-- The state of a pane makes it ready if it is accepted. -/
theorem dumpTermState_effect (body : List (List UInt8)) (hid : (c.pane p).id = k) :
    let c' := respHdlrDumpTermState plat p body.flatten c
    Undisturbed c c' ∧ (c'.pane p).ready = ((c.pane p).ready || stateAccepted plat k body) ∧
      c'.fed = c.fed := by
  have hverdict := readTermState_verdict plat (c.pane p).id body.flatten
    (c.term (c.pane p).termWnd) plat.termInit
  simp only [respHdlrDumpTermState, pane_useTerminal, term_useTerminal, hverdict]
  rw [stateAccepted, ← hid]
  split_ifs with hok
  · have hother : ∀ q, (Function.update c.pane p { c.pane p with ready := true } q).termWnd =
        (c.pane q).termWnd ∧
        (Function.update c.pane p { c.pane p with ready := true } q).id = (c.pane q).id := by
      intro q
      by_cases hq : q = p
      · subst hq
        simp
      · simp [Function.update_of_ne hq]
    exact ⟨⟨by simp, fun q => (hother q).1, fun q => (hother q).2, by simp⟩, by simp [hok],
      by simp⟩
  · exact ⟨⟨by simp, by simp, by simp, by simp⟩, by simp [hok], by simp⟩

variable (plat t) in
/-- **A reply for a pane**: it may become ready, and gets no output. -/
theorem callback_effect (callback : TmuxCbIndex) (body : List (List UInt8))
    (hcb : callback = .dumpHistory ∨ callback = .dumpHistoryAlt ∨ callback = .dumpTermState)
    (hid : (c.pane p).id = k) :
    let c' := paneCallback plat p callback body.flatten c
    Undisturbed c c' ∧
      (c'.pane p).ready = ((c.pane p).ready ||
        (callback = .dumpTermState && stateAccepted plat k body)) ∧
      fedOutput t c'.fed = fedOutput t c.fed := by
  have hsame : Undisturbed c (c.usePane p) := ⟨by simp, by simp, by simp, by simp⟩
  simp only [paneCallback]
  rcases hcb with rfl | rfl | rfl
  · obtain ⟨h, hpane, hfed⟩ := dumpHistory_effect (c := c.usePane p) (p := p) (t := t)
      false body.flatten
    exact ⟨hsame.trans h, by simp [hpane], by simpa using hfed⟩
  · obtain ⟨h, hpane, hfed⟩ := dumpHistory_effect (c := c.usePane p) (p := p) (t := t)
      true body.flatten
    exact ⟨hsame.trans h, by simp [hpane], by simpa using hfed⟩
  · obtain ⟨h, hready, hfed⟩ := dumpTermState_effect plat (c := c.usePane p) (p := p)
      body ((hsame.id p).trans hid)
    exact ⟨hsame.trans h, by simp [hready], by simp [hfed]⟩

end Effects

section Runs

variable {plat : Platform} {k : Int} {s : Session} {p t n : Nat} {ready : Bool}
  {rest : List (TmuxCmdResp Receiver)}

theorem Session.run_append (xs ys : List SessionEvent) :
    s.run plat (xs ++ ys) = (s.run plat xs).bind (fun s => s.run plat ys) := by
  induction xs generalizing s with
  | nil => rfl
  | cons x xs ih =>
      rw [List.cons_append, Session.run, Session.run]
      cases s.step plat x with
      | none => rfl
      | some s' => exact ih

theorem Session.step_line (hreading : s.phase = .reading) (hrunning : s.client.stopped = false)
    (bytes following : List UInt8) :
    s.step plat (.line bytes following) = s.parseLine plat bytes following := by
  simp [Session.step, hreading, hrunning]

theorem notificationOf_outputLine (payload : List UInt8) :
    notificationOf (outputLine k payload) = some .output := rfl

theorem dispatch_output (g : TmuxGateway UInt8 Receiver Client) (line : List UInt8) :
    g.dispatch (clientHandlers plat) .output line =
      { g with state := cmdHdlrOutput line g.state
               trace := g.trace ++ [.dispatched .output line] } := rfl

variable (plat k) in
/-- An output line outside replies. -/
theorem parseCommand_output (g : TmuxGateway UInt8 Receiver Client) (payload : List UInt8)
    (hidle : g.currentCommand.receiver = none) :
    TmuxGateway.parseCommand (clientHandlers plat) (outputLine k payload) g =
      .ok 0 { g with
        state := cmdHdlrOutput (outputLine k payload) g.state
        trace := g.trace ++ [.line (outputLine k payload)] ++
          [.dispatched .output (outputLine k payload)] } := by
  have hend : startsWith percentEnd (outputLine k payload) = false := rfl
  have hbegin : startsWith percentBegin (outputLine k payload) = false := rfl
  simp only [TmuxGateway.parseCommand, TmuxGateway.record, hend, hbegin,
    notificationOf_outputLine, hidle, Bool.false_eq_true, if_false, dispatch_output]

variable (plat) in
/-- **One line of output.** -/
theorem Waiting.output (h : Waiting s k p t n ready rest) (payload following : List UInt8) :
    ∃ s', s.run plat ((PaneEvent.output payload following).events k) = some s' ∧
      Waiting s' k p t n ready rest ∧
      fedOutput t s'.client.fed = fedOutput t s.client.fed ++
        (if ready then payloadData payload following else []) := by
  obtain ⟨hsame, hready, hfed⟩ := output_effect (c := { s.client with following := following })
    payload h.number h.mapped
  have hterm : (s.client.pane p).termWnd = t := h.terminal
  have hold : (s.client.pane p).ready = ready := h.ready
  dsimp only at hfed hready
  rw [hterm, hold] at hfed
  have hparse := parseCommand_output plat k
    { s.gateway with state := { s.client with following := following } } payload h.idle
  generalize cmdHdlrOutput (outputLine k payload) { s.client with following := following } = c'
    at hsame hready hfed hparse
  refine ⟨⟨{ s.gateway with
    state := c'
    trace := s.gateway.trace ++ [.line (outputLine k payload)] ++
      [.dispatched .output (outputLine k payload)] }, .reading⟩, ?_, ?_, hfed⟩
  · rw [PaneEvent.events, Session.run, Session.step_line h.reading h.running, Session.parseLine,
      hparse]
    rfl
  · exact ⟨rfl, hsame.stopped.trans h.running, h.idle, h.queue, h.number,
      (congrArg (OrderedMap.find · k) hsame.mapPanes).trans h.mapped, (hsame.id p).trans h.id,
      (hsame.termWnd p).trans hterm, hready.trans hold⟩

/-- The session is inside the reply to a command of a pane, with the client `c`. -/
structure Collecting (s : Session) (c : Client) (p : Nat) (callback : TmuxCbIndex)
    (response : List UInt8) (queue : List (TmuxCmdResp Receiver)) : Prop where
  reading : s.phase = .reading
  running : c.stopped = false
  current : s.gateway.currentCommand = ⟨some (.pane p), callback⟩
  collected : s.gateway.currentCommandResponse = response
  queue : s.gateway.commandQueue = queue
  client : s.client = c

variable {c : Client} {callback : TmuxCbIndex} {response guard following : List UInt8}
  {queue : List (TmuxCmdResp Receiver)}

variable (plat guard following) in
/-- The first line of a reply. -/
theorem step_begin (hreading : s.phase = .reading) (hrunning : s.client.stopped = false)
    (hidle : s.gateway.currentCommand.receiver = none)
    (hqueue : s.gateway.commandQueue = ⟨some (.pane p), callback⟩ :: queue) :
    ∃ s', s.step plat (.line (percentBegin ++ guard) following) = some s' ∧
      Collecting s' { s.client with following := following } p callback [] queue := by
  have hend : startsWith percentEnd (percentBegin ++ guard) = false := rfl
  have hbegin : startsWith percentBegin (percentBegin ++ guard) = true := by
    simp [startsWith, percentBegin, ascii, octet]
  rw [Session.step_line hreading hrunning, Session.parseLine]
  simp only [TmuxGateway.parseCommand, TmuxGateway.record, hend, hbegin, hidle, hqueue,
    Bool.false_eq_true, if_false, if_true]
  exact ⟨_, rfl, rfl, hrunning, rfl, rfl, rfl, rfl⟩

variable (plat) in
/-- The lines of its body. -/
theorem Collecting.body (body : List (List UInt8)) (h : Collecting s c p callback response queue)
    (hf : c.following = following)
    (hbody : ∀ line ∈ body, startsWith percentEnd line = false) :
    ∃ s', s.run plat (body.map (fun line => .line line following)) = some s' ∧
      Collecting s' c p callback (response ++ body.flatten) queue := by
  induction body generalizing s response with
  | nil => exact ⟨s, rfl, by simpa using h⟩
  | cons line body ih =>
      rw [List.forall_mem_cons] at hbody
      have hrunning : s.client.stopped = false := h.client ▸ h.running
      have hsame : { s.client with following := following } = c := by
        rw [h.client, ← hf]
      have hstep : ∃ s₁, s.step plat (.line line following) = some s₁ ∧
          Collecting s₁ c p callback (response ++ line) queue := by
        rw [Session.step_line h.reading hrunning, Session.parseLine, hsame]
        simp only [TmuxGateway.parseCommand, TmuxGateway.record, hbody.1, h.current,
          Bool.false_eq_true, if_false]
        refine ⟨_, rfl, rfl, h.running, rfl, ?_, h.queue, rfl⟩
        rw [← h.collected]
      obtain ⟨s₁, hs₁, hcol⟩ := hstep
      obtain ⟨s', hs', hcol'⟩ := ih hcol hbody.2
      refine ⟨s', ?_, ?_⟩
      · rw [List.map_cons, Session.run, hs₁]
        exact hs'
      · rw [List.flatten_cons, ← List.append_assoc]
        exact hcol'

variable (plat guard) in
/-- The last line of a reply. -/
theorem Collecting.finish (h : Collecting s c p callback response queue)
    (hf : c.following = following) :
    ∃ s', s.step plat (.line (percentEnd ++ guard) following) = some s' ∧
      s'.phase = .reading ∧ s'.gateway.currentCommand.receiver = none ∧
      s'.gateway.commandQueue = queue ∧
      s'.client = paneCallback plat p callback response c := by
  have hend : startsWith percentEnd (percentEnd ++ guard) = true := by
    simp [startsWith, percentEnd, ascii, octet]
  have hrunning : s.client.stopped = false := h.client ▸ h.running
  have hsame : { s.client with following := following } = c := by
    rw [h.client, ← hf]
  rw [Session.step_line h.reading hrunning, Session.parseLine, hsame]
  simp only [TmuxGateway.parseCommand, TmuxGateway.record, hend, h.current, if_true,
    TmuxGateway.finishCommand, h.collected]
  exact ⟨_, rfl, rfl, rfl, h.queue, rfl⟩

/-- The commands of a pane in their order. -/
theorem paneCommands_drop (p : Nat) {n : Nat} (hn : n < 3) :
    ∃ callback, (paneCommands p).drop n =
        ⟨some (.pane p), callback⟩ :: (paneCommands p).drop (n + 1) ∧
      (callback = .dumpHistory ∨ callback = .dumpHistoryAlt ∨ callback = .dumpTermState) ∧
      (callback = .dumpTermState ↔ n = 2) := by
  have hcases : n = 0 ∨ n = 1 ∨ n = 2 := by omega
  rcases hcases with rfl | rfl | rfl
  · exact ⟨.dumpHistory, rfl, by simp, by simp⟩
  · exact ⟨.dumpHistoryAlt, rfl, by simp, by simp⟩
  · exact ⟨.dumpTermState, rfl, by simp, by simp⟩

variable (plat) in
/-- **One reply.** -/
theorem Waiting.reply (h : Waiting s k p t n ready rest) (hn : n < 3)
    (guard following : List UInt8) {body : List (List UInt8)}
    (hbody : ∀ line ∈ body, startsWith percentEnd line = false) :
    ∃ s', s.run plat ((PaneEvent.reply guard body following).events k) = some s' ∧
      Waiting s' k p t (n + 1) (ready || (n = 2 && stateAccepted plat k body)) rest ∧
      fedOutput t s'.client.fed = fedOutput t s.client.fed := by
  obtain ⟨callback, hdrop, hcb, hlast⟩ := paneCommands_drop p hn
  obtain ⟨s₁, hs₁, hcol₁⟩ := step_begin plat guard following
    h.reading h.running h.idle (h.queue.trans (congrArg (· ++ rest) hdrop))
  obtain ⟨s₂, hs₂, hcol₂⟩ := hcol₁.body plat body rfl hbody
  obtain ⟨s', hs', hreading, hidle, hqueue, hclient⟩ := hcol₂.finish plat guard rfl
  obtain ⟨hsame, hready, hfed⟩ := callback_effect plat t
    (c := { s.client with following := following }) callback body hcb h.id
  rw [List.nil_append] at hclient
  rw [← hclient] at hsame hready hfed
  refine ⟨s', ?_, ?_, hfed⟩
  · rw [PaneEvent.events, Session.run, hs₁]
    change s₁.run plat _ = _
    rw [Session.run_append, hs₂]
    change s₂.run plat _ = _
    rw [Session.run, hs']
    rfl
  · refine ⟨hreading, hsame.stopped.trans h.running, hidle, hqueue, h.number,
      (congrArg (OrderedMap.find · k) hsame.mapPanes).trans h.mapped, (hsame.id p).trans h.id,
      (hsame.termWnd p).trans h.terminal, ?_⟩
    have hold : (s.client.pane p).ready = ready := h.ready
    rw [hready]
    simp only [hold, hlast]

end Runs

end Tmux
end Qutty
