import Qutty.Lib.Tokens
import Qutty.Tmux.OutputDecoding
import Qutty.Tmux.WindowRecords
import Qutty.Tmux.Conservation

/-!
# What a handler reads

`parseCommand` on a line that is followed by other bytes in memory.  The notification
handlers get the length of the line, but most of them read it as a C string.

`OwnLine` says of a line what it must contain so that its handler finds everything in it:
`readsOwnLine_iff` shows that two runs with different bytes behind the line have the same
effect exactly then.  Ghost fields aside (`visible`), the effect is the whole state of the
gateway with its commands.
-/

namespace Qutty
namespace Tmux

open Lib Lib.Istream TmuxLayout

namespace Client

/-- The client with other bytes behind the line. -/
def withFollowing (f : List UInt8) (c : Client) : Client := { c with following := f }

/-- The client without the bytes behind the line and the ghost record of misuses. -/
def visible (c : Client) : Client := { c with following := [], misuses := [] }

end Client

section Callbacks

/-- A handler that does not look at the bytes behind the line. -/
def Blind (h : Client → Handled) : Prop :=
  ∀ f c, h (c.withFollowing f) = ((h c).1.withFollowing f, (h c).2)

variable (plat : Platform) (id : Int) (name : List UInt8)

theorem usePane_withFollowing (f : List UInt8) (c : Client) (p : Nat) :
    (c.withFollowing f).usePane p = (c.usePane p).withFollowing f := by
  rw [Client.usePane, Client.usePane]
  split_ifs with h h' h'
  · rfl
  · exact absurd h h'
  · exact absurd h' h
  · rfl

theorem useTerminal_withFollowing (f : List UInt8) (c : Client) (t : Nat) :
    (c.withFollowing f).useTerminal t = (c.useTerminal t).withFollowing f := by
  rw [Client.useTerminal, Client.useTerminal]
  split_ifs with h h' h'
  · rfl
  · exact absurd h h'
  · exact absurd h' h
  · rfl

theorem updateTerm_withFollowing (f : List UInt8) (c : Client) (t : Nat)
    (g : TermFields → TermFields) :
    (c.withFollowing f).updateTerm t g = (c.updateTerm t g).withFollowing f := by
  rw [Client.updateTerm, useTerminal_withFollowing]
  rfl

theorem fromBackend_withFollowing (f : List UInt8) (c : Client) (t : Nat) (source : FeedSource)
    (bytes : List UInt8) : (c.withFollowing f).fromBackend t source bytes =
      (c.fromBackend t source bytes).withFollowing f := by
  rw [Client.fromBackend, useTerminal_withFollowing]
  rfl

theorem blind_createLeaf (l : TmuxLayout) (splitter : Option Nat) :
    Blind (createLeaf plat id name l splitter) := by
  intro f c
  rw [createLeaf, createLeaf]
  have hfind : (c.withFollowing f).mapPanes = c.mapPanes := rfl
  rw [hfind]
  cases c.mapPanes.find (toInt l.paneid) with
  | none => rfl
  | some p =>
      dsimp only
      rw [usePane_withFollowing, updateTerm_withFollowing]
      rfl

mutual

theorem blind_createNewWindowPane (l : TmuxLayout) (splitter : Option Nat) :
    Blind (createNewWindowPane plat id name l splitter) := by
  obtain ⟨width, height, x, y, paneid, layoutType, child⟩ := l
  intro f c
  cases layoutType with
  | none =>
      rw [createNewWindowPane, createNewWindowPane]
      rfl
  | leaf =>
      rw [createNewWindowPane, createNewWindowPane]
      exact blind_createLeaf plat id name _ splitter f c
  | horizontal =>
      rw [createNewWindowPane, createNewWindowPane]
      exact blind_createChildren child c.main.nextSplitter f (addSplitter .horizontal splitter c)
  | vertical =>
      rw [createNewWindowPane, createNewWindowPane]
      exact blind_createChildren child c.main.nextSplitter f (addSplitter .vertical splitter c)

theorem blind_createChildren (ls : List TmuxLayout) (s : Nat) :
    Blind (createChildren plat id name ls s) := by
  intro f c
  cases ls with
  | nil =>
      rw [createChildren, createChildren]
  | cons l ls =>
      have hl := blind_createNewWindowPane l (some s) f c
      rw [createChildren, createChildren, hl]
      generalize createNewWindowPane plat id name l (some s) c = out
      obtain ⟨c₁, cs⟩ := out
      have hls := blind_createChildren ls s f c₁
      have hstopped : (c₁.withFollowing f).stopped = c₁.stopped := rfl
      dsimp only
      rw [hstopped, hls]
      split_ifs <;> rfl

end

theorem blind_createNewWindow (layout : List UInt8) :
    Blind (createNewWindow plat id name layout) := by
  intro f c
  have hmap : (c.withFollowing f).mapLayout = c.mapLayout := rfl
  rw [createNewWindow, createNewWindow, hmap]
  split_ifs with hlen
  · rfl
  · dsimp only
    generalize ((c.mapLayout.find id).getD .init).initLayout (layout.drop 5) = out
    obtain ⟨ok, l⟩ := out
    dsimp only
    cases ok with
    | false => rfl
    | true =>
        exact blind_createNewWindowPane plat id name l none f
          { c with mapLayout := c.mapLayout.insert id l }

theorem blind_makeCalls (calls : List WindowCall) : Blind (makeCalls plat calls) := by
  induction calls with
  | nil => exact fun f c => rfl
  | cons call calls ih =>
      intro f c
      have hone := blind_createNewWindow plat call.id call.name call.layout f c
      rw [makeCalls, makeCalls, hone]
      generalize createNewWindow plat call.id call.name call.layout c = out
      obtain ⟨c₁, cs⟩ := out
      have hmore := ih f c₁
      have hstopped : (c₁.withFollowing f).stopped = c₁.stopped := rfl
      dsimp only
      rw [hstopped, hmore]
      split_ifs <;> rfl

theorem blind_gatewayCallback (callback : TmuxCbIndex) (response : List UInt8) :
    Blind (gatewayCallback plat callback response) := by
  cases callback with
  | listWindows =>
      intro f c
      rw [gatewayCallback, gatewayCallback, respHdlrListWindows, respHdlrListWindows,
        respWindows_eq, respWindows_eq]
      exact blind_makeCalls plat _ f c
  | openListedWindows =>
      intro f c
      rw [gatewayCallback, gatewayCallback, respHdlrOpenListedWindows, respHdlrOpenListedWindows,
        respWindows_eq, respWindows_eq]
      exact blind_makeCalls plat _ f c
  | null => exact fun f c => rfl
  | dumpTermState => exact fun f c => rfl
  | dumpHistory => exact fun f c => rfl
  | dumpHistoryAlt => exact fun f c => rfl
  | indexMax => exact fun f c => rfl

theorem respHdlrDumpTermState_withFollowing (p : Nat) (response f : List UInt8) (c : Client) :
    respHdlrDumpTermState plat p response (c.withFollowing f) =
      (respHdlrDumpTermState plat p response c).withFollowing f := by
  have hpane : (c.withFollowing f).pane = c.pane := rfl
  rw [respHdlrDumpTermState, respHdlrDumpTermState, hpane]
  dsimp only
  rw [useTerminal_withFollowing]
  have hout : readTermState plat (((c.useTerminal (c.pane p).termWnd).withFollowing f).pane p).id
      response (((c.useTerminal (c.pane p).termWnd).withFollowing f).term (c.pane p).termWnd) =
      readTermState plat ((c.useTerminal (c.pane p).termWnd).pane p).id response
        ((c.useTerminal (c.pane p).termWnd).term (c.pane p).termWnd) := rfl
  rw [hout]
  split_ifs <;> rfl

theorem respHdlrDumpHistory_withFollowing (alt : Bool) (p : Nat) (response f : List UInt8)
    (c : Client) : respHdlrDumpHistory alt p response (c.withFollowing f) =
      (respHdlrDumpHistory alt p response c).withFollowing f := by
  have hpane : (c.withFollowing f).pane = c.pane := rfl
  rw [respHdlrDumpHistory, respHdlrDumpHistory, hpane]
  dsimp only
  rw [useTerminal_withFollowing]
  split_ifs
  · rw [updateTerm_withFollowing, fromBackend_withFollowing]
  · rw [fromBackend_withFollowing]
  · rfl

theorem paneCallback_withFollowing (p : Nat) (callback : TmuxCbIndex)
    (response f : List UInt8) (c : Client) :
    paneCallback plat p callback response (c.withFollowing f) =
      (paneCallback plat p callback response c).withFollowing f := by
  have huse := usePane_withFollowing f c p
  cases callback with
  | dumpTermState =>
      simp only [paneCallback, huse]
      exact respHdlrDumpTermState_withFollowing plat p response f _
  | dumpHistory =>
      simp only [paneCallback, huse]
      exact respHdlrDumpHistory_withFollowing false p response f _
  | dumpHistoryAlt =>
      simp only [paneCallback, huse]
      exact respHdlrDumpHistory_withFollowing true p response f _
  | null => exact huse
  | listWindows => exact huse
  | openListedWindows => exact huse
  | indexMax => exact huse

theorem blind_performCallback (receiver : Receiver) (callback : TmuxCbIndex)
    (response : List UInt8) : Blind (performCallback plat receiver callback response) := by
  cases receiver with
  | gateway => exact blind_gatewayCallback plat callback response
  | pane p =>
      intro f c
      rw [performCallback, performCallback, paneCallback_withFollowing]

end Callbacks

section Gateway

variable (plat : Platform)

/-- The gateway with other bytes behind the line. -/
def TmuxGateway.withFollowing (f : List UInt8) (g : TmuxGateway UInt8 Receiver Client) :
    TmuxGateway UInt8 Receiver Client :=
  { g with state := g.state.withFollowing f }

/-- What a call leaves behind, ghost fields of the client aside. -/
def visibleResult :
    EStateM.Result Fault (TmuxGateway UInt8 Receiver Client) Int →
      EStateM.Result Fault (TmuxGateway UInt8 Receiver Client) Int
  | .ok v g => .ok v { g with state := g.state.visible }
  | .error e g => .error e { g with state := g.state.visible }

/-- The effect of a line does not depend on the bytes behind it. -/
def ReadsOwnLine (line : List UInt8) (g : TmuxGateway UInt8 Receiver Client) : Prop :=
  ∀ f f', visibleResult (TmuxGateway.parseCommand (clientHandlers plat) line (g.withFollowing f)) =
    visibleResult (TmuxGateway.parseCommand (clientHandlers plat) line (g.withFollowing f'))

/-- The effect of a notification handler does not depend on the bytes behind the line. -/
def NotifiesOwnLine (n : Notification) (line : List UInt8) (c : Client) : Prop :=
  ∀ f f', (notify plat n line (c.withFollowing f)).1.visible =
      (notify plat n line (c.withFollowing f')).1.visible ∧
    (notify plat n line (c.withFollowing f)).2 = (notify plat n line (c.withFollowing f')).2

/-- A line goes to a notification handler. -/
structure Dispatched (line : List UInt8) (g : TmuxGateway UInt8 Receiver Client)
    (n : Notification) : Prop where
  notEnd : startsWith percentEnd line = false
  idle : g.currentCommand.receiver = none
  notBegin : startsWith percentBegin line = false
  kind : notificationOf line = some n

/-- The effect of a dispatch, with the commands that the handler sends. -/
theorem dispatch_visible_iff (n : Notification) (line : List UInt8) (f f' : List UInt8)
    (g : TmuxGateway UInt8 Receiver Client) (v : Int) :
    visibleResult (.ok v ((g.withFollowing f).dispatch (clientHandlers plat) n line)) =
        visibleResult (.ok v ((g.withFollowing f').dispatch (clientHandlers plat) n line)) ↔
      (notify plat n line (g.state.withFollowing f)).1.visible =
          (notify plat n line (g.state.withFollowing f')).1.visible ∧
        (notify plat n line (g.state.withFollowing f)).2 =
          (notify plat n line (g.state.withFollowing f')).2 := by
  have hnotify : (clientHandlers plat).notify = notify plat := rfl
  simp only [TmuxGateway.dispatch, TmuxGateway.sendCommands_eq, TmuxGateway.record,
    TmuxGateway.withFollowing, visibleResult, hnotify]
  generalize notify plat n line (g.state.withFollowing f) = out
  generalize notify plat n line (g.state.withFollowing f') = out'
  obtain ⟨c, cs⟩ := out
  obtain ⟨c', cs'⟩ := out'
  dsimp only
  constructor
  · intro h
    rw [EStateM.Result.ok.injEq, TmuxGateway.mk.injEq] at h
    obtain ⟨-, -, -, -, hstate, htrace⟩ := h
    rw [List.append_cancel_left_eq] at htrace
    refine ⟨hstate, List.map_injective_iff.mpr (fun a b hab => ?_) htrace⟩
    cases hab
    rfl
  · rintro ⟨hc, rfl⟩
    rw [hc]

/-- A dispatched line. -/
theorem parseCommand_dispatched {line : List UInt8} {g : TmuxGateway UInt8 Receiver Client}
    {n : Notification} (h : Dispatched line g n) (f : List UInt8) :
    TmuxGateway.parseCommand (clientHandlers plat) line (g.withFollowing f) =
      .ok (if n = .exit then -1 else 0)
        (((g.record (.line line)).withFollowing f).dispatch (clientHandlers plat) n line) := by
  have hidle : ((g.withFollowing f).record (.line line)).currentCommand.receiver = none := h.idle
  rw [TmuxGateway.parseCommand]
  simp only [h.notEnd, Bool.false_eq_true, if_false, hidle, h.notBegin, h.kind]
  cases n <;> rfl

/-- A line that is not dispatched is not read by the handlers of notifications. -/
theorem parseCommand_not_dispatched {line : List UInt8} {g : TmuxGateway UInt8 Receiver Client}
    (h : ∀ n, ¬ Dispatched line g n) (f : List UInt8) :
    visibleResult (TmuxGateway.parseCommand (clientHandlers plat) line (g.withFollowing f)) =
      visibleResult (TmuxGateway.parseCommand (clientHandlers plat) line g) := by
  have hcurrent : ((g.withFollowing f).record (.line line)).currentCommand =
      (g.record (.line line)).currentCommand := rfl
  have hqueue : ((g.withFollowing f).record (.line line)).commandQueue =
      (g.record (.line line)).commandQueue := rfl
  rw [TmuxGateway.parseCommand, TmuxGateway.parseCommand]
  rw [hcurrent, hqueue]
  cases hend : startsWith percentEnd line with
  | true =>
      cases hreceiver : (g.record (.line line)).currentCommand.receiver with
      | none => rfl
      | some receiver =>
          have hblind := blind_performCallback plat receiver g.currentCommand.callback
            g.currentCommandResponse f g.state
          have hcallback : (clientHandlers plat).performCallback = performCallback plat := rfl
          have hstate : (g.withFollowing f).state = g.state.withFollowing f := rfl
          simp only [if_true, TmuxGateway.finishCommand, TmuxGateway.sendCommands_eq,
            TmuxGateway.record, hcallback, hstate, visibleResult]
          rw [show (g.withFollowing f).currentCommand = g.currentCommand from rfl,
            show (g.withFollowing f).currentCommandResponse = g.currentCommandResponse from rfl,
            hblind]
          rfl
  | false =>
      cases hreceiver : (g.record (.line line)).currentCommand.receiver with
      | some receiver => rfl
      | none =>
          cases hbegin : startsWith percentBegin line with
          | true =>
              cases (g.record (.line line)).commandQueue with
              | nil => rfl
              | cons c queue => rfl
          | false =>
              cases hkind : notificationOf line with
              | none => rfl
              | some n => exact absurd ⟨hend, hreceiver, hbegin, hkind⟩ (h n)

/-- **A line is read on its own exactly if its handler reads it so.** -/
theorem readsOwnLine_iff_notifies (line : List UInt8) (g : TmuxGateway UInt8 Receiver Client) :
    ReadsOwnLine plat line g ↔
      ∀ n, Dispatched line g n → NotifiesOwnLine plat n line g.state := by
  by_cases hdispatched : ∃ n, Dispatched line g n
  · obtain ⟨n, hn⟩ := hdispatched
    have hiff : ReadsOwnLine plat line g ↔ NotifiesOwnLine plat n line g.state := by
      refine forall_congr' (fun f => forall_congr' (fun f' => ?_))
      rw [parseCommand_dispatched plat hn, parseCommand_dispatched plat hn]
      exact dispatch_visible_iff plat n line f f' (g.record (.line line)) _
    rw [hiff]
    constructor
    · intro h n' hn'
      have hkind := hn.kind.symm.trans hn'.kind
      cases hkind
      exact h
    · exact fun h => h n hn
  · have hnone : ∀ n, ¬ Dispatched line g n := fun n hn => hdispatched ⟨n, hn⟩
    refine iff_of_true (fun f f' => ?_) (fun n hn => absurd hn (hnone n))
    rw [parseCommand_not_dispatched plat hnone, parseCommand_not_dispatched plat hnone]

end Gateway

section Tails

/-- What an `int` can hold. -/
def IsInt (v : Int) : Prop := -2 ^ 31 ≤ v ∧ v < 2 ^ 31

variable {line t l : List UInt8}

/-- A C string ends at its first NUL, or goes on. -/
theorem cString_append_eq (f : List UInt8) :
    cString (t ++ f) = if 0 ∈ t then cString t else t ++ cString f := by
  split_ifs with h
  · rw [cString, List.takeWhile_append, if_neg, cString]
    intro hlen
    have hself := (List.takeWhile_prefix (fun c => decide (c ≠ (0 : UInt8)))).eq_of_length hlen
    exact absurd rfl (of_decide_eq_true (List.takeWhile_eq_self_iff.mp hself 0 h))
  · refine cString_append f (fun b hb => ?_)
    rintro rfl
    exact h hb

/-- The text of a line from a position on, with what is behind the line. -/
theorem commandText_withFollowing {k : Nat} (hk : k ≤ line.length) (f : List UInt8) (c : Client) :
    commandText line k (c.withFollowing f) =
      if 0 ∈ line.drop k then cString (line.drop k) else line.drop k ++ cString f := by
  have hdrop : (line ++ f).drop k = line.drop k ++ f := List.drop_append_of_le_length hk
  rw [← cString_append_eq, ← hdrop]
  rfl

/-- Either nothing is left of a line, or its end is. -/
theorem drop_line (hline : line = l ++ [10]) (k : Nat) :
    line.drop k = [] ∨ ∃ l', line.drop k = l' ++ [10] := by
  subst hline
  by_cases hk : k ≤ l.length
  · exact .inr ⟨l.drop k, List.drop_append_of_le_length hk⟩
  · exact .inl (List.drop_eq_nil_of_le (by simp; omega))

theorem isBlank_newline : isBlank 10 = true := rfl

/-- What a number and a word are if the text goes on behind a line. -/
inductive NumberWordCase (old : Int) (t : List UInt8) : Prop
  | blank (hblank : Blank t) (h : ∀ g, numberWord old (t ++ g) = numberWord old g)
  | fixed (hblank : ¬ Blank t) (hword : ∀ v rest, intAt t = some (v, rest) → ¬ Blank rest)
      (v : Int) (w : List UInt8) (h : ∀ g, numberWord old (t ++ g) = (v, w))
  | behind (hblank : ¬ Blank t) (v : Int) (rest : List UInt8) (hint : intAt t = some (v, rest))
      (hword : Blank rest)
      (h : ∀ g, numberWord old (t ++ g) = (v, ((ofString g).readWordInto []).1))

theorem numberWordCase (old : Int) (ht : t = [] ∨ ∃ l', t = l' ++ [10]) :
    NumberWordCase old t := by
  by_cases hblank : Blank t
  · exact .blank hblank (fun g => numberWord_blank hblank)
  · rcases ht with rfl | ⟨l', rfl⟩
    · exact absurd blank_nil hblank
    · have hl : ¬ Blank l' := fun h => hblank (h.append (blank_singleton isBlank_newline))
      have htoken : tokenAt .int (l' ++ [10]) =
          (tokenAt .int l').map (fun r => (r.1, r.2 ++ [10])) := tokenAt_before hl isBlank_newline
      cases hint : intAt l' with
      | none =>
          have hnone : tokenAt .int (l' ++ [10]) = none := by
            rw [htoken, tokenAt, hint]
            rfl
          refine .fixed hblank (fun v rest h => ?_) ((ofString l').readIntInto old).1 []
            (fun g => ?_)
          · rw [tokenAt_int.mpr h] at hnone
            cases hnone
          · rw [List.append_assoc, List.singleton_append]
            exact numberWord_none hl isBlank_newline hint
      | some r =>
          obtain ⟨v, rest⟩ := r
          have hsome : intAt (l' ++ [10]) = some (v, rest ++ [10]) := by
            refine tokenAt_int.mp ?_
            rw [htoken, tokenAt, hint]
            rfl
          have hout : ∀ g, numberWord old (l' ++ [10] ++ g) =
              (v, if Blank rest then ((ofString g).readWordInto []).1
                else ((ofString rest).readWordInto []).1) := by
            intro g
            rw [List.append_assoc, List.singleton_append]
            exact numberWord_some isBlank_newline hint
          by_cases hrest : Blank rest
          · simp only [if_pos hrest] at hout
            exact .behind hblank v (rest ++ [10]) hsome
              (hrest.append (blank_singleton isBlank_newline)) hout
          · simp only [if_neg hrest] at hout
            refine .fixed hblank (fun v' rest' h => ?_) v _ hout
            rw [hsome] at h
            cases h
            exact fun hb => hrest (fun b hb' => hb b (List.mem_append_left _ hb'))

/-- A word without white space and NUL. -/
def IsWord (w : List UInt8) : Prop := w ≠ [] ∧ ∀ b ∈ w, isBlank b = false ∧ b ≠ 0

theorem readWordInto_isWord {w : List UInt8} (hw : IsWord w) (b : Bool) :
    (readWordInto [] ⟨w, false, b⟩).1 = if b then [] else w := by
  obtain ⟨c, cs, rfl⟩ := List.exists_cons_of_ne_nil hw.1
  cases b with
  | true => rfl
  | false =>
      have hdrop : (c :: cs).dropWhile isBlank = c :: cs :=
        List.dropWhile_cons_of_neg (by rw [(hw.2 c List.mem_cons_self).1]; simp)
      have htake : (c :: cs).takeWhile (fun b => !isBlank b) = c :: cs :=
        List.takeWhile_eq_self_iff.mpr (fun b hb => by rw [(hw.2 b hb).1]; rfl)
      simp [readWordInto, skip, good, hdrop, htake]

/-- Every number can stand behind a line, with a word. -/
theorem exists_number (old : Int) {v : Int} (hv : IsInt v) {w : List UInt8} (hw : IsWord w) :
    ∃ f, cString f = f ∧ numberWord old f = (v, w) := by
  refine ⟨numeralBytes v ++ 32 :: w, cString_eq_self (fun b hb => ?_), ?_⟩
  · rcases List.mem_append.mp hb with hb | hb
    · rintro rfl
      have hmem := List.mem_map_of_mem (f := UInt8.toNat) hb
      rw [toNat_numeralBytes] at hmem
      rcases mem_intNumeral hmem with h | h
      · exact absurd h (by decide)
      · exact absurd h.1 (by decide)
    · rcases List.mem_cons.mp hb with rfl | hb
      · decide
      · exact (hw.2 b hb).2
  · have hstop : ∀ c ∈ (32 :: w).head?, digitValue 10 c.toNat = none := by
      intro c hc
      cases hc
      rfl
    have hskip : Istream.skip ⟨32 :: w, false, false⟩ = Istream.skip ⟨w, false, false⟩ :=
      skip_blank (a := [32]) (blank_singleton rfl)
    have hword := readWordInto_isWord hw false
    rw [readWordInto] at hword
    rw [numberWord, readIntInto_intNumeral old (toNat_numeralBytes v) hv hstop]
    dsimp only [List.isEmpty_cons]
    rw [readWordInto, hskip]
    generalize Istream.skip ⟨w, false, false⟩ = o at hword
    cases o with
    | none => exact absurd hword.symm hw.1
    | some cs => exact congrArg (Prod.mk v) hword

/-- Every word can stand behind a line. -/
theorem exists_word {w : List UInt8} (hw : IsWord w) :
    ∃ f, cString f = f ∧ ((ofString f).readWordInto []).1 = w :=
  ⟨w, cString_eq_self (fun b hb => (hw.2 b hb).2), readWordInto_isWord hw false⟩

/-- **What depends on a number and a word of a line** is the same with everything behind the
line if a NUL ends the text, or if it does not use what it would find there. -/
theorem effect_numberWord_iff {β : Type} (effect : Int × List UInt8 → β) (old : Int)
    (hline : line = l ++ [10]) {k : Nat} (hk : k ≤ line.length) (c : Client) :
    (∀ f f', effect (numberWord old (commandText line k (c.withFollowing f))) =
        effect (numberWord old (commandText line k (c.withFollowing f')))) ↔
      0 ∈ line.drop k ∨
      (Blank (line.drop k) ∧ ∀ f f', effect (numberWord old (cString f)) =
        effect (numberWord old (cString f'))) ∨
      (¬ Blank (line.drop k) ∧ ∀ v rest, intAt (line.drop k) = some (v, rest) → Blank rest →
        ∀ f f', effect (v, ((ofString (cString f)).readWordInto []).1) =
          effect (v, ((ofString (cString f')).readWordInto []).1)) := by
  simp only [commandText_withFollowing hk]
  by_cases h0 : 0 ∈ line.drop k
  · simp [h0]
  · simp only [h0, if_false, false_or]
    cases numberWordCase old (drop_line hline k) with
    | blank hblank h => simp only [h, hblank, not_true, true_and, false_and, or_false]
    | fixed hblank hword v w h =>
        simp only [h, hblank, not_false_iff, false_and, true_and, false_or, implies_true, true_iff]
        intro v rest hint hrest
        exact absurd hrest (hword v rest hint)
    | behind hblank v rest hint hword h =>
        simp only [h, hblank, hint, not_false_iff, false_and, true_and, false_or,
          Option.some.injEq, Prod.mk.injEq, and_imp]
        constructor
        · rintro hown _ _ rfl rfl - f f'
          exact hown f f'
        · intro hown f f'
          exact hown v rest rfl rfl hword f f'

/-- A word of one letter. -/
theorem isWord_replicate (n : Nat) {a : UInt8} (ha : isBlank a = false) (ha0 : a ≠ 0) :
    IsWord (List.replicate (n + 1) a) := by
  refine ⟨by simp, fun b hb => ?_⟩
  rw [List.eq_of_mem_replicate hb]
  exact ⟨ha, ha0⟩

/-- What depends on a number of a line alone. -/
theorem effect_number_iff {β : Type} (effect : Int → β) {old : Int} (hold : IsInt old)
    (hline : line = l ++ [10]) {k : Nat} (hk : k ≤ line.length) (c : Client) :
    (∀ f f', effect (numberWord old (commandText line k (c.withFollowing f))).1 =
        effect (numberWord old (commandText line k (c.withFollowing f'))).1) ↔
      0 ∈ line.drop k ∨ ¬ Blank (line.drop k) ∨
      ∀ v v', IsInt v → IsInt v' → effect v = effect v' := by
  have hall : (∀ f f', effect (numberWord old (cString f)).1 =
      effect (numberWord old (cString f')).1) ↔ ∀ v v', IsInt v → IsInt v' → effect v = effect v' := by
    constructor
    · intro h v v' hv hv'
      have hword := isWord_replicate 0 (a := 120) rfl (by simp)
      obtain ⟨f, hf, hvalue⟩ := exists_number old hv hword
      obtain ⟨f', hf', hvalue'⟩ := exists_number old hv' hword
      have hsame := h f f'
      rwa [hf, hf', hvalue, hvalue'] at hsame
    · intro h f f'
      exact h _ _ (readIntInto_bounds (ofString _) hold) (readIntInto_bounds (ofString _) hold)
  rw [effect_numberWord_iff (fun r => effect r.1) old hline hk, hall]
  by_cases hblank : Blank (line.drop k) <;> simp [hblank]

end Tails

section Kinds

variable (plat : Platform) {line l : List UInt8} (c : Client)

/-- The bytes that a handler finds in its own line. -/
def OwnLine (line : List UInt8) (c : Client) : Notification → Prop
  | .sessionChanged => ¬ Blank (line.drop 18) ∧
      ∀ v rest, strtol (line.drop 18) = some (v, rest) → 0 ∈ rest.drop 1
  | .windowRenamed => 0 ∈ line.drop 17 ∨
      (Blank (line.drop 17) ∧ ∀ v, IsInt v → c.mapPanes.find v = none) ∨
      (¬ Blank (line.drop 17) ∧ ∀ v rest p, intAt (line.drop 17) = some (v, rest) →
        c.mapPanes.find v = some p → ¬ Blank rest)
  | .windowAdd => 0 ∈ line.drop 13 ∨ ¬ Blank (line.drop 13) ∨
      ∀ v, IsInt v → (c.mapPanes.find v).isSome
  | .windowClose => 0 ∈ line.drop 15 ∨ ¬ Blank (line.drop 15) ∨
      ∀ v, IsInt v → c.mapPanes.find v = none
  | .layoutChange => 0 ∈ line.drop 15 ∨ ∀ t, line.drop 15 = octetOf '@' :: t →
      ¬ Blank t ∧ ∀ v rest, intAt t = some (v, rest) → ¬ Blank rest
  | .output | .noop | .sessionsChanged | .exit => True

/-- What `cmd_hdlr_window_renamed` does with a number and a word. -/
def renameWindow (c : Client) (r : Int × List UInt8) : Client :=
  match c.mapPanes.find r.1 with
  | none => c
  | some p => (c.usePane p).setSessionTitle ((c.usePane p).pane p).termWnd (fromLatin1 r.2)

theorem cmdHdlrWindowRenamed_eq (line : List UInt8) (c : Client) :
    cmdHdlrWindowRenamed plat line c =
      renameWindow c (numberWord plat.anyInt (commandText line 17 c)) :=
  rfl

def addWindow (c : Client) (v : Int) : Handled :=
  match c.mapPanes.find v with
  | some _ => (c, [])
  | none => (c, [⟨.gateway, .openListedWindows, cmdDisplayPane v⟩])

theorem cmdHdlrWindowAdd_eq (line : List UInt8) (c : Client) :
    cmdHdlrWindowAdd plat line c =
      addWindow c (numberWord plat.anyInt (commandText line 13 c)).1 :=
  rfl

def closeWindow (c : Client) (v : Int) : Client :=
  match c.mapPanes.find v with
  | none => c
  | some p =>
      { c.usePane p with
        main := (c.usePane p).main.tabRemove
          (Pane.indexOf (c.usePane p).main.tabs (.term ((c.usePane p).pane p).termWnd))
        mapPanes := (c.usePane p).mapPanes.erase v }

theorem cmdHdlrWindowClose_eq (line : List UInt8) (c : Client) :
    cmdHdlrWindowClose plat line c =
      closeWindow c (numberWord plat.anyInt (commandText line 15 c)).1 :=
  rfl

/-- What `cmd_hdlr_layout_change` does with a word. -/
def changeLayout (c : Client) (strlayout : List UInt8) : Client :=
  if strlayout.length < 5 then { c with stopped := true } else c

theorem cmdHdlrLayoutChange_eq {t : List UInt8} (hk : 15 ≤ line.length)
    (ht : line.drop 15 = octetOf '@' :: t) :
    cmdHdlrLayoutChange plat line c =
      changeLayout c (numberWord plat.anyInt (commandText line 16 c)).2 := by
  have htext : commandText line 15 c = octetOf '@' :: commandText line 16 c := by
    have hdrop : (line ++ c.following).drop 15 = octetOf '@' :: (line ++ c.following).drop 16 := by
      have hdrop' : line.drop 16 = t := by
        rw [show 16 = 15 + 1 from rfl, ← List.drop_drop, ht]
        rfl
      have hlen : 16 ≤ line.length := by
        have hlen := congrArg List.length ht
        rw [List.length_drop, List.length_cons] at hlen
        omega
      rw [List.drop_append_of_le_length hk, List.drop_append_of_le_length hlen, ht, hdrop']
      rfl
    rw [commandText, commandText, hdrop]
    rfl
  rw [cmdHdlrLayoutChange, changeLayout, htext, numberWord]
  have hget : (ofString (octetOf '@' :: commandText line 16 c)).get =
      (some (octetOf '@'), ofString (commandText line 16 c)) := rfl
  rw [hget]
  simp only [ne_eq, not_true, if_false]

end Kinds

section Effects

variable (plat : Platform) {line l : List UInt8} (c : Client)

theorem useTerminal_title (t : Nat) : (c.useTerminal t).title = c.title := by
  rw [Client.useTerminal]
  split_ifs <;> rfl

theorem usePane_visible (p : Nat) : (c.usePane p).visible = c.visible := by
  rw [Client.usePane]
  split_ifs <;> rfl

theorem renameWindow_withFollowing (f : List UInt8) (r : Int × List UInt8) :
    (renameWindow (c.withFollowing f) r).visible = (renameWindow c r).visible := by
  have hfind : (c.withFollowing f).mapPanes = c.mapPanes := rfl
  rw [renameWindow, renameWindow, hfind]
  cases c.mapPanes.find r.1 with
  | none => rfl
  | some p =>
      dsimp only
      rw [usePane_withFollowing, Client.setSessionTitle, Client.setSessionTitle]
      have hpane : ((c.usePane p).withFollowing f).pane = (c.usePane p).pane := rfl
      rw [hpane, useTerminal_withFollowing]
      rfl

/-- The titles of a pane are told apart. -/
theorem renameWindow_ne {v : Int} {p : Nat} (hp : c.mapPanes.find v = some p) :
    (renameWindow c (v, [120])).visible ≠ (renameWindow c (v, [121])).visible := by
  have htitle : ∀ w, (renameWindow c (v, w)).visible.title ((c.usePane p).pane p).termWnd =
      fromLatin1 w := by
    intro w
    rw [renameWindow, hp]
    exact Function.update_self _ _ _
  intro heq
  have hsame := congrFun (congrArg Client.title heq) ((c.usePane p).pane p).termWnd
  rw [htitle, htitle] at hsame
  simp [fromLatin1, cString] at hsame

theorem addWindow_withFollowing (f : List UInt8) (v : Int) :
    (addWindow (c.withFollowing f) v).1.visible = (addWindow c v).1.visible ∧
      (addWindow (c.withFollowing f) v).2 = (addWindow c v).2 := by
  have hfind : (c.withFollowing f).mapPanes = c.mapPanes := rfl
  rw [addWindow, addWindow, hfind]
  cases c.mapPanes.find v with
  | none => exact ⟨rfl, rfl⟩
  | some p => exact ⟨rfl, rfl⟩

theorem eq_of_append_append {before x y after : List Char}
    (h : before ++ x ++ after = before ++ y ++ after) : x = y :=
  List.append_cancel_left (List.append_cancel_right h)

theorem cmdDisplayPane_inj {v v' : Int} (h : cmdDisplayPane v = cmdDisplayPane v') : v = v' := by
  have hdecimal : decimal v = decimal v' := eq_of_append_append h
  have hnumeral : intNumeral v = intNumeral v' := by
    rw [← toNat_ascii_decimal v, ← toNat_ascii_decimal v', hdecimal]
  have hstop : ∀ c ∈ ([] : List UInt8).head?, digitValue 10 c.toNat = none := by simp
  have hread := readInt_intNumeral (toNat_numeralBytes v) hstop
  rw [readInt_intNumeral ((toNat_numeralBytes v).trans hnumeral) hstop] at hread
  cases hread
  rfl

/-- The effect of `%window-add` tells a window that is not there from every other number. -/
theorem addWindow_ne {v v' : Int} (hv : c.mapPanes.find v = none) (hne : v ≠ v') :
    (addWindow c v).2 ≠ (addWindow c v').2 := by
  intro heq
  rw [addWindow, addWindow, hv] at heq
  cases hv' : c.mapPanes.find v' with
  | none =>
      rw [hv'] at heq
      simp only [List.cons.injEq, Command.mk.injEq, and_true, true_and] at heq
      exact hne (cmdDisplayPane_inj heq)
  | some p =>
      rw [hv'] at heq
      simp at heq

theorem closeWindow_withFollowing (f : List UInt8) (v : Int) :
    (closeWindow (c.withFollowing f) v).visible = (closeWindow c v).visible := by
  have hfind : (c.withFollowing f).mapPanes = c.mapPanes := rfl
  rw [closeWindow, closeWindow, hfind]
  cases c.mapPanes.find v with
  | none => rfl
  | some p =>
      dsimp only
      rw [usePane_withFollowing]
      rfl

theorem usePane_mapPanes (p : Nat) : (c.usePane p).mapPanes = c.mapPanes := by
  rw [Client.usePane]
  split_ifs <;> rfl

/-- The effect of `%window-close` tells a window that is there from every other number. -/
theorem closeWindow_ne {v v' : Int} {p : Nat} (hv : c.mapPanes.find v = some p) (hne : v ≠ v') :
    (closeWindow c v).visible ≠ (closeWindow c v').visible := by
  have hfind : ∀ v' p', c.mapPanes.find v' = some p' →
      (closeWindow c v').visible.mapPanes = c.mapPanes.erase v' := by
    intro v' p' hp'
    rw [closeWindow, hp']
    exact congrArg (fun m => OrderedMap.erase m v') (usePane_mapPanes c p')
  intro heq
  have hsame := congrArg (fun d : Client => d.mapPanes.find v) heq
  simp only [hfind v p hv, OrderedMap.find_erase, if_true] at hsame
  rcases Option.eq_none_or_eq_some (c.mapPanes.find v') with hv' | ⟨p', hv'⟩
  · rw [closeWindow, hv'] at hsame
    have hgone : c.mapPanes.find v = none := hsame.symm
    rw [hv] at hgone
    cases hgone
  · rw [hfind v' p' hv', OrderedMap.find_erase, if_neg (Ne.symm hne), hv] at hsame
    cases hsame

theorem changeLayout_withFollowing (f w : List UInt8) :
    (changeLayout (c.withFollowing f) w).visible = (changeLayout c w).visible := by
  rw [changeLayout, changeLayout]
  split_ifs <;> rfl

/-- A word that is too short stops the client. -/
theorem changeLayout_ne (hrun : c.stopped = false) :
    (changeLayout c (List.replicate 1 97)).visible ≠
      (changeLayout c (List.replicate 5 97)).visible := by
  intro heq
  have hsame := congrArg Client.stopped heq
  have hstopped : c.visible.stopped = false := hrun
  simp [changeLayout, Client.visible, hrun] at hsame

end Effects

section Notifications

variable (plat : Platform) {line l : List UInt8} {c : Client}

theorem notifies_windowRenamed_iff (hline : line = l ++ [10]) (hk : 17 ≤ line.length)
    (hany : IsInt plat.anyInt) :
    NotifiesOwnLine plat .windowRenamed line c ↔ OwnLine line c .windowRenamed := by
  have heffect : NotifiesOwnLine plat .windowRenamed line c ↔
      ∀ f f', (renameWindow c (numberWord plat.anyInt
          (commandText line 17 (c.withFollowing f)))).visible =
        (renameWindow c (numberWord plat.anyInt
          (commandText line 17 (c.withFollowing f')))).visible := by
    simp only [NotifiesOwnLine, notify, cmdHdlrWindowRenamed_eq, renameWindow_withFollowing,
      and_true]
  rw [heffect, effect_numberWord_iff (fun r => (renameWindow c r).visible) _ hline hk, OwnLine]
  have hbound : ∀ f, IsInt (numberWord plat.anyInt f).1 :=
    fun f => readIntInto_bounds (ofString f) hany
  have hgone : ∀ r : Int × List UInt8, c.mapPanes.find r.1 = none → renameWindow c r = c := by
    intro r hr
    rw [renameWindow, hr]
  refine or_congr Iff.rfl (or_congr (and_congr_right fun _ => ⟨fun h v hv => ?_, fun h f f' => ?_⟩)
    (and_congr_right fun _ => ⟨fun h v rest p hint hp hrest => ?_,
      fun h v rest hint hrest f f' => ?_⟩))
  · -- two titles for a window whose number is behind the line
    rcases Option.eq_none_or_eq_some (c.mapPanes.find v) with hfind | ⟨p, hp⟩
    · exact hfind
    · obtain ⟨f, hf, hvalue⟩ := exists_number plat.anyInt hv
        (isWord_replicate 0 (a := 120) rfl (by simp))
      obtain ⟨f', hf', hvalue'⟩ := exists_number plat.anyInt hv
        (isWord_replicate 0 (a := 121) rfl (by simp))
      have hsame := h f f'
      rw [hf, hf', hvalue, hvalue'] at hsame
      exact absurd hsame (renameWindow_ne c hp)
  · rw [hgone _ (h _ (hbound _)), hgone _ (h _ (hbound _))]
  · -- two titles behind the line
    obtain ⟨f, hf, hword⟩ := exists_word (isWord_replicate 0 (a := 120) rfl (by simp))
    obtain ⟨f', hf', hword'⟩ := exists_word (isWord_replicate 0 (a := 121) rfl (by simp))
    have hsame := h v rest hint hrest f f'
    rw [hf, hf', hword, hword'] at hsame
    exact renameWindow_ne c hp hsame
  · rcases Option.eq_none_or_eq_some (c.mapPanes.find v) with hfind | ⟨p, hp⟩
    · rw [hgone _ hfind, hgone _ hfind]
    · exact absurd hrest (h v rest p hint hp)

/-- There is another number. -/
theorem exists_isInt_ne (v : Int) : ∃ v', IsInt v' ∧ v ≠ v' := by
  by_cases hv : v = 0
  · exact ⟨1, ⟨by norm_num, by norm_num⟩, by omega⟩
  · exact ⟨0, ⟨by norm_num, by norm_num⟩, hv⟩

theorem notifies_windowAdd_iff (hline : line = l ++ [10]) (hk : 13 ≤ line.length)
    (hany : IsInt plat.anyInt) :
    NotifiesOwnLine plat .windowAdd line c ↔ OwnLine line c .windowAdd := by
  have heffect : NotifiesOwnLine plat .windowAdd line c ↔
      ∀ f f',
        ((addWindow c (numberWord plat.anyInt (commandText line 13 (c.withFollowing f))).1).1.visible,
          (addWindow c (numberWord plat.anyInt (commandText line 13 (c.withFollowing f))).1).2) =
        ((addWindow c (numberWord plat.anyInt (commandText line 13 (c.withFollowing f'))).1).1.visible,
          (addWindow c (numberWord plat.anyInt (commandText line 13 (c.withFollowing f'))).1).2) := by
    simp only [NotifiesOwnLine, notify, cmdHdlrWindowAdd_eq, addWindow_withFollowing,
      Prod.mk.injEq]
  rw [heffect, effect_number_iff (fun v => ((addWindow c v).1.visible, (addWindow c v).2)) hany
    hline hk, OwnLine]
  refine or_congr Iff.rfl (or_congr Iff.rfl ⟨fun h v hv => ?_, fun h v v' hv hv' => ?_⟩)
  · rcases Option.eq_none_or_eq_some (c.mapPanes.find v) with hfind | ⟨p, hp⟩
    · obtain ⟨v', hv', hne⟩ := exists_isInt_ne v
      exact absurd (congrArg Prod.snd (h v v' hv hv')) (addWindow_ne c hfind hne)
    · rw [hp]
      rfl
  · obtain ⟨p, hp⟩ := Option.isSome_iff_exists.mp (h v hv)
    obtain ⟨p', hp'⟩ := Option.isSome_iff_exists.mp (h v' hv')
    rw [addWindow, addWindow, hp, hp']

theorem notifies_windowClose_iff (hline : line = l ++ [10]) (hk : 15 ≤ line.length)
    (hany : IsInt plat.anyInt) :
    NotifiesOwnLine plat .windowClose line c ↔ OwnLine line c .windowClose := by
  have heffect : NotifiesOwnLine plat .windowClose line c ↔
      ∀ f f',
        (closeWindow c (numberWord plat.anyInt
          (commandText line 15 (c.withFollowing f))).1).visible =
        (closeWindow c (numberWord plat.anyInt
          (commandText line 15 (c.withFollowing f'))).1).visible := by
    simp only [NotifiesOwnLine, notify, cmdHdlrWindowClose_eq, closeWindow_withFollowing,
      and_true]
  rw [heffect, effect_number_iff (fun v => (closeWindow c v).visible) hany hline hk, OwnLine]
  refine or_congr Iff.rfl (or_congr Iff.rfl ⟨fun h v hv => ?_, fun h v v' hv hv' => ?_⟩)
  · rcases Option.eq_none_or_eq_some (c.mapPanes.find v) with hfind | ⟨p, hp⟩
    · exact hfind
    · obtain ⟨v', hv', hne⟩ := exists_isInt_ne v
      exact absurd (h v v' hv hv') (closeWindow_ne c hp hne)
  · rw [closeWindow, closeWindow, h v hv, h v' hv']

/-- A line without a window is ignored. -/
theorem cmdHdlrLayoutChange_of_head {b : UInt8} {t : List UInt8} (ht : line.drop 15 = b :: t)
    (hb : b ≠ octetOf '@') (c : Client) : cmdHdlrLayoutChange plat line c = c := by
  have hk : 15 ≤ line.length := by
    have hlen := congrArg List.length ht
    rw [List.length_drop, List.length_cons] at hlen
    omega
  have htext : commandText line 15 c = cString (b :: (t ++ c.following)) := by
    rw [commandText, List.drop_append_of_le_length hk, ht, List.cons_append]
  have hget : (ofString (commandText line 15 c)).get.1 ≠ some (octetOf '@') := by
    rw [htext]
    by_cases hb0 : b = 0
    · subst hb0
      simp [cString, Istream.get, ofString, good]
    · simp [cString, hb0, Istream.get, ofString, good, hb]
  rw [cmdHdlrLayoutChange]
  generalize (ofString (commandText line 15 c)).get = out at hget
  obtain ⟨at?, s⟩ := out
  exact if_pos hget

theorem notifies_layoutChange_iff (hline : line = l ++ [10]) (hk : 16 ≤ line.length)
    (hrun : c.stopped = false) :
    NotifiesOwnLine plat .layoutChange line c ↔ OwnLine line c .layoutChange := by
  by_cases hat : ∃ t, line.drop 15 = octetOf '@' :: t
  · obtain ⟨t, ht⟩ := hat
    have hlen : 16 ≤ line.length := by
      have hlen := congrArg List.length ht
      rw [List.length_drop, List.length_cons] at hlen
      omega
    have htail : line.drop 16 = t := by
      rw [show 16 = 15 + 1 from rfl, ← List.drop_drop, ht]
      rfl
    have hzero : 0 ∈ line.drop 15 ↔ 0 ∈ t := by
      rw [ht, List.mem_cons]
      exact or_iff_right (by simp [octetOf])
    have heffect : NotifiesOwnLine plat .layoutChange line c ↔
        ∀ f f',
          (changeLayout c (numberWord plat.anyInt
            (commandText line 16 (c.withFollowing f))).2).visible =
          (changeLayout c (numberWord plat.anyInt
            (commandText line 16 (c.withFollowing f'))).2).visible := by
      simp only [NotifiesOwnLine, notify, cmdHdlrLayoutChange_eq plat _ (le_of_lt hk) ht,
        changeLayout_withFollowing, and_true]
    rw [heffect, effect_numberWord_iff (fun r => (changeLayout c r.2).visible) _ hline hk,
      OwnLine, hzero, htail]
    simp only [ht, List.cons.injEq, true_and, forall_eq']
    refine or_congr Iff.rfl ⟨?_, fun h => .inr ⟨h.1, fun v rest hint hrest =>
      absurd hrest (h.2 v rest hint)⟩⟩
    -- words of different lengths
    have hshort := isWord_replicate 0 (a := 97) rfl (by simp)
    have hlong := isWord_replicate 4 (a := 97) rfl (by simp)
    rintro (⟨-, h⟩ | ⟨hblank, h⟩)
    · have hzero : IsInt 0 := ⟨by norm_num, by norm_num⟩
      obtain ⟨f, hf, hvalue⟩ := exists_number plat.anyInt hzero hshort
      obtain ⟨f', hf', hvalue'⟩ := exists_number plat.anyInt hzero hlong
      have hsame := h f f'
      rw [hf, hf', hvalue, hvalue'] at hsame
      exact absurd hsame (changeLayout_ne c hrun)
    · refine ⟨hblank, fun v rest hint hrest => ?_⟩
      obtain ⟨f, hf, hword⟩ := exists_word hshort
      obtain ⟨f', hf', hword'⟩ := exists_word hlong
      have hsame := h v rest hint hrest f f'
      rw [hf, hf', hword, hword'] at hsame
      exact absurd hsame (changeLayout_ne c hrun)
  · refine iff_of_true (fun f f' => ?_) (.inr fun t ht => absurd ⟨t, ht⟩ hat)
    obtain ⟨b, t, ht⟩ := List.exists_cons_of_ne_nil (l := line.drop 15)
      (fun hnil => by rw [List.drop_eq_nil_iff] at hnil; omega)
    have hb : b ≠ octetOf '@' := by
      rintro rfl
      exact hat ⟨t, ht⟩
    simp only [notify, cmdHdlrLayoutChange_of_head plat ht hb, and_true]
    rfl

/-- The effect of a session, with the name that is read. -/
def changeSession (c : Client) : Option (Int × List UInt8) → Handled
  | none => (c, [])
  | some (sessid, rest) =>
      ({ c with sessionID := sessid, sessionName := some (cString (rest.drop 1)) },
        openWindowsInitial plat)

theorem notifies_sessionChanged_iff (hline : line = l ++ [10]) (hk : 18 ≤ line.length) :
    NotifiesOwnLine plat .sessionChanged line c ↔ OwnLine line c .sessionChanged := by
  have heffect : ∀ f, (cmdHdlrSessionChanged plat line (c.withFollowing f)).1.visible =
      (changeSession plat c (strtol (line.drop 18 ++ f))).1.visible ∧
      (cmdHdlrSessionChanged plat line (c.withFollowing f)).2 =
        (changeSession plat c (strtol (line.drop 18 ++ f))).2 := by
    intro f
    have hdrop : (line ++ (c.withFollowing f).following).drop 18 = line.drop 18 ++ f :=
      List.drop_append_of_le_length hk
    rw [cmdHdlrSessionChanged, hdrop]
    cases strtol (line.drop 18 ++ f) <;> exact ⟨rfl, rfl⟩
  simp only [NotifiesOwnLine, notify, heffect, OwnLine]
  by_cases hblank : Blank (line.drop 18)
  · -- the number is behind the line, if there is one
    refine iff_of_false (fun h => ?_) (fun h => h.1 hblank)
    have hsent := (h [] (numeralBytes 0)).2
    have hread : strtol (numeralBytes 0) = some (0, []) := rfl
    have hnone : strtol [] = none := rfl
    rw [strtol_blank hblank, strtol_blank hblank, hread, hnone] at hsent
    exact absurd hsent (by simp [changeSession, openWindowsInitial])
  · rcases drop_line hline 18 with hnil | ⟨l', hl'⟩
    · exact absurd (hnil ▸ blank_nil) hblank
    · have hfront : ¬ Blank l' :=
        fun h => hblank (hl' ▸ h.append (blank_singleton isBlank_newline))
      have hread : ∀ f, strtol (line.drop 18 ++ f) =
          (strtol l').map (fun r => (r.1, r.2 ++ 10 :: f)) := by
        intro f
        rw [hl', List.append_assoc, List.singleton_append, strtol_before hfront isBlank_newline]
      have hown : strtol (line.drop 18) = (strtol l').map (fun r => (r.1, r.2 ++ [10])) := by
        rw [← hread [], List.append_nil]
      simp only [hread, hown, hblank, not_false_iff, true_and]
      cases strtol l' with
      | none => simp
      | some r =>
          obtain ⟨v, rest⟩ := r
          obtain ⟨name, hname⟩ : ∃ name, name = (rest ++ [10]).drop 1 := ⟨_, rfl⟩
          have hrest : ∀ f, (rest ++ 10 :: f).drop 1 = name ++ f := by
            intro f
            rw [hname, List.append_cons, List.drop_append_of_le_length (by simp)]
          simp only [Option.map_some, Option.some.injEq, Prod.mk.injEq, changeSession, hrest,
            cString_append_eq, and_true]
          constructor
          · rintro h _ _ ⟨rfl, rfl⟩
            rw [← hname]
            by_contra h0
            have hsame := congrArg Client.sessionName (h [] [120])
            simp only [h0, if_false, Client.visible, Option.some.injEq,
              List.append_cancel_left_eq] at hsame
            simp [cString] at hsame
          · intro h f f'
            have h0 : 0 ∈ name := hname ▸ h v _ ⟨rfl, rfl⟩
            rw [if_pos h0, if_pos h0]

/-- The effect of data for a pane. -/
def outputData (c : Client) : Option (Int × List UInt8) → Client
  | none => c
  | some (paneid, data) =>
      match c.mapPanes.find paneid with
      | none => c
      | some p =>
          if ((c.usePane p).pane p).ready = false then c.usePane p
          else (data.toChunks outputBufferSize).foldl
            (fun c piece => c.fromBackend (c.pane p).termWnd .output piece) (c.usePane p)

theorem feed_withFollowing (f : List UInt8) (p : Nat) (pieces : List (List UInt8)) (c : Client) :
    pieces.foldl (fun c piece => c.fromBackend (c.pane p).termWnd .output piece)
        (c.withFollowing f) =
      (pieces.foldl (fun c piece => c.fromBackend (c.pane p).termWnd .output piece)
        c).withFollowing f := by
  induction pieces generalizing c with
  | nil => rfl
  | cons piece pieces ih =>
      have hpane : (c.withFollowing f).pane = c.pane := rfl
      rw [List.foldl_cons, List.foldl_cons, hpane, fromBackend_withFollowing, ih]

theorem outputData_withFollowing (f : List UInt8) (c : Client) (r : Option (Int × List UInt8)) :
    (outputData (c.withFollowing f) r).visible = (outputData c r).visible := by
  cases r with
  | none => rfl
  | some r =>
      have hfind : (c.withFollowing f).mapPanes = c.mapPanes := rfl
      rw [outputData, outputData, hfind]
      cases c.mapPanes.find r.1 with
      | none => rfl
      | some p =>
          have hpane : ((c.usePane p).withFollowing f).pane = (c.usePane p).pane := rfl
          dsimp only
          rw [usePane_withFollowing, hpane, feed_withFollowing]
          split_ifs <;> rfl

/-- Without data nothing happens. -/
theorem outputData_nil (c : Client) (v : Int) : (outputData c (some (v, []))).visible = c.visible := by
  rw [outputData]
  cases c.mapPanes.find v with
  | none => rfl
  | some p =>
      have hnil : ([] : List UInt8).toChunks outputBufferSize = [] := rfl
      dsimp only
      rw [hnil, List.foldl_nil, ite_self, usePane_visible]

theorem cmdHdlrOutput_data {t : List UInt8} (ht : line.drop 8 = 37 :: t) (c : Client) :
    cmdHdlrOutput line c = outputData c ((strtol (t ++ c.following)).map (fun r =>
      (r.1, decodeOutput ((line ++ c.following).drop
        ((line ++ c.following).length - r.2.length + 1))
        (line.length - ((line ++ c.following).length - r.2.length + 1) - 1)))) := by
  have hlen := congrArg List.length ht
  rw [List.length_drop, List.length_cons] at hlen
  have hcmd : (line ++ c.following).drop 8 = 37 :: (t ++ c.following) := by
    rw [List.drop_append_of_le_length (by omega), ht, List.cons_append]
  have hhead : some 37 = some (octetOf '%') := rfl
  rw [cmdHdlrOutput]
  simp only [hcmd, List.head?_cons, List.drop_one, List.tail_cons]
  rw [if_neg (not_not.mpr hhead)]
  cases strtol (t ++ c.following) with
  | none => rfl
  | some r => rfl

/-- The data behind a number that stands in its line. -/
theorem decodeOutput_own {before rest : List UInt8} (hline : line = before ++ (rest ++ [10]))
    (f : List UInt8) :
    decodeOutput ((line ++ f).drop ((line ++ f).length - (rest ++ 10 :: f).length + 1))
        (line.length - ((line ++ f).length - (rest ++ 10 :: f).length + 1) - 1) =
      decode (rest.drop 1) := by
  have hmem : line ++ f = before ++ (rest ++ 10 :: f) := by
    rw [hline, List.append_assoc, List.append_assoc, List.singleton_append]
  have hstart : (line ++ f).length - (rest ++ 10 :: f).length = before.length := by
    rw [hmem, List.length_append]
    omega
  have hlen : line.length - (before.length + 1) - 1 = (rest.drop 1).length := by
    rw [hline]
    simp only [List.length_append, List.length_drop, List.length_singleton]
    omega
  rw [hstart, hlen, hmem, ← List.drop_drop, List.drop_left]
  cases rest with
  | nil => rfl
  | cons y z => exact payloadData_eq_decode z f

theorem notifies_output (hline : line = l ++ [10]) (hk : 9 ≤ line.length) :
    NotifiesOwnLine plat .output line c := by
  -- what the line does, however it goes on
  suffices hsame : ∃ d : Client, ∀ f, (cmdHdlrOutput line (c.withFollowing f)).visible = d by
    obtain ⟨d, hd⟩ := hsame
    exact fun f f' => ⟨(hd f).trans (hd f').symm, rfl⟩
  obtain ⟨b, t, ht⟩ := List.exists_cons_of_ne_nil (l := line.drop 8)
    (fun hnil => by rw [List.drop_eq_nil_iff] at hnil; omega)
  by_cases hb : b = 37
  · subst hb
    have htail : line.drop 9 = t := by
      rw [show 9 = 8 + 1 from rfl, ← List.drop_drop, ht]
      rfl
    by_cases hblank : Blank t
    · -- the number is behind the line, and there are no data
      refine ⟨c.visible, fun f => ?_⟩
      rw [cmdHdlrOutput_data ht, outputData_withFollowing, strtol_blank hblank]
      have hfollowing : (c.withFollowing f).following = f := rfl
      rw [hfollowing]
      cases hread : strtol f with
      | none => rfl
      | some r =>
          obtain ⟨v, bytes⟩ := r
          obtain ⟨before, hbefore⟩ := strtol_suffix hread
          have hzero : line.length - ((line ++ f).length - bytes.length + 1) - 1 = 0 := by
            have hlen := congrArg List.length hbefore
            rw [List.length_append] at hlen ⊢
            omega
          rw [Option.map_some, hzero]
          exact outputData_nil c v
    · rcases drop_line hline 9 with hnil | ⟨l', hl'⟩
      · exact absurd (htail.symm.trans hnil ▸ blank_nil) hblank
      · have hfront : ¬ Blank l' := fun h =>
          hblank (htail.symm.trans hl' ▸ h.append (blank_singleton isBlank_newline))
        refine ⟨(outputData c ((strtol l').map (fun r => (r.1, decode (r.2.drop 1))))).visible,
          fun f => ?_⟩
        have hfollowing : (c.withFollowing f).following = f := rfl
        rw [cmdHdlrOutput_data ht, outputData_withFollowing, ← htail, hl', hfollowing,
          List.append_assoc, List.singleton_append, strtol_before hfront isBlank_newline]
        cases hread : strtol l' with
        | none => rfl
        | some r =>
            obtain ⟨v, bytes⟩ := r
            obtain ⟨before, hbefore⟩ := strtol_suffix hread
            have hsplit : line = (line.take 9 ++ before) ++ (bytes ++ [10]) := by
              rw [List.append_assoc, ← List.append_assoc before, ← hbefore, ← hl',
                List.take_append_drop]
            simp only [Option.map_some]
            rw [decodeOutput_own hsplit]
  · -- not a pane
    refine ⟨c.visible, fun f => ?_⟩
    have hcmd : ((line ++ (c.withFollowing f).following).drop 8).head? ≠ some (octetOf '%') := by
      rw [List.drop_append_of_le_length (by omega), ht, List.cons_append, List.head?_cons]
      exact fun h => hb (Option.some.inj h)
    rw [cmdHdlrOutput]
    dsimp only
    rw [if_pos hcmd]
    rfl

end Notifications

section Lines

variable (plat : Platform) {line : List UInt8}

/-- The shortest lines that are read by a handler. -/
def leastLength : Notification → Nat
  | .output => 9
  | .sessionChanged => 18
  | .windowRenamed => 17
  | .windowAdd => 13
  | .windowClose => 15
  | .layoutChange => 16
  | .noop | .sessionsChanged | .exit => 0

/-- A line has the bytes of its kind, and its end. -/
theorem leastLength_le {l : List UInt8} (hline : line = l ++ [10]) {n : Notification}
    (h : notificationOf line = some n) : leastLength n ≤ line.length := by
  rw [notificationOf, Option.map_eq_some_iff] at h
  obtain ⟨test, hfind, rfl⟩ := h
  have hstart := List.find?_some hfind
  have htable : ∀ test ∈ (notificationTests : List (List UInt8 × Notification)),
      leastLength test.2 = 0 ∨
        (leastLength test.2 = test.1.length + 1 ∧ test.1.getLast? ≠ some 10) := by
    simp [notificationTests, leastLength, ascii]
  have hpre : test.1 <+: line := by
    rw [startsWith, show line.map octet = line from List.map_id line] at hstart
    exact List.isPrefixOf_iff_prefix.mp hstart
  rcases htable test (List.mem_of_find?_eq_some hfind) with hzero | ⟨hlength, hlast⟩
  · omega
  · rw [hlength]
    refine Nat.lt_of_le_of_ne hpre.length_le (fun hlen => hlast ?_)
    rw [hpre.eq_of_length hlen, hline, List.getLast?_concat]

/-- **A notification is read on its own exactly if the line has what its handler reads.** -/
theorem notifiesOwnLine_iff {l : List UInt8} (hline : line = l ++ [10]) {n : Notification}
    (h : notificationOf line = some n) {c : Client} (hrun : c.stopped = false)
    (hany : IsInt plat.anyInt) : NotifiesOwnLine plat n line c ↔ OwnLine line c n := by
  have hlength := leastLength_le hline h
  cases n with
  | output => exact iff_of_true (notifies_output plat hline hlength) trivial
  | sessionChanged => exact notifies_sessionChanged_iff plat hline hlength
  | windowRenamed => exact notifies_windowRenamed_iff plat hline hlength hany
  | windowAdd => exact notifies_windowAdd_iff plat hline hlength hany
  | windowClose => exact notifies_windowClose_iff plat hline hlength hany
  | layoutChange => exact notifies_layoutChange_iff plat hline hlength hrun
  | noop => exact iff_of_true (fun _ _ => ⟨rfl, rfl⟩) trivial
  | sessionsChanged => exact iff_of_true (fun _ _ => ⟨rfl, rfl⟩) trivial
  | exit => exact iff_of_true (fun _ _ => ⟨rfl, rfl⟩) trivial

/-- **Two runs with different bytes behind a line have the same effect exactly if the line is
for no handler, or has everything that its handler reads.** -/
theorem readsOwnLine_iff (line : List UInt8) (g : TmuxGateway UInt8 Receiver Client)
    (hend : line.getLast? = some 10) (hrun : g.state.stopped = false)
    (hany : IsInt plat.anyInt) :
    ReadsOwnLine plat line g ↔ ∀ n, Dispatched line g n → OwnLine line g.state n := by
  obtain ⟨l, hline⟩ := List.getLast?_eq_some_iff.mp hend
  rw [readsOwnLine_iff_notifies]
  exact forall_congr' (fun n => forall_congr' (fun hn =>
    notifiesOwnLine_iff plat hline hn.kind hrun hany))

/-- The gateway of a client without panes. -/
def idleGateway : TmuxGateway UInt8 Receiver Client :=
  .init (.init plainPlatform Pane.GuiMainWindow.init)

/-- The name of a session goes on behind its line. -/
def sessionLine : List UInt8 := ascii "%session-changed $0 qutty\n".toList

theorem readsOwnLine_iff_session :
    ReadsOwnLine plainPlatform sessionLine idleGateway ↔
      ∀ n, Dispatched sessionLine idleGateway n → OwnLine sessionLine idleGateway.state n :=
  readsOwnLine_iff plainPlatform sessionLine idleGateway rfl rfl ⟨by simp [plainPlatform], by
    simp [plainPlatform]⟩

/-- The bytes of the next line get into the name of the session. -/
theorem not_readsOwnLine_session : sessionLine.getLast? = some 10 ∧
    ¬ ReadsOwnLine plainPlatform sessionLine idleGateway := by
  refine ⟨rfl, fun h => ?_⟩
  have hdispatched : Dispatched sessionLine idleGateway .sessionChanged := ⟨rfl, rfl, rfl, rfl⟩
  have hname := ((readsOwnLine_iff_notifies _ _ _).mp h _ hdispatched [] (ascii "%exit".toList)).1
  have hsame := congrArg Client.sessionName hname
  exact absurd hsame (by decide)

end Lines

end Tmux
end Qutty
