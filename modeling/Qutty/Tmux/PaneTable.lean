import Qutty.Tmux.Realisation
import Qutty.Pane.Ledger

/-!
# The panes in use and their terminals

`_mapPanes` and the commands that wait for a reply refer to panes, and a pane
refers to its terminal.  `Sound c A` says that the references are good: for the
panes in the map and for those in `A`, which commands are addressed to.

A handler is sound if it keeps this, with the panes that its new commands are
addressed to added to `A`.  What handlers do to references is little: they add
panes (`createPane_sound`), they drop an entry of the map, or they leave all of
them alone (`Sound.of_references`).
-/

namespace Qutty
namespace Tmux

open Lib Pane Pane.GuiMainWindow

/-- What a client refers to. -/
structure References where
  ledger : Ledger
  nextPane : Nat
  terminal : Nat → Nat
  mapPanes : OrderedMap Int Nat
  deleted : List Nat
  misuses : List Misuse

def Client.references (c : Client) : References :=
  ⟨c.main.ledger, c.nextPane, fun p => (c.pane p).termWnd, c.mapPanes, c.deleted, c.misuses⟩

/-- The panes among receivers. -/
def panesOf (receivers : List Receiver) : Set Nat := { p | .pane p ∈ receivers }

/-- The panes that commands are addressed to. -/
def addressed (cs : List (Command Receiver)) : Set Nat := panesOf (cs.map Command.receiver)

/-- Panes have been created, each with a terminal of its own. -/
structure References.Fresh (r : References) : Prop where
  terminalLt : ∀ p < r.nextPane, r.terminal p < r.ledger.nextTerminal
  terminalInj : ∀ p < r.nextPane, ∀ q < r.nextPane, r.terminal p = r.terminal q → p = q
  mapLt : ∀ k p, r.mapPanes.find k = some p → p < r.nextPane
  mapInj : ∀ j k p, r.mapPanes.find j = some p → r.mapPanes.find k = some p → j = k

/-- The references are good, also those to the panes in `A`. -/
structure References.Sound (r : References) (A : Set Nat) : Prop where
  fresh : r.Fresh
  addressedLt : ∀ p ∈ A, p < r.nextPane
  mapOpen : ∀ k p, r.mapPanes.find k = some p → r.terminal p ∉ r.ledger.closed
  addressedOpen : ∀ p ∈ A, r.terminal p ∉ r.ledger.closed
  deleted : r.deleted = []
  misuses : r.misuses = []
  proper : r.ledger.Proper

/-- The references of a client are good. -/
def Sound (c : Client) (A : Set Nat) : Prop := c.references.Sound A

/-- A handler keeps references good. -/
def KeepsSound (A : Set Nat) (c : Client) (r : Handled) : Prop :=
  Sound c A → Sound r.1 (A ∪ addressed r.2)

section Sound

variable {c c' : Client} {A B : Set Nat}

@[simp] theorem addressed_nil : addressed [] = ∅ := by
  simp [addressed, panesOf]

@[simp] theorem addressed_append (cs cs' : List (Command Receiver)) :
    addressed (cs ++ cs') = addressed cs ∪ addressed cs' := by
  ext p
  simp [addressed, panesOf]

theorem Sound.of_references (h : Sound c A) (he : c'.references = c.references) :
    Sound c' A := by
  unfold Sound
  rw [he]
  exact h

theorem Sound.mono (h : Sound c A) (hB : B ⊆ A) : Sound c B where
  fresh := h.fresh
  addressedLt p hp := h.addressedLt p (hB hp)
  mapOpen := h.mapOpen
  addressedOpen p hp := h.addressedOpen p (hB hp)
  deleted := h.deleted
  misuses := h.misuses
  proper := h.proper

/-- A handler that sends nothing. -/
theorem Sound.keeps (h : Sound c A → Sound c' A) : KeepsSound A c (c', []) := by
  intro hc
  rw [addressed_nil, Set.union_empty]
  exact h hc

theorem keepsSound_refl : KeepsSound A c (c, []) := Sound.keeps fun h => h

/-- A handler that only sends commands of the gateway itself. -/
theorem keepsSound_gateway {cs : List (Command Receiver)} (h : Sound c A → Sound c' A)
    (hcs : ∀ x ∈ cs, x.receiver = .gateway) : KeepsSound A c (c', cs) := by
  have hempty : addressed cs = ∅ := by
    ext p
    simp only [addressed, panesOf, List.mem_map, Set.mem_ofPred_eq, Set.mem_empty_iff_false,
      iff_false, not_exists, not_and]
    intro x hx hp
    rw [hcs x hx] at hp
    cases hp
  intro hc
  rw [hempty, Set.union_empty]
  exact h hc

/-- One handler after another. -/
theorem KeepsSound.append {cs cs' : List (Command Receiver)} {c'' : Client}
    (h : KeepsSound A c (c', cs)) (h' : KeepsSound (A ∪ addressed cs) c' (c'', cs')) :
    KeepsSound A c (c'', cs ++ cs') := by
  intro hc
  rw [addressed_append, ← Set.union_assoc]
  exact h' (h hc)

theorem Sound.usePane (h : Sound c A) (p : Nat) : c.usePane p = c := by
  have hdel : c.deleted = [] := h.deleted
  simp [Client.usePane, hdel]

theorem Client.useTerminal_of_open {t : Nat} (ht : t ∉ c.main.closed) : c.useTerminal t = c :=
  if_neg ht

theorem Sound.setSessionTitle {t : Nat} (h : Sound c A) (ht : t ∉ c.main.closed)
    (text : List Nat) : Sound (c.setSessionTitle t text) A := by
  refine h.of_references ?_
  rw [Client.setSessionTitle, Client.useTerminal_of_open ht]
  rfl

theorem Sound.fromBackend {t : Nat} (h : Sound c A) (ht : t ∉ c.main.closed)
    (source : FeedSource) (bytes : List UInt8) : Sound (c.fromBackend t source bytes) A := by
  refine h.of_references ?_
  rw [Client.fromBackend, Client.useTerminal_of_open ht]
  rfl

theorem Sound.updateTerm {t : Nat} (h : Sound c A) (ht : t ∉ c.main.closed)
    (f : TermFields → TermFields) : Sound (c.updateTerm t f) A := by
  refine h.of_references ?_
  rw [Client.updateTerm, Client.useTerminal_of_open ht]
  rfl

/-- The entry of a pane is dropped. -/
theorem Sound.erase (h : Sound c A) {k : Int} {main : GuiMainWindow}
    (hmain : main.ledger = c.main.ledger) :
    Sound { c with main := main, mapPanes := c.mapPanes.erase k } A := by
  have hfind : ∀ j p, (c.mapPanes.erase k).find j = some p → c.mapPanes.find j = some p := by
    intro j p hj
    rw [OrderedMap.find_erase] at hj
    split_ifs at hj
    exact hj
  have hrefs : ({ c with main := main, mapPanes := c.mapPanes.erase k } : Client).references =
      { c.references with mapPanes := c.mapPanes.erase k } := by
    simp only [Client.references, hmain]
  unfold Sound
  rw [hrefs]
  exact
    { fresh :=
        { terminalLt := h.fresh.terminalLt
          terminalInj := h.fresh.terminalInj
          mapLt := fun j p hj => h.fresh.mapLt j p (hfind j p hj)
          mapInj := fun i j p hi hj => h.fresh.mapInj i j p (hfind i p hi) (hfind j p hj) }
      addressedLt := h.addressedLt
      mapOpen := fun j p hj => h.mapOpen j p (hfind j p hj)
      addressedOpen := h.addressedOpen
      deleted := h.deleted
      misuses := h.misuses
      proper := h.proper }

/-- The records of the main window change, but not for a terminal in use. -/
theorem Sound.withMain {main : GuiMainWindow} (h : Sound c A)
    (hnext : c.main.nextTerminal ≤ main.nextTerminal)
    (hopen : ∀ p, (∃ k, c.mapPanes.find k = some p) ∨ p ∈ A →
      (c.pane p).termWnd ∉ main.closed)
    (hproper : main.ledger.Proper) : Sound { c with main := main } A where
  fresh :=
    { terminalLt := fun p hp => Nat.lt_of_lt_of_le (h.fresh.terminalLt p hp) hnext
      terminalInj := h.fresh.terminalInj
      mapLt := h.fresh.mapLt
      mapInj := h.fresh.mapInj }
  addressedLt := h.addressedLt
  mapOpen k p hk := hopen p (.inl ⟨k, hk⟩)
  addressedOpen p hp := hopen p (.inr hp)
  deleted := h.deleted
  misuses := h.misuses
  proper := hproper

/-- The terminal of a pane in use is open. -/
theorem Sound.inUse (h : Sound c A) {p : Nat}
    (hp : (∃ k, c.mapPanes.find k = some p) ∨ p ∈ A) : (c.pane p).termWnd ∉ c.main.closed := by
  rcases hp with ⟨k, hk⟩ | hp
  · exact h.mapOpen k p hk
  · exact h.addressedOpen p hp

end Sound

section Creation

variable {plat : Platform} {id : Int} {name : List UInt8} {c : Client} {A : Set Nat}

theorem ledger_setupLayout (w : GuiMainWindow) (t : Nat) (splitter : Option Nat) :
    (setupLayout w t splitter).ledger = w.ledger := by
  cases splitter with
  | none => exact ledger_setupLayoutLeaf (-1)
  | some s => exact ledger_addBaseWidget (w := w) (s := s) (b := .term t) (-1)

theorem ledger_newGuiSplitter (w : GuiMainWindow) (orient : Orientation)
    (splitter : Option Nat) : (newGuiSplitter w orient splitter).ledger = w.ledger := by
  cases splitter with
  | none => rfl
  | some s => exact ledger_addBaseWidget (w := w.newSplitter orient) (s := s) (-1)

/-- What a new pane does to the references. -/
theorem references_createPane (layout : TmuxLayout) (splitter : Option Nat) :
    (createPane plat id name layout splitter c).1.references =
      { c.references with
        ledger := ⟨c.main.nextTerminal + 1, c.main.opened ++ [c.main.nextTerminal],
          c.main.closed⟩
        nextPane := c.nextPane + 1
        terminal := Function.update c.references.terminal c.nextPane c.main.nextTerminal
        mapPanes := c.mapPanes.insert (toInt layout.paneid) c.nextPane } := by
  have hledger := ledger_setupLayout c.main.newTerminal c.main.nextTerminal splitter
  have hterm : (fun p => (Function.update c.pane c.nextPane
      ⟨c.main.nextTerminal, toInt layout.paneid, cString name, layout.width, layout.height,
        false, id⟩ p).termWnd) =
      Function.update c.references.terminal c.nextPane c.main.nextTerminal := by
    funext p
    by_cases hp : p = c.nextPane
    · subst hp
      simp
    · simp [Function.update_of_ne hp, Client.references]
  simp only [createPane, Client.references, hledger, hterm]
  rfl

/-- A new pane with a new terminal. -/
theorem References.Sound.create {r : References} (h : r.Sound A) (k : Int) :
    References.Sound
      { r with
        ledger := ⟨r.ledger.nextTerminal + 1, r.ledger.opened ++ [r.ledger.nextTerminal],
          r.ledger.closed⟩
        nextPane := r.nextPane + 1
        terminal := Function.update r.terminal r.nextPane r.ledger.nextTerminal
        mapPanes := r.mapPanes.insert k r.nextPane }
      (A ∪ { r.nextPane }) := by
  have hold : ∀ p, p < r.nextPane →
      Function.update r.terminal r.nextPane r.ledger.nextTerminal p = r.terminal p :=
    fun p hp => Function.update_of_ne hp.ne _ _
  have hnew : Function.update r.terminal r.nextPane r.ledger.nextTerminal r.nextPane =
      r.ledger.nextTerminal := Function.update_self _ _ _
  have hlt : ∀ p, p < r.nextPane + 1 → p < r.nextPane ∨ p = r.nextPane := by omega
  have hfind : ∀ j p, (r.mapPanes.insert k r.nextPane).find j = some p →
      (j = k ∧ p = r.nextPane) ∨ (j ≠ k ∧ r.mapPanes.find j = some p) := by
    intro j p hj
    rw [OrderedMap.find_insert] at hj
    split_ifs at hj with hjk
    · exact .inl ⟨hjk.symm, (Option.some.inj hj).symm⟩
    · exact .inr ⟨Ne.symm hjk, hj⟩
  have hclosed : r.ledger.nextTerminal ∉ r.ledger.closed :=
    fun hc => lt_irrefl _ (h.proper.closedLt _ hc)
  constructor
  · constructor
    · intro p hp
      rcases hlt p hp with hp | rfl
      · simp only [hold p hp]
        exact Nat.lt_succ_of_lt (h.fresh.terminalLt p hp)
      · simp only [hnew]
        exact Nat.lt_succ_self _
    · intro p hp q hq heq
      simp only at heq
      rcases hlt p hp with hp' | rfl <;> rcases hlt q hq with hq' | rfl
      · rw [hold p hp', hold q hq'] at heq
        exact h.fresh.terminalInj p hp' q hq' heq
      · rw [hold p hp', hnew] at heq
        exact absurd (h.fresh.terminalLt p hp') (by omega)
      · rw [hold q hq', hnew] at heq
        exact absurd (h.fresh.terminalLt q hq') (by omega)
      · rfl
    · intro j p hj
      rcases hfind j p hj with ⟨-, rfl⟩ | ⟨-, hj⟩
      · exact Nat.lt_succ_self _
      · exact Nat.lt_succ_of_lt (h.fresh.mapLt j p hj)
    · intro i j p hi hj
      rcases hfind i p hi with ⟨hik, hp⟩ | ⟨-, hi'⟩ <;>
        rcases hfind j p hj with ⟨hjk, hp'⟩ | ⟨-, hj'⟩
      · exact hik.trans hjk.symm
      · exact absurd (h.fresh.mapLt j p hj') (by omega)
      · exact absurd (h.fresh.mapLt i p hi') (by omega)
      · exact h.fresh.mapInj i j p hi' hj'
  · rintro p (hp | rfl)
    · exact Nat.lt_succ_of_lt (h.addressedLt p hp)
    · exact Nat.lt_succ_self _
  · intro j p hj
    rcases hfind j p hj with ⟨-, rfl⟩ | ⟨-, hj⟩
    · simp only [hnew]
      exact hclosed
    · simp only [hold p (h.fresh.mapLt j p hj)]
      exact h.mapOpen j p hj
  · rintro p (hp | rfl)
    · simp only [hold p (h.addressedLt p hp)]
      exact h.addressedOpen p hp
    · simp only [hnew]
      exact hclosed
  · exact h.deleted
  · exact h.misuses
  · exact h.proper.opens

theorem createPane_sound (layout : TmuxLayout) (splitter : Option Nat) :
    KeepsSound A c (createPane plat id name layout splitter c) := by
  intro h
  have haddr : addressed (createPane plat id name layout splitter c).2 = { c.nextPane } := by
    ext p
    simp [createPane, addressed, panesOf]
  unfold Sound
  rw [references_createPane, haddr]
  exact References.Sound.create h _

/-- **A leaf.** -/
theorem createLeaf_sound (layout : TmuxLayout) (splitter : Option Nat) :
    KeepsSound A c (createLeaf plat id name layout splitter c) := by
  unfold createLeaf
  split
  · exact createPane_sound layout splitter
  · rename_i p hp
    refine Sound.keeps fun h => ?_
    rw [h.usePane p]
    exact h.updateTerm (h.mapOpen _ p hp) _

theorem addSplitter_sound (orient : Orientation) (splitter : Option Nat) (h : Sound c A) :
    Sound (addSplitter orient splitter c) A := by
  refine h.of_references ?_
  simp only [addSplitter, Client.references, ledger_tabInsert, ledger_newGuiSplitter]

mutual

/-- **A layout.** -/
theorem createNewWindowPane_sound (plat : Platform) (id : Int) (name : List UInt8)
    (l : TmuxLayout) (splitter : Option Nat) (c : Client) (A : Set Nat) :
    KeepsSound A c (createNewWindowPane plat id name l splitter c) := by
  match l with
  | ⟨_, _, _, _, _, .none, _⟩ =>
      rw [createNewWindowPane]
      exact Sound.keeps fun h => h.of_references rfl
  | ⟨_, _, _, _, _, .leaf, _⟩ =>
      rw [createNewWindowPane]
      exact createLeaf_sound _ splitter
  | ⟨_, _, _, _, _, .horizontal, child⟩ =>
      rw [createNewWindowPane]
      intro h
      exact createChildren_sound plat id name child _ _ A (addSplitter_sound .horizontal splitter h)
  | ⟨_, _, _, _, _, .vertical, child⟩ =>
      rw [createNewWindowPane]
      intro h
      exact createChildren_sound plat id name child _ _ A (addSplitter_sound .vertical splitter h)

theorem createChildren_sound (plat : Platform) (id : Int) (name : List UInt8)
    (ls : List TmuxLayout) (s : Nat) (c : Client) (A : Set Nat) :
    KeepsSound A c (createChildren plat id name ls s c) := by
  match ls with
  | [] =>
      rw [createChildren]
      exact keepsSound_refl
  | l :: ls =>
      have hhead := createNewWindowPane_sound plat id name l (some s) c A
      rw [createChildren]
      dsimp only
      split_ifs
      · exact hhead
      · exact hhead.append (createChildren_sound plat id name ls s _ _)

end

theorem createNewWindow_sound (layout : List UInt8) :
    KeepsSound A c (createNewWindow plat id name layout c) := by
  unfold createNewWindow
  dsimp only
  split_ifs
  · exact Sound.keeps fun h => h.of_references rfl
  · intro h
    exact createNewWindowPane_sound plat id name _ none _ A (h.of_references rfl)
  · exact Sound.keeps fun h => h.of_references rfl

theorem respWindows_sound (flags : Bool) (lines : List (List UInt8)) (r : WindowRecord)
    (c : Client) (A : Set Nat) : KeepsSound A c (respWindows plat flags lines r c) := by
  induction lines generalizing r c A with
  | nil => exact keepsSound_refl
  | cons line lines ih =>
      have hhead : KeepsSound A c (createNewWindow plat (readRecord flags line r).wndid
          (cString (readRecord flags line r).wndname) (readRecord flags line r).layout c) :=
        createNewWindow_sound _
      rw [respWindows]
      dsimp only
      split_ifs
      · exact keepsSound_refl
      · exact hhead
      · exact hhead.append (ih _ _ _)

end Creation

section Handlers

variable {plat : Platform} {c : Client} {A : Set Nat}

theorem respHdlrDumpHistory_sound (alt : Bool) (p : Nat) (response : List UInt8)
    (hopen : (c.pane p).termWnd ∉ c.main.closed) (h : Sound c A) :
    Sound (respHdlrDumpHistory alt p response c) A := by
  unfold respHdlrDumpHistory
  dsimp only
  rw [Client.useTerminal_of_open hopen]
  split_ifs
  · refine (h.updateTerm hopen _).fromBackend ?_ _ _
    simpa [Client.updateTerm] using hopen
  · exact h.fromBackend hopen _ _
  · exact h

theorem respHdlrDumpTermState_sound (p : Nat) (response : List UInt8)
    (hopen : (c.pane p).termWnd ∉ c.main.closed) (h : Sound c A) :
    Sound (respHdlrDumpTermState plat p response c) A := by
  unfold respHdlrDumpTermState
  dsimp only
  rw [Client.useTerminal_of_open hopen]
  split_ifs
  · refine h.of_references ?_
    simp only [Client.references, References.mk.injEq, true_and, and_true]
    funext q
    by_cases hq : q = p
    · subst hq
      rw [Function.update_self]
    · rw [Function.update_of_ne hq]
  · exact h.of_references rfl

theorem paneCallback_sound (p : Nat) (hp : p ∈ A) (callback : TmuxCbIndex)
    (response : List UInt8) (h : Sound c A) :
    Sound (paneCallback plat p callback response c) A := by
  have hopen : (c.pane p).termWnd ∉ c.main.closed := h.addressedOpen p hp
  unfold paneCallback
  rw [h.usePane p]
  cases callback with
  | dumpTermState => exact respHdlrDumpTermState_sound p response hopen h
  | dumpHistory => exact respHdlrDumpHistory_sound false p response hopen h
  | dumpHistoryAlt => exact respHdlrDumpHistory_sound true p response hopen h
  | null => exact h
  | listWindows => exact h
  | openListedWindows => exact h
  | indexMax => exact h

/-- **Every callback.** -/
theorem performCallback_sound (receiver : Receiver) (hr : ∀ p, receiver = .pane p → p ∈ A)
    (callback : TmuxCbIndex) (response : List UInt8) :
    KeepsSound A c (performCallback plat receiver callback response c) := by
  cases receiver with
  | pane p => exact Sound.keeps (paneCallback_sound p (hr p rfl) callback response)
  | gateway =>
      cases callback with
      | listWindows => exact respWindows_sound true _ _ c A
      | openListedWindows => exact respWindows_sound false _ _ c A
      | null => exact keepsSound_refl
      | dumpTermState => exact keepsSound_refl
      | dumpHistory => exact keepsSound_refl
      | dumpHistoryAlt => exact keepsSound_refl
      | indexMax => exact keepsSound_refl

theorem main_fromBackend (t : Nat) (source : FeedSource) (bytes : List UInt8) :
    (c.fromBackend t source bytes).main = c.main := by
  simp [Client.fromBackend]

theorem pane_fromBackend (t : Nat) (source : FeedSource) (bytes : List UInt8) :
    (c.fromBackend t source bytes).pane = c.pane := by
  unfold Client.fromBackend Client.useTerminal
  split_ifs <;> rfl

theorem feedPieces_sound (p : Nat) (pieces : List (List UInt8))
    (hopen : (c.pane p).termWnd ∉ c.main.closed) (h : Sound c A) :
    Sound (pieces.foldl
      (fun c piece => c.fromBackend (c.pane p).termWnd .output piece) c) A := by
  induction pieces generalizing c with
  | nil => exact h
  | cons piece pieces ih =>
      refine ih ?_ (h.fromBackend hopen .output piece)
      rw [main_fromBackend, pane_fromBackend]
      exact hopen

theorem cmdHdlrOutput_sound (line : List UInt8) (h : Sound c A) :
    Sound (cmdHdlrOutput line c) A := by
  unfold cmdHdlrOutput
  dsimp only
  split_ifs
  · exact h
  split
  · exact h
  split
  · exact h
  · rename_i p hp
    rw [h.usePane p]
    split_ifs
    · exact h
    · exact feedPieces_sound p _ (h.mapOpen _ p hp) h

theorem cmdHdlrWindowRenamed_sound (line : List UInt8) (h : Sound c A) :
    Sound (cmdHdlrWindowRenamed plat line c) A := by
  unfold cmdHdlrWindowRenamed
  dsimp only
  split
  · exact h
  · rename_i p hp
    rw [h.usePane p]
    exact h.setSessionTitle (h.mapOpen _ p hp) _

theorem cmdHdlrWindowClose_sound (line : List UInt8) (h : Sound c A) :
    Sound (cmdHdlrWindowClose plat line c) A := by
  unfold cmdHdlrWindowClose
  dsimp only
  split
  · exact h
  · rename_i p hp
    rw [h.usePane p]
    exact h.erase (ledger_tabRemove _)

theorem cmdHdlrLayoutChange_sound (line : List UInt8) (h : Sound c A) :
    Sound (cmdHdlrLayoutChange plat line c) A := by
  unfold cmdHdlrLayoutChange
  dsimp only
  split_ifs
  · exact h
  · exact h.of_references rfl
  · exact h

/-- **Every notification.** -/
theorem notify_sound (n : Notification) (line : List UInt8) :
    KeepsSound A c (notify plat n line c) := by
  cases n with
  | output => exact Sound.keeps (cmdHdlrOutput_sound line)
  | sessionChanged =>
      unfold notify cmdHdlrSessionChanged
      dsimp only
      split
      · exact keepsSound_refl
      · refine keepsSound_gateway (fun h => h.of_references rfl) ?_
        simp [openWindowsInitial]
  | windowRenamed => exact Sound.keeps (cmdHdlrWindowRenamed_sound line)
  | windowAdd =>
      unfold notify cmdHdlrWindowAdd
      dsimp only
      split
      · exact keepsSound_refl
      · exact keepsSound_gateway id (by simp)
  | windowClose => exact Sound.keeps (cmdHdlrWindowClose_sound line)
  | layoutChange => exact Sound.keeps (cmdHdlrLayoutChange_sound line)
  | noop => exact keepsSound_refl
  | sessionsChanged => exact keepsSound_refl
  | exit => exact keepsSound_refl

end Handlers

theorem sound_init (plat : Platform) {main : GuiMainWindow} (h : main.ledger.Proper) :
    Sound (Client.init plat main) ∅ where
  fresh :=
    { terminalLt := fun p hp => absurd hp (Nat.not_lt_zero p)
      terminalInj := fun p hp => absurd hp (Nat.not_lt_zero p)
      mapLt := fun k p hk => by cases hk
      mapInj := fun j k p hj => by cases hj }
  addressedLt p hp := absurd hp (Set.notMem_empty p)
  mapOpen k p hk := by cases hk
  addressedOpen p hp := absurd hp (Set.notMem_empty p)
  deleted := rfl
  misuses := rfl
  proper := h

end Tmux
end Qutty
