import Qutty.Pane.Wiring

/-!
# Which terminals are open

The ghost records of open and closed terminals, in any main window: also in one
whose pane tree is not in order, as the tmux client leaves it behind.  Moving
panes around does not touch the records (`ledger_leaveSplit`,
`ledger_createSplitLayout`); `step_ledger` says what an operation does to them.
-/

namespace Qutty
namespace Pane
namespace GuiMainWindow

/-- The terminals created, open and closed. -/
structure Ledger where
  nextTerminal : Nat
  opened : List Nat
  closed : List Nat

def ledger (w : GuiMainWindow) : Ledger := ⟨w.nextTerminal, w.opened, w.closed⟩

section Moves

variable {w w' : GuiMainWindow} {b : GuiBase} {s t n : Nat} {split : SplitType}

theorem ledger_of_objects (h : w'.objects = w.objects) : w'.ledger = w.ledger :=
  congrArg (fun o : Objects => (⟨o.nextTerminal, o.opened, o.closed⟩ : Ledger)) h

theorem ledger_leaveParent : (w.leaveParent b).ledger = w.ledger :=
  ledger_of_objects (objects_leaveParent w b)

theorem ledger_addBaseWidget (i : Int) : (w.addBaseWidget s i b).ledger = w.ledger :=
  ledger_of_objects (objects_addBaseWidget w b s i)

theorem ledger_tabInsert (i : Int) : (w.tabInsert i b).ledger = w.ledger :=
  ledger_of_objects (objects_tabInsert w b i)

theorem ledger_tabRemove (i : Int) : (w.tabRemove i).ledger = w.ledger :=
  ledger_of_objects (objects_tabRemove w i)

theorem ledger_removeBaseWidget (h : w.removeBaseWidget s b = some w') :
    w'.ledger = w.ledger := by
  obtain ⟨rest, -, h⟩ := Option.bind_eq_some_iff.mp h
  cases h
  exact ledger_leaveParent

theorem ledger_addPair : (w.addPair s split t n).ledger = w.ledger := by
  unfold addPair
  split_ifs
  · exact (ledger_addBaseWidget 1).trans (ledger_addBaseWidget 0)
  · exact (ledger_addBaseWidget 1).trans (ledger_addBaseWidget 0)

theorem ledger_collapse (h : w.collapse s b = some w') : w'.ledger = w.ledger := by
  obtain ⟨w₁, hw₁, h⟩ := Option.bind_eq_some_iff.mp h
  rw [← ledger_removeBaseWidget hw₁]
  split at h
  · rename_i g _
    obtain ⟨rest, -, h⟩ := Option.bind_eq_some_iff.mp h
    cases h
    exact ledger_addBaseWidget (w := { w₁ with child := Function.update w₁.child g rest })
      (indexOf (w₁.widgets g) (.split s))
  · cases h
    exact (ledger_tabInsert (w₁.getTerminalTabInd (.split s))).trans
      (ledger_tabRemove (w₁.getTerminalTabInd (.split s)))

theorem ledger_removeSplitLayout (h : w.removeSplitLayout s t = some w') :
    w'.ledger = w.ledger := by
  obtain ⟨w₁, hw₁, h⟩ := Option.bind_eq_some_iff.mp h
  rw [← ledger_removeBaseWidget hw₁]
  split at h
  · exact ledger_collapse h
  · cases h
    rfl

theorem ledger_leaveSplit (h : w.leaveSplit t = some w') : w'.ledger = w.ledger := by
  unfold leaveSplit at h
  split at h
  · exact ledger_removeSplitLayout h
  · cases h
    rfl

theorem ledger_createSplitLayout (h : w.createSplitLayout t split n = some w') :
    w'.ledger = w.ledger := by
  unfold createSplitLayout at h
  split at h
  · cases h
    refine (ledger_tabInsert _).trans (ledger_addPair.trans ?_)
    exact ledger_tabRemove (w := w) _
  · unfold splitterCreateSplitLayout at h
    dsimp only at h
    split_ifs at h
    · obtain ⟨w₁, hw₁, h⟩ := Option.bind_eq_some_iff.mp h
      cases h
      refine ledger_addPair.trans ((ledger_removeBaseWidget hw₁).trans ?_)
      exact ledger_addBaseWidget _
    · cases h
      exact ledger_addBaseWidget _
    · cases h
      exact ledger_addBaseWidget _

theorem ledger_setupLayoutLeaf (i : Int) : (w.setupLayoutLeaf n i).ledger = w.ledger :=
  (ledger_tabInsert (w := w.leaveParent (.term n)) (b := .term n) i).trans ledger_leaveParent

theorem ledger_mainCloseTerminal : (w.mainCloseTerminal t).ledger = w.ledger := by
  unfold mainCloseTerminal
  dsimp only
  split_ifs
  · exact ledger_tabRemove (w := { w with
      terminalList := w.terminalList.filter (fun x => x ≠ t) }) _
  · rfl

/-- Closing a terminal. -/
theorem ledger_closeTerminal (h : w.closeTerminal t = some w') :
    w'.ledger = ⟨w.nextTerminal, w.opened.erase t, w.closed ++ [t]⟩ := by
  obtain ⟨w₁, hw₁, h⟩ := Option.bind_eq_some_iff.mp h
  cases h
  have hl := (ledger_mainCloseTerminal (t := t)).trans (ledger_leaveSplit hw₁)
  have hnext := congrArg Ledger.nextTerminal hl
  have hopened := congrArg Ledger.opened hl
  have hclosed := congrArg Ledger.closed hl
  simp only [ledger] at hnext hopened hclosed
  simp only [ledger, recordClosed, hnext, hopened, hclosed]

end Moves

/-- What an operation does to the records. -/
inductive LedgerStep (l : Ledger) : PaneOp → Ledger → Prop where
  | same (op : PaneOp) : LedgerStep l op l
  | opens (op : PaneOp) :
      LedgerStep l op ⟨l.nextTerminal + 1, l.opened ++ [l.nextTerminal], l.closed⟩
  | closes (t : Nat) : t ∈ l.opened →
      LedgerStep l (.close t) ⟨l.nextTerminal, l.opened.erase t, l.closed ++ [t]⟩

/-- **One operation.** -/
theorem step_ledger {w w' : GuiMainWindow} {op : PaneOp} (h : w.step op = some w') :
    LedgerStep w.ledger op w'.ledger := by
  obtain ⟨w₁, hw₁, rfl⟩ := Option.map_eq_some_iff.mp h
  change LedgerStep w.ledger op w₁.ledger
  cases op with
  | openTab =>
      cases hw₁
      rw [ledger_setupLayoutLeaf]
      exact .opens _
  | split t type =>
      simp only [perform] at hw₁
      split_ifs at hw₁
      · obtain ⟨w₂, hw₂, h⟩ := Option.bind_eq_some_iff.mp hw₁
        cases h
        have hl : w₂.ledger = w.newTerminal.ledger := ledger_createSplitLayout hw₂
        change LedgerStep w.ledger _ w₂.ledger
        rw [hl]
        exact .opens _
      · cases hw₁
        exact .same _
  | close t =>
      simp only [perform] at hw₁
      split_ifs at hw₁ with ht
      · rw [ledger_closeTerminal hw₁]
        exact .closes t ht
      · cases hw₁
        exact .same _
  | dropOnTerminal dropped dst type =>
      simp only [perform] at hw₁
      split_ifs at hw₁
      · obtain ⟨w₂, hw₂, h⟩ := Option.bind_eq_some_iff.mp hw₁
        rw [ledger_createSplitLayout h, ledger_leaveSplit hw₂]
        exact .same _
      · cases hw₁
        exact .same _
  | dropOnTabBar dropped tabind type =>
      simp only [perform] at hw₁
      split at hw₁
      · obtain ⟨w₂, hw₂, h⟩ := Option.bind_eq_some_iff.mp hw₁
        cases h
        rw [ledger_setupLayoutLeaf, ledger_leaveSplit hw₂]
        exact .same _
      · cases hw₁
        exact .same _

/-- No terminal is closed twice: open and closed terminals are different ones,
and have been created. -/
structure Ledger.Proper (l : Ledger) : Prop where
  openedNodup : l.opened.Nodup
  closedNodup : l.closed.Nodup
  disjoint : ∀ t ∈ l.opened, t ∉ l.closed
  openedLt : ∀ t ∈ l.opened, t < l.nextTerminal
  closedLt : ∀ t ∈ l.closed, t < l.nextTerminal

namespace Ledger

variable {l l' : Ledger}

theorem Proper.opens (h : l.Proper) :
    Proper ⟨l.nextTerminal + 1, l.opened ++ [l.nextTerminal], l.closed⟩ where
  openedNodup := by
    refine List.nodup_append.mpr ⟨h.openedNodup, List.nodup_singleton _, ?_⟩
    rintro t ht _ hmem rfl
    rw [List.mem_singleton] at hmem
    exact absurd (h.openedLt t ht) (by omega)
  closedNodup := h.closedNodup
  disjoint t ht := by
    rcases List.mem_append.mp ht with ht | ht
    · exact h.disjoint t ht
    · rw [List.mem_singleton] at ht
      intro hc
      exact absurd (h.closedLt t hc) (by omega)
  openedLt t ht := by
    rcases List.mem_append.mp ht with ht | ht
    · exact Nat.lt_succ_of_lt (h.openedLt t ht)
    · rw [List.mem_singleton.mp ht]
      exact Nat.lt_succ_self _
  closedLt t ht := Nat.lt_succ_of_lt (h.closedLt t ht)

/-- A terminal that has not been closed can be closed. -/
theorem Proper.closes {t : Nat} (h : l.Proper) (ht : t ∉ l.closed) (hlt : t < l.nextTerminal) :
    Proper ⟨l.nextTerminal, l.opened.erase t, l.closed ++ [t]⟩ where
  openedNodup := h.openedNodup.erase t
  closedNodup := by
    refine List.nodup_append.mpr ⟨h.closedNodup, List.nodup_singleton _, ?_⟩
    rintro x hx _ hmem rfl
    rw [List.mem_singleton] at hmem
    exact ht (hmem ▸ hx)
  disjoint x hx := by
    have hx' := (h.openedNodup.mem_erase_iff.mp hx)
    intro hc
    rcases List.mem_append.mp hc with hc | hc
    · exact h.disjoint x hx'.2 hc
    · exact hx'.1 (List.mem_singleton.mp hc)
  openedLt x hx := h.openedLt x (List.mem_of_mem_erase hx)
  closedLt x hx := by
    rcases List.mem_append.mp hx with hx | hx
    · exact h.closedLt x hx
    · rw [List.mem_singleton.mp hx]
      exact hlt

theorem Proper.step {op : PaneOp} (h : l.Proper) (hs : LedgerStep l op l') : l'.Proper := by
  cases hs with
  | same => exact h
  | opens => exact h.opens
  | closes t ht => exact h.closes (h.disjoint t ht) (h.openedLt t ht)

end Ledger

theorem proper_init : init.ledger.Proper where
  openedNodup := List.nodup_nil
  closedNodup := List.nodup_nil
  disjoint := by simp [ledger, init]
  openedLt := by simp [ledger, init]
  closedLt := by simp [ledger, init]

end GuiMainWindow
end Pane
end Qutty
