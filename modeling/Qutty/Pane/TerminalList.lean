import Qutty.Pane.Operations

/-!
# The list of terminals

`GuiMainWindow::terminalList` is kept apart from the pane trees: `setupLayout`
appends to it and `closeTerminal` removes all occurrences.  `closeEvent` goes
through it to close every terminal.

The drop on the tab bar calls `setupLayout` for a terminal that is in the list
already, and so the terminal is listed twice from then on.  Nothing else
duplicates an entry (`run_terminalListExact_iff`).
-/

namespace Qutty
namespace Pane

namespace GuiMainWindow

/-- The list holds each open terminal once and nothing else. -/
def TerminalListExact (w : GuiMainWindow) : Prop :=
  ∀ t, w.terminalList.count t = if t ∈ w.opened then 1 else 0

/-- The operation is a drop on the tab bar that takes place. -/
def DropsOnTabBar (w : GuiMainWindow) : PaneOp → Prop
  | .dropOnTabBar dropped tabind type =>
      w.moved (.dropOnTabBar dropped tabind type) = some dropped
  | _ => False

/-- The list, and the terminals that should be in it. -/
def registry (w : GuiMainWindow) : List Nat × List Nat :=
  (w.terminalList, w.opened)

section Frames

variable {w w' : GuiMainWindow} {s t n : Nat} {b : GuiBase} {i : Int} {split : SplitType}

@[simp] theorem registry_leaveParent : (w.leaveParent b).registry = w.registry := by
  unfold leaveParent
  dsimp only
  split_ifs <;> rfl

@[simp] theorem registry_tabInsert : (w.tabInsert i b).registry = w.registry :=
  registry_leaveParent

@[simp] theorem registry_tabRemove : (w.tabRemove i).registry = w.registry := by
  unfold tabRemove
  split_ifs <;> rfl

@[simp] theorem registry_addBaseWidget :
    (w.addBaseWidget s i b).registry = w.registry :=
  registry_leaveParent (w := { w with
    child := Function.update w.child s (w.child s ++ [b])
    parentSplit := Function.update w.parentSplit b (some s) })

@[simp] theorem registry_newSplitter (o : Orientation) :
    (w.newSplitter o).registry = w.registry := rfl

@[simp] theorem registry_addPair :
    (w.addPair s split t n).registry = w.registry := by
  unfold addPair
  split_ifs <;> simp

theorem registry_removeBaseWidget (h : w.removeBaseWidget s b = some w') :
    w'.registry = w.registry := by
  obtain ⟨rest, -, h⟩ := Option.bind_eq_some_iff.mp h
  cases h
  exact registry_leaveParent

theorem registry_collapse (h : w.collapse s b = some w') :
    w'.registry = w.registry := by
  obtain ⟨w₁, hw₁, h⟩ := Option.bind_eq_some_iff.mp h
  rw [← registry_removeBaseWidget hw₁]
  split at h
  · rename_i g _
    obtain ⟨rest, -, h⟩ := Option.bind_eq_some_iff.mp h
    cases h
    exact registry_addBaseWidget (i := indexOf (w₁.widgets g) (.split s))
  · cases h
    exact (registry_tabInsert (i := w₁.getTerminalTabInd (.split s))).trans registry_tabRemove

theorem registry_leaveSplit (h : w.leaveSplit t = some w') :
    w'.registry = w.registry := by
  unfold leaveSplit at h
  split at h
  · obtain ⟨w₁, hw₁, h⟩ := Option.bind_eq_some_iff.mp h
    rw [← registry_removeBaseWidget hw₁]
    split at h
    · exact registry_collapse h
    · cases h
      rfl
  · cases h
    rfl

theorem registry_createSplitLayout (h : w.createSplitLayout t split n = some w') :
    w'.registry = w.registry := by
  unfold createSplitLayout at h
  split at h
  · cases h
    simp
  · unfold splitterCreateSplitLayout at h
    dsimp only at h
    split_ifs at h
    · obtain ⟨w₁, hw₁, h⟩ := Option.bind_eq_some_iff.mp h
      cases h
      rw [registry_addPair, registry_removeBaseWidget hw₁]
      simp [newSplitterIn]
    · cases h
      simp
    · cases h
      simp

end Frames

section Runs

variable {w w' : GuiMainWindow} {op : PaneOp}

theorem registry_eq {l o : List Nat} :
    w.registry = (l, o) ↔ w.terminalList = l ∧ w.opened = o := by
  simp [registry]

theorem terminalListExact_congr (h : w'.registry = w.registry) :
    w'.TerminalListExact ↔ w.TerminalListExact := by
  obtain ⟨hlist, hopen⟩ := registry_eq.mp h
  unfold TerminalListExact
  rw [hlist, hopen]

/-- A new terminal is appended. -/
theorem TerminalListExact.append (he : w.TerminalListExact) (h : w.Panes [])
    (hr : w'.registry = (w.terminalList ++ [w.nextTerminal], w.opened ++ [w.nextTerminal])) :
    w'.TerminalListExact := by
  intro t
  obtain ⟨hlist, hopen⟩ := registry_eq.mp hr
  have hnew : w.nextTerminal ∉ w.opened := fun hm => (h.openedLt _ hm).ne rfl
  rw [hlist, hopen, List.count_append, he t]
  by_cases ht : t = w.nextTerminal
  · subst ht
    simp [hnew]
  · simp [ht, Ne.symm ht]

/-- A closed terminal leaves with all its entries. -/
theorem TerminalListExact.close (he : w.TerminalListExact) (h : w.Panes []) {t : Nat}
    (hr : w'.registry = (w.terminalList.filter (fun x => x ≠ t), w.opened.erase t)) :
    w'.TerminalListExact := by
  intro u
  obtain ⟨hlist, hopen⟩ := registry_eq.mp hr
  rw [hlist, hopen]
  by_cases hu : u = t
  · subst hu
    have hout : u ∉ w.opened.erase u := fun hm => (h.openedNodup.mem_erase_iff.mp hm).1 rfl
    simp [List.count_eq_zero, hout]
  · rw [List.count_filter (by simpa using hu), he u]
    simp [h.openedNodup.mem_erase_iff, hu]

/-- A terminal that is appended once more is listed twice. -/
theorem TerminalListExact.not_again (he : w.TerminalListExact) {t : Nat} (ht : t ∈ w.opened)
    (hr : w'.registry = (w.terminalList ++ [t], w.opened)) : ¬ w'.TerminalListExact := by
  intro he'
  obtain ⟨hlist, hopen⟩ := registry_eq.mp hr
  have hcount := he' t
  rw [hlist, hopen, List.count_append, he t, if_pos ht] at hcount
  simp at hcount

theorem registry_setupLayoutLeaf (n : Nat) (i : Int) :
    (w.setupLayoutLeaf n i).registry = (w.terminalList ++ [n], w.opened) := by
  have hr : ((w.leaveParent (.term n)).tabInsert i (.term n)).registry = w.registry := by simp
  exact congrArg (fun r : List Nat × List Nat => (r.1 ++ [n], r.2)) hr

theorem registry_mainCloseTerminal (t : Nat) :
    (w.mainCloseTerminal t).registry = (w.terminalList.filter (fun x => x ≠ t), w.opened) := by
  unfold mainCloseTerminal
  dsimp only
  split_ifs
  · exact registry_tabRemove (w := { w with
      terminalList := w.terminalList.filter (fun x => x ≠ t) })
  · rfl

/-- What an operation does to the list, and to the open terminals. -/
inductive Registers (w : GuiMainWindow) (op : PaneOp) : List Nat × List Nat → Prop where
  | same (hd : ¬ w.DropsOnTabBar op) : Registers w op w.registry
  | new (hd : ¬ w.DropsOnTabBar op) :
      Registers w op (w.terminalList ++ [w.nextTerminal], w.opened ++ [w.nextTerminal])
  | close (hd : ¬ w.DropsOnTabBar op) {t : Nat} (ht : t ∈ w.opened) :
      Registers w op (w.terminalList.filter (fun x => x ≠ t), w.opened.erase t)
  | again (hd : w.DropsOnTabBar op) {t : Nat} (ht : t ∈ w.opened) :
      Registers w op (w.terminalList ++ [t], w.opened)

theorem registers_perform (hp : w.perform op = some w') : w.Registers op w'.registry := by
  cases op with
  | openTab =>
      cases hp
      rw [registry_setupLayoutLeaf]
      exact .new id
  | split t type =>
      by_cases ht : t ∈ w.opened
      · rw [perform, if_pos ht] at hp
        obtain ⟨w₁, hw₁, hp⟩ := Option.bind_eq_some_iff.mp hp
        cases hp
        have hr : (w₁.terminalList ++ [w.nextTerminal], w₁.opened) =
            (w.terminalList ++ [w.nextTerminal], w.opened ++ [w.nextTerminal]) :=
          congrArg (fun r : List Nat × List Nat => (r.1 ++ [w.nextTerminal], r.2))
            (registry_createSplitLayout hw₁)
        change w.Registers _ (w₁.terminalList ++ [w.nextTerminal], w₁.opened)
        rw [hr]
        exact .new id
      · rw [perform, if_neg ht] at hp
        cases hp
        exact .same id
  | close t =>
      by_cases ht : t ∈ w.opened
      · rw [perform, if_pos ht] at hp
        obtain ⟨w₁, hw₁, hp⟩ := Option.bind_eq_some_iff.mp hp
        cases hp
        obtain ⟨hlist, hopen⟩ := registry_eq.mp (registry_leaveSplit hw₁)
        have hr : ((w₁.mainCloseTerminal t).recordClosed t).registry =
            (w.terminalList.filter (fun x => x ≠ t), w.opened.erase t) := by
          rw [← hlist, ← hopen]
          exact congrArg (fun r : List Nat × List Nat => (r.1, r.2.erase t))
            (registry_mainCloseTerminal t)
        exact hr ▸ .close id ht
      · rw [perform, if_neg ht] at hp
        cases hp
        exact .same id
  | dropOnTerminal dropped dst type =>
      by_cases hopen : dropped ∈ w.opened ∧ dst ∈ w.opened ∧ dropped ≠ dst
      · rw [perform, if_pos hopen] at hp
        obtain ⟨w₁, hw₁, hp⟩ := Option.bind_eq_some_iff.mp hp
        rw [registry_createSplitLayout hp, registry_leaveSplit hw₁]
        exact .same id
      · rw [perform, if_neg hopen] at hp
        cases hp
        exact .same id
  | dropOnTabBar dropped tabind type =>
      by_cases hopen : dropped ∈ w.opened ∧ (type = .left ∨ type = .right) ∧ tabind ≠ -1
      · have hdrops : w.DropsOnTabBar (.dropOnTabBar dropped tabind type) := if_pos hopen
        rw [perform, if_pos hopen] at hp
        obtain ⟨w₁, hw₁, hp⟩ := Option.bind_eq_some_iff.mp hp
        cases hp
        obtain ⟨hlist, hsame⟩ := registry_eq.mp (registry_leaveSplit hw₁)
        rw [registry_setupLayoutLeaf, hlist, hsame]
        exact .again hdrops hopen.1
      · rw [perform, if_neg hopen] at hp
        cases hp
        refine .same ?_
        simp [DropsOnTabBar, moved, hopen]

/-- An operation keeps the list exact unless it is a drop on the tab bar. -/
theorem terminalListExact_perform (h : w.Panes []) (hp : w.perform op = some w')
    (he : w.TerminalListExact) : w'.TerminalListExact ↔ ¬ w.DropsOnTabBar op := by
  generalize hr : w'.registry = r
  cases hr ▸ registers_perform hp with
  | same hd => exact iff_of_true ((terminalListExact_congr hr).mpr he) hd
  | new hd => exact iff_of_true (he.append h hr) hd
  | close hd ht => exact iff_of_true (he.close h hr) hd
  | again hd ht => exact iff_of_false (he.not_again ht hr) (not_not.mpr hd)

/-- **The list of terminals is exact all along a run if and only if no terminal is
dropped on the tab bar.** -/
theorem run_terminalListExact_iff (ops : List PaneOp) :
    (∀ pre, pre <+: ops → ∀ w, init.run pre = some w → w.TerminalListExact) ↔
      ∀ pre op, pre ++ [op] <+: ops → ∀ w, init.run pre = some w → ¬ w.DropsOnTabBar op := by
  refine run_forall_iff (I := TerminalListExact) ?_ ?_ ?_ ?_ ops
  · intro t
    simp [init]
  · intro w _ he
    exact he
  · intro w op w' h hw' _ _ he hc
    exact (terminalListExact_perform h hw' he).mpr hc
  · intro w op w' h hw' _ _ he he'
    exact (terminalListExact_perform h hw' he).mp he'

/-- A tab that is dropped on the tab bar is listed twice. -/
theorem not_terminalListExact_tabBar :
    ∃ w, init.run [.openTab, .dropOnTabBar 0 0 .left] = some w ∧ ¬ w.TerminalListExact := by
  refine ⟨_, (Option.some_get (by decide)).symm, fun he => ?_⟩
  have hcount := he 0
  revert hcount
  decide

end Runs

end GuiMainWindow

end Pane
end Qutty
