import Qutty.Lib.Runs
import Qutty.Pane.TabIndex
import Qutty.Pane.TerminalList
import Qutty.Tmux.Realisation

/-!
# The main window with tmux gateways

Besides the operations on the layout there are those of a tmux gateway: a terminal
that turns out to be a gateway is hidden, although it stays open, and the gateway
creates a tab for every window of its session.  `Navigation.MainWindow` keeps the
hidden terminals apart from the layout, whose invariant they are not part of.

`Sound` is what a run keeps whose steps meet `Fits`: drops that leave the right
indices, and windows of new panes without a split inside another one.
-/

namespace Qutty
namespace Navigation

open Lib Pane Tmux

/-- A main window; `hidden` are the open terminals without a tab, which are not among the
`opened` ones of the layout. -/
structure MainWindow where
  layout : GuiMainWindow
  hidden : List Nat

/-- What happens to a main window.  A gateway has its own panes, whatever they are. -/
inductive WindowOp where
  | layout (op : PaneOp)
  | hideTerminal (t : Nat)
  | closeHidden (t : Nat)
  | createNewWindow (gateway : Client) (id : Int) (name : List UInt8) (l : TmuxLayout)

namespace MainWindow

/-- An empty main window. -/
def init : MainWindow := ⟨GuiMainWindow.init, []⟩

/-- `GuiMainWindow::hideTerminal`, on the layout. -/
def hideInLayout (w : GuiMainWindow) (t : Nat) : GuiMainWindow :=
  let ind := indexOf w.tabs (.term t)
  if ind ≠ -1 then (w.tabRemove ind).onTabLayoutChanged else w

/-- `GuiMainWindow::hideTerminal`.  A terminal in a splitter stays where it is. -/
def hideTerminal (m : MainWindow) (t : Nat) : MainWindow :=
  let w := hideInLayout m.layout t
  if .term t ∈ m.layout.tabs then
    { layout := { w with opened := w.opened.erase t }, hidden := t :: m.hidden }
  else { m with layout := w }

/-- One step.  What concerns terminals that are not open does not occur. -/
def step (plat : Platform) (m : MainWindow) : WindowOp → Option MainWindow
  | .layout op => (m.layout.step op).map (fun w => { m with layout := w })
  | .hideTerminal t => some (if t ∈ m.layout.opened then m.hideTerminal t else m)
  | .closeHidden t =>
      if t ∈ m.hidden then
        (m.layout.closeTerminal t).map
          (fun w => { layout := w, hidden := m.hidden.filter (fun u => u ≠ t) })
      else some m
  | .createNewWindow gateway id name l =>
      let c := { gateway with main := m.layout }
      some { m with layout := (createNewWindowPane plat id name l none c).1.main }

/-- The layout is one of a window that `createNewWindowPane` shows: its panes are new, and
it is one pane, or a split of some. -/
structure NewPanes (gateway : Client) (l : TmuxLayout) : Prop where
  running : gateway.stopped = false
  shape : l.layoutType = .leaf ∨
    (∃ orient, l.layoutType = splitterType orient) ∧
      (∀ l' ∈ l.child, l'.layoutType = .leaf) ∧ 2 ≤ l.child.length
  unknown : ∀ k ∈ paneIds l, gateway.mapPanes.find k = none
  distinct : (paneIds l).Nodup

/-- The steps that leave the indices of the tabs right. -/
def Fits (m : MainWindow) : WindowOp → Prop
  | .layout op => m.layout.KeepsCache op
  | .hideTerminal _ => True
  | .closeHidden _ => True
  | .createNewWindow gateway _ _ l => NewPanes gateway l

/-- The invariant of such steps. -/
structure Sound (m : MainWindow) : Prop where
  panes : m.layout.Panes []
  indexed : m.layout.Indexed
  listed : ∀ t, t ∈ m.layout.terminalList ↔ t ∈ m.layout.opened ∨ t ∈ m.hidden
  apart : ∀ t ∈ m.hidden, t ∉ m.layout.opened ∧ t < m.layout.nextTerminal

section NewTab

open Pane.GuiMainWindow

variable {w w' : GuiMainWindow} {n : Nat}

/-- `n` new terminals, in the order in which they are created. -/
def newTerminals (w : GuiMainWindow) (n : Nat) : List Nat := List.range' w.nextTerminal n

/-- A tab with a new splitter that has `n` new terminals. -/
structure NewTab (w w' : GuiMainWindow) (n : Nat) : Prop where
  wired : w'.Wired
  cached : w'.Cached
  child : w'.child = Function.update w.child w.nextSplitter
    ((newTerminals w n).map GuiBase.term)
  tabs : w'.tabs = w.tabs ++ [.split w.nextSplitter]
  nextTerminal : w'.nextTerminal = w.nextTerminal + n
  nextSplitter : w'.nextSplitter = w.nextSplitter + 1
  dying : w'.dying = w.dying
  opened : w'.opened = w.opened ++ newTerminals w n
  terminalList : w'.terminalList = w.terminalList ++ newTerminals w n

theorem newTerminals_succ :
    newTerminals w (n + 1) = newTerminals w n ++ [w.nextTerminal + n] := by
  rw [newTerminals, List.range'_1_concat]
  rfl

theorem NewTab.start (h : w.Panes []) (orient : Orientation) :
    NewTab w ((newGuiSplitter w orient none).tabInsert (-1) (.split w.nextSplitter)) 0 := by
  obtain ⟨hchild, hparent, htabs⟩ := h.fresh w.nextSplitter le_rfl
  have hnew := h.newSplitter orient
  have hobj := objects_tabInsert (w.newSplitter orient) (.split w.nextSplitter) (-1)
  refine
    { wired := hnew.tabInsert ?_ ?_
      cached := cached_tabInsert
      child := ?_
      tabs := ?_
      nextTerminal := congrArg Objects.nextTerminal hobj
      nextSplitter := congrArg Objects.nextSplitter hobj
      dying := congrArg Objects.dying hobj
      opened := (congrArg Objects.opened hobj).trans (List.append_nil _).symm
      terminalList := ?_ }
  · rw [h.parentSplit_newSplitter]
    exact hparent
  · rintro s' heq
    cases heq
    exact Nat.lt_succ_self _
  · rw [child_tabInsert]
    rfl
  · refine (tabs_tabInsert ..).trans ?_
    change insertAt (-1) _ (w.tabs.erase _) = _
    rw [List.erase_of_not_mem htabs]
    rfl
  · have hr := registry_tabInsert (w := w.newSplitter orient) (i := -1)
      (b := .split w.nextSplitter)
    exact (registry_eq.mp hr).1.trans (List.append_nil _).symm

/-- A terminal that is not created yet is nowhere. -/
theorem NewTab.free (h : w.Panes []) (hn : NewTab w w' n) :
    .term w'.nextTerminal ∉ w'.tabs ∧ w'.parentSplit (.term w'.nextTerminal) = none := by
  have hno : ¬ w.Hung (.term (w.nextTerminal + n)) := by
    intro hm
    exact absurd (h.openedLt _ ((h.placed _ (by simp)).mp hm)) (by omega)
  rw [hn.nextTerminal]
  constructor
  · rw [hn.tabs, List.mem_append]
    rintro (hm | hm)
    · exact hno (.inl hm)
    · simp at hm
  · by_contra hne
    obtain ⟨q, hq⟩ := Option.ne_none_iff_exists'.mp hne
    have hm := hn.wired.parentSplit_iff.mp hq
    rw [hn.child, Function.update_apply] at hm
    split_ifs at hm
    · obtain ⟨u, hu, heq⟩ := List.mem_map.mp hm
      cases heq
      have hlt := (List.mem_range'_1.mp hu).2
      omega
    · exact hno (.inr ⟨q, hm⟩)

/-- One more terminal. -/
theorem NewTab.add (h : w.Panes []) (hn : NewTab w w' n) :
    NewTab w (setupLayout w'.newTerminal w'.nextTerminal (some w.nextSplitter)) (n + 1) := by
  obtain ⟨htabs, hparent⟩ := hn.free h
  have hw := hn.wired
  have hnew : w'.newTerminal.Wired :=
    ⟨hw.linked, hw.below, hw.fresh, hw.shown, hw.tabsNodup, hw.roots, hw.cache⟩
  have hlt : w.nextSplitter < w'.newTerminal.nextSplitter := by
    rw [show w'.newTerminal.nextSplitter = w'.nextSplitter from rfl, hn.nextSplitter]
    exact Nat.lt_succ_self _
  have hadd := hnew.addBaseWidget (i := -1) (b := .term w'.nextTerminal) hlt hparent (by simp)
  have hobj := objects_addBaseWidget w'.newTerminal (.term w'.nextTerminal) w.nextSplitter (-1)
  have hreg := registry_eq.mp (registry_addBaseWidget (w := w'.newTerminal)
    (s := w.nextSplitter) (i := -1) (b := .term w'.nextTerminal))
  refine
    { wired := (hadd.terminalList _).onTabLayoutChanged
      cached := rfl
      child := ?_
      tabs := ?_
      nextTerminal := ?_
      nextSplitter := (congrArg Objects.nextSplitter hobj).trans hn.nextSplitter
      dying := (congrArg Objects.dying hobj).trans hn.dying
      opened := ?_
      terminalList := ?_ }
  · refine (child_addBaseWidget w'.newTerminal _ _ (-1)).trans ?_
    change Function.update w'.child _ (w'.child _ ++ _) = _
    rw [hn.child, Function.update_self, Function.update_idem, newTerminals_succ, List.map_append,
      hn.nextTerminal]
    rfl
  · refine (tabs_addBaseWidget w'.newTerminal _ _ (-1)).trans ?_
    change w'.tabs.erase _ = _
    rw [List.erase_of_not_mem htabs, hn.tabs]
  · refine (congrArg Objects.nextTerminal hobj).trans ?_
    change w'.nextTerminal + 1 = _
    rw [hn.nextTerminal, Nat.add_assoc]
  · refine (congrArg Objects.opened hobj).trans ?_
    change w'.opened ++ [w'.nextTerminal] = _
    rw [hn.opened, hn.nextTerminal, newTerminals_succ, List.append_assoc]
  · change GuiMainWindow.terminalList _ ++ [w'.nextTerminal] = _
    rw [hreg.1]
    change w'.terminalList ++ _ = _
    rw [hn.terminalList, hn.nextTerminal, newTerminals_succ, List.append_assoc]

/-- With two terminals the tab is complete. -/
theorem NewTab.panes (h : w.Panes []) (hn : NewTab w w' n) (htwo : 2 ≤ n) : w'.Panes [] := by
  have hchild : ∀ q, w'.child q =
      if q = w.nextSplitter then (newTerminals w n).map GuiBase.term else w.child q := by
    intro q
    rw [hn.child, Function.update_apply]
  have hlen : ((newTerminals w n).map GuiBase.term).length = n := by simp [newTerminals]
  obtain ⟨hold, -, -⟩ := h.fresh w.nextSplitter le_rfl
  refine
    { hn.wired with
      sized := fun q => ?_
      placed := fun b _ => ?_
      dead := fun s hs => ?_
      openedNodup := ?_
      openedLt := fun t ht => ?_ }
  · rw [hchild]
    split_ifs
    · exact .inr (hlen.ge.trans' htwo)
    · exact h.sized q
  · have hlive := h.placed b (by simp)
    cases b with
    | term t =>
        have hhung : w'.Hung (.term t) ↔ w.Hung (.term t) ∨ t ∈ newTerminals w n := by
          simp only [Hung, hn.tabs, List.mem_append, hchild]
          constructor
          · rintro ((hm | hm) | ⟨q, hm⟩)
            · exact .inl (.inl hm)
            · simp at hm
            · split_ifs at hm
              · exact .inr (by simpa using hm)
              · exact .inl (.inr ⟨q, hm⟩)
          · rintro ((hm | ⟨q, hm⟩) | hm)
            · exact .inl (.inl hm)
            · refine .inr ⟨q, ?_⟩
              rwa [if_neg (h.lt_of_mem hm).ne]
            · refine .inr ⟨w.nextSplitter, ?_⟩
              rw [if_pos rfl]
              exact List.mem_map_of_mem hm
        rw [hhung, hlive, Live, Live, hn.opened, List.mem_append]
    | split q =>
        have hhung : w'.Hung (.split q) ↔ w.Hung (.split q) ∨ q = w.nextSplitter := by
          simp only [Hung, hn.tabs, List.mem_append, hchild]
          constructor
          · rintro ((hm | hm) | ⟨p, hm⟩)
            · exact .inl (.inl hm)
            · exact .inr (by simpa using hm)
            · split_ifs at hm
              · simp at hm
              · exact .inl (.inr ⟨p, hm⟩)
          · rintro ((hm | ⟨p, hm⟩) | rfl)
            · exact .inl (.inl hm)
            · refine .inr ⟨p, ?_⟩
              rwa [if_neg (h.lt_of_mem hm).ne]
            · exact .inl (.inr (List.mem_singleton.mpr rfl))
        rw [hhung, hlive, Live, Live, hchild]
        by_cases hq : q = w.nextSplitter
        · have hne : (newTerminals w n).map GuiBase.term ≠ [] :=
            List.ne_nil_of_length_pos (by omega)
          simp [hq, hne]
        · simp [hq]
  · rw [hn.dying] at hs
    obtain ⟨hlt, hnil⟩ := h.dead s hs
    rw [hn.nextSplitter, hchild, if_neg hlt.ne]
    exact ⟨Nat.lt_succ_of_lt hlt, hnil⟩
  · rw [hn.opened]
    refine List.nodup_append.mpr ⟨h.openedNodup, List.nodup_range', ?_⟩
    rintro u hu v hv rfl
    have hlt := h.openedLt u hu
    have hge := (List.mem_range'_1.mp hv).1
    omega
  · rw [hn.nextTerminal]
    rw [hn.opened, List.mem_append] at ht
    rcases ht with ht | ht
    · exact (h.openedLt t ht).trans_le (Nat.le_add_right _ _)
    · exact (List.mem_range'_1.mp ht).2

/-- The loop over new panes adds a terminal for each. -/
theorem NewTab.createChildren (h : w.Panes []) (plat : Platform) (id : Int) (name : List UInt8)
    {ls : List TmuxLayout} {c : Client} (hleaf : ∀ l ∈ ls, l.layoutType = .leaf)
    (hnew : ∀ l ∈ ls, c.mapPanes.find (toInt l.paneid) = none)
    (hdistinct : (ls.map (fun l => toInt l.paneid)).Nodup) (hr : c.stopped = false)
    (hn : NewTab w c.main n) :
    NewTab w (createChildren plat id name ls w.nextSplitter c).1.main (n + ls.length) := by
  induction ls generalizing c n with
  | nil => exact hn
  | cons l ls ih =>
      have hcreate : createNewWindowPane plat id name l (some w.nextSplitter) c =
          createPane plat id name l (some w.nextSplitter) c := by
        rw [createNewWindowPane_leaf (hleaf l (by simp)), createLeaf, hnew l (by simp)]
      have hrun : (createPane plat id name l (some w.nextSplitter) c).1.stopped = false := hr
      rw [List.map_cons, List.nodup_cons] at hdistinct
      rw [Tmux.createChildren, hcreate]
      simp only [hrun, Bool.false_eq_true, if_false]
      have hlen : n + (l :: ls).length = n + 1 + ls.length := by
        rw [List.length_cons]
        omega
      rw [hlen]
      refine ih (fun l' hl' => hleaf l' (by simp [hl'])) (fun l' hl' => ?_) hdistinct.2 hrun
        (hn.add h)
      have hne : toInt l.paneid ≠ toInt l'.paneid := by
        intro heq
        exact hdistinct.1 (List.mem_map.mpr ⟨l', hl', heq.symm⟩)
      refine (OrderedMap.find_insert ..).trans ?_
      rw [if_neg hne]
      exact hnew l' (by simp [hl'])

end NewTab

section Steps

variable {m m' : MainWindow} {t : Nat} {op : WindowOp} {w w' : GuiMainWindow}

theorem nextTerminal_left (h : w.Panes []) (hl : GuiMainWindow.Left w t w') :
    w'.nextTerminal = w.nextTerminal := by
  rcases hl with ⟨rfl, -⟩ | ⟨s, -, hl⟩
  · rfl
  · obtain ⟨ds, hobj, -⟩ := hl.objects_eq h.toWired
    exact congrArg GuiMainWindow.Objects.nextTerminal hobj

/-- Terminals are numbered in the order of their creation. -/
theorem nextTerminal_perform {op : PaneOp} (h : w.Panes [])
    (hp : GuiMainWindow.Performed w op w') : w.nextTerminal ≤ w'.nextTerminal := by
  cases hp with
  | skip hm => exact le_rfl
  | openTab hm =>
      have hobj := GuiMainWindow.objects_setupLayoutLeaf (w := w.newTerminal)
        (n := w.nextTerminal) (-1)
      exact (congrArg GuiMainWindow.Objects.nextTerminal hobj).ge.trans' (Nat.le_succ _)
  | split hm l hj =>
      obtain ⟨ns, o, -, hobj⟩ := hj.objects_eq
      exact (congrArg GuiMainWindow.Objects.nextTerminal hobj).ge.trans' (Nat.le_succ _)
  | @close t hop hm w₁ hwired hl =>
      have hobj := (hwired.mainCloseTerminal t).2.2.2
      exact ((congrArg GuiMainWindow.Objects.nextTerminal hobj).trans (nextTerminal_left h hl)).ge
  | dropOnTerminal hop hm hw₁ hl hj =>
      obtain ⟨ns, o, -, hobj⟩ := hj.objects_eq
      exact ((congrArg GuiMainWindow.Objects.nextTerminal hobj).trans (nextTerminal_left h hl)).ge
  | @dropOnTabBar dropped tabind type hop hm w₁ i hl =>
      have hobj := GuiMainWindow.objects_setupLayoutLeaf (w := w₁) (n := dropped) i
      exact ((congrArg GuiMainWindow.Objects.nextTerminal hobj).trans (nextTerminal_left h hl)).ge

/-- A terminal without a place is in no tab. -/
theorem Sound.free (h : m.Sound) (ht : t ∈ m.hidden) :
    .term t ∉ m.layout.tabs ∧ m.layout.parentSplit (.term t) = none := by
  have hno : ¬ m.layout.Hung (.term t) := fun hm =>
    (h.apart t ht).1 ((h.panes.placed _ (by simp)).mp hm)
  refine ⟨fun hm => hno (.inl hm), ?_⟩
  by_contra hne
  obtain ⟨q, hq⟩ := Option.ne_none_iff_exists'.mp hne
  exact hno (.inr ⟨q, h.panes.parentSplit_iff.mp hq⟩)

/-- A step of the layout. -/
theorem Sound.layout {op : PaneOp} (h : m.Sound) (hk : m.layout.KeepsCache op) :
    ∃ w', m.layout.step op = some w' ∧ Sound { m with layout := w' } := by
  obtain ⟨w', hw', hp, h'⟩ := h.panes.perform op
  obtain ⟨⟨hshown, habsent, hwidgets⟩, hnested⟩ := hp.indexed h.panes h' h.indexed hk
  have hnext := nextTerminal_perform h.panes hp
  have hreg := GuiMainWindow.registers_perform hw'
  refine ⟨w'.purge, GuiMainWindow.step_eq hw',
    { panes := h'.purge
      indexed := ⟨⟨hshown, habsent, hwidgets⟩, hnested⟩
      listed := fun t => ?_
      apart := fun t ht => ?_ }⟩
  · change t ∈ w'.terminalList ↔ t ∈ w'.opened ∨ t ∈ m.hidden
    generalize hr : w'.registry = r at hreg
    cases hreg with
    | same hd =>
        obtain ⟨hlist, hopen⟩ := GuiMainWindow.registry_eq.mp hr
        rw [hlist, hopen]
        exact h.listed t
    | new hd =>
        obtain ⟨hlist, hopen⟩ := GuiMainWindow.registry_eq.mp hr
        rw [hlist, hopen, List.mem_append, List.mem_append, h.listed t]
        tauto
    | @close hd u hu =>
        obtain ⟨hlist, hopen⟩ := GuiMainWindow.registry_eq.mp hr
        rw [hlist, hopen, List.mem_filter, h.panes.openedNodup.mem_erase_iff, h.listed t]
        have hne : t ∈ m.hidden → t ≠ u := by
          rintro ht rfl
          exact (h.apart t ht).1 hu
        simp only [decide_eq_true_eq]
        tauto
    | @again hd u hu =>
        obtain ⟨hlist, hopen⟩ := GuiMainWindow.registry_eq.mp hr
        rw [hlist, hopen, List.mem_append, h.listed t, List.mem_singleton]
        refine or_iff_left_of_imp ?_
        rintro rfl
        exact .inl hu
  · obtain ⟨hno, hlt⟩ := h.apart t ht
    refine ⟨?_, hlt.trans_le hnext⟩
    change t ∉ w'.opened
    generalize hr : w'.registry = r at hreg
    cases hreg with
    | same hd => rwa [(GuiMainWindow.registry_eq.mp hr).2]
    | new hd =>
        rw [(GuiMainWindow.registry_eq.mp hr).2, List.mem_append, List.mem_singleton]
        rintro (hm | rfl)
        · exact hno hm
        · exact lt_irrefl _ hlt
    | close hd hu =>
        rw [(GuiMainWindow.registry_eq.mp hr).2]
        exact fun hm => hno (List.mem_of_mem_erase hm)
    | again hd hu => rwa [(GuiMainWindow.registry_eq.mp hr).2]

/-- Hiding a tab is closing it, but for the list of terminals. -/
theorem hideInLayout_eq (ht : .term t ∈ w.tabs) :
    hideInLayout w t = { w.mainCloseTerminal t with terminalList := w.terminalList } := by
  have hind := indexOf_ne ht
  unfold hideInLayout GuiMainWindow.mainCloseTerminal
  dsimp only
  rw [if_pos hind, if_pos hind]
  unfold GuiMainWindow.tabRemove
  split_ifs <;> rfl

/-- A terminal that has no parent is on the move if one wants. -/
theorem panes_moving (h : w.Panes []) (t : Nat) : w.Panes [t] :=
  { h with placed := fun b _ => h.placed b (by simp) }

theorem Sound.hideTerminal (h : m.Sound) (ht : t ∈ m.layout.opened) :
    (m.hideTerminal t).Sound := by
  unfold MainWindow.hideTerminal
  by_cases htab : .term t ∈ m.layout.tabs
  · have hp := h.panes.roots _ htab
    have hclosed := (panes_moving h.panes t).mainCloseTerminal hp
    have hobj := (h.panes.toWired.mainCloseTerminal t).2.2.2
    have hopen : (m.layout.mainCloseTerminal t).opened = m.layout.opened :=
      congrArg GuiMainWindow.Objects.opened hobj
    have hnext : (m.layout.mainCloseTerminal t).nextTerminal = m.layout.nextTerminal :=
      congrArg GuiMainWindow.Objects.nextTerminal hobj
    have hpanes : ({ m.layout.mainCloseTerminal t with
        terminalList := m.layout.terminalList
        opened := (m.layout.mainCloseTerminal t).opened.erase t } : GuiMainWindow).Panes [] :=
      { linked := hclosed.linked, below := hclosed.below, fresh := hclosed.fresh,
        shown := hclosed.shown, tabsNodup := hclosed.tabsNodup, roots := hclosed.roots,
        cache := hclosed.cache, sized := hclosed.sized, placed := hclosed.placed,
        dead := hclosed.dead, openedNodup := hclosed.openedNodup, openedLt := hclosed.openedLt }
    rw [if_pos htab, hideInLayout_eq htab]
    refine ⟨hpanes, hpanes.indexed rfl, fun u => ?_, fun u hu => ?_⟩
    · change u ∈ m.layout.terminalList ↔ u ∈ (GuiMainWindow.opened _).erase t ∨ u ∈ t :: m.hidden
      rw [hopen, h.panes.openedNodup.mem_erase_iff, h.listed u, List.mem_cons]
      by_cases hut : u = t
      · simp [hut, ht]
      · simp [hut]
    · change u ∉ (GuiMainWindow.opened _).erase t ∧ u < GuiMainWindow.nextTerminal _
      rw [hopen, hnext]
      rcases List.mem_cons.mp hu with rfl | hu
      · exact ⟨h.panes.openedNodup.not_mem_erase, h.panes.openedLt u ht⟩
      · obtain ⟨hno, hlt⟩ := h.apart u hu
        exact ⟨fun hm => hno (List.mem_of_mem_erase hm), hlt⟩
  · have hind : indexOf m.layout.tabs (.term t) = -1 := if_neg htab
    rw [if_neg htab, hideInLayout, if_neg (not_not.mpr hind)]
    exact h

theorem Sound.closeHidden (h : m.Sound) (ht : t ∈ m.hidden) :
    ∃ w', m.layout.closeTerminal t = some w' ∧
      Sound { layout := w', hidden := m.hidden.filter (fun u => u ≠ t) } := by
  obtain ⟨hno, hlt⟩ := h.apart t ht
  obtain ⟨htab, hp⟩ := h.free ht
  have hclosed := (panes_moving h.panes t).mainCloseTerminal hp
  have hobj := (h.panes.toWired.mainCloseTerminal t).2.2.2
  have hreg := GuiMainWindow.registry_eq.mp (GuiMainWindow.registry_mainCloseTerminal
    (w := m.layout) t)
  have hopen : ((m.layout.mainCloseTerminal t).recordClosed t).opened = m.layout.opened := by
    change (GuiMainWindow.opened _).erase t = _
    rw [hreg.2, List.erase_of_not_mem hno]
  have hleave : m.layout.leaveSplit t = some m.layout := by
    rw [GuiMainWindow.leaveSplit, hp]
  refine ⟨(m.layout.mainCloseTerminal t).recordClosed t, ?_, hclosed, hclosed.indexed rfl,
    fun u => ?_, fun u hu => ?_⟩
  · rw [GuiMainWindow.closeTerminal, hleave]
    rfl
  · rw [hopen]
    change u ∈ GuiMainWindow.terminalList (m.layout.mainCloseTerminal t) ↔ _
    rw [hreg.1, List.mem_filter, List.mem_filter, h.listed u]
    have hne : u ∈ m.layout.opened → u ≠ t := by
      rintro hu rfl
      exact hno hu
    simp only [decide_eq_true_eq]
    tauto
  · rw [hopen]
    obtain ⟨hno', hlt'⟩ := h.apart u (List.mem_filter.mp hu).1
    exact ⟨hno', hlt'.trans_eq (congrArg GuiMainWindow.Objects.nextTerminal hobj).symm⟩

/-- New terminals are put into the list. -/
theorem Sound.extend {ts : List Nat} (h : m.Sound) (hpanes : w.Panes []) (hi : w.Indexed)
    (hlist : w.terminalList = m.layout.terminalList ++ ts)
    (hopen : w.opened = m.layout.opened ++ ts) (hnew : ∀ u ∈ ts, m.layout.nextTerminal ≤ u)
    (hnext : m.layout.nextTerminal ≤ w.nextTerminal) : Sound { m with layout := w } where
  panes := hpanes
  indexed := hi
  listed u := by
    change u ∈ w.terminalList ↔ u ∈ w.opened ∨ u ∈ m.hidden
    rw [hlist, hopen, List.mem_append, List.mem_append, h.listed u]
    tauto
  apart u hu := by
    obtain ⟨hno, hlt⟩ := h.apart u hu
    refine ⟨?_, hlt.trans_le hnext⟩
    change u ∉ w.opened
    rw [hopen, List.mem_append]
    rintro (hm | hm)
    · exact hno hm
    · exact absurd (hnew u hm) (not_le.mpr hlt)

/-- A window of new panes. -/
theorem Sound.createNewWindow (h : m.Sound) (plat : Platform) (gateway : Client) (id : Int)
    (name : List UInt8) {l : TmuxLayout} (hl : NewPanes gateway l) :
    Sound { m with layout :=
      (createNewWindowPane plat id name l none { gateway with main := m.layout }).1.main } := by
  rcases hl.shape with hleaf | ⟨⟨orient, htype⟩, hleaf, htwo⟩
  · have hunknown : gateway.mapPanes.find (toInt l.paneid) = none :=
      hl.unknown _ (by simp [paneIds_leaf hleaf])
    have hmain : (createNewWindowPane plat id name l none
        { gateway with main := m.layout }).1.main =
        m.layout.newTerminal.setupLayoutLeaf m.layout.nextTerminal (-1) := by
      rw [createNewWindowPane_leaf hleaf, createLeaf]
      simp only [hunknown]
      rfl
    rw [hmain]
    obtain ⟨hmoving, hp⟩ := h.panes.newTerminal
    have hpanes := hmoving.setupLayoutLeaf (by simp [GuiMainWindow.newTerminal]) hp (-1)
    obtain ⟨hlist, hopen⟩ := GuiMainWindow.registry_eq.mp
      (GuiMainWindow.registry_setupLayoutLeaf (w := m.layout.newTerminal) m.layout.nextTerminal (-1))
    have hobj := GuiMainWindow.objects_setupLayoutLeaf (w := m.layout.newTerminal)
      (n := m.layout.nextTerminal) (-1)
    refine h.extend hpanes (hpanes.indexed rfl) hlist hopen (by simp) ?_
    exact (congrArg GuiMainWindow.Objects.nextTerminal hobj).ge.trans' (Nat.le_succ _)
  · have hchildren : paneIds l = paneIdsAll l.child := by
      obtain ⟨width, height, x, y, paneid, layoutType, child⟩ := l
      cases orient <;> (dsimp only [splitterType] at htype; subst htype; rfl)
    have hids : paneIds l = l.child.map (fun l => toInt l.paneid) :=
      hchildren.trans (paneIdsAll_leaves hleaf)
    have hcreate : createNewWindowPane plat id name l none { gateway with main := m.layout } =
        createChildren plat id name l.child m.layout.nextSplitter
          (addSplitter orient none { gateway with main := m.layout }) := by
      obtain ⟨width, height, x, y, paneid, layoutType, child⟩ := l
      cases orient <;> (dsimp only [splitterType] at htype; subst htype; rw [createNewWindowPane])
    have hunknown : ∀ l' ∈ l.child, gateway.mapPanes.find (toInt l'.paneid) = none :=
      fun l' hl' => hl.unknown _ (hids ▸ List.mem_map.mpr ⟨l', hl', rfl⟩)
    have htab := NewTab.createChildren (c := addSplitter orient none
      { gateway with main := m.layout }) h.panes plat id name hleaf hunknown (hids ▸ hl.distinct)
      hl.running (NewTab.start h.panes orient)
    rw [hcreate]
    rw [Nat.zero_add] at htab
    refine h.extend (htab.panes h.panes htwo) ((htab.panes h.panes htwo).indexed htab.cached)
      htab.terminalList htab.opened (fun u hu => (List.mem_range'_1.mp hu).1) ?_
    rw [htab.nextTerminal]
    exact Nat.le_add_right _ _

/-- **One step keeps the invariant.** -/
theorem Sound.step (plat : Platform) (h : m.Sound) (hf : m.Fits op) :
    ∃ m', MainWindow.step plat m op = some m' ∧ m'.Sound := by
  cases op with
  | layout op =>
      obtain ⟨w', hw', hs⟩ := h.layout hf
      exact ⟨_, by rw [MainWindow.step, hw']; rfl, hs⟩
  | hideTerminal t =>
      refine ⟨_, rfl, ?_⟩
      split_ifs with ht
      · exact h.hideTerminal ht
      · exact h
  | closeHidden t =>
      by_cases ht : t ∈ m.hidden
      · obtain ⟨w', hw', hs⟩ := h.closeHidden ht
        exact ⟨_, by rw [MainWindow.step, if_pos ht, hw']; rfl, hs⟩
      · exact ⟨m, if_neg ht, h⟩
  | createNewWindow gateway id name l => exact ⟨_, rfl, h.createNewWindow plat gateway id name hf⟩

theorem sound_init : MainWindow.init.Sound where
  panes := GuiMainWindow.panes_init
  indexed := GuiMainWindow.panes_init.indexed rfl
  listed t := by simp [MainWindow.init, GuiMainWindow.init]
  apart t ht := by simp [MainWindow.init] at ht

end Steps

end MainWindow

end Navigation
end Qutty
