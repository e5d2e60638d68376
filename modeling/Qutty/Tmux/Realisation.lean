import Qutty.Tmux.Client
import Qutty.Pane.Operations

/-!
# Layouts as pane trees

`createNewWindowPane` builds the panes of a window from its layout: a terminal
for a leaf, and a splitter with the panes of the children for a split.

A splitter for an inner node gets its parent when it is created, and is then
inserted as a tab like the splitter at the root; Qt takes it out of the parent's
widgets for that.  So every split of the layout adds a tab
(`length_tabs_createNewWindowPane`), and the pane tree of the new tab is the
layout exactly if no split of the layout is inside another one
(`createNewWindowPane_realised_iff`).
-/

namespace Qutty
namespace Pane
namespace GuiMainWindow

/-- The pane has been created. -/
def Created (w : GuiMainWindow) : GuiBase → Prop
  | .term t => t < w.nextTerminal
  | .split s => s < w.nextSplitter

/-- A pane that `new` has not yet returned is nowhere in use. -/
structure Unused (w : GuiMainWindow) : Prop where
  tabs : ∀ b ∈ w.tabs, w.Created b
  child : ∀ s, ∀ b ∈ w.child s, w.Created b
  widgets : ∀ s, ∀ b ∈ w.widgets s, w.Created b
  parentSplit : ∀ b, ¬ w.Created b → w.parentSplit b = none

section Unused

variable {w w' : GuiMainWindow} {b : GuiBase} {s : Nat}

theorem Created.mono (hb : w.Created b) (ht : w.nextTerminal ≤ w'.nextTerminal)
    (hs : w.nextSplitter ≤ w'.nextSplitter) : w'.Created b := by
  cases b with
  | term t => exact Nat.lt_of_lt_of_le hb ht
  | split s => exact Nat.lt_of_lt_of_le hb hs

/-- A widget without parent does not leave one. -/
theorem leaveParent_of_absent (htabs : b ∉ w.tabs) (hwidgets : ∀ s, b ∉ w.widgets s) :
    w.leaveParent b = w := by
  have herase : (fun s => (w.widgets s).erase b) = w.widgets := by
    funext s
    exact List.erase_of_not_mem (hwidgets s)
  rw [GuiMainWindow.leaveParent, herase]
  exact if_neg htabs

theorem Unused.not_mem_tabs (h : w.Unused) (hb : ¬ w.Created b) : b ∉ w.tabs :=
  fun hmem => hb (h.tabs b hmem)

theorem Unused.not_mem_widgets (h : w.Unused) (hb : ¬ w.Created b) (s : Nat) :
    b ∉ w.widgets s :=
  fun hmem => hb (h.widgets s b hmem)

theorem not_created_terminal : ¬ w.Created (.term w.nextTerminal) := Nat.lt_irrefl _

theorem not_created_splitter : ¬ w.Created (.split w.nextSplitter) := Nat.lt_irrefl _

end Unused

end GuiMainWindow
end Pane

namespace Tmux

open Lib Pane
open Pane.GuiMainWindow

section MainWindow

variable {w : GuiMainWindow} {s : Nat} {orient : Orientation}

/-- The part of a main window that a layout is built in. -/
structure Shape where
  nextTerminal : Nat
  nextSplitter : Nat
  orientation : Nat → Orientation
  child : Nat → List GuiBase
  parentSplit : GuiBase → Option Nat
  widgets : Nat → List GuiBase
  tabs : List GuiBase

def shape (w : GuiMainWindow) : Shape :=
  ⟨w.nextTerminal, w.nextSplitter, w.orientation, w.child, w.parentSplit, w.widgets, w.tabs⟩

theorem insertAt_end (b : GuiBase) (l : List GuiBase) : insertAt (-1) b l = l ++ [b] := rfl

/-- A pane without parent as a tab. -/
theorem shape_tabInsert {b : GuiBase} (htabs : b ∉ w.tabs) (hwidgets : ∀ s, b ∉ w.widgets s) :
    shape (w.tabInsert (-1) b) = { shape w with tabs := w.tabs ++ [b] } := by
  rw [tabInsert, leaveParent_of_absent htabs hwidgets]
  rfl

/-- A pane without parent in a splitter. -/
theorem shape_addBaseWidget {b : GuiBase} (htabs : b ∉ w.tabs)
    (hwidgets : ∀ s, b ∉ w.widgets s) :
    shape (w.addBaseWidget s (-1) b) =
      { shape w with
        child := Function.update w.child s (w.child s ++ [b])
        parentSplit := Function.update w.parentSplit b (some s)
        widgets := Function.update w.widgets s (w.widgets s ++ [b]) } := by
  rw [GuiMainWindow.addBaseWidget]
  dsimp only
  rw [leaveParent_of_absent (w := { w with
    child := Function.update w.child s (w.child s ++ [b])
    parentSplit := Function.update w.parentSplit b (some s) }) htabs hwidgets]
  rfl

/-- A new terminal as a tab. -/
theorem shape_setupLayout_none (h : w.Unused) :
    shape (setupLayout w.newTerminal w.nextTerminal none) =
      { shape w with
        nextTerminal := w.nextTerminal + 1
        tabs := w.tabs ++ [.term w.nextTerminal] } := by
  have htabs : .term w.nextTerminal ∉ w.newTerminal.tabs :=
    h.not_mem_tabs not_created_terminal
  have hwidgets : ∀ s, .term w.nextTerminal ∉ w.newTerminal.widgets s :=
    h.not_mem_widgets not_created_terminal
  have hinsert := shape_tabInsert htabs hwidgets
  rw [setupLayout, setupLayoutLeaf, leaveParent_of_absent htabs hwidgets]
  exact hinsert

/-- A new terminal in a splitter. -/
theorem shape_setupLayout_some (h : w.Unused) :
    shape (setupLayout w.newTerminal w.nextTerminal (some s)) =
      { shape w with
        nextTerminal := w.nextTerminal + 1
        child := Function.update w.child s (w.child s ++ [.term w.nextTerminal])
        parentSplit := Function.update w.parentSplit (.term w.nextTerminal) (some s)
        widgets := Function.update w.widgets s (w.widgets s ++ [.term w.nextTerminal]) } :=
  shape_addBaseWidget (w := w.newTerminal) (h.not_mem_tabs not_created_terminal)
    (h.not_mem_widgets not_created_terminal)

variable (orient) in
theorem Unused.not_mem_widgets_newSplitter (h : w.Unused) (q : Nat) :
    .split w.nextSplitter ∉ (w.newSplitter orient).widgets q := by
  by_cases hq : q = w.nextSplitter
  · simp [newSplitter, hq]
  · simpa [newSplitter, hq] using h.not_mem_widgets not_created_splitter q

variable (orient) in
/-- A new splitter as a tab. -/
theorem shape_newGuiSplitter_none (h : w.Unused) :
    shape ((newGuiSplitter w orient none).tabInsert (-1) (.split w.nextSplitter)) =
      { shape w with
        nextSplitter := w.nextSplitter + 1
        orientation := Function.update w.orientation w.nextSplitter orient
        child := Function.update w.child w.nextSplitter []
        parentSplit := Function.update w.parentSplit (.split w.nextSplitter) none
        widgets := Function.update w.widgets w.nextSplitter []
        tabs := w.tabs ++ [.split w.nextSplitter] } :=
  shape_tabInsert (w := w.newSplitter orient) (h.not_mem_tabs not_created_splitter)
    (Unused.not_mem_widgets_newSplitter orient h)

variable (orient) in
/-- A new splitter in another one, and then as a tab. -/
theorem shape_newGuiSplitter_some (h : w.Unused) :
    shape ((newGuiSplitter w orient (some s)).tabInsert (-1) (.split w.nextSplitter)) =
      { shape w with
        nextSplitter := w.nextSplitter + 1
        orientation := Function.update w.orientation w.nextSplitter orient
        child := Function.update (Function.update w.child w.nextSplitter []) s
          (Function.update w.child w.nextSplitter [] s ++ [.split w.nextSplitter])
        parentSplit := Function.update w.parentSplit (.split w.nextSplitter) (some s)
        widgets := Function.update w.widgets w.nextSplitter []
        tabs := w.tabs ++ [.split w.nextSplitter] } := by
  have hadd := shape_addBaseWidget (w := w.newSplitter orient) (s := s)
    (h.not_mem_tabs not_created_splitter) (Unused.not_mem_widgets_newSplitter orient h)
  have hobj := objects_tabInsert ((w.newSplitter orient).addBaseWidget s (-1)
    (.split w.nextSplitter)) (.split w.nextSplitter) (-1)
  rw [objects_addBaseWidget] at hobj
  -- the splitter is taken from its parent again
  have hwidgets : ((newGuiSplitter w orient (some s)).tabInsert (-1)
      (.split w.nextSplitter)).widgets = Function.update w.widgets w.nextSplitter [] := by
    funext q
    have hq : ((w.newSplitter orient).addBaseWidget s (-1) (.split w.nextSplitter)).widgets q =
        Function.update (w.newSplitter orient).widgets s
          ((w.newSplitter orient).widgets s ++ [.split w.nextSplitter]) q :=
      congrFun (congrArg Shape.widgets hadd) q
    have hno := Unused.not_mem_widgets_newSplitter orient h q
    change (((w.newSplitter orient).addBaseWidget s (-1) (.split w.nextSplitter)).leaveParent
      (.split w.nextSplitter)).widgets q = (w.newSplitter orient).widgets q
    rw [widgets_leaveParent, hq]
    by_cases hqs : q = s
    · subst hqs
      rw [Function.update_self, List.erase_append_right _ hno, List.erase_cons_head,
        List.append_nil]
    · rw [Function.update_of_ne hqs, List.erase_of_not_mem hno]
  have htabs : .split w.nextSplitter ∉ w.tabs := h.not_mem_tabs not_created_splitter
  rw [shape, hwidgets]
  refine Shape.mk.injEq .. ▸ ⟨congrArg Objects.nextTerminal hobj,
    congrArg Objects.nextSplitter hobj, congrArg Objects.orientation hobj, ?_, ?_, rfl, ?_⟩
  · exact (child_tabInsert ..).trans (child_addBaseWidget ..)
  · refine (parentSplit_tabInsert ..).trans ((parentSplit_addBaseWidget ..).trans ?_)
    simp [newSplitter]
  · refine (tabs_tabInsert ..).trans ?_
    have htabs' : (newGuiSplitter w orient (some s)).tabs = w.tabs.erase (.split w.nextSplitter) :=
      tabs_addBaseWidget ..
    rw [htabs', List.erase_of_not_mem htabs, List.erase_of_not_mem htabs, insertAt_end]

/-- A step that puts one pane somewhere leaves the others unused. -/
theorem Unused.of_shape {w' : GuiMainWindow} {S : Shape} {b : GuiBase} (h : w.Unused)
    (hS : shape w' = S)
    (hb : match b with
      | .term t => t < S.nextTerminal
      | .split s => s < S.nextSplitter)
    (hterm : w.nextTerminal ≤ S.nextTerminal) (hsplit : w.nextSplitter ≤ S.nextSplitter)
    (htabs : ∀ x ∈ S.tabs, x = b ∨ x ∈ w.tabs)
    (hchild : ∀ s, ∀ x ∈ S.child s, x = b ∨ x ∈ w.child s)
    (hwidgets : ∀ s, ∀ x ∈ S.widgets s, x = b ∨ x ∈ w.widgets s)
    (hparent : ∀ x, x ≠ b → S.parentSplit x = w.parentSplit x) : w'.Unused := by
  subst hS
  have hcreated : w'.Created b := by
    cases b <;> exact hb
  refine ⟨fun x hx => ?_, fun s x hx => ?_, fun s x hx => ?_, fun x hx => ?_⟩
  · rcases htabs x hx with rfl | hx
    · exact hcreated
    · exact (h.tabs x hx).mono hterm hsplit
  · rcases hchild s x hx with rfl | hx
    · exact hcreated
    · exact (h.child s x hx).mono hterm hsplit
  · rcases hwidgets s x hx with rfl | hx
    · exact hcreated
    · exact (h.widgets s x hx).mono hterm hsplit
  · have hne : x ≠ b := fun heq => hx (heq ▸ hcreated)
    exact (hparent x hne).trans (h.parentSplit x fun hc => hx (hc.mono hterm hsplit))

/-- An element of a family of lists in which one list has been emptied. -/
theorem mem_of_mem_update_nil {f : Nat → List GuiBase} {q r : Nat} {x : GuiBase}
    (hx : x ∈ Function.update f q [] r) : x ∈ f r := by
  rw [Function.update_apply] at hx
  split_ifs at hx
  · cases hx
  · exact hx

/-- An element of a family of lists in which one list has been extended. -/
theorem mem_or_eq_of_mem_update {f : Nat → List GuiBase} {q r : Nat} {x b : GuiBase}
    (hx : x ∈ Function.update f q (f q ++ [b]) r) : x = b ∨ x ∈ f r :=
  (mem_update_append.mp hx).symm.imp And.right id

/-- Setting up a new terminal keeps new panes unused, and adds a tab if there is
no splitter. -/
theorem setupLayout_unused (h : w.Unused) (splitter : Option Nat) :
    (setupLayout w.newTerminal w.nextTerminal splitter).Unused ∧
      (setupLayout w.newTerminal w.nextTerminal splitter).tabs.length =
        w.tabs.length + if splitter.isNone then 1 else 0 := by
  cases splitter with
  | none =>
      have hs := shape_setupLayout_none h
      constructor
      · refine Unused.of_shape (b := .term w.nextTerminal) h hs (Nat.lt_succ_self _)
          (Nat.le_succ _) (Nat.le_refl _) (fun x hx => ?_) (fun s x hx => .inr hx)
          (fun s x hx => .inr hx) (fun x hx => rfl)
        exact (by simpa using hx : x ∈ w.tabs ∨ x = .term w.nextTerminal).symm
      · have htabs := congrArg (fun S => S.tabs.length) hs
        simpa [shape] using htabs
  | some s =>
      have hs := shape_setupLayout_some (s := s) h
      constructor
      · exact Unused.of_shape (b := .term w.nextTerminal) h hs (Nat.lt_succ_self _)
          (Nat.le_succ _) (Nat.le_refl _) (fun x hx => .inr hx)
          (fun q x hx => mem_or_eq_of_mem_update hx) (fun q x hx => mem_or_eq_of_mem_update hx)
          (fun x hx => Function.update_of_ne hx _ _)
      · have htabs := congrArg (fun S => S.tabs.length) hs
        simpa [shape] using htabs

/-- So does a new splitter, which always adds a tab. -/
theorem newGuiSplitter_unused (h : w.Unused) (orient : Orientation) (splitter : Option Nat) :
    ((newGuiSplitter w orient splitter).tabInsert (-1) (.split w.nextSplitter)).Unused ∧
      ((newGuiSplitter w orient splitter).tabInsert (-1) (.split w.nextSplitter)).tabs.length =
        w.tabs.length + 1 := by
  cases splitter with
  | none =>
      have hs := shape_newGuiSplitter_none orient h
      constructor
      · refine Unused.of_shape (b := .split w.nextSplitter) h hs (Nat.lt_succ_self _)
          (Nat.le_refl _) (Nat.le_succ _) (fun x hx => ?_)
          (fun q x hx => .inr (mem_of_mem_update_nil hx))
          (fun q x hx => .inr (mem_of_mem_update_nil hx))
          (fun x hx => Function.update_of_ne hx _ _)
        exact (by simpa using hx : x ∈ w.tabs ∨ x = .split w.nextSplitter).symm
      · have htabs := congrArg (fun S => S.tabs.length) hs
        simpa [shape] using htabs
  | some s =>
      have hs := shape_newGuiSplitter_some orient (s := s) h
      constructor
      · refine Unused.of_shape (b := .split w.nextSplitter) h hs (Nat.lt_succ_self _)
          (Nat.le_refl _) (Nat.le_succ _) (fun x hx => ?_)
          (fun q x hx => (mem_or_eq_of_mem_update hx).imp id mem_of_mem_update_nil)
          (fun q x hx => .inr (mem_of_mem_update_nil hx))
          (fun x hx => Function.update_of_ne hx _ _)
        exact (by simpa using hx : x ∈ w.tabs ∨ x = .split w.nextSplitter).symm
      · have htabs := congrArg (fun S => S.tabs.length) hs
        simpa [shape] using htabs

end MainWindow

section Definitions

mutual

/-- The ids of the panes of a layout, as keys of `_mapPanes`. -/
def paneIds : TmuxLayout → List Int
  | ⟨_, _, _, _, _, .none, _⟩ => []
  | ⟨_, _, _, _, paneid, .leaf, _⟩ => [toInt paneid]
  | ⟨_, _, _, _, _, .horizontal, child⟩ => paneIdsAll child
  | ⟨_, _, _, _, _, .vertical, child⟩ => paneIdsAll child

def paneIdsAll : List TmuxLayout → List Int
  | [] => []
  | l :: ls => paneIds l ++ paneIdsAll ls

end

mutual

/-- The number of splits in a layout. -/
def splitCount : TmuxLayout → Nat
  | ⟨_, _, _, _, _, .none, _⟩ => 0
  | ⟨_, _, _, _, _, .leaf, _⟩ => 0
  | ⟨_, _, _, _, _, .horizontal, child⟩ => splitCountAll child + 1
  | ⟨_, _, _, _, _, .vertical, child⟩ => splitCountAll child + 1

def splitCountAll : List TmuxLayout → Nat
  | [] => 0
  | l :: ls => splitCount l + splitCountAll ls

end

/-- A leaf, or a split of leaves. -/
def flat (l : TmuxLayout) : Bool :=
  l.layoutType = .leaf ∨ ∀ l' ∈ l.child, l'.layoutType = .leaf

/-- The kind of node that a splitter shows. -/
def splitterType : Orientation → TmuxLayoutType
  | .horizontal => .horizontal
  | .vertical => .vertical

mutual

/-- The pane shows the layout: the same tree, kept in the same way by `child`, by
`parentSplit` and by the widgets. -/
inductive Realises (c : Client) : GuiBase → TmuxLayout → Prop where
  | leaf {l : TmuxLayout} {p : Nat} :
      l.layoutType = .leaf → c.mapPanes.find (toInt l.paneid) = some p →
      Realises c (.term (c.pane p).termWnd) l
  | split {l : TmuxLayout} {s : Nat} :
      l.layoutType = splitterType (c.main.orientation s) →
      c.main.widgets s = c.main.child s →
      (∀ b ∈ c.main.child s, c.main.parentSplit b = some s ∧ b ∉ c.main.tabs) →
      RealisesAll c (c.main.child s) l.child → Realises c (.split s) l

/-- The panes show the layouts, in order. -/
inductive RealisesAll (c : Client) : List GuiBase → List TmuxLayout → Prop where
  | nil : RealisesAll c [] []
  | cons {b : GuiBase} {bs : List GuiBase} {l : TmuxLayout} {ls : List TmuxLayout} :
      Realises c b l → RealisesAll c bs ls → RealisesAll c (b :: bs) (l :: ls)

end

/-- One tab has been added, and it shows the layout. -/
def Realised (c c' : Client) (l : TmuxLayout) : Prop :=
  ∃ b, c'.main.tabs = c.main.tabs ++ [b] ∧ c'.main.parentSplit b = none ∧ Realises c' b l

end Definitions

section Counting

variable {plat : Platform} {id : Int} {name : List UInt8} {c : Client}

@[simp] theorem main_usePane (p : Nat) : (c.usePane p).main = c.main := by
  unfold Client.usePane
  split_ifs <;> rfl

@[simp] theorem stopped_usePane (p : Nat) : (c.usePane p).stopped = c.stopped := by
  unfold Client.usePane
  split_ifs <;> rfl

@[simp] theorem main_useTerminal (t : Nat) : (c.useTerminal t).main = c.main := by
  unfold Client.useTerminal
  split_ifs <;> rfl

@[simp] theorem stopped_useTerminal (t : Nat) : (c.useTerminal t).stopped = c.stopped := by
  unfold Client.useTerminal
  split_ifs <;> rfl

/-- What building a part of a layout does to the tabs. -/
structure AddsTabs (c c' : Client) (n : Nat) : Prop where
  unused : c'.main.Unused
  running : c'.stopped = false
  length_tabs : c'.main.tabs.length = c.main.tabs.length + n

/-- A leaf in a splitter adds no tab. -/
theorem createLeaf_addsTabs (layout : TmuxLayout) (s : Nat) (hu : c.main.Unused)
    (hr : c.stopped = false) :
    AddsTabs c (createLeaf plat id name layout (some s) c).1 0 := by
  unfold createLeaf
  split
  · obtain ⟨hun, hlen⟩ := setupLayout_unused hu (some s)
    exact ⟨hun, hr, hlen⟩
  · refine ⟨?_, ?_, ?_⟩
    · simpa [Client.updateTerm] using hu
    · simpa [Client.updateTerm] using hr
    · simp [Client.updateTerm]

theorem addSplitter_addsTabs (orient : Orientation) (splitter : Option Nat)
    (hu : c.main.Unused) (hr : c.stopped = false) :
    AddsTabs c (addSplitter orient splitter c) 1 := by
  obtain ⟨hun, hlen⟩ := newGuiSplitter_unused hu orient splitter
  exact ⟨hun, hr, hlen⟩

theorem AddsTabs.trans {c₁ c₂ : Client} {m n : Nat} (h : AddsTabs c c₁ m)
    (h' : AddsTabs c₁ c₂ n) : AddsTabs c c₂ (m + n) := by
  refine ⟨h'.unused, h'.running, ?_⟩
  rw [h'.length_tabs, h.length_tabs, Nat.add_assoc]

mutual

/-- **Every split adds a tab.** -/
theorem createNewWindowPane_addsTabs (plat : Platform) (id : Int) (name : List UInt8)
    (l : TmuxLayout) (s : Nat) (c : Client) (hwf : l.wellFormed = true)
    (hu : c.main.Unused) (hr : c.stopped = false) :
    AddsTabs c (createNewWindowPane plat id name l (some s) c).1 (splitCount l) := by
  match l, hwf with
  | ⟨_, _, _, _, _, .leaf, _⟩, _ =>
      rw [createNewWindowPane, splitCount]
      exact createLeaf_addsTabs _ s hu hr
  | ⟨_, _, _, _, _, .horizontal, child⟩, hwf =>
      simp only [TmuxLayout.wellFormed, decide_eq_true_eq] at hwf
      have hadd := addSplitter_addsTabs .horizontal (some s) hu hr
      rw [createNewWindowPane, splitCount, Nat.add_comm]
      exact hadd.trans
        (createChildren_addsTabs plat id name child _ _ hwf.2 hadd.unused hadd.running)
  | ⟨_, _, _, _, _, .vertical, child⟩, hwf =>
      simp only [TmuxLayout.wellFormed, decide_eq_true_eq] at hwf
      have hadd := addSplitter_addsTabs .vertical (some s) hu hr
      rw [createNewWindowPane, splitCount, Nat.add_comm]
      exact hadd.trans
        (createChildren_addsTabs plat id name child _ _ hwf.2 hadd.unused hadd.running)

theorem createChildren_addsTabs (plat : Platform) (id : Int) (name : List UInt8)
    (ls : List TmuxLayout) (s : Nat) (c : Client) (hwf : TmuxLayout.wellFormedAll ls = true)
    (hu : c.main.Unused) (hr : c.stopped = false) :
    AddsTabs c (createChildren plat id name ls s c).1 (splitCountAll ls) := by
  match ls, hwf with
  | [], _ =>
      rw [createChildren, splitCountAll]
      exact ⟨hu, hr, rfl⟩
  | l :: ls, hwf =>
      rw [TmuxLayout.wellFormedAll, Bool.and_eq_true] at hwf
      have hhead := createNewWindowPane_addsTabs plat id name l s c hwf.1 hu hr
      have htail := createChildren_addsTabs plat id name ls s
        (createNewWindowPane plat id name l (some s) c).1 hwf.2 hhead.unused hhead.running
      rw [createChildren, splitCountAll]
      simp only [hhead.running, Bool.false_eq_true, if_false]
      exact hhead.trans htail

end

end Counting

section Flat

variable {plat : Platform} {id : Int} {name : List UInt8} {c c' c'' : Client}

theorem createNewWindowPane_leaf {l : TmuxLayout} (hl : l.layoutType = .leaf)
    (splitter : Option Nat) :
    createNewWindowPane plat id name l splitter c = createLeaf plat id name l splitter c := by
  obtain ⟨width, height, x, y, paneid, layoutType, child⟩ := l
  dsimp only at hl
  subst hl
  rw [createNewWindowPane]

theorem paneIds_leaf {l : TmuxLayout} (hl : l.layoutType = .leaf) :
    paneIds l = [toInt l.paneid] := by
  obtain ⟨width, height, x, y, paneid, layoutType, child⟩ := l
  dsimp only at hl
  subst hl
  rfl

/-- What stays when leaves with the ids `ks` are built. -/
structure Keeps (c c' : Client) (ks : List Int) : Prop where
  tabs : c'.main.tabs = c.main.tabs
  orientation : c'.main.orientation = c.main.orientation
  parentSplit : ∀ b, c.main.Created b → c'.main.parentSplit b = c.main.parentSplit b
  created : ∀ b, c.main.Created b → c'.main.Created b
  find : ∀ k, k ∉ ks → c'.mapPanes.find k = c.mapPanes.find k
  pane : ∀ p, p < c.nextPane → c'.pane p = c.pane p
  nextPane : c.nextPane ≤ c'.nextPane

theorem Keeps.refl : Keeps c c [] :=
  ⟨rfl, rfl, fun _ _ => rfl, fun _ hb => hb, fun _ _ => rfl, fun _ _ => rfl, Nat.le_refl _⟩

theorem Keeps.trans {ks ks' : List Int} (h : Keeps c c' ks) (h' : Keeps c' c'' ks') :
    Keeps c c'' (ks ++ ks') where
  tabs := h'.tabs.trans h.tabs
  orientation := h'.orientation.trans h.orientation
  parentSplit b hb := (h'.parentSplit b (h.created b hb)).trans (h.parentSplit b hb)
  created b hb := h'.created b (h.created b hb)
  find k hk := by
    rw [List.mem_append, not_or] at hk
    exact (h'.find k hk.2).trans (h.find k hk.1)
  pane p hp := (h'.pane p (Nat.lt_of_lt_of_le hp h.nextPane)).trans (h.pane p hp)
  nextPane := h.nextPane.trans h'.nextPane

/-- A pane of a leaf. -/
structure ShowsLeaf (c : Client) (s : Nat) (b : GuiBase) (l : TmuxLayout) : Prop where
  created : c.main.Created b
  parentSplit : c.main.parentSplit b = some s
  notTab : b ∉ c.main.tabs
  shown : ∃ p, p < c.nextPane ∧ c.mapPanes.find (toInt l.paneid) = some p ∧
    b = .term (c.pane p).termWnd

theorem ShowsLeaf.keeps {s : Nat} {b : GuiBase} {l : TmuxLayout} {ks : List Int}
    (h : ShowsLeaf c s b l) (hk : Keeps c c' ks) (hl : toInt l.paneid ∉ ks) :
    ShowsLeaf c' s b l where
  created := hk.created b h.created
  parentSplit := (hk.parentSplit b h.created).trans h.parentSplit
  notTab := hk.tabs ▸ h.notTab
  shown := by
    obtain ⟨p, hp, hfind, hb⟩ := h.shown
    refine ⟨p, Nat.lt_of_lt_of_le hp hk.nextPane, (hk.find _ hl).trans hfind, ?_⟩
    rw [hk.pane p hp, hb]

variable (plat id name) in
/-- A new pane in a splitter. -/
theorem createPane_some (l : TmuxLayout) (s : Nat) (hu : c.main.Unused) :
    let c' := (createPane plat id name l (some s) c).1
    Keeps c c' [toInt l.paneid] ∧ ShowsLeaf c' s (.term c.main.nextTerminal) l ∧
      c'.main.child s = c.main.child s ++ [.term c.main.nextTerminal] ∧
      c'.main.widgets s = c.main.widgets s ++ [.term c.main.nextTerminal] := by
  have hs := shape_setupLayout_some (s := s) hu
  have hterm := congrArg Shape.nextTerminal hs
  have hsplit := congrArg Shape.nextSplitter hs
  have horient := congrArg Shape.orientation hs
  have htabs := congrArg Shape.tabs hs
  have hchild := congrArg Shape.child hs
  have hwidgets := congrArg Shape.widgets hs
  have hparent := congrArg Shape.parentSplit hs
  simp only [shape] at hterm hsplit horient htabs hchild hwidgets hparent
  refine ⟨⟨htabs, horient, fun b hb => ?_, fun b hb => ?_, fun k hk => ?_, fun p hp => ?_,
    Nat.le_succ _⟩, ⟨?_, ?_, ?_, c.nextPane, Nat.lt_succ_self _, ?_, ?_⟩, ?_, ?_⟩
  · have hne : b ≠ .term c.main.nextTerminal := fun h => not_created_terminal (h ▸ hb)
    exact (congrFun hparent b).trans (Function.update_of_ne hne _ _)
  · exact hb.mono (hterm ▸ Nat.le_succ _) hsplit.ge
  · have hne : ¬ toInt l.paneid = k := fun h => hk (by simp [h])
    exact (OrderedMap.find_insert ..).trans (if_neg hne)
  · exact Function.update_of_ne (Nat.ne_of_lt hp) _ _
  · change c.main.nextTerminal < _
    rw [createPane, hterm]
    exact Nat.lt_succ_self _
  · exact (congrFun hparent _).trans (Function.update_self ..)
  · rw [createPane, htabs]
    exact hu.not_mem_tabs not_created_terminal
  · exact OrderedMap.find_insert_self ..
  · simp [createPane]
  · exact (congrFun hchild s).trans (Function.update_self ..)
  · exact (congrFun hwidgets s).trans (Function.update_self ..)

variable (plat id name) in
/-- The loop over children that are all leaves. -/
theorem createChildren_leaves (ls : List TmuxLayout) (s : Nat)
    (hleaf : ∀ l ∈ ls, l.layoutType = .leaf)
    (hnew : ∀ l ∈ ls, c.mapPanes.find (toInt l.paneid) = none)
    (hdistinct : (ls.map (fun l => toInt l.paneid)).Nodup) (hu : c.main.Unused)
    (hr : c.stopped = false) :
    let c' := (createChildren plat id name ls s c).1
    ∃ bs, Keeps c c' (ls.map (fun l => toInt l.paneid)) ∧
      List.Forall₂ (ShowsLeaf c' s) bs ls ∧
      c'.main.child s = c.main.child s ++ bs ∧ c'.main.widgets s = c.main.widgets s ++ bs := by
  induction ls generalizing c with
  | nil =>
      rw [createChildren]
      exact ⟨[], .refl, .nil, by simp, by simp⟩
  | cons l ls ih =>
      have hcreate : createNewWindowPane plat id name l (some s) c =
          createPane plat id name l (some s) c := by
        rw [createNewWindowPane_leaf (hleaf l (by simp)), createLeaf, hnew l (by simp)]
      rw [List.map_cons, List.nodup_cons] at hdistinct
      have hkept := createPane_some plat id name l s hu
      obtain ⟨hkeeps, hshows, hchild, hwidgets⟩ := hkept
      have hunused : (createPane plat id name l (some s) c).1.main.Unused :=
        (setupLayout_unused hu (some s)).1
      have hnew' : ∀ l' ∈ ls, (createPane plat id name l (some s) c).1.mapPanes.find
          (toInt l'.paneid) = none := by
        intro l' hl'
        have hne : toInt l'.paneid ∉ [toInt l.paneid] := by
          intro hmem
          rw [List.mem_singleton] at hmem
          exact hdistinct.1 (List.mem_map.mpr ⟨l', hl', hmem⟩)
        rw [hkeeps.find _ hne]
        exact hnew l' (by simp [hl'])
      obtain ⟨bs, hkeeps', hshow', hchild', hwidgets'⟩ :=
        ih (fun l' hl' => hleaf l' (by simp [hl'])) hnew' hdistinct.2 hunused hr
      rw [createChildren, hcreate]
      have hrun : (createPane plat id name l (some s) c).1.stopped = false := hr
      simp only [hrun, Bool.false_eq_true, if_false]
      refine ⟨.term c.main.nextTerminal :: bs, hkeeps.trans hkeeps',
        .cons (hshows.keeps hkeeps' hdistinct.1) hshow', ?_, ?_⟩
      · rw [hchild', hchild, List.append_assoc, List.singleton_append]
      · rw [hwidgets', hwidgets, List.append_assoc, List.singleton_append]

theorem paneIdsAll_leaves {ls : List TmuxLayout} (hleaf : ∀ l ∈ ls, l.layoutType = .leaf) :
    paneIdsAll ls = ls.map (fun l => toInt l.paneid) := by
  induction ls with
  | nil => rfl
  | cons l ls ih =>
      rw [paneIdsAll, paneIds_leaf (hleaf l (by simp)), ih fun l' hl' => hleaf l' (by simp [hl'])]
      rfl

/-- Leaves that are all shown in a splitter. -/
theorem realisesAll_of_showsLeaf {s : Nat} {bs : List GuiBase} {ls : List TmuxLayout}
    (h : List.Forall₂ (ShowsLeaf c s) bs ls) (hleaf : ∀ l ∈ ls, l.layoutType = .leaf) :
    RealisesAll c bs ls ∧ ∀ b ∈ bs, c.main.parentSplit b = some s ∧ b ∉ c.main.tabs := by
  induction h with
  | nil => exact ⟨.nil, by simp⟩
  | cons hb hbs ih =>
      obtain ⟨ihall, ihplace⟩ := ih fun l hl => hleaf l (by simp [hl])
      constructor
      · obtain ⟨p, -, hfind, rfl⟩ := hb.shown
        exact .cons (.leaf (hleaf _ (by simp)) hfind) ihall
      · intro x hx
        rcases List.mem_cons.mp hx with rfl | hx
        · exact ⟨hb.parentSplit, hb.notTab⟩
        · exact ihplace x hx

/-- **A split of leaves is realised.** -/
theorem createSplit_realised (l : TmuxLayout) (orient : Orientation)
    (htype : l.layoutType = splitterType orient)
    (hleaf : ∀ l' ∈ l.child, l'.layoutType = .leaf)
    (hnew : ∀ k ∈ paneIdsAll l.child, c.mapPanes.find k = none)
    (hdistinct : (paneIdsAll l.child).Nodup) (hu : c.main.Unused) (hr : c.stopped = false) :
    Realised c (createChildren plat id name l.child c.main.nextSplitter
      (addSplitter orient none c)).1 l := by
  rw [paneIdsAll_leaves hleaf] at hnew hdistinct
  have hs := shape_newGuiSplitter_none orient hu
  have horient := congrFun (congrArg Shape.orientation hs) c.main.nextSplitter
  have htabs := congrArg Shape.tabs hs
  have hchild := congrFun (congrArg Shape.child hs) c.main.nextSplitter
  have hwidgets := congrFun (congrArg Shape.widgets hs) c.main.nextSplitter
  have hparent := congrFun (congrArg Shape.parentSplit hs) (.split c.main.nextSplitter)
  simp only [shape, Function.update_self] at horient htabs hchild hwidgets hparent
  obtain ⟨hunused, hrun, -⟩ := addSplitter_addsTabs orient none hu hr
  obtain ⟨bs, hkeeps, hshows, hchild', hwidgets'⟩ := createChildren_leaves plat id name
    (c := addSplitter orient none c) l.child c.main.nextSplitter hleaf
    (fun l' hl' => hnew _ (List.mem_map.mpr ⟨l', hl', rfl⟩)) hdistinct hunused hrun
  have hcreated : (addSplitter orient none c).main.Created (.split c.main.nextSplitter) :=
    hunused.tabs _ (by rw [addSplitter, htabs]; simp)
  have hfull : (createChildren plat id name l.child c.main.nextSplitter
      (addSplitter orient none c)).1.main.child c.main.nextSplitter = bs := by
    rw [hchild', addSplitter, hchild, List.nil_append]
  refine ⟨.split c.main.nextSplitter, hkeeps.tabs.trans htabs,
    (hkeeps.parentSplit _ hcreated).trans hparent, .split ?_ ?_ ?_ ?_⟩
  · rw [hkeeps.orientation, addSplitter, horient]
    exact htype
  · rw [hfull, hwidgets', addSplitter, hwidgets, List.nil_append]
  · rw [hfull]
    exact (realisesAll_of_showsLeaf hshows hleaf).2
  · rw [hfull]
    exact (realisesAll_of_showsLeaf hshows hleaf).1

/-- **A leaf is realised.** -/
theorem createLeaf_realised {l : TmuxLayout} (hl : l.layoutType = .leaf)
    (hnew : c.mapPanes.find (toInt l.paneid) = none) (hu : c.main.Unused) :
    Realised c (createLeaf plat id name l none c).1 l := by
  have hs := shape_setupLayout_none hu
  have htabs := congrArg Shape.tabs hs
  have hparent := congrFun (congrArg Shape.parentSplit hs) (.term c.main.nextTerminal)
  simp only [shape] at htabs hparent
  rw [createLeaf, hnew]
  refine ⟨.term c.main.nextTerminal, htabs, ?_, ?_⟩
  · exact hparent.trans (hu.parentSplit _ not_created_terminal)
  · have hterm : ((createPane plat id name l none c).1.pane c.nextPane).termWnd =
        c.main.nextTerminal := by
      simp [createPane]
    rw [← hterm]
    exact .leaf hl (OrderedMap.find_insert_self ..)

/-- A layout whose splits are one is a split of leaves. -/
theorem layoutType_of_splitCount {l : TmuxLayout} (hwf : l.wellFormed = true)
    (h : splitCount l = 0) : l.layoutType = .leaf := by
  obtain ⟨width, height, x, y, paneid, layoutType, child⟩ := l
  cases layoutType with
  | none => simp [TmuxLayout.wellFormed] at hwf
  | leaf => rfl
  | horizontal => simp [splitCount] at h
  | vertical => simp [splitCount] at h

theorem leaves_of_splitCountAll {ls : List TmuxLayout}
    (hwf : TmuxLayout.wellFormedAll ls = true) (h : splitCountAll ls = 0) :
    ∀ l ∈ ls, l.layoutType = .leaf := by
  induction ls with
  | nil => simp
  | cons l ls ih =>
      rw [TmuxLayout.wellFormedAll, Bool.and_eq_true] at hwf
      rw [splitCountAll, Nat.add_eq_zero_iff] at h
      intro l' hl'
      rcases List.mem_cons.mp hl' with rfl | hl'
      · exact layoutType_of_splitCount hwf.1 h.1
      · exact ih hwf.2 h.2 l' hl'

/-- A split of the layout at the root. -/
theorem createSplit_realised_iff (l : TmuxLayout) (orient : Orientation)
    (htype : l.layoutType = splitterType orient)
    (hwf : TmuxLayout.wellFormedAll l.child = true)
    (hnew : ∀ k ∈ paneIdsAll l.child, c.mapPanes.find k = none)
    (hdistinct : (paneIdsAll l.child).Nodup) (hu : c.main.Unused) (hr : c.stopped = false) :
    Realised c (createChildren plat id name l.child c.main.nextSplitter
      (addSplitter orient none c)).1 l ↔ flat l = true := by
  have hflat : flat l = true ↔ ∀ l' ∈ l.child, l'.layoutType = .leaf := by
    have hne : l.layoutType ≠ .leaf := by
      rw [htype]
      cases orient <;> decide
    simp [flat, hne]
  rw [hflat]
  constructor
  · rintro ⟨b, htabs, -⟩
    have hadd := addSplitter_addsTabs orient none hu hr
    have hall := hadd.trans
      (createChildren_addsTabs plat id name l.child c.main.nextSplitter _ hwf hadd.unused
        hadd.running)
    have hlen := hall.length_tabs
    rw [htabs, List.length_append, List.length_singleton] at hlen
    exact leaves_of_splitCountAll hwf (by omega)
  · intro hleaf
    exact createSplit_realised l orient htype hleaf hnew hdistinct hu hr

/-- **A layout is realised exactly if it has no split inside a split.**  The panes
of the layout are new; in the main window, the panes that do not exist yet are
not in use. -/
theorem createNewWindowPane_realised_iff (plat : Platform) (id : Int) (name : List UInt8)
    (l : TmuxLayout) (c : Client) (hwf : l.wellFormed = true)
    (hnew : ∀ k ∈ paneIds l, c.mapPanes.find k = none) (hdistinct : (paneIds l).Nodup)
    (hu : c.main.Unused) (hr : c.stopped = false) :
    Realised c (createNewWindowPane plat id name l none c).1 l ↔ flat l = true := by
  obtain ⟨width, height, x, y, paneid, layoutType, child⟩ := l
  cases layoutType with
  | none => simp [TmuxLayout.wellFormed] at hwf
  | leaf =>
      rw [createNewWindowPane_leaf rfl]
      refine iff_of_true (createLeaf_realised rfl (hnew _ (by simp [paneIds])) hu) ?_
      simp [flat]
  | horizontal =>
      simp only [TmuxLayout.wellFormed, decide_eq_true_eq] at hwf
      rw [createNewWindowPane]
      exact createSplit_realised_iff ⟨width, height, x, y, paneid, .horizontal, child⟩
        .horizontal rfl hwf.2 hnew hdistinct hu hr
  | vertical =>
      simp only [TmuxLayout.wellFormed, decide_eq_true_eq] at hwf
      rw [createNewWindowPane]
      exact createSplit_realised_iff ⟨width, height, x, y, paneid, .vertical, child⟩
        .vertical rfl hwf.2 hnew hdistinct hu hr

theorem unused_init : GuiMainWindow.init.Unused where
  tabs := by simp [GuiMainWindow.init]
  child := by simp [GuiMainWindow.init]
  widgets := by simp [GuiMainWindow.init]
  parentSplit _ _ := rfl

/-- A terminal of 80 by 24 characters. -/
def plainTerm : TermFields :=
  ⟨24, 80, 0, 0, 0, 0, 0, 0, 0, 0, 0, 0, 23, false, false, false, true⟩

/-- A platform on which names are ASCII and terminals take any size. -/
def plainPlatform : Platform where
  savelines := 2000
  cols := 80
  rows := 24
  fromUtf8 := List.map UInt8.toNat
  termInit := plainTerm
  termSize f rows cols _ := { f with rows := rows, cols := cols }
  anyInt := 0
  anyChar := 0

/-- Two panes side by side. -/
def pairLayout : TmuxLayout :=
  ⟨80, 24, 0, 0, 0, .horizontal,
    [⟨40, 24, 0, 0, 1, .leaf, []⟩, ⟨39, 24, 41, 0, 2, .leaf, []⟩]⟩

/-- Two panes side by side, the right one split again. -/
def nestedLayout : TmuxLayout :=
  ⟨80, 24, 0, 0, 0, .horizontal,
    [⟨40, 24, 0, 0, 1, .leaf, []⟩,
     ⟨39, 24, 41, 0, 0, .vertical,
       [⟨39, 12, 41, 0, 2, .leaf, []⟩, ⟨39, 11, 41, 13, 3, .leaf, []⟩]⟩]⟩

theorem createNewWindowPane_realised_pairLayout :
    Realised (.init plainPlatform GuiMainWindow.init)
      (createNewWindowPane plainPlatform 7 [] pairLayout none
        (.init plainPlatform GuiMainWindow.init)).1 pairLayout :=
  (createNewWindowPane_realised_iff plainPlatform 7 [] pairLayout
    (.init plainPlatform GuiMainWindow.init) (by decide) (by simp [Client.init]) (by decide)
    unused_init rfl).mpr (by decide)

/-- The nested split becomes a tab of its own. -/
theorem createNewWindowPane_tabs_nestedLayout :
    nestedLayout.wellFormed = true ∧ (paneIds nestedLayout).Nodup ∧
      (createNewWindowPane plainPlatform 7 [] nestedLayout none
        (.init plainPlatform GuiMainWindow.init)).1.main.tabs = [.split 0, .split 1] ∧
      ¬ Realised (.init plainPlatform GuiMainWindow.init)
        (createNewWindowPane plainPlatform 7 [] nestedLayout none
          (.init plainPlatform GuiMainWindow.init)).1 nestedLayout := by
  have htabs : (createNewWindowPane plainPlatform 7 [] nestedLayout none
      (.init plainPlatform GuiMainWindow.init)).1.main.tabs = [.split 0, .split 1] := by
    decide +kernel
  refine ⟨by decide, by decide, htabs, ?_⟩
  rintro ⟨b, hb, -⟩
  rw [htabs] at hb
  have hlen := congrArg List.length hb
  simp [Client.init, GuiMainWindow.init] at hlen

end Flat

end Tmux
end Qutty
