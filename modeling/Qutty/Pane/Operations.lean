import Qutty.Pane.Invariant

/-!
# Operations on the pane tree

Each operation takes a terminal out of its place and gives it a new one, or
closes it; `Performed` says in these terms what an operation does.  Every
operation succeeds and keeps the invariant (`Panes.perform`), and so every run of
operations succeeds and ends in a proper pane tree (`run_paneTree`).
-/

namespace Qutty
namespace Pane

open Lib

namespace GuiMainWindow

/-- What `leaveSplit` does: nothing to a tab, else the terminal leaves its splitter. -/
def Left (w : GuiMainWindow) (t : Nat) (w' : GuiMainWindow) : Prop :=
  w' = w ∧ w.parentSplit (.term t) = none ∨ ∃ s, .term t ∈ w.child s ∧ Leaving w s t w'

section Operations

variable {w w' : GuiMainWindow} {t n : Nat} {b : GuiBase}

/-- A pane with a place and without parent is a tab. -/
theorem Wired.mem_tabs (h : w.Wired) (hb : w.Hung b) (hp : w.parentSplit b = none) :
    b ∈ w.tabs := by
  rcases hb with hb | ⟨s, hs⟩
  · exact hb
  · exact absurd hs (h.not_mem_child hp)

theorem Panes.leaveSplit (h : w.Panes []) (t : Nat) :
    ∃ w', w.leaveSplit t = some w' ∧ w'.Wired ∧ Left w t w' := by
  unfold GuiMainWindow.leaveSplit
  cases hp : w.parentSplit (.term t) with
  | none => exact ⟨w, rfl, h.toWired, .inl ⟨rfl, hp⟩⟩
  | some s =>
      have ht := h.parentSplit_iff.mp hp
      have hne : w.child s ≠ [] := List.ne_nil_of_mem ht
      have hroot : w.parentSplit (.split s) = none → .split s ∈ w.tabs :=
        h.mem_tabs ((h.placed (.split s) (by simp)).mpr hne)
      obtain ⟨w', hw', hwired, hl⟩ :=
        h.removeSplitLayout ht ((h.sized s).resolve_left hne) hroot
      exact ⟨w', hw', hwired, .inr ⟨s, ht, hl⟩⟩

/-- After `leaveSplit` the terminal is on the move. -/
theorem Panes.left (h : w.Panes []) (hw : w'.Wired) (hl : Left w t w') :
    w'.Panes [t] ∧ w'.parentSplit (.term t) = none ∧
      ∃ ds, w'.objects = { w.objects with dying := ds } := by
  rcases hl with ⟨rfl, hp⟩ | ⟨s, ht, hl⟩
  · exact ⟨{ h with placed := fun b _ => h.placed b (by simp) }, hp, w'.dying, rfl⟩
  · obtain ⟨ds, hobj, -⟩ := hl.objects_eq h.toWired
    refine ⟨h.leaving ht hw hl, ?_, ds, hobj⟩
    by_contra hne
    obtain ⟨q, hq⟩ := Option.ne_none_iff_exists'.mp hne
    exact hl.not_mem_child h.toWired ht q (hw.parentSplit_iff.mp hq)

theorem Wired.terminalList (h : w.Wired) (l : List Nat) :
    ({ w with terminalList := l } : GuiMainWindow).Wired :=
  ⟨h.linked, h.below, h.fresh, h.shown, h.tabsNodup, h.roots, h.cache⟩

@[simp] theorem objects_setupLayoutLeaf (i : Int) :
    (w.setupLayoutLeaf n i).objects = w.objects :=
  (objects_tabInsert (w.leaveParent (.term n)) (.term n) i).trans (objects_leaveParent w (.term n))

@[simp] theorem child_setupLayoutLeaf (i : Int) : (w.setupLayoutLeaf n i).child = w.child :=
  (child_tabInsert (w.leaveParent (.term n)) (.term n) i).trans (child_leaveParent w (.term n))

theorem Wired.mem_tabs_setupLayoutLeaf (h : w.Wired) (i : Int) :
    b ∈ (w.setupLayoutLeaf n i).tabs ↔ b = .term n ∨ b ∈ w.tabs := by
  have htabs : (w.setupLayoutLeaf n i).tabs =
      insertAt i (.term n) ((w.tabs.erase (.term n)).erase (.term n)) := by
    simp [GuiMainWindow.setupLayoutLeaf, GuiMainWindow.onTabLayoutChanged]
  rw [htabs, mem_insertAt, (h.tabsNodup.erase _).mem_erase_iff, h.tabsNodup.mem_erase_iff]
  tauto

/-- A terminal on the move becomes a tab. -/
theorem Panes.setupLayoutLeaf (h : w.Panes [n]) (hn : n ∈ w.opened)
    (hp : w.parentSplit (.term n) = none) (i : Int) : (w.setupLayoutLeaf n i).Panes [] := by
  have hw : (w.setupLayoutLeaf n i).Wired :=
    (((h.leaveParent hp).tabInsert (by simpa using hp) (by simp)).terminalList
      _).onTabLayoutChanged
  have hobj : (w.setupLayoutLeaf n i).objects = w.objects := objects_setupLayoutLeaf i
  have hopened : (w.setupLayoutLeaf n i).opened = w.opened := congrArg Objects.opened hobj
  have hdying : (w.setupLayoutLeaf n i).dying = w.dying := congrArg Objects.dying hobj
  have hterm : (w.setupLayoutLeaf n i).nextTerminal = w.nextTerminal :=
    congrArg Objects.nextTerminal hobj
  refine
    { hw with
      sized := by simpa using h.sized
      placed := ?_
      dead := by simpa [hdying, nextSplitter_eq hobj] using h.dead
      openedNodup := hopened ▸ h.openedNodup
      openedLt := by simpa [hopened, hterm] using h.openedLt }
  intro x _
  have hhung : (w.setupLayoutLeaf n i).Hung x ↔ w.Hung x ∨ x = .term n := by
    simp only [Hung, h.mem_tabs_setupLayoutLeaf, child_setupLayoutLeaf]
    tauto
  have hlive : (w.setupLayoutLeaf n i).Live x ↔ w.Live x := by
    cases x <;> simp [Live, hopened]
  rw [hhung, hlive]
  by_cases hx : x = .term n
  · simp [hx, Live, hn]
  · simp [hx, h.placed x (by simpa using hx)]

/-- What `GuiMainWindow::closeTerminal` does. -/
theorem Wired.mainCloseTerminal (h : w.Wired) (t : Nat) :
    (w.mainCloseTerminal t).Wired ∧
      (w.mainCloseTerminal t).tabs = w.tabs.erase (.term t) ∧
      (w.mainCloseTerminal t).child = w.child ∧
      (w.mainCloseTerminal t).objects = w.objects := by
  have hl := h.terminalList (w.terminalList.filter (fun x => x ≠ t))
  unfold GuiMainWindow.mainCloseTerminal
  dsimp only
  by_cases ht : .term t ∈ w.tabs
  · have hlt : w.tabs.idxOf (.term t) < w.tabs.length := List.idxOf_lt_length_of_mem ht
    have hget : w.tabs[w.tabs.idxOf (.term t)]? = some (.term t) := by
      rw [List.getElem?_eq_getElem hlt, List.getElem_idxOf hlt]
    have hind : indexOf w.tabs (.term t) = w.tabs.idxOf (.term t) := if_pos ht
    rw [if_pos (indexOf_ne ht), hind]
    exact ⟨hl.tabRemove.onTabLayoutChanged, hl.tabs_tabRemove hget, child_tabRemove _ _,
      objects_tabRemove _ _⟩
  · have hind : indexOf w.tabs (.term t) = -1 := if_neg ht
    rw [if_neg (not_not.mpr hind)]
    exact ⟨hl.onTabLayoutChanged, (List.erase_of_not_mem ht).symm, rfl, rfl⟩

/-- A terminal on the move is closed. -/
theorem Panes.mainCloseTerminal (h : w.Panes [t]) (hp : w.parentSplit (.term t) = none) :
    ((w.mainCloseTerminal t).recordClosed t).Panes [] := by
  obtain ⟨hw, htabs, hchild, hobj⟩ := h.toWired.mainCloseTerminal t
  have hopened : (w.mainCloseTerminal t).opened = w.opened := congrArg Objects.opened hobj
  have hdying : (w.mainCloseTerminal t).dying = w.dying := congrArg Objects.dying hobj
  have hterm : (w.mainCloseTerminal t).nextTerminal = w.nextTerminal :=
    congrArg Objects.nextTerminal hobj
  refine
    { linked := hw.linked, below := hw.below, fresh := hw.fresh, shown := hw.shown,
      tabsNodup := hw.tabsNodup, roots := hw.roots, cache := hw.cache
      sized := hchild ▸ h.sized
      placed := ?_
      dead := ?_
      openedNodup := by
        rw [recordClosed, hopened]
        exact h.openedNodup.erase t
      openedLt := ?_ }
  · intro x _
    by_cases hx : x = .term t
    · have hno : ∀ s, .term t ∉ w.child s := fun s => h.not_mem_child hp
      subst hx
      simp [Hung, Live, recordClosed, htabs, hchild, hopened, hno, h.tabsNodup.not_mem_erase,
        h.openedNodup.not_mem_erase]
    · have hold := h.placed x (by simpa using hx)
      cases x with
      | term u =>
          have hu : u ≠ t := by simpa using hx
          simpa [Hung, Live, recordClosed, htabs, hchild, hopened, List.mem_erase_of_ne hx,
            List.mem_erase_of_ne hu] using hold
      | split q =>
          simpa [Hung, Live, recordClosed, htabs, hchild, List.mem_erase_of_ne hx] using hold
  · simp only [recordClosed, hdying, hchild, nextSplitter_eq hobj]
    exact h.dead
  · intro u hu
    simp only [recordClosed, hopened, hterm] at hu ⊢
    exact h.openedLt u (List.mem_of_mem_erase hu)

/-- A new terminal is on the move. -/
theorem Panes.newTerminal (h : w.Panes []) :
    w.newTerminal.Panes [w.nextTerminal] ∧ w.parentSplit (.term w.nextTerminal) = none := by
  have hno : w.nextTerminal ∉ w.opened := fun hm => lt_irrefl _ (h.openedLt _ hm)
  have hfree : ¬ w.Hung (.term w.nextTerminal) := fun hm =>
    hno ((h.placed _ (by simp)).mp hm)
  refine ⟨?_, ?_⟩
  · refine
      { linked := h.linked, below := h.below, fresh := h.fresh, shown := h.shown,
        tabsNodup := h.tabsNodup, roots := h.roots, cache := h.cache, sized := h.sized,
        dead := h.dead
        placed := ?_
        openedNodup := ?_
        openedLt := ?_ }
    · intro x hx
      have hx' : x ≠ .term w.nextTerminal := hx _ (by simp)
      refine (h.placed x (by simp)).trans ?_
      cases x with
      | term u =>
          have hu : u ≠ w.nextTerminal := by simpa using hx'
          simp [Live, GuiMainWindow.newTerminal, hu]
      | split q => rfl
    · refine List.nodup_append.mpr ⟨h.openedNodup, List.nodup_singleton _, ?_⟩
      rintro u hu v hv rfl
      rw [List.mem_singleton.mp hv] at hu
      exact hno hu
    · intro u hu
      rcases List.mem_append.mp hu with hu | hu
      · exact Nat.lt_succ_of_lt (h.openedLt u hu)
      · rw [List.mem_singleton.mp hu]
        exact Nat.lt_succ_self _
  · by_contra hne
    obtain ⟨q, hq⟩ := Option.ne_none_iff_exists'.mp hne
    exact hfree (.inr ⟨q, h.parentSplit_iff.mp hq⟩)

/-- The dying splitters are no children, so that nothing is lost with them. -/
theorem Panes.purge (h : w.Panes []) : w.purge.Panes [] where
  linked := h.linked
  below := h.below
  fresh := h.fresh
  shown s b hb := by
    refine List.mem_filter.mpr ⟨h.shown s b hb, ?_⟩
    simp only [decide_eq_true_eq]
    rintro d hd rfl
    exact (h.placed (.split d) (by simp)).mp (.inr ⟨s, hb⟩) (h.dead d hd).2
  tabsNodup := h.tabsNodup
  roots := h.roots
  cache := h.cache
  sized := h.sized
  placed := h.placed
  dead d hd := by simp [GuiMainWindow.purge] at hd
  openedNodup := h.openedNodup
  openedLt := h.openedLt

theorem Panes.onTabLayoutChanged (h : w.Panes []) : w.onTabLayoutChanged.Panes [] :=
  { h.toWired.onTabLayoutChanged with
    sized := h.sized
    placed := h.placed
    dead := h.dead
    openedNodup := h.openedNodup
    openedLt := h.openedLt }

theorem Panes.terminalList (h : w.Panes []) (l : List Nat) :
    ({ w with terminalList := l } : GuiMainWindow).Panes [] :=
  { h.toWired.terminalList l with
    sized := h.sized
    placed := h.placed
    dead := h.dead
    openedNodup := h.openedNodup
    openedLt := h.openedLt }

end Operations

/-- The terminal that an operation takes out of its place, if it applies. -/
def moved (w : GuiMainWindow) : PaneOp → Option Nat
  | .openTab => none
  | .split _ _ => none
  | .close t => if t ∈ w.opened then some t else none
  | .dropOnTerminal dropped dst _ =>
      if dropped ∈ w.opened ∧ dst ∈ w.opened ∧ dropped ≠ dst then some dropped else none
  | .dropOnTabBar dropped tabind type =>
      if dropped ∈ w.opened ∧ (type = .left ∨ type = .right) ∧ tabind ≠ -1 then some dropped
      else none

/-- What an operation does, in terms of the moves of a terminal. -/
inductive Performed (w : GuiMainWindow) (op : PaneOp) : GuiMainWindow → Prop where
  | skip (hm : w.moved op = none) : Performed w op w
  | openTab (hm : w.moved op = none) :
      Performed w op (w.newTerminal.setupLayoutLeaf w.nextTerminal (-1))
  | split (hm : w.moved op = none) {t : Nat} {type : SplitType} {w₁ : GuiMainWindow}
      (l : List Nat) (hj : Joining w.newTerminal t type w.nextTerminal w₁) :
      Performed w op ({ w₁ with terminalList := l } : GuiMainWindow).onTabLayoutChanged
  | close {t : Nat} (hop : op = .close t) (hm : w.moved op = some t) {w₁ : GuiMainWindow}
      (hwired : w₁.Wired) (hl : Left w t w₁) :
      Performed w op ((w₁.mainCloseTerminal t).recordClosed t)
  | dropOnTerminal {dropped dst : Nat} {type : SplitType}
      (hop : op = .dropOnTerminal dropped dst type) (hm : w.moved op = some dropped)
      {w₁ w₂ : GuiMainWindow} (hw₁ : w₁.Panes [dropped]) (hl : Left w dropped w₁)
      (hj : Joining w₁ dst type dropped w₂) : Performed w op w₂
  | dropOnTabBar {dropped : Nat} {tabind : Int} {type : SplitType}
      (hop : op = .dropOnTabBar dropped tabind type) (hm : w.moved op = some dropped)
      {w₁ : GuiMainWindow} (i : Int) (hl : Left w dropped w₁) :
      Performed w op (w₁.setupLayoutLeaf dropped i)

section Runs

variable {w : GuiMainWindow}

/-- Every operation succeeds and keeps the invariant. -/
theorem Panes.perform (h : w.Panes []) (op : PaneOp) :
    ∃ w', w.perform op = some w' ∧ Performed w op w' ∧ w'.Panes [] := by
  have hhung : ∀ t ∈ w.opened, w.Hung (.term t) := fun t ht =>
    (h.placed (.term t) (by simp)).mpr ht
  cases op with
  | openTab =>
      obtain ⟨hn, hp⟩ := h.newTerminal
      exact ⟨_, rfl, .openTab rfl,
        hn.setupLayoutLeaf (by simp [GuiMainWindow.newTerminal]) hp _⟩
  | split t type =>
      by_cases ht : t ∈ w.opened
      · obtain ⟨hn, hp⟩ := h.newTerminal
        have hne : t ≠ w.nextTerminal := (h.openedLt t ht).ne
        obtain ⟨w₁, hw₁, hwired, hj⟩ := hn.createSplitLayout type (hhung t ht) hp hne
        have hpanes := hn.joining (by simp [GuiMainWindow.newTerminal]) hwired hj
        refine ⟨_, ?_, .split rfl (w₁.terminalList ++ [w.nextTerminal]) hj,
          (hpanes.terminalList _).onTabLayoutChanged⟩
        simp only [GuiMainWindow.perform, if_pos ht, setupLayoutSplit, hw₁,
          Option.bind_eq_bind, Option.bind_some]
      · exact ⟨w, if_neg ht, .skip rfl, h⟩
  | close t =>
      by_cases ht : t ∈ w.opened
      · obtain ⟨w₁, hw₁, hwired, hl⟩ := h.leaveSplit t
        obtain ⟨hpanes, hp, -⟩ := h.left hwired hl
        refine ⟨_, ?_, .close rfl (if_pos ht) hwired hl, hpanes.mainCloseTerminal hp⟩
        simp only [GuiMainWindow.perform, if_pos ht, GuiMainWindow.closeTerminal, hw₁,
          Option.bind_eq_bind, Option.bind_some]
      · exact ⟨w, if_neg ht, .skip (if_neg ht), h⟩
  | dropOnTerminal dropped dst type =>
      by_cases hopen : dropped ∈ w.opened ∧ dst ∈ w.opened ∧ dropped ≠ dst
      · obtain ⟨w₁, hw₁, hwired, hl⟩ := h.leaveSplit dropped
        obtain ⟨hpanes, hp, ds, hobj⟩ := h.left hwired hl
        have hopened : w₁.opened = w.opened := congrArg Objects.opened hobj
        have hdst : w₁.Hung (.term dst) := by
          refine (hpanes.placed _ (by simpa using hopen.2.2.symm)).mpr ?_
          simpa [Live, hopened] using hopen.2.1
        obtain ⟨w₂, hw₂, hwired₂, hj⟩ :=
          hwired.createSplitLayout type hdst hp hopen.2.2.symm
        refine ⟨w₂, ?_, .dropOnTerminal rfl (if_pos hopen) hpanes hl hj,
          hpanes.joining (hopened ▸ hopen.1) hwired₂ hj⟩
        simp only [GuiMainWindow.perform, if_pos hopen, hw₁, Option.bind_eq_bind,
          Option.bind_some, hw₂]
      · exact ⟨w, if_neg hopen, .skip (if_neg hopen), h⟩
  | dropOnTabBar dropped tabind type =>
      by_cases hopen : dropped ∈ w.opened ∧ (type = .left ∨ type = .right) ∧ tabind ≠ -1
      · obtain ⟨w₁, hw₁, hwired, hl⟩ := h.leaveSplit dropped
        obtain ⟨hpanes, hp, ds, hobj⟩ := h.left hwired hl
        have hopened : w₁.opened = w.opened := congrArg Objects.opened hobj
        refine ⟨_, ?_, .dropOnTabBar rfl (if_pos hopen)
          (if type = .left then tabind else tabind + 1) hl,
          hpanes.setupLayoutLeaf (hopened ▸ hopen.1) hp _⟩
        simp only [GuiMainWindow.perform, if_pos hopen, hw₁, Option.bind_eq_bind,
          Option.bind_some]
      · exact ⟨w, if_neg hopen, .skip (if_neg hopen), h⟩

theorem step_eq {op : PaneOp} {w' : GuiMainWindow} (hw' : w.perform op = some w') :
    w.step op = some w'.purge := by
  rw [GuiMainWindow.step, hw']
  rfl

/-- Every run succeeds and keeps the invariant. -/
theorem Panes.run (h : w.Panes []) (ops : List PaneOp) :
    ∃ w', w.run ops = some w' ∧ w'.Panes [] := by
  induction ops generalizing w with
  | nil => exact ⟨w, rfl, h⟩
  | cons op ops ih =>
      obtain ⟨w₁, hw₁, -, h₁⟩ := h.perform op
      obtain ⟨w', hw', h'⟩ := ih h₁.purge
      exact ⟨w', by rw [GuiMainWindow.run, step_eq hw₁]; exact hw', h'⟩

theorem run_concat (ops : List PaneOp) (op : PaneOp) :
    w.run (ops ++ [op]) = (w.run ops).bind (fun w => w.step op) := by
  induction ops generalizing w with
  | nil =>
      simp only [List.nil_append, GuiMainWindow.run, Option.bind_some]
      cases w.step op <;> rfl
  | cons o ops ih =>
      simp only [List.cons_append, GuiMainWindow.run, ih]
      cases w.step o <;> rfl

theorem panes_init : init.Panes [] where
  linked := ⟨by rintro b (t | s) <;> simp [forest, init], by rintro (t | s) <;> simp [init]⟩
  below := by simp [init]
  fresh := by simp [init]
  shown := by simp [init]
  tabsNodup := List.nodup_nil
  roots := by simp [init]
  cache := by simp [RootsCached, init]
  sized := by simp [init]
  placed := by rintro (t | s) <;> simp [Hung, Live, init]
  dead := by simp [init]
  openedNodup := List.nodup_nil
  openedLt := by simp [init]

/-- A property that an operation keeps exactly under the condition `C` holds all
along a run if and only if the condition is met all along the run.  `I` is the
invariant that carries the property `P`. -/
theorem run_forall_iff {P I : GuiMainWindow → Prop} {C : GuiMainWindow → PaneOp → Prop}
    (hinit : I init) (hP : ∀ w, w.Panes [] → I w → P w)
    (hkeep : ∀ w op w', w.Panes [] → w.perform op = some w' → Performed w op w' →
      w'.Panes [] → I w → C w op → I w'.purge)
    (hbreak : ∀ w op w', w.Panes [] → w.perform op = some w' → Performed w op w' →
      w'.Panes [] → P w → P w'.purge → C w op)
    (ops : List PaneOp) :
    (∀ pre, pre <+: ops → ∀ w, init.run pre = some w → P w) ↔
      ∀ pre op, pre ++ [op] <+: ops → ∀ w, init.run pre = some w → C w op := by
  constructor
  · intro h pre op hpre w hw
    obtain ⟨w₀, hw₀, hpanes⟩ := panes_init.run pre
    obtain rfl : w₀ = w := Option.some.inj (hw₀.symm.trans hw)
    obtain ⟨w', hw', hp, hpanes'⟩ := hpanes.perform op
    have hrun : init.run (pre ++ [op]) = some w'.purge := by
      rw [run_concat, hw]
      exact step_eq hw'
    exact hbreak w₀ op w' hpanes hw' hp hpanes'
      (h pre ((List.prefix_append pre [op]).trans hpre) w₀ hw) (h _ hpre _ hrun)
  · intro h pre hpre w hw
    -- induction on the length of the part that has been run
    have hI : I w := by
      induction pre using List.reverseRecOn generalizing w with
      | nil =>
          obtain rfl : init = w := Option.some.inj hw
          exact hinit
      | append_singleton pre op ih =>
          obtain ⟨w₀, hw₀, hpanes⟩ := panes_init.run pre
          obtain ⟨w', hw', hp, hpanes'⟩ := hpanes.perform op
          obtain rfl : w'.purge = w := by
            rw [run_concat, hw₀] at hw
            exact Option.some.inj ((step_eq hw').symm.trans hw)
          have hI₀ := ih ((List.prefix_append pre [op]).trans hpre) w₀ hw₀
          exact hkeep w₀ op w' hpanes hw' hp hpanes' hI₀ (h pre op hpre w₀ hw₀)
    obtain ⟨w₀, hw₀, hpanes⟩ := panes_init.run pre
    obtain rfl : w₀ = w := Option.some.inj (hw₀.symm.trans hw)
    exact hP w₀ hpanes hI

end Runs

section Trees

variable {w : GuiMainWindow} {b : GuiBase}

/-- `populateAllTerminals` lists the terminals of a subtree. -/
theorem populate_eq (w : GuiMainWindow) (n : Nat) (b : GuiBase) :
    populate w.child n b = (w.forest.subtree (n + 1) b).filterMap
      (fun | .term t => some t | .split _ => none) := by
  induction n generalizing b with
  | zero =>
      cases b with
      | term t => simp [populate, Forest.subtree]
      | split s => simp [populate, Forest.subtree]
  | succ n ih =>
      cases b with
      | term t => simp [populate, Forest.subtree]
      | split s =>
          rw [populate, Forest.subtree, List.filterMap_cons_none rfl, children_split,
            List.filterMap_flatMap]
          exact List.flatMap_congr fun c _ => ih c

theorem Wired.mem_populateAllTerminals (h : w.Wired) {t : Nat} :
    t ∈ w.populateAllTerminals b ↔ w.forest.Under b (.term t) := by
  refine ⟨under_of_mem_populate, fun hu => ?_⟩
  have hmem := h.ranked.mem_subtree h.rank_le (n := w.nextSplitter + 1) (by omega) (by omega) hu
  rw [populateAllTerminals, populate_eq]
  exact List.mem_filterMap.mpr ⟨_, hmem, rfl⟩

theorem Wired.nodup_populateAllTerminals (h : w.Wired) (b : GuiBase) :
    (w.populateAllTerminals b).Nodup := by
  rw [populateAllTerminals, populate_eq]
  refine (h.linked.nodup_subtree h.ranked _ b).filterMap ?_
  rintro (t | s) (t' | s') u hu hu'
  all_goals simp_all

/-- Every pane that must have a place is in a tab. -/
theorem Panes.exists_tab (h : w.Panes []) (hb : w.Live b) :
    ∃ r ∈ w.tabs, w.forest.Under r b := by
  obtain ⟨r, hr, hu⟩ := h.linked.exists_root h.ranked b
  have hp : w.parentSplit r = none := by simpa [forest] using hr
  refine ⟨r, ?_, hu⟩
  have hlive : w.Live r := by
    rcases Forest.under_iff.mp hu with rfl | ⟨c, hc, -⟩
    · exact hb
    · cases r with
      | term t => simp at hc
      | split s => exact List.ne_nil_of_mem hc
  exact h.mem_tabs ((h.placed r (by simp)).mpr hlive) hp

/-- Panes below a pane with a place have a place. -/
theorem Panes.live_of_under (h : w.Panes []) {r : GuiBase} (hr : w.Live r)
    (hu : w.forest.Under r b) : w.Live b := by
  rcases Relation.ReflTransGen.cases_tail hu with rfl | ⟨p, -, hp⟩
  · exact hr
  · cases p with
    | term t => simp at hp
    | split s => exact (h.placed b (by simp)).mp (.inr ⟨s, hp⟩)

theorem Panes.live_of_mem_tabs (h : w.Panes []) (hb : b ∈ w.tabs) : w.Live b :=
  (h.placed b (by simp)).mp (.inl hb)

/-- Below every pane with a place there is an open terminal. -/
theorem Panes.exists_terminal (h : w.Panes []) (hb : w.Live b) :
    ∃ t ∈ w.opened, w.forest.Under b (.term t) := by
  obtain ⟨x, hu, hx⟩ := h.ranked.exists_leaf h.rank_le b
  have hlive := h.live_of_under hb hu
  cases x with
  | term t => exact ⟨t, hlive, hu⟩
  | split s => exact absurd hx hlive

/-- Tabs have disjoint trees. -/
theorem Wired.tab_unique (h : w.Wired) {r r' : GuiBase} (hr : r ∈ w.tabs) (hr' : r' ∈ w.tabs)
    (hu : w.forest.Under r b) (hu' : w.forest.Under r' b) : r = r' :=
  h.linked.root_unique (by simp [forest, h.roots r hr]) (by simp [forest, h.roots r' hr']) hu hu'

/-- The terminals of the tabs are the open terminals, each of them once. -/
theorem Panes.count_terminals (h : w.Panes []) (t : Nat) :
    (w.tabs.flatMap w.populateAllTerminals).count t = if t ∈ w.opened then 1 else 0 := by
  have hnodup : (w.tabs.flatMap w.populateAllTerminals).Nodup := by
    refine List.nodup_flatMap.mpr ⟨fun b _ => h.nodup_populateAllTerminals b, ?_⟩
    refine h.tabsNodup.imp_of_mem ?_
    intro r r' hr hr' hne u hu hu'
    exact hne (h.tab_unique hr hr' (h.mem_populateAllTerminals.mp hu)
      (h.mem_populateAllTerminals.mp hu'))
  have hmem : t ∈ w.tabs.flatMap w.populateAllTerminals ↔ t ∈ w.opened := by
    simp only [List.mem_flatMap, h.mem_populateAllTerminals]
    constructor
    · rintro ⟨r, hr, hu⟩
      exact h.live_of_under (h.live_of_mem_tabs hr) hu
    · intro ht
      exact h.exists_tab (b := .term t) ht
  split_ifs with ht
  · exact List.count_eq_one_of_mem hnodup (hmem.mpr ht)
  · exact List.count_eq_zero_of_not_mem (fun hm => ht (hmem.mp hm))

end Trees

/-- The pane tree that an operation leaves behind. -/
structure PaneTree (w : GuiMainWindow) : Prop where
  /-- every open terminal occurs exactly once, and no other terminal does -/
  once : ∀ t, (w.tabs.flatMap w.populateAllTerminals).count t = if t ∈ w.opened then 1 else 0
  links : ∀ b s, w.parentSplit b = some s ↔ b ∈ w.child s
  nodup : ∀ s, (w.child s).Nodup
  sized : ∀ r ∈ w.tabs, ∀ s, w.forest.Under r (.split s) → 2 ≤ (w.child s).length
  roots : ∀ r ∈ w.tabs, w.parentSplit r = none

theorem Panes.paneTree {w : GuiMainWindow} (h : w.Panes []) : w.PaneTree where
  once := h.count_terminals
  links _ _ := h.parentSplit_iff
  nodup _ := h.child_nodup
  sized _ hr s hu := (h.sized s).resolve_left
    (h.live_of_under (h.live_of_mem_tabs hr) hu)
  roots := h.roots

/-- **Every run of operations succeeds and leaves a proper pane tree.** -/
theorem run_paneTree (ops : List PaneOp) : ∃ w, init.run ops = some w ∧ w.PaneTree := by
  obtain ⟨w, hw, h⟩ := panes_init.run ops
  exact ⟨w, hw, h.paneTree⟩

end GuiMainWindow

end Pane
end Qutty
