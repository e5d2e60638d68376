import Qutty.Pane.Layout

/-!
# Wiring of panes

The invariants that hold all the time, also in the middle of an operation
(`Wired`): child vectors and parent pointers agree, a splitter inside another
one is younger, splitters show their children, tab roots have no parent, and the
cache knows the index of every tab root.  Each of the functions that change the
layout keeps them.

The links of a window form a `Forest`; `addBaseWidget` and `removeBaseWidget`
are its `link` and `unlink`.
-/

namespace Qutty
namespace Pane

open Lib

section Lists

variable {l : List GuiBase} {b x : GuiBase}

/-- Without duplicates, `erase` with `std::remove` just erases. -/
theorem eraseRemove_eq (hl : l.Nodup) (hb : b ∈ l) : eraseRemove l b = some (l.erase b) := by
  have hkept : l.filter (fun x => x ≠ b) = l.erase b := by
    rw [hl.erase_eq_filter]
    refine List.filter_congr fun x _ => ?_
    by_cases hx : x = b <;> simp [hx]
  have hpos : 0 < l.length := List.length_pos_of_mem hb
  have hlen : (l.erase b).length + 1 = l.length := by
    rw [List.length_erase_of_mem hb]
    omega
  unfold eraseRemove
  simp only [hkept, if_pos hb, hlen, List.drop_length, List.append_nil]

theorem mem_insertAt {i : Int} : x ∈ insertAt i b l ↔ x = b ∨ x ∈ l := by
  unfold insertAt
  split_ifs with hi
  · simp [or_comm]
  · have hle : i.toNat ≤ l.length := by omega
    exact List.mem_insertIdx hle

theorem nodup_insertAt {i : Int} (hl : l.Nodup) (hb : b ∉ l) : (insertAt i b l).Nodup := by
  unfold insertAt
  split_ifs with hi
  · refine List.nodup_append.mpr ⟨hl, List.nodup_singleton b, ?_⟩
    rintro y hy z hz rfl
    rw [List.mem_singleton.mp hz] at hy
    exact hb hy
  · have hle : i.toNat ≤ l.length := by omega
    exact (List.perm_insertIdx b l hle).nodup_iff.mpr (List.nodup_cons.mpr ⟨hb, hl⟩)

/-- The place of an element in a list without duplicates. -/
theorem erase_eq_eraseIdx_of_getElem? {i : Nat} (hl : l.Nodup) (hi : l[i]? = some x) :
    l.erase x = l.eraseIdx i := by
  obtain ⟨hlt, rfl⟩ := List.getElem?_eq_some_iff.mp hi
  exact List.erase_eq_eraseIdx_of_idxOf (hl.idxOf_getElem i hlt)

/-- An element that takes the place of another one. -/
theorem insertAt_erase {i : Nat} (hl : l.Nodup) (hi : l[i]? = some x) :
    insertAt i b (l.erase x) = l.set i b := by
  have hlt : i < l.length := (List.getElem?_eq_some_iff.mp hi).1
  have hlen : (l.eraseIdx i).length = l.length - 1 := List.length_eraseIdx_of_lt hlt
  unfold insertAt
  rw [erase_eq_eraseIdx_of_getElem? hl hi, if_neg (by omega), Int.toNat_natCast]
  exact List.insertIdx_eraseIdx_self (by omega) b

theorem mem_set_iff {i : Nat} {y : GuiBase} (hl : l.Nodup) (hi : l[i]? = some x) :
    y ∈ l.set i b ↔ y = b ∨ y ∈ l ∧ y ≠ x := by
  rw [← insertAt_erase hl hi, mem_insertAt, hl.mem_erase_iff, and_comm]

/-- A list without duplicates with one element besides `x`. -/
theorem mem_iff_of_erase_eq_singleton (hl : l.Nodup) (hx : x ∈ l) (he : l.erase x = [b]) :
    b ≠ x ∧ ∀ y, y ∈ l ↔ y = x ∨ y = b := by
  have hmem : ∀ y, y ∈ l.erase x ↔ y = b := by simp [he]
  refine ⟨(hl.mem_erase_iff.mp ((hmem b).mpr rfl)).1, fun y => ?_⟩
  rw [← hmem y, hl.mem_erase_iff]
  by_cases hy : y = x
  · simp [hy, hx]
  · simp [hy]

/-- One element replaces another one. -/
theorem length_erase_append (hx : x ∈ l) : (l.erase x ++ [b]).length = l.length := by
  have hpos := List.length_pos_of_mem hx
  rw [List.length_append, List.length_erase_of_mem hx, List.length_singleton]
  omega

theorem indexOf_ne (hb : b ∈ l) : indexOf l b ≠ -1 := by
  unfold indexOf
  rw [if_pos hb]
  omega

/-- One more element in one of a family of lists. -/
theorem mem_update_append {f : Nat → List GuiBase} {s q : Nat} :
    x ∈ Function.update f s (f s ++ [b]) q ↔ x ∈ f q ∨ q = s ∧ x = b := by
  rw [Function.update_apply]
  split_ifs with hq <;> simp [hq]

end Lists

namespace GuiMainWindow

/-- The part of the state that changes only when panes are created or deleted. -/
structure Objects where
  nextTerminal : Nat
  nextSplitter : Nat
  orientation : Nat → Orientation
  dying : List Nat
  opened : List Nat
  closed : List Nat

/-- The objects of a window. -/
def objects (w : GuiMainWindow) : Objects :=
  ⟨w.nextTerminal, w.nextSplitter, w.orientation, w.dying, w.opened, w.closed⟩

section Fields

variable (w : GuiMainWindow) (b : GuiBase) (s : Nat) (i : Int)

/-- `leaveParent` takes the pane from the pages of the tab widget. -/
@[simp] theorem tabs_leaveParent : (w.leaveParent b).tabs = w.tabs.erase b := by
  unfold leaveParent
  dsimp only
  split_ifs with hb
  · rfl
  · exact (List.erase_of_not_mem hb).symm

@[simp] theorem widgets_leaveParent : (w.leaveParent b).widgets s = (w.widgets s).erase b := by
  unfold leaveParent
  dsimp only
  split_ifs <;> rfl

@[simp] theorem widgets_tabRemove : (w.tabRemove i).widgets = w.widgets := by
  unfold tabRemove
  split_ifs <;> rfl

@[simp] theorem child_leaveParent : (w.leaveParent b).child = w.child := by
  unfold leaveParent
  dsimp only
  split_ifs <;> rfl

@[simp] theorem parentSplit_leaveParent : (w.leaveParent b).parentSplit = w.parentSplit := by
  unfold leaveParent
  dsimp only
  split_ifs <;> rfl

@[simp] theorem objects_leaveParent : (w.leaveParent b).objects = w.objects := by
  unfold leaveParent
  dsimp only
  split_ifs <;> rfl

@[simp] theorem tabs_addBaseWidget : (w.addBaseWidget s i b).tabs = w.tabs.erase b := by
  simp [addBaseWidget]

@[simp] theorem child_addBaseWidget :
    (w.addBaseWidget s i b).child = Function.update w.child s (w.child s ++ [b]) := by
  simp [addBaseWidget]

@[simp] theorem parentSplit_addBaseWidget :
    (w.addBaseWidget s i b).parentSplit = Function.update w.parentSplit b (some s) := by
  simp [addBaseWidget]

@[simp] theorem objects_addBaseWidget : (w.addBaseWidget s i b).objects = w.objects :=
  objects_leaveParent ({ w with
    child := Function.update w.child s (w.child s ++ [b])
    parentSplit := Function.update w.parentSplit b (some s) }) b

@[simp] theorem tabs_tabInsert :
    (w.tabInsert i b).tabs = insertAt i b (w.tabs.erase b) := by
  simp [tabInsert, onTabLayoutChanged]

@[simp] theorem child_tabInsert : (w.tabInsert i b).child = w.child := by
  simp [tabInsert, onTabLayoutChanged]

@[simp] theorem parentSplit_tabInsert : (w.tabInsert i b).parentSplit = w.parentSplit := by
  simp [tabInsert, onTabLayoutChanged]

@[simp] theorem objects_tabInsert : (w.tabInsert i b).objects = w.objects :=
  objects_leaveParent w b

@[simp] theorem child_tabRemove : (w.tabRemove i).child = w.child := by
  unfold tabRemove
  split_ifs <;> rfl

@[simp] theorem parentSplit_tabRemove : (w.tabRemove i).parentSplit = w.parentSplit := by
  unfold tabRemove
  split_ifs <;> rfl

@[simp] theorem objects_tabRemove : (w.tabRemove i).objects = w.objects := by
  unfold tabRemove
  split_ifs <;> rfl

theorem nextSplitter_eq {w w' : GuiMainWindow} (h : w'.objects = w.objects) :
    w'.nextSplitter = w.nextSplitter :=
  congrArg Objects.nextSplitter h

theorem orientation_eq {w w' : GuiMainWindow} (h : w'.objects = w.objects) :
    w'.orientation = w.orientation :=
  congrArg Objects.orientation h

end Fields

/-- The links of the panes. -/
def forest (w : GuiMainWindow) : Forest GuiBase where
  children
    | .term _ => []
    | .split s => w.child s
  parent b := (w.parentSplit b).map .split

/-- Splitters are ranked by age, terminals last. -/
def rank (w : GuiMainWindow) : GuiBase → Nat
  | .split s => s
  | .term _ => w.nextSplitter

@[simp] theorem children_term (w : GuiMainWindow) (t : Nat) :
    w.forest.children (.term t) = [] := rfl

@[simp] theorem children_split (w : GuiMainWindow) (s : Nat) :
    w.forest.children (.split s) = w.child s := rfl

theorem forest_addBaseWidget (w : GuiMainWindow) (s : Nat) (i : Int) (b : GuiBase) :
    (w.addBaseWidget s i b).forest = w.forest.link (.split s) b := by
  have hchild : (w.addBaseWidget s i b).forest.children =
      (w.forest.link (.split s) b).children := by
    funext x
    cases x with
    | term t => simp [Forest.link]
    | split q =>
        by_cases hq : q = s
        · subst hq
          simp [Forest.link]
        · simp [Forest.link, hq]
  have hparent : (w.addBaseWidget s i b).forest.parent =
      (w.forest.link (.split s) b).parent := by
    funext x
    by_cases hx : x = b
    · subst hx
      simp [Forest.link, forest]
    · simp [Forest.link, forest, hx]
  exact Forest.ext hchild hparent

/-- A child leaves the links of its splitter. -/
def detach (w : GuiMainWindow) (s : Nat) (b : GuiBase) : GuiMainWindow :=
  { w with
    child := Function.update w.child s ((w.child s).erase b)
    parentSplit := Function.update w.parentSplit b none }

/-- What `removeBaseWidget` does to a child. -/
def removed (w : GuiMainWindow) (s : Nat) (b : GuiBase) : GuiMainWindow :=
  (w.detach s b).leaveParent b

theorem removeBaseWidget_eq {w : GuiMainWindow} {s : Nat} {b : GuiBase}
    (hn : (w.child s).Nodup) (hb : b ∈ w.child s) :
    w.removeBaseWidget s b = some (w.removed s b) := by
  simp [removeBaseWidget, removed, detach, eraseRemove_eq hn hb]

section Removed

variable (w : GuiMainWindow) (s : Nat) (b : GuiBase)

@[simp] theorem tabs_removed : (w.removed s b).tabs = w.tabs.erase b := by
  simp [removed, detach]

@[simp] theorem child_removed :
    (w.removed s b).child = Function.update w.child s ((w.child s).erase b) := by
  simp [removed, detach]

@[simp] theorem parentSplit_removed :
    (w.removed s b).parentSplit = Function.update w.parentSplit b none := by
  simp [removed, detach]

@[simp] theorem objects_removed : (w.removed s b).objects = w.objects :=
  objects_leaveParent (w.detach s b) b

theorem forest_detach : (w.detach s b).forest = w.forest.unlink (.split s) b := by
  have hchild : (w.detach s b).forest.children = (w.forest.unlink (.split s) b).children := by
    funext x
    cases x with
    | term t => simp [Forest.unlink]
    | split q =>
        by_cases hq : q = s
        · subst hq
          simp [Forest.unlink, detach]
        · simp [Forest.unlink, detach, hq]
  have hparent : (w.detach s b).forest.parent = (w.forest.unlink (.split s) b).parent := by
    funext x
    by_cases hx : x = b
    · subst hx
      simp [Forest.unlink, forest, detach]
    · simp [Forest.unlink, forest, detach, hx]
  exact Forest.ext hchild hparent

end Removed

/-- The cache knows the index of every tab root. -/
def RootsCached (w : GuiMainWindow) : Prop :=
  ∀ (i : Nat) b, w.tabs[i]? = some b → w.getTerminalTabInd b = i

/-- The invariants that hold at every moment. -/
structure Wired (w : GuiMainWindow) : Prop where
  linked : w.forest.Linked
  below : ∀ s s', .split s' ∈ w.child s → s < s'
  fresh : ∀ s, w.nextSplitter ≤ s →
    w.child s = [] ∧ w.parentSplit (.split s) = none ∧ .split s ∉ w.tabs
  shown : ∀ s b, b ∈ w.child s → b ∈ w.widgets s
  tabsNodup : w.tabs.Nodup
  roots : ∀ b ∈ w.tabs, w.parentSplit b = none
  cache : w.RootsCached

section Wired

variable {w : GuiMainWindow} {s t : Nat} {b : GuiBase} {i : Int}

theorem Wired.parentSplit_iff (h : w.Wired) : w.parentSplit b = some s ↔ b ∈ w.child s := by
  have := h.linked.mem_iff b (.split s)
  simpa [forest] using this

theorem Wired.child_nodup (h : w.Wired) : (w.child s).Nodup :=
  h.linked.nodup (.split s)

theorem Wired.not_mem_child (h : w.Wired) (hb : w.parentSplit b = none) : b ∉ w.child s := by
  intro hm
  rw [← h.parentSplit_iff, hb] at hm
  cases hm

/-- A pane is a child of one splitter only. -/
theorem Wired.parent_unique (h : w.Wired) {q : Nat} (hs : b ∈ w.child s) (hq : b ∈ w.child q) :
    s = q := by
  have heq := (h.parentSplit_iff.mpr hs).symm.trans (h.parentSplit_iff.mpr hq)
  exact Option.some.inj heq

theorem Wired.lt_of_mem (h : w.Wired) (hb : b ∈ w.child s) : s < w.nextSplitter := by
  by_contra hle
  rw [(h.fresh s (by omega)).1] at hb
  simp at hb

theorem Wired.ranked (h : w.Wired) : w.forest.Ranked w.rank := by
  intro p c hc
  cases p with
  | term t => simp at hc
  | split s =>
      cases c with
      | term t => exact h.lt_of_mem hc
      | split s' => exact h.below s s' hc

theorem Wired.split_lt (h : w.Wired) {s' : Nat} (hs : .split s' ∈ w.child s) :
    s' < w.nextSplitter := by
  by_contra hle
  exact h.not_mem_child (h.fresh s' (by omega)).2.1 hs

theorem Wired.rank_le (h : w.Wired) (p c : GuiBase) (hc : c ∈ w.forest.children p) :
    w.rank c ≤ w.nextSplitter := by
  cases c with
  | term t => exact le_rfl
  | split s' =>
      cases p with
      | term t => simp at hc
      | split s => exact (h.split_lt hc).le

theorem Wired.ne_of_mem (h : w.Wired) (hb : b ∈ w.child s) : b ≠ .split s := by
  rintro rfl
  exact absurd (h.below s s hb) (lt_irrefl s)

/-- A pane that is a child is no tab root. -/
theorem Wired.not_mem_tabs (h : w.Wired) (hb : b ∈ w.child s) : b ∉ w.tabs := by
  intro ht
  exact h.not_mem_child (h.roots b ht) hb

end Wired

section Cache

variable {w : GuiMainWindow}

/-- A key that is written with one value only is read with that value. -/
theorem getTerminalTabInd_eq {b : GuiBase} {i : Nat} (hmem : (b, i) ∈ w.tabIndexMap)
    (huniq : ∀ j, (b, j) ∈ w.tabIndexMap → j = i) : w.getTerminalTabInd b = i := by
  unfold getTerminalTabInd
  cases hf : w.tabIndexMap.reverse.find? (fun e => e.1 = b) with
  | none =>
      rw [List.find?_eq_none] at hf
      have hno := hf (b, i) (by simpa using hmem)
      simp at hno
  | some e =>
      have hkey := List.find?_some hf
      have he := List.mem_of_find?_eq_some hf
      obtain ⟨c, j⟩ := e
      simp only [decide_eq_true_eq] at hkey
      subst hkey
      rw [huniq j (by simpa using he)]

/-- A key that is not written is not found. -/
theorem getTerminalTabInd_of_not_mem {b : GuiBase} (h : ∀ j, (b, j) ∉ w.tabIndexMap) :
    w.getTerminalTabInd b = -1 := by
  unfold getTerminalTabInd
  have hnone : w.tabIndexMap.reverse.find? (fun e => e.1 = b) = none := by
    rw [List.find?_eq_none]
    rintro ⟨c, j⟩ he
    simp only [decide_eq_true_eq]
    rintro rfl
    exact h j (by simpa using he)
  rw [hnone]

/-- Terminals are listed under the pane that they belong to. -/
theorem under_of_mem_populate {n t : Nat} {b : GuiBase} (h : t ∈ populate w.child n b) :
    w.forest.Under b (.term t) := by
  induction n generalizing b with
  | zero =>
      cases b with
      | term u =>
          simp only [populate, List.mem_singleton] at h
          rw [h]
          exact .refl _
      | split s => simp [populate] at h
  | succ n ih =>
      cases b with
      | term u =>
          simp only [populate, List.mem_singleton] at h
          rw [h]
          exact .refl _
      | split s =>
          simp only [populate, List.mem_flatMap] at h
          obtain ⟨c, hc, ht⟩ := h
          exact (ih ht).head hc

/-- The writes of `on_tabLayoutChanged`. -/
theorem mem_tabIndexMap {b : GuiBase} {i : Nat} :
    (b, i) ∈ w.onTabLayoutChanged.tabIndexMap ↔
      ∃ r, w.tabs[i]? = some r ∧ (b = r ∨
        ∃ s t, r = .split s ∧ b = .term t ∧ t ∈ w.populateAllTerminals (.split s)) := by
  simp only [onTabLayoutChanged, List.mem_flatMap]
  constructor
  · rintro ⟨⟨r, j⟩, hr, hb⟩
    have hget : w.tabs[j]? = some r := by
      simpa [List.mem_zipIdx_iff_getElem?] using hr
    cases r with
    | term t =>
        simp only [indexEntries, List.mem_singleton, Prod.mk.injEq] at hb
        obtain ⟨rfl, rfl⟩ := hb
        exact ⟨_, hget, .inl rfl⟩
    | split s =>
        simp only [indexEntries, List.mem_cons, Prod.mk.injEq, List.mem_map] at hb
        rcases hb with ⟨rfl, rfl⟩ | ⟨t, ht, rfl, rfl⟩
        · exact ⟨_, hget, .inl rfl⟩
        · exact ⟨_, hget, .inr ⟨s, t, rfl, rfl, ht⟩⟩
  · rintro ⟨r, hget, hb⟩
    refine ⟨(r, i), by simpa [List.mem_zipIdx_iff_getElem?] using hget, ?_⟩
    rcases hb with rfl | ⟨s, t, rfl, rfl, ht⟩
    · cases b <;> simp [indexEntries]
    · simp [indexEntries, ht]

/-- After `on_tabLayoutChanged` the cache knows the tab roots. -/
theorem cache_onTabLayoutChanged (hn : w.tabs.Nodup)
    (hroots : ∀ b ∈ w.tabs, ∀ s, b ∉ w.child s) : w.onTabLayoutChanged.RootsCached := by
  intro i b hb
  refine getTerminalTabInd_eq (mem_tabIndexMap.mpr ⟨b, hb, .inl rfl⟩) ?_
  intro j hj
  obtain ⟨r, hr, hbr⟩ := mem_tabIndexMap.mp hj
  rcases hbr with rfl | ⟨s, t, rfl, rfl, ht⟩
  · have hlt := (List.getElem?_eq_some_iff.mp hr).1
    exact (List.getElem?_inj hlt hn).mp (hr.trans hb.symm)
  · -- a root is not inside another tab
    exfalso
    rcases Relation.ReflTransGen.cases_tail (under_of_mem_populate ht) with heq | ⟨p, -, hp⟩
    · cases heq
    · cases p with
      | term u => simp at hp
      | split q => exact hroots _ (List.mem_of_getElem? hb) q hp

end Cache

section Preservation

variable {w : GuiMainWindow} {s t : Nat} {b : GuiBase} {i : Int}

/-- When a pane leaves the tab widget, the cache is rebuilt. -/
theorem rootsCached_leaveParent (hc : b ∉ w.tabs → w.RootsCached) (hn : w.tabs.Nodup)
    (hroots : ∀ r ∈ w.tabs, r ≠ b → ∀ s, r ∉ w.child s) : (w.leaveParent b).RootsCached := by
  unfold leaveParent
  dsimp only
  split_ifs with hb
  · refine cache_onTabLayoutChanged (hn.erase b) ?_
    intro r hr
    have hr' := (hn.mem_erase_iff).mp hr
    exact hroots r hr'.2 hr'.1
  · exact hc hb

theorem Wired.roots_not_mem (h : w.Wired) (hb : b ∈ w.tabs) (s : Nat) : b ∉ w.child s :=
  h.not_mem_child (h.roots b hb)

theorem Wired.mem_of_mem_detach (h : w.Wired) {q : Nat} {c : GuiBase}
    (hc : c ∈ (w.detach s b).child q) : c ∈ w.child q := by
  have hmem : c ∈ (w.detach s b).forest.children (.split q) := hc
  rw [forest_detach, h.linked.mem_children_unlink] at hmem
  exact hmem.1

theorem widgets_addBaseWidget (q : Nat) :
    (w.addBaseWidget s i b).widgets q =
      if q = s then insertAt i b ((w.widgets s).erase b) else (w.widgets q).erase b := by
  by_cases hq : q = s
  · subst hq
    simp [addBaseWidget]
  · simp [addBaseWidget, hq]

/-- A pane without parent may be added to a splitter that is older. -/
theorem Wired.addBaseWidget (h : w.Wired) (hs : s < w.nextSplitter)
    (hb : w.parentSplit b = none)
    (hage : ∀ s', b = .split s' → s < s' ∧ s' < w.nextSplitter) :
    (w.addBaseWidget s i b).Wired where
  linked := by
    rw [forest_addBaseWidget]
    exact h.linked.link (by simp [forest, hb])
  below q q' hq := by
    rw [child_addBaseWidget, mem_update_append] at hq
    rcases hq with hq | ⟨rfl, hq⟩
    · exact h.below q q' hq
    · exact (hage q' hq.symm).1
  fresh q hq := by
    have hq' : w.nextSplitter ≤ q := by
      rwa [nextSplitter_eq (objects_addBaseWidget w b s i)] at hq
    obtain ⟨hchild, hparent, htabs⟩ := h.fresh q hq'
    have hne : q ≠ s := by omega
    have hbq : (GuiBase.split q) ≠ b := by
      rintro rfl
      have := (hage q rfl).2
      omega
    refine ⟨by simp [hne, hchild], by simp [hbq, hparent], ?_⟩
    rw [tabs_addBaseWidget]
    exact fun hm => htabs (List.mem_of_mem_erase hm)
  shown q c hc := by
    rw [widgets_addBaseWidget]
    have hold : ∀ p, c ∈ w.child p → c ∈ (w.widgets p).erase b := by
      intro p hp
      have hcb : c ≠ b := by
        rintro rfl
        exact h.not_mem_child hb hp
      exact (List.mem_erase_of_ne hcb).mpr (h.shown p c hp)
    rw [child_addBaseWidget, mem_update_append] at hc
    split_ifs with hqs
    · subst hqs
      rcases hc with hc | ⟨-, hc⟩
      · exact mem_insertAt.mpr (.inr (hold q hc))
      · exact mem_insertAt.mpr (.inl hc)
    · exact hold q (hc.resolve_right fun hq => hqs hq.1)
  tabsNodup := by
    rw [tabs_addBaseWidget]
    exact h.tabsNodup.erase b
  roots r hr := by
    rw [tabs_addBaseWidget] at hr
    have hr' := h.tabsNodup.mem_erase_iff.mp hr
    rw [parentSplit_addBaseWidget, Function.update_of_ne hr'.1]
    exact h.roots r hr'.2
  cache := by
    refine rootsCached_leaveParent (w := { w with
      child := Function.update w.child s (w.child s ++ [b])
      parentSplit := Function.update w.parentSplit b (some s) })
      (fun _ => h.cache) h.tabsNodup ?_
    intro r hr hrb q hq
    rcases mem_update_append.mp hq with hq | ⟨-, hq⟩
    · exact h.roots_not_mem hr q hq
    · exact hrb hq

/-- A pane without parent may leave the tab widget. -/
theorem Wired.leaveParent (h : w.Wired) (hb : w.parentSplit b = none) :
    (w.leaveParent b).Wired where
  linked := by
    have hf : (w.leaveParent b).forest = w.forest := by simp [forest]
    rw [hf]
    exact h.linked
  below := by simpa using h.below
  fresh q hq := by
    rw [nextSplitter_eq (objects_leaveParent w b)] at hq
    obtain ⟨hchild, hparent, htabs⟩ := h.fresh q hq
    refine ⟨by simpa using hchild, by simpa using hparent, ?_⟩
    rw [tabs_leaveParent]
    exact fun hm => htabs (List.mem_of_mem_erase hm)
  shown q c hc := by
    rw [child_leaveParent] at hc
    have hcb : c ≠ b := by
      rintro rfl
      exact h.not_mem_child hb hc
    rw [widgets_leaveParent]
    exact (List.mem_erase_of_ne hcb).mpr (h.shown q c hc)
  tabsNodup := by
    rw [tabs_leaveParent]
    exact h.tabsNodup.erase b
  roots r hr := by
    rw [tabs_leaveParent] at hr
    rw [parentSplit_leaveParent]
    exact h.roots r (List.mem_of_mem_erase hr)
  cache := rootsCached_leaveParent (fun _ => h.cache) h.tabsNodup
    (fun _ hr _ => h.roots_not_mem hr)

/-- A child may be taken away. -/
theorem Wired.detach (h : w.Wired) (hb : b ∈ w.child s) : (w.detach s b).Wired where
  linked := by
    rw [forest_detach]
    exact h.linked.unlink hb
  below q q' hq := h.below q q' (h.mem_of_mem_detach hq)
  fresh q hq := by
    obtain ⟨hchild, hparent, htabs⟩ := h.fresh q hq
    have hne : q ≠ s := by
      have hlt := h.lt_of_mem hb
      simp only [GuiMainWindow.detach] at hq
      omega
    refine ⟨by simp [GuiMainWindow.detach, hne, hchild], ?_, htabs⟩
    by_cases hqb : (GuiBase.split q) = b
    · simp [GuiMainWindow.detach, hqb]
    · simp [GuiMainWindow.detach, hqb, hparent]
  shown q c hc := h.shown q c (h.mem_of_mem_detach hc)
  tabsNodup := h.tabsNodup
  roots r hr := by
    by_cases hrb : r = b
    · simp [GuiMainWindow.detach, hrb]
    · simpa [GuiMainWindow.detach, hrb] using h.roots r hr
  cache := h.cache

theorem Wired.removed (h : w.Wired) (hb : b ∈ w.child s) : (w.removed s b).Wired :=
  (h.detach hb).leaveParent (by simp [GuiMainWindow.detach])

/-- Rebuilding the cache at any time. -/
theorem Wired.onTabLayoutChanged (h : w.Wired) : w.onTabLayoutChanged.Wired :=
  { h with
    cache := cache_onTabLayoutChanged h.tabsNodup (fun _ hb => h.roots_not_mem hb) }

theorem Wired.tabRemove (h : w.Wired) : (w.tabRemove i).Wired := by
  unfold GuiMainWindow.tabRemove
  split_ifs
  · have hsub : ∀ b, b ∈ w.tabs.eraseIdx i.toNat → b ∈ w.tabs :=
      fun b hb => (List.eraseIdx_sublist w.tabs i.toNat).subset hb
    have hn : (w.tabs.eraseIdx i.toNat).Nodup :=
      h.tabsNodup.sublist (List.eraseIdx_sublist w.tabs i.toNat)
    exact
      { h with
        fresh := fun q hq => by
          obtain ⟨h1, h2, h3⟩ := h.fresh q hq
          exact ⟨h1, h2, fun hm => h3 (hsub _ hm)⟩
        tabsNodup := hn
        roots := fun b hb => h.roots b (hsub b hb)
        cache := cache_onTabLayoutChanged hn (fun b hb => h.roots_not_mem (hsub b hb)) }
  · exact h

/-- Removing the page at the index of a root. -/
theorem Wired.tabs_tabRemove (h : w.Wired) {j : Nat} (hj : w.tabs[j]? = some b) :
    (w.tabRemove j).tabs = w.tabs.erase b := by
  have hlt : j < w.tabs.length := (List.getElem?_eq_some_iff.mp hj).1
  unfold GuiMainWindow.tabRemove
  rw [if_pos (by omega)]
  exact (erase_eq_eraseIdx_of_getElem? h.tabsNodup hj).symm

/-- A pane without parent may become a page. -/
theorem Wired.tabInsert (h : w.Wired) (hb : w.parentSplit b = none)
    (hage : ∀ s', b = .split s' → s' < w.nextSplitter) : (w.tabInsert i b).Wired := by
  have hw := h.leaveParent hb
  have hn : (insertAt i b (w.leaveParent b).tabs).Nodup := by
    refine nodup_insertAt hw.tabsNodup ?_
    rw [tabs_leaveParent]
    exact h.tabsNodup.not_mem_erase
  have hroots : ∀ r ∈ insertAt i b (w.leaveParent b).tabs,
      (w.leaveParent b).parentSplit r = none := by
    intro r hr
    rcases mem_insertAt.mp hr with rfl | hr
    · simpa using hb
    · exact hw.roots r hr
  exact
    { hw with
      fresh := fun q hq => by
        obtain ⟨hchild, hparent, htabs⟩ := hw.fresh q hq
        refine ⟨hchild, hparent, fun hm => ?_⟩
        rcases mem_insertAt.mp hm with hqb | hm
        · have hlt := hage q hqb.symm
          have hle : (w.leaveParent b).nextSplitter ≤ q := hq
          rw [nextSplitter_eq (objects_leaveParent w b)] at hle
          omega
        · exact htabs hm
      tabsNodup := hn
      roots := hroots
      cache := cache_onTabLayoutChanged hn (fun r hr _ => hw.not_mem_child (hroots r hr)) }

/-- A new splitter without children. -/
theorem Wired.child_newSplitter (h : w.Wired) (orient : Orientation) :
    (w.newSplitter orient).child = w.child := by
  have hchild := (h.fresh w.nextSplitter le_rfl).1
  simp only [GuiMainWindow.newSplitter]
  rw [← hchild, Function.update_eq_self]

theorem Wired.parentSplit_newSplitter (h : w.Wired) (orient : Orientation) :
    (w.newSplitter orient).parentSplit = w.parentSplit := by
  have hparent := (h.fresh w.nextSplitter le_rfl).2.1
  simp only [GuiMainWindow.newSplitter]
  rw [← hparent, Function.update_eq_self]

theorem Wired.newSplitter (h : w.Wired) (orient : Orientation) :
    (w.newSplitter orient).Wired where
  linked := by
    have hf : (w.newSplitter orient).forest = w.forest := by
      simp [forest, h.child_newSplitter, h.parentSplit_newSplitter]
    rw [hf]
    exact h.linked
  below := by
    rw [h.child_newSplitter]
    exact h.below
  fresh q hq := by
    rw [h.child_newSplitter, h.parentSplit_newSplitter]
    exact h.fresh q (Nat.le_of_succ_le hq)
  shown q c hm := by
    rw [h.child_newSplitter] at hm
    have hne : q ≠ w.nextSplitter := (h.lt_of_mem hm).ne
    simpa [GuiMainWindow.newSplitter, hne] using h.shown q c hm
  tabsNodup := h.tabsNodup
  roots := by
    rw [h.parentSplit_newSplitter]
    exact h.roots
  cache := h.cache

end Preservation

end GuiMainWindow

end Pane
end Qutty
