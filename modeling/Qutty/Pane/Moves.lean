import Qutty.Pane.Wiring

/-!
# Moves of a terminal

A terminal leaves its place with `removeSplitLayout` and gets a new one with
`createSplitLayout`.  Both run through several states in which the layout is not
complete; `Leaving` and `Joining` say once what comes out: the child vectors, the
tabs, the objects and the caches.  What follows about the layout is derived from
them.
-/

namespace Qutty
namespace Pane

namespace GuiMainWindow

/-- The two caches of the layout. -/
def caches (w : GuiMainWindow) : List (GuiBase × Nat) × List (Option Nat × Option Nat) :=
  (w.tabIndexMap, w.widgetAtIndex)

/-- The caches are as `on_tabLayoutChanged` leaves them. -/
def Cached (w : GuiMainWindow) : Prop :=
  w.caches = w.onTabLayoutChanged.caches

section Caches

variable {w : GuiMainWindow} {s : Nat} {b : GuiBase} {i : Int}

theorem caches_leaveParent (hb : b ∉ w.tabs) : (w.leaveParent b).caches = w.caches := by
  unfold leaveParent
  dsimp only
  rw [if_neg hb]
  rfl

theorem cached_leaveParent (hb : b ∈ w.tabs) : (w.leaveParent b).Cached := by
  unfold leaveParent
  dsimp only
  rw [if_pos hb]
  rfl

theorem caches_removed (hb : b ∉ w.tabs) : (w.removed s b).caches = w.caches :=
  caches_leaveParent (w := w.detach s b) hb

theorem caches_addBaseWidget (hb : b ∉ w.tabs) : (w.addBaseWidget s i b).caches = w.caches :=
  caches_leaveParent (w := { w with
    child := Function.update w.child s (w.child s ++ [b])
    parentSplit := Function.update w.parentSplit b (some s) }) hb

theorem cached_addBaseWidget (hb : b ∈ w.tabs) : (w.addBaseWidget s i b).Cached :=
  cached_leaveParent (w := { w with
    child := Function.update w.child s (w.child s ++ [b])
    parentSplit := Function.update w.parentSplit b (some s) }) hb

theorem caches_deleteLater : (w.deleteLater s).caches = w.caches := rfl

theorem cached_tabInsert : (w.tabInsert i b).Cached := rfl

/-- The index depends on the caches only. -/
theorem getTerminalTabInd_congr {w' : GuiMainWindow} (h : w'.caches = w.caches) (b : GuiBase) :
    w'.getTerminalTabInd b = w.getTerminalTabInd b := by
  have hmap : w'.tabIndexMap = w.tabIndexMap := congrArg Prod.fst h
  rw [getTerminalTabInd, getTerminalTabInd, hmap]

/-- A pane without a place has no index. -/
theorem Cached.getTerminalTabInd_of_free (hc : w.Cached) (ht : b ∉ w.tabs)
    (hno : ∀ q, b ∉ w.child q) : w.getTerminalTabInd b = -1 := by
  rw [← getTerminalTabInd_congr hc.symm]
  refine getTerminalTabInd_of_not_mem fun j hj => ?_
  obtain ⟨r, hr, hb⟩ := mem_tabIndexMap.mp hj
  rcases hb with rfl | ⟨s, u, rfl, rfl, hu⟩
  · exact ht (List.mem_of_getElem? hr)
  · rcases Relation.ReflTransGen.cases_tail (under_of_mem_populate hu) with heq | ⟨p, -, hp⟩
    · cases heq
    · cases p with
      | term v => simp at hp
      | split q => exact hno q hp

end Caches

/-- How a terminal `t` leaves a splitter `s`. -/
inductive Leaving (w : GuiMainWindow) (s t : Nat) (w' : GuiMainWindow) : Prop where
  /-- two or more panes stay in `s` -/
  | stay
      (hlen : 2 ≤ ((w.child s).erase (.term t)).length)
      (child : w'.child = Function.update w.child s ((w.child s).erase (.term t)))
      (tabs : w'.tabs = w.tabs)
      (objects : w'.objects = w.objects)
      (caches : w'.caches = w.caches)
  /-- the last pane moves up to the parent of `s` -/
  | hoist (b : GuiBase) (g : Nat)
      (hs : (w.child s).erase (.term t) = [b])
      (hg : .split s ∈ w.child g)
      (child : w'.child = Function.update (Function.update w.child s []) g
        ((w.child g).erase (.split s) ++ [b]))
      (tabs : w'.tabs = w.tabs)
      (objects : w'.objects = { w.objects with dying := s :: w.dying })
      (caches : w'.caches = w.caches)
  /-- the last pane becomes the tab -/
  | surface (b : GuiBase) (i : Nat)
      (hs : (w.child s).erase (.term t) = [b])
      (hi : w.tabs[i]? = some (.split s))
      (child : w'.child = Function.update w.child s [])
      (tabs : w'.tabs = w.tabs.set i b)
      (objects : w'.objects = { w.objects with dying := s :: w.dying })
      (caches : w'.Cached)

section Leaving

variable {w : GuiMainWindow} {s g t : Nat} {b : GuiBase}

/-- Clearing the parent of `s` before or after `addBaseWidget`. -/
theorem addBaseWidget_clear (hb : b ≠ .split s) (i : Int) :
    { w.addBaseWidget g i b with
      parentSplit := Function.update (w.addBaseWidget g i b).parentSplit (.split s) none } =
    ({ w with parentSplit := Function.update w.parentSplit (.split s) none }).addBaseWidget
      g i b := by
  rw [parentSplit_addBaseWidget, Function.update_comm hb]
  unfold addBaseWidget leaveParent
  dsimp only
  split_ifs <;> rfl

theorem Wired.deleteLater (h : w.Wired) : (w.deleteLater s).Wired :=
  ⟨h.linked, h.below, h.fresh, h.shown, h.tabsNodup, h.roots, h.cache⟩

theorem objects_deleteLater {w' : GuiMainWindow} (hobj : w'.objects = w.objects) :
    (w'.deleteLater s).objects = { w.objects with dying := s :: w.dying } :=
  congrArg (fun o : Objects => { o with dying := s :: o.dying }) hobj

/-- The last pane of a splitter `s` moves up to the parent of `s`. -/
theorem Wired.collapse_hoist (h : w.Wired) (hs : w.child s = [b]) (hg : .split s ∈ w.child g) :
    ∃ w', w.collapse s b = some w' ∧ w'.Wired ∧
      w'.child = Function.update (Function.update w.child s []) g
        ((w.child g).erase (.split s) ++ [b]) ∧
      w'.tabs = w.tabs ∧ w'.objects = { w.objects with dying := s :: w.dying } ∧
      w'.caches = w.caches := by
  have hb : b ∈ w.child s := by simp [hs]
  have hgs : g < s := h.below g s hg
  have hbs : b ≠ .split s := h.ne_of_mem hb
  have hparent : (w.removed s b).parentSplit (.split s) = some g := by
    rw [parentSplit_removed, Function.update_of_ne hbs.symm]
    exact h.parentSplit_iff.mpr hg
  have hw := h.removed hb
  have hg' : .split s ∈ (w.removed s b).child g := hw.parentSplit_iff.mp hparent
  -- the state in which `s` has left its parent and `b` is without parent
  have hd := hw.detach hg'
  have hbd : ((w.removed s b).detach g (.split s)).parentSplit b = none := by
    simp [GuiMainWindow.detach, hbs]
  have hbt : b ∉ w.tabs := h.not_mem_tabs hb
  refine ⟨(((w.removed s b).detach g (.split s)).addBaseWidget g
    (indexOf ((w.removed s b).widgets g) (.split s)) b).deleteLater s, ?_, ?_, ?_, ?_, ?_, ?_⟩
  · unfold collapse
    rw [removeBaseWidget_eq h.child_nodup hb]
    simp only [Option.bind_eq_bind, Option.bind_some, hparent,
      eraseRemove_eq hw.child_nodup hg', addBaseWidget_clear hbs]
    rfl
  · have hnext : ((w.removed s b).detach g (.split s)).nextSplitter = w.nextSplitter :=
      nextSplitter_eq (objects_removed w s b)
    refine (hd.addBaseWidget (hnext ▸ h.lt_of_mem hg) hbd ?_).deleteLater
    rintro s' rfl
    exact ⟨hgs.trans (h.below s s' hb), hnext ▸ h.split_lt hb⟩
  · have hchild : (w.removed s b).child = Function.update w.child s [] := by
      rw [child_removed, hs, List.erase_cons_head]
    simp only [GuiMainWindow.deleteLater, child_addBaseWidget, GuiMainWindow.detach, hchild,
      Function.update_self, Function.update_idem, Function.update_of_ne hgs.ne]
  · simp [GuiMainWindow.deleteLater, GuiMainWindow.detach, List.erase_of_not_mem hbt]
  · exact objects_deleteLater ((objects_addBaseWidget _ _ _ _).trans (objects_removed w s b))
  · have htabs : b ∉ ((w.removed s b).detach g (.split s)).tabs := by
      simp [GuiMainWindow.detach, List.erase_of_not_mem hbt, hbt]
    rw [caches_deleteLater, caches_addBaseWidget htabs]
    exact caches_removed hbt

/-- The last pane of a splitter `s` at the root of a tab becomes the tab. -/
theorem Wired.collapse_surface (h : w.Wired) (hs : w.child s = [b]) {i : Nat}
    (hi : w.tabs[i]? = some (.split s)) :
    ∃ w', w.collapse s b = some w' ∧ w'.Wired ∧ w'.child = Function.update w.child s [] ∧
      w'.tabs = w.tabs.set i b ∧ w'.objects = { w.objects with dying := s :: w.dying } ∧
      w'.Cached := by
  have hb : b ∈ w.child s := by simp [hs]
  have hmem : .split s ∈ w.tabs := List.mem_of_getElem? hi
  have hbt : b ∉ w.tabs := h.not_mem_tabs hb
  have hw := h.removed hb
  have htabs : (w.removed s b).tabs = w.tabs := by
    rw [tabs_removed, List.erase_of_not_mem hbt]
  have hparent : (w.removed s b).parentSplit (.split s) = none :=
    hw.roots _ (htabs ▸ hmem)
  have hind : (w.removed s b).getTerminalTabInd (.split s) = i :=
    hw.cache i _ (htabs ▸ hi)
  have hremove : ((w.removed s b).tabRemove i).tabs = w.tabs.erase (.split s) := by
    rw [hw.tabs_tabRemove (htabs ▸ hi), htabs]
  refine ⟨(((w.removed s b).tabRemove i).tabInsert i b).deleteLater s, ?_, ?_, ?_, ?_, ?_, ?_⟩
  · unfold collapse
    rw [removeBaseWidget_eq h.child_nodup hb]
    simp only [Option.bind_eq_bind, Option.bind_some, hparent, hind]
  · refine (hw.tabRemove.tabInsert ?_ ?_).deleteLater
    · simp
    · rintro s' rfl
      rw [nextSplitter_eq (objects_tabRemove _ _), nextSplitter_eq (objects_removed w s _)]
      exact h.split_lt hb
  · simp [GuiMainWindow.deleteLater, hs]
  · have hb' : b ∉ w.tabs.erase (.split s) := fun hm => hbt (List.mem_of_mem_erase hm)
    simp only [GuiMainWindow.deleteLater, tabs_tabInsert, hremove, List.erase_of_not_mem hb']
    exact insertAt_erase h.tabsNodup hi
  · refine objects_deleteLater ?_
    rw [objects_tabInsert, objects_tabRemove, objects_removed]
  · exact cached_tabInsert

/-- **What `removeSplitLayout` does.** -/
theorem Wired.removeSplitLayout (h : w.Wired) (ht : .term t ∈ w.child s)
    (hlen : 2 ≤ (w.child s).length)
    (hroot : w.parentSplit (.split s) = none → .split s ∈ w.tabs) :
    ∃ w', w.removeSplitLayout s t = some w' ∧ w'.Wired ∧ Leaving w s t w' := by
  have hw := h.removed ht
  have htt : .term t ∉ w.tabs := h.not_mem_tabs ht
  have htabs : (w.removed s (.term t)).tabs = w.tabs := by
    rw [tabs_removed, List.erase_of_not_mem htt]
  have hchild : (w.removed s (.term t)).child s = (w.child s).erase (.term t) := by
    rw [child_removed, Function.update_self]
  have hlen' : 1 ≤ ((w.child s).erase (.term t)).length := by
    rw [List.length_erase_of_mem ht]
    omega
  unfold GuiMainWindow.removeSplitLayout
  rw [removeBaseWidget_eq h.child_nodup ht]
  simp only [Option.bind_eq_bind, Option.bind_some, hchild]
  match hs : (w.child s).erase (.term t) with
  | [] => simp [hs] at hlen'
  | c :: d :: rest =>
      refine ⟨_, rfl, hw, .stay (by simp [hs]) (child_removed w s _) htabs
        (objects_removed w s _) (caches_removed htt)⟩
  | [b] =>
      dsimp only
      have hs' : (w.removed s (.term t)).child s = [b] := hchild.trans hs
      cases hp : w.parentSplit (.split s) with
      | some g =>
          have hg : .split s ∈ w.child g := h.parentSplit_iff.mp hp
          have hsg : g ≠ s := (h.below g s hg).ne
          have hg' : .split s ∈ (w.removed s (.term t)).child g := by
            rwa [child_removed, Function.update_of_ne hsg]
          obtain ⟨w', hw', hwired, hc, htb, hobj, hca⟩ := hw.collapse_hoist hs' hg'
          refine ⟨w', hw', hwired, .hoist b g hs hg ?_ (htb.trans htabs)
            (hobj.trans (objects_deleteLater (objects_removed w s _)))
            (hca.trans (caches_removed htt))⟩
          rw [hc, child_removed, Function.update_idem, Function.update_of_ne hsg]
      | none =>
          obtain ⟨i, hi⟩ := List.getElem?_of_mem (hroot hp)
          obtain ⟨w', hw', hwired, hc, htb, hobj, hca⟩ := hw.collapse_surface hs' (htabs ▸ hi)
          refine ⟨w', hw', hwired, .surface b i hs hi ?_ (htb.trans (by rw [htabs]))
            (hobj.trans (objects_deleteLater (objects_removed w s _))) hca⟩
          rw [hc, child_removed, Function.update_idem]

end Leaving

/-- The children of a new splitter. -/
def pair (split : SplitType) (t n : Nat) : List GuiBase :=
  if split.oldFirst then [.term t, .term n] else [.term n, .term t]

/-- The objects with one more splitter. -/
def Objects.withSplitter (o : Objects) (orient : Orientation) : Objects :=
  { o with
    nextSplitter := o.nextSplitter + 1
    orientation := Function.update o.orientation o.nextSplitter orient }

theorem nextSplitter_withSplitter {w w' : GuiMainWindow} {orient : Orientation}
    (h : w'.objects = w.objects.withSplitter orient) :
    w'.nextSplitter = w.nextSplitter + 1 :=
  congrArg Objects.nextSplitter h

theorem orientation_withSplitter {w w' : GuiMainWindow} {orient : Orientation}
    (h : w'.objects = w.objects.withSplitter orient) (q : Nat) :
    w'.orientation q = if q = w.nextSplitter then orient else w.orientation q := by
  rw [← Function.update_apply]
  exact congrFun (congrArg Objects.orientation h) q

/-- How a terminal `n` is put beside a terminal `t`. -/
inductive Joining (w : GuiMainWindow) (t : Nat) (split : SplitType) (n : Nat)
    (w' : GuiMainWindow) : Prop where
  /-- a new splitter takes the place of the tab `t` -/
  | top (i : Nat)
      (hi : w.tabs[i]? = some (.term t))
      (child : w'.child = Function.update w.child w.nextSplitter (pair split t n))
      (tabs : w'.tabs =
        insertAt i (.split w.nextSplitter) ((w.tabs.erase (.term t)).erase (.term n)))
      (objects : w'.objects = w.objects.withSplitter (orientOf split))
      (caches : w'.Cached)
  /-- a new splitter takes the place of `t` in a splitter of the other orientation -/
  | nest (p : Nat)
      (hp : .term t ∈ w.child p)
      (ho : orientOf split ≠ w.orientation p)
      (child : w'.child = Function.update
        (Function.update w.child p ((w.child p).erase (.term t) ++ [.split w.nextSplitter]))
        w.nextSplitter (pair split t n))
      (tabs : w'.tabs = w.tabs.erase (.term n))
      (objects : w'.objects = w.objects.withSplitter (orientOf split))
      (caches : .term n ∉ w.tabs → w'.caches = w.caches)
      (cached : .term n ∈ w.tabs → split.oldFirst = true → w'.Cached)
      (stale : .term n ∈ w.tabs → split.oldFirst = false →
        w'.getTerminalTabInd (.term t) = -1)
  /-- `n` comes into the splitter of `t` -/
  | beside (p : Nat)
      (hp : .term t ∈ w.child p)
      (ho : orientOf split = w.orientation p)
      (child : w'.child = Function.update w.child p (w.child p ++ [.term n]))
      (tabs : w'.tabs = w.tabs.erase (.term n))
      (objects : w'.objects = w.objects)
      (caches : .term n ∉ w.tabs → w'.caches = w.caches)
      (cached : .term n ∈ w.tabs → w'.Cached)

section Joining

variable {w : GuiMainWindow} {s p t n : Nat} {split : SplitType}

/-- Two panes are added to an empty splitter. -/
theorem Wired.addTwo (h : w.Wired) (hs : s < w.nextSplitter) (hc : w.child s = [])
    {a b : Nat} (ha : w.parentSplit (.term a) = none) (hb : w.parentSplit (.term b) = none)
    (hab : a ≠ b) :
    ((w.addBaseWidget s 0 (.term a)).addBaseWidget s 1 (.term b)).Wired ∧
      ((w.addBaseWidget s 0 (.term a)).addBaseWidget s 1 (.term b)).child =
        Function.update w.child s [.term a, .term b] := by
  have hw := h.addBaseWidget (i := 0) hs ha (by simp)
  have hs' : s < (w.addBaseWidget s 0 (.term a)).nextSplitter := by
    rwa [nextSplitter_eq (objects_addBaseWidget _ _ _ _)]
  refine ⟨hw.addBaseWidget hs' ?_ (by simp), ?_⟩
  · have hne : GuiBase.term b ≠ .term a := by simpa using hab.symm
    rw [parentSplit_addBaseWidget, Function.update_of_ne hne, hb]
  · simp [hc]

theorem caches_addTwo {a b : GuiBase} (ha : a ∉ w.tabs) (hb : b ∉ w.tabs) :
    ((w.addBaseWidget s 0 a).addBaseWidget s 1 b).caches = w.caches := by
  have hb' : b ∉ (w.addBaseWidget s 0 a).tabs := by
    rwa [tabs_addBaseWidget, List.erase_of_not_mem ha]
  rw [caches_addBaseWidget hb', caches_addBaseWidget ha]

/-- The panes of a new splitter. -/
theorem Wired.addPair (h : w.Wired) (split : SplitType) (hs : s < w.nextSplitter)
    (hc : w.child s = []) (ht : w.parentSplit (.term t) = none)
    (hn : w.parentSplit (.term n) = none) (htn : t ≠ n) (htabs : .term t ∉ w.tabs) :
    (w.addPair s split t n).Wired ∧
      (w.addPair s split t n).child = Function.update w.child s (pair split t n) ∧
      (w.addPair s split t n).tabs = w.tabs.erase (.term n) ∧
      (w.addPair s split t n).objects = w.objects ∧
      (.term n ∉ w.tabs → (w.addPair s split t n).caches = w.caches) ∧
      (.term n ∈ w.tabs → split.oldFirst = true → (w.addPair s split t n).Cached) ∧
      (.term n ∈ w.tabs → split.oldFirst = false →
        (w.addPair s split t n).getTerminalTabInd (.term t) = -1) := by
  have hne : GuiBase.term n ≠ .term t := by simpa using htn.symm
  have herase : .term t ∉ w.tabs.erase (.term n) := fun hm => htabs (List.mem_of_mem_erase hm)
  unfold GuiMainWindow.addPair pair
  cases split.oldFirst with
  | true =>
      obtain ⟨hw, hchild⟩ := h.addTwo hs hc ht hn htn
      refine ⟨hw, hchild, ?_, by simp, fun hm => caches_addTwo htabs hm, ?_, by simp⟩
      · simp [List.erase_of_not_mem htabs]
      · intro hm _
        exact cached_addBaseWidget (by simpa [List.erase_of_not_mem htabs] using hm)
  | false =>
      obtain ⟨hw, hchild⟩ := h.addTwo hs hc hn ht htn.symm
      refine ⟨hw, hchild, ?_, by simp, fun hm => caches_addTwo hm htabs, by simp, ?_⟩
      · simp [List.erase_of_not_mem herase]
      · -- the caches are rebuilt when `n` comes in, and then `t` has no place
        intro hm _
        have hcached := cached_addBaseWidget (s := s) (i := 0) hm
        have hfree : .term t ∉ (w.addBaseWidget s 0 (.term n)).tabs := by simpa using herase
        rw [if_neg Bool.false_ne_true, getTerminalTabInd_congr (caches_addBaseWidget hfree)]
        refine hcached.getTerminalTabInd_of_free hfree fun q hq => ?_
        rw [child_addBaseWidget, Function.update_apply] at hq
        split_ifs at hq
        · simp [hc, hne.symm] at hq
        · exact h.not_mem_child ht hq

/-- A terminal that is a tab is split. -/
theorem Wired.createSplitLayout_top (h : w.Wired) {i : Nat}
    (hi : w.tabs[i]? = some (.term t)) (hn : w.parentSplit (.term n) = none) (htn : t ≠ n) :
    ∃ w', w.createSplitLayout t split n = some w' ∧ w'.Wired ∧ Joining w t split n w' := by
  have hmem : .term t ∈ w.tabs := List.mem_of_getElem? hi
  have ht := h.roots _ hmem
  have hw := h.tabRemove (i := i)
  have htabs : (w.tabRemove i).tabs = w.tabs.erase (.term t) := h.tabs_tabRemove hi
  have hnext : (w.tabRemove i).nextSplitter = w.nextSplitter :=
    nextSplitter_eq (objects_tabRemove w i)
  have hs := hw.newSplitter (orientOf split)
  have hparent : ((w.tabRemove i).newSplitter (orientOf split)).parentSplit = w.parentSplit := by
    rw [hw.parentSplit_newSplitter, parentSplit_tabRemove]
  have hchild : ((w.tabRemove i).newSplitter (orientOf split)).child = w.child := by
    rw [hw.child_newSplitter, child_tabRemove]
  have hfresh := h.fresh w.nextSplitter le_rfl
  obtain ⟨hp, hpc, hpt, hpo, -⟩ := hs.addPair (s := w.nextSplitter) (t := t) (n := n) split
    (by simp [GuiMainWindow.newSplitter, hnext]) (by rw [hchild, hfresh.1])
    (by rw [hparent, ht]) (by rw [hparent, hn]) htn
    (by simpa [GuiMainWindow.newSplitter, htabs] using h.tabsNodup.not_mem_erase)
  have hpt' : (((w.tabRemove i).newSplitter (orientOf split)).addPair w.nextSplitter split t
      n).tabs = (w.tabs.erase (.term t)).erase (.term n) := by
    rw [hpt]
    simp [GuiMainWindow.newSplitter, htabs]
  have hst : .split w.nextSplitter ∉ (w.tabs.erase (.term t)).erase (.term n) :=
    fun hm => hfresh.2.2 (List.mem_of_mem_erase (List.mem_of_mem_erase hm))
  refine ⟨((((w.tabRemove i).newSplitter (orientOf split)).addPair w.nextSplitter split t
    n).tabInsert i (.split w.nextSplitter)), ?_, ?_, .top i hi ?_ ?_ ?_ cached_tabInsert⟩
  · unfold GuiMainWindow.createSplitLayout
    simp only [ht, h.cache i _ hi, hnext]
  · refine hp.tabInsert ?_ ?_
    · unfold GuiMainWindow.addPair
      split_ifs <;> simp [hparent, hfresh.2.1]
    · rintro s' hs'
      cases hs'
      rw [nextSplitter_eq hpo]
      simp [GuiMainWindow.newSplitter, hnext]
  · rw [child_tabInsert, hpc, hchild]
  · rw [tabs_tabInsert, hpt', List.erase_of_not_mem hst]
  · rw [objects_tabInsert, hpo]
    exact congrArg (fun o : Objects => o.withSplitter (orientOf split)) (objects_tabRemove w i)

/-- A new splitter inside another one. -/
theorem Wired.newSplitterIn (h : w.Wired) (hp : p < w.nextSplitter) (orient : Orientation)
    (ind : Int) :
    (w.newSplitterIn orient p ind).Wired ∧
      (w.newSplitterIn orient p ind).child =
        Function.update w.child p (w.child p ++ [.split w.nextSplitter]) ∧
      (w.newSplitterIn orient p ind).parentSplit =
        Function.update w.parentSplit (.split w.nextSplitter) (some p) ∧
      (w.newSplitterIn orient p ind).tabs = w.tabs ∧
      (w.newSplitterIn orient p ind).objects = w.objects.withSplitter orient ∧
      (w.newSplitterIn orient p ind).caches = w.caches := by
  have hfresh := h.fresh w.nextSplitter le_rfl
  have htabs : .split w.nextSplitter ∉ (w.newSplitter orient).tabs := hfresh.2.2
  unfold GuiMainWindow.newSplitterIn
  refine ⟨(h.newSplitter orient).addBaseWidget (Nat.lt_succ_of_lt hp) ?_ ?_, ?_, ?_, ?_, ?_, ?_⟩
  · rw [h.parentSplit_newSplitter, hfresh.2.1]
  · intro s' hs'
    cases hs'
    exact ⟨hp, Nat.lt_succ_self _⟩
  · rw [child_addBaseWidget, h.child_newSplitter]
  · rw [parentSplit_addBaseWidget, h.parentSplit_newSplitter]
  · rw [tabs_addBaseWidget, List.erase_of_not_mem htabs]
    rfl
  · exact objects_addBaseWidget ..
  · rw [caches_addBaseWidget htabs]
    rfl

/-- A terminal in a splitter of the other orientation is split. -/
theorem Wired.createSplitLayout_nest (h : w.Wired) (hp : .term t ∈ w.child p)
    (ho : orientOf split ≠ w.orientation p) (hn : w.parentSplit (.term n) = none)
    (htn : t ≠ n) :
    ∃ w', w.createSplitLayout t split n = some w' ∧ w'.Wired ∧ Joining w t split n w' := by
  have hps := h.lt_of_mem hp
  have hfresh := h.fresh w.nextSplitter le_rfl
  have htt : .term t ∉ w.tabs := h.not_mem_tabs hp
  -- the new splitter hangs in `p`, and the old terminal leaves `p`
  obtain ⟨hw₁, hc₁, hp₁, ht₁, ho₁, hca₁⟩ :=
    h.newSplitterIn hps (orientOf split) (indexOf (w.widgets p) (.term t))
  set w₁ := w.newSplitterIn (orientOf split) p (indexOf (w.widgets p) (.term t)) with hdef
  have htp : .term t ∈ w₁.child p := by simp [hc₁, hp]
  have hw₂ := hw₁.removed htp
  have hc₂ : (w₁.removed p (.term t)).child = Function.update w.child p
      ((w.child p).erase (.term t) ++ [.split w.nextSplitter]) := by
    rw [child_removed, hc₁, Function.update_idem, Function.update_self,
      List.erase_append_left _ hp]
  have hp₂ : (w₁.removed p (.term t)).parentSplit (.term n) = none := by
    have hne : GuiBase.term n ≠ .term t := by simpa using htn.symm
    rw [parentSplit_removed, Function.update_of_ne hne, hp₁, Function.update_of_ne (by simp), hn]
  have ht₂ : (w₁.removed p (.term t)).tabs = w.tabs := by
    rw [tabs_removed, ht₁, List.erase_of_not_mem htt]
  have ho₂ := (objects_removed w₁ p (.term t)).trans ho₁
  have hca₂ := (caches_removed (s := p) (ht₁ ▸ htt)).trans hca₁
  -- the two terminals fill the new splitter
  obtain ⟨hw, hc, htb, hobj, hsame, hcached, hstale⟩ := hw₂.addPair (s := w.nextSplitter)
    (t := t) (n := n) split (by rw [nextSplitter_withSplitter ho₂]; omega)
    (by rw [hc₂, Function.update_of_ne hps.ne', hfresh.1]) (by simp) hp₂ htn (by rwa [ht₂])
  refine ⟨_, ?_, hw,
    .nest p hp ho (by rw [hc, hc₂]) (by rw [htb, ht₂]) (hobj.trans ho₂) ?_ ?_ ?_⟩
  · unfold GuiMainWindow.createSplitLayout splitterCreateSplitLayout
    rw [h.parentSplit_iff.mpr hp]
    simp only [if_neg (indexOf_ne (h.shown p _ hp)), if_pos ho, ← hdef,
      removeBaseWidget_eq hw₁.child_nodup htp, Option.bind_eq_bind, Option.bind_some]
  · intro hm
    rw [hsame (by rwa [ht₂]), hca₂]
  · intro hm
    exact hcached (by rwa [ht₂])
  · intro hm
    exact hstale (by rwa [ht₂])

/-- A terminal in a splitter of the right orientation is split. -/
theorem Wired.createSplitLayout_beside (h : w.Wired) (hp : .term t ∈ w.child p)
    (ho : orientOf split = w.orientation p) (hn : w.parentSplit (.term n) = none) :
    ∃ w', w.createSplitLayout t split n = some w' ∧ w'.Wired ∧ Joining w t split n w' := by
  have hbeside : ∀ i : Int, (w.addBaseWidget p i (.term n)).Wired ∧
      Joining w t split n (w.addBaseWidget p i (.term n)) := fun i =>
    ⟨h.addBaseWidget (h.lt_of_mem hp) hn (by simp),
      .beside p hp ho (child_addBaseWidget ..) (tabs_addBaseWidget ..)
        (objects_addBaseWidget ..) caches_addBaseWidget cached_addBaseWidget⟩
  unfold GuiMainWindow.createSplitLayout splitterCreateSplitLayout
  rw [h.parentSplit_iff.mpr hp]
  simp only [if_neg (indexOf_ne (h.shown p _ hp)), if_neg (not_not.mpr ho)]
  split_ifs
  · exact ⟨_, rfl, hbeside _⟩
  · exact ⟨_, rfl, hbeside _⟩

/-- **What `createSplitLayout` does.** -/
theorem Wired.createSplitLayout (h : w.Wired) (split : SplitType)
    (ht : .term t ∈ w.tabs ∨ ∃ p, .term t ∈ w.child p)
    (hn : w.parentSplit (.term n) = none) (htn : t ≠ n) :
    ∃ w', w.createSplitLayout t split n = some w' ∧ w'.Wired ∧ Joining w t split n w' := by
  rcases ht with ht | ⟨p, hp⟩
  · obtain ⟨i, hi⟩ := List.getElem?_of_mem ht
    exact h.createSplitLayout_top hi hn htn
  · by_cases ho : orientOf split = w.orientation p
    · exact h.createSplitLayout_beside hp ho hn
    · exact h.createSplitLayout_nest hp ho hn htn

end Joining

end GuiMainWindow

end Pane
end Qutty
