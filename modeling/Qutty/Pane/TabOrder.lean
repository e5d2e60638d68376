import Qutty.Pane.SplitOrder

/-!
# Drops and the order of the tabs

A drop removes two tabs and inserts one at an index that was taken before.  When the
dropped terminal was a tab of its own further to the left, the index is one too large by
then: the new tab steps over its right neighbour, if there is one (`keepsTabOrder_iff`).
-/

namespace Qutty
namespace Pane

open Lib

namespace GuiMainWindow

/-- The index of the new tab, for a drop on the left or on the right of a tab. -/
def barIndex (tabind : Nat) (type : SplitType) : Nat :=
  if type = .left then tabind else tabind + 1

/-- The tabs with a terminal taken out and put in front of the tab `k`, as they were shown. -/
def droppedAt (dropped k : Nat) (tabs : List (List Nat)) : List (List Nat) :=
  without dropped (tabs.take k) ++ [dropped] :: without dropped (tabs.drop k)

/-- The terminal is a tab before `left`, and `right` is not the end. -/
def Displaces (w : GuiMainWindow) (dropped left right : Nat) : Prop :=
  .term dropped ∈ w.tabs.take left ∧ w.tabs.drop right ≠ []

section Insert

variable {β : Type} {f g : GuiBase → β} {b c : GuiBase} {l pre post : List GuiBase} {k : Nat}

theorem erase_append_nodup (h : (pre ++ post).Nodup) :
    (pre ++ post).erase b = pre.erase b ++ post.erase b := by
  by_cases hb : b ∈ pre
  · have hpost : b ∉ post := fun hm => List.disjoint_of_nodup_append h hb hm
    rw [List.erase_append_left _ hb, List.erase_of_not_mem hpost]
  · rw [List.erase_append_right _ hb, List.erase_of_not_mem hb]

theorem map_insertAt_congr (hbc : f b = g c) (hl : ∀ x ∈ l, f x = g x) (i : Int) :
    (insertAt i b l).map f = (insertAt i c l).map g := by
  unfold insertAt
  split_ifs
  · rw [List.map_append, List.map_append, List.map_congr_left hl, List.map_singleton,
      List.map_singleton, hbc]
  · rw [List.map_insertIdx, List.map_insertIdx, List.map_congr_left hl, hbc]

/-- An index that is right or one too large: the latter is harmless at the end only. -/
theorem map_insertAt_iff (hk : k = pre.length ∨ k = pre.length + 1) (hb : f b ∉ post.map f) :
    (insertAt k b (pre ++ post)).map f = pre.map f ++ f b :: post.map f ↔
      k = pre.length ∨ post = [] := by
  rcases hk with rfl | rfl
  · refine iff_of_true ?_ (.inl rfl)
    rw [insertAt_idxOf (by simp), insertIdx_length_append, List.map_append, List.map_cons]
  · cases post with
    | nil =>
        refine iff_of_true ?_ (.inr rfl)
        rw [insertAt, if_pos (by simp), List.map_append, List.append_nil]
        rfl
    | cons c post =>
        refine iff_of_false (fun heq => ?_) (by simp)
        have hins := insertIdx_length_append (pre ++ [c]) post b
        rw [List.length_append, List.length_singleton, List.append_assoc,
          List.singleton_append] at hins
        rw [insertAt_idxOf (by simp), hins, List.map_append, List.map_append, List.append_assoc,
          List.append_cancel_left_eq] at heq
        simp only [List.map_cons, List.map_nil, List.singleton_append, List.cons.injEq] at heq
        exact hb (heq.1 ▸ List.mem_cons_self)

theorem length_erase_cases (b : GuiBase) (l : List GuiBase) :
    l.length = (l.erase b).length ∨ l.length = (l.erase b).length + 1 := by
  by_cases hb : b ∈ l
  · have hpos := List.length_pos_of_mem hb
    have hlen := List.length_erase_of_mem hb
    omega
  · rw [List.erase_of_not_mem hb]
    exact .inl rfl

/-- The index is right if nothing was removed before it. -/
theorem erase_fits_iff (h : (pre ++ post).Nodup) :
    pre.length = (pre.erase b).length ∨ post.erase b = [] ↔ ¬ (b ∈ pre ∧ post ≠ []) := by
  by_cases hb : b ∈ pre
  · have hpost : b ∉ post := fun hm => List.disjoint_of_nodup_append h hb hm
    have hpos := List.length_pos_of_mem hb
    have hlen := List.length_erase_of_mem hb
    have hne : pre.length ≠ (pre.erase b).length := by omega
    rw [List.erase_of_not_mem hpost, or_iff_right hne]
    simp [hb]
  · rw [List.erase_of_not_mem hb]
    simp [hb]

end Insert

section Drops

variable {w w' : GuiMainWindow} {t dropped dst : Nat} {r : GuiBase}

theorem Departed.not_mem_read (h : w.Departed t w') (hr : r ≠ .term t) :
    t ∉ w'.visualOrder r := by
  intro hm
  refine hr (h.panes.linked.eq_of_under_root ?_ (h.displayed.under_of_mem hm))
  simp [forest, h.parentSplit]

/-- The tabs that a departing terminal leaves behind are in the places they were in. -/
theorem Departed.displaces_iff (h : w.Departed t w') (left right : Nat) :
    w'.Displaces t left right ↔ w.Displaces t left right := by
  rcases h.cases with ⟨rfl, -⟩ | ⟨hno, hno'⟩
  · rfl
  · refine iff_of_false (fun hd => hno' ?_) (fun hd => hno ?_)
    · exact List.mem_of_mem_take hd.1
    · exact List.mem_of_mem_take hd.1

/-- **A drop on the tab bar.** -/
theorem dropOnTabBar_order (h : w.Laid) (hdropped : dropped ∈ w.opened) {i : Nat}
    (hi : i < w.tabs.length) {type : SplitType} (htype : type = .left ∨ type = .right) :
    ∃ w', w.step (.dropOnTabBar dropped i type) = some w' ∧
      (w'.screen = droppedAt dropped (barIndex i type) w.screen ↔
        ¬ w.Displaces dropped (barIndex i type) (barIndex i type)) := by
  obtain ⟨w₁, w', hleft, hw', -, hscreen⟩ :=
    h.dropOnTabBar_view hdropped htype (show (i : Int) ≠ -1 by omega)
  refine ⟨w', hw', ?_⟩
  have hk : (if type = .left then (i : Int) else i + 1) = barIndex i type := by
    unfold barIndex
    split_ifs <;> rfl
  have hlen : barIndex i type ≤ w₁.tabs.length := by
    rw [hleft.length]
    unfold barIndex
    split_ifs <;> omega
  generalize barIndex i type = k at hk hlen ⊢
  have hnodup : (w₁.tabs.take k ++ w₁.tabs.drop k).Nodup := by
    rw [List.take_append_drop]
    exact hleft.panes.tabsNodup
  have hsplit : w₁.tabs.erase (.term dropped) =
      (w₁.tabs.take k).erase (.term dropped) ++ (w₁.tabs.drop k).erase (.term dropped) := by
    rw [← erase_append_nodup hnodup, List.take_append_drop]
  have htake : (w₁.tabs.take k).length = k := by rw [List.length_take, Nat.min_eq_left hlen]
  have hb : w₁.visualOrder (.term dropped) ∉
      ((w₁.tabs.drop k).erase (.term dropped)).map w₁.visualOrder := by
    intro hm
    obtain ⟨r, hr, heq⟩ := List.mem_map.mp hm
    have hne := ((hnodup.of_append_right).mem_erase_iff.mp hr).1
    refine hleft.not_mem_read hne ?_
    rw [heq, visualOrder_term]
    exact List.mem_singleton_self dropped
  rw [hscreen, hk, droppedAt, ← hleft.take, ← hleft.drop, hsplit, ← visualOrder_term w₁ dropped]
  have hfits := erase_fits_iff (b := .term dropped) hnodup
  have hcases := length_erase_cases (.term dropped) (w₁.tabs.take k)
  rw [htake] at hfits hcases
  rw [← hleft.displaces_iff]
  exact (map_insertAt_iff hcases hb).trans hfits

/-- Without the dropped terminal the other one is alone again. -/
theorem filter_beside (hne : dropped ≠ dst) (split : SplitType) :
    (beside split dst dropped).filter (fun u => u ≠ dropped) = [dst] := by
  unfold beside
  split_ifs <;> simp [hne.symm]

theorem filter_flatMap_beside (hne : dropped ≠ dst) (split : SplitType) {l : List Nat}
    (hl : dropped ∉ l) :
    (l.flatMap (subst dst (beside split dst dropped))).filter (fun u => u ≠ dropped) = l := by
  induction l with
  | nil => rfl
  | cons u l ih =>
      rw [List.mem_cons, not_or] at hl
      rw [List.flatMap_cons, List.filter_append, ih hl.2]
      by_cases hu : u = dst
      · rw [hu, subst_self, filter_beside hne]
        rfl
      · rw [subst_of_ne hu]
        simp [Ne.symm hl.1]

/-- A tab that stays has other terminals than the one that has left. -/
theorem Departed.read_ne_nil (h : w.Departed t w') (hr : r ∈ w'.tabs.erase (.term t)) :
    w'.visualOrder r ≠ [] := by
  have hmem : w'.visualOrder r ∈ without t w.screen := h.tabs ▸ List.mem_map_of_mem hr
  exact of_decide_eq_true (List.mem_filter.mp hmem).2

/-- A drop on a terminal in a splitter. -/
theorem Departed.keeps_child {w₁ w₂ : GuiMainWindow} {split : SplitType}
    (h : w.Departed dropped w₁) (hv : JoiningView w₁ dst split dropped w₂) (hw₂ : w₂.Wired)
    (hne : dropped ≠ dst) (hdst : .term dst ∉ w₁.tabs) :
    without dropped w₂.screen = without dropped w.screen := by
  have hdead := fun s hs => (h.panes.dead s hs).1
  have hread : ∀ r ∈ w₁.tabs.erase (.term dropped), ((w₁.visualOrder r).flatMap
      (subst dst (beside split dst dropped))).filter (fun u => u ≠ dropped) =
      w₁.visualOrder r := fun r hr =>
    filter_flatMap_beside hne split
      (h.not_mem_read (h.panes.tabsNodup.mem_erase_iff.mp hr).1)
  rw [hv.screen_child h.displayed h.panes.toWired hdead h.parentSplit hne.symm hw₂ hdst,
    ← h.tabs, without_eq_map, List.map_map, List.map_map]
  · exact List.map_congr_left hread
  · intro l hl
    rw [List.map_map, List.map_map] at hl
    obtain ⟨r, hr, rfl⟩ := List.mem_map.mp hl
    exact fun heq => h.read_ne_nil hr ((hread r hr).symm.trans heq)

/-- A drop on a terminal that is a tab. -/
theorem Departed.keeps_tab_iff {w₁ w₂ : GuiMainWindow} {split : SplitType}
    (h : w.Departed dropped w₁) (hv : JoiningView w₁ dst split dropped w₂) (hw₂ : w₂.Wired)
    (hne : dropped ≠ dst) {i : Nat} (hi : w₁.tabs[i]? = some (.term dst)) :
    without dropped w₂.screen = without dropped w.screen ↔ ¬ w.Displaces dropped i (i + 1) := by
  have hdead := fun s hs => (h.panes.dead s hs).1
  have hwired := h.panes.toWired
  have hdst : .term dst ∈ w₁.tabs := List.mem_of_getElem? hi
  have hdn : GuiBase.term dst ≠ .term dropped := by simpa using hne.symm
  obtain ⟨htabs₂, hnew, hold⟩ :=
    hv.screen_tab h.displayed hwired hdead h.parentSplit hne.symm hw₂ hi
  -- the tabs on both sides of the destination
  obtain ⟨pre, post, htabs, hpre, hpost, -⟩ := exists_split hwired.tabsNodup hdst
  obtain rfl : i = pre.length := by
    refine (List.getElem?_inj (List.getElem?_eq_some_iff.mp hi).1 hwired.tabsNodup).mp ?_
    rw [hi]
    simp [htabs]
  have herase : w₁.tabs.erase (.term dst) = pre ++ post := by
    rw [htabs, List.erase_append_right _ hpre, List.erase_cons_head]
  have hnodup : (pre ++ post).Nodup := herase ▸ hwired.tabsNodup.erase _
  rw [herase, erase_append_nodup hnodup] at htabs₂ hold
  have hsplit : w₁.tabs.erase (.term dropped) =
      pre.erase (.term dropped) ++ .term dst :: post.erase (.term dropped) := by
    have hmid := erase_append_nodup (b := .term dropped) (htabs ▸ hwired.tabsNodup)
    rw [htabs, hmid, List.erase_cons_tail (by simpa using hdn)]
  have hother : ∀ r ∈ pre.erase (.term dropped) ++ post.erase (.term dropped),
      r ∈ w₁.tabs.erase (.term dropped) := by
    intro r hr
    rw [hsplit]
    rcases List.mem_append.mp hr with hr | hr
    · exact List.mem_append_left _ hr
    · exact List.mem_append_right _ (List.mem_cons_of_mem _ hr)
  have hread : (w₂.tabs.map w₂.visualOrder).map (fun l => l.filter (fun u => u ≠ dropped)) =
      (insertAt pre.length (.term dst)
        (pre.erase (.term dropped) ++ post.erase (.term dropped))).map w₁.visualOrder := by
    rw [htabs₂, List.map_map]
    refine map_insertAt_congr ?_ (fun r hr => ?_) _
    · rw [Function.comp_apply, hnew, filter_beside hne, visualOrder_term]
    · rw [Function.comp_apply, hold r hr]
      exact filter_ne_self (h.not_mem_read (hwired.tabsNodup.mem_erase_iff.mp (hother r hr)).1)
  have hkept : ∀ l ∈ (w₂.tabs.map w₂.visualOrder).map
      (fun l => l.filter (fun u => u ≠ dropped)), l ≠ [] := by
    intro l hl
    rw [hread] at hl
    obtain ⟨r, hr, rfl⟩ := List.mem_map.mp hl
    rcases mem_insertAt.mp hr with rfl | hr
    · rw [visualOrder_term]
      exact List.cons_ne_nil _ _
    · exact h.read_ne_nil (hother r hr)
  have hb : w₁.visualOrder (.term dst) ∉ (post.erase (.term dropped)).map w₁.visualOrder := by
    intro hm
    obtain ⟨r, hr, heq⟩ := List.mem_map.mp hm
    have hmem : dst ∈ w₁.visualOrder r := by
      rw [heq, visualOrder_term]
      exact List.mem_singleton_self dst
    have hrt := List.mem_of_mem_erase (hother r (List.mem_append_right _ hr))
    obtain rfl := hwired.tab_unique hrt hdst (h.displayed.under_of_mem hmem) (.refl _)
    exact hpost (List.mem_of_mem_erase hr)
  have hdis : w₁.Displaces dropped pre.length (pre.length + 1) ↔
      .term dropped ∈ pre ∧ post ≠ [] := by
    simp [Displaces, htabs]
  rw [GuiMainWindow.screen, without_eq_map hkept, hread, ← h.tabs, hsplit, List.map_append,
    List.map_cons, ← h.displaces_iff, hdis]
  exact (map_insertAt_iff (length_erase_cases _ pre) hb).trans (erase_fits_iff hnodup)

/-- **A drop on a terminal.** -/
theorem dropOnTerminal_order (h : w.Laid) (hdropped : dropped ∈ w.opened)
    (hdst : dst ∈ w.opened) (hne : dropped ≠ dst) (split : SplitType) :
    ∃ w', w.step (.dropOnTerminal dropped dst split) = some w' ∧
      (without dropped w'.screen = without dropped w.screen ↔
        ∀ i : Nat, w.tabs[i]? = some (.term dst) → ¬ w.Displaces dropped i (i + 1)) := by
  obtain ⟨w₁, w₂, hleft, hv, hwired₂, hw', -, hscreen⟩ :=
    h.dropOnTerminal_view hdropped hdst hne split
  refine ⟨_, hw', ?_⟩
  rw [hscreen]
  -- a terminal that was no tab left the places as they were
  have hnone : ∀ i : Nat, .term dropped ∉ w.tabs → ¬ w.Displaces dropped i (i + 1) :=
    fun i hno hdis => hno (List.mem_of_mem_take hdis.1)
  by_cases hdt : .term dst ∈ w₁.tabs
  · obtain ⟨i, hi⟩ := List.getElem?_of_mem hdt
    refine (hleft.keeps_tab_iff hv hwired₂ hne hi).trans ?_
    rcases hleft.cases with ⟨rfl, -⟩ | ⟨hno, -⟩
    · refine ⟨fun hdis j hj => ?_, fun hall => hall i hi⟩
      have hij := (List.getElem?_inj (List.getElem?_eq_some_iff.mp hi).1 h.panes.tabsNodup).mp
        (hi.trans hj.symm)
      exact hij ▸ hdis
    · exact iff_of_true (hnone i hno) fun j _ => hnone j hno
  · refine iff_of_true (hleft.keeps_child hv hwired₂ hne hdt) fun i hi => ?_
    rcases hleft.cases with ⟨rfl, -⟩ | ⟨hno, -⟩
    · exact absurd (List.mem_of_getElem? hi) hdt
    · exact hnone i hno

/-- **The drops that keep the order of the tabs.** -/
theorem keepsTabOrder_iff (h : w.Laid) (hdropped : dropped ∈ w.opened) :
    (∀ dst ∈ w.opened, dropped ≠ dst → ∀ split,
      ∃ w', w.step (.dropOnTerminal dropped dst split) = some w' ∧
        (without dropped w'.screen = without dropped w.screen ↔
          ∀ i : Nat, w.tabs[i]? = some (.term dst) → ¬ w.Displaces dropped i (i + 1))) ∧
    (∀ i < w.tabs.length, ∀ type, (type = .left ∨ type = .right) →
      ∃ w', w.step (.dropOnTabBar dropped i type) = some w' ∧
        (w'.screen = droppedAt dropped (barIndex i type) w.screen ↔
          ¬ w.Displaces dropped (barIndex i type) (barIndex i type))) :=
  ⟨fun _ hdst hne split => dropOnTerminal_order h hdropped hdst hne split,
    fun _ hi _ htype => dropOnTabBar_order h hdropped hi htype⟩

end Drops

section Example

/-- Three tabs. -/
def threeTabs : List PaneOp := [.openTab, .openTab, .openTab]

/-- Drops from the right keep the order. -/
theorem keepsTabOrder_leftward :
    ∃ w, init.run threeTabs = some w ∧ w.screen = [[0], [1], [2]] ∧
      (∃ w', w.step (.dropOnTerminal 2 0 .right) = some w' ∧
        without 2 w'.screen = [[0], [1]]) ∧
      ∃ w', w.step (.dropOnTabBar 2 0 .right) = some w' ∧ w'.screen = [[0], [2], [1]] := by
  obtain ⟨w, hw, hlaid⟩ := laid_init.run threeTabs
  have hread :=
    congrArg (Option.map fun w : GuiMainWindow => (w.opened, w.screen, w.tabs)) hw.symm
  change some (w.opened, w.screen, w.tabs) =
    some ([0, 1, 2], [[0], [1], [2]], [.term 0, .term 1, .term 2]) at hread
  simp only [Option.some.injEq, Prod.mk.injEq] at hread
  obtain ⟨hopened, hscreen, htabs⟩ := hread
  have hmem : 2 ∈ w.opened := by simp [hopened]
  obtain ⟨hterm, hbar⟩ := keepsTabOrder_iff hlaid hmem
  obtain ⟨w₁, hw₁, hiff₁⟩ := hterm 0 (by simp [hopened]) (by simp) .right
  obtain ⟨w₂, hw₂, hiff₂⟩ := hbar 0 (by simp [htabs]) .right (.inr rfl)
  refine ⟨w, hw, hscreen, ⟨w₁, hw₁, ?_⟩, w₂, hw₂, ?_⟩
  · rw [hiff₁.mpr, hscreen]
    · rfl
    · rintro i hi ⟨hmem, -⟩
      have hlt := (List.getElem?_eq_some_iff.mp hi).1
      rw [htabs] at hi hmem hlt
      simp only [List.length_cons, List.length_nil] at hlt
      interval_cases i <;> simp at hi hmem
  · rw [hiff₂.mpr, hscreen]
    · rfl
    · rintro ⟨hmem, -⟩
      simp [htabs, barIndex] at hmem

/-- A terminal that is dropped on its right neighbour, or to the left of it, takes it past
the third tab, or lands behind it. -/
theorem not_keepsTabOrder_rightward :
    ∃ w, init.run threeTabs = some w ∧ w.screen = [[0], [1], [2]] ∧
      (∃ w', w.step (.dropOnTerminal 0 1 .right) = some w' ∧
        w'.screen = [[2], [1, 0]] ∧ without 0 w'.screen ≠ without 0 w.screen) ∧
      ∃ w', w.step (.dropOnTabBar 0 1 .left) = some w' ∧
        w'.screen = [[1], [0], [2]] ∧ w'.screen ≠ droppedAt 0 (barIndex 1 .left) w.screen := by
  refine ⟨_, rfl, rfl, ⟨_, rfl, rfl, ?_⟩, _, rfl, rfl, ?_⟩
  · decide
  · decide

end Example

end GuiMainWindow

end Pane
end Qutty
