import Qutty.Pane.VisualOrder

/-!
# Splits, closes and drops in visual order

Between two operations no closed splitter is left, and the widgets of a splitter are its
children (`Laid`).  Read in visual order, a split puts the new terminal beside the old
one, and a terminal that is closed or dragged away is missing from its tab afterwards;
nothing else moves (`visualOrder_kept`).
-/

namespace Qutty
namespace Pane

open Lib

/-- The two terminals after a split, as `GuiBase.hpp` names the kinds. -/
def SplitType.standing (split : SplitType) (t n : Nat) : List Nat :=
  match split with
  | .down | .right => [t, n]
  | .up | .left => [n, t]
  | _ => []

/-- The direction in which the two stand. -/
def SplitType.axis : SplitType → Option Orientation
  | .down | .up => some .vertical
  | .left | .right => some .horizontal
  | _ => Option.none

namespace GuiMainWindow

/-- The representation invariant between two operations. -/
structure Laid (w : GuiMainWindow) : Prop where
  panes : w.Panes []
  displayed : w.Displayed
  purged : w.dying = []

/-- A terminal is taken from all tabs, and a tab that is empty then goes too. -/
def without (t : Nat) (tabs : List (List Nat)) : List (List Nat) :=
  (tabs.map (fun l => l.filter (fun u => u ≠ t))).filter (fun l => l ≠ [])

/-- Two terminals stand together in a splitter. -/
def Adjacent (w : GuiMainWindow) (two : List Nat) (o : Orientation) : Prop :=
  ∃ p pre post, w.widgets p = pre ++ two.map GuiBase.term ++ post ∧
    (∀ t ∈ two, .term t ∈ w.child p) ∧ w.orientation p = o

section Reading

variable {w w' : GuiMainWindow} {t u n : Nat} {r b : GuiBase} {split : SplitType}

theorem visualOrder_congr (hwidgets : w'.widgets = w.widgets)
    (hnext : w'.nextSplitter = w.nextSplitter) : w'.visualOrder = w.visualOrder := by
  funext b
  rw [visualOrder, visualOrder, hwidgets, hnext]

theorem populate_perm {f f' : Nat → List GuiBase} (h : ∀ s, (f s).Perm (f' s)) (m : Nat)
    (b : GuiBase) : (populate f m b).Perm (populate f' m b) := by
  induction m generalizing b with
  | zero => cases b <;> exact .refl _
  | succ m ih =>
      cases b with
      | term t => exact .refl _
      | split s =>
          rw [populate, populate]
          exact ((h s).flatMap_right _).trans (List.Perm.flatMap_left _ fun c _ => ih c)

/-- The visual order has the terminals of `populateAllTerminals`. -/
theorem Laid.perm (h : w.Laid) (b : GuiBase) :
    (w.visualOrder b).Perm (w.populateAllTerminals b) := by
  refine populate_perm (fun s => ?_) _ b
  refine (List.perm_ext_iff_of_nodup (h.displayed.nodup s) h.panes.child_nodup).mpr fun x => ?_
  exact h.displayed.mem h.panes.toWired h.purged

theorem Laid.mem_visualOrder (h : w.Laid) :
    t ∈ w.visualOrder b ↔ w.forest.Under b (.term t) := by
  rw [(h.perm b).mem_iff, h.panes.mem_populateAllTerminals]

/-- A tab has terminals. -/
theorem Laid.visualOrder_ne_nil (h : w.Laid) (hr : r ∈ w.tabs) : w.visualOrder r ≠ [] := by
  obtain ⟨t, -, hu⟩ := h.panes.exists_terminal (h.panes.live_of_mem_tabs hr)
  exact List.ne_nil_of_mem (h.mem_visualOrder.mpr hu)

/-- A tab of one terminal has no other tab's terminals. -/
theorem Laid.not_mem_visualOrder (h : w.Laid) (ht : .term t ∈ w.tabs) (hr : r ∈ w.tabs)
    (hne : r ≠ .term t) : t ∉ w.visualOrder r := by
  intro hm
  exact hne (h.panes.tab_unique hr ht (h.mem_visualOrder.mp hm) (.refl _))

theorem filter_ne_self {l : List Nat} (ht : t ∉ l) : l.filter (fun u => u ≠ t) = l := by
  refine List.filter_eq_self.mpr fun u hu => ?_
  have hne : u ≠ t := by
    rintro rfl
    exact ht hu
  simpa using hne

/-- A tab of one terminal goes with it. -/
theorem Laid.without_tab (h : w.Laid) (ht : .term t ∈ w.tabs) {l : List GuiBase} (hn : l.Nodup)
    (hl : ∀ r ∈ l, r ∈ w.tabs) :
    without t (l.map w.visualOrder) = (l.erase (.term t)).map w.visualOrder := by
  induction l with
  | nil => rfl
  | cons r l ih =>
      rw [List.nodup_cons] at hn
      have hrest := ih hn.2 fun r hr => hl r (List.mem_cons_of_mem _ hr)
      simp only [without] at hrest ⊢
      rw [List.map_cons, List.map_cons, List.filter_cons, hrest]
      by_cases hr : r = .term t
      · subst hr
        rw [visualOrder_term, List.erase_cons_head, List.erase_of_not_mem hn.1]
        simp
      · have hrt := hl r List.mem_cons_self
        rw [filter_ne_self (h.not_mem_visualOrder ht hrt hr),
          List.erase_cons_tail (by simpa using hr)]
        simp [h.visualOrder_ne_nil hrt]

/-- The sequence of a terminal's splitter is not empty without it. -/
theorem without_eq_map {tabs : List (List Nat)}
    (h : ∀ l ∈ tabs.map (fun l => l.filter (fun u => u ≠ t)), l ≠ []) :
    without t tabs = tabs.map (fun l => l.filter (fun u => u ≠ t)) :=
  List.filter_eq_self.mpr fun l hl => by simpa using h l hl

/-- Closed splitters show nothing, and nothing is missing when they are deleted. -/
theorem Displayed.visualOrder_purge (hd : w.Displayed) (h : w.Wired)
    (hdead : ∀ s ∈ w.dying, s < w.nextSplitter)
    (hr : ∀ q, r = .split q → q < w.nextSplitter ∧ q ∉ w.dying) :
    w.purge.visualOrder r = w.visualOrder r := by
  have hdesc := hd.descends h hdead
  have hdesc' : Descends w.purge.widgets w.purge.nextSplitter := by
    refine ⟨fun s s' hs => ?_, fun s hs => ?_⟩
    · exact hdesc.below s s' (List.mem_filter.mp hs).1
    · exact List.filter_eq_nil_iff.mpr fun b hb => by simp [hd.fresh s hs] at hb
  have hall := populate_replace hdesc (fun u => [u])
    (fun x => if ∀ d ∈ w.dying, x ≠ .split d then [x] else []) w.purge.visualOrder
    ?_ ?_ r (fun q hq => (hr q hq).1)
  · have hrd : ∀ d ∈ w.dying, r ≠ .split d := fun d hd' heq => (hr d heq).2 hd'
    rw [if_pos hrd, List.flatMap_singleton, List.flatMap_singleton'] at hall
    exact hall
  · intro u
    rw [if_pos (by simp), List.flatMap_singleton, visualOrder_term]
  · intro q _ hc
    by_cases hq : ∀ d ∈ w.dying, GuiBase.split q ≠ .split d
    · rw [if_pos hq, List.flatMap_singleton, visualOrder, populate_split hdesc']
      refine flatMap_replace (l := w.widgets q) ?_ hc
      change (w.widgets q).filter _ = _
      generalize w.widgets q = l
      induction l with
      | nil => rfl
      | cons x l ih =>
          rw [List.filter_cons, List.flatMap_cons, ih]
          by_cases hx : ∀ d ∈ w.dying, x ≠ .split d
          · rw [if_pos (decide_eq_true hx), if_pos hx]
            rfl
          · rw [if_neg (by simpa using hx), if_neg hx]
            rfl
    · have hqd : q ∈ w.dying := by
        simp only [not_forall, not_not] at hq
        obtain ⟨d, hd', heq⟩ := hq
        cases heq
        exact hd'
      rw [if_neg hq, hd.closed q hqd]
      rfl

theorem Displayed.purge (hd : w.Displayed) : w.purge.Displayed where
  nodup s := (hd.nodup s).filter _
  known s b hb := by
    obtain ⟨hb, hnd⟩ := List.mem_filter.mp hb
    refine .inl ?_
    rcases hd.known s b hb with hc | ⟨d, hd', rfl, -⟩
    · exact hc
    · exact absurd rfl (of_decide_eq_true hnd d hd')
  closed d hd' := by simp [GuiMainWindow.purge] at hd'
  fresh s hs := List.filter_eq_nil_iff.mpr fun b hb => by simp [hd.fresh s hs] at hb

/-- The end of an operation. -/
theorem laid_purge (h : w.Panes []) (hd : w.Displayed) :
    w.purge.Laid ∧ w.purge.screen = w.screen := by
  refine ⟨⟨h.purge, hd.purge, rfl⟩, List.map_congr_left fun r hr => ?_⟩
  refine hd.visualOrder_purge h.toWired (fun s hs => (h.dead s hs).1) fun q hq => ?_
  subst hq
  refine ⟨?_, fun hqd => h.live_of_mem_tabs hr (h.dead q hqd).2⟩
  by_contra hlt
  exact (h.fresh q (by omega)).2.2 hr

/-- Adjacent panes stay so when closed splitters are deleted. -/
theorem Adjacent.purge {two : List Nat} {o : Orientation} (ha : w.Adjacent two o) :
    w.purge.Adjacent two o := by
  obtain ⟨p, pre, post, hwidgets, hchild, ho⟩ := ha
  have htwo : (two.map GuiBase.term).filter (fun b => ∀ d ∈ w.dying, b ≠ .split d) =
      two.map GuiBase.term := by
    refine List.filter_eq_self.mpr fun b hb => ?_
    obtain ⟨u, -, rfl⟩ := List.mem_map.mp hb
    simp
  refine ⟨p, pre.filter (fun b => ∀ d ∈ w.dying, b ≠ .split d),
    post.filter (fun b => ∀ d ∈ w.dying, b ≠ .split d), ?_, hchild, ho⟩
  change (w.widgets p).filter _ = _
  rw [hwidgets, List.filter_append, List.filter_append, htwo]

end Reading

section Leaving

variable {w w' : GuiMainWindow} {t : Nat}

theorem nextSplitter_leaving {s : Nat} (h : w.Wired) (hl : Leaving w s t w') :
    w'.nextSplitter = w.nextSplitter := by
  obtain ⟨ds, hobj, -⟩ := hl.objects_eq h
  exact congrArg Objects.nextSplitter hobj

/-- **A terminal leaves its splitter, if it is in one.** -/
theorem Laid.leaveSplit (h : w.Laid) (t : Nat) :
    ∃ w', w.leaveSplit t = some w' ∧ w'.Panes [t] ∧ w'.Displayed ∧ Left w t w' ∧
      w'.parentSplit (.term t) = none ∧ w'.opened = w.opened ∧
      (w' = w ∨ .term t ∉ w.tabs ∧ .term t ∉ w'.tabs ∧
        w'.screen = w.screen.map (fun l => l.filter (fun u => u ≠ t))) := by
  obtain ⟨w', hw', hwired, hl⟩ := h.panes.leaveSplit t
  obtain ⟨hpanes, hp, ds, hobj⟩ := h.panes.left hwired hl
  have hopen : w'.opened = w.opened := congrArg Objects.opened hobj
  refine ⟨w', hw', hpanes, ?_, hl, hp, hopen, ?_⟩
  · rcases hl with ⟨rfl, -⟩ | ⟨s, ht, hl⟩
    · exact h.displayed
    · have hrem : w.removeSplitLayout s t = some w' := by
        rw [GuiMainWindow.leaveSplit, h.panes.parentSplit_iff.mpr ht] at hw'
        exact hw'
      exact (h.displayed.leaving h.panes.toWired h.purged ht hrem hl).displayed h.displayed
        h.panes.toWired h.purged ht (nextSplitter_leaving h.panes.toWired hl)
  · rcases hl with ⟨rfl, -⟩ | ⟨s, ht, hl⟩
    · exact .inl rfl
    · have hrem : w.removeSplitLayout s t = some w' := by
        rw [GuiMainWindow.leaveSplit, h.panes.parentSplit_iff.mpr ht] at hw'
        exact hw'
      have hview := h.displayed.leaving h.panes.toWired h.purged ht hrem hl
      refine .inr ⟨h.panes.not_mem_tabs ht, ?_, hview.screen h.displayed h.panes.toWired h.purged
        ht hwired (nextSplitter_leaving h.panes.toWired hl)⟩
      have hno := h.panes.not_mem_tabs ht
      have hbt : ∀ b, (w.child s).erase (.term t) = [b] → b ≠ .term t := fun b hs =>
        (mem_iff_of_erase_eq_singleton h.panes.child_nodup ht hs).1
      cases hview with
      | stay widgets child tabs dying => rwa [tabs]
      | collapse b hs gone widgets child tabs dying =>
          rw [tabs, List.mem_map]
          rintro ⟨r, hr, heq⟩
          split_ifs at heq
          · exact hbt b hs heq
          · exact hno (heq ▸ hr)

end Leaving

section Joining

variable {w w' : GuiMainWindow} {t u n : Nat} {r b : GuiBase} {split : SplitType}

theorem map_beside (split : SplitType) (t n : Nat) :
    (beside split t n).map GuiBase.term = pair split t n := by
  unfold beside pair
  split_ifs <;> rfl

/-- What is shown below a pane is below it. -/
theorem Displayed.under_of_mem (hd : w.Displayed) {m : Nat}
    (hm : u ∈ populate w.widgets m b) : w.forest.Under b (.term u) := by
  induction m generalizing b with
  | zero =>
      cases b with
      | term t =>
          rw [populate, List.mem_singleton] at hm
          exact hm ▸ .refl _
      | split s => simp [populate] at hm
  | succ m ih =>
      cases b with
      | term t =>
          rw [populate, List.mem_singleton] at hm
          exact hm ▸ .refl _
      | split s =>
          rw [populate, List.mem_flatMap] at hm
          obtain ⟨c, hc, hm⟩ := hm
          rcases hd.known s c hc with hch | ⟨d, hdd, rfl, -⟩
          · exact Forest.Under.head hch (ih hm)
          · -- a closed splitter shows nothing
            cases m with
            | zero => simp [populate] at hm
            | succ m => simp [populate, hd.closed d hdd] at hm

/-- The tabs after a terminal has been put beside one in a splitter. -/
theorem JoiningView.screen_child (hv : JoiningView w t split n w') (hd : w.Displayed)
    (h : w.Wired) (hdead : ∀ s ∈ w.dying, s < w.nextSplitter)
    (hn : w.parentSplit (.term n) = none) (htn : t ≠ n) (hw' : w'.Wired) (ht : .term t ∉ w.tabs) :
    w'.screen = ((w.tabs.erase (.term n)).map w.visualOrder).map
      (fun l => l.flatMap (subst t (GuiMainWindow.beside split t n))) := by
  have htabs : w'.tabs = w.tabs.erase (.term n) := by
    cases hv with
    | beside p hp ho widgets child next orientation dying tabs => exact tabs
    | split widgets new child next orientation dying tabs =>
        rcases tabs with ⟨-, tabs⟩ | ⟨i, hi, -⟩
        · exact tabs
        · exact absurd (List.mem_of_getElem? hi) ht
  rw [GuiMainWindow.screen, htabs, List.map_map]
  refine List.map_congr_left fun r hr => ?_
  have hrt := List.mem_of_mem_erase hr
  refine hv.read hd h hdead hn htn hw' (fun q hq => ?_) (fun heq => ht (heq ▸ hrt))
  subst hq
  by_contra hlt
  exact (h.fresh q (by omega)).2.2 hrt

/-- The tabs after a terminal has been put beside a tab: a new tab for the two, and the
others. -/
theorem JoiningView.screen_tab (hv : JoiningView w t split n w') (hd : w.Displayed)
    (h : w.Wired) (hdead : ∀ s ∈ w.dying, s < w.nextSplitter)
    (hn : w.parentSplit (.term n) = none) (htn : t ≠ n) (hw' : w'.Wired) {i : Nat}
    (hi : w.tabs[i]? = some (.term t)) :
    w'.tabs = insertAt i (.split w.nextSplitter) ((w.tabs.erase (.term t)).erase (.term n)) ∧
      w'.visualOrder (.split w.nextSplitter) = GuiMainWindow.beside split t n ∧
      ∀ r ∈ (w.tabs.erase (.term t)).erase (.term n), w'.visualOrder r = w.visualOrder r := by
  have hroot : .term t ∈ w.tabs := List.mem_of_getElem? hi
  have hread : ∀ r ∈ (w.tabs.erase (.term t)).erase (.term n),
      w'.visualOrder r = w.visualOrder r := by
    intro r hr
    obtain ⟨hrt, hr'⟩ := h.tabsNodup.mem_erase_iff.mp (List.mem_of_mem_erase hr)
    have hold := hv.read hd h hdead hn htn hw' (r := r) (fun q hq => ?_) hrt
    · rw [hold]
      refine flatMap_subst_of_not_mem fun hm => hrt ?_
      exact h.tab_unique hr' hroot (hd.under_of_mem hm) (.refl _)
    · subst hq
      by_contra hlt
      exact (h.fresh q (by omega)).2.2 hr'
  have hd' := hv.displayed hd h hdead hn htn
  have hdesc' := hv.descends hd' hdead hw'
  cases hv with
  | beside p hp ho widgets child next orientation dying tabs =>
      exact absurd hroot (h.not_mem_tabs hp)
  | split widgets new child next orientation dying tabs =>
      refine ⟨?_, ?_, hread⟩
      · rcases tabs with ⟨hno, -⟩ | ⟨j, hj, tabs⟩
        · exact absurd hroot hno
        · have hlt := (List.getElem?_eq_some_iff.mp hi).1
          have hij := (List.getElem?_inj hlt h.tabsNodup).mp (hi.trans hj.symm)
          rw [tabs, hij]
      · rw [visualOrder, populate_split hdesc', new]
        exact flatMap_pair t n split (visualOrder_term w')

theorem perm_insertAt (i : Int) (x : GuiBase) (l : List GuiBase) :
    (insertAt i x l).Perm (x :: l) := by
  unfold insertAt
  split_ifs
  · exact List.perm_append_singleton x l
  · exact List.perm_insertIdx x l (by omega)

/-- In both cases the two stand in the place of the one. -/
theorem JoiningView.perm_screen (hv : JoiningView w t split n w') (hd : w.Displayed)
    (h : w.Wired) (hdead : ∀ s ∈ w.dying, s < w.nextSplitter)
    (hn : w.parentSplit (.term n) = none) (htn : t ≠ n) (hw' : w'.Wired) :
    w'.screen.Perm (((w.tabs.erase (.term n)).map w.visualOrder).map
      (fun l => l.flatMap (subst t (GuiMainWindow.beside split t n)))) := by
  by_cases ht : .term t ∈ w.tabs
  · obtain ⟨i, hi⟩ := List.getElem?_of_mem ht
    obtain ⟨htabs, hnew, hold⟩ := hv.screen_tab hd h hdead hn htn hw' hi
    have hne : GuiBase.term t ≠ .term n := by simpa using htn
    have hperm : (w.tabs.erase (.term n)).Perm
        (.term t :: (w.tabs.erase (.term t)).erase (.term n)) := by
      rw [List.erase_comm]
      exact List.perm_cons_erase ((List.mem_erase_of_ne hne).mpr ht)
    refine List.Perm.trans ?_ ((hperm.map _).map _).symm
    rw [GuiMainWindow.screen, htabs]
    refine ((perm_insertAt _ _ _).map _).trans (List.Perm.of_eq ?_)
    rw [List.map_cons, List.map_cons, List.map_cons, hnew, visualOrder_term, List.map_map]
    congr 1
    · simp
    · refine List.map_congr_left fun r hr => ?_
      obtain ⟨hrt, hr'⟩ := h.tabsNodup.mem_erase_iff.mp (List.mem_of_mem_erase hr)
      refine (hold r hr).trans (flatMap_subst_of_not_mem fun hm => hrt ?_).symm
      exact h.tab_unique hr' ht (hd.under_of_mem hm) (.refl _)
  · exact List.Perm.of_eq (hv.screen_child hd h hdead hn htn hw' ht)

/-- The two stand together. -/
theorem JoiningView.adjacent (hv : JoiningView w t split n w') (hd : w.Displayed) (h : w.Wired) :
    w'.Adjacent (GuiMainWindow.beside split t n) (orientOf split) := by
  have hmem : ∀ u ∈ GuiMainWindow.beside split t n, u = t ∨ u = n := by
    intro u hu
    have hu' : .term u ∈ pair split t n := map_beside split t n ▸ List.mem_map_of_mem hu
    rcases mem_pair.mp hu' with heq | heq
    · exact .inl (by simpa using heq)
    · exact .inr (by simpa using heq)
  cases hv with
  | beside p hp ho widgets child next orientation dying tabs =>
      obtain ⟨pre, post, hsplit, hpre, hpost, -⟩ := exists_split (hd.nodup p) (h.shown p _ hp)
      refine ⟨p, pre, post, ?_, fun u hu => ?_, ?_⟩
      · rw [widgets, hsplit, flatMap_subst_append hpre hpost, map_beside]
      · rcases hmem u hu with rfl | rfl
        · exact (child p _).mpr (.inl hp)
        · exact (child p _).mpr (.inr ⟨rfl, rfl⟩)
      · rw [orientation, ho]
  | split widgets new child next orientation dying tabs =>
      refine ⟨w.nextSplitter, [], [], ?_, fun u hu => ?_, orientation⟩
      · rw [new, map_beside, List.nil_append, List.append_nil]
      · refine (child _ _).mpr (.inr (.inr ⟨rfl, ?_⟩))
        rcases hmem u hu with rfl | rfl
        · exact .inl rfl
        · exact .inr rfl

end Joining

section Without

variable {w w' : GuiMainWindow} {t : Nat} {r : GuiBase}

/-- A tab with more than one terminal has another one. -/
theorem Laid.exists_ne (h : w.Laid) (hr : r ∈ w.tabs) (ht : r ≠ .term t) :
    ∃ u ∈ w.visualOrder r, u ≠ t := by
  have hlive := h.panes.live_of_mem_tabs hr
  cases r with
  | term u =>
      rw [visualOrder_term]
      exact ⟨u, List.mem_singleton_self u, by simpa using ht⟩
  | split s =>
      -- `t` is in one of the children at most
      have hlen := (h.panes.sized s).resolve_left hlive
      have hnodup : (w.child s).Nodup := h.panes.child_nodup
      obtain ⟨c, d, hc, hd, hcd⟩ : ∃ c d, c ∈ w.child s ∧ d ∈ w.child s ∧ c ≠ d := by
        cases hs : w.child s with
        | nil => simp [hs] at hlen
        | cons c l =>
            cases l with
            | nil => simp [hs] at hlen
            | cons d l =>
                rw [hs, List.nodup_cons] at hnodup
                refine ⟨c, d, by simp, by simp, ?_⟩
                rintro rfl
                exact hnodup.1 List.mem_cons_self
      have hterm : ∀ b ∈ w.child s, ∃ u, w.forest.Under b (.term u) := by
        intro b hb
        obtain ⟨u, -, hu⟩ :=
          h.panes.exists_terminal ((h.panes.placed b (by simp)).mp (.inr ⟨s, hb⟩))
        exact ⟨u, hu⟩
      obtain ⟨u, hu⟩ := hterm c hc
      obtain ⟨v, hv⟩ := hterm d hd
      have huv : u ≠ v := by
        rintro rfl
        exact h.panes.linked.not_under_of_siblings h.panes.ranked (p := .split s) hc hd hcd hu hv
      by_cases hut : u = t
      · exact ⟨v, h.mem_visualOrder.mpr (.head hd hv), fun hvt => huv (hut.trans hvt.symm)⟩
      · exact ⟨u, h.mem_visualOrder.mpr (.head hc hu), hut⟩

/-- A terminal in a splitter leaves its tab behind. -/
theorem Laid.without_child (h : w.Laid) (ht : .term t ∉ w.tabs) {l : List (List Nat)}
    (hl : ∀ x ∈ l, x ∈ w.screen) : without t l = l.map (fun x => x.filter (fun u => u ≠ t)) := by
  refine without_eq_map fun x hx => ?_
  obtain ⟨old, hold, rfl⟩ := List.mem_map.mp hx
  obtain ⟨r, hr, rfl⟩ := List.mem_map.mp (hl old hold)
  obtain ⟨u, hu, hne⟩ := h.exists_ne hr fun heq => ht (heq ▸ hr)
  exact List.ne_nil_of_mem (List.mem_filter.mpr ⟨hu, by simpa using hne⟩)

/-- The window after a terminal has left its splitter, if it was in one. -/
structure Departed (w : GuiMainWindow) (t : Nat) (w' : GuiMainWindow) : Prop where
  panes : w'.Panes [t]
  displayed : w'.Displayed
  parentSplit : w'.parentSplit (.term t) = none
  opened : w'.opened = w.opened
  cases : w' = w ∧ .term t ∈ w.tabs ∨ .term t ∉ w.tabs ∧ .term t ∉ w'.tabs
  length : w'.tabs.length = w.tabs.length
  /-- the tabs to the left and to the right of any place -/
  take : ∀ k, ((w'.tabs.take k).erase (.term t)).map w'.visualOrder = without t (w.screen.take k)
  drop : ∀ k, ((w'.tabs.drop k).erase (.term t)).map w'.visualOrder = without t (w.screen.drop k)

theorem Departed.tabs (h : w.Departed t w') :
    (w'.tabs.erase (.term t)).map w'.visualOrder = without t w.screen := h.drop 0

/-- **The tabs without the terminal that has left.** -/
theorem Laid.leave (h : w.Laid) (ht : t ∈ w.opened) :
    ∃ w', w.leaveSplit t = some w' ∧ w.Departed t w' := by
  obtain ⟨w', hw', hpanes, hd, hl, hp, hopen, hscreen⟩ := h.leaveSplit t
  refine ⟨w', hw', hpanes, hd, hp, hopen, ?_, ?_, fun k => ?_, fun k => ?_⟩
  all_goals rcases hscreen with rfl | ⟨hno, hno', hscreen⟩
  · exact .inl ⟨rfl, h.panes.mem_tabs ((h.panes.placed _ (by simp)).mpr ht) hp⟩
  · exact .inr ⟨hno, hno'⟩
  · rfl
  · simpa [GuiMainWindow.screen] using congrArg List.length hscreen
  · have htab : .term t ∈ w'.tabs := h.panes.mem_tabs ((h.panes.placed _ (by simp)).mpr ht) hp
    rw [GuiMainWindow.screen, ← List.map_take]
    exact (h.without_tab htab (h.panes.tabsNodup.sublist (List.take_sublist k _))
      fun r hr => List.mem_of_mem_take hr).symm
  · rw [List.erase_of_not_mem fun hm => hno' (List.mem_of_mem_take hm), List.map_take,
      h.without_child hno fun x hx => List.mem_of_mem_take hx, List.map_take, ← hscreen]
    rfl
  · have htab : .term t ∈ w'.tabs := h.panes.mem_tabs ((h.panes.placed _ (by simp)).mpr ht) hp
    rw [GuiMainWindow.screen, ← List.map_drop]
    exact (h.without_tab htab (h.panes.tabsNodup.sublist (List.drop_sublist k _))
      fun r hr => List.mem_of_mem_drop hr).symm
  · rw [List.erase_of_not_mem fun hm => hno' (List.mem_of_mem_drop hm), List.map_drop,
      h.without_child hno fun x hx => List.mem_of_mem_drop hx, List.map_drop, ← hscreen]
    rfl

end Without

section Steps

variable {w w' : GuiMainWindow} {t n : Nat}

theorem Displayed.congr (hd : w.Displayed) (hwidgets : w'.widgets = w.widgets)
    (hchild : w'.child = w.child) (hdying : w'.dying = w.dying)
    (hnext : w'.nextSplitter = w.nextSplitter) : w'.Displayed where
  nodup s := hwidgets ▸ hd.nodup s
  known s b hb := by
    rw [hchild, hdying]
    exact hd.known s b (hwidgets ▸ hb)
  closed d hd' := hwidgets ▸ hd.closed d (hdying ▸ hd')
  fresh s hs := hwidgets ▸ hd.fresh s (hnext ▸ hs)

theorem Displayed.newTerminal (hd : w.Displayed) : w.newTerminal.Displayed :=
  hd.congr rfl rfl rfl rfl

/-- A terminal becomes a tab: nothing else changes. -/
theorem setupLayoutLeaf_view (h : w.Wired) (hd : w.Displayed)
    (hn : w.parentSplit (.term n) = none) (i : Int) :
    (w.setupLayoutLeaf n i).Displayed ∧
      (w.setupLayoutLeaf n i).visualOrder = w.visualOrder ∧
      (w.setupLayoutLeaf n i).tabs = insertAt i (.term n) (w.tabs.erase (.term n)) := by
  have hnw : ∀ q, .term n ∉ w.widgets q := fun q hm =>
    h.not_mem_child hn ((hd.term_mem h).mp hm)
  have hobj : (w.setupLayoutLeaf n i).objects = w.objects := objects_setupLayoutLeaf i
  have hnext := nextSplitter_eq hobj
  have hwidgets : (w.setupLayoutLeaf n i).widgets = w.widgets := by
    funext q
    refine (widgets_tabInsert (w.leaveParent (.term n)) i (.term n) q).trans ?_
    rw [widgets_leaveParent, List.erase_of_not_mem (hnw q), List.erase_of_not_mem (hnw q)]
  refine ⟨hd.congr hwidgets (child_setupLayoutLeaf i) (congrArg Objects.dying hobj) hnext,
    visualOrder_congr hwidgets hnext, ?_⟩
  have htabs : (w.setupLayoutLeaf n i).tabs =
      insertAt i (.term n) ((w.tabs.erase (.term n)).erase (.term n)) := by
    simp [GuiMainWindow.setupLayoutLeaf, GuiMainWindow.onTabLayoutChanged]
  rw [htabs, List.erase_of_not_mem h.tabsNodup.not_mem_erase]

/-- A terminal is closed: nothing else changes. -/
theorem mainCloseTerminal_view (h : w.Wired) (hd : w.Displayed) (t : Nat) :
    ((w.mainCloseTerminal t).recordClosed t).Displayed ∧
      ((w.mainCloseTerminal t).recordClosed t).visualOrder = w.visualOrder ∧
      ((w.mainCloseTerminal t).recordClosed t).tabs = w.tabs.erase (.term t) := by
  obtain ⟨-, htabs, hchild, hobj⟩ := h.mainCloseTerminal t
  have hwidgets : (w.mainCloseTerminal t).widgets = w.widgets := by
    funext q
    unfold GuiMainWindow.mainCloseTerminal
    dsimp only
    split_ifs
    · exact congrFun (widgets_tabRemove _ _) q
    · rfl
  have hnext := nextSplitter_eq hobj
  exact ⟨hd.congr hwidgets hchild (congrArg Objects.dying hobj) hnext,
    visualOrder_congr hwidgets hnext, htabs⟩

/-- A new tab. -/
theorem Laid.openTab (h : w.Laid) :
    ∃ w', w.step .openTab = some w' ∧ w'.Laid ∧ w'.screen = w.screen ++ [[w.nextTerminal]] := by
  obtain ⟨hn, hp⟩ := h.panes.newTerminal
  obtain ⟨hd, hread, htabs⟩ :=
    setupLayoutLeaf_view (n := w.nextTerminal) hn.toWired h.displayed.newTerminal hp (-1)
  obtain ⟨hlaid, hscreen⟩ :=
    laid_purge (hn.setupLayoutLeaf (by simp [GuiMainWindow.newTerminal]) hp (-1)) hd
  refine ⟨_, step_eq rfl, hlaid, hscreen.trans ?_⟩
  have hno : .term w.nextTerminal ∉ w.tabs := fun hm =>
    lt_irrefl _ (h.panes.openedLt _ (h.panes.live_of_mem_tabs hm))
  have hnew : w.newTerminal.visualOrder = w.visualOrder := visualOrder_congr rfl rfl
  rw [GuiMainWindow.screen, htabs, hread, hnew]
  change (insertAt (-1) (.term w.nextTerminal) (w.tabs.erase (.term w.nextTerminal))).map _ = _
  rw [List.erase_of_not_mem hno, insertAt, if_pos (by omega), List.map_append, List.map_singleton,
    visualOrder_term]
  rfl

/-- **A split, in visual order.** -/
theorem Laid.split (h : w.Laid) (ht : t ∈ w.opened) (split : SplitType) :
    ∃ w', w.step (.split t split) = some w' ∧ w'.Laid ∧
      w'.screen =
        w.screen.map (fun l => l.flatMap (subst t (beside split t w.nextTerminal))) ∧
      w'.Adjacent (beside split t w.nextTerminal) (orientOf split) := by
  obtain ⟨hn, hp⟩ := h.panes.newTerminal
  have hne : t ≠ w.nextTerminal := (h.panes.openedLt t ht).ne
  have hdead := fun s hs => (hn.dead s hs).1
  have hd := h.displayed.newTerminal
  have hnew : w.newTerminal.visualOrder = w.visualOrder := visualOrder_congr rfl rfl
  obtain ⟨w₁, hw₁, hwired, hj⟩ :=
    hn.createSplitLayout split ((h.panes.placed (.term t) (by simp)).mpr ht) hp hne
  have hpanes := hn.joining (by simp [GuiMainWindow.newTerminal]) hwired hj
  have hv := hd.joining hn.toWired hdead hp hne hw₁ hj
  have hno : .term w.nextTerminal ∉ w.newTerminal.tabs := fun hm =>
    lt_irrefl _ (h.panes.openedLt _ (h.panes.live_of_mem_tabs hm))
  have hscreen₁ : w₁.screen =
      w.screen.map (fun l => l.flatMap (subst t (beside split t w.nextTerminal))) := by
    by_cases htt : .term t ∈ w.tabs
    · obtain ⟨i, hi⟩ := List.getElem?_of_mem htt
      obtain ⟨htabs, hpair, hold⟩ := hv.screen_tab hd hn.toWired hdead hp hne hwired hi
      have hset : w₁.tabs = w.tabs.map
          (fun r => if r = .term t then .split w.nextSplitter else r) := by
        rw [htabs, List.erase_of_not_mem fun hm => hno (List.mem_of_mem_erase hm),
          ← set_eq_map h.panes.tabsNodup hi]
        exact insertAt_erase h.panes.tabsNodup hi
      rw [GuiMainWindow.screen, GuiMainWindow.screen, hset, List.map_map, List.map_map]
      refine List.map_congr_left fun r hr => ?_
      rw [Function.comp_apply, Function.comp_apply]
      by_cases hrt : r = .term t
      · rw [if_pos hrt, hrt, visualOrder_term, List.flatMap_singleton, subst_self]
        exact hpair
      · have hrn : r ≠ .term w.nextTerminal := fun heq => hno (heq ▸ hr)
        rw [if_neg hrt, flatMap_subst_of_not_mem (h.not_mem_visualOrder htt hr hrt), ← hnew]
        refine hold r (List.mem_erase_of_ne hrn |>.mpr (List.mem_erase_of_ne hrt |>.mpr hr))
    · rw [hv.screen_child hd hn.toWired hdead hp hne hwired htt, List.erase_of_not_mem hno, hnew]
      rfl
  obtain ⟨hlaid, hscreen⟩ := laid_purge ((hpanes.terminalList
    (w₁.terminalList ++ [w.nextTerminal])).onTabLayoutChanged)
    ((hv.displayed hd hn.toWired hdead hp hne).congr rfl rfl rfl rfl)
  refine ⟨_, step_eq ?_, hlaid, hscreen.trans hscreen₁, ?_⟩
  · simp only [GuiMainWindow.perform, if_pos ht, setupLayoutSplit, hw₁, Option.bind_eq_bind,
      Option.bind_some]
  · exact Adjacent.purge (hv.adjacent hd hn.toWired)

/-- **A close, in visual order.** -/
theorem Laid.close (h : w.Laid) (ht : t ∈ w.opened) :
    ∃ w', w.step (.close t) = some w' ∧ w'.Laid ∧ w'.screen = without t w.screen := by
  obtain ⟨w₁, hw₁, hleft⟩ := h.leave ht
  have hwithout := hleft.tabs
  obtain ⟨hpanes, hd, hp, -⟩ := hleft
  obtain ⟨hd', hread, htabs⟩ := mainCloseTerminal_view hpanes.toWired hd t
  obtain ⟨hlaid, hscreen⟩ := laid_purge (hpanes.mainCloseTerminal hp) hd'
  refine ⟨_, step_eq ?_, hlaid, hscreen.trans ?_⟩
  · simp only [GuiMainWindow.perform, if_pos ht, GuiMainWindow.closeTerminal, hw₁,
      Option.bind_eq_bind, Option.bind_some]
  · rw [GuiMainWindow.screen, htabs, hread, hwithout]

/-- The two halves of a drop on a terminal. -/
theorem Laid.dropOnTerminal_view {dropped dst : Nat} (h : w.Laid) (hdropped : dropped ∈ w.opened)
    (hdst : dst ∈ w.opened) (hne : dropped ≠ dst) (split : SplitType) :
    ∃ w₁ w₂, w.Departed dropped w₁ ∧ JoiningView w₁ dst split dropped w₂ ∧ w₂.Wired ∧
      w.step (.dropOnTerminal dropped dst split) = some w₂.purge ∧ w₂.purge.Laid ∧
      w₂.purge.screen = w₂.screen := by
  obtain ⟨w₁, hw₁, hleft⟩ := h.leave hdropped
  have hhung : w₁.Hung (.term dst) := by
    refine (hleft.panes.placed _ (by simpa using hne.symm)).mpr ?_
    simpa [Live, hleft.opened] using hdst
  have hdead := fun s hs => (hleft.panes.dead s hs).1
  have hwired := hleft.panes.toWired
  obtain ⟨w₂, hw₂, hwired₂, hj⟩ :=
    hwired.createSplitLayout split hhung hleft.parentSplit hne.symm
  have hv := hleft.displayed.joining hwired hdead hleft.parentSplit hne.symm hw₂ hj
  obtain ⟨hlaid, hscreen⟩ := laid_purge
    (hleft.panes.joining (hleft.opened ▸ hdropped) hwired₂ hj)
    (hv.displayed hleft.displayed hwired hdead hleft.parentSplit hne.symm)
  refine ⟨w₁, w₂, hleft, hv, hwired₂, step_eq ?_, hlaid, hscreen⟩
  have hopened : dropped ∈ w.opened ∧ dst ∈ w.opened ∧ dropped ≠ dst := ⟨hdropped, hdst, hne⟩
  simp only [GuiMainWindow.perform, if_pos hopened, hw₁, Option.bind_eq_bind,
    Option.bind_some, hw₂]

/-- **A drop on a terminal, in visual order.** -/
theorem Laid.dropOnTerminal {dropped dst : Nat} (h : w.Laid) (hdropped : dropped ∈ w.opened)
    (hdst : dst ∈ w.opened) (hne : dropped ≠ dst) (split : SplitType) :
    ∃ w', w.step (.dropOnTerminal dropped dst split) = some w' ∧ w'.Laid ∧
      w'.screen.Perm ((without dropped w.screen).map
        (fun l => l.flatMap (subst dst (beside split dst dropped)))) ∧
      w'.Adjacent (beside split dst dropped) (orientOf split) := by
  obtain ⟨w₁, w₂, hleft, hv, hwired₂, hw', hlaid, hscreen⟩ :=
    h.dropOnTerminal_view hdropped hdst hne split
  have hdead := fun s hs => (hleft.panes.dead s hs).1
  have hwired := hleft.panes.toWired
  refine ⟨_, hw', hlaid, ?_, (hv.adjacent hleft.displayed hwired).purge⟩
  rw [hscreen, ← hleft.tabs]
  exact hv.perm_screen hleft.displayed hwired hdead hleft.parentSplit hne.symm hwired₂

/-- What a drop on the tab bar does. -/
theorem Laid.dropOnTabBar_view {dropped : Nat} {tabind : Int} {type : SplitType} (h : w.Laid)
    (hdropped : dropped ∈ w.opened) (htype : type = .left ∨ type = .right)
    (htab : tabind ≠ -1) :
    ∃ w₁ w', w.Departed dropped w₁ ∧ w.step (.dropOnTabBar dropped tabind type) = some w' ∧
      w'.Laid ∧ w'.screen = (insertAt (if type = .left then tabind else tabind + 1)
        (.term dropped) (w₁.tabs.erase (.term dropped))).map w₁.visualOrder := by
  obtain ⟨w₁, hw₁, hleft⟩ := h.leave hdropped
  obtain ⟨hd', hread, htabs⟩ := setupLayoutLeaf_view hleft.panes.toWired hleft.displayed
    hleft.parentSplit (if type = .left then tabind else tabind + 1)
  obtain ⟨hlaid, hscreen⟩ := laid_purge
    (hleft.panes.setupLayoutLeaf (hleft.opened ▸ hdropped) hleft.parentSplit _) hd'
  refine ⟨w₁, _, hleft, step_eq ?_, hlaid, ?_⟩
  · have hopened : dropped ∈ w.opened ∧ (type = .left ∨ type = .right) ∧ tabind ≠ -1 :=
      ⟨hdropped, htype, htab⟩
    simp only [GuiMainWindow.perform, if_pos hopened, hw₁, Option.bind_eq_bind,
      Option.bind_some]
  · rw [hscreen, GuiMainWindow.screen, htabs, hread]

/-- **A drop on the tab bar, in visual order.** -/
theorem Laid.dropOnTabBar {dropped : Nat} {tabind : Int} {type : SplitType} (h : w.Laid)
    (hdropped : dropped ∈ w.opened) (htype : type = .left ∨ type = .right)
    (htab : tabind ≠ -1) :
    ∃ w', w.step (.dropOnTabBar dropped tabind type) = some w' ∧ w'.Laid ∧
      w'.screen.Perm ([dropped] :: without dropped w.screen) := by
  obtain ⟨w₁, w', hleft, hw', hlaid, hscreen⟩ := h.dropOnTabBar_view hdropped htype htab
  refine ⟨w', hw', hlaid, ?_⟩
  rw [hscreen, ← hleft.tabs]
  refine ((perm_insertAt _ _ _).map _).trans (List.Perm.of_eq ?_)
  rw [List.map_cons, visualOrder_term]

/-- Every operation keeps the invariant. -/
theorem Laid.step (h : w.Laid) (op : PaneOp) : ∃ w', w.step op = some w' ∧ w'.Laid := by
  have hskip : w.perform op = some w → ∃ w', w.step op = some w' ∧ w'.Laid := fun hw =>
    ⟨_, step_eq hw, (laid_purge h.panes h.displayed).1⟩
  cases op with
  | openTab =>
      obtain ⟨w', hw', hlaid, -⟩ := h.openTab
      exact ⟨w', hw', hlaid⟩
  | split t split =>
      by_cases ht : t ∈ w.opened
      · obtain ⟨w', hw', hlaid, -⟩ := h.split ht split
        exact ⟨w', hw', hlaid⟩
      · exact hskip (if_neg ht)
  | close t =>
      by_cases ht : t ∈ w.opened
      · obtain ⟨w', hw', hlaid, -⟩ := h.close ht
        exact ⟨w', hw', hlaid⟩
      · exact hskip (if_neg ht)
  | dropOnTerminal dropped dst split =>
      by_cases hopen : dropped ∈ w.opened ∧ dst ∈ w.opened ∧ dropped ≠ dst
      · obtain ⟨w', hw', hlaid, -⟩ := h.dropOnTerminal hopen.1 hopen.2.1 hopen.2.2 split
        exact ⟨w', hw', hlaid⟩
      · exact hskip (if_neg hopen)
  | dropOnTabBar dropped tabind type =>
      by_cases hopen : dropped ∈ w.opened ∧ (type = .left ∨ type = .right) ∧ tabind ≠ -1
      · obtain ⟨w', hw', hlaid, -⟩ := h.dropOnTabBar hopen.1 hopen.2.1 hopen.2.2
        exact ⟨w', hw', hlaid⟩
      · exact hskip (if_neg hopen)

theorem laid_init : init.Laid where
  panes := panes_init
  displayed := ⟨by simp [init], by simp [init], by simp [init], by simp [init]⟩
  purged := rfl

/-- Every run ends in a window with the invariant. -/
theorem Laid.run (h : w.Laid) (ops : List PaneOp) : ∃ w', w.run ops = some w' ∧ w'.Laid := by
  induction ops generalizing w with
  | nil => exact ⟨w, rfl, h⟩
  | cons op ops ih =>
      obtain ⟨w₁, hw₁, h₁⟩ := h.step op
      obtain ⟨w', hw', h'⟩ := ih h₁
      exact ⟨w', by rw [GuiMainWindow.run, hw₁]; exact hw', h'⟩

end Steps

section Order

variable {w : GuiMainWindow} {split : SplitType} {o : Orientation}

theorem beside_eq_standing (ho : split.axis = some o) (t n : Nat) :
    beside split t n = split.standing t n ∧ orientOf split = o := by
  cases split <;> cases ho <;> exact ⟨rfl, rfl⟩

/-- **Splits, closes and drops keep the visual order.** -/
theorem visualOrder_kept (h : w.Laid) :
    (∀ t ∈ w.opened, ∀ split o, split.axis = some o →
      ∃ w', w.step (.split t split) = some w' ∧ w'.Laid ∧
        w'.screen =
          w.screen.map (fun l => l.flatMap (subst t (split.standing t w.nextTerminal))) ∧
        w'.Adjacent (split.standing t w.nextTerminal) o) ∧
    (∀ t ∈ w.opened,
      ∃ w', w.step (.close t) = some w' ∧ w'.Laid ∧ w'.screen = without t w.screen) ∧
    (∀ dropped ∈ w.opened, ∀ dst ∈ w.opened, dropped ≠ dst → ∀ split o, split.axis = some o →
      ∃ w', w.step (.dropOnTerminal dropped dst split) = some w' ∧ w'.Laid ∧
        w'.screen.Perm ((without dropped w.screen).map
          (fun l => l.flatMap (subst dst (split.standing dst dropped)))) ∧
        w'.Adjacent (split.standing dst dropped) o) ∧
    (∀ dropped ∈ w.opened, ∀ tabind type, (type = .left ∨ type = .right) → tabind ≠ -1 →
      ∃ w', w.step (.dropOnTabBar dropped tabind type) = some w' ∧ w'.Laid ∧
        w'.screen.Perm ([dropped] :: without dropped w.screen)) := by
  refine ⟨fun t ht split o ho => ?_, fun t ht => h.close ht,
    fun dropped hdropped dst hdst hne split o ho => ?_,
    fun dropped hdropped tabind type htype htab => h.dropOnTabBar hdropped htype htab⟩
  · obtain ⟨heq, ho⟩ := beside_eq_standing ho t w.nextTerminal
    rw [← heq, ← ho]
    exact h.split ht split
  · obtain ⟨heq, ho⟩ := beside_eq_standing ho dst dropped
    rw [← heq, ← ho]
    exact h.dropOnTerminal hdropped hdst hne split

/-- Splitting right, down and right again; closing the pane in the middle moves a splitter
into the one above it. -/
theorem visualOrder_kept_hoisted :
    ∃ w, init.run [.openTab, .split 0 .right, .split 1 .down, .split 2 .right] = some w ∧
      w.screen = [[0, 1, 2, 3]] ∧
      ∃ w', w.step (.close 1) = some w' ∧ w'.screen = [[0, 2, 3]] := by
  obtain ⟨w, hw, hlaid⟩ :=
    laid_init.run [.openTab, .split 0 .right, .split 1 .down, .split 2 .right]
  have hopened : w.opened = [0, 1, 2, 3] := by
    have hmap := congrArg (Option.map GuiMainWindow.opened) hw
    exact Option.some.inj hmap.symm
  have hscreen : w.screen = [[0, 1, 2, 3]] := by
    have hmap := congrArg (Option.map GuiMainWindow.screen) hw
    exact Option.some.inj hmap.symm
  obtain ⟨-, hclose, -⟩ := visualOrder_kept hlaid
  obtain ⟨w', hw', -, hscreen'⟩ := hclose 1 (by simp [hopened])
  exact ⟨w, hw, hscreen, w', hw', by rw [hscreen', hscreen]; rfl⟩

end Order

end GuiMainWindow

end Pane
end Qutty
