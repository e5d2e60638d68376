import Qutty.Pane.Operations

/-!
# Closing a whole tab

`GuiSplitter::reqCloseTerminal` walks a copy of each child vector while the
calls it makes change the tree: splitters collapse, and panes move up.  What
carries the walk is `Closing`, a relation between the states before and after
some terminals have been closed.  It says that nothing moves down (`shrink`) and
that splitters above none of these terminals keep their children (`frame`).
Hence the siblings that are still to be visited are untouched, and a splitter has
no children left when all its terminals are closed.
-/

namespace Qutty
namespace Pane

open Lib

/-- Elements that the filter drops may be replaced. -/
theorem filter_set {l : List GuiBase} {P : GuiBase → Bool} {i : Nat} {x b : GuiBase}
    (hi : l[i]? = some x) (hx : P x = false) (hb : P b = false) :
    (l.set i b).filter P = l.filter P := by
  induction l generalizing i with
  | nil => simp at hi
  | cons y l ih =>
      cases i with
      | zero =>
          simp only [List.getElem?_cons_zero, Option.some.injEq] at hi
          subst hi
          simp [hx, hb]
      | succ i =>
          rw [List.getElem?_cons_succ] at hi
          simp [List.filter_cons, ih hi]

/-- Elements that the filter drops may be erased. -/
theorem filter_erase {l : List GuiBase} {P : GuiBase → Bool} {x : GuiBase} (hx : P x = false) :
    (l.erase x).filter P = l.filter P := by
  rw [← List.erase_filter]
  exact List.erase_of_not_mem (by simp [hx])

namespace GuiMainWindow

/-- The state `w'` after the terminals `ts` have been closed in the state `w`. -/
structure Closing (w w' : GuiMainWindow) (ts : List Nat) : Prop where
  panes : w'.Panes []
  closed : w'.closed = w.closed ++ ts
  opened : ∀ t, t ∈ w'.opened ↔ t ∈ w.opened ∧ t ∉ ts
  nextSplitter : w'.nextSplitter = w.nextSplitter
  orientation : w'.orientation = w.orientation
  /-- splitters above none of the terminals keep their children -/
  frame : ∀ q, (∀ t ∈ ts, ¬ w.forest.Under (.split q) (.term t)) → w'.child q = w.child q
  /-- panes only move up -/
  shrink : ∀ p c, c ∈ w'.forest.children p → w.forest.Under p c
  /-- tabs with none of the terminals stay; `S` selects whole trees -/
  tabs : ∀ S : GuiBase → Bool, (∀ p c, c ∈ w.forest.children p → S p = S c) →
    (∀ t ∈ ts, S (.term t) = true) →
    w'.tabs.filter (fun b => !S b) = w.tabs.filter (fun b => !S b)

section Closing

variable {w w₁ w' : GuiMainWindow} {ts us : List Nat} {s t : Nat} {b : GuiBase}

theorem Closing.refl (h : w.Panes []) : Closing w w [] where
  panes := h
  closed := (List.append_nil _).symm
  opened := by simp
  nextSplitter := rfl
  orientation := rfl
  frame _ _ := rfl
  shrink _ _ hc := Forest.Under.head hc (.refl _)
  tabs _ _ _ := rfl

theorem Closing.under (h : Closing w w' ts) {x y : GuiBase} (hu : w'.forest.Under x y) :
    w.forest.Under x y :=
  hu.of_links h.shrink

theorem Closing.trans (h : Closing w w₁ ts) (h' : Closing w₁ w' us) :
    Closing w w' (ts ++ us) where
  panes := h'.panes
  closed := by rw [h'.closed, h.closed, List.append_assoc]
  opened t := by
    rw [h'.opened, h.opened, List.mem_append]
    tauto
  nextSplitter := h'.nextSplitter.trans h.nextSplitter
  orientation := h'.orientation.trans h.orientation
  frame q hq := by
    rw [h'.frame q fun t ht hu => hq t (List.mem_append_right _ ht) (h.under hu)]
    exact h.frame q fun t ht => hq t (List.mem_append_left _ ht)
  shrink p c hc := h.under (h'.shrink p c hc)
  tabs S hS hts := by
    have hS₁ : ∀ p c, w.forest.Under p c → S p = S c := by
      intro p c hu
      induction hu with
      | refl => rfl
      | tail _ hc ih => exact ih.trans (hS _ _ hc)
    rw [h'.tabs S (fun p c hc => hS₁ p c (h.shrink p c hc))
      (fun t ht => hts t (List.mem_append_right _ ht))]
    exact h.tabs S hS fun t ht => hts t (List.mem_append_left _ ht)

/-- Deleting a splitter without children later. -/
theorem Closing.deleteLater (h : Closing w w' ts) (hs : s < w'.nextSplitter)
    (hnil : w'.child s = []) : Closing w (w'.deleteLater s) ts where
  panes :=
    { h.panes.toWired.deleteLater with
      sized := h.panes.sized
      placed := h.panes.placed
      dead := by
        intro d hd
        rcases List.mem_cons.mp hd with rfl | hd
        · exact ⟨hs, hnil⟩
        · exact h.panes.dead d hd
      openedNodup := h.panes.openedNodup
      openedLt := h.panes.openedLt }
  closed := h.closed
  opened := h.opened
  nextSplitter := h.nextSplitter
  orientation := h.orientation
  frame := h.frame
  shrink := h.shrink
  tabs := h.tabs

/-- Subtrees without closed terminals are untouched. -/
theorem Closing.child_eq (h : Closing w w' ts) {x y : GuiBase}
    (hx : ∀ t ∈ ts, ¬ w.forest.Under x (.term t)) (hu : w.forest.Under x y) :
    w'.forest.children y = w.forest.children y := by
  cases y with
  | term u => rfl
  | split q => exact h.frame q fun t ht hq => hx t ht (hu.trans hq)

theorem Closing.under_iff (h : Closing w w' ts) {x y : GuiBase}
    (hx : ∀ t ∈ ts, ¬ w.forest.Under x (.term t)) :
    w'.forest.Under x y ↔ w.forest.Under x y :=
  Forest.under_congr fun _ hu => h.child_eq hx hu

theorem Closing.populateAllTerminals_eq (h : Closing w w' ts) {x : GuiBase}
    (hx : ∀ t ∈ ts, ¬ w.forest.Under x (.term t)) :
    w'.populateAllTerminals x = w.populateAllTerminals x := by
  rw [populateAllTerminals, populateAllTerminals, populate_eq, populate_eq, h.nextSplitter,
    Forest.subtree_congr fun _ hu => h.child_eq hx hu]

/-- A splitter all of whose terminals have been closed has no children left. -/
theorem Closing.child_eq_nil (h : Closing w w' ts)
    (hts : ∀ t, w.forest.Under (.split s) (.term t) → t ∈ ts) : w'.child s = [] := by
  by_contra hne
  obtain ⟨t, ht, hu⟩ := h.panes.exists_terminal (b := .split s) hne
  exact ((h.opened t).mp ht).2 (hts t (h.under hu))

end Closing

section Leaving

variable {w w' : GuiMainWindow} {s t : Nat}

/-- Only splitters above the terminal change. -/
theorem Leaving.frame (ht : .term t ∈ w.child s) (hl : Leaving w s t w') {q : Nat}
    (hq : ¬ w.forest.Under (.split q) (.term t)) : w'.child q = w.child q := by
  have hs : w.forest.Under (.split s) (.term t) := Forest.Under.head ht (.refl _)
  have hqs : q ≠ s := by
    rintro rfl
    exact hq hs
  cases hl with
  | stay hlen child tabs objects caches => rw [child, Function.update_of_ne hqs]
  | hoist b g hb hg child tabs objects caches =>
      have hqg : q ≠ g := by
        rintro rfl
        exact hq (hs.head hg)
      rw [child, Function.update_of_ne hqg, Function.update_of_ne hqs]
  | surface b i hb hi child tabs objects caches => rw [child, Function.update_of_ne hqs]

/-- Panes only move up. -/
theorem Leaving.shrink (h : w.Wired) (ht : .term t ∈ w.child s) (hl : Leaving w s t w')
    {p : Nat} {c : GuiBase} (hc : c ∈ w'.child p) : w.forest.Under (.split p) c := by
  cases hl with
  | stay hlen child tabs objects caches =>
      exact Forest.Under.head ((h.mem_stay ht child).mp hc).1 (.refl _)
  | hoist b g hb hg child tabs objects caches =>
      rcases (h.mem_hoist hg child).mp hc with ⟨rfl, rfl⟩ | ⟨-, hc, -⟩
      · have hmem : c ∈ w.child s :=
          ((mem_iff_of_erase_eq_singleton h.child_nodup ht hb).2 c).mpr (.inr rfl)
        exact Forest.Under.head hg (Forest.Under.head hmem (.refl _))
      · exact Forest.Under.head hc (.refl _)
  | surface b i hb hi child tabs objects caches =>
      exact Forest.Under.head ((mem_surface child).mp hc).2 (.refl _)

theorem Leaving.under (h : w.Wired) (ht : .term t ∈ w.child s) (hl : Leaving w s t w')
    {x y : GuiBase} (hu : w'.forest.Under x y) : w.forest.Under x y := by
  refine hu.of_links fun p c hc => ?_
  cases p with
  | term u => simp at hc
  | split q => exact hl.shrink h ht hc

/-- Other tabs stay. -/
theorem Leaving.tabs_filter (h : w.Wired) (ht : .term t ∈ w.child s) (hl : Leaving w s t w')
    {S : GuiBase → Bool} (hS : ∀ p c, c ∈ w.forest.children p → S p = S c)
    (hSt : S (.term t) = true) :
    w'.tabs.filter (fun b => !S b) = w.tabs.filter (fun b => !S b) := by
  cases hl with
  | stay hlen child tabs objects caches => rw [tabs]
  | hoist b g hb hg child tabs objects caches => rw [tabs]
  | surface b i hb hi child tabs objects caches =>
      have hmem : b ∈ w.child s :=
        ((mem_iff_of_erase_eq_singleton h.child_nodup ht hb).2 b).mpr (.inr rfl)
      have hs : S (.split s) = true := (hS (.split s) _ ht).trans hSt
      have hbS : S b = true := (hS (.split s) b hmem).symm.trans hs
      rw [tabs]
      exact filter_set hi (by simp [hs]) (by simp [hbS])

end Leaving

section CloseTerminal

variable {w : GuiMainWindow} {t : Nat}

/-- Closing one terminal. -/
theorem Panes.closing_terminal (h : w.Panes []) (t : Nat) :
    ∃ w', w.closeTerminal t = some w' ∧ Closing w w' [t] := by
  obtain ⟨w₁, hw₁, hwired, hl⟩ := h.leaveSplit t
  obtain ⟨hpanes, hp, ds, hobj⟩ := h.left hwired hl
  obtain ⟨-, htabs, hchild, hobj'⟩ := hwired.mainCloseTerminal t
  have hclosed : (w₁.mainCloseTerminal t).closed = w.closed :=
    (congrArg Objects.closed hobj').trans (congrArg Objects.closed hobj)
  have hopened : (w₁.mainCloseTerminal t).opened = w.opened :=
    (congrArg Objects.opened hobj').trans (congrArg Objects.opened hobj)
  refine ⟨_, by rw [GuiMainWindow.closeTerminal, hw₁]; rfl,
    { panes := hpanes.mainCloseTerminal hp
      closed := by rw [recordClosed, hclosed]
      opened := fun u => ?_
      nextSplitter :=
        (congrArg Objects.nextSplitter hobj').trans (congrArg Objects.nextSplitter hobj)
      orientation :=
        (congrArg Objects.orientation hobj').trans (congrArg Objects.orientation hobj)
      frame := fun q hq => ?_
      shrink := fun p c hc => ?_
      tabs := fun S hS hts => ?_ }⟩
  · rw [recordClosed, hopened, h.openedNodup.mem_erase_iff, List.mem_singleton, and_comm]
  · have hq' := hq t (by simp)
    rw [recordClosed, hchild]
    rcases hl with ⟨rfl, -⟩ | ⟨s, ht, hl⟩
    · rfl
    · exact hl.frame ht hq'
  · cases p with
    | term u => simp at hc
    | split q =>
        simp only [children_split, recordClosed, hchild] at hc
        rcases hl with ⟨rfl, -⟩ | ⟨s, ht, hl⟩
        · exact Forest.Under.head hc (.refl _)
        · exact hl.shrink h.toWired ht hc
  · have hSt := hts t (by simp)
    rw [recordClosed, htabs, filter_erase (by simp [hSt])]
    rcases hl with ⟨rfl, -⟩ | ⟨s, ht, hl⟩
    · rfl
    · exact hl.tabs_filter h.toWired ht hS hSt

end CloseTerminal

section Walk

variable {w : GuiMainWindow} {b : GuiBase} {n s : Nat}

@[simp] theorem populateAllTerminals_term (t : Nat) :
    w.populateAllTerminals (.term t) = [t] := by
  unfold populateAllTerminals
  cases w.nextSplitter <;> rfl

/-- `populateAllTerminals` of a splitter goes through its children. -/
theorem Wired.populateAllTerminals_split (h : w.Wired) :
    w.populateAllTerminals (.split s) = (w.child s).flatMap w.populateAllTerminals := by
  unfold populateAllTerminals
  rw [populate_eq, Forest.subtree, List.filterMap_cons_none rfl, children_split,
    List.filterMap_flatMap]
  refine List.flatMap_congr fun c hc => ?_
  have hlt := h.ranked (.split s) c hc
  have hs := h.lt_of_mem hc
  rw [populate_eq, h.ranked.subtree_eq h.rank_le (n := w.nextSplitter)
    (m := w.nextSplitter + 1) (by omega) (by omega) (by omega) (by omega)]

/-- Closing panes with disjoint subtrees one after the other. -/
theorem Panes.closing_list
    (ih : ∀ (w : GuiMainWindow) (b : GuiBase), w.Panes [] → w.Live b →
      w.nextSplitter < w.rank b + n →
      ∃ w', reqClose n b w = some w' ∧ Closing w w' (w.populateAllTerminals b))
    (cs : List GuiBase) (h : w.Panes []) (hlive : ∀ c ∈ cs, w.Live c)
    (hfuel : ∀ c ∈ cs, w.nextSplitter < w.rank c + n)
    (hdisj : cs.Pairwise (fun c d => ∀ x, w.forest.Under c x → ¬ w.forest.Under d x)) :
    ∃ w', cs.foldlM (fun w b => reqClose n b w) w = some w' ∧
      Closing w w' (cs.flatMap w.populateAllTerminals) := by
  induction cs generalizing w with
  | nil => exact ⟨w, rfl, Closing.refl h⟩
  | cons c cs ihcs =>
      obtain ⟨hc, hcs⟩ := List.pairwise_cons.mp hdisj
      obtain ⟨w₁, hw₁, hclosing⟩ := ih w c h (hlive c (by simp)) (hfuel c (by simp))
      -- the siblings are still as they were
      have hfree : ∀ d ∈ cs, ∀ t ∈ w.populateAllTerminals c, ¬ w.forest.Under d (.term t) :=
        fun d hd t ht => hc d hd _ (h.mem_populateAllTerminals.mp ht)
      have hsame : ∀ d ∈ cs, w₁.populateAllTerminals d = w.populateAllTerminals d :=
        fun d hd => hclosing.populateAllTerminals_eq (hfree d hd)
      have hlive₁ : ∀ d ∈ cs, w₁.Live d := by
        intro d hd
        have hd' := hlive d (by simp [hd])
        cases d with
        | term u =>
            refine (hclosing.opened u).mpr ⟨hd', fun hu => ?_⟩
            exact hfree _ hd u hu (.refl _)
        | split q =>
            have heq := hclosing.child_eq (hfree _ hd) (.refl _)
            simpa [Live] using (show w₁.child q = w.child q from heq) ▸ hd'
      have hfuel₁ : ∀ d ∈ cs, w₁.nextSplitter < w₁.rank d + n := by
        intro d hd
        have hd' := hfuel d (by simp [hd])
        cases d with
        | term u => simpa [rank, hclosing.nextSplitter] using hd'
        | split q => simpa [rank, hclosing.nextSplitter] using hd'
      have hdisj₁ : cs.Pairwise
          (fun c d => ∀ x, w₁.forest.Under c x → ¬ w₁.forest.Under d x) := by
        refine hcs.imp_of_mem ?_
        intro d e hd he hde x hx hx'
        exact hde x (hclosing.under hx) (hclosing.under hx')
      obtain ⟨w', hw', hclosing'⟩ := ihcs hclosing.panes hlive₁ hfuel₁ hdisj₁
      refine ⟨w', by rw [List.foldlM_cons, hw₁]; exact hw', ?_⟩
      have hrest := List.flatMap_congr hsame
      rw [hrest] at hclosing'
      exact hclosing.trans hclosing'

/-- **Closing all terminals of a pane.** -/
theorem Panes.closing (h : w.Panes []) (hb : w.Live b) (hn : w.nextSplitter < w.rank b + n) :
    ∃ w', reqClose n b w = some w' ∧ Closing w w' (w.populateAllTerminals b) := by
  induction n generalizing w b with
  | zero =>
      cases b with
      | term t => simpa [reqClose] using h.closing_terminal t
      | split s =>
          obtain ⟨c, hc⟩ := List.exists_mem_of_ne_nil _ hb
          have hlt := h.lt_of_mem hc
          simp only [rank] at hn
          omega
  | succ n ih =>
      cases b with
      | term t => simpa [reqClose] using h.closing_terminal t
      | split s =>
          have hchild : ∀ c ∈ w.child s, w.forest.Under (.split s) c :=
            fun c hc => Forest.Under.head hc (.refl _)
          obtain ⟨w₁, hw₁, hclosing⟩ := Panes.closing_list
            (fun w b h hb hn => ih h hb hn) (w.child s) h
            (fun c hc => h.live_of_under hb (hchild c hc))
            (fun c hc => by
              have hlt := h.ranked (.split s) c hc
              simp only [rank] at hn hlt ⊢
              omega)
            (h.child_nodup.imp_of_mem fun hc hd hne x hx =>
              h.linked.not_under_of_siblings h.ranked (p := .split s) hc hd hne hx)
          rw [← h.populateAllTerminals_split] at hclosing
          have hnil : w₁.child s = [] :=
            hclosing.child_eq_nil fun t hu => h.mem_populateAllTerminals.mpr hu
          obtain ⟨c, hc⟩ := List.exists_mem_of_ne_nil _ hb
          have hs : s < w₁.nextSplitter := hclosing.nextSplitter ▸ h.lt_of_mem hc
          refine ⟨w₁.deleteLater s, ?_, hclosing.deleteLater hs hnil⟩
          rw [reqClose]
          simp only [Option.bind_eq_bind, hw₁, Option.bind_some, if_pos hnil]

/-- Closing the root splitter of a tab. -/
theorem Panes.closing_tab (h : w.Panes []) (hs : .split s ∈ w.tabs) :
    ∃ w', w.reqCloseTerminal s = some w' ∧
      Closing w w' (w.populateAllTerminals (.split s)) ∧
      w'.tabs = w.tabs.erase (.split s) := by
  obtain ⟨w', hw', hclosing⟩ := h.closing (n := w.nextSplitter + 1) (h.live_of_mem_tabs hs)
    (by omega)
  refine ⟨w', hw', hclosing, ?_⟩
  classical
  -- `S` is the tree of the tab
  let S : GuiBase → Bool := fun b => decide (w.forest.Under (.split s) b)
  have hroot : w.forest.parent (.split s) = none := by simp [forest, h.roots _ hs]
  have hS : ∀ p c, c ∈ w.forest.children p → S p = S c := by
    intro p c hc
    refine decide_eq_decide.mpr ⟨fun hu => hu.tail hc, fun hu => ?_⟩
    rcases h.linked.under_total hu (Forest.Under.head hc (.refl c)) with hu' | hu'
    · exact hu'
    · rw [h.linked.eq_of_under_root hroot hu']
      exact .refl _
  have hfilter := hclosing.tabs S hS fun t ht =>
    decide_eq_true (h.mem_populateAllTerminals.mp ht)
  -- none of the tree is left in the tabs, and of the other tabs none was in the tree
  have hnew : ∀ r ∈ w'.tabs, (!S r) = true := by
    intro r hr
    obtain ⟨t, ht, hu⟩ := hclosing.panes.exists_terminal (hclosing.panes.live_of_mem_tabs hr)
    have hout := ((hclosing.opened t).mp ht).2
    rw [h.mem_populateAllTerminals] at hout
    simpa [S] using fun hr' => hout (Forest.Under.trans hr' (hclosing.under hu))
  have hold : ∀ r ∈ w.tabs, (!S r) = decide (r ≠ .split s) := by
    intro r hr
    have hiff : w.forest.Under (.split s) r ↔ r = .split s :=
      ⟨fun hu => (h.linked.eq_of_under_root (by simp [forest, h.roots r hr]) hu).symm,
        fun heq => heq ▸ .refl _⟩
    simp [S, hiff]
  rw [List.filter_eq_self.mpr hnew, List.filter_congr hold] at hfilter
  rw [hfilter, h.tabsNodup.erase_eq_filter]
  refine List.filter_congr fun r _ => ?_
  by_cases hr : r = .split s <;> simp [hr]

/-- **Closing a whole tab** closes each terminal of its tree exactly once, and the
tab is gone; the other tabs with their trees and terminals stay as they are.  The
call succeeds: each assertion that a splitter has no children left holds. -/
theorem reqCloseTerminal_exact {ops : List PaneOp} (hw : init.run ops = some w)
    (hs : .split s ∈ w.tabs) :
    ∃ w' ts, w.reqCloseTerminal s = some w' ∧
      ts.Nodup ∧ (∀ t, t ∈ ts ↔ w.forest.Under (.split s) (.term t)) ∧
      w'.closed = w.closed ++ ts ∧
      (∀ t, t ∈ w'.opened ↔ t ∈ w.opened ∧ t ∉ ts) ∧
      w'.tabs = w.tabs.erase (.split s) ∧
      ∀ r ∈ w'.tabs, (∀ b, w'.forest.Under r b ↔ w.forest.Under r b) ∧
        (∀ q, w.forest.Under r (.split q) →
          w'.child q = w.child q ∧ w'.orientation q = w.orientation q) ∧
        w'.populateAllTerminals r = w.populateAllTerminals r := by
  obtain ⟨w₀, hw₀, h⟩ := panes_init.run ops
  obtain rfl : w₀ = w := Option.some.inj (hw₀.symm.trans hw)
  obtain ⟨w', hw', hclosing, htabs⟩ := h.closing_tab hs
  refine ⟨w', w₀.populateAllTerminals (.split s), hw', h.nodup_populateAllTerminals _,
    fun t => h.mem_populateAllTerminals, hclosing.closed, hclosing.opened, htabs, ?_⟩
  intro r hr
  rw [htabs] at hr
  obtain ⟨hne, hr⟩ := h.tabsNodup.mem_erase_iff.mp hr
  have hfree : ∀ t ∈ w₀.populateAllTerminals (.split s), ¬ w₀.forest.Under r (.term t) :=
    fun t ht hu => hne (h.tab_unique hr hs hu (h.mem_populateAllTerminals.mp ht))
  exact ⟨fun b => hclosing.under_iff hfree,
    fun q hq => ⟨hclosing.child_eq hfree hq, congrFun hclosing.orientation q⟩,
    hclosing.populateAllTerminals_eq hfree⟩

/-- Two tabs; the tree of the first one has a splitter inside a splitter. -/
theorem reqCloseTerminal_exact_nested :
    ∃ w w', init.run [.openTab, .split 0 .right, .split 1 .down, .openTab] = some w ∧
      .split 0 ∈ w.tabs ∧ w.reqCloseTerminal 0 = some w' ∧
      w'.tabs = w.tabs.erase (.split 0) := by
  have hw : init.run [.openTab, .split 0 .right, .split 1 .down, .openTab] =
      some ((init.run [.openTab, .split 0 .right, .split 1 .down, .openTab]).get (by decide)) :=
    (Option.some_get _).symm
  have hs : .split 0 ∈
      ((init.run [.openTab, .split 0 .right, .split 1 .down, .openTab]).get (by decide)).tabs := by
    decide
  obtain ⟨w', _, hw', -, -, -, -, htabs, -⟩ := reqCloseTerminal_exact hw hs
  exact ⟨_, w', hw, hs, hw', htabs⟩

end Walk

end GuiMainWindow

end Pane
end Qutty
