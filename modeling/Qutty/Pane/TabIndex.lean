import Qutty.Pane.CloseAll

/-!
# The tab index cache

`on_tabLayoutChanged` is called when a page comes or goes, and at the end of
`setupLayout` and `closeTerminal`.  A drop on a terminal calls it only through
the tab bar, and that is not enough: the last change of the layout may come after
the last call.  `KeepsCache` says when a drop does leave the right indices, and
`run_cacheExact_iff` that they are right all along a run if and only if every step
does.
-/

namespace Qutty
namespace Pane

open Lib

namespace GuiMainWindow

/-- The caches tell the tabs of the terminals, and the roots of the tabs. -/
structure CacheExact (w : GuiMainWindow) : Prop where
  shown : ∀ (i : Nat) r, w.tabs[i]? = some r → ∀ t, w.forest.Under r (.term t) →
    w.getTerminalTabInd (.term t) = i
  absent : ∀ b, (∀ r ∈ w.tabs, ¬ w.forest.Under r b) → w.getTerminalTabInd b = -1
  widgetAtIndex : w.widgetAtIndex = w.tabs.map pagePair

/-- The same, with no index for splitters inside a tab either. -/
structure Indexed (w : GuiMainWindow) : Prop extends w.CacheExact where
  nested : ∀ s, .split s ∉ w.tabs → w.getTerminalTabInd (.split s) = -1

/-- The drops on a terminal after which the caches are right. -/
def DropKeepsCache (w : GuiMainWindow) (dropped dst : Nat) (type : SplitType) : Prop :=
  -- the destination is a tab
  .term dst ∈ w.tabs ∨
  -- it becomes one, being the only neighbour of the dropped terminal in a tab
  (∃ s, .split s ∈ w.tabs ∧ .term dropped ∈ w.child s ∧
    (w.child s).erase (.term dropped) = [.term dst]) ∨
  -- the dropped terminal is a tab, and comes last
  (.term dropped ∈ w.tabs ∧ ∃ p, .term dst ∈ w.child p ∧
    (orientOf type = w.orientation p ∨ type.oldFirst = true)) ∨
  -- it stays in its tab, and the root of the tab does not change
  (∃ s, .term dropped ∈ w.child s ∧ ¬ (.split s ∈ w.tabs ∧ (w.child s).length = 2) ∧
    ∃ r ∈ w.tabs, w.forest.Under r (.term dropped) ∧ w.forest.Under r (.term dst))

/-- The operations after which the caches are right. -/
def KeepsCache (w : GuiMainWindow) (op : PaneOp) : Prop :=
  match op with
  | .dropOnTerminal dropped dst type =>
      w.moved op = some dropped → w.DropKeepsCache dropped dst type
  | _ => True

section Indices

variable {w w₁ w' : GuiMainWindow} {t n s : Nat} {split : SplitType} {op : PaneOp}

/-- The tab of an open terminal. -/
theorem Panes.exists_index (h : w.Panes []) (ht : t ∈ w.opened) :
    ∃ (i : Nat) (r : GuiBase), w.tabs[i]? = some r ∧ w.forest.Under r (.term t) := by
  obtain ⟨r, hr, hu⟩ := h.exists_tab (b := .term t) ht
  obtain ⟨i, hi⟩ := List.getElem?_of_mem hr
  exact ⟨i, r, hi, hu⟩

/-- Caches that have just been rebuilt are right. -/
theorem Wired.indexed (h : w.Wired) (hc : w.Cached) : w.Indexed where
  shown i r hr t hu := by
    rw [← getTerminalTabInd_congr hc.symm]
    refine getTerminalTabInd_eq (mem_tabIndexMap.mpr ⟨r, hr, ?_⟩) ?_
    · cases r with
      | term u =>
          rw [Forest.under_leaf rfl] at hu
          exact .inl hu.symm
      | split s => exact .inr ⟨s, t, rfl, rfl, h.mem_populateAllTerminals.mpr hu⟩
    · intro j hj
      obtain ⟨r', hr', hb⟩ := mem_tabIndexMap.mp hj
      have hu' : w.forest.Under r' (.term t) := by
        rcases hb with rfl | ⟨s, u, rfl, heq, hu'⟩
        · exact .refl _
        · cases heq
          exact h.mem_populateAllTerminals.mp hu'
      have heq := h.tab_unique (List.mem_of_getElem? hr) (List.mem_of_getElem? hr') hu hu'
      subst heq
      exact (List.getElem?_inj (List.getElem?_eq_some_iff.mp hr').1 h.tabsNodup).mp
        (hr'.trans hr.symm)
  absent b hb := by
    rw [← getTerminalTabInd_congr hc.symm]
    refine getTerminalTabInd_of_not_mem fun j hj => ?_
    obtain ⟨r, hr, hbr⟩ := mem_tabIndexMap.mp hj
    refine hb r (List.mem_of_getElem? hr) ?_
    rcases hbr with rfl | ⟨s, u, rfl, rfl, hu⟩
    · exact .refl _
    · exact h.mem_populateAllTerminals.mp hu
  widgetAtIndex := congrArg Prod.snd hc
  nested s hs := by
    rw [← getTerminalTabInd_congr hc.symm]
    refine getTerminalTabInd_of_not_mem fun j hj => ?_
    obtain ⟨r, hr, hbr⟩ := mem_tabIndexMap.mp hj
    rcases hbr with rfl | ⟨q, u, -, heq, -⟩
    · exact hs (List.mem_of_getElem? hr)
    · cases heq

/-- A new link starts in the splitter of `t` or in the new splitter. -/
theorem Joining.links (h : w.Wired) (hj : Joining w t split n w') (ht : .term t ∉ w.tabs) :
    ∃ p, .term t ∈ w.child p ∧ ∀ q x, x ∈ w'.child q →
      x ∈ w.child q ∨ q = p ∧ (x = .term n ∨ x = .split w.nextSplitter) ∨
        q = w.nextSplitter ∧ (x = .term t ∨ x = .term n) := by
  cases hj with
  | top i hi child tabs objects caches => exact absurd (List.mem_of_getElem? hi) ht
  | nest p hp ho child tabs objects caches cached stale =>
      refine ⟨p, hp, fun q x hx => ?_⟩
      rcases (h.mem_nest hp child).mp hx with ⟨hx, -⟩ | ⟨hq, hx⟩ | hx
      · exact .inl hx
      · exact .inr (.inl ⟨hq, .inr hx⟩)
      · exact .inr (.inr hx)
  | beside p hp ho child tabs objects caches cached =>
      refine ⟨p, hp, fun q x hx => ?_⟩
      rcases (mem_beside child).mp hx with hx | ⟨hq, hx⟩
      · exact .inl hx
      · exact .inr (.inl ⟨hq, .inl hx⟩)

/-- A terminal put beside `t` comes into the tab of `t`; all others stay where they
are. -/
theorem Joining.under (h : w.Wired) (hj : Joining w t split n w') (ht : .term t ∉ w.tabs)
    (hn : ∀ q, .term n ∉ w.child q) {r x : GuiBase} (hrn : r ≠ .term n)
    (hrs : r ∈ w.tabs) (hu : w'.forest.Under r x) :
    (x = .term n ∨ x = .split w.nextSplitter → w.forest.Under r (.term t)) ∧
      (x ≠ .term n → x ≠ .split w.nextSplitter → w.forest.Under r x) := by
  have hfresh := h.fresh w.nextSplitter le_rfl
  obtain ⟨p, hp, hlink⟩ := hj.links h ht
  induction hu with
  | refl =>
      have hne : r ≠ .split w.nextSplitter := by
        rintro rfl
        exact hfresh.2.2 hrs
      exact ⟨by simp [hrn, hne], fun _ _ => .refl r⟩
  | @tail y x _ hc ih =>
      cases y with
      | term u => simp at hc
      | split q =>
          have hold : ∀ c, c ∈ w.child q → w.forest.Under r (.split q) := by
            intro c hc'
            refine ih.2 (by simp) ?_
            rintro heq
            cases heq
            simp [hfresh.1] at hc'
          rcases hlink q x hc with hx | ⟨rfl, hx⟩ | ⟨rfl, hx⟩
          · have hxn : x ≠ .term n := by
              rintro rfl
              exact hn q hx
            have hxs : x ≠ .split w.nextSplitter := by
              rintro rfl
              exact h.not_mem_child hfresh.2.1 hx
            exact ⟨by simp [hxn, hxs], fun _ _ => (hold x hx).tail hx⟩
          · refine ⟨fun _ => (hold _ hp).tail hp, fun hxn hxs => ?_⟩
            rcases hx with rfl | rfl
            · exact absurd rfl hxn
            · exact absurd rfl hxs
          · have hut := ih.1 (.inr rfl)
            refine ⟨fun _ => hut, fun hxn _ => ?_⟩
            rcases hx with rfl | rfl
            · exact hut
            · exact absurd rfl hxn

/-- Without a rebuild the caches stay right if no terminal changes its tab. -/
theorem Panes.indexed_of_stay (h : w.Panes []) (h' : w'.Panes []) (hi : w.Indexed)
    (hc : w'.caches = w.caches) (ht : w'.tabs = w.tabs) (ho : w'.opened = w.opened)
    (hstay : ∀ r ∈ w.tabs, ∀ t, w'.forest.Under r (.term t) → w.forest.Under r (.term t)) :
    w'.Indexed := by
  have hnested : ∀ s, .split s ∉ w'.tabs → w'.getTerminalTabInd (.split s) = -1 := by
    intro s hs
    rw [getTerminalTabInd_congr hc]
    exact hi.nested s (ht ▸ hs)
  refine ⟨⟨fun i r hr t hu => ?_, fun b hb => ?_, ?_⟩, hnested⟩
  · rw [ht] at hr
    rw [getTerminalTabInd_congr hc]
    exact hi.shown i r hr t (hstay r (List.mem_of_getElem? hr) t hu)
  · cases b with
    | term t =>
        rw [getTerminalTabInd_congr hc]
        refine hi.absent _ fun r hr hu => ?_
        -- the terminal is open, so that it is still in a tab
        have hopen : t ∈ w.opened := h.live_of_under (h.live_of_mem_tabs hr) hu
        obtain ⟨r', hr', hu'⟩ := h'.exists_tab (b := .term t) (by rwa [← ho] at hopen)
        exact hb r' hr' hu'
    | split s => exact hnested s fun hs => hb _ hs (.refl _)
  · have hw : w'.widgetAtIndex = w.widgetAtIndex := congrArg Prod.snd hc
    rw [hw, ht, hi.widgetAtIndex]

/-- A terminal that leaves a splitter is no tab. -/
theorem Leaving.not_mem_tabs (h : w.Wired) (ht : .term t ∈ w.child s)
    (hl : Leaving w s t w') : .term t ∉ w'.tabs := by
  have hno := h.not_mem_tabs ht
  cases hl with
  | stay hlen child tabs objects caches => rwa [tabs]
  | hoist b g hs hg child tabs objects caches => rwa [tabs]
  | surface b i hs hi child tabs objects caches =>
      rw [tabs, mem_set_iff h.tabsNodup hi]
      rintro (heq | ⟨hm, -⟩)
      · exact (mem_iff_of_erase_eq_singleton h.child_nodup ht hs).1 heq.symm
      · exact hno hm

/-- The destination of a drop is a tab when the dropped terminal has left. -/
theorem Left.mem_tabs_iff {dst : Nat} (h : w.Wired) (hl : Left w n w₁) :
    .term dst ∈ w₁.tabs ↔ .term dst ∈ w.tabs ∨ ∃ s, .split s ∈ w.tabs ∧
      .term n ∈ w.child s ∧ (w.child s).erase (.term n) = [.term dst] := by
  rcases hl with ⟨rfl, hp⟩ | ⟨s, ht, hl⟩
  · have hno : ∀ s, .term n ∉ w₁.child s := fun s => h.not_mem_child hp
    simp [hno]
  · have huniq : ∀ q, .term n ∈ w.child q → q = s := fun q hq => h.parent_unique hq ht
    cases hl with
    | stay hlen child tabs objects caches =>
        rw [tabs]
        refine (or_iff_left ?_).symm
        rintro ⟨q, -, hq, heq⟩
        rw [huniq q hq] at heq
        simp [heq] at hlen
    | hoist b g hs hg child tabs objects caches =>
        rw [tabs]
        refine (or_iff_left ?_).symm
        rintro ⟨q, hqt, hq, -⟩
        rw [huniq q hq] at hqt
        exact h.not_mem_tabs hg hqt
    | surface b i hs hi child tabs objects caches =>
        rw [tabs, mem_set_iff h.tabsNodup hi]
        constructor
        · rintro (rfl | ⟨hm, -⟩)
          · exact .inr ⟨s, List.mem_of_getElem? hi, ht, hs⟩
          · exact .inl hm
        · rintro (hm | ⟨q, -, hq, heq⟩)
          · exact .inr ⟨hm, by simp⟩
          · rw [huniq q hq, hs] at heq
            exact .inl (List.cons.inj heq).1.symm

/-- A terminal leaves without a rebuild, or the root of its tab changes. -/
theorem Leaving.caches_cases (h : w.Wired) (ht : .term t ∈ w.child s) (hl : Leaving w s t w') :
    (w'.tabs = w.tabs ∧ w'.caches = w.caches ∧
      ¬ (.split s ∈ w.tabs ∧ (w.child s).length = 2)) ∨
    (w'.Cached ∧ .split s ∈ w.tabs ∧ (w.child s).length = 2) := by
  have hlen' := List.length_erase_of_mem ht
  cases hl with
  | stay hlen child tabs objects caches =>
      exact .inl ⟨tabs, caches, fun ⟨_, h2⟩ => by omega⟩
  | hoist b g hs hg child tabs objects caches =>
      exact .inl ⟨tabs, caches, fun ⟨hm, _⟩ => h.not_mem_tabs hg hm⟩
  | surface b i hs hi child tabs objects caches =>
      rw [hs, List.length_singleton] at hlen'
      exact .inr ⟨caches, List.mem_of_getElem? hi, by omega⟩

end Indices

section Drop

variable {w w₁ w₂ : GuiMainWindow} {n dst : Nat} {type : SplitType}

/-- A drop on a tab ends with a rebuild. -/
theorem Joining.cached_of_mem_tabs (h : w₁.Wired) (hj : Joining w₁ dst type n w₂)
    (hd : .term dst ∈ w₁.tabs) : w₂.Cached := by
  cases hj with
  | top i hi child tabs objects caches => exact caches
  | nest p hp ho child tabs objects caches cached stale =>
      exact absurd hd (h.not_mem_tabs hp)
  | beside p hp ho child tabs objects caches cached => exact absurd hd (h.not_mem_tabs hp)

/-- A tab is dropped on a terminal in a splitter. -/
theorem Joining.cached_or_stale (hj : Joining w₁ dst type n w₂) (hd : .term dst ∉ w₁.tabs)
    (hn : .term n ∈ w₁.tabs) :
    ∃ p, .term dst ∈ w₁.child p ∧
      ((orientOf type = w₁.orientation p ∨ type.oldFirst = true) ∧ w₂.Cached ∨
        ¬ (orientOf type = w₁.orientation p ∨ type.oldFirst = true) ∧
          w₂.getTerminalTabInd (.term dst) = -1) := by
  cases hj with
  | top i hi child tabs objects caches => exact absurd (List.mem_of_getElem? hi) hd
  | nest p hp ho child tabs objects caches cached stale =>
      refine ⟨p, hp, ?_⟩
      cases hold : type.oldFirst with
      | true => exact .inl ⟨.inr rfl, cached hn hold⟩
      | false => exact .inr ⟨by simp [ho], stale hn hold⟩
  | beside p hp ho child tabs objects caches cached => exact ⟨p, hp, .inl ⟨.inl ho, cached hn⟩⟩

/-- A terminal from a splitter is dropped on a terminal in a splitter. -/
theorem Joining.no_rebuild (hj : Joining w₁ dst type n w₂) (hd : .term dst ∉ w₁.tabs)
    (hn : .term n ∉ w₁.tabs) : w₂.tabs = w₁.tabs ∧ w₂.caches = w₁.caches := by
  cases hj with
  | top i hi child tabs objects caches => exact absurd (List.mem_of_getElem? hi) hd
  | nest p hp ho child tabs objects caches cached stale =>
      exact ⟨by rw [tabs, List.erase_of_not_mem hn], caches hn⟩
  | beside p hp ho child tabs objects caches cached =>
      exact ⟨by rw [tabs, List.erase_of_not_mem hn], caches hn⟩

/-- **After such a drop the caches are right.** -/
theorem Panes.indexed_drop (h : w.Panes []) (h₁ : w₁.Panes [n]) (h₂ : w₂.Panes [])
    (hl : Left w n w₁) (hj : Joining w₁ dst type n w₂) (hi : w.Indexed)
    (hk : w.DropKeepsCache n dst type) : w₂.Indexed := by
  by_cases hd : .term dst ∈ w₁.tabs
  · exact h₂.indexed (hj.cached_of_mem_tabs h₁.toWired hd)
  -- what is left of the condition
  replace hk := (or_assoc.mpr hk).resolve_left fun hk => hd ((hl.mem_tabs_iff h.toWired).mpr hk)
  rcases hl with ⟨rfl, hp⟩ | ⟨s, ht, hl⟩
  · rcases hk with ⟨hn, p, hp', hor⟩ | ⟨s, hs, -⟩
    · obtain ⟨q, hq, hcases⟩ := hj.cached_or_stale hd hn
      obtain rfl := h.parent_unique hq hp'
      rcases hcases with ⟨-, hc⟩ | ⟨hno, -⟩
      · exact h₂.indexed hc
      · exact absurd hor hno
    · exact absurd hs (h.not_mem_child hp)
  · rcases hk with ⟨hn, -⟩ | ⟨s', hs', hroot, r, hr, hrn, hrd⟩
    · exact absurd hn (h.not_mem_tabs ht)
    · obtain rfl := h.parent_unique ht hs'
      have hn₁ := hl.not_mem_tabs h.toWired ht
      obtain ⟨htabs₂, hcaches₂⟩ := hj.no_rebuild hd hn₁
      rcases hl.caches_cases h.toWired ht with ⟨htabs, hcaches, -⟩ | ⟨-, hbad⟩
      · obtain ⟨ds, hobj, -⟩ := hl.objects_eq h.toWired
        obtain ⟨ns, o, -, hobj₂⟩ := hj.objects_eq
        have ho : w₂.opened = w.opened :=
          (congrArg Objects.opened hobj₂).trans (congrArg Objects.opened hobj)
        refine h.indexed_of_stay h₂ hi (hcaches₂.trans hcaches) (htabs₂.trans htabs) ho ?_
        intro r' hr' u hu
        have hne : r' ≠ .term n := by
          rintro rfl
          exact h.not_mem_tabs ht hr'
        obtain ⟨hnew, hold⟩ := hj.under h₁.toWired hd (hl.not_mem_child h.toWired ht) hne
          (htabs ▸ hr') hu
        by_cases hun : u = n
        · subst hun
          have heq := h.tab_unique hr' hr (hl.under h.toWired ht (hnew (.inl rfl))) hrd
          exact heq ▸ hrn
        · exact hl.under h.toWired ht (hold (by simpa using hun) (by simp))
      · exact absurd hbad hroot

/-- **After any other drop they are not.** -/
theorem Panes.dropKeepsCache (h : w.Panes []) (h₁ : w₁.Panes [n]) (h₂ : w₂.Panes [])
    (hl : Left w n w₁) (hj : Joining w₁ dst type n w₂) (hn : n ∈ w.opened)
    (hdst : dst ∈ w.opened) (he : w.CacheExact) (he₂ : w₂.CacheExact) :
    w.DropKeepsCache n dst type := by
  by_cases hd : .term dst ∈ w₁.tabs
  · exact or_assoc.mp (.inl ((hl.mem_tabs_iff h.toWired).mp hd))
  obtain ⟨ns, o, -, hobj₂⟩ := hj.objects_eq
  have ho₂ : w₂.opened = w₁.opened := congrArg Objects.opened hobj₂
  rcases hl with ⟨rfl, hp⟩ | ⟨s, ht, hl⟩
  · have hnt : .term n ∈ w₁.tabs := h.mem_tabs ((h.placed (.term n) (by simp)).mpr hn) hp
    obtain ⟨p, hp', ⟨hor, -⟩ | ⟨-, hstale⟩⟩ := hj.cached_or_stale hd hnt
    · exact .inr (.inr (.inl ⟨hnt, p, hp', hor⟩))
    · -- the destination has lost its index
      obtain ⟨i, r, hr, hu⟩ := h₂.exists_index (ho₂ ▸ hdst)
      have hind := he₂.shown i r hr dst hu
      omega
  · obtain ⟨ds, hobj, -⟩ := hl.objects_eq h.toWired
    have ho : w₁.opened = w.opened := congrArg Objects.opened hobj
    have hn₁ := hl.not_mem_tabs h.toWired ht
    have hfree := hl.not_mem_child h.toWired ht
    obtain ⟨htabs₂, hcaches₂⟩ := hj.no_rebuild hd hn₁
    obtain ⟨j, r, hr, hu⟩ := h₂.exists_index (t := n) (by rwa [ho₂, ho])
    have hind₂ := he₂.shown j r hr n hu
    rw [getTerminalTabInd_congr hcaches₂] at hind₂
    rcases hl.caches_cases h.toWired ht with ⟨htabs, hcaches, hroot⟩ | ⟨hc, -⟩
    · -- the index of the dropped terminal is still that of its old tab
      obtain ⟨i, r', hr', hu'⟩ := h.exists_index hn
      have hind := he.shown i r' hr' n hu'
      rw [getTerminalTabInd_congr hcaches, hind] at hind₂
      obtain rfl : i = j := by omega
      rw [htabs₂, htabs, hr'] at hr
      obtain rfl := Option.some.inj hr
      have hmem := List.mem_of_getElem? hr'
      have hne : r' ≠ .term n := by
        rintro rfl
        exact h.not_mem_tabs ht hmem
      have hdu := (hj.under h₁.toWired hd hfree hne (htabs ▸ hmem) hu).1 (.inl rfl)
      exact .inr (.inr (.inr ⟨s, ht, hroot, r', hmem, hu', hl.under h.toWired ht hdu⟩))
    · -- it has been lost
      rw [hc.getTerminalTabInd_of_free hn₁ hfree] at hind₂
      omega

end Drop

section Runs

variable {w w' : GuiMainWindow} {op : PaneOp}

/-- Every other operation ends with a rebuild. -/
theorem Performed.indexed (h : w.Panes []) (hp : Performed w op w') (h' : w'.Panes [])
    (hi : w.Indexed) (hk : w.KeepsCache op) : w'.Indexed := by
  cases hp with
  | skip hm => exact hi
  | openTab hm => exact h'.indexed rfl
  | split hm l hj => exact h'.indexed rfl
  | close hop hm hwired hl => exact h'.indexed rfl
  | dropOnTerminal hop hm hw₁ hl hj =>
      subst hop
      exact h.indexed_drop hw₁ h' hl hj hi (hk hm)
  | dropOnTabBar hop hm i hl => exact h'.indexed rfl

theorem keepsCache_of_moved_eq_none (hm : w.moved op = none) : w.KeepsCache op := by
  cases op with
  | dropOnTerminal dropped dst type =>
      intro hm'
      rw [hm] at hm'
      cases hm'
  | _ => trivial

/-- If the caches are right before and after, the operation is one that keeps them. -/
theorem Performed.keepsCache (h : w.Panes []) (hp : Performed w op w') (h' : w'.Panes [])
    (he : w.CacheExact) (he' : w'.CacheExact) : w.KeepsCache op := by
  cases hp with
  | skip hm => exact keepsCache_of_moved_eq_none hm
  | openTab hm => exact keepsCache_of_moved_eq_none hm
  | split hm l hj => exact keepsCache_of_moved_eq_none hm
  | close hop hm hwired hl =>
      subst hop
      trivial
  | @dropOnTerminal dropped dst type hop hm w₁ _ hw₁ hl hj =>
      subst hop
      have hopen : dropped ∈ w.opened ∧ dst ∈ w.opened ∧ dropped ≠ dst := by
        by_contra hno
        simp [moved, hno] at hm
      exact fun _ => h.dropKeepsCache hw₁ h' hl hj hopen.1 hopen.2.1 he he'
  | dropOnTabBar hop hm i hl =>
      subst hop
      trivial

/-- **The caches are right all along a run if and only if every drop on a terminal
is one that keeps them right.** -/
theorem run_cacheExact_iff (ops : List PaneOp) :
    (∀ pre, pre <+: ops → ∀ w, init.run pre = some w → w.CacheExact) ↔
      ∀ pre op, pre ++ [op] <+: ops → ∀ w, init.run pre = some w → w.KeepsCache op := by
  refine run_forall_iff (I := Indexed) ?_ ?_ ?_ ?_ ops
  · exact panes_init.indexed rfl
  · intro w _ hi
    exact hi.toCacheExact
  · intro w op w' h _ hp h' hi hk
    obtain ⟨⟨hshown, habsent, hwidgets⟩, hnested⟩ := hp.indexed h h' hi hk
    exact ⟨⟨hshown, habsent, hwidgets⟩, hnested⟩
  · intro w op w' h _ hp h' he he'
    exact hp.keepsCache h h' he ⟨he'.shown, he'.absent, he'.widgetAtIndex⟩

/-- Two tabs, with three panes and with two; a pane of the first tab is dropped on a
pane of the second one, and is still counted to the first one. -/
theorem not_cacheExact_dropped :
    ∃ w, init.run [.openTab, .split 0 .right, .split 0 .right, .openTab, .split 3 .right,
      .dropOnTerminal 0 3 .right] = some w ∧ ¬ w.CacheExact := by
  refine ⟨_, (Option.some_get (by decide)).symm, fun he => ?_⟩
  have hind := he.shown 1 (.split 1) (by decide) 0 (Forest.Under.head (by decide) (.refl _))
  revert hind
  decide

end Runs

end GuiMainWindow

end Pane
end Qutty
