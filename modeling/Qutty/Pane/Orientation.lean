import Qutty.Pane.Operations

/-!
# Orientations of nested splitters

`createSplitLayout` puts a new splitter only into a splitter of the other
orientation, and `navigatePane` relies on that when it jumps from a splitter to
the parent of its parent.  But when `removeSplitLayout` moves the last pane of a
splitter up, and this pane is itself a splitter, it ends in a splitter of its own
orientation.  This is the only way in which alternation is lost
(`run_alternates_iff`).
-/

namespace Qutty
namespace Pane

namespace GuiMainWindow

/-- No splitter in a tab has the orientation of its parent. -/
def Alternates (w : GuiMainWindow) : Prop :=
  ∀ r ∈ w.tabs, ∀ s p, w.forest.Under r (.split s) → w.parentSplit (.split s) = some p →
    w.orientation s ≠ w.orientation p

/-- No splitter has the orientation of a splitter that it is a child of. -/
def AlternateLinks (w : GuiMainWindow) : Prop :=
  ∀ p s, .split s ∈ w.child p → w.orientation s ≠ w.orientation p

/-- The terminal `t` has one neighbour in its splitter, this neighbour is a
splitter, and so is the parent of both. -/
def HoistsSplitter (w : GuiMainWindow) (t : Nat) : Prop :=
  ∃ s g s', .term t ∈ w.child s ∧ .split s ∈ w.child g ∧
    (w.child s).erase (.term t) = [.split s']

section Alternation

variable {w w' : GuiMainWindow} {t n : Nat} {split : SplitType} {op : PaneOp}

/-- All links are in the tabs. -/
theorem Panes.alternates_iff (h : w.Panes []) : w.Alternates ↔ w.AlternateLinks := by
  constructor
  · intro ha p s hs
    have hlive : w.Live (.split s) := (h.placed (.split s) (by simp)).mp (.inr ⟨p, hs⟩)
    obtain ⟨r, hr, hu⟩ := h.exists_tab hlive
    exact ha r hr s p hu (h.parentSplit_iff.mpr hs)
  · intro ha r _ s p _ hp
    exact ha p s (h.parentSplit_iff.mp hp)

theorem alternateLinks_congr (hc : w'.child = w.child) (ho : w'.orientation = w.orientation) :
    w'.AlternateLinks ↔ w.AlternateLinks := by
  unfold AlternateLinks
  rw [hc, ho]

/-- There are two orientations only. -/
theorem orientation_eq_of_ne {a b c : Orientation} (hab : a ≠ b) (hbc : b ≠ c) : a = c := by
  cases a <;> cases b <;> cases c <;> simp_all

/-- Alternation is lost when a splitter moves up. -/
theorem Leaving.alternateLinks_iff {s : Nat} (h : w.Wired) (ht : .term t ∈ w.child s)
    (hl : Leaving w s t w') (ha : w.AlternateLinks) :
    w'.AlternateLinks ↔ ¬ w.HoistsSplitter t := by
  have huniq : ∀ q, .term t ∈ w.child q → q = s := fun q hq => h.parent_unique hq ht
  obtain ⟨ds, hobj, -⟩ := hl.objects_eq h
  have ho : w'.orientation = w.orientation := congrArg Objects.orientation hobj
  unfold AlternateLinks
  rw [ho]
  cases hl with
  | stay hlen child tabs objects caches =>
      refine iff_of_true (fun p q hq => ha p q ((h.mem_stay ht child).mp hq).1) ?_
      rintro ⟨q, g, s', hq, -, hs'⟩
      rw [huniq q hq] at hs'
      simp [hs'] at hlen
  | hoist b g hs hg child tabs objects caches =>
      cases b with
      | term u =>
          refine iff_of_true (fun p q hq => ?_) ?_
          · rcases (h.mem_hoist hg child).mp hq with ⟨-, heq⟩ | ⟨-, hq, -⟩
            · cases heq
            · exact ha p q hq
          · rintro ⟨q, g', s', hq, -, hs'⟩
            rw [huniq q hq, hs] at hs'
            simp at hs'
      | split s' =>
          refine iff_of_false (fun hall => ?_) (not_not.mpr ⟨s, g, s', ht, hg, hs⟩)
          have hmem : .split s' ∈ w.child s :=
            ((mem_iff_of_erase_eq_singleton h.child_nodup ht hs).2 _).mpr (.inr rfl)
          exact hall g s' ((h.mem_hoist hg child).mpr (.inl ⟨rfl, rfl⟩))
            (orientation_eq_of_ne (ha s s' hmem) (ha g s hg))
  | surface b i hs hi child tabs objects caches =>
      refine iff_of_true (fun p q hq => ha p q ((mem_surface child).mp hq).2) ?_
      rintro ⟨q, g, s', hq, hg, -⟩
      rw [huniq q hq] at hg
      exact h.roots_not_mem (List.mem_of_getElem? hi) g hg

theorem Left.alternateLinks_iff (h : w.Wired) (hl : Left w t w') (ha : w.AlternateLinks) :
    w'.AlternateLinks ↔ ¬ w.HoistsSplitter t := by
  rcases hl with ⟨rfl, hp⟩ | ⟨s, ht, hl⟩
  · refine iff_of_true ha ?_
    rintro ⟨s, g, s', ht, -, -⟩
    exact h.not_mem_child hp ht
  · exact hl.alternateLinks_iff h ht ha

/-- A new splitter has the other orientation than its parent. -/
theorem Joining.alternateLinks_iff (h : w.Wired) (hj : Joining w t split n w') :
    w'.AlternateLinks ↔ w.AlternateLinks := by
  have hfresh := h.fresh w.nextSplitter le_rfl
  -- links between old splitters keep their orientations
  have hold : w'.objects = w.objects.withSplitter (orientOf split) → ∀ p s,
      .split s ∈ w.child p →
        w'.orientation s = w.orientation s ∧ w'.orientation p = w.orientation p := by
    intro hobj p s hs
    rw [orientation_withSplitter hobj, orientation_withSplitter hobj,
      if_neg (h.split_lt hs).ne, if_neg (h.lt_of_mem hs).ne]
    exact ⟨rfl, rfl⟩
  unfold AlternateLinks
  cases hj with
  | top i hi child tabs objects caches =>
      refine forall₂_congr fun p s => ?_
      simp only [h.mem_top child, reduceCtorEq, or_self, and_false, or_false]
      refine forall_congr' fun hs => ?_
      rw [(hold objects p s hs).1, (hold objects p s hs).2]
  | nest q hq ho child tabs objects caches cached stale =>
      constructor
      · intro ha p s hs
        have hne := ha p s ((h.mem_nest hq child).mpr (.inl ⟨hs, by simp⟩))
        rwa [(hold objects p s hs).1, (hold objects p s hs).2] at hne
      · intro ha p s hs
        rcases (h.mem_nest hq child).mp hs with ⟨hs, -⟩ | ⟨rfl, heq⟩ | ⟨-, heq⟩
        · rw [(hold objects p s hs).1, (hold objects p s hs).2]
          exact ha p s hs
        · cases heq
          rw [orientation_withSplitter objects, orientation_withSplitter objects, if_pos rfl,
            if_neg (h.lt_of_mem hq).ne]
          exact ho
        · simp at heq
  | beside q hq ho child tabs objects caches cached =>
      refine forall₂_congr fun p s => ?_
      have horient : w'.orientation = w.orientation := orientation_eq objects
      simp only [mem_beside child, reduceCtorEq, and_false, or_false, horient]

/-- An operation loses alternation exactly when it moves a splitter up. -/
theorem Performed.alternateLinks_iff (h : w.Panes []) (hp : Performed w op w')
    (ha : w.AlternateLinks) :
    w'.AlternateLinks ↔ ∀ t, w.moved op = some t → ¬ w.HoistsSplitter t := by
  cases hp with
  | skip hm => simp [hm, ha]
  | openTab hm =>
      have hsame : (w.newTerminal.setupLayoutLeaf w.nextTerminal (-1)).AlternateLinks ↔
          w.newTerminal.AlternateLinks :=
        alternateLinks_congr (child_setupLayoutLeaf (-1))
          (orientation_eq (objects_setupLayoutLeaf (-1)))
      exact iff_of_true (hsame.mpr ha) (by simp [hm])
  | split hm l hj =>
      refine iff_of_true ?_ (by simp [hm])
      exact (hj.alternateLinks_iff h.newTerminal.1.toWired).mpr ha
  | @close t hop hm w₁ hwired hl =>
      obtain ⟨-, -, hchild, hobj⟩ := hwired.mainCloseTerminal t
      have ho : (w₁.mainCloseTerminal t).orientation = w₁.orientation := orientation_eq hobj
      have hsame : ((w₁.mainCloseTerminal t).recordClosed t).AlternateLinks ↔
          w₁.AlternateLinks := alternateLinks_congr hchild ho
      rw [hsame, hl.alternateLinks_iff h.toWired ha]
      simp [hm]
  | dropOnTerminal hop hm hw₁ hl hj =>
      rw [hj.alternateLinks_iff hw₁.toWired, hl.alternateLinks_iff h.toWired ha]
      simp [hm]
  | @dropOnTabBar dropped tabind type hop hm w₁ i hl =>
      have hsame : (w₁.setupLayoutLeaf dropped i).AlternateLinks ↔ w₁.AlternateLinks :=
        alternateLinks_congr (child_setupLayoutLeaf i) (orientation_eq (objects_setupLayoutLeaf i))
      rw [hsame, hl.alternateLinks_iff h.toWired ha]
      simp [hm]

/-- **Orientations alternate all along a run if and only if no step takes a
terminal away from a splitter that is its only neighbour in a nested splitter.** -/
theorem run_alternates_iff (ops : List PaneOp) :
    (∀ pre, pre <+: ops → ∀ w, init.run pre = some w → w.Alternates) ↔
      ∀ pre op, pre ++ [op] <+: ops → ∀ w, init.run pre = some w →
        ∀ t, w.moved op = some t → ¬ w.HoistsSplitter t := by
  refine run_forall_iff (I := AlternateLinks) ?_ ?_ ?_ ?_ ops
  · intro p s hs
    simp [init] at hs
  · intro w h ha
    exact h.alternates_iff.mpr ha
  · intro w op w' h _ hp _ ha hc
    exact (hp.alternateLinks_iff h ha).mpr hc
  · intro w op w' h _ hp h' ha ha'
    exact (hp.alternateLinks_iff h (h.alternates_iff.mp ha)).mp (h'.purge.alternates_iff.mp ha')

/-- Splitting right, down and right again, and closing the pane in the middle,
leaves a horizontal splitter in a horizontal one. -/
theorem not_alternates_hoisted :
    ∃ w, init.run [.openTab, .split 0 .right, .split 1 .down, .split 2 .right, .close 1] =
      some w ∧ ¬ w.Alternates := by
  refine ⟨_, (Option.some_get (by decide)).symm, fun ha => ?_⟩
  exact ha (.split 0) (by decide) 2 0
    (Lib.Forest.Under.head (c := .split 2) (by decide) (.refl _)) (by decide) (by decide)

end Alternation

end GuiMainWindow

end Pane
end Qutty
