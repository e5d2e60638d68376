import Qutty.Pane.Moves

/-!
# The representation invariant of the pane tree

`Panes` is the representation invariant of the layout: besides the wiring, every
open terminal and every splitter with children has a place (it is a tab or a
child), nothing else has one, and no splitter has a single child.  While an
operation is under way some terminals are on the move; they are the parameter of
`Panes`.

The moves of a terminal keep the invariant (`Panes.leaving`, `Panes.joining`).
-/

namespace Qutty
namespace Pane

namespace GuiMainWindow

/-- The pane has a place. -/
def Hung (w : GuiMainWindow) (b : GuiBase) : Prop :=
  b ∈ w.tabs ∨ ∃ s, b ∈ w.child s

/-- The panes that must have a place. -/
def Live (w : GuiMainWindow) : GuiBase → Prop
  | .term t => t ∈ w.opened
  | .split s => w.child s ≠ []

/-- The representation invariant; the terminals in `moving` are on the move. -/
structure Panes (w : GuiMainWindow) (moving : List Nat) : Prop extends w.Wired where
  sized : ∀ s, w.child s = [] ∨ 2 ≤ (w.child s).length
  placed : ∀ b, (∀ t ∈ moving, b ≠ .term t) → (w.Hung b ↔ w.Live b)
  dead : ∀ s ∈ w.dying, s < w.nextSplitter ∧ w.child s = []
  openedNodup : w.opened.Nodup
  openedLt : ∀ t ∈ w.opened, t < w.nextTerminal

section Leaving

variable {w w' : GuiMainWindow} {s g t q : Nat} {b x : GuiBase}

/-- The links after a terminal has left a splitter that stays. -/
theorem Wired.mem_stay (h : w.Wired) (ht : .term t ∈ w.child s)
    (child : w'.child = Function.update w.child s ((w.child s).erase (.term t))) :
    x ∈ w'.child q ↔ x ∈ w.child q ∧ x ≠ .term t := by
  rw [child, Function.update_apply]
  split_ifs with hq
  · rw [hq, h.child_nodup.mem_erase_iff, and_comm]
  · refine ⟨fun hx => ⟨hx, ?_⟩, And.left⟩
    rintro rfl
    exact hq (h.parent_unique hx ht)

/-- The links after the last pane has moved up. -/
theorem Wired.mem_hoist (h : w.Wired) (hg : .split s ∈ w.child g)
    (child : w'.child = Function.update (Function.update w.child s []) g
      ((w.child g).erase (.split s) ++ [b])) :
    x ∈ w'.child q ↔ q = g ∧ x = b ∨ q ≠ s ∧ x ∈ w.child q ∧ x ≠ .split s := by
  have hgs := (h.below g s hg).ne
  rw [child, Function.update_apply, Function.update_apply]
  split_ifs with hqg hqs
  · subst hqg
    rw [List.mem_append, h.child_nodup.mem_erase_iff, List.mem_singleton]
    tauto
  · have hqg' : s ≠ g := hqs ▸ hqg
    simp [hqs, hqg']
  · have hne : x ∈ w.child q → x ≠ .split s := by
      rintro hx rfl
      exact hqg (h.parent_unique hx hg)
    tauto

/-- The links after the last pane has become the tab. -/
theorem mem_surface (child : w'.child = Function.update w.child s []) :
    x ∈ w'.child q ↔ q ≠ s ∧ x ∈ w.child q := by
  rw [child, Function.update_apply]
  split_ifs with hq <;> simp [hq]

/-- A terminal that has left is no child. -/
theorem Leaving.not_mem_child (h : w.Wired) (ht : .term t ∈ w.child s)
    (hl : Leaving w s t w') (q : Nat) : .term t ∉ w'.child q := by
  intro hq
  cases hl with
  | stay hlen child tabs objects caches => exact ((h.mem_stay ht child).mp hq).2 rfl
  | hoist b g hs hg child tabs objects caches =>
      rcases (h.mem_hoist hg child).mp hq with ⟨-, hb⟩ | ⟨hqs, hq, -⟩
      · exact (mem_iff_of_erase_eq_singleton h.child_nodup ht hs).1 hb.symm
      · exact hqs (h.parent_unique hq ht)
  | surface b i hs hi child tabs objects caches =>
      obtain ⟨hqs, hq⟩ := (mem_surface child).mp hq
      exact hqs (h.parent_unique hq ht)

/-- The panes that have a place after a terminal has left. -/
theorem Leaving.hung_iff (h : w.Wired) (ht : .term t ∈ w.child s) (hl : Leaving w s t w')
    (hx : x ≠ .term t) :
    w'.Hung x ↔ w.Hung x ∧ (x = .split s → w'.child s ≠ []) := by
  unfold Hung
  cases hl with
  | stay hlen child tabs objects caches =>
      have hs : w'.child s ≠ [] := by
        rw [child, Function.update_self]
        exact List.ne_nil_of_length_pos (by omega)
      simp [tabs, h.mem_stay ht child, hs, hx]
  | hoist b g hs hg child tabs objects caches =>
      obtain ⟨-, hmem⟩ := mem_iff_of_erase_eq_singleton h.child_nodup ht hs
      have hgs := h.below g s hg
      have hst := h.not_mem_tabs hg
      have hbs := h.ne_of_mem ((hmem b).mpr (.inr rfl))
      have hnil : w'.child s = [] := by
        rw [child, Function.update_of_ne hgs.ne', Function.update_self]
      simp only [tabs, h.mem_hoist hg child, hnil]
      grind
  | surface b i hs hi child tabs objects caches =>
      obtain ⟨-, hmem⟩ := mem_iff_of_erase_eq_singleton h.child_nodup ht hs
      have hst := h.roots_not_mem (List.mem_of_getElem? hi)
      have hbs := h.ne_of_mem ((hmem b).mpr (.inr rfl))
      have hnil : w'.child s = [] := by rw [child, Function.update_self]
      simp only [tabs, mem_surface child, hnil, mem_set_iff h.tabsNodup hi]
      grind

/-- No object is created, and only the splitter that was left may have to die. -/
theorem Leaving.objects_eq (h : w.Wired) (hl : Leaving w s t w') :
    ∃ ds, w'.objects = { w.objects with dying := ds } ∧
      ∀ d ∈ ds, d ∈ w.dying ∨ d = s ∧ w'.child s = [] := by
  cases hl with
  | stay hlen child tabs objects caches => exact ⟨w.dying, objects, fun d hd => .inl hd⟩
  | hoist b g hs hg child tabs objects caches =>
      refine ⟨s :: w.dying, objects, fun d hd => ?_⟩
      have hgs := h.below g s hg
      have hnil : w'.child s = [] := by
        rw [child, Function.update_of_ne hgs.ne', Function.update_self]
      rcases List.mem_cons.mp hd with rfl | hd
      · exact .inr ⟨rfl, hnil⟩
      · exact .inl hd
  | surface b i hs hi child tabs objects caches =>
      refine ⟨s :: w.dying, objects, fun d hd => ?_⟩
      have hnil : w'.child s = [] := by rw [child, Function.update_self]
      rcases List.mem_cons.mp hd with rfl | hd
      · exact .inr ⟨rfl, hnil⟩
      · exact .inl hd

/-- Other splitters do not die. -/
theorem Leaving.child_eq_nil_iff (hl : Leaving w s t w') (hq : q ≠ s) :
    w'.child q = [] ↔ w.child q = [] := by
  cases hl with
  | stay hlen child tabs objects caches => rw [child, Function.update_of_ne hq]
  | hoist b g hs hg child tabs objects caches =>
      rw [child, Function.update_apply]
      split_ifs with hqg
      · subst hqg
        simp [List.ne_nil_of_mem hg]
      · rw [Function.update_of_ne hq]
  | surface b i hs hi child tabs objects caches => rw [child, Function.update_of_ne hq]

/-- The panes that must have a place after a terminal has left. -/
theorem Leaving.live_iff (h : w.Wired) (ht : .term t ∈ w.child s) (hl : Leaving w s t w') :
    w'.Live x ↔ w.Live x ∧ (x = .split s → w'.child s ≠ []) := by
  obtain ⟨ds, hobj, -⟩ := hl.objects_eq h
  have hopened : w'.opened = w.opened := congrArg Objects.opened hobj
  cases x with
  | term u => simp [Live, hopened]
  | split q =>
      by_cases hq : q = s
      · subst hq
        simp [Live, List.ne_nil_of_mem ht]
      · simp [Live, hq, hl.child_eq_nil_iff hq]

/-- No splitter is left with one pane. -/
theorem Leaving.sized (hl : Leaving w s t w')
    (hsized : ∀ q, w.child q = [] ∨ 2 ≤ (w.child q).length) (q : Nat) :
    w'.child q = [] ∨ 2 ≤ (w'.child q).length := by
  cases hl with
  | stay hlen child tabs objects caches =>
      rw [child, Function.update_apply]
      split_ifs
      · exact .inr hlen
      · exact hsized q
  | hoist b g hs hg child tabs objects caches =>
      rw [child, Function.update_apply, Function.update_apply]
      split_ifs
      · -- the last pane of `s` replaces `s` itself
        rcases hsized g with hnil | hle
        · simp [hnil] at hg
        · exact .inr (by rwa [length_erase_append hg])
      · exact .inl rfl
      · exact hsized q
  | surface b i hs hi child tabs objects caches =>
      rw [child, Function.update_apply]
      split_ifs
      · exact .inl rfl
      · exact hsized q

/-- **A terminal leaves its splitter.** -/
theorem Panes.leaving (h : w.Panes []) (ht : .term t ∈ w.child s) (hw : w'.Wired)
    (hl : Leaving w s t w') : w'.Panes [t] := by
  obtain ⟨ds, hobj, hds⟩ := hl.objects_eq h.toWired
  have hnext : w'.nextSplitter = w.nextSplitter := congrArg Objects.nextSplitter hobj
  have hopened : w'.opened = w.opened := congrArg Objects.opened hobj
  have hterm : w'.nextTerminal = w.nextTerminal := congrArg Objects.nextTerminal hobj
  have hdying : w'.dying = ds := congrArg Objects.dying hobj
  refine
    { hw with
      sized := hl.sized h.sized
      placed := ?_
      dead := ?_
      openedNodup := hopened ▸ h.openedNodup
      openedLt := by rw [hopened, hterm]; exact h.openedLt }
  · intro x hx
    have hx' : x ≠ .term t := hx t (by simp)
    rw [hl.hung_iff h.toWired ht hx', hl.live_iff h.toWired ht, h.placed x (by simp)]
  · intro d hd
    rw [hdying] at hd
    rw [hnext]
    rcases hds d hd with hd | ⟨rfl, hnil⟩
    · obtain ⟨hlt, hnil⟩ := h.dead d hd
      have hne : d ≠ s := by
        rintro rfl
        simp [hnil] at ht
      exact ⟨hlt, (hl.child_eq_nil_iff hne).mpr hnil⟩
    · exact ⟨h.lt_of_mem ht, hnil⟩

end Leaving

section Joining

variable {w w' : GuiMainWindow} {t n p q : Nat} {split : SplitType} {x : GuiBase}

theorem mem_pair : x ∈ pair split t n ↔ x = .term t ∨ x = .term n := by
  unfold pair
  split_ifs <;> simp [or_comm]

theorem length_pair : (pair split t n).length = 2 := by
  unfold pair
  split_ifs <;> rfl

/-- The links after a new splitter has taken the place of a tab. -/
theorem Wired.mem_top (h : w.Wired)
    (child : w'.child = Function.update w.child w.nextSplitter (pair split t n)) :
    x ∈ w'.child q ↔ x ∈ w.child q ∨ q = w.nextSplitter ∧ (x = .term t ∨ x = .term n) := by
  have hnil := (h.fresh w.nextSplitter le_rfl).1
  rw [child, Function.update_apply]
  split_ifs with hq
  · simp [hq, hnil, mem_pair]
  · simp [hq]

/-- The links after a new splitter has taken the place of a terminal in a splitter. -/
theorem Wired.mem_nest (h : w.Wired) (hp : .term t ∈ w.child p)
    (child : w'.child = Function.update
      (Function.update w.child p ((w.child p).erase (.term t) ++ [.split w.nextSplitter]))
      w.nextSplitter (pair split t n)) :
    x ∈ w'.child q ↔ x ∈ w.child q ∧ x ≠ .term t ∨ q = p ∧ x = .split w.nextSplitter ∨
      q = w.nextSplitter ∧ (x = .term t ∨ x = .term n) := by
  have hnil := (h.fresh w.nextSplitter le_rfl).1
  have hps := (h.lt_of_mem hp).ne
  rw [child, Function.update_apply, Function.update_apply]
  split_ifs with hq hqp
  · have hqp : q ≠ p := by omega
    simp [hq, hnil, hps.symm, mem_pair]
  · subst hqp
    rw [List.mem_append, h.child_nodup.mem_erase_iff, List.mem_singleton]
    tauto
  · have hne : x ∈ w.child q → x ≠ .term t := by
      rintro hx rfl
      exact hqp (h.parent_unique hx hp)
    tauto

/-- The links after a terminal has come into a splitter. -/
theorem mem_beside (child : w'.child = Function.update w.child p (w.child p ++ [.term n])) :
    x ∈ w'.child q ↔ x ∈ w.child q ∨ q = p ∧ x = .term n := by
  rw [child, mem_update_append]

/-- The panes that have a place after a terminal has been put beside another one. -/
theorem Joining.hung_iff (h : w.Wired) (hj : Joining w t split n w') :
    w'.Hung x ↔ w.Hung x ∨ x = .term n ∨ x = .split w.nextSplitter ∧
      w'.nextSplitter = w.nextSplitter + 1 := by
  have hfresh := h.fresh w.nextSplitter le_rfl
  unfold Hung
  cases hj with
  | top i hi child tabs objects caches =>
      have hnext := nextSplitter_withSplitter objects
      have htt := List.mem_of_getElem? hi
      simp only [tabs, mem_insertAt, (h.tabsNodup.erase _).mem_erase_iff,
        h.tabsNodup.mem_erase_iff, h.mem_top child, hnext]
      grind
  | nest p hp ho child tabs objects caches cached stale =>
      have hnext := nextSplitter_withSplitter objects
      simp only [tabs, h.tabsNodup.mem_erase_iff, h.mem_nest hp child, hnext]
      grind
  | beside p hp ho child tabs objects caches cached =>
      have hnext := nextSplitter_eq objects
      simp only [tabs, h.tabsNodup.mem_erase_iff, mem_beside child, hnext]
      grind

/-- At most one splitter is created. -/
theorem Joining.objects_eq (hj : Joining w t split n w') :
    ∃ ns o, w.nextSplitter ≤ ns ∧
      w'.objects = { w.objects with nextSplitter := ns, orientation := o } := by
  cases hj with
  | top i hi child tabs objects caches => exact ⟨_, _, Nat.le_succ _, objects⟩
  | nest p hp ho child tabs objects caches cached stale => exact ⟨_, _, Nat.le_succ _, objects⟩
  | beside p hp ho child tabs objects caches cached => exact ⟨_, _, le_rfl, objects⟩

/-- The splitters with children after a terminal has been put beside another one. -/
theorem Joining.child_ne_nil_iff (hj : Joining w t split n w') :
    w'.child q ≠ [] ↔
      w.child q ≠ [] ∨ q = w.nextSplitter ∧ w'.nextSplitter = w.nextSplitter + 1 := by
  have hpair : pair split t n ≠ [] := List.ne_nil_of_length_pos (by rw [length_pair]; omega)
  cases hj with
  | top i hi child tabs objects caches =>
      rw [child, nextSplitter_withSplitter objects, Function.update_apply]
      split_ifs with hq <;> simp [hq, hpair]
  | nest p hp ho child tabs objects caches cached stale =>
      rw [child, nextSplitter_withSplitter objects, Function.update_apply,
        Function.update_apply]
      split_ifs with hq hqp
      · simp [hq, hpair]
      · simp [hqp, List.ne_nil_of_mem hp]
      · simp [hq]
  | beside p hp ho child tabs objects caches cached =>
      rw [child, nextSplitter_eq objects, Function.update_apply]
      split_ifs with hqp
      · simp [hqp, List.ne_nil_of_mem hp]
      · simp

/-- No splitter has one pane. -/
theorem Joining.sized (hj : Joining w t split n w')
    (hsized : ∀ q, w.child q = [] ∨ 2 ≤ (w.child q).length) (q : Nat) :
    w'.child q = [] ∨ 2 ≤ (w'.child q).length := by
  cases hj with
  | top i hi child tabs objects caches =>
      rw [child, Function.update_apply]
      split_ifs
      · exact .inr length_pair.ge
      · exact hsized q
  | nest p hp ho child tabs objects caches cached stale =>
      rw [child, Function.update_apply, Function.update_apply]
      split_ifs
      · exact .inr length_pair.ge
      · rcases hsized p with hnil | hle
        · simp [hnil] at hp
        · exact .inr (by rwa [length_erase_append hp])
      · exact hsized q
  | beside p hp ho child tabs objects caches cached =>
      rw [child, Function.update_apply]
      split_ifs
      · rcases hsized p with hnil | hle
        · simp [hnil] at hp
        · refine .inr ?_
          rw [List.length_append]
          omega
      · exact hsized q

/-- **A terminal is put beside another one.** -/
theorem Panes.joining (h : w.Panes [n]) (hn : n ∈ w.opened) (hw : w'.Wired)
    (hj : Joining w t split n w') : w'.Panes [] := by
  obtain ⟨ns, o, hns, hobj⟩ := hj.objects_eq
  have hnext : w'.nextSplitter = ns := congrArg Objects.nextSplitter hobj
  have hopened : w'.opened = w.opened := congrArg Objects.opened hobj
  have hterm : w'.nextTerminal = w.nextTerminal := congrArg Objects.nextTerminal hobj
  have hdying : w'.dying = w.dying := congrArg Objects.dying hobj
  refine
    { hw with
      sized := hj.sized h.sized
      placed := ?_
      dead := ?_
      openedNodup := hopened ▸ h.openedNodup
      openedLt := by rw [hopened, hterm]; exact h.openedLt }
  · intro x _
    rw [hj.hung_iff h.toWired]
    by_cases hx : x = .term n
    · simp [hx, Live, hopened, hn]
    · rw [h.placed x (by simpa using hx)]
      cases x with
      | term u =>
          simp only [Live, hopened, reduceCtorEq, false_and, or_false, or_iff_left hx]
      | split q =>
          simp only [Live, hj.child_ne_nil_iff, GuiBase.split.injEq, reduceCtorEq,
            false_or]
  · intro d hd
    rw [hdying] at hd
    obtain ⟨hlt, hnil⟩ := h.dead d hd
    refine ⟨by omega, ?_⟩
    by_contra hne
    rcases hj.child_ne_nil_iff.mp hne with hne | ⟨rfl, -⟩
    · exact hne hnil
    · omega

end Joining

end GuiMainWindow

end Pane
end Qutty
