import Qutty.Pane.SplitOrder
import Qutty.Pane.Orientation

/-!
# Going to a pane in a direction

`navigatePane` looks for the next pane in the direction of an arrow key.  It climbs from
the splitter of a terminal: to the parent when the splitter has the other axis, and to the
parent of the parent when there is no widget on that side.  The index of the branch that it
came from is passed along.  In the widget that it finds it takes the terminal whose midpoint
is closest.

When orientations alternate the second step misses no splitter, and so the search finds the
nearest sibling (`navigatePane_spec`).
-/

namespace Qutty
namespace Navigation

open Lib Pane

/-- The arrow keys of `Qt::Key`. -/
inductive ArrowKey where
  | up
  | down
  | left
  | right
deriving DecidableEq, Repr

/-- The orientation of the splitters in which a key moves. -/
def ArrowKey.axis : ArrowKey → Orientation
  | .up | .down => .vertical
  | .left | .right => .horizontal

/-- `QPoint`. -/
structure QPoint where
  x : Int
  y : Int
deriving DecidableEq, Repr

/-- `manhattanLength` of the difference of two points. -/
def manhattanLength (p q : QPoint) : Int := |p.x - q.x| + |p.y - q.y|

/-- `INT_MAX`. -/
def intMax : Int := 2 ^ 31 - 1

/-- The loop over the terminals of a splitter: `bestdist` and `bestterm` afterwards. -/
def closest (mid : Nat → QPoint) (tofind : Nat) (list : List Nat) : Int × Option Nat :=
  list.foldl (fun best t =>
    if manhattanLength (mid t) (mid tofind) < best.1 then
      (manhattanLength (mid t) (mid tofind), some t)
    else best) (intMax, none)

/-- `QSplitter::widget`. -/
def widgetAt (widgets : List GuiBase) (ind : Int) : Option GuiBase :=
  if ind < 0 then none else widgets[ind.toNat]?

/-- `GuiSplitter::navigatePane`, for at most the given number of calls; `mid` are the
midpoints of the terminals in global coordinates. -/
def navigatePane (w : GuiMainWindow) (mid : Nat → QPoint) (key : ArrowKey) (tofind : Nat) :
    Nat → Nat → Int → Option (Option Nat)
  | 0, _, _ => none
  | n + 1, s, splitind =>
      if w.orientation s = .horizontal ∧ (key = .down ∨ key = .up) ∨
          w.orientation s = .vertical ∧ (key = .left ∨ key = .right) then
        match w.parentSplit (.split s) with
        | some p => navigatePane w mid key tofind n p (indexOf (w.widgets p) (.split s))
        | none => some none
      else
        let ind := indexOf (w.widgets s) (.term tofind)
        let ind := if ind = -1 then splitind else ind
        if ind = -1 then some none
        else
          match widgetAt (w.widgets s) (ind + if key = .up ∨ key = .left then -1 else 1) with
          | none =>
              match w.parentSplit (.split s) with
              | some p =>
                  match w.parentSplit (.split p) with
                  | some g => navigatePane w mid key tofind n g (indexOf (w.widgets g) (.split p))
                  | none => some none
              | none => some none
          | some (.split q) =>
              some (closest mid tofind (w.populateAllTerminals (.split q))).2
          | some (.term t) => some (some t)

section Closest

variable {mid : Nat → QPoint} {tofind t : Nat} {list : List Nat}

/-- What the loop knows after some terminals. -/
theorem closest_inv (mid : Nat → QPoint) (tofind : Nat) (list : List Nat) :
    (closest mid tofind list).1 ≤ intMax ∧
      (∀ t ∈ list, (closest mid tofind list).1 ≤ manhattanLength (mid t) (mid tofind)) ∧
      (closest mid tofind list = (intMax, none) ∨
        ∃ t ∈ list, closest mid tofind list = (manhattanLength (mid t) (mid tofind), some t)) := by
  induction list using List.reverseRecOn with
  | nil => exact ⟨le_rfl, by simp, .inl rfl⟩
  | append_singleton list t ih =>
      obtain ⟨hmax, hall, hbest⟩ := ih
      have hstep : closest mid tofind (list ++ [t]) =
          if manhattanLength (mid t) (mid tofind) < (closest mid tofind list).1 then
            (manhattanLength (mid t) (mid tofind), some t)
          else closest mid tofind list := by
        rw [closest, List.foldl_append]
        rfl
      rw [hstep]
      split_ifs with hlt
      · refine ⟨by omega, fun u hu => ?_, .inr ⟨t, by simp, rfl⟩⟩
        rcases List.mem_append.mp hu with hu | hu
        · exact hlt.le.trans (hall u hu)
        · rw [List.mem_singleton.mp hu]
      · refine ⟨hmax, fun u hu => ?_, hbest.imp_right ?_⟩
        · rcases List.mem_append.mp hu with hu | hu
          · exact hall u hu
          · rw [List.mem_singleton.mp hu]
            exact not_lt.mp hlt
        · rintro ⟨u, hu, heq⟩
          exact ⟨u, List.mem_append_left _ hu, heq⟩

/-- The loop finds a terminal at the least distance. -/
theorem closest_spec (hne : list ≠ [])
    (hmid : ∀ t, manhattanLength (mid t) (mid tofind) < intMax) :
    ∃ t ∈ list, (closest mid tofind list).2 = some t ∧
      ∀ u ∈ list, manhattanLength (mid t) (mid tofind) ≤ manhattanLength (mid u) (mid tofind) := by
  obtain ⟨-, hall, hbest⟩ := closest_inv mid tofind list
  rcases hbest with heq | ⟨t, ht, heq⟩
  · obtain ⟨t, ht⟩ := List.exists_mem_of_ne_nil list hne
    have hle := hall t ht
    rw [heq] at hle
    exact absurd hle (not_le.mpr (hmid t))
  · rw [heq] at hall
    exact ⟨t, ht, by rw [heq], hall⟩

end Closest

/-- In the splitter `s`, the widget `c` is next to the widget `b` in the direction of the
key. -/
def NextTo (w : GuiMainWindow) (key : ArrowKey) (s : Nat) (b c : GuiBase) : Prop :=
  match key with
  | .up | .left => ∃ i : Nat, (w.widgets s)[i]? = some c ∧ (w.widgets s)[i + 1]? = some b
  | .down | .right => ∃ i : Nat, (w.widgets s)[i]? = some b ∧ (w.widgets s)[i + 1]? = some c

/-- The splitter `s` is above the terminal and has the axis of the key, and `c` is next to
its branch with the terminal. -/
def Sibling (w : GuiMainWindow) (key : ArrowKey) (t s : Nat) (c : GuiBase) : Prop :=
  w.orientation s = key.axis ∧
    ∃ b ∈ w.child s, w.forest.Under b (.term t) ∧ NextTo w key s b c

/-- A terminal of the pane `c` at the least distance. -/
def Closest (w : GuiMainWindow) (mid : Nat → QPoint) (tofind : Nat) (c : GuiBase) (t : Nat) :
    Prop :=
  w.forest.Under c (.term t) ∧ ∀ u, w.forest.Under c (.term u) →
    manhattanLength (mid t) (mid tofind) ≤ manhattanLength (mid u) (mid tofind)

/-- The right answer among the splitters from `s` upwards. -/
def Answers (w : GuiMainWindow) (mid : Nat → QPoint) (key : ArrowKey) (tofind s : Nat) :
    Option Nat → Prop
  | none => ∀ s' c, w.forest.Under (.split s') (.split s) → ¬ Sibling w key tofind s' c
  | some t => ∃ s' c, w.forest.Under (.split s') (.split s) ∧ Sibling w key tofind s' c ∧
      (∀ s'' c', w.forest.Under (.split s'') (.split s) → Sibling w key tofind s'' c' →
        w.forest.Under (.split s'') (.split s')) ∧
      Closest w mid tofind c t

section Search

variable {w : GuiMainWindow} {mid : Nat → QPoint} {key : ArrowKey} {t s p q : Nat}
  {b c : GuiBase} {r : Option Nat}

/-- Upwards from a splitter are the splitter itself and those upwards from its parent. -/
theorem under_split_iff (h : w.Wired) (hp : w.parentSplit (.split s) = some p) :
    w.forest.Under (.split q) (.split s) ↔ q = s ∨ w.forest.Under (.split q) (.split p) := by
  have hs := h.parentSplit_iff.mp hp
  constructor
  · intro hu
    rcases Relation.ReflTransGen.cases_tail hu with heq | ⟨x, hx, hc⟩
    · exact .inl (by simpa using heq.symm)
    · cases x with
      | term u => simp at hc
      | split p' =>
          obtain rfl := h.parent_unique hc hs
          exact .inr hx
  · rintro (rfl | hu)
    · exact .refl _
    · exact hu.tail hs

theorem under_root_iff (h : w.Wired) (hp : w.parentSplit (.split s) = none) :
    w.forest.Under (.split q) (.split s) ↔ q = s := by
  constructor
  · intro hu
    have hroot := h.linked.eq_of_under_root (by simp [GuiMainWindow.forest, hp]) hu
    simpa using hroot
  · rintro rfl
    exact .refl _

/-- A splitter without sibling of the branch may be skipped. -/
theorem Answers.skip (h : w.Wired) (hp : w.parentSplit (.split s) = some p)
    (hs : ∀ c, ¬ Sibling w key t s c) (hr : Answers w mid key t p r) :
    Answers w mid key t s r := by
  cases r with
  | none =>
      intro q c hu hsib
      rcases (under_split_iff h hp).mp hu with rfl | hu
      · exact hs c hsib
      · exact hr q c hu hsib
  | some u =>
      obtain ⟨q, c, hu, hsib, hnear, hclose⟩ := hr
      refine ⟨q, c, (under_split_iff h hp).mpr (.inr hu), hsib, fun q' c' hu' hsib' => ?_, hclose⟩
      rcases (under_split_iff h hp).mp hu' with rfl | hu'
      · exact absurd hsib' (hs c')
      · exact hnear q' c' hu' hsib'

/-- There is nothing above a root. -/
theorem Answers.root (h : w.Wired) (hp : w.parentSplit (.split s) = none)
    (hs : ∀ c, ¬ Sibling w key t s c) : Answers w mid key t s none := by
  intro q c hu hsib
  obtain rfl := (under_root_iff h hp).mp hu
  exact hs c hsib

/-- The splitter itself is the nearest. -/
theorem Answers.here (hsib : Sibling w key t s c) (hclose : Closest w mid t c q) :
    Answers w mid key t s (some q) :=
  ⟨s, c, .refl _, hsib, fun _ _ hu _ => hu, hclose⟩

/-- One branch of a splitter has the terminal. -/
theorem branch_unique (h : w.Wired) {b' : GuiBase} (hb : b ∈ w.child s) (hb' : b' ∈ w.child s)
    (ht : w.forest.Under b (.term t)) (ht' : w.forest.Under b' (.term t)) : b = b' := by
  by_contra hne
  exact h.linked.not_under_of_siblings h.ranked (p := .split s) hb hb' hne ht ht'

theorem mem_of_widgetAt {l : List GuiBase} {i : Int} (hc : widgetAt l i = some c) : c ∈ l := by
  unfold widgetAt at hc
  by_cases hi : i < 0
  · rw [if_pos hi] at hc
    cases hc
  · rw [if_neg hi] at hc
    exact List.mem_of_getElem? hc

variable (key) in
/-- The next widget is the next one on that side. -/
theorem nextTo_iff (hnodup : (w.widgets s).Nodup) (hb : b ∈ w.widgets s) :
    NextTo w key s b c ↔ widgetAt (w.widgets s)
      (((w.widgets s).idxOf b : Int) + if key = .up ∨ key = .left then -1 else 1) = some c := by
  have hlt := List.idxOf_lt_length_of_mem hb
  have hself : (w.widgets s)[(w.widgets s).idxOf b]? = some b := by
    rw [List.getElem?_eq_getElem hlt, List.getElem_idxOf hlt]
  have hat : ∀ i : Nat, (w.widgets s)[i]? = some b → i = (w.widgets s).idxOf b := fun i hi =>
    (List.getElem?_inj (List.getElem?_eq_some_iff.mp hi).1 hnodup).mp (hi.trans hself.symm)
  have hbefore : (∃ i : Nat, (w.widgets s)[i]? = some c ∧ (w.widgets s)[i + 1]? = some b) ↔
      widgetAt (w.widgets s) (((w.widgets s).idxOf b : Int) + -1) = some c := by
    unfold widgetAt
    constructor
    · rintro ⟨i, hc, hi⟩
      rw [← hat _ hi, if_neg (by omega)]
      have htoNat : (((i + 1 : Nat) : Int) + -1).toNat = i := by omega
      rw [htoNat, hc]
    · intro hc
      split_ifs at hc with hneg
      refine ⟨_, hc, ?_⟩
      have hsucc : (((w.widgets s).idxOf b : Int) + -1).toNat + 1 = (w.widgets s).idxOf b := by
        omega
      rw [hsucc, hself]
  have hafter : (∃ i : Nat, (w.widgets s)[i]? = some b ∧ (w.widgets s)[i + 1]? = some c) ↔
      widgetAt (w.widgets s) (((w.widgets s).idxOf b : Int) + 1) = some c := by
    unfold widgetAt
    rw [if_neg (by omega)]
    have htoNat : (((w.widgets s).idxOf b : Int) + 1).toNat = (w.widgets s).idxOf b + 1 := by omega
    rw [htoNat]
    constructor
    · rintro ⟨i, hi, hc⟩
      rw [← hat i hi, hc]
    · exact fun hc => ⟨_, hself, hc⟩
  cases key with
  | up => exact hbefore
  | left => exact hbefore
  | down => exact hafter
  | right => exact hafter

/-- The code's test for the wrong axis. -/
theorem wrong_axis_iff (o : Orientation) (key : ArrowKey) :
    (o = .horizontal ∧ (key = .down ∨ key = .up) ∨
      o = .vertical ∧ (key = .left ∨ key = .right)) ↔ o ≠ key.axis := by
  cases o <;> cases key <;> simp [ArrowKey.axis]

/-- A pane next to the branch has a closest terminal. -/
theorem exists_closest (h : w.Panes []) (hc : w.Hung (.split q))
    (hmid : ∀ u, manhattanLength (mid u) (mid t) < intMax) :
    ∃ u, (closest mid t (w.populateAllTerminals (.split q))).2 = some u ∧
      Closest w mid t (.split q) u := by
  obtain ⟨v, -, hv⟩ := h.exists_terminal ((h.placed _ (by simp)).mp hc)
  have hne := List.ne_nil_of_mem (h.mem_populateAllTerminals.mpr hv)
  obtain ⟨u, hu, heq, hmin⟩ := closest_spec hne hmid
  exact ⟨u, heq, h.mem_populateAllTerminals.mp hu, fun v hv =>
    hmin v (h.mem_populateAllTerminals.mpr hv)⟩

/-- **One search from a splitter upwards.**  `b` is the branch with the terminal. -/
theorem navigatePane_answers (h : w.Laid) (ha : w.AlternateLinks)
    (hmid : ∀ u, manhattanLength (mid u) (mid t) < intMax) {n : Nat} (splitind : Int)
    (hn : s < n) (hb : b ∈ w.child s) (ht : w.forest.Under b (.term t))
    (hind : b = .term t ∨ splitind = indexOf (w.widgets s) b) :
    ∃ r, navigatePane w mid key t n s splitind = some r ∧ Answers w mid key t s r := by
  have hwired := h.panes.toWired
  induction n generalizing s b splitind with
  | zero => omega
  | succ n ih =>
      rw [navigatePane]
      by_cases haxis : w.orientation s = key.axis
      · rw [if_neg fun hw => (wrong_axis_iff _ _).mp hw haxis]
        have hbw : b ∈ w.widgets s := hwired.shown s b hb
        -- the index is that of the branch
        have hindex : (if indexOf (w.widgets s) (.term t) = -1 then splitind
            else indexOf (w.widgets s) (.term t)) = (w.widgets s).idxOf b := by
          by_cases hbt : b = .term t
          · subst hbt
            rw [if_neg (indexOf_ne hbw), GuiMainWindow.indexOf_eq hbw]
          · have hnot : .term t ∉ w.widgets s := fun hm => hbt
              (branch_unique hwired hb ((h.displayed.term_mem hwired).mp hm) ht (.refl _))
            have hnone : indexOf (w.widgets s) (.term t) = -1 := if_neg hnot
            rw [if_pos hnone, hind.resolve_left hbt, GuiMainWindow.indexOf_eq hbw]
        simp only [hindex]
        rw [if_neg (by omega)]
        have hnext := fun c => nextTo_iff key (c := c) (h.displayed.nodup s) hbw
        generalize hwidget : widgetAt (w.widgets s) _ = x at hnext
        cases x with
        | none =>
            -- off the edge: there is no sibling here
            have hs : ∀ c, ¬ Sibling w key t s c := by
              rintro c ⟨-, b', hb', ht', hbeside⟩
              obtain rfl := branch_unique hwired hb hb' ht ht'
              simpa using (hnext c).mp hbeside
            cases hp : w.parentSplit (.split s) with
            | none => exact ⟨none, rfl, .root hwired hp hs⟩
            | some p =>
                have hps := hwired.parentSplit_iff.mp hp
                -- and none in the parent, which has the other axis
                have hp' : ∀ c, ¬ Sibling w key t p c := fun c hsib =>
                  ha p s hps (haxis.trans hsib.1.symm)
                cases hg : w.parentSplit (.split p) with
                | none => exact ⟨none, by simp only [hg], .skip hwired hp hs (.root hwired hg hp')⟩
                | some g =>
                    have hgp := hwired.parentSplit_iff.mp hg
                    have hlt := hwired.below p s hps
                    have hlt' := hwired.below g p hgp
                    have hst : w.forest.Under (.split s) (.term t) := .head hb ht
                    have htp : w.forest.Under (.split p) (.term t) := .head hps hst
                    obtain ⟨r, hr, hans⟩ := ih _ (by omega) hgp htp (.inr rfl)
                    exact ⟨r, by simpa only [hg] using hr,
                      .skip hwired hp hs (.skip hwired hg hp' hans)⟩
        | some c =>
            have hsib : Sibling w key t s c := ⟨haxis, b, hb, ht, (hnext c).mpr rfl⟩
            cases c with
            | term u =>
                refine ⟨some u, rfl, .here hsib ⟨.refl _, fun v hv => ?_⟩⟩
                rw [Forest.under_leaf rfl, GuiBase.term.injEq] at hv
                rw [hv]
            | split q =>
                have hc : GuiBase.split q ∈ w.child s :=
                  (h.displayed.mem hwired h.purged).mp (mem_of_widgetAt hwidget)
                obtain ⟨u, hu, hclose⟩ := exists_closest h.panes (.inr ⟨s, hc⟩) hmid
                exact ⟨some u, congrArg some hu, .here hsib hclose⟩
      · rw [if_pos ((wrong_axis_iff _ _).mpr haxis)]
        have hs : ∀ c, ¬ Sibling w key t s c := fun c hsib => haxis hsib.1
        cases hp : w.parentSplit (.split s) with
        | none => exact ⟨none, rfl, .root hwired hp hs⟩
        | some p =>
            have hps := hwired.parentSplit_iff.mp hp
            have hlt := hwired.below p s hps
            obtain ⟨r, hr, hans⟩ := ih _ (by omega) hps (.head hb ht) (.inr rfl)
            exact ⟨r, hr, .skip hwired hp hs hans⟩

/-- Every splitter above a terminal is above the parent of the terminal. -/
theorem Sibling.under (h : w.Wired) (hp : w.parentSplit (.term t) = some p)
    (hsib : Sibling w key t s c) : w.forest.Under (.split s) (.split p) := by
  obtain ⟨-, b, hb, ht, -⟩ := hsib
  have hst : w.forest.Under (.split s) (.term t) := .head hb ht
  rcases Relation.ReflTransGen.cases_tail hst with heq | ⟨x, hx, hc⟩
  · cases heq
  · cases x with
    | term u => simp at hc
    | split p' =>
        obtain rfl := h.parent_unique hc (h.parentSplit_iff.mp hp)
        exact hx

/-- **Directional navigation.**  The search from the parent of a terminal ends; it finds
nothing if and only if no splitter above has a sibling in this direction, and else a closest
terminal of the sibling in the nearest such splitter. -/
theorem navigatePane_spec (h : w.Laid) (ha : w.Alternates)
    (hmid : ∀ u, manhattanLength (mid u) (mid t) < intMax)
    (hp : w.parentSplit (.term t) = some p) (key : ArrowKey) :
    ∃ r, navigatePane w mid key t w.nextSplitter p (-1) = some r ∧
      (r = none ↔ ∀ s c, ¬ Sibling w key t s c) ∧
      ∀ u, r = some u → ∃ s c, Sibling w key t s c ∧
        (∀ s' c', Sibling w key t s' c' → w.forest.Under (.split s') (.split s)) ∧
        Closest w mid t c u := by
  have hwired := h.panes.toWired
  have htp := hwired.parentSplit_iff.mp hp
  obtain ⟨r, hr, hans⟩ := navigatePane_answers h (h.panes.alternates_iff.mp ha)
    hmid (-1) (hwired.lt_of_mem htp) htp (.refl _) (.inl rfl)
  refine ⟨r, hr, ?_, ?_⟩
  · cases r with
    | none => exact iff_of_true rfl fun s c hsib => hans s c (hsib.under hwired hp) hsib
    | some u =>
        obtain ⟨s, c, -, hsib, -⟩ := hans
        exact iff_of_false (by simp) fun hall => hall s c hsib
  · rintro u rfl
    obtain ⟨s, c, -, hsib, hnear, hclose⟩ := hans
    exact ⟨s, c, hsib, fun s' c' hsib' => hnear s' c' (hsib'.under hwired hp) hsib', hclose⟩

/-- Three panes: 0 on the left, and 1 above 2 on the right. -/
def threePanes : List PaneOp := [.openTab, .split 0 .right, .split 1 .down]

/-- Midpoints of three panes on a screen. -/
def threeMids (t : Nat) : QPoint :=
  if t = 0 then ⟨200, 500⟩ else if t = 1 then ⟨600, 100⟩ else ⟨600, 400⟩

/-- To the right of the pane 0 the lower pane is the closer one. -/
theorem navigatePane_spec_right :
    ∃ w, GuiMainWindow.init.run threePanes = some w ∧
      ∃ u s c, navigatePane w threeMids .right 0 w.nextSplitter 0 (-1) = some (some u) ∧
        Sibling w .right 0 s c ∧ Closest w threeMids 0 c u ∧ u = 2 := by
  obtain ⟨w, hw, hlaid⟩ := GuiMainWindow.laid_init.run threePanes
  have halt : w.Alternates := by
    obtain rfl : _ = w := Option.some.inj hw
    refine hlaid.panes.alternates_iff.mpr fun p s hs => ?_
    have hp : p < 2 := hlaid.panes.lt_of_mem hs
    have hs' : s < 2 := hlaid.panes.split_lt hs
    have hps := hlaid.panes.below p s hs
    obtain ⟨rfl, rfl⟩ : p = 0 ∧ s = 1 := by omega
    decide
  have hpar : w.parentSplit (.term 0) = some 0 := by
    obtain rfl : _ = w := Option.some.inj hw
    rfl
  have hmid : ∀ u, manhattanLength (threeMids u) (threeMids 0) < intMax := by
    intro u
    unfold threeMids
    split_ifs <;> decide
  obtain ⟨r, hr, -, hsome⟩ := navigatePane_spec hlaid halt hmid hpar .right
  have hr2 : r = some 2 := by
    obtain rfl : _ = w := Option.some.inj hw
    exact (Option.some.inj hr).symm
  obtain ⟨s, c, hsib, -, hclose⟩ := hsome 2 hr2
  exact ⟨w, hw, 2, s, c, by rw [hr, hr2], hsib, hclose, rfl⟩

end Search

end Navigation
end Qutty
