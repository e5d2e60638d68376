import Qutty.Lib.Substitution
import Qutty.Pane.Operations

/-!
# The visual order of the panes

What the user sees is the order of the widgets of each `QSplitter`; the `child` vectors
know the same panes in another order.  `visualOrder` reads the terminals of a pane by the
widgets, and `Displayed` says that the widgets of a splitter are its children, and
besides splitters that wait for `deleteLater` and show nothing.

Removing a terminal and putting one beside another replace one widget by some others
(`LeavingView`, `JoiningView`), and `populate_replace` says what such a replacement does
to the terminals.
-/

namespace Qutty
namespace Pane

open Lib

section Populate

variable {f f' : Nat → List GuiBase} {N n m s : Nat}

/-- Splitters inside others are younger, and there are none from `N` on. -/
structure Descends (f : Nat → List GuiBase) (N : Nat) : Prop where
  below : ∀ s s', .split s' ∈ f s → s < s' ∧ s' < N
  fresh : ∀ s, N ≤ s → f s = []

/-- Enough depth is enough. -/
theorem populate_depth (h : Descends f N) (hn : N ≤ s + n) (hm : N ≤ s + m) :
    GuiMainWindow.populate f n (.split s) = GuiMainWindow.populate f m (.split s) := by
  induction n generalizing m s with
  | zero =>
      have hnil := h.fresh s hn
      cases m with
      | zero => rfl
      | succ m => simp [GuiMainWindow.populate, hnil]
  | succ n ih =>
      cases m with
      | zero => simp [GuiMainWindow.populate, h.fresh s hm]
      | succ m =>
          rw [GuiMainWindow.populate, GuiMainWindow.populate]
          refine List.flatMap_congr fun c hc => ?_
          cases c with
          | term t => simp [GuiMainWindow.populate]
          | split s' =>
              have hlt := (h.below s s' hc).1
              exact ih (by omega) (by omega)

theorem populate_term (f : Nat → List GuiBase) (n t : Nat) :
    GuiMainWindow.populate f n (.term t) = [t] := by
  cases n <;> rfl

theorem populate_split (h : Descends f N) (s : Nat) :
    GuiMainWindow.populate f N (.split s) = (f s).flatMap (GuiMainWindow.populate f N) := by
  cases N with
  | zero => simp [GuiMainWindow.populate, h.fresh s (Nat.zero_le s)]
  | succ n =>
      rw [GuiMainWindow.populate]
      refine List.flatMap_congr fun c hc => ?_
      cases c with
      | term t => rw [populate_term, populate_term]
      | split s' =>
          have hlt := (h.below s s' hc).1
          exact populate_depth h (by omega) (by omega)

/-- **Replacing panes.**  `τ` says which panes come in the place of a pane, and `σ` which
terminals in the place of a terminal; `read` reads the terminals afterwards. -/
theorem populate_replace (h : Descends f N) (σ : Nat → List Nat) (τ : GuiBase → List GuiBase)
    (read : GuiBase → List Nat) (hterm : ∀ t, (τ (.term t)).flatMap read = σ t)
    (hsplit : ∀ s, s < N →
      (∀ c ∈ f s, (τ c).flatMap read = (GuiMainWindow.populate f N c).flatMap σ) →
      (τ (.split s)).flatMap read = ((f s).flatMap (GuiMainWindow.populate f N)).flatMap σ)
    (b : GuiBase) (hb : ∀ s, b = .split s → s < N) :
    (τ b).flatMap read = (GuiMainWindow.populate f N b).flatMap σ := by
  cases b with
  | term t => simp [populate_term, hterm]
  | split s =>
      have hs := hb s rfl
      clear hb
      -- the deeper splitters first
      induction hd : N - s using Nat.strong_induction_on generalizing s with
      | _ d ih =>
          rw [populate_split h]
          refine hsplit s hs fun c hc => ?_
          cases c with
          | term t => simp [populate_term, hterm]
          | split s' =>
              obtain ⟨hlt, hlt'⟩ := h.below s s' hc
              exact ih (N - s') (by omega) s' hlt' rfl

/-- A splitter whose widgets are all replaced. -/
theorem flatMap_replace {σ : Nat → List Nat} {τ : GuiBase → List GuiBase}
    {read old : GuiBase → List Nat} {l l' : List GuiBase} (hl : l' = l.flatMap τ)
    (hc : ∀ c ∈ l, (τ c).flatMap read = (old c).flatMap σ) :
    l'.flatMap read = (l.flatMap old).flatMap σ := by
  rw [hl, List.flatMap_assoc, List.flatMap_assoc]
  exact List.flatMap_congr hc

end Populate

namespace GuiMainWindow

/-- The terminals of a pane, from left to right and from top to bottom. -/
def visualOrder (w : GuiMainWindow) (b : GuiBase) : List Nat :=
  populate w.widgets w.nextSplitter b

/-- The tabs, each in visual order. -/
def screen (w : GuiMainWindow) : List (List Nat) := w.tabs.map w.visualOrder

/-- The widgets of a splitter are its children, and closed splitters. -/
structure Displayed (w : GuiMainWindow) : Prop where
  nodup : ∀ s, (w.widgets s).Nodup
  known : ∀ s, ∀ b ∈ w.widgets s, b ∈ w.child s ∨ ∃ d ∈ w.dying, b = .split d ∧ s < d
  closed : ∀ d ∈ w.dying, w.widgets d = []
  fresh : ∀ s, w.nextSplitter ≤ s → w.widgets s = []

section Displayed

variable {w w' : GuiMainWindow} {s t n p q : Nat} {b : GuiBase}

theorem Displayed.descends (hd : w.Displayed) (h : w.Wired)
    (hdead : ∀ s ∈ w.dying, s < w.nextSplitter) : Descends w.widgets w.nextSplitter where
  below s s' hs := by
    rcases hd.known s _ hs with hc | ⟨d, hd, heq, hlt⟩
    · exact ⟨h.below s s' hc, h.split_lt hc⟩
    · cases heq
      exact ⟨hlt, hdead _ hd⟩
  fresh := hd.fresh

theorem visualOrder_term (w : GuiMainWindow) (t : Nat) : w.visualOrder (.term t) = [t] :=
  populate_term ..

/-- A terminal is shown where it is a child. -/
theorem Displayed.term_mem (hd : w.Displayed) (h : w.Wired) :
    .term t ∈ w.widgets s ↔ .term t ∈ w.child s := by
  refine ⟨fun hm => ?_, h.shown s _⟩
  rcases hd.known s _ hm with hc | ⟨d, -, heq, -⟩
  · exact hc
  · cases heq

/-- Without closed splitters a pane is shown where it is a child. -/
theorem Displayed.mem (hd : w.Displayed) (h : w.Wired) (hdy : w.dying = []) :
    b ∈ w.widgets s ↔ b ∈ w.child s := by
  refine ⟨fun hm => ?_, h.shown s _⟩
  rcases hd.known s _ hm with hc | ⟨d, hd', -⟩
  · exact hc
  · simp [hdy] at hd'

theorem indexOf_eq {l : List GuiBase} (hb : b ∈ l) : indexOf l b = l.idxOf b := if_pos hb

theorem insertAt_idxOf {l : List GuiBase} {x : GuiBase} {k : Nat} (hk : k ≤ l.length) :
    insertAt k x l = l.insertIdx k x := by
  unfold insertAt
  rw [if_neg (by omega), Int.toNat_natCast]

end Displayed

section Leaving

variable {w w' : GuiMainWindow} {s t g q : Nat} {b : GuiBase}

/-- The panes after a terminal has left a splitter: the splitter stays, or it is closed and
its last pane `b` takes its place. -/
inductive LeavingView (w : GuiMainWindow) (s t : Nat) (w' : GuiMainWindow) : Prop where
  | stay
      (widgets : ∀ q, w'.widgets q = (w.widgets q).flatMap (subst (.term t) []))
      (child : ∀ q x, x ∈ w'.child q ↔ x ∈ w.child q ∧ x ≠ .term t)
      (tabs : w'.tabs = w.tabs)
      (dying : w'.dying = w.dying)
  | collapse (b : GuiBase)
      (hs : (w.child s).erase (.term t) = [b])
      (gone : w'.widgets s = [])
      (widgets : ∀ q, q ≠ s →
        w'.widgets q = (w.widgets q).flatMap (subst (.split s) [b, .split s]))
      (child : ∀ q x, x ∈ w'.child q ↔
        q ≠ s ∧ (x ∈ w.child q ∧ x ≠ .split s ∨ .split s ∈ w.child q ∧ x = b))
      (tabs : w'.tabs = w.tabs.map (fun r => if r = .split s then b else r))
      (dying : w'.dying = s :: w.dying)

@[simp] theorem widgets_removed (w : GuiMainWindow) (s : Nat) (b : GuiBase) (q : Nat) :
    (w.removed s b).widgets q = (w.widgets q).erase b :=
  widgets_leaveParent (w.detach s b) b q

@[simp] theorem widgets_tabInsert (w : GuiMainWindow) (i : Int) (b : GuiBase) (q : Nat) :
    (w.tabInsert i b).widgets q = (w.widgets q).erase b :=
  widgets_leaveParent w b q

theorem set_eq_map {l : List GuiBase} {i : Nat} {x : GuiBase} (hl : l.Nodup)
    (hi : l[i]? = some x) : l.set i b = l.map (fun r => if r = x then b else r) := by
  refine List.ext_getElem (by simp) fun j hj hj' => ?_
  rw [List.getElem_set, List.getElem_map]
  have hlt : j < l.length := by simpa using hj
  have hij : l[j] = x ↔ i = j := by
    rw [← Option.some_inj, ← List.getElem?_eq_getElem hlt, ← hi]
    exact ⟨fun heq => ((List.getElem?_inj hlt hl).mp heq).symm, fun heq => heq ▸ rfl⟩
  by_cases hj : i = j
  · rw [if_pos hj, if_pos (hij.mpr hj)]
  · rw [if_neg hj, if_neg (fun heq => hj (hij.mp heq))]

/-- The widgets after the last pane of a splitter has left it. -/
theorem widgets_collapse (h : w.Wired) (hb : b ∈ w.child s) (hw' : w.collapse s b = some w') :
    (∀ g, w.parentSplit (.split s) = some g → ∀ q, w'.widgets q =
      if q = g then insertAt (indexOf ((w.widgets g).erase b) (.split s)) b
        (((w.widgets g).erase b).erase b)
      else ((w.widgets q).erase b).erase b) ∧
    (w.parentSplit (.split s) = none → ∀ q, w'.widgets q = ((w.widgets q).erase b).erase b) := by
  have hbs : b ≠ .split s := h.ne_of_mem hb
  have hparent : (w.removed s b).parentSplit (.split s) = w.parentSplit (.split s) := by
    rw [parentSplit_removed, Function.update_of_ne hbs.symm]
  unfold collapse at hw'
  rw [removeBaseWidget_eq h.child_nodup hb] at hw'
  simp only [Option.bind_eq_bind, Option.bind_some] at hw'
  constructor
  · intro g hg q
    rw [hparent, hg] at hw'
    obtain ⟨rest, -, hw'⟩ := Option.bind_eq_some_iff.mp hw'
    cases hw'
    refine (widgets_addBaseWidget (s := g) (b := b)
      (i := indexOf ((w.removed s b).widgets g) (.split s)) q).trans ?_
    simp
  · intro hg q
    rw [hparent, hg] at hw'
    cases hw'
    refine (widgets_tabInsert _ ((w.removed s b).getTerminalTabInd (.split s)) b q).trans ?_
    simp

/-- What the two panes of a splitter show. -/
theorem Displayed.mem_two (hd : w.Displayed) (h : w.Wired) (hdy : w.dying = [])
    (ht : .term t ∈ w.child s) (hs : (w.child s).erase (.term t) = [b]) {x : GuiBase} :
    x ∈ w.widgets s ↔ x = .term t ∨ x = b := by
  rw [hd.mem h hdy]
  exact (mem_iff_of_erase_eq_singleton h.child_nodup ht hs).2 x

/-- The view of `removeSplitLayout`. -/
theorem Displayed.leaving (hd : w.Displayed) (h : w.Wired) (hdy : w.dying = [])
    (ht : .term t ∈ w.child s) (hw' : w.removeSplitLayout s t = some w')
    (hl : Leaving w s t w') : LeavingView w s t w' := by
  have hother : ∀ {x : GuiBase} {q : Nat}, x ∈ w.child s → q ≠ s → x ∉ w.widgets q := by
    intro x q hx hq hm
    exact hq (h.parent_unique ((hd.mem h hdy).mp hm) hx)
  have hchild : (w.removed s (.term t)).child s = (w.child s).erase (.term t) := by
    rw [child_removed, Function.update_self]
  unfold GuiMainWindow.removeSplitLayout at hw'
  rw [removeBaseWidget_eq h.child_nodup ht] at hw'
  simp only [Option.bind_eq_bind, Option.bind_some, hchild] at hw'
  -- the splitter that is left with one pane loses that one too
  have hgone : ∀ {b : GuiBase}, (w.child s).erase (.term t) = [b] →
      ((((w.removed s (.term t)).widgets s).erase b).erase b) = [] := by
    intro b hs
    rw [widgets_removed, List.eq_nil_iff_forall_not_mem]
    intro x hx
    have hx₁ := (((hd.nodup s).erase _).erase _).mem_erase_iff.mp hx
    have hx₂ := ((hd.nodup s).erase _).mem_erase_iff.mp hx₁.2
    have hx₃ := (hd.nodup s).mem_erase_iff.mp hx₂.2
    rcases (hd.mem_two h hdy ht hs).mp hx₃.2 with rfl | rfl
    · exact hx₃.1 rfl
    · exact hx₁.1 rfl
  cases hl with
  | stay hlen child tabs objects caches =>
      refine .stay (fun q => ?_) (fun q x => h.mem_stay ht child) tabs
        (congrArg Objects.dying objects)
      have heq : w' = w.removed s (.term t) := by
        split at hw'
        · rename_i b hs
          simp [hs] at hlen
        · exact (Option.some.inj hw').symm
      rw [heq, widgets_removed, flatMap_subst_erase (hd.nodup q)]
  | hoist b g hs hg child tabs objects caches =>
      rw [hs] at hw'
      obtain ⟨-, hmem⟩ := mem_iff_of_erase_eq_singleton h.child_nodup ht hs
      have hb : b ∈ w.child s := (hmem b).mpr (.inr rfl)
      have hgs := (h.below g s hg).ne
      have hpar : (w.removed s (.term t)).parentSplit (.split s) = some g := by
        rw [parentSplit_removed, Function.update_of_ne (by simp)]
        exact h.parentSplit_iff.mpr hg
      have hb' : b ∈ (w.removed s (.term t)).child s := by
        rw [hchild, hs]
        exact List.mem_cons_self
      have hview := (widgets_collapse (h.removed ht) hb' hw').1 g hpar
      have hsame : ∀ q, q ≠ s → ((w.removed s (.term t)).widgets q).erase b = w.widgets q := by
        intro q hq
        rw [widgets_removed, List.erase_of_not_mem (hother ht hq),
          List.erase_of_not_mem (hother hb hq)]
      refine .collapse b hs ?_ (fun q hq => ?_) (fun q x => ?_) ?_ (congrArg Objects.dying objects)
      · rw [hview, if_neg hgs.symm, hgone hs]
      · rw [hview, hsame q hq]
        by_cases hqg : q = g
        · subst hqg
          have hsm : .split s ∈ w.widgets q := h.shown q _ hg
          rw [if_pos rfl, hsame q hq, List.erase_of_not_mem (hother hb hq), indexOf_eq hsm,
            insertAt_idxOf List.idxOf_le_length, flatMap_subst_before (hd.nodup q) hsm]
        · have hsm : .split s ∉ w.widgets q := by
            intro hm
            exact hqg (h.parent_unique ((hd.mem h hdy).mp hm) hg)
          rw [if_neg hqg, List.erase_of_not_mem (hother hb hq), flatMap_subst_of_not_mem hsm]
      · rw [h.mem_hoist hg child]
        constructor
        · rintro (⟨rfl, rfl⟩ | ⟨hq, hx, hne⟩)
          · exact ⟨hgs, .inr ⟨hg, rfl⟩⟩
          · exact ⟨hq, .inl ⟨hx, hne⟩⟩
        · rintro ⟨hq, ⟨hx, hne⟩ | ⟨hq', rfl⟩⟩
          · exact .inr ⟨hq, hx, hne⟩
          · exact .inl ⟨h.parent_unique hq' hg, rfl⟩
      · rw [tabs]
        refine (List.map_id w.tabs).symm.trans (List.map_congr_left fun r hr => ?_)
        have hne : r ≠ .split s := fun heq => h.not_mem_tabs hg (heq ▸ hr)
        exact (if_neg hne).symm
  | surface b i hs hi child tabs objects caches =>
      rw [hs] at hw'
      obtain ⟨-, hmem⟩ := mem_iff_of_erase_eq_singleton h.child_nodup ht hs
      have hb : b ∈ w.child s := (hmem b).mpr (.inr rfl)
      have hroot : .split s ∈ w.tabs := List.mem_of_getElem? hi
      have hpar : (w.removed s (.term t)).parentSplit (.split s) = none := by
        rw [parentSplit_removed, Function.update_of_ne (by simp)]
        exact h.roots _ hroot
      have hb' : b ∈ (w.removed s (.term t)).child s := by
        rw [hchild, hs]
        exact List.mem_cons_self
      have hview := (widgets_collapse (h.removed ht) hb' hw').2 hpar
      refine .collapse b hs ?_ (fun q hq => ?_) (fun q x => ?_) ?_ (congrArg Objects.dying objects)
      · rw [hview, hgone hs]
      · have hsm : .split s ∉ w.widgets q := fun hm =>
          h.roots_not_mem hroot q ((hd.mem h hdy).mp hm)
        rw [hview, widgets_removed, List.erase_of_not_mem (hother ht hq),
          List.erase_of_not_mem (hother hb hq), List.erase_of_not_mem (hother hb hq),
          flatMap_subst_of_not_mem hsm]
      · have hno := h.roots_not_mem hroot q
        rw [mem_surface child]
        constructor
        · rintro ⟨hq, hx⟩
          exact ⟨hq, .inl ⟨hx, fun heq => hno (heq ▸ hx)⟩⟩
        · rintro ⟨hq, ⟨hx, -⟩ | ⟨hq', -⟩⟩
          · exact ⟨hq, hx⟩
          · exact absurd hq' hno
      · rw [tabs, set_eq_map h.tabsNodup hi]

/-- What is shown after a terminal has left is what is there. -/
theorem LeavingView.displayed (hv : LeavingView w s t w') (hd : w.Displayed) (h : w.Wired)
    (hdy : w.dying = []) (ht : .term t ∈ w.child s) (hnext : w'.nextSplitter = w.nextSplitter) :
    w'.Displayed := by
  cases hv with
  | stay widgets child tabs dying =>
      have hmem : ∀ q x, x ∈ w'.widgets q ↔ x ∈ w.widgets q ∧ x ≠ .term t := by
        intro q x
        rw [widgets, flatMap_subst_nil, List.mem_filter]
        simp
      refine ⟨fun q => ?_, fun q x hx => ?_, fun d hd' => ?_, fun q hq => ?_⟩
      · rw [widgets, flatMap_subst_nil]
        exact (hd.nodup q).filter _
      · obtain ⟨hx, hne⟩ := (hmem q x).mp hx
        exact .inl ((child q x).mpr ⟨(hd.mem h hdy).mp hx, hne⟩)
      · simp [dying, hdy] at hd'
      · rw [widgets, hd.fresh q (hnext ▸ hq)]
        rfl
  | collapse b hs gone widgets child tabs dying =>
      obtain ⟨-, hpair⟩ := mem_iff_of_erase_eq_singleton h.child_nodup ht hs
      have hb : b ∈ w.child s := (hpair b).mpr (.inr rfl)
      have hbs : b ≠ .split s := h.ne_of_mem hb
      have hbq : ∀ q, q ≠ s → b ∉ w.widgets q := fun q hq hm =>
        hq (h.parent_unique ((hd.mem h hdy).mp hm) hb)
      refine ⟨fun q => ?_, fun q x hx => ?_, fun d hd' => ?_, fun q hq => ?_⟩
      · by_cases hq : q = s
        · rw [hq, gone]
          exact List.nodup_nil
        · rw [widgets q hq]
          by_cases hsm : .split s ∈ w.widgets q
          · rw [flatMap_subst_before (hd.nodup q) hsm]
            exact (List.perm_insertIdx b _ List.idxOf_le_length).nodup_iff.mpr
              (List.nodup_cons.mpr ⟨hbq q hq, hd.nodup q⟩)
          · rw [flatMap_subst_of_not_mem hsm]
            exact hd.nodup q
      · by_cases hq : q = s
        · simp [hq, gone] at hx
        · rw [widgets q hq, List.mem_flatMap] at hx
          obtain ⟨c, hc, hx⟩ := hx
          have hcc := (hd.mem h hdy).mp hc
          by_cases hcs : c = .split s
          · subst hcs
            rw [subst_self] at hx
            rcases List.mem_pair.mp hx with rfl | rfl
            · exact .inl ((child q x).mpr ⟨hq, .inr ⟨hcc, rfl⟩⟩)
            · exact .inr ⟨s, by simp [dying], rfl, h.below q s hcc⟩
          · rw [subst_of_ne hcs, List.mem_singleton] at hx
            subst hx
            exact .inl ((child q x).mpr ⟨hq, .inl ⟨hcc, hcs⟩⟩)
      · rw [dying, hdy, List.mem_singleton] at hd'
        rw [hd', gone]
      · by_cases hqs : q = s
        · rw [hqs, gone]
        · rw [widgets q hqs, hd.fresh q (hnext ▸ hq)]
          rfl

/-- **A terminal that leaves its splitter is taken from the visual order, and nothing
else.** -/
theorem LeavingView.screen (hv : LeavingView w s t w') (hd : w.Displayed) (h : w.Wired)
    (hdy : w.dying = []) (ht : .term t ∈ w.child s) (hw' : w'.Wired)
    (hnext : w'.nextSplitter = w.nextSplitter) :
    w'.screen = w.screen.map (fun l => l.filter (fun u => u ≠ t)) := by
  have hd' := hv.displayed hd h hdy ht hnext
  have hsN : s < w.nextSplitter := h.lt_of_mem ht
  have hdesc := hd.descends h (by simp [hdy])
  have hdesc' : Descends w'.widgets w'.nextSplitter := by
    refine hd'.descends hw' fun d hd'' => ?_
    cases hv with
    | stay widgets child tabs dying => simp [dying, hdy] at hd''
    | collapse b hs gone widgets child tabs dying =>
        rw [dying, hdy, List.mem_singleton] at hd''
        rw [hd'', hnext]
        exact hsN
  have hroot : ∀ r ∈ w.tabs, r ≠ .term t ∧ ∀ q, r = .split q → q < w.nextSplitter := by
    intro r hr
    refine ⟨fun heq => h.not_mem_tabs ht (heq ▸ hr), ?_⟩
    rintro q rfl
    by_contra hq
    exact (h.fresh q (by omega)).2.2 hr
  have hread : ∀ q, w'.visualOrder (.split q) = (w'.widgets q).flatMap w'.visualOrder :=
    fun q => populate_split hdesc' q
  cases hv with
  | stay widgets child tabs dying =>
      have hrep : ∀ r ∈ w.tabs, w'.visualOrder r = (w.visualOrder r).filter (fun u => u ≠ t) := by
        intro r hr
        obtain ⟨hrt, hlt⟩ := hroot r hr
        have hall := populate_replace hdesc (subst t []) (subst (.term t) []) w'.visualOrder
          ?_ ?_ r hlt
        · rw [subst_of_ne hrt, List.flatMap_singleton, flatMap_subst_nil] at hall
          exact hall
        · intro u
          by_cases hu : u = t
          · simp [hu]
          · rw [subst_of_ne (by simpa using hu), subst_of_ne hu, List.flatMap_singleton,
              visualOrder_term]
        · intro q _ hc
          rw [subst_of_ne (by simp), List.flatMap_singleton, hread]
          exact flatMap_replace (widgets q) hc
      rw [GuiMainWindow.screen, GuiMainWindow.screen, tabs, List.map_map]
      exact List.map_congr_left hrep
  | collapse b hs gone widgets child tabs dying =>
      obtain ⟨hbt, hpair⟩ := mem_iff_of_erase_eq_singleton h.child_nodup ht hs
      have hb : b ∈ w.child s := (hpair b).mpr (.inr rfl)
      have hbs : b ≠ .split s := h.ne_of_mem hb
      have hclosed : w'.visualOrder (.split s) = [] := by
        rw [hread, gone]
        rfl
      -- the last pane comes in the place of the splitter, and `t` in the place of nothing
      have hrep : ∀ r ∈ w.tabs, w'.visualOrder (if r = .split s then b else r) =
          (w.visualOrder r).filter (fun u => u ≠ t) := by
        intro r hr
        obtain ⟨hrt, hlt⟩ := hroot r hr
        have hall := populate_replace hdesc (subst t [])
          (fun x => if x = .term t then [] else subst (.split s) [b, .split s] x)
          w'.visualOrder ?_ ?_ r hlt
        · rw [if_neg hrt, flatMap_subst_nil] at hall
          refine Eq.trans ?_ hall
          by_cases hrs : r = .split s
          · simp [hrs, hclosed]
          · rw [if_neg hrs, subst_of_ne hrs, List.flatMap_singleton]
        · intro u
          by_cases hu : u = t
          · simp [hu]
          · rw [if_neg (by simpa using hu), subst_of_ne (by simp), subst_of_ne hu,
              List.flatMap_singleton, visualOrder_term]
        · intro q _ hc
          rw [if_neg (by simp)]
          by_cases hq : q = s
          · subst hq
            have hbw : b ∈ w.widgets q := (hd.mem_two h hdy ht hs).mpr (.inr rfl)
            have honly : ∀ c ∈ w.widgets q, c ≠ b →
                (populate w.widgets w.nextSplitter c).flatMap (subst t []) = [] := by
              intro c hcm hcb
              obtain rfl := ((hd.mem_two h hdy ht hs).mp hcm).resolve_right hcb
              simp [populate_term]
            have hone := hc b hbw
            rw [if_neg hbt, subst_of_ne hbs, List.flatMap_singleton] at hone
            rw [subst_self, List.flatMap_assoc, flatMap_eq_of_unique (hd.nodup q) hbw honly, ← hone]
            simp [hclosed]
          · rw [subst_of_ne (by simpa using hq), List.flatMap_singleton, hread]
            refine flatMap_replace (l := w.widgets q) ?_ hc
            rw [widgets q hq]
            refine List.flatMap_congr fun c hcm => ?_
            have hct : c ≠ .term t := by
              rintro rfl
              exact hq (h.parent_unique ((hd.mem h hdy).mp hcm) ht)
            rw [if_neg hct]
      rw [GuiMainWindow.screen, GuiMainWindow.screen, tabs, List.map_map, List.map_map]
      exact List.map_congr_left hrep

end Leaving

/-- Two terminals, the old one first or last. -/
def beside (split : SplitType) (t n : Nat) : List Nat :=
  if split.oldFirst then [t, n] else [n, t]

section Joining

variable {w w' : GuiMainWindow} {s t n p q : Nat} {split : SplitType}

/-- The panes after a terminal `n` has been put beside a terminal `t`: in the splitter of `t`,
or in a new splitter that takes the place of `t`. -/
inductive JoiningView (w : GuiMainWindow) (t : Nat) (split : SplitType) (n : Nat)
    (w' : GuiMainWindow) : Prop where
  | beside (p : Nat) (hp : .term t ∈ w.child p) (ho : orientOf split = w.orientation p)
      (widgets : ∀ q, w'.widgets q = (w.widgets q).flatMap (subst (.term t) (pair split t n)))
      (child : ∀ q x, x ∈ w'.child q ↔ x ∈ w.child q ∨ q = p ∧ x = .term n)
      (next : w'.nextSplitter = w.nextSplitter)
      (orientation : w'.orientation = w.orientation)
      (dying : w'.dying = w.dying)
      (tabs : w'.tabs = w.tabs.erase (.term n))
  | split
      (widgets : ∀ q, q ≠ w.nextSplitter →
        w'.widgets q = (w.widgets q).flatMap (subst (.term t) [.split w.nextSplitter]))
      (new : w'.widgets w.nextSplitter = pair split t n)
      (child : ∀ q x, x ∈ w'.child q ↔ x ∈ w.child q ∧ x ≠ .term t ∨
        .term t ∈ w.child q ∧ x = .split w.nextSplitter ∨
        q = w.nextSplitter ∧ (x = .term t ∨ x = .term n))
      (next : w'.nextSplitter = w.nextSplitter + 1)
      (orientation : w'.orientation w.nextSplitter = orientOf split)
      (dying : w'.dying = w.dying)
      (tabs : .term t ∉ w.tabs ∧ w'.tabs = w.tabs.erase (.term n) ∨
        ∃ i : Nat, w.tabs[i]? = some (.term t) ∧ w'.tabs =
          insertAt i (.split w.nextSplitter) ((w.tabs.erase (.term t)).erase (.term n)))

theorem insertAt_zero (x : GuiBase) (l : List GuiBase) : insertAt 0 x l = x :: l := by
  have hzero := insertAt_idxOf (x := x) (Nat.zero_le l.length)
  exact hzero.trans List.insertIdx_zero

variable (split) in
/-- Two terminals that are shown nowhere come into an empty splitter. -/
theorem widgets_addPair (hs : w.widgets s = []) (ht : ∀ q, .term t ∉ w.widgets q)
    (hn : ∀ q, .term n ∉ w.widgets q) (htn : t ≠ n) (q : Nat) :
    (w.addPair s split t n).widgets q = if q = s then pair split t n else w.widgets q := by
  have htwo : ∀ a b : Nat, a ≠ b → (∀ q, .term a ∉ w.widgets q) → (∀ q, .term b ∉ w.widgets q) →
      ((w.addBaseWidget s 0 (.term a)).addBaseWidget s 1 (.term b)).widgets q =
        if q = s then [.term a, .term b] else w.widgets q := by
    intro a b hab ha hb
    have hne : GuiBase.term b ≠ .term a := by simpa using hab.symm
    rw [widgets_addBaseWidget, widgets_addBaseWidget, widgets_addBaseWidget, if_pos rfl, hs]
    by_cases hq : q = s
    · rw [if_pos hq, if_pos hq]
      have hone : insertAt 0 (.term a) ([] : List GuiBase) = [.term a] := insertAt_zero _ _
      rw [List.erase_nil, hone, List.erase_of_not_mem (by simpa using hne)]
      rfl
    · rw [if_neg hq, if_neg hq, if_neg hq, List.erase_of_not_mem (ha q),
        List.erase_of_not_mem (hb q)]
  unfold addPair pair
  cases split.oldFirst with
  | true => exact htwo t n htn ht hn
  | false => exact htwo n t htn.symm hn ht

theorem widgets_newSplitter (hd : w.Displayed) (orient : Orientation) (q : Nat) :
    (w.newSplitter orient).widgets q = w.widgets q := by
  have hnil := hd.fresh w.nextSplitter le_rfl
  simp only [newSplitter]
  rw [← hnil, Function.update_eq_self]

/-- A new splitter is shown nowhere yet. -/
theorem Displayed.new_not_mem (hd : w.Displayed) (h : w.Wired)
    (hdead : ∀ s ∈ w.dying, s < w.nextSplitter) : .split w.nextSplitter ∉ w.widgets q := by
  intro hm
  exact lt_irrefl _ ((hd.descends h hdead).below q _ hm).2

/-- The view of `createSplitLayout`. -/
theorem Displayed.joining (hd : w.Displayed) (h : w.Wired)
    (hdead : ∀ s ∈ w.dying, s < w.nextSplitter) (hn : w.parentSplit (.term n) = none)
    (htn : t ≠ n) (hw' : w.createSplitLayout t split n = some w')
    (hj : Joining w t split n w') : JoiningView w t split n w' := by
  have hnw : ∀ q, .term n ∉ w.widgets q := fun q hm =>
    h.not_mem_child hn ((hd.term_mem h).mp hm)
  have hNw : ∀ q, .split w.nextSplitter ∉ w.widgets q := fun q => hd.new_not_mem h hdead
  have hfresh := h.fresh w.nextSplitter le_rfl
  cases hj with
  | top i hi child tabs objects caches =>
      have hroot : .term t ∈ w.tabs := List.mem_of_getElem? hi
      have hp := h.roots _ hroot
      have htc : ∀ q, .term t ∉ w.child q := fun q => h.not_mem_child hp
      have htw : ∀ q, .term t ∉ w.widgets q := fun q hm => htc q ((hd.term_mem h).mp hm)
      unfold GuiMainWindow.createSplitLayout at hw'
      rw [hp] at hw'
      simp only [h.cache i _ hi, nextSplitter_eq (objects_tabRemove w i)] at hw'
      cases hw'
      have hnew : ∀ q, ((w.tabRemove i).newSplitter (orientOf split)).widgets q =
          w.widgets q := by
        intro q
        change Function.update (w.tabRemove i).widgets (w.tabRemove i).nextSplitter [] q = _
        rw [nextSplitter_eq (objects_tabRemove w i), Function.update_apply]
        split_ifs with hq
        · rw [hq, hd.fresh _ le_rfl]
        · exact congrFun (widgets_tabRemove w i) q
      have hpair := widgets_addPair split (w := (w.tabRemove i).newSplitter (orientOf split))
        (s := w.nextSplitter) (t := t) (n := n)
        (by rw [hnew, hd.fresh _ le_rfl]) (fun q => by rw [hnew]; exact htw q)
        (fun q => by rw [hnew]; exact hnw q) htn
      have hview : ∀ q, ((((w.tabRemove i).newSplitter (orientOf split)).addPair
          w.nextSplitter split t n).tabInsert i (.split w.nextSplitter)).widgets q =
          if q = w.nextSplitter then pair split t n else w.widgets q := by
        intro q
        rw [widgets_tabInsert, hpair, hnew]
        split_ifs with hq
        · refine List.erase_of_not_mem fun hm => ?_
          rcases mem_pair.mp hm with hm | hm <;> cases hm
        · exact List.erase_of_not_mem (hNw q)
      refine .split (fun q hq => ?_) ?_ (fun q x => ?_) (nextSplitter_withSplitter objects) ?_
        (congrArg Objects.dying objects) (.inr ⟨i, hi, tabs⟩)
      · rw [hview, if_neg hq, flatMap_subst_of_not_mem (htw q)]
      · rw [hview, if_pos rfl]
      · rw [child, Function.update_apply]
        split_ifs with hq
        · rw [hq, hfresh.1, mem_pair]
          simp
        · have hne : x ∈ w.child q → x ≠ .term t := by
            rintro hx rfl
            exact htc q hx
          simp only [htc q, hq, false_and, or_false]
          tauto
      · rw [orientation_withSplitter objects, if_pos rfl]
  | nest p hp ho child tabs objects caches cached stale =>
      have htt : .term t ∉ w.tabs := h.not_mem_tabs hp
      have hps := h.lt_of_mem hp
      have htp : .term t ∈ w.widgets p := h.shown p _ hp
      have hother : ∀ q, q ≠ p → .term t ∉ w.widgets q := fun q hq hm =>
        hq (h.parent_unique ((hd.term_mem h).mp hm) hp)
      obtain ⟨hw₁, hc₁, -⟩ :=
        h.newSplitterIn hps (orientOf split) (indexOf (w.widgets p) (.term t))
      have htp₁ : .term t ∈ (w.newSplitterIn (orientOf split) p
          (indexOf (w.widgets p) (.term t))).child p := by simp [hc₁, hp]
      unfold GuiMainWindow.createSplitLayout splitterCreateSplitLayout at hw'
      rw [h.parentSplit_iff.mpr hp] at hw'
      simp only [if_neg (indexOf_ne htp), if_pos ho, removeBaseWidget_eq hw₁.child_nodup htp₁,
        Option.bind_eq_bind, Option.bind_some] at hw'
      cases hw'
      have hin : ∀ q, ((w.newSplitterIn (orientOf split) p (indexOf (w.widgets p) (.term t))).removed
          p (.term t)).widgets q =
          (w.widgets q).flatMap (subst (.term t) [.split w.nextSplitter]) := by
        intro q
        rw [widgets_removed, newSplitterIn, widgets_addBaseWidget, widgets_newSplitter hd,
          widgets_newSplitter hd, List.erase_of_not_mem (hNw p), List.erase_of_not_mem (hNw q)]
        split_ifs with hq
        · subst hq
          rw [indexOf_eq htp, insertAt_idxOf List.idxOf_le_length,
            flatMap_subst_singleton (hd.nodup q) htp (by simp)]
        · rw [List.erase_of_not_mem (hother q hq), flatMap_subst_of_not_mem (hother q hq)]
      have hmem : ∀ {q u}, .term u ∈
          (w.widgets q).flatMap (subst (.term t) [.split w.nextSplitter]) →
          u ≠ t ∧ .term u ∈ w.widgets q := by
        intro q u hu
        obtain ⟨c, hc, hu⟩ := List.mem_flatMap.mp hu
        by_cases hct : c = .term t
        · simp [hct] at hu
        · rw [subst_of_ne hct, List.mem_singleton] at hu
          subst hu
          exact ⟨by simpa using hct, hc⟩
      have hpair := widgets_addPair split (w := (w.newSplitterIn (orientOf split) p
        (indexOf (w.widgets p) (.term t))).removed p (.term t)) (s := w.nextSplitter)
        (t := t) (n := n)
        (by rw [hin, hd.fresh _ le_rfl]; rfl) (fun q hq => by rw [hin] at hq; exact (hmem hq).1 rfl)
        (fun q hq => by rw [hin] at hq; exact hnw q (hmem hq).2) htn
      refine .split (fun q hq => ?_) ?_ (fun q x => ?_) (nextSplitter_withSplitter objects) ?_
        (congrArg Objects.dying objects) (.inl ⟨htt, tabs⟩)
      · rw [hpair, if_neg hq, hin]
      · rw [hpair, if_pos rfl]
      · rw [h.mem_nest hp child]
        have hqp : .term t ∈ w.child q ↔ q = p :=
          ⟨fun hq => h.parent_unique hq hp, fun hq => hq ▸ hp⟩
        rw [hqp]
      · rw [orientation_withSplitter objects, if_pos rfl]
  | beside p hp ho child tabs objects caches cached =>
      have htp : .term t ∈ w.widgets p := h.shown p _ hp
      have hother : ∀ q, q ≠ p → .term t ∉ w.widgets q := fun q hq hm =>
        hq (h.parent_unique ((hd.term_mem h).mp hm) hp)
      refine .beside p hp ho (fun q => ?_) (fun q x => mem_beside child)
        (nextSplitter_eq objects) (orientation_eq objects) (congrArg Objects.dying objects) tabs
      unfold GuiMainWindow.createSplitLayout splitterCreateSplitLayout at hw'
      rw [h.parentSplit_iff.mpr hp] at hw'
      simp only [if_neg (indexOf_ne htp), if_neg (not_not.mpr ho)] at hw'
      unfold pair
      split_ifs at hw' ⊢ with hold
      · cases hw'
        rw [widgets_addBaseWidget, List.erase_of_not_mem (hnw p), List.erase_of_not_mem (hnw q)]
        split_ifs with hq
        · subst hq
          have hlt := List.idxOf_lt_length_of_mem htp
          have hins := insertAt_idxOf (x := .term n) (Nat.succ_le_of_lt hlt)
          rw [indexOf_eq htp, flatMap_subst_after (hd.nodup q) htp]
          exact hins
        · rw [flatMap_subst_of_not_mem (hother q hq)]
      · cases hw'
        rw [widgets_addBaseWidget, List.erase_of_not_mem (hnw p), List.erase_of_not_mem (hnw q)]
        split_ifs with hq
        · subst hq
          rw [indexOf_eq htp, insertAt_idxOf List.idxOf_le_length,
            flatMap_subst_before (hd.nodup q) htp]
        · rw [flatMap_subst_of_not_mem (hother q hq)]

variable (split t n) in
theorem flatMap_pair {read : GuiBase → List Nat} (hread : ∀ u, read (.term u) = [u]) :
    (pair split t n).flatMap read = beside split t n := by
  unfold pair GuiMainWindow.beside
  split_ifs <;> simp [hread]

/-- What is shown after a terminal has come in is what is there. -/
theorem JoiningView.displayed (hv : JoiningView w t split n w') (hd : w.Displayed) (h : w.Wired)
    (hdead : ∀ s ∈ w.dying, s < w.nextSplitter) (hn : w.parentSplit (.term n) = none)
    (htn : t ≠ n) : w'.Displayed := by
  have hnw : ∀ q, .term n ∉ w.widgets q := fun q hm =>
    h.not_mem_child hn ((hd.term_mem h).mp hm)
  have hNw : ∀ q, .split w.nextSplitter ∉ w.widgets q := fun q => hd.new_not_mem h hdead
  have hpair : (pair split t n).Nodup := by
    unfold pair
    split_ifs
    · simpa using htn
    · simpa using htn.symm
  cases hv with
  | beside p hp ho widgets child next orientation dying tabs =>
      have hother : ∀ q, q ≠ p → .term t ∉ w.widgets q := fun q hq hm =>
        hq (h.parent_unique ((hd.term_mem h).mp hm) hp)
      have hmem : ∀ q x, x ∈ w'.widgets q ↔ x ∈ w.widgets q ∨ q = p ∧ x = .term n := by
        intro q x
        rw [widgets]
        by_cases hq : q = p
        · subst hq
          obtain ⟨pre, post, hsplit, hpre, hpost, -⟩ := exists_split (hd.nodup q) (h.shown q _ hp)
          rw [hsplit, flatMap_subst_append hpre hpost]
          simp only [List.mem_append, mem_pair, List.mem_cons, true_and]
          tauto
        · rw [flatMap_subst_of_not_mem (hother q hq)]
          simp [hq]
      refine ⟨fun q => ?_, fun q x hx => ?_, fun d hd' => ?_, fun q hq => ?_⟩
      · rw [widgets]
        by_cases hq : q = p
        · subst hq
          have htp := h.shown q _ hp
          unfold pair
          split_ifs
          · have hlt := List.idxOf_lt_length_of_mem htp
            rw [flatMap_subst_after (hd.nodup q) htp]
            exact (List.perm_insertIdx _ _ (by omega)).nodup_iff.mpr
              (List.nodup_cons.mpr ⟨hnw q, hd.nodup q⟩)
          · rw [flatMap_subst_before (hd.nodup q) htp]
            exact (List.perm_insertIdx _ _ List.idxOf_le_length).nodup_iff.mpr
              (List.nodup_cons.mpr ⟨hnw q, hd.nodup q⟩)
        · rw [flatMap_subst_of_not_mem (hother q hq)]
          exact hd.nodup q
      · rw [dying]
        rcases (hmem q x).mp hx with hx | hx
        · exact (hd.known q x hx).imp (fun hc => (child q x).mpr (.inl hc)) id
        · exact .inl ((child q x).mpr (.inr hx))
      · rw [dying] at hd'
        rw [widgets, hd.closed d hd']
        rfl
      · rw [widgets, hd.fresh q (next ▸ hq)]
        rfl
  | split widgets new child next orientation dying tabs =>
      have hmem : ∀ q, q ≠ w.nextSplitter → ∀ x ∈ w'.widgets q,
          x ∈ w.widgets q ∧ x ≠ .term t ∨ .term t ∈ w.widgets q ∧ x = .split w.nextSplitter := by
        intro q hq x hx
        rw [widgets q hq, List.mem_flatMap] at hx
        obtain ⟨c, hc, hx⟩ := hx
        by_cases hct : c = .term t
        · subst hct
          rw [subst_self, List.mem_singleton] at hx
          exact .inr ⟨hc, hx⟩
        · rw [subst_of_ne hct, List.mem_singleton] at hx
          exact .inl ⟨hx ▸ hc, hx ▸ hct⟩
      refine ⟨fun q => ?_, fun q x hx => ?_, fun d hd' => ?_, fun q hq => ?_⟩
      · by_cases hq : q = w.nextSplitter
        · rw [hq, new]
          exact hpair
        · rw [widgets q hq]
          by_cases htp : .term t ∈ w.widgets q
          · rw [flatMap_subst_singleton (hd.nodup q) htp (by simp)]
            exact ((List.perm_insertIdx _ _ List.idxOf_le_length).nodup_iff.mpr
              (List.nodup_cons.mpr ⟨hNw q, hd.nodup q⟩)).erase _
          · rw [flatMap_subst_of_not_mem htp]
            exact hd.nodup q
      · rw [dying]
        by_cases hq : q = w.nextSplitter
        · rw [hq, new] at hx
          exact .inl ((child q x).mpr (.inr (.inr ⟨hq, mem_pair.mp hx⟩)))
        · rcases hmem q hq x hx with ⟨hx, hne⟩ | ⟨ht, rfl⟩
          · exact (hd.known q x hx).imp (fun hc => (child q x).mpr (.inl ⟨hc, hne⟩)) id
          · exact .inl ((child q _).mpr (.inr (.inl ⟨(hd.term_mem h).mp ht, rfl⟩)))
      · rw [dying] at hd'
        rw [widgets d (hdead d hd').ne, hd.closed d hd']
        rfl
      · rw [next] at hq
        rw [widgets q (by omega), hd.fresh q (by omega)]
        rfl

theorem JoiningView.descends (hv : JoiningView w t split n w') (hd' : w'.Displayed)
    (hdead : ∀ s ∈ w.dying, s < w.nextSplitter) (hw' : w'.Wired) :
    Descends w'.widgets w'.nextSplitter := by
  refine hd'.descends hw' fun d hdd => ?_
  cases hv with
  | beside p hp ho widgets child next orientation dying tabs =>
      rw [next]
      exact hdead d (dying ▸ hdd)
  | split widgets new child next orientation dying tabs =>
      rw [next]
      exact Nat.lt_succ_of_lt (hdead d (dying ▸ hdd))

/-- **A terminal that comes in stands beside the other one in the visual order, and nothing
else changes.** -/
theorem JoiningView.read (hv : JoiningView w t split n w') (hd : w.Displayed) (h : w.Wired)
    (hdead : ∀ s ∈ w.dying, s < w.nextSplitter) (hn : w.parentSplit (.term n) = none)
    (htn : t ≠ n) (hw' : w'.Wired) {r : GuiBase} (hr : ∀ q, r = .split q → q < w.nextSplitter)
    (hrt : r ≠ .term t) :
    w'.visualOrder r = (w.visualOrder r).flatMap (subst t (GuiMainWindow.beside split t n)) := by
  have hd' := hv.displayed hd h hdead hn htn
  have hdesc := hd.descends h hdead
  have hdesc' := hv.descends hd' hdead hw'
  have hread : ∀ q, w'.visualOrder (.split q) = (w'.widgets q).flatMap w'.visualOrder :=
    fun q => populate_split hdesc' q
  have hpair := flatMap_pair t n split (visualOrder_term w')
  cases hv with
  | beside p hp ho widgets child next orientation dying tabs =>
      have hall := populate_replace hdesc (subst t (GuiMainWindow.beside split t n))
        (subst (.term t) (pair split t n)) w'.visualOrder ?_ ?_ r hr
      · rw [subst_of_ne hrt, List.flatMap_singleton] at hall
        exact hall
      · intro u
        by_cases hu : u = t
        · rw [hu, subst_self, subst_self, hpair]
        · rw [subst_of_ne (by simpa using hu), subst_of_ne hu, List.flatMap_singleton,
            visualOrder_term]
      · intro q _ hc
        rw [subst_of_ne (by simp), List.flatMap_singleton, hread]
        exact flatMap_replace (widgets q) hc
  | split widgets new child next orientation dying tabs =>
      have hall := populate_replace hdesc (subst t (GuiMainWindow.beside split t n))
        (subst (.term t) [.split w.nextSplitter]) w'.visualOrder ?_ ?_ r hr
      · rw [subst_of_ne hrt, List.flatMap_singleton] at hall
        exact hall
      · intro u
        by_cases hu : u = t
        · rw [hu, subst_self, subst_self, List.flatMap_singleton, hread, new, hpair]
        · rw [subst_of_ne (by simpa using hu), subst_of_ne hu, List.flatMap_singleton,
            visualOrder_term]
      · intro q hq hc
        rw [subst_of_ne (by simp), List.flatMap_singleton, hread]
        exact flatMap_replace (widgets q hq.ne) hc

end Joining

end GuiMainWindow

end Pane
end Qutty
