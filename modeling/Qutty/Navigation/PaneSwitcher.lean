import Qutty.Lib.Recency
import Qutty.Lib.OrderedMap
import Qutty.Pane.Operations

/-!
# Switching panes by their last use

`GuiPaneNavigation` puts the panes of the current tab into a map by their
`mru_count`, which `focusInEvent` takes from a counter of the main window, and starts
at the largest count.  `navigateToMRUPane` goes to the next larger count, and from the
largest one to the smallest: the first pane that it selects is the one that was used
least recently.  Panes with equal counts, such as those never focused, share an entry.

`switchesPanes_iff` says for which panes the cycle is the one by last use all the same.
The effects that highlight the selected pane are left out, and Ctrl is held down, so that
a press selects and does not accept.
-/

namespace Qutty
namespace Navigation

open Lib Pane

section Focus

/-- `mru_count` of the terminals, and `mru_count_last`. -/
structure Focus where
  mru_count : Nat → Nat
  mru_count_last : Nat

/-- Nothing has been focused. -/
def Focus.init : Focus := ⟨fun _ => 0, 0⟩

/-- `GuiTerminalWindow::focusInEvent`; the counters are `uint32_t`. -/
def focusInEvent (f : Focus) (t : Nat) : Focus :=
  let last := (f.mru_count_last + 1) % 2 ^ 32
  { mru_count := Function.update f.mru_count t last
    mru_count_last := last }

/-- The counters after the terminals of a history were focused, the latest one last. -/
def focusAll (history : List Nat) : Focus := history.foldl focusInEvent Focus.init

variable {history : List Nat} {s t : Nat}

theorem mru_count_last_focusAll (history : List Nat) :
    (focusAll history).mru_count_last = history.length % 2 ^ 32 := by
  induction history using List.reverseRecOn with
  | nil => rfl
  | append_singleton history t ih =>
      rw [focusAll, List.foldl_append, List.length_append]
      change ((focusAll history).mru_count_last + 1) % 2 ^ 32 = _
      rw [ih, Nat.mod_add_mod]
      rfl

/-- The count of a terminal tells when it was focused last. -/
theorem mru_count_focusAll (history : List Nat) (t : Nat) :
    (focusAll history).mru_count t =
      (history.length - history.reverse.idxOf t) % 2 ^ 32 := by
  induction history using List.reverseRecOn with
  | nil => rfl
  | append_singleton history u ih =>
      have hstep : focusAll (history ++ [u]) = focusInEvent (focusAll history) u := by
        rw [focusAll, List.foldl_append]
        rfl
      rw [hstep, focusInEvent, mru_count_last_focusAll, Nat.mod_add_mod, List.reverse_append,
        List.length_append, List.reverse_singleton, List.singleton_append, List.length_singleton]
      by_cases hu : t = u
      · subst hu
        simp
      · have hne : (u == t) = false := by simpa using Ne.symm hu
        have hidx : List.idxOf t (u :: history.reverse) = history.reverse.idxOf t + 1 := by
          rw [List.idxOf_cons, hne, cond_false]
        rw [hidx, Nat.add_sub_add_right]
        exact (Function.update_of_ne hu _ _).trans ih

/-- As long as the counter has not overflowed, the larger count is the later one. -/
theorem mru_count_lt_iff (h : history.length < 2 ^ 32) :
    (focusAll history).mru_count s < (focusAll history).mru_count t ↔
      UsedLater history.reverse t s := by
  have hs : history.reverse.idxOf s ≤ history.reverse.length := List.idxOf_le_length
  have ht : history.reverse.idxOf t ≤ history.reverse.length := List.idxOf_le_length
  rw [List.length_reverse] at hs ht
  rw [mru_count_focusAll, mru_count_focusAll, Nat.mod_eq_of_lt (by omega),
    Nat.mod_eq_of_lt (by omega), UsedLater]
  omega

end Focus

/-- `GuiPaneNavigation`. -/
structure GuiPaneNavigation where
  mrupanemap : OrderedMap Nat Nat
  curr_sel : Nat

namespace GuiPaneNavigation

/-- The loop that fills `mrupanemap`. -/
def fill (mru_count : Nat → Nat) (list : List Nat) : OrderedMap Nat Nat :=
  list.foldl (fun m t => m.insertNew (mru_count t) t) .empty

/-- The constructor.  `currentTerminal` is what `getCurrentTerminal` returns; a splitter
without a terminal does not occur. -/
def new (w : GuiMainWindow) (currentWidget : Option GuiBase) (mru_count : Nat → Nat)
    (is_direction_mode : Bool) (currentTerminal : Option Nat) : GuiPaneNavigation :=
  match currentWidget with
  | some (.split base) =>
      let m := fill mru_count (w.populateAllTerminals (.split base))
      let curr_sel := m.keys.getLast?.getD (2 ^ 32 - 1)
      { mrupanemap := m
        curr_sel := if is_direction_mode then
            match currentTerminal with
            | some term =>
                m.entries.foldl (fun sel e => if e.2 = term then e.1 else sel) curr_sel
            | none => curr_sel
          else curr_sel }
  | _ => { mrupanemap := .empty, curr_sel := 2 ^ 32 - 1 }

/-- `navigateToMRUPane`. -/
def navigateToMRUPane (nav : GuiPaneNavigation) (next : Bool) : GuiPaneNavigation :=
  if nav.mrupanemap.entries.length ≤ 1 then nav
  else if nav.mrupanemap.find nav.curr_sel = none then nav
  else
    let keys := nav.mrupanemap.keys
    let it := keys.idxOf nav.curr_sel
    let it :=
      if next then if it + 1 = keys.length then 0 else it + 1
      else (if it = 0 then keys.length else it) - 1
    { nav with curr_sel := keys.getD it nav.curr_sel }

/-- The pane that is selected; `acceptNavigation` gives it the focus. -/
def selected (nav : GuiPaneNavigation) : Option Nat := nav.mrupanemap.find nav.curr_sel

/-- The pane that is selected after some presses of "MRU pane" or of "LRU pane". -/
def selectedAfter (nav : GuiPaneNavigation) (next : Bool) (presses : Nat) : Option Nat :=
  ((fun nav => nav.navigateToMRUPane next)^[presses] nav).selected

/-- The panes are gone through in the order of their last use. -/
def SwitchesPanes (nav : GuiPaneNavigation) (panes history : List Nat) : Prop :=
  ∃ order : List Nat, order.Perm panes ∧
    order.Pairwise (fun p q => ¬ UsedLater history.reverse q p) ∧
    (∀ k, nav.selectedAfter true k = order[k % panes.length]?) ∧
    (∀ k, nav.selectedAfter false k =
      order[(panes.length - k % panes.length) % panes.length]?) ∧
    ∀ p ∈ panes, ∃ k ≤ panes.length, nav.selectedAfter true k = some p

/-- The panes in the order of their last use, taken from the second one on and then the
first one, have increasing counts. -/
def CountsRotate (panes history : List Nat) : Prop :=
  ∃ order : List Nat, order.Perm panes ∧
    order.Pairwise (fun p q => ¬ UsedLater history.reverse q p) ∧
    ((order.rotate 1).map (focusAll history).mru_count).Pairwise (· < ·)

section Cycle

variable {nav : GuiPaneNavigation} {i : Nat}

/-- The selected entry is the one at index `i`. -/
def At (nav : GuiPaneNavigation) (i : Nat) : Prop := nav.mrupanemap.keys[i]? = some nav.curr_sel

theorem At.selected (h : nav.At i) : nav.selected = nav.mrupanemap.values[i]? := by
  rw [At, OrderedMap.keys, List.getElem?_map, Option.map_eq_some_iff] at h
  obtain ⟨⟨key, v⟩, he, hkey⟩ := h
  have hkey' : key = nav.curr_sel := hkey
  rw [GuiPaneNavigation.selected, OrderedMap.values, List.getElem?_map, he, ← hkey']
  exact OrderedMap.mem_entries.mp (List.mem_of_getElem? he)

@[simp] theorem mrupanemap_navigateToMRUPane (next : Bool) :
    (nav.navigateToMRUPane next).mrupanemap = nav.mrupanemap := by
  unfold navigateToMRUPane
  split_ifs <;> rfl

/-- One press goes one entry up or down, around the ends. -/
theorem At.navigateToMRUPane (h : nav.At i) (next : Bool) :
    (nav.navigateToMRUPane next).At
      ((i + if next then 1 else nav.mrupanemap.keys.length - 1) %
        nav.mrupanemap.keys.length) := by
  obtain ⟨hlt, hi⟩ := List.getElem?_eq_some_iff.mp h
  have hlen : nav.mrupanemap.entries.length = nav.mrupanemap.keys.length := by
    rw [OrderedMap.keys, List.length_map]
  have hfind : nav.mrupanemap.find nav.curr_sel ≠ none := by
    have hmem := OrderedMap.mem_keys.mp (List.mem_of_getElem? h)
    exact Option.isSome_iff_ne_none.mp hmem
  have hidx : nav.mrupanemap.keys.idxOf nav.curr_sel = i := by
    rw [← hi]
    exact (OrderedMap.keys_nodup _).idxOf_getElem i hlt
  unfold GuiPaneNavigation.navigateToMRUPane
  by_cases hone : nav.mrupanemap.entries.length ≤ 1
  · -- the only entry
    have hkeys : nav.mrupanemap.keys.length = 1 := by omega
    have hi0 : i = 0 := by omega
    rw [if_pos hone, hkeys, Nat.mod_one, ← hi0]
    exact h
  · rw [if_neg hone, if_neg hfind]
    dsimp only
    rw [hidx]
    have hget : ∀ j, j < nav.mrupanemap.keys.length → At
        { nav with curr_sel := nav.mrupanemap.keys.getD j nav.curr_sel } j := by
      intro j hj
      rw [At, List.getD_eq_getElem?_getD, List.getElem?_eq_getElem hj, Option.getD_some]
    rw [hlen] at hone
    cases next with
    | true =>
        rw [if_pos rfl, if_pos rfl]
        by_cases hlast : i + 1 = nav.mrupanemap.keys.length
        · rw [if_pos hlast, hlast, Nat.mod_self]
          exact hget 0 (by omega)
        · rw [if_neg hlast, Nat.mod_eq_of_lt (by omega)]
          exact hget (i + 1) (by omega)
    | false =>
        simp only [Bool.false_eq_true, if_false]
        by_cases hfirst : i = 0
        · rw [if_pos hfirst, hfirst, Nat.zero_add, Nat.mod_eq_of_lt (by omega)]
          exact hget _ (by omega)
        · have hsub : i + (nav.mrupanemap.keys.length - 1) =
              i - 1 + nav.mrupanemap.keys.length := by omega
          rw [if_neg hfirst, hsub, Nat.add_mod_right, Nat.mod_eq_of_lt (by omega)]
          exact hget (i - 1) (by omega)

/-- Some presses. -/
theorem At.iterate (h : nav.At i) (next : Bool) (k : Nat) :
    ((fun nav : GuiPaneNavigation => nav.navigateToMRUPane next)^[k] nav).mrupanemap =
        nav.mrupanemap ∧
      ((fun nav : GuiPaneNavigation => nav.navigateToMRUPane next)^[k] nav).At
        ((i + k * if next then 1 else nav.mrupanemap.keys.length - 1) %
          nav.mrupanemap.keys.length) := by
  induction k with
  | zero =>
      have hlt := (List.getElem?_eq_some_iff.mp h).1
      refine ⟨rfl, ?_⟩
      rw [Nat.zero_mul, Nat.add_zero, Nat.mod_eq_of_lt hlt]
      exact h
  | succ k ih =>
      rw [Function.iterate_succ_apply']
      refine ⟨(mrupanemap_navigateToMRUPane next).trans ih.1, ?_⟩
      have hstep := ih.2.navigateToMRUPane next
      rw [ih.1, Nat.mod_add_mod, Nat.add_assoc, ← Nat.succ_mul] at hstep
      exact hstep

theorem At.selectedAfter (h : nav.At i) (next : Bool) (k : Nat) :
    nav.selectedAfter next k = nav.mrupanemap.values[
      (i + k * if next then 1 else nav.mrupanemap.keys.length - 1) %
        nav.mrupanemap.keys.length]? := by
  obtain ⟨hmap, hat⟩ := h.iterate next k
  rw [GuiPaneNavigation.selectedAfter, hat.selected, hmap]

end Cycle

section Filling

variable {mru_count : Nat → Nat} {list : List Nat} {k t : Nat}

/-- The first pane with a count has the entry. -/
theorem find_fill (mru_count : Nat → Nat) (list : List Nat) (k : Nat) :
    (fill mru_count list).find k = list.find? (fun t => mru_count t = k) := by
  have hfold : ∀ m : OrderedMap Nat Nat,
      (list.foldl (fun m t => m.insertNew (mru_count t) t) m).find k =
        (m.find k).or (list.find? (fun t => mru_count t = k)) := by
    induction list with
    | nil => simp
    | cons t list ih =>
        intro m
        rw [List.foldl_cons, ih, OrderedMap.find_insertNew, List.find?_cons]
        by_cases ht : mru_count t = k
        · simp [ht]
        · simp [ht]
  exact hfold .empty

theorem find_fill_eq_some (h : (fill mru_count list).find k = some t) :
    t ∈ list ∧ mru_count t = k := by
  rw [find_fill] at h
  exact ⟨List.mem_of_find?_eq_some h, by simpa using List.find?_some h⟩

theorem values_fill_nodup : (fill mru_count list).values.Nodup := by
  refine OrderedMap.values_nodup fun j k v hj hk => ?_
  rw [← (find_fill_eq_some hj).2, (find_fill_eq_some hk).2]

theorem mem_of_mem_values_fill (h : t ∈ (fill mru_count list).values) : t ∈ list := by
  obtain ⟨k, hk⟩ := OrderedMap.mem_values.mp h
  exact (find_fill_eq_some hk).1

variable (mru_count) in
theorem fill_ne_nil (h : list ≠ []) : (fill mru_count list).values ≠ [] := by
  obtain ⟨t, rest, rfl⟩ := List.exists_cons_of_ne_nil h
  have hfind : (fill mru_count (t :: rest)).find (mru_count t) = some t := by
    simp [find_fill]
  exact List.ne_nil_of_mem (OrderedMap.mem_values.mpr ⟨_, hfind⟩)

/-- Panes with increasing counts fill the map in this order. -/
theorem values_fill_eq {sorted : List Nat} (hperm : sorted.Perm list)
    (h : (sorted.map mru_count).Pairwise (· < ·)) : (fill mru_count list).values = sorted := by
  have hinj : ∀ s ∈ list, ∀ t ∈ list, mru_count s = mru_count t → s = t := by
    intro s hs t ht heq
    have hnodup : (sorted.map mru_count).Nodup := h.imp fun hlt => hlt.ne
    exact List.inj_on_of_nodup_map hnodup (hperm.mem_iff.mpr hs) (hperm.mem_iff.mpr ht) heq
  have hentries : (fill mru_count list).entries = sorted.map (fun t => (mru_count t, t)) := by
    have hsorted : (sorted.map (fun t => (mru_count t, t))).Pairwise (fun a b => a.1 < b.1) := by
      rw [List.pairwise_map] at h ⊢
      exact h
    have hmem : ∀ e, e ∈ (fill mru_count list).entries ↔
        e ∈ sorted.map (fun t => (mru_count t, t)) := by
      rintro ⟨k, t⟩
      rw [OrderedMap.mem_entries, List.mem_map]
      constructor
      · intro hk
        obtain ⟨ht, rfl⟩ := find_fill_eq_some hk
        exact ⟨t, hperm.mem_iff.mpr ht, rfl⟩
      · rintro ⟨u, hu, heq⟩
        obtain ⟨rfl, rfl⟩ := Prod.mk.inj heq
        have hu' := hperm.mem_iff.mp hu
        have hsome : ((fill mru_count list).find (mru_count u)).isSome := by
          rw [find_fill, List.find?_isSome]
          exact ⟨u, hu', by simp⟩
        obtain ⟨v, hv⟩ := Option.isSome_iff_exists.mp hsome
        obtain ⟨hvl, hvc⟩ := find_fill_eq_some hv
        rw [hv, hinj v hvl u hu' hvc]
    have hnodup : ∀ l : List (Nat × Nat), l.Pairwise (fun a b => a.1 < b.1) → l.Nodup :=
      fun l hl => hl.imp fun hlt heq => (heq ▸ hlt).ne rfl
    have hperm' := (List.perm_ext_iff_of_nodup (hnodup _ (OrderedMap.sorted _))
      (hnodup _ hsorted)).mpr hmem
    exact hperm'.eq_of_pairwise (fun a b _ _ hab hba => absurd hab hba.asymm)
      (OrderedMap.sorted _) hsorted
  rw [OrderedMap.values, hentries, List.map_map]
  exact List.map_id'' (fun _ => rfl) sorted

end Filling

section Switching

variable {w : GuiMainWindow} {s : Nat} {panes history : List Nat}

/-- The navigation that a press of "MRU pane" or "LRU pane" opens. -/
def opened (w : GuiMainWindow) (s : Nat) (history : List Nat) : GuiPaneNavigation :=
  new w (some (.split s)) (focusAll history).mru_count false none

variable (history) in
/-- It starts at the largest count. -/
theorem at_opened (hne : w.populateAllTerminals (.split s) ≠ []) :
    (opened w s history).At ((opened w s history).mrupanemap.keys.length - 1) := by
  have hkeys : (fill (focusAll history).mru_count (w.populateAllTerminals (.split s))).keys ≠
      [] := by
    have hvalues := fill_ne_nil (focusAll history).mru_count hne
    rw [OrderedMap.values, Ne, List.map_eq_nil_iff] at hvalues
    rwa [OrderedMap.keys, Ne, List.map_eq_nil_iff]
  obtain ⟨key, hkey⟩ := Option.ne_none_iff_exists'.mp
    (mt List.getLast?_eq_none_iff.mp hkeys)
  have hlast : (opened w s history).mrupanemap.keys.getLast? = some key := hkey
  have hsel : (opened w s history).curr_sel = key := by
    change (fill _ _).keys.getLast?.getD _ = key
    rw [hkey, Option.getD_some]
  rw [At, hsel, ← List.getLast?_eq_getElem?, hlast]

/-- The panes, from the largest count on. -/
def cycle (w : GuiMainWindow) (s : Nat) (history : List Nat) : List Nat :=
  let values := (opened w s history).mrupanemap.values
  values.rotate (values.length - 1)

theorem rotate_cycle : (cycle w s history).rotate 1 = (opened w s history).mrupanemap.values := by
  rw [cycle, List.rotate_rotate]
  cases h : (opened w s history).mrupanemap.values with
  | nil => rfl
  | cons t ts =>
      have hlen : (t :: ts).length - 1 + 1 = (t :: ts).length := rfl
      rw [hlen, List.rotate_length]

theorem length_keys_opened :
    (opened w s history).mrupanemap.keys.length = (cycle w s history).length := by
  rw [cycle, List.length_rotate, OrderedMap.keys, OrderedMap.values, List.length_map,
    List.length_map]

theorem getElem?_cycle {k : Nat} (hk : k < (cycle w s history).length) :
    (cycle w s history)[k]? = (opened w s history).mrupanemap.values[
      (k + ((cycle w s history).length - 1)) % (cycle w s history).length]? := by
  have hlen : (cycle w s history).length = (opened w s history).mrupanemap.values.length :=
    List.length_rotate ..
  rw [hlen] at hk ⊢
  rw [cycle, List.getElem?_rotate hk]

variable (history) in
/-- The panes that presses select. -/
theorem selectedAfter_opened (hne : w.populateAllTerminals (.split s) ≠ []) (k : Nat) :
    (opened w s history).selectedAfter true k =
        (cycle w s history)[k % (cycle w s history).length]? ∧
      (opened w s history).selectedAfter false k = (cycle w s history)[
        ((cycle w s history).length - k % (cycle w s history).length) %
          (cycle w s history).length]? := by
  have hat := at_opened history hne
  have hpos : 0 < (cycle w s history).length := by
    rw [← length_keys_opened]
    have hlt := (List.getElem?_eq_some_iff.mp hat).1
    omega
  rw [hat.selectedAfter, hat.selectedAfter, length_keys_opened,
    getElem?_cycle (Nat.mod_lt _ hpos), getElem?_cycle (Nat.mod_lt _ hpos)]
  generalize (cycle w s history).length = n at hpos ⊢
  have hk := Nat.mod_lt k hpos
  constructor
  · rw [if_pos rfl, Nat.mul_one, Nat.mod_add_mod, Nat.add_comm]
  · simp only [Bool.false_eq_true, if_false]
    congr 1
    rw [Nat.mod_add_mod]
    -- both are `-(k + 1)` modulo `n`
    refine Nat.ModEq.add_right_cancel' (k + 1) ?_
    have hleft : n - 1 + k * (n - 1) + (k + 1) = (k + 1) * n := by
      obtain ⟨m, rfl⟩ := Nat.exists_eq_succ_of_ne_zero hpos.ne'
      simp only [Nat.succ_eq_add_one, Nat.add_sub_cancel]
      ring
    have hright : n - k % n + (n - 1) + (k + 1) = (k / n + 2) * n := by
      have hdiv := Nat.div_add_mod k n
      have hmul : (k / n + 2) * n = n * (k / n) + 2 * n := by ring
      omega
    rw [hleft, hright]
    simp [Nat.ModEq]

/-- What the presses go through is the order by last use if and only if the counts are
increasing from the second pane on around to the first one. -/
theorem switchesPanes_iff_countsRotate (hnodup : (w.populateAllTerminals (.split s)).Nodup)
    (hne : w.populateAllTerminals (.split s) ≠ []) :
    SwitchesPanes (opened w s history) (w.populateAllTerminals (.split s)) history ↔
      CountsRotate (w.populateAllTerminals (.split s)) history := by
  have hvalues : (opened w s history).mrupanemap.values =
      (fill (focusAll history).mru_count (w.populateAllTerminals (.split s))).values := rfl
  have hcycle : (cycle w s history).Perm (opened w s history).mrupanemap.values :=
    List.rotate_perm ..
  constructor
  · rintro ⟨order, hperm, hrecent, hmru, -, -⟩
    have hpanes : 0 < (w.populateAllTerminals (.split s)).length := List.length_pos_of_ne_nil hne
    -- every pane is selected some time, so that all panes have an entry
    have hsub : order ⊆ cycle w s history := by
      intro p hp
      obtain ⟨k, hk, rfl⟩ := List.getElem_of_mem hp
      have hsel := (selectedAfter_opened history hne k).1.symm.trans (hmru k)
      rw [← hperm.length_eq, Nat.mod_eq_of_lt hk, List.getElem?_eq_getElem hk] at hsel
      exact List.mem_of_getElem? hsel
    have hsub' : cycle w s history ⊆ order := by
      intro p hp
      have hmem := hcycle.mem_iff.mp hp
      rw [hvalues] at hmem
      exact hperm.mem_iff.mpr (mem_of_mem_values_fill hmem)
    have hlen : order.length = (cycle w s history).length := by
      have hnodupCycle : (cycle w s history).Nodup :=
        hcycle.nodup_iff.mpr (hvalues ▸ values_fill_nodup)
      exact Nat.le_antisymm ((hperm.nodup_iff.mpr hnodup).subperm hsub).length_le
        (hnodupCycle.subperm hsub').length_le
    have horder : order = cycle w s history := by
      refine List.ext_getElem? fun k => ?_
      by_cases hk : k < order.length
      · have hsel := (selectedAfter_opened history hne k).1.symm.trans (hmru k)
        rw [← hlen, ← hperm.length_eq, Nat.mod_eq_of_lt hk] at hsel
        exact hsel.symm
      · rw [List.getElem?_eq_none (by omega), List.getElem?_eq_none (by omega)]
    refine ⟨order, hperm, hrecent, ?_⟩
    rw [horder, rotate_cycle, hvalues, List.pairwise_map]
    have hentries := (fill (focusAll history).mru_count
      (w.populateAllTerminals (.split s))).sorted
    rw [OrderedMap.values, List.pairwise_map]
    refine hentries.imp_of_mem fun {a b} ha hb hab => ?_
    rwa [(find_fill_eq_some (OrderedMap.mem_entries.mp ha)).2,
      (find_fill_eq_some (OrderedMap.mem_entries.mp hb)).2]
  · rintro ⟨order, hperm, hrecent, hcounts⟩
    have hrot := values_fill_eq ((order.rotate_perm 1).trans hperm) hcounts
    have horder : cycle w s history = order := by
      have hinj : (cycle w s history).rotate 1 = order.rotate 1 := rotate_cycle.trans hrot
      exact List.rotate_injective 1 hinj
    have hlen : (cycle w s history).length = (w.populateAllTerminals (.split s)).length := by
      rw [horder, hperm.length_eq]
    have hsel := selectedAfter_opened history hne
    rw [hlen, horder] at hsel
    refine ⟨order, hperm, hrecent, fun k => (hsel k).1, fun k => (hsel k).2, fun p hp => ?_⟩
    obtain ⟨k, hk, rfl⟩ := List.getElem_of_mem (hperm.mem_iff.mpr hp)
    have hk' := hperm.length_eq ▸ hk
    refine ⟨k, hk'.le, ?_⟩
    rw [(hsel k).1, Nat.mod_eq_of_lt hk', List.getElem?_eq_getElem hk]

/-- As long as the counter has not overflowed, these are the tabs with one pane, and those
with two of which one has been focused. -/
theorem countsRotate_iff (hne : panes ≠ []) (hnodup : panes.Nodup)
    (hlen : history.length < 2 ^ 32) :
    CountsRotate panes history ↔
      panes.length = 1 ∨ panes.length = 2 ∧ ∃ p ∈ panes, p ∈ history := by
  constructor
  · rintro ⟨order, hperm, hrecent, hcounts⟩
    rw [← hperm.length_eq]
    match order with
    | [] => exact absurd hperm.nil_eq.symm hne
    | [p] => exact .inl rfl
    | [p, q] =>
        have hlt : (focusAll history).mru_count q < (focusAll history).mru_count p := by
          simpa [List.rotate] using hcounts
        refine .inr ⟨rfl, p, hperm.mem_iff.mp (by simp), ?_⟩
        by_contra hp
        have hidx := (mru_count_lt_iff hlen).mp hlt
        have hp' : p ∉ history.reverse := by simpa using hp
        rw [UsedLater, List.idxOf_eq_length_iff.mpr hp'] at hidx
        exact absurd hidx (not_lt.mpr List.idxOf_le_length)
    | p :: q :: r :: rest =>
        -- the third pane would have to be used later than the second one
        have hlt : (focusAll history).mru_count q < (focusAll history).mru_count r := by
          rw [List.rotate_cons_succ, List.rotate_zero] at hcounts
          simp only [List.cons_append, List.map_cons, List.pairwise_cons] at hcounts
          exact hcounts.1 _ (by simp)
        have hnot : ¬ UsedLater history.reverse r q := by
          simp only [List.pairwise_cons] at hrecent
          exact hrecent.2.1 r (by simp)
        exact absurd ((mru_count_lt_iff hlen).mp hlt) hnot
  · rintro (hone | ⟨htwo, p, hp, hph⟩)
    · obtain ⟨p, rfl⟩ := List.length_eq_one_iff.mp hone
      exact ⟨[p], .refl _, by simp, by simp⟩
    · obtain ⟨a, b, rfl⟩ := List.length_eq_two.mp htwo
      have hab : a ≠ b := by simpa using hnodup
      -- one of the two has been used later
      have hidx : history.reverse.idxOf a ≠ history.reverse.idxOf b := by
        intro heq
        have hmem : ∀ {x y}, x ∈ history → history.reverse.idxOf x = history.reverse.idxOf y →
            x = y := fun hx hxy => (List.idxOf_inj (by simpa using hx)).mp hxy
        rcases List.mem_pair.mp hp with rfl | rfl
        · exact hab (hmem hph heq)
        · exact hab (hmem hph heq.symm).symm
      rcases lt_or_gt_of_ne hidx with hlt | hlt
      · refine ⟨[a, b], .refl _, ?_, ?_⟩
        · simpa [UsedLater] using hlt.le
        · simpa [List.rotate] using (mru_count_lt_iff hlen).mpr hlt
      · refine ⟨[b, a], .swap a b [], ?_, ?_⟩
        · simpa [UsedLater] using hlt.le
        · simpa [List.rotate] using (mru_count_lt_iff hlen).mpr hlt

/-- The panes of a split tab are distinct, and there are some. -/
theorem panes_of_tab (h : w.Panes []) (hs : .split s ∈ w.tabs) :
    (w.populateAllTerminals (.split s)).Nodup ∧ w.populateAllTerminals (.split s) ≠ [] := by
  obtain ⟨t, -, hu⟩ := h.exists_terminal (h.live_of_mem_tabs hs)
  exact ⟨h.nodup_populateAllTerminals _, List.ne_nil_of_mem (h.mem_populateAllTerminals.mpr hu)⟩

/-- **For which panes the cycle is the one by last use.** -/
theorem switchesPanes_iff (w : GuiMainWindow) (s : Nat) (history : List Nat)
    (hnodup : (w.populateAllTerminals (.split s)).Nodup)
    (hne : w.populateAllTerminals (.split s) ≠ []) :
    (SwitchesPanes (opened w s history) (w.populateAllTerminals (.split s)) history ↔
      CountsRotate (w.populateAllTerminals (.split s)) history) ∧
    (history.length < 2 ^ 32 →
      (SwitchesPanes (opened w s history) (w.populateAllTerminals (.split s)) history ↔
        (w.populateAllTerminals (.split s)).length = 1 ∨
        (w.populateAllTerminals (.split s)).length = 2 ∧
          ∃ p ∈ w.populateAllTerminals (.split s), p ∈ history)) :=
  ⟨switchesPanes_iff_countsRotate hnodup hne, fun hlen =>
    (switchesPanes_iff_countsRotate hnodup hne).trans (countsRotate_iff hne hnodup hlen)⟩

/-- Two panes that have been focused. -/
theorem switchesPanes_two :
    ∃ w, GuiMainWindow.init.run [.openTab, .split 0 .right] = some w ∧
      SwitchesPanes (opened w 0 [0, 1]) (w.populateAllTerminals (.split 0)) [0, 1] := by
  refine ⟨_, (Option.some_get (by decide)).symm, ?_⟩
  exact ((switchesPanes_iff _ 0 [0, 1] (by decide) (by decide)).2 (by decide)).mpr
    (.inr (by decide))

/-- Three panes that have been focused, one after the other: the first press selects the one
that was focused first. -/
theorem not_switchesPanes_three :
    ∃ w, GuiMainWindow.init.run [.openTab, .split 0 .right, .split 1 .right] = some w ∧
      .split 0 ∈ w.tabs ∧
      ¬ SwitchesPanes (opened w 0 [0, 1, 2]) (w.populateAllTerminals (.split 0)) [0, 1, 2] := by
  refine ⟨_, (Option.some_get (by decide)).symm, by decide, ?_⟩
  rw [switchesPanes_iff_countsRotate (by decide) (by decide),
    countsRotate_iff (by decide) (by decide) (by decide)]
  decide

end Switching

end GuiPaneNavigation

end Navigation
end Qutty
