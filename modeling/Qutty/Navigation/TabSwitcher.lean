import Qutty.Navigation.MainWindow

/-!
# The list of tabs by their last use

`GuiTabNavigation` goes through all open terminals and takes the largest `mru_count` for
each tab index that it finds, and lists the indices by descending counts.  A hidden
terminal is open, and its index is -1, so that the list has a row for a tab that does not
exist.  `always_listsTabs_iff` says that nothing else goes wrong as long as the tab indices
are right.  The texts of the rows and the geometry of the list are left out.
-/

namespace Qutty
namespace Navigation

open Lib Pane Tmux

namespace GuiTabNavigation

/-- The first loop of the constructor: the largest count for each index. -/
def fillMrumap (tabInd : Nat → Int) (mru_count : Nat → Nat) (termlist : List Nat) :
    OrderedMap Int Nat :=
  termlist.foldl (fun mrumap term =>
    let tabid := tabInd term
    match mrumap.find tabid with
    | none => mrumap.insert tabid (mru_count term)
    | some count => mrumap.insert tabid (max count (mru_count term))) .empty

/-- The second loop: the indices by their counts. -/
def fillMrumaptab (mrumap : OrderedMap Int Nat) : List (Nat × Int) :=
  mrumap.entries.foldl (fun mrumaptab e => multiInsert e.2 e.1 mrumaptab) []

/-- The tab indices of the rows, from the top. -/
def rows (w : GuiMainWindow) (mru_count : Nat → Nat) : List Int :=
  let mrumap :=
    fillMrumap (fun t => w.getTerminalTabInd (.term t)) mru_count w.terminalList
  (fillMrumaptab mrumap).reverse.map Prod.snd

/-- The largest count of a terminal in a tab. -/
def tabMru (w : GuiMainWindow) (mru_count : Nat → Nat) (i : Int) : Nat :=
  match w.tabs[i.toNat]? with
  | some r => ((w.populateAllTerminals r).map mru_count).foldr max 0
  | none => 0

/-- There is one row for every tab and no other, and they are in the order of the largest
counts. -/
def ListsTabs (w : GuiMainWindow) (mru_count : Nat → Nat) : Prop :=
  (rows w mru_count).Perm ((List.range w.tabs.length).map Int.ofNat) ∧
    (rows w mru_count).Pairwise (fun i j => tabMru w mru_count j ≤ tabMru w mru_count i)

section Maxima

theorem le_foldr_max {l : List Nat} {x : Nat} (h : x ∈ l) : x ≤ l.foldr max 0 := by
  induction l with
  | nil => cases h
  | cons y l ih =>
      rcases List.mem_cons.mp h with rfl | h
      · exact le_max_left _ _
      · exact (ih h).trans (le_max_right _ _)

theorem foldr_max_le {l : List Nat} {b : Nat} (h : ∀ x ∈ l, x ≤ b) : l.foldr max 0 ≤ b := by
  induction l with
  | nil => exact Nat.zero_le b
  | cons y l ih =>
      exact max_le (h y List.mem_cons_self) (ih fun x hx => h x (List.mem_cons_of_mem y hx))

variable {tabInd : Nat → Int} {mru_count : Nat → Nat} {termlist : List Nat} {k : Int} {c : Nat}

/-- The count of an index is the largest one of its terminals. -/
theorem find_fillMrumap (tabInd : Nat → Int) (mru_count : Nat → Nat) (termlist : List Nat)
    (k : Int) :
    ((fillMrumap tabInd mru_count termlist).find k = none ↔ ∀ t ∈ termlist, tabInd t ≠ k) ∧
      ∀ c, (fillMrumap tabInd mru_count termlist).find k = some c →
        (∃ t ∈ termlist, tabInd t = k ∧ mru_count t = c) ∧
          ∀ t ∈ termlist, tabInd t = k → mru_count t ≤ c := by
  induction termlist using List.reverseRecOn with
  | nil => simp [fillMrumap]
  | append_singleton termlist u ih =>
      obtain ⟨ihnone, ihsome⟩ := ih
      rw [fillMrumap, List.foldl_append]
      simp only [List.foldl_cons, List.foldl_nil]
      rw [← fillMrumap]
      by_cases hu : tabInd u = k
      · -- the terminal has this index
        subst hu
        constructor
        · refine iff_of_false ?_ fun hno => hno u (by simp) rfl
          split <;> simp
        · intro c hc
          split at hc
          · rename_i hfind
            rw [OrderedMap.find_insert_self] at hc
            obtain rfl := Option.some.inj hc
            refine ⟨⟨u, by simp, rfl, rfl⟩, fun t ht htk => ?_⟩
            rcases List.mem_append.mp ht with ht | ht
            · exact absurd htk (ihnone.mp hfind t ht)
            · rw [List.mem_singleton.mp ht]
          · rename_i count hfind
            rw [OrderedMap.find_insert_self] at hc
            obtain rfl := Option.some.inj hc
            obtain ⟨⟨t₀, ht₀, hind, hcount⟩, hle⟩ := ihsome count hfind
            constructor
            · rcases le_total count (mru_count u) with hmax | hmax
              · exact ⟨u, by simp, rfl, (max_eq_right hmax).symm⟩
              · exact ⟨t₀, by simp [ht₀], hind, hcount.trans (max_eq_left hmax).symm⟩
            · intro t ht htk
              rcases List.mem_append.mp ht with ht | ht
              · exact (hle t ht htk).trans (le_max_left _ _)
              · rw [List.mem_singleton.mp ht]
                exact le_max_right _ _
      · -- it does not concern this index
        have hsame : ∀ m : OrderedMap Int Nat, ∀ v, (m.insert (tabInd u) v).find k = m.find k :=
          fun m v => by rw [OrderedMap.find_insert, if_neg hu]
        have hmem : ∀ P : Nat → Prop, (∀ t ∈ termlist ++ [u], tabInd t = k → P t) ↔
            ∀ t ∈ termlist, tabInd t = k → P t := by
          intro P
          simp [List.mem_append, or_imp, forall_and, hu]
        have hnone : (∀ t ∈ termlist ++ [u], tabInd t ≠ k) ↔ ∀ t ∈ termlist, tabInd t ≠ k :=
          hmem fun _ => False
        rw [hnone]
        split
        all_goals
          rw [hsame]
          refine ⟨ihnone, fun c hc => ?_⟩
          obtain ⟨⟨t, ht, hind, hcount⟩, hle⟩ := ihsome c hc
          exact ⟨⟨t, by simp [ht], hind, hcount⟩, (hmem _).mpr hle⟩

theorem mem_keys_fillMrumap :
    k ∈ (fillMrumap tabInd mru_count termlist).keys ↔ ∃ t ∈ termlist, tabInd t = k := by
  rw [OrderedMap.mem_keys, Option.isSome_iff_ne_none, Ne, (find_fillMrumap ..).1]
  simp only [ne_eq, not_forall, not_not, exists_prop]

/-- The second loop sorts the entries. -/
theorem fillMrumaptab_spec (mrumap : OrderedMap Int Nat) :
    (fillMrumaptab mrumap).Perm (mrumap.entries.map Prod.swap) ∧
      (fillMrumaptab mrumap).Pairwise (fun a b => a.1 ≤ b.1) := by
  have hfold : ∀ (es : List (Int × Nat)) (acc : List (Nat × Int)),
      acc.Pairwise (fun a b => a.1 ≤ b.1) →
        (es.foldl (fun mrumaptab e => multiInsert e.2 e.1 mrumaptab) acc).Perm
            (es.map Prod.swap ++ acc) ∧
          (es.foldl (fun mrumaptab e => multiInsert e.2 e.1 mrumaptab) acc).Pairwise
            (fun a b => a.1 ≤ b.1) := by
    intro es
    induction es with
    | nil => exact fun acc hacc => ⟨.refl _, hacc⟩
    | cons e es ih =>
        intro acc hacc
        obtain ⟨hperm, hsorted⟩ := ih _ (sorted_multiInsert (k := e.2) (v := e.1) hacc)
        refine ⟨hperm.trans ?_, hsorted⟩
        exact ((perm_multiInsert e.2 e.1 acc).append_left _).trans List.perm_middle
  obtain ⟨hperm, hsorted⟩ := hfold mrumap.entries [] List.Pairwise.nil
  rw [List.append_nil] at hperm
  exact ⟨hperm, hsorted⟩

end Maxima

section Listing

variable {m : MainWindow} {mru_count : Nat → Nat}

/-- The rows are the indices of the open terminals. -/
theorem perm_rows (w : GuiMainWindow) (mru_count : Nat → Nat) :
    (rows w mru_count).Perm (fillMrumap (fun t => w.getTerminalTabInd (.term t)) mru_count
      w.terminalList).keys := by
  have hperm := (fillMrumaptab_spec (fillMrumap (fun t => w.getTerminalTabInd (.term t))
    mru_count w.terminalList)).1
  refine ((List.reverse_perm _).map Prod.snd).trans ((hperm.map Prod.snd).trans ?_)
  rw [List.map_map]
  exact .refl _

theorem mem_rows {w : GuiMainWindow} {i : Int} :
    i ∈ rows w mru_count ↔ ∃ t ∈ w.terminalList, w.getTerminalTabInd (.term t) = i := by
  rw [(perm_rows w mru_count).mem_iff, mem_keys_fillMrumap]

theorem nodup_rows (w : GuiMainWindow) (mru_count : Nat → Nat) : (rows w mru_count).Nodup :=
  (perm_rows w mru_count).nodup_iff.mpr (OrderedMap.keys_nodup _)

/-- Without hidden terminals, the open terminals are those of the tabs, and their indices
are right. -/
theorem index_iff (h : m.Sound) (hhidden : m.hidden = []) {t i : Nat} :
    t ∈ m.layout.terminalList ∧ m.layout.getTerminalTabInd (.term t) = i ↔
      ∃ r, m.layout.tabs[i]? = some r ∧ t ∈ m.layout.populateAllTerminals r := by
  have hlisted : t ∈ m.layout.terminalList ↔ t ∈ m.layout.opened := by
    rw [h.listed t, hhidden]
    simp
  rw [hlisted]
  constructor
  · rintro ⟨ht, hind⟩
    obtain ⟨j, r, hr, hu⟩ := h.panes.exists_index ht
    have hj := h.indexed.shown j r hr t hu
    have hij : j = i := by omega
    exact ⟨r, hij ▸ hr, h.panes.mem_populateAllTerminals.mpr hu⟩
  · rintro ⟨r, hr, ht⟩
    have hu := h.panes.mem_populateAllTerminals.mp ht
    refine ⟨h.panes.live_of_under (h.panes.live_of_mem_tabs (List.mem_of_getElem? hr)) hu, ?_⟩
    exact h.indexed.shown i r hr t hu

/-- Without hidden terminals the rows are the tabs. -/
theorem mem_rows_iff (h : m.Sound) (hhidden : m.hidden = []) {i : Int} :
    i ∈ rows m.layout mru_count ↔ ∃ j : Nat, j < m.layout.tabs.length ∧ (j : Int) = i := by
  rw [mem_rows]
  constructor
  · rintro ⟨t, ht, hind⟩
    have hopen : t ∈ m.layout.opened := by
      have hor := (h.listed t).mp ht
      rw [hhidden] at hor
      simpa using hor
    obtain ⟨j, r, hr, hu⟩ := h.panes.exists_index hopen
    exact ⟨j, (List.getElem?_eq_some_iff.mp hr).1, (h.indexed.shown j r hr t hu).symm.trans hind⟩
  · rintro ⟨j, hj, rfl⟩
    have hr := List.getElem?_eq_getElem hj
    obtain ⟨t, -, hu⟩ := h.panes.exists_terminal
      (h.panes.live_of_mem_tabs (List.mem_of_getElem? hr))
    obtain ⟨hlist, hind⟩ := (index_iff h hhidden).mpr
      ⟨_, hr, h.panes.mem_populateAllTerminals.mpr hu⟩
    exact ⟨t, hlist, hind⟩

/-- Without hidden terminals the count of a row is that of its tab. -/
theorem count_eq_tabMru (h : m.Sound) (hhidden : m.hidden = []) {i c : Nat}
    (hc : (fillMrumap (fun t => m.layout.getTerminalTabInd (.term t)) mru_count
      m.layout.terminalList).find i = some c) :
    tabMru m.layout mru_count i = c := by
  obtain ⟨⟨t, ht, hind, hcount⟩, hle⟩ := (find_fillMrumap ..).2 c hc
  obtain ⟨r, hr, hmem⟩ := (index_iff h hhidden).mp ⟨ht, hind⟩
  rw [tabMru, Int.toNat_natCast, hr]
  refine le_antisymm (foldr_max_le fun x hx => ?_)
    (le_foldr_max (List.mem_map.mpr ⟨t, hmem, hcount⟩))
  obtain ⟨u, hu, rfl⟩ := List.mem_map.mp hx
  obtain ⟨hlist, hind'⟩ := (index_iff h hhidden).mpr ⟨r, hr, hu⟩
  exact hle u hlist hind'

/-- **The list is right in a window if and only if no terminal is hidden.** -/
theorem listsTabs_iff_of_sound (h : m.Sound) (mru_count : Nat → Nat) :
    ListsTabs m.layout mru_count ↔ m.hidden = [] := by
  constructor
  · rintro ⟨hperm, -⟩
    rw [List.eq_nil_iff_forall_not_mem]
    intro t ht
    -- the row of a hidden terminal
    have hlist := (h.listed t).mpr (.inr ht)
    have hind : m.layout.getTerminalTabInd (.term t) = -1 := by
      refine h.indexed.absent _ fun r hr hu => ?_
      exact (h.apart t ht).1 (h.panes.live_of_under (h.panes.live_of_mem_tabs hr) hu)
    obtain ⟨j, -, hj⟩ := List.mem_map.mp (hperm.mem_iff.mp (mem_rows.mpr ⟨t, hlist, hind⟩))
    have hneg : (j : Int) = -1 := hj
    omega
  · intro hhidden
    constructor
    · refine (List.perm_ext_iff_of_nodup (nodup_rows _ _) ?_).mpr fun i => ?_
      · exact List.nodup_range.map Int.ofNat_injective
      · rw [mem_rows_iff h hhidden, List.mem_map]
        simp [List.mem_range]
    · obtain ⟨hperm, hsorted⟩ := fillMrumaptab_spec (fillMrumap
        (fun t => m.layout.getTerminalTabInd (.term t)) mru_count m.layout.terminalList)
      have hvalue : ∀ e ∈ (fillMrumaptab (fillMrumap
          (fun t => m.layout.getTerminalTabInd (.term t)) mru_count
            m.layout.terminalList)).reverse,
          tabMru m.layout mru_count e.2 = e.1 := by
        rintro ⟨c, i⟩ he
        obtain ⟨⟨i', c'⟩, hmem, heq⟩ := List.mem_map.mp (hperm.mem_iff.mp (List.mem_reverse.mp he))
        obtain ⟨rfl, rfl⟩ := Prod.mk.inj heq
        have hfind := OrderedMap.mem_entries.mp hmem
        have hrow : i' ∈ rows m.layout mru_count :=
          (perm_rows _ _).mem_iff.mpr (OrderedMap.mem_keys.mpr (by simp [hfind]))
        obtain ⟨j, -, rfl⟩ := (mem_rows_iff h hhidden).mp hrow
        exact count_eq_tabMru h hhidden hfind
      rw [rows, List.pairwise_map]
      refine (List.pairwise_reverse.mpr hsorted).imp_of_mem fun {a b} ha hb hab => ?_
      rwa [hvalue a ha, hvalue b hb]

/-- **In every run whose drops leave the tab indices right, and whose tmux windows have new
panes without a split inside another one, the list is right whenever no terminal is
hidden, and wrong whenever one is.** -/
theorem always_listsTabs_iff (plat : Platform) (ops : List WindowOp)
    (h : Guarded (MainWindow.step plat) MainWindow.Fits MainWindow.init ops) :
    Always (MainWindow.step plat)
        (fun m => ∀ mru_count, ListsTabs m.layout mru_count ↔ m.hidden = [])
        MainWindow.init ops ∧
      ∃ m, runSteps (MainWindow.step plat) MainWindow.init ops = some m := by
  obtain ⟨halways, hrun⟩ := always_of_guarded (P := MainWindow.Sound)
    (fun m op hs hf => hs.step plat hf) MainWindow.sound_init h
  exact ⟨halways.imp fun m hs mru_count => listsTabs_iff_of_sound hs mru_count, hrun⟩

/-- Two tabs, one of which turns out to be a gateway. -/
theorem always_listsTabs_iff_gateway :
    Always (MainWindow.step plainPlatform)
        (fun m => ∀ mru_count, ListsTabs m.layout mru_count ↔ m.hidden = [])
        MainWindow.init [.layout .openTab, .layout .openTab, .hideTerminal 0] ∧
      ∃ m, runSteps (MainWindow.step plainPlatform) MainWindow.init
        [.layout .openTab, .layout .openTab, .hideTerminal 0] = some m := by
  refine always_listsTabs_iff plainPlatform _ ?_
  exact ⟨trivial, fun _ _ => ⟨trivial, fun _ _ => ⟨trivial, fun _ _ => trivial⟩⟩⟩

/-- Then the list has a row for the tab -1. -/
theorem not_listsTabs_gateway :
    ∃ m, runSteps (MainWindow.step plainPlatform) MainWindow.init
        [.layout .openTab, .layout .openTab, .hideTerminal 0] = some m ∧
      ¬ ListsTabs m.layout (fun _ => 0) := by
  refine ⟨_, rfl, ?_⟩
  rintro ⟨hperm, -⟩
  have hlen := hperm.length_eq
  revert hlen
  decide

end Listing

end GuiTabNavigation

end Navigation
end Qutty
