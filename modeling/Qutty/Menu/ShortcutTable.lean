import Mathlib.Data.List.Sort
import Mathlib.Data.Prod.Lex
import Qutty.Lib.LowerBound
import Qutty.Menu.Actions

/-!
# The table of shortcuts

`menuCommonShortcuts` of the main window: tuples of an id, a shortcut and an action,
which are compared with their pointers.  `initializeMenuSystem` fills in the static
actions, `initializeCustomSavedSessionShortcuts` replaces the entries of the custom
range, and the functions that look for an id use `std::lower_bound`.

The entries are removed up to the end of the range without it, and added up to the end
with it.  So an entry with the last id stays forever, and the table is right after every
call exactly if no call but the last one finds that id in `menu_action_list`
(`faithful_iff`).
-/

namespace Qutty
namespace Menu

open Lib

section Table

variable {K : Type}

/-- `QShortcut`, with the place of the object. -/
structure QShortcut (K : Type) where
  address : Nat
  key : K
deriving DecidableEq

/-- `std::tuple<int32_t, QShortcut *, QAction *>`; a null pointer is none. -/
structure Entry (K : Type) where
  id : Nat
  shortcut : Option (QShortcut K)
  action : Option Nat
deriving DecidableEq

/-- The tuple of an id and null pointers. -/
def Entry.ofId (K : Type) (id : Nat) : Entry K := ⟨id, none, none⟩

/-- What tuples are compared by; null pointers come first. -/
def Entry.rank (e : Entry K) : ℕ ×ₗ (ℕ ×ₗ ℕ) :=
  toLex (e.id, toLex ((e.shortcut.map QShortcut.address).getD 0, e.action.getD 0))

/-- `menuCommonShortcuts`. -/
abbrev MenuCommonShortcuts (K : Type) := List (Entry K)

/-- The order of `std::sort`. -/
def Entry.Before (a b : Entry K) : Prop := a.rank ≤ b.rank

instance : DecidableRel (Entry.Before (K := K)) := fun a b =>
  inferInstanceAs (Decidable (a.rank ≤ b.rank))

instance : Std.Total (Entry.Before (K := K)) := ⟨fun a b => le_total a.rank b.rank⟩

instance : IsTrans (Entry K) Entry.Before := ⟨fun _ _ _ hab hbc => le_trans hab hbc⟩

/-- The entry of a static action, with the place of new objects. -/
def staticEntry (seq : KeySequences K) (list : MenuActionList K) (alloc : Nat → Nat) (i : Nat)
    (info : MenuActionInfo) : Entry K :=
  let keyseq := ((list.find i).map QtMenuActionConfig.shortcut).getD
    (seq.ofString info.key.toList)
  ⟨i, if info.slot ∧ ¬ seq.isEmpty keyseq then some ⟨alloc (2 * i + 1), keyseq⟩ else none,
    some (alloc (2 * i))⟩

/-- The loop of `initializeMenuSystem`. -/
def staticTable (seq : KeySequences K) (list : MenuActionList K) (alloc : Nat → Nat) :
    MenuCommonShortcuts K :=
  quttyMenuActions.mapIdx (staticEntry seq list alloc)

/-- The entries that `initializeCustomSavedSessionShortcuts` keeps. -/
def Entry.kept (e : Entry K) : Bool :=
  ¬ (menuCustomOpenSavedSession ≤ e.id ∧ e.id < menuCustomOpenSavedSessionEnd)

/-- The entries that it adds. -/
def customEntries (list : MenuActionList K) (alloc : Nat → Nat) : MenuCommonShortcuts K :=
  (customActions list).mapIdx (fun i e => ⟨e.1, some ⟨alloc i, e.2.shortcut⟩, none⟩)

/-- `initializeCustomSavedSessionShortcuts`. -/
def initializeCustomSavedSessionShortcuts (table : MenuCommonShortcuts K)
    (list : MenuActionList K) (alloc : Nat → Nat) : MenuCommonShortcuts K :=
  (table.filter Entry.kept ++ customEntries list alloc).insertionSort Entry.Before

/-- `std::lower_bound` for the tuple of an id and null pointers, and the test of the id. -/
def menuFind (table : MenuCommonShortcuts K) (id : Nat) : Option Nat :=
  let it := lowerBound (fun i => (table[i]?).any (fun e =>
    decide (e.rank < (Entry.ofId K id).rank))) table.length
  if (table[it]?).any (fun e => e.id = id) then some it else none

/-- `menuGetActionById`. -/
def menuGetActionById (table : MenuCommonShortcuts K) (id : Nat) : Option Nat :=
  (menuFind table id).bind (fun it => table[it]?.bind Entry.action)

/-- `menuGetShortcutById`; none for `QKeySequence()`. -/
def menuGetShortcutById (table : MenuCommonShortcuts K) (id : Nat) : Option K :=
  (menuFind table id).bind (fun it => table[it]?.bind (fun e => e.shortcut.map QShortcut.key))

/-- `menuSetShortcutById`, with the place for a new shortcut: none where the action is a null
pointer. -/
def menuSetShortcutById (table : MenuCommonShortcuts K) (id : Nat) (key : K) (place : Nat) :
    Option (MenuCommonShortcuts K) :=
  match menuFind table id with
  | none => some table
  | some it =>
      match table[it]? with
      | none => none
      | some e =>
          e.action.map (fun _ => table.set it
            { e with shortcut := some ⟨(e.shortcut.map QShortcut.address).getD place, key⟩ })

end Table

section Invariant

variable {K : Type}

/-- What the table should be for a content of `menu_action_list`. -/
structure Faithful (table : MenuCommonShortcuts K) (list : MenuActionList K) : Prop where
  /-- sorted, with one entry per id -/
  sorted : table.Pairwise (fun a b => a.rank < b.rank ∧ a.id < b.id)
  custom : ∀ id, menuCustomOpenSavedSession ≤ id → id ≤ menuCustomOpenSavedSessionEnd →
    ((∃ e ∈ table, e.id = id) ↔ (list.find id).isSome)
  /-- the searches find every entry -/
  search : ∀ it e, table[it]? = some e → menuFind table e.id = some it

/-- The static actions, and nothing else that is kept. -/
def Clean (table : MenuCommonShortcuts K) : Prop :=
  ((table.filter Entry.kept).map Entry.id).Perm (List.range menuStaticActionMax)

/-- Before the place of an id are the smaller ids. -/
theorem menuFind_eq {table : MenuCommonShortcuts K}
    (h : table.Pairwise (fun a b => a.id < b.id)) {it : Nat} {e : Entry K}
    (he : table[it]? = some e) : menuFind table e.id = some it := by
  obtain ⟨hlt, rfl⟩ := List.getElem?_eq_some_iff.mp he
  have hmono := List.pairwise_iff_getElem.mp h
  have hrank : ∀ a : Entry K, a.rank < (Entry.ofId K table[it].id).rank ↔
      a.id < table[it].id := by
    intro a
    rw [Entry.rank, Entry.rank, Prod.Lex.toLex_lt_toLex, Prod.Lex.toLex_lt_toLex]
    simp [Entry.ofId]
  have hsearch : lowerBound (fun i => (table[i]?).any (fun a =>
      decide (a.rank < (Entry.ofId K table[it].id).rank))) table.length = it := by
    refine lowerBound_eq hlt.le (fun i hi => ?_) (fun i hi hlen => ?_)
    · rw [List.getElem?_eq_getElem (hi.trans hlt), Option.any_some, decide_eq_true_eq, hrank]
      exact hmono i it (hi.trans hlt) hlt hi
    · rw [List.getElem?_eq_getElem hlen, Option.any_some, decide_eq_false_iff_not, hrank]
      rcases Nat.lt_or_eq_of_le hi with hlt' | rfl
      · exact Nat.not_lt.mpr (hmono it i hlt hlen hlt').le
      · exact Nat.lt_irrefl _
  rw [menuFind]
  simp only [hsearch, List.getElem?_eq_getElem hlt, Option.any_some, decide_true, if_true]

/-- Sorted tuples with different ids have their ids in order. -/
theorem sorted_of_nodup {table : MenuCommonShortcuts K} (h : table.Pairwise Entry.Before)
    (hids : (table.map Entry.id).Nodup) :
    table.Pairwise (fun a b => a.rank < b.rank ∧ a.id < b.id) := by
  have hne : table.Pairwise (fun a b => a.id ≠ b.id) := List.pairwise_map.mp hids
  refine (h.and hne).imp (fun {a b} hab => ?_)
  have hlt : a.id < b.id := by
    rcases Prod.Lex.toLex_le_toLex.mp hab.1 with hlt | ⟨heq, -⟩
    · exact hlt
    · exact absurd heq hab.2
  exact ⟨Prod.Lex.toLex_lt_toLex.mpr (.inl hlt), hlt⟩

variable {list : MenuActionList K} {alloc : Nat → Nat} {table : MenuCommonShortcuts K}

/-- The functions get the entry of an id, and set a key there and nowhere else. -/
theorem Faithful.lookups (h : Faithful table list) {it : Nat} {e : Entry K}
    (he : table[it]? = some e) :
    menuGetActionById table e.id = e.action ∧
      menuGetShortcutById table e.id = e.shortcut.map QShortcut.key ∧
      ∀ key place, menuSetShortcutById table e.id key place = e.action.map (fun _ =>
        table.set it
          { e with shortcut := some ⟨(e.shortcut.map QShortcut.address).getD place, key⟩ }) := by
  have hfind := h.search it e he
  refine ⟨?_, ?_, fun key place => ?_⟩
  · rw [menuGetActionById, hfind, Option.bind_some, he, Option.bind_some]
  · rw [menuGetShortcutById, hfind, Option.bind_some, he, Option.bind_some]
  · simp only [menuSetShortcutById, hfind, he]

theorem map_id_customEntries :
    (customEntries list alloc).map Entry.id = (customActions list).map Prod.fst := by
  refine List.ext_getElem (by simp [customEntries]) (fun i hi hi' => ?_)
  simp [customEntries]

/-- The ids that are added. -/
theorem mem_customIds {id : Nat} :
    id ∈ (customEntries list alloc).map Entry.id ↔
      (menuCustomOpenSavedSession ≤ id ∧ id ≤ menuCustomOpenSavedSessionEnd) ∧
        (list.find id).isSome := by
  rw [map_id_customEntries, customActions, List.mem_map]
  constructor
  · rintro ⟨⟨i, action⟩, hmem, rfl⟩
    rw [List.mem_filter, decide_eq_true_eq, OrderedMap.mem_entries] at hmem
    exact ⟨hmem.2, by rw [hmem.1]; rfl⟩
  · rintro ⟨hrange, hsome⟩
    obtain ⟨action, haction⟩ := Option.isSome_iff_exists.mp hsome
    exact ⟨(id, action), List.mem_filter.mpr ⟨OrderedMap.mem_entries.mpr haction,
      decide_eq_true hrange⟩, rfl⟩

theorem customIds_nodup : ((customEntries list alloc).map Entry.id).Nodup := by
  rw [map_id_customEntries]
  exact list.keys_nodup.sublist (List.filter_sublist.map Prod.fst)

/-- What is in the table after a call. -/
theorem table_perm (table : MenuCommonShortcuts K) (list : MenuActionList K)
    (alloc : Nat → Nat) :
    (initializeCustomSavedSessionShortcuts table list alloc).Perm
      (table.filter Entry.kept ++ customEntries list alloc) :=
  List.perm_insertionSort _ _

theorem Clean.lt (h : Clean table) {e : Entry K} (he : e ∈ table) (hkept : e.kept = true) :
    e.id < menuStaticActionMax :=
  List.mem_range.mp (h.subset (List.mem_map_of_mem (List.mem_filter.mpr ⟨he, hkept⟩)))

/-- The ids after a call are different. -/
theorem Clean.nodup (h : Clean table) :
    ((initializeCustomSavedSessionShortcuts table list alloc).map Entry.id).Nodup := by
  rw [((table_perm table list alloc).map Entry.id).nodup_iff, List.map_append,
    List.nodup_append]
  refine ⟨h.nodup_iff.mpr List.nodup_range, customIds_nodup, fun i hi j hj => ?_⟩
  have hstatic := List.mem_range.mp (h.subset hi)
  have hcustom := (mem_customIds.mp hj).1.1
  rw [menuStaticActionMax] at hstatic
  rw [menuCustomOpenSavedSession] at hcustom
  omega

/-- The ids of the custom range after a call. -/
theorem Clean.custom (h : Clean table) {id : Nat} (hlow : menuCustomOpenSavedSession ≤ id)
    (hhigh : id ≤ menuCustomOpenSavedSessionEnd) :
    (∃ e ∈ initializeCustomSavedSessionShortcuts table list alloc, e.id = id) ↔
      (list.find id).isSome := by
  constructor
  · rintro ⟨e, he, rfl⟩
    rcases List.mem_append.mp ((table_perm table list alloc).subset he) with he | he
    · have hstatic := h.lt (List.mem_filter.mp he).1 (List.mem_filter.mp he).2
      rw [menuStaticActionMax] at hstatic
      rw [menuCustomOpenSavedSession] at hlow
      omega
    · exact (mem_customIds.mp (List.mem_map_of_mem he)).2
  · intro hsome
    have hadded : id ∈ (customEntries list alloc).map Entry.id :=
      mem_customIds.mpr ⟨⟨hlow, hhigh⟩, hsome⟩
    obtain ⟨e, he, rfl⟩ := List.mem_map.mp hadded
    exact ⟨e, (table_perm table list alloc).symm.subset (List.mem_append_right _ he), rfl⟩

/-- **A call makes a clean table right.** -/
theorem Clean.faithful (h : Clean table) :
    Faithful (initializeCustomSavedSessionShortcuts table list alloc) list := by
  have hnodup : ((initializeCustomSavedSessionShortcuts table list alloc).map Entry.id).Nodup :=
    h.nodup
  have hsorted := sorted_of_nodup (List.pairwise_insertionSort Entry.Before _) hnodup
  exact ⟨hsorted, fun _ => h.custom,
    fun it e he => menuFind_eq (hsorted.imp (fun hab => hab.2)) he⟩

/-- The table is clean after a call that does not find the last id. -/
theorem Clean.next (h : Clean table) (hlast : list.find menuCustomOpenSavedSessionEnd = none) :
    Clean (initializeCustomSavedSessionShortcuts table list alloc) := by
  have hnone : (customEntries list alloc).filter Entry.kept = [] := by
    refine List.filter_eq_nil_iff.mpr (fun e he hkept => ?_)
    obtain ⟨⟨hlow, hhigh⟩, hsome⟩ := mem_customIds.mp (List.mem_map_of_mem he)
    have hne : e.id ≠ menuCustomOpenSavedSessionEnd := by
      intro heq
      rw [heq, hlast] at hsome
      exact absurd hsome (by simp)
    rw [Entry.kept, decide_eq_true_eq] at hkept
    exact hkept ⟨hlow, lt_of_le_of_ne hhigh hne⟩
  have hperm := ((table_perm table list alloc).filter Entry.kept).map Entry.id
  rw [List.filter_append, List.filter_filter, hnone, List.append_nil] at hperm
  simp only [Bool.and_self] at hperm
  exact hperm.trans h

/-- **An entry with the last id stays, and the table is wrong after the next call.** -/
theorem not_faithful_of_last {e : Entry K} (he : e ∈ table)
    (hid : e.id = menuCustomOpenSavedSessionEnd) :
    ¬ Faithful (initializeCustomSavedSessionShortcuts table list alloc) list := by
  intro hfaithful
  have hkept : e ∈ table.filter Entry.kept :=
    List.mem_filter.mpr ⟨he, by simp [Entry.kept, hid]⟩
  have hmem : e ∈ initializeCustomSavedSessionShortcuts table list alloc :=
    (table_perm table list alloc).symm.subset (List.mem_append_left _ hkept)
  have hrange : menuCustomOpenSavedSession ≤ menuCustomOpenSavedSessionEnd := by decide
  have hsome := (hfaithful.custom _ hrange le_rfl).mp ⟨e, hmem, hid⟩
  -- so the id is added once more
  have hadded : menuCustomOpenSavedSessionEnd ∈ (customEntries list alloc).map Entry.id :=
    mem_customIds.mpr ⟨⟨hrange, le_rfl⟩, hsome⟩
  have hnodup : ((initializeCustomSavedSessionShortcuts table list alloc).map Entry.id).Nodup :=
    List.pairwise_map.mpr (hfaithful.sorted.imp (fun hab => hab.2.ne))
  rw [((table_perm table list alloc).map Entry.id).nodup_iff, List.map_append,
    List.nodup_append] at hnodup
  exact hnodup.2.2 e.id (List.mem_map_of_mem hkept) _ hadded hid

end Invariant

section Runs

variable {K : Type}

/-- A call of `initializeCustomSavedSessionShortcuts`: the content of `menu_action_list` and
the places of the new shortcuts. -/
structure Reconfiguration (K : Type) where
  list : MenuActionList K
  alloc : Nat → Nat

/-- The table after a call. -/
def Reconfiguration.apply (table : MenuCommonShortcuts K) (c : Reconfiguration K) :
    MenuCommonShortcuts K :=
  initializeCustomSavedSessionShortcuts table c.list c.alloc

/-- The table is right after every one of the calls. -/
def AlwaysFaithful : MenuCommonShortcuts K → List (Reconfiguration K) → Prop
  | _, [] => True
  | table, c :: calls => Faithful (c.apply table) c.list ∧ AlwaysFaithful (c.apply table) calls

theorem clean_staticTable (seq : KeySequences K) (list : MenuActionList K) (alloc : Nat → Nat) :
    Clean (staticTable seq list alloc) := by
  have hids : (staticTable seq list alloc).map Entry.id = List.range menuStaticActionMax := by
    refine List.ext_getElem (by simp [staticTable, length_quttyMenuActions]) (fun i hi hi' => ?_)
    simp [staticTable, staticEntry]
  have hall : (staticTable seq list alloc).filter Entry.kept = staticTable seq list alloc := by
    refine List.filter_eq_self.mpr (fun e he => ?_)
    have hlt : e.id ∈ List.range menuStaticActionMax := hids ▸ List.mem_map_of_mem he
    rw [List.mem_range, menuStaticActionMax] at hlt
    rw [Entry.kept, decide_eq_true_eq, menuCustomOpenSavedSession]
    omega
  rw [Clean, hall, hids]

theorem Clean.faithfulRuns_iff {table : MenuCommonShortcuts K} (h : Clean table)
    (calls : List (Reconfiguration K)) :
    AlwaysFaithful table calls ↔
      ∀ c ∈ calls.dropLast, c.list.find menuCustomOpenSavedSessionEnd = none := by
  induction calls generalizing table with
  | nil => simp [AlwaysFaithful]
  | cons c calls ih =>
      cases calls with
      | nil => simp [AlwaysFaithful, Reconfiguration.apply, h.faithful]
      | cons d calls =>
          rw [List.dropLast_cons_cons, List.forall_mem_cons, AlwaysFaithful]
          cases hlast : c.list.find menuCustomOpenSavedSessionEnd with
          | none =>
              have hclean : Clean (c.apply table) := h.next hlast
              rw [ih hclean]
              exact ⟨fun hall => ⟨rfl, hall.2⟩, fun hall => ⟨h.faithful, hall.2⟩⟩
          | some action =>
              refine ⟨fun hall => ?_, fun hall => absurd hall.1 (by simp)⟩
              -- the entry that this call adds is still there at the next one
              have hcustom : (∃ e ∈ c.apply table, e.id = menuCustomOpenSavedSessionEnd) ↔
                  (c.list.find menuCustomOpenSavedSessionEnd).isSome :=
                h.custom (by decide) le_rfl
              obtain ⟨e, he, hid⟩ := hcustom.mpr (by rw [hlast]; rfl)
              exact absurd hall.2.1 (not_faithful_of_last he hid)

/-- **The table is right after every call exactly if no call but the last one finds the last
id of the custom range in `menu_action_list`.** -/
theorem alwaysFaithful_iff (seq : KeySequences K) (list : MenuActionList K) (alloc : Nat → Nat)
    (calls : List (Reconfiguration K)) :
    AlwaysFaithful (staticTable seq list alloc) calls ↔
      ∀ c ∈ calls.dropLast, c.list.find menuCustomOpenSavedSessionEnd = none :=
  (clean_staticTable seq list alloc).faithfulRuns_iff calls

/-- Key sequences as their texts. -/
def textKeys : KeySequences Text := ⟨id, id, List.isEmpty⟩

/-- A file with the last id. -/
def lastIdOnly : MenuActionList Text :=
  OrderedMap.empty.insert menuCustomOpenSavedSessionEnd
    ⟨menuCustomOpenSavedSessionEnd, ['F', '9'], [], ['s'], 4⟩

/-- The shortcut stays in the table when its id is gone from the list. -/
theorem not_alwaysFaithful_lastId :
    ¬ AlwaysFaithful (staticTable textKeys lastIdOnly Nat.succ)
      [⟨lastIdOnly, Nat.succ⟩, ⟨OrderedMap.empty, Nat.succ⟩] := by
  rintro ⟨hfirst, hsecond, -⟩
  obtain ⟨e, he, hid⟩ := (hfirst.custom _ (by decide) le_rfl).mpr rfl
  exact not_faithful_of_last he hid hsecond

end Runs

end Menu
end Qutty
