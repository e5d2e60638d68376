import Qutty.Config.SessionPaths
import Qutty.Config.SessionShown

/-!
# Whether the tree model shows the names

`QtSessionTreeModel` shows the names of `config_list`, finds them, and agrees with
`loadSessionNames`, if and only if no name begins or ends with a slash and no folder with
something in it is moved when its list grows (`faithful_iff`).  A slash at the beginning is lost
in the full name of the item, and one at the end is cut off before the item is made.
-/

namespace Qutty
namespace Config

open Lib Lib.ByteOrder

/-- The model shows the names of `config_list`. -/
structure Faithful (grows : Nat → Bool) (list : ConfigList) (items : TreeItems) : Prop where
  /-- every stored name is the data of one item, and that item is found -/
  found : ∀ name ∈ list.keys, ∃ i < items.length,
    items.findIndexForSessionName grows name = some (items.indexOf grows i) ∧
    items.data grows (items.indexOf grows i) = some name ∧
    ∀ j < items.length, items.data grows (items.indexOf grows j) = some name → j = i
  /-- `index` is the inverse of `parent` -/
  index_parent : ∀ i < items.length, ∃ par,
    items.parent grows (items.indexOf grows i) = some par ∧
    items.index grows (items.place i) par = some (items.indexOf grows i)
  /-- `parent` is the inverse of `index` -/
  parent_index : ∀ par row ix, par = none ∨ (∃ i < items.length, par = items.indexOf grows i) →
    items.index grows row par = some (some ix) → items.parent grows (some ix) = some par
  /-- `loadSessionNames` builds the same tree -/
  shown : items.shown grows (items.length + 1) none = some (loadSessionNames list)
  /-- the item of a session has its key as the full name -/
  filed : ∀ before name after, list.keys = before ++ name :: after →
    ∃ path siblings, (loadingOf (before ++ [name])).folders.find name = some path ∧
      siblingsAt none path (loadingOf (before ++ [name])).tree = some (some name, siblings)

section Finding

variable {grows : Nat → Bool} {K : List Text} {q d tmp n : Text} {parts : List Text}

/-- The search goes along the directories of a path. -/
theorem findIndex_itemsOf (hK : PathTree '/' K) (hlead : ∀ q ∈ K, q.head? ≠ some '/')
    (hd : d = [] ∨ d ∈ K) (htmp : tmp = d ++ ['/'] ∨ d = [] ∧ tmp = [])
    (hparts : ∀ part ∈ parts, '/' ∉ part) (hmem : ∀ q ∈ prefixesFrom '/' tmp parts, q ∈ K) :
    (itemsOf K).findIndex grows (indexOfPath grows K d) parts =
      some (indexOfPath grows K ((prefixesFrom '/' tmp parts).getLastD d)) := by
  induction parts generalizing d tmp with
  | nil => rfl
  | cons part parts ih =>
      obtain ⟨hdir, hbase⟩ := split_tmp htmp (hparts part List.mem_cons_self)
      have hq : tmp ++ part ∈ K := hmem _ (by simp [prefixesFrom])
      have hchild : tmp ++ part ∈ childrenOf '/' K d := mem_childrenOf.mpr ⟨hq, hdir⟩
      have hne := ne_of_mem_of_not_mem hq hK.nil_notMem
      rw [TreeItems.findIndex, itemOf_indexOfPath hd, Option.bind_some, childItems_itemsOf hK]
      cases hrow : ((childrenOf '/' K d).map K.idxOf).findIdx? fun i =>
          (itemsOf K)[i]?.map QtSessionTreeItem.sessionName = some part with
      | none =>
          rw [List.findIdx?_eq_none_iff] at hrow
          have habs := hrow _ (List.mem_map_of_mem hchild)
          simp [getElem?_itemsOf hq, hbase] at habs
      | some row =>
          -- the item that is found is that of the path
          obtain ⟨hlt, hname, -⟩ := List.findIdx?_eq_some_iff_getElem.mp hrow
          rw [List.length_map] at hlt
          obtain ⟨hp, hpdir⟩ := mem_childrenOf.mp (List.getElem_mem hlt)
          rw [List.getElem_map, getElem?_itemsOf hp] at hname
          have hpbase : baseOf '/' (childrenOf '/' K d)[row] = part := by simpa using hname
          have heq : (childrenOf '/' K d)[row] = tmp ++ part :=
            eq_of_dirOf_baseOf (hlead _ hp) (hlead _ hq) (hpdir.trans hdir.symm)
              (hpbase.trans hbase.symm)
          have hplace : row = (itemsOf K).place (K.idxOf (tmp ++ part)) := by
            rw [place_itemsOf hK hq, hdir, ← heq, (nodup_childrenOf hK d).idxOf_getElem]
          have hindex := index_place grows hK hq
          rw [hdir, ← hplace] at hindex
          have hpath : (itemsOf K).indexOf grows (K.idxOf (tmp ++ part)) =
              indexOfPath grows K (tmp ++ part) := (if_neg hne).symm
          simp only [hindex, Option.bind_some, hpath]
          rw [ih (.inr hq) (.inl rfl) (fun p hp => hparts p (List.mem_cons_of_mem _ hp))
            fun p hp => hmem p (List.mem_cons_of_mem _ hp), prefixesFrom]
          cases prefixesFrom '/' (tmp ++ part ++ ['/']) parts <;> rfl

/-- A path whose directories are all there is found. -/
theorem find_itemsOf (hK : PathTree '/' K) (hlead : ∀ q ∈ K, q.head? ≠ some '/')
    (hn : n ≠ []) (hmem : ∀ q ∈ prefixesOf '/' n, q ∈ K) :
    (itemsOf K).findIndexForSessionName grows n =
      some ((itemsOf K).indexOf grows (K.idxOf n)) := by
  have hfind : (itemsOf K).findIndex grows (indexOfPath grows K []) (n.splitOn '/') =
      some (indexOfPath grows K ((prefixesOf '/' n).getLastD [])) :=
    findIndex_itemsOf hK hlead (.inl rfl) (.inr ⟨rfl, rfl⟩) (fun _ => notMem_of_mem_splitOn) hmem
  have hpath : indexOfPath grows K n = (itemsOf K).indexOf grows (K.idxOf n) := if_neg hn
  rw [getLastD_prefixesOf, hpath] at hfind
  exact hfind

end Finding

section Shown

variable {grows : Nat → Bool} {K : List Text} {q d : Text}

/-- A list is gone through if each of its elements gives something. -/
theorem exists_mapM {α β : Type} {f : α → Option β} {g : β → α} {P : β → Prop} {l : List α}
    (h : ∀ a ∈ l, ∃ b, f a = some b ∧ g b = a ∧ P b) :
    ∃ bs, l.mapM f = some bs ∧ bs.map g = l ∧ ∀ b ∈ bs, P b := by
  induction l with
  | nil => exact ⟨[], rfl, rfl, fun b hb => absurd hb List.not_mem_nil⟩
  | cons a l ih =>
      obtain ⟨b, hb, rfl, hP⟩ := h a List.mem_cons_self
      obtain ⟨bs, hbs, rfl, hall⟩ := ih fun c hc => h c (List.mem_cons_of_mem _ hc)
      refine ⟨b :: bs, ?_, rfl, fun c hc => ?_⟩
      · rw [List.mapM_cons, hb, hbs]
        rfl
      · rcases List.mem_cons.mp hc with rfl | hc
        · exact hP
        · exact hall c hc

/-- The model shows the tree of the paths. -/
theorem shown_itemsOf (h : Stays grows K) (hK : PathTree '/' K)
    (hlead : ∀ q ∈ K, q.head? ≠ some '/') (hd : d = [] ∨ d ∈ K) {fuel : Nat}
    (hfuel : K.length + 1 ≤ depth d + fuel) :
    ∃ shown, (itemsOf K).shown grows fuel (idOf K d) = some shown ∧ ShowsBelow K d shown := by
  induction fuel generalizing d with
  | zero =>
      have hle : depth d ≤ K.length := by
        rcases hd with rfl | hd
        · rw [depth, prefixesOf_of_notMem List.not_mem_nil]
          exact Nat.zero_le _
        · exact depth_le hK hd
      omega
  | succ fuel ih =>
      rw [TreeItems.shown, childItems_itemsOf hK]
      have hall : ∀ q ∈ childrenOf '/' K d, ∃ item,
          (((itemsOf K)[K.idxOf q]?.map QtSessionTreeItem.sessionName).bind fun name =>
            ((itemsOf K).data grows ((itemsOf K).indexOf grows (K.idxOf q))).bind fun full =>
              ((itemsOf K).shown grows fuel (some (K.idxOf q))).map fun children =>
                SessionItem.mk name full children) = some item ∧
          item.fullSessname = q ∧ item.Shows K := by
        intro q hq
        obtain ⟨hmem, hdir⟩ := mem_childrenOf.mp hq
        have hne := ne_of_mem_of_not_mem hmem hK.nil_notMem
        have hdepth : K.length + 1 ≤ depth q + fuel := by
          rw [depth_dirOf hne, hdir]
          omega
        obtain ⟨children, hchildren, hshows⟩ := ih (.inr hmem) hdepth
        rw [idOf, if_neg hne] at hchildren
        refine ⟨.mk (baseOf '/' q) q children, ?_, rfl, rfl, hshows.names, hshows.all⟩
        rw [getElem?_itemsOf hmem, data_itemsOf h hK hmem, shownName_of_ne (hlead q hmem), hchildren]
        rfl
      rw [List.mapM_map]
      obtain ⟨items, hitems, hnames, hshows⟩ := exists_mapM hall
      exact ⟨items, hitems, hnames, allShow_iff.mpr hshows⟩

end Shown

section Results

variable {grows : Nat → Bool} {list : ConfigList} {names : List Text} {n : Text}
  {items : TreeItems}

/-- No name begins or ends with a slash. -/
def PlainNames (names : List Text) : Prop :=
  ∀ n ∈ names, n.head? ≠ some '/' ∧ n.getLast? ≠ some '/'

/-- What begins with a slash comes from a name that does. -/
theorem head_of_mem_pathsOf (h : PlainNames names) {q : Text} (hq : q ∈ pathsOf '/' names) :
    q.head? ≠ some '/' := by
  obtain ⟨hne, n, hn, hpre⟩ := mem_pathsOf.mp hq
  obtain ⟨rest, rfl⟩ := prefix_of_mem_prefixesOf hpre
  obtain ⟨c, q, rfl⟩ := List.exists_cons_of_ne_nil hne
  exact (h _ hn).1

/-- **The model is faithful for names without slashes at their ends**, if no folder moves. -/
theorem faithful_itemsOf (hne : [] ∉ list.keys) (hplain : PlainNames list.keys)
    (hstays : Stays grows (pathsOf '/' list.keys)) :
    Faithful grows list (itemsOf (pathsOf '/' list.keys)) := by
  have hK := pathTree_pathsOf '/' list.keys
  have hlead : ∀ q ∈ pathsOf '/' list.keys, q.head? ≠ some '/' :=
    fun q hq => head_of_mem_pathsOf hplain hq
  have hlast : ∀ n ∈ list.keys, n.getLast? ≠ some '/' := fun n hn => (hplain n hn).2
  have hloaded := loaded_loadingOf hlast
  have hpaths : ∀ {q}, q ∈ pathsOf '/' list.keys ↔ q ≠ [] ∧ ∃ n ∈ list.keys, q ∈ prefixesOf '/' n :=
    mem_pathsOf
  generalize pathsOf '/' list.keys = K at *
  have hdata : ∀ q ∈ K, (itemsOf K).data grows ((itemsOf K).indexOf grows (K.idxOf q)) =
      some q := by
    intro q hq
    rw [data_itemsOf hstays hK hq, shownName_of_ne (hlead q hq)]
  refine ⟨fun n hn => ?_, fun i hi => ?_, fun par row ix hpar hix => ?_, ?_,
    fun before n after hkeys => ?_⟩
  · have hn0 : n ≠ [] := ne_of_mem_of_not_mem hn hne
    have hmem : n ∈ K := hpaths.mpr ⟨hn0, n, hn, self_mem_prefixesOf n⟩
    refine ⟨_, idxOf_lt_itemsOf hmem, ?_, hdata n hmem, fun j hj hdj => ?_⟩
    · refine find_itemsOf hK hlead hn0 fun q hq => hpaths.mpr ⟨?_, n, hn, hq⟩
      rintro rfl
      exact nil_notMem_prefixesOf hn0 (hplain n hn).1 hq
    · obtain ⟨q, hq, rfl⟩ := exists_path hK hj
      rw [hdata q hq] at hdj
      rw [Option.some.inj hdj]
  · obtain ⟨q, hq, rfl⟩ := exists_path hK hi
    exact ⟨_, parent_itemsOf hstays hK hq, index_place grows hK hq⟩
  · obtain ⟨d, hd, rfl⟩ : ∃ d, (d = [] ∨ d ∈ K) ∧ par = indexOfPath grows K d := by
      rcases hpar with rfl | ⟨i, hi, rfl⟩
      · exact ⟨[], .inl rfl, rfl⟩
      · obtain ⟨q, hq, rfl⟩ := exists_path hK hi
        exact ⟨q, .inr hq, (if_neg (ne_of_mem_of_not_mem hq hK.nil_notMem)).symm⟩
    rw [index_itemsOf hK hd, Option.some.injEq] at hix
    obtain ⟨q, hq, rfl⟩ := Option.map_eq_some_iff.mp hix
    obtain ⟨hlt, rfl⟩ := List.getElem?_eq_some_iff.mp hq
    obtain ⟨hmem, hdir⟩ := mem_childrenOf.mp (List.getElem_mem hlt)
    have hplace : row = (itemsOf K).place (K.idxOf (childrenOf '/' K d)[row]) := by
      rw [place_itemsOf hK hmem, hdir, (nodup_childrenOf hK d).idxOf_getElem]
    have hparent := parent_itemsOf hstays hK hmem
    rw [TreeItems.indexOf, ← hplace, hdir] at hparent
    exact hparent
  · obtain ⟨shown, hshown, hbelow⟩ := shown_itemsOf hstays hK hlead (.inl rfl)
      (by omega : K.length + 1 ≤ depth [] + (K.length + 1))
    rw [length_itemsOf]
    refine hshown.trans (congrArg some ?_)
    exact hbelow.unique hloaded.tree
  · have hbefore : ∀ m ∈ before ++ [n], m.getLast? ≠ some '/' := by
      intro m hm
      refine hlast m ?_
      rw [hkeys]
      rcases List.mem_append.mp hm with hm | hm
      · exact List.mem_append_left _ hm
      · rw [List.mem_singleton.mp hm]
        simp
    have hn : n ∈ list.keys := by rw [hkeys]; simp
    have hn0 : n ≠ [] := ne_of_mem_of_not_mem hn hne
    have hpart := loaded_loadingOf hbefore
    have hmem : n ∈ pathsOf '/' (before ++ [n]) :=
      mem_pathsOf.mpr ⟨hn0, n, by simp, self_mem_prefixesOf n⟩
    obtain ⟨path, hfind⟩ := Option.isSome_iff_exists.mp ((hpart.known n).mpr (.inr hmem))
    obtain ⟨sib, hsib⟩ := hpart.leads n path hfind
    rw [keyOf, if_neg hn0] at hsib
    exact ⟨path, sib, hfind, hsib⟩

theorem folders_newItem {l : Loading} {dir : List Nat} {text full k : Text}
    (h : (l.newItem dir text full).1.folders.find k ≠ none) :
    l.folders.find k ≠ none ∨ k = full := by
  rw [Loading.newItem, OrderedMap.find_insert] at h
  split_ifs at h with hk
  · exact .inr hk.symm
  · exact .inl h

theorem folders_newFolders {l : Loading} {dir : List Nat} {tmp k : Text} {parts : List Text}
    (h : (l.newFolders dir tmp parts).folders.find k ≠ none) :
    l.folders.find k ≠ none ∨ k ∈ prefixesFrom '/' tmp parts := by
  induction parts generalizing l dir tmp with
  | nil => exact .inl h
  | cons part parts ih =>
      rw [Loading.newFolders] at h
      rw [prefixesFrom, List.mem_cons]
      cases hfind : l.folders.find (tmp ++ part) with
      | some item =>
          simp only [hfind] at h
          exact (ih h).imp_right .inr
      | none =>
          simp only [hfind] at h
          rcases ih h with h | h
          · exact (folders_newItem h).imp_right .inl
          · exact .inr (.inr h)

/-- What is in `folders` comes from the names. -/
theorem folders_add {l : Loading} {k : Text} (h : (l.add n).folders.find k ≠ none) :
    l.folders.find k ≠ none ∨ k <+: if n.getLast? = some '/' then n.dropLast else n := by
  rw [Loading.add] at h
  by_cases hknown : (l.folders.find n).isSome
  · rw [if_pos hknown] at h
    exact .inl h
  · rw [if_neg hknown] at h
    generalize (if n.getLast? = some '/' then n.dropLast else n) = full at h ⊢
    rcases folders_newItem h with h | rfl
    · split_ifs at h with hdir
      · exact .inl h
      · refine (folders_newFolders h).imp_right fun hk => ?_
        rcases path_cases '/' full with hfull | ⟨d, c, hc, rfl⟩
        · rw [List.splitOn_eq_singleton hfull] at hk
          exact absurd hk List.not_mem_nil
        · rw [splitOn_append_cons hc, List.dropLast_concat] at hk
          exact (prefix_of_mem_prefixesOf hk).trans (List.prefix_append _ _)
    · exact .inr List.prefix_rfl

theorem folders_loadingOf {k : Text} (h : (loadingOf names).folders.find k ≠ none) :
    k = [] ∨ ∃ m ∈ names, k <+: m := by
  induction names using List.reverseRecOn with
  | nil =>
      rw [loadingOf, List.foldl_nil, OrderedMap.find_insert] at h
      split_ifs at h with hk
      · exact .inl hk.symm
      · exact absurd rfl h
  | append_singleton names m ih =>
      rw [loadingOf, List.foldl_append, List.foldl_cons, List.foldl_nil] at h
      rcases folders_add h with h | h
      · exact (ih h).imp_right fun ⟨l, hl, hk⟩ => ⟨l, List.mem_append_left _ hl, hk⟩
      · refine .inr ⟨m, by simp, h.trans ?_⟩
        split_ifs
        · exact List.dropLast_prefix m
        · exact List.prefix_rfl

/-- A name that ends with a slash is not filed under its key. -/
theorem Faithful.getLast (h : Faithful grows list items) (hne : [] ∉ list.keys)
    (hn : n ∈ list.keys) : n.getLast? ≠ some '/' := by
  intro hlast
  have hn0 : n ≠ [] := ne_of_mem_of_not_mem hn hne
  obtain ⟨before, after, hkeys⟩ := List.append_of_mem hn
  obtain ⟨path, sib, hfind, -⟩ := h.filed before n after hkeys
  have hsome : (loadingOf (before ++ [n])).folders.find n ≠ none := by
    rw [hfind]
    exact Option.some_ne_none _
  rw [loadingOf, List.foldl_append, List.foldl_cons, List.foldl_nil] at hsome
  rcases folders_add hsome with hbefore | hchop
  · rcases folders_loadingOf hbefore with hnil | ⟨m, hm, hpre⟩
    · exact hn0 hnil
    · -- a name comes before the names that it begins
      have hsorted : list.keys.Pairwise (· < ·) := List.pairwise_map.mpr list.sorted
      rw [hkeys, List.pairwise_append] at hsorted
      have hlt := hsorted.2.2 m hm n List.mem_cons_self
      exact absurd hlt (List.not_lt.mpr hpre.le)
  · rw [if_pos hlast] at hchop
    have hle := hchop.length_le
    have hpos := List.length_pos_of_ne_nil hn0
    rw [List.length_dropLast] at hle
    omega

/-- Where `index` and `parent` are inverse, no folder has been moved. -/
theorem Faithful.stays {K : List Text} (h : Faithful grows list (itemsOf K))
    (hK : PathTree '/' K) : Stays grows K := by
  intro q hq hchild
  obtain ⟨p, hp, rfl⟩ := List.mem_map.mp hchild
  have hne := ne_of_mem_of_not_mem hq hK.nil_notMem
  obtain ⟨par, hpar, -⟩ := h.index_parent _ (idxOf_lt_itemsOf hp)
  rw [← moves_itemsOf hK hq]
  simp only [TreeItems.parent, TreeItems.indexOf, deref_pointer hp, getElem?_itemsOf hp,
    Option.bind_some, ptrOf, if_neg hne, deref_ptrOf hq] at hpar
  by_contra hmoved
  rw [if_neg hmoved] at hpar
  cases hpar

/-- The longest of the names that begin with a slash would be the data of no item. -/
theorem Faithful.head (h : Faithful grows list (itemsOf (pathsOf '/' list.keys)))
    (hK : PathTree '/' (pathsOf '/' list.keys))
    (hstays : Stays grows (pathsOf '/' list.keys)) (hn : n ∈ list.keys) : n.head? ≠ some '/' := by
  intro hhead
  obtain ⟨m, hm, hlongest⟩ := Finset.exists_max_image
    (list.keys.toFinset.filter fun m => m.head? = some '/') List.length ⟨n, by simp [hn, hhead]⟩
  rw [Finset.mem_filter, List.mem_toFinset] at hm
  obtain ⟨i, hi, -, hdata, -⟩ := h.found m hm.1
  obtain ⟨q, hq, rfl⟩ := exists_path hK hi
  rw [data_itemsOf hstays hK hq, Option.some.injEq] at hdata
  have hqhead : q.head? = some '/' := by
    by_contra hno
    rw [shownName_of_ne hno] at hdata
    exact hno (hdata ▸ hm.2)
  obtain ⟨q', rfl⟩ : ∃ q', q = '/' :: q' := by
    cases q with
    | nil => cases hqhead
    | cons c q' => exact ⟨q', by rw [Option.some.inj hqhead]⟩
  rw [shownName, if_pos rfl] at hdata
  obtain ⟨-, l, hl, hpre⟩ := mem_pathsOf.mp hq
  obtain ⟨rest, rfl⟩ := prefix_of_mem_prefixesOf hpre
  have hle := hlongest _ (Finset.mem_filter.mpr ⟨List.mem_toFinset.mpr hl, rfl⟩)
  rw [hdata, List.length_append, List.length_cons] at hle
  omega

/-- **When the model shows the names.** -/
theorem faithful_iff (hne : [] ∉ list.keys) :
    (∃ items, QtSessionTreeModel grows list.keys = some items ∧ Faithful grows list items) ↔
      PlainNames list.keys ∧ Stays grows (pathsOf '/' list.keys) := by
  constructor
  · rintro ⟨items, hitems, h⟩
    have hlast : ∀ n ∈ list.keys, n.getLast? ≠ some '/' := fun n hn => h.getLast hne hn
    obtain rfl := (gives_model grows hlast).1 items hitems
    have hK := pathTree_pathsOf '/' list.keys
    have hstays := h.stays hK
    refine ⟨fun n hn => ⟨fun hhead => ?_, hlast n hn⟩, hstays⟩
    exact h.head hK hstays hn hhead
  · rintro ⟨hplain, hstays⟩
    obtain ⟨hgives, hsome⟩ := gives_model grows fun n hn => (hplain n hn).2
    obtain ⟨items, hitems⟩ := Option.ne_none_iff_exists'.mp (hsome hstays)
    refine ⟨items, hitems, ?_⟩
    rw [hgives items hitems]
    exact faithful_itemsOf hne hplain hstays

end Results

section Examples

/-- A store with the given names. -/
def storeOf (names : List Text) : ConfigList :=
  names.foldl (fun list name => list.insert name ⟨name, none⟩) OrderedMap.empty

/-- The sizes at which a list of items of 56 bytes grows, with 16 bytes before them and powers
of two for the whole. -/
def growsAt (n : Nat) : Bool := [0, 2, 4, 8, 18, 36].contains n

/-- The sessions `a` and `a/b` are shown. -/
theorem faithful_iff_folder :
    ∃ items, QtSessionTreeModel growsAt (storeOf [['a'], ['a', '/', 'b']]).keys = some items ∧
      Faithful growsAt (storeOf [['a'], ['a', '/', 'b']]) items := by
  have hkeys : (storeOf [['a'], ['a', '/', 'b']]).keys = [['a'], ['a', '/', 'b']] := rfl
  have hne : [] ∉ (storeOf [['a'], ['a', '/', 'b']]).keys := by simp [hkeys]
  refine (faithful_iff hne).mpr ⟨?_, ?_⟩
  · rw [hkeys]
    intro n hn
    fin_cases hn <;> simp
  · have hpaths : pathsOf '/' (storeOf [['a'], ['a', '/', 'b']]).keys =
        [['a'], ['a', '/', 'b']] := rfl
    have hone : ∀ q ∈ ([['a'], ['a', '/', 'b']] : List Text),
        (childrenOf '/' [['a'], ['a', '/', 'b']] (dirOf '/' q)).length = 1 := by
      intro q hq
      fin_cases hq <;> rfl
    rw [hpaths]
    intro q hq _ n hlt hlen
    rw [hone q hq] at hlen
    omega

/-- The session `a/` is shown as `a`.  With the sessions `a/b`, `c` and `d` the folder `a` is
moved when `d` comes, and the parent of `a/b` is lost. -/
theorem not_faithful_slash :
    (¬ ∃ items, QtSessionTreeModel growsAt (storeOf [['a', '/']]).keys = some items ∧
      Faithful growsAt (storeOf [['a', '/']]) items) ∧
    ¬ ∃ items, QtSessionTreeModel growsAt (storeOf [['a', '/', 'b'], ['c'], ['d']]).keys =
      some items ∧ Faithful growsAt (storeOf [['a', '/', 'b'], ['c'], ['d']]) items := by
  constructor
  · rintro ⟨items, -, h⟩
    have hkeys : (storeOf [['a', '/']]).keys = [['a', '/']] := rfl
    exact h.getLast (by simp [hkeys]) (by rw [hkeys]; exact List.mem_cons_self) rfl
  · rintro ⟨items, hitems, h⟩
    have hlast : ∀ n ∈ (storeOf [['a', '/', 'b'], ['c'], ['d']]).keys, n.getLast? ≠ some '/' := by
      have hkeys : (storeOf [['a', '/', 'b'], ['c'], ['d']]).keys =
        [['a', '/', 'b'], ['c'], ['d']] := rfl
      rw [hkeys]
      intro n hn
      fin_cases hn <;> simp
    have hpaths : pathsOf '/' (storeOf [['a', '/', 'b'], ['c'], ['d']]).keys =
        [['a'], ['a', '/', 'b'], ['c'], ['d']] := rfl
    have hitems' := (gives_model growsAt hlast).1 items hitems
    have hK := pathTree_pathsOf '/' (storeOf [['a', '/', 'b'], ['c'], ['d']]).keys
    rw [hpaths] at hitems' hK
    rw [hitems'] at h
    have hfolder : ['a'] ∈ [['a'], ['a', '/', 'b'], ['c'], ['d']].map (dirOf '/') :=
      List.mem_map.mpr ⟨['a', '/', 'b'], by simp, rfl⟩
    have hgrows := h.stays hK ['a'] List.mem_cons_self hfolder 2 (by decide) (by decide)
    cases hgrows

end Examples

end Config
end Qutty
