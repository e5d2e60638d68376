import Qutty.Config.SessionTree
import Qutty.Lib.PathTree

/-!
# The paths that `loadSessionNames` shows

A tree of items shows a `PathTree` if the items below each one are the children of its path, in
their order (`ShowsTree`).  There is only one such tree (`ShowsTree.unique`), and
`loadSessionNames` builds it for the names of `config_list`, if none ends with a slash
(`shows_loadSessionNames`).
-/

namespace Qutty
namespace Config

open Lib Lib.ByteOrder

mutual

/-- An item shows its path and what is below it. -/
def SessionItem.Shows (K : List Text) : SessionItem → Prop
  | .mk text full children =>
      text = baseOf '/' full ∧ children.map SessionItem.fullSessname = childrenOf '/' K full ∧
        AllShow K children

/-- Every one of the items shows its path. -/
def AllShow (K : List Text) : List SessionItem → Prop
  | [] => True
  | item :: items => item.Shows K ∧ AllShow K items

end

/-- The items show what is below a path. -/
structure ShowsBelow (K : List Text) (d : Text) (items : List SessionItem) : Prop where
  names : items.map SessionItem.fullSessname = childrenOf '/' K d
  all : AllShow K items

/-- The key of an item; that of the invisible root is none. -/
def keyOf (d : Text) : Option Text := if d = [] then none else some d

section Shows

variable {K : List Text} {d e q : Text} {item : SessionItem} {items new sib : List SessionItem}
  {path : List Nat} {parent p : Option Text}

theorem allShow_iff : AllShow K items ↔ ∀ item ∈ items, item.Shows K := by
  induction items with
  | nil => simp [AllShow]
  | cons item items ih => simp [AllShow, ih]

theorem allShow_append {items' : List SessionItem} :
    AllShow K (items ++ items') ↔ AllShow K items ∧ AllShow K items' := by
  simp only [allShow_iff, List.mem_append]
  constructor
  · exact fun h => ⟨fun item hi => h item (.inl hi), fun item hi => h item (.inr hi)⟩
  · exact fun h item hi => hi.elim (h.1 item) (h.2 item)

theorem keyOf_eq_some (h : keyOf d = some e) : d = e := by
  rw [keyOf] at h
  split_ifs at h
  exact Option.some.inj h

theorem keyOf_injective (h : keyOf d = keyOf e) : d = e := by
  by_cases he : e = []
  · rw [keyOf, keyOf, if_pos he] at h
    split_ifs at h with hd
    rw [hd, he]
  · refine keyOf_eq_some ?_
    rw [h, keyOf, if_neg he]

theorem SessionItem.shows_iff : item.Shows K ↔
    item.text = baseOf '/' item.fullSessname ∧ ShowsBelow K item.fullSessname item.children := by
  cases item
  exact ⟨fun h => ⟨h.1, h.2.1, h.2.2⟩, fun h => ⟨h.1, h.2.1, h.2.2⟩⟩

theorem shows_withChildren : (item.withChildren new).Shows K ↔
    item.text = baseOf '/' item.fullSessname ∧ ShowsBelow K item.fullSessname new := by
  cases item
  exact ⟨fun h => ⟨h.1, h.2.1, h.2.2⟩, fun h => ⟨h.1, h.2.1, h.2.2⟩⟩

mutual

/-- An item is known from its full name. -/
theorem SessionItem.Shows.unique {item item' : SessionItem} (h : item.Shows K)
    (h' : item'.Shows K) (hfull : item.fullSessname = item'.fullSessname) : item = item' := by
  match item, item' with
  | .mk text full children, .mk text' full' children' =>
      obtain rfl : full = full' := hfull
      obtain ⟨rfl, hnames, hall⟩ := h
      obtain ⟨rfl, hnames', hall'⟩ := h'
      rw [AllShow.unique hall hall' (hnames.trans hnames'.symm)]

theorem AllShow.unique {items items' : List SessionItem} (h : AllShow K items)
    (h' : AllShow K items')
    (hnames : items.map SessionItem.fullSessname = items'.map SessionItem.fullSessname) :
    items = items' := by
  match items, items' with
  | [], [] => rfl
  | [], item' :: items' => simp at hnames
  | item :: items, [] => simp at hnames
  | item :: items, item' :: items' =>
      obtain ⟨hfull, hnames⟩ := List.cons.inj hnames
      rw [SessionItem.Shows.unique h.1 h'.1 hfull, AllShow.unique h.2 h'.2 hnames]

end

/-- **There is one tree that shows the paths.** -/
theorem ShowsBelow.unique {items' : List SessionItem} (h : ShowsBelow K d items)
    (h' : ShowsBelow K d items') : items = items' :=
  h.all.unique h'.all (h.names.trans h'.names.symm)

/-- What is at the end of a path of rows. -/
theorem siblingsAt_append (path : List Nat) (j : Nat)
    (h : siblingsAt parent path items = some (p, sib)) :
    siblingsAt parent (path ++ [j]) items =
      sib[j]?.map fun item => (some item.fullSessname, item.children) := by
  induction path generalizing parent items with
  | nil =>
      obtain ⟨-, rfl⟩ := Prod.mk.inj (Option.some.inj h)
      rw [List.nil_append, siblingsAt]
      cases items[j]? <;> rfl
  | cons i path ih =>
      rw [siblingsAt] at h
      rw [List.cons_append, siblingsAt]
      cases hitem : items[i]? with
      | none => simp [hitem] at h
      | some item =>
          rw [hitem] at h
          exact ih h

variable (new) in
theorem siblingsAt_setSiblings (h : siblingsAt parent path items = some (p, sib)) :
    siblingsAt parent path (setSiblings path new items) = some (p, new) := by
  induction path generalizing parent items with
  | nil =>
      obtain ⟨rfl, -⟩ := Prod.mk.inj (Option.some.inj h)
      rfl
  | cons i path ih =>
      rw [siblingsAt] at h
      cases hitem : items[i]? with
      | none => simp [hitem] at h
      | some item =>
          rw [hitem] at h
          rw [setSiblings, siblingsAt, List.getElem?_modify_eq, hitem]
          cases item
          exact ih h

/-- The other paths of rows lead where they led, if items are added at the end. -/
theorem siblingsAt_addSiblings {path' : List Nat} {p' : Option Text} {sib' : List SessionItem}
    (h : siblingsAt parent path items = some (p, sib))
    (h' : siblingsAt parent path' items = some (p', sib')) :
    ∃ sib'', siblingsAt parent path' (setSiblings path (sib ++ new) items) = some (p', sib'') := by
  induction path generalizing parent items path' with
  | nil =>
      obtain ⟨-, rfl⟩ := Prod.mk.inj (Option.some.inj h)
      rw [setSiblings]
      cases path' with
      | nil =>
          obtain ⟨rfl, -⟩ := Prod.mk.inj (Option.some.inj h')
          exact ⟨_, rfl⟩
      | cons j path' =>
          rw [siblingsAt] at h'
          rw [siblingsAt]
          cases hitem : items[j]? with
          | none => simp [hitem] at h'
          | some item =>
              rw [hitem] at h'
              rw [List.getElem?_append_left (List.getElem?_eq_some_iff.mp hitem).1, hitem]
              exact ⟨_, h'⟩
  | cons i path ih =>
      cases path' with
      | nil =>
          obtain ⟨rfl, -⟩ := Prod.mk.inj (Option.some.inj h')
          exact ⟨_, rfl⟩
      | cons j path' =>
          rw [siblingsAt] at h h'
          rw [setSiblings, siblingsAt]
          cases hitem : items[i]? with
          | none => simp [hitem] at h
          | some item =>
              rw [hitem] at h
              by_cases hij : i = j
              · subst hij
                rw [hitem] at h'
                rw [List.getElem?_modify_eq, hitem]
                cases item
                exact ih h h'
              · rw [List.getElem?_modify_ne _ _ hij]
                exact ⟨_, h'⟩

/-- A path of rows below an item leads below its path. -/
theorem below_of_siblingsAt (hK : PathTree '/' K) (hd : d ∈ K) (h : ShowsBelow K d items)
    (hat : siblingsAt (some d) path items = some (p, sib)) : ∃ e, p = some e ∧ Below '/' d e := by
  induction path generalizing d items with
  | nil =>
      obtain ⟨rfl, -⟩ := Prod.mk.inj (Option.some.inj hat)
      exact ⟨d, rfl, .refl d⟩
  | cons i path ih =>
      rw [siblingsAt] at hat
      cases hitem : items[i]? with
      | none => simp [hitem] at hat
      | some item =>
          rw [hitem] at hat
          have hmem := List.mem_of_getElem? hitem
          have hfull : item.fullSessname ∈ childrenOf '/' K d := by
            rw [← h.names]
            exact List.mem_map_of_mem hmem
          obtain ⟨hKm, hdir⟩ := mem_childrenOf.mp hfull
          have hshows := SessionItem.shows_iff.mp (allShow_iff.mp h.all item hmem)
          obtain ⟨e, rfl, he⟩ := ih hKm hshows.2 hat
          have hne := ne_of_mem_of_not_mem hd hK.nil_notMem
          exact ⟨e, rfl, (below_of_dirOf hdir hne).trans he⟩

theorem childrenOf_append_of_ne (h : dirOf '/' q ≠ d) :
    childrenOf '/' (K ++ [q]) d = childrenOf '/' K d := by
  rw [childrenOf_append]
  simp [childrenOf, h]

mutual

/-- A new path elsewhere changes nothing. -/
theorem SessionItem.Shows.append {item : SessionItem} (hK : PathTree '/' K) (h : item.Shows K)
    (hmem : item.fullSessname ∈ K) (hq : ¬ Below '/' item.fullSessname (dirOf '/' q)) :
    item.Shows (K ++ [q]) := by
  match item with
  | .mk text full children =>
      obtain ⟨htext, hnames, hall⟩ := h
      have hne : dirOf '/' q ≠ full := fun heq => hq (heq ▸ .refl _)
      refine ⟨htext, by rw [hnames, childrenOf_append_of_ne hne], ?_⟩
      refine AllShow.append hK hall (fun name hname => ?_)
      rw [hnames] at hname
      obtain ⟨hKm, hdir⟩ := mem_childrenOf.mp hname
      have hfull : full ≠ [] := ne_of_mem_of_not_mem hmem hK.nil_notMem
      exact ⟨hKm, fun hbelow => hq ((below_of_dirOf hdir hfull).trans hbelow)⟩

theorem AllShow.append {items : List SessionItem} (hK : PathTree '/' K) (h : AllShow K items)
    (hq : ∀ name ∈ items.map SessionItem.fullSessname,
      name ∈ K ∧ ¬ Below '/' name (dirOf '/' q)) : AllShow (K ++ [q]) items := by
  match items with
  | [] => trivial
  | item :: items =>
      obtain ⟨hmem, hbelow⟩ := hq _ List.mem_cons_self
      exact ⟨SessionItem.Shows.append hK h.1 hmem hbelow,
        AllShow.append hK h.2 fun name hname => hq name (List.mem_cons_of_mem _ hname)⟩

end

/-- A directory does not lie below what is in it. -/
theorem not_below_dirOf (hq : q ≠ []) : ¬ Below '/' q (dirOf '/' q) := by
  intro h
  have hle := h.length_le
  have hlt := length_dirOf_lt '/' hq
  simp only [List.length_append, List.length_singleton] at hle
  omega

theorem shows_new (hK : PathTree '/' K) (hne : q ≠ []) (hq : q ∉ K) :
    (SessionItem.mk (baseOf '/' q) q []).Shows (K ++ [q]) := by
  refine ⟨rfl, ?_, trivial⟩
  symm
  rw [List.map_nil, List.eq_nil_iff_forall_not_mem]
  intro x hx
  obtain ⟨hx, hdir⟩ := mem_childrenOf.mp hx
  rcases List.mem_append.mp hx with hx | hx
  · have hclosed := hK.closed x hx
    rw [hdir] at hclosed
    exact hclosed.elim hne hq
  · rw [List.mem_singleton.mp hx] at hdir
    refine not_below_dirOf hne ?_
    rw [hdir]
    exact .refl q

/-- **A new item in its folder shows one more path.** -/
theorem ShowsBelow.addItem (hK : PathTree '/' K) (h : ShowsBelow K d items) (hne : q ≠ [])
    (hq : q ∉ K) (hat : siblingsAt (keyOf d) path items = some (keyOf (dirOf '/' q), sib)) :
    ShowsBelow (K ++ [q]) d (setSiblings path (sib ++ [.mk (baseOf '/' q) q []]) items) := by
  have hin : ∀ item ∈ items, item.fullSessname ∈ K ∧ dirOf '/' item.fullSessname = d := by
    intro item hitem
    rw [← mem_childrenOf, ← h.names]
    exact List.mem_map_of_mem hitem
  induction path generalizing items d with
  | nil =>
      obtain ⟨hkey, rfl⟩ := Prod.mk.inj (Option.some.inj hat)
      obtain rfl := keyOf_injective hkey
      constructor
      · rw [setSiblings, List.map_append, h.names, childrenOf_append]
        simp [childrenOf, SessionItem.fullSessname]
      · rw [setSiblings, allShow_append]
        refine ⟨AllShow.append hK h.all fun name hname => ?_, shows_new hK hne hq, trivial⟩
        obtain ⟨item, hitem, rfl⟩ := List.mem_map.mp hname
        obtain ⟨hmem, hdir⟩ := hin item hitem
        rw [← hdir]
        exact ⟨hmem, not_below_dirOf (ne_of_mem_of_not_mem hmem hK.nil_notMem)⟩
  | cons i path ih =>
      rw [siblingsAt] at hat
      cases hitem : items[i]? with
      | none => simp [hitem] at hat
      | some item =>
          rw [hitem] at hat
          have hmemi := List.mem_of_getElem? hitem
          obtain ⟨hmem, hdir⟩ := hin item hmemi
          have hfull := ne_of_mem_of_not_mem hmem hK.nil_notMem
          have hshows := SessionItem.shows_iff.mp (allShow_iff.mp h.all item hmemi)
          obtain ⟨e, he, hbelow⟩ := below_of_siblingsAt hK hmem hshows.2 hat
          -- the folder of the new item is below this item, and below no other one
          obtain rfl : dirOf '/' q = e := keyOf_eq_some he
          have hne' : dirOf '/' q ≠ d := by
            rintro rfl
            rw [← hdir] at hbelow
            exact not_below_dirOf hfull hbelow
          have hchild : ShowsBelow (K ++ [q]) item.fullSessname
              (setSiblings path (sib ++ [.mk (baseOf '/' q) q []]) item.children) := by
            refine ih hshows.2 ?_ fun child hchild => ?_
            · rw [keyOf, if_neg hfull]
              exact hat
            · rw [← mem_childrenOf, ← hshows.2.names]
              exact List.mem_map_of_mem hchild
          have hsplit := split_at hitem
          have hnames := h.names
          rw [hsplit, List.map_append, List.map_cons] at hnames
          have hothers : ∀ name ∈ (items.take i).map SessionItem.fullSessname ++
              (items.drop (i + 1)).map SessionItem.fullSessname,
              name ∈ K ∧ ¬ Below '/' name (dirOf '/' q) := by
            intro name hname
            have hnodup := nodup_childrenOf hK d
            rw [← hnames, List.nodup_middle] at hnodup
            have hchild : name ∈ childrenOf '/' K d := by
              rw [← hnames]
              exact (List.perm_middle.mem_iff).mpr (List.mem_cons_of_mem _ hname)
            obtain ⟨hmemn, hdirn⟩ := mem_childrenOf.mp hchild
            refine ⟨hmemn, fun hbelown => ?_⟩
            have heq := eq_of_below (hdirn.trans hdir.symm)
              (ne_of_mem_of_not_mem hmemn hK.nil_notMem) hfull hbelown hbelow
            rw [heq] at hname
            exact (List.nodup_cons.mp hnodup).1 hname
          rw [setSiblings, modify_eq hitem]
          have hall := h.all
          rw [hsplit, allShow_append] at hall
          constructor
          · rw [childrenOf_append_of_ne hne', ← hnames, List.map_append, List.map_cons]
            cases item
            rfl
          · rw [allShow_append]
            refine ⟨AllShow.append hK hall.1 fun name hname => ?_, ?_,
              AllShow.append hK hall.2.2 fun name hname => ?_⟩
            · exact hothers name (List.mem_append_left _ hname)
            · exact shows_withChildren.mpr ⟨hshows.1, hchild⟩
            · exact hothers name (List.mem_append_right _ hname)

end Shows

section Loading

variable {K : List Text} {l : Loading} {q d n tmp : Text} {path : List Nat}
  {sib : List SessionItem} {parts names : List Text}

/-- `loadSessionNames` has come to a tree of paths, and `folders` leads to their items. -/
structure Loaded (K : List Text) (l : Loading) : Prop where
  tree : ShowsBelow K [] l.tree
  known : ∀ q, (l.folders.find q).isSome ↔ q = [] ∨ q ∈ K
  leads : ∀ q path, l.folders.find q = some path →
    ∃ sib, siblingsAt none path l.tree = some (keyOf q, sib)

/-- A new item is that of a new path. -/
theorem newItem_loaded (h : Loaded K l) (hK : PathTree '/' K) (hne : q ≠ []) (hq : q ∉ K)
    (hat : siblingsAt none path l.tree = some (keyOf (dirOf '/' q), sib)) :
    Loaded (K ++ [q]) (l.newItem path (baseOf '/' q) q).1 ∧
      (l.newItem path (baseOf '/' q) q).1.folders.find q =
        some (l.newItem path (baseOf '/' q) q).2 := by
  have hnew : l.newItem path (baseOf '/' q) q =
      (⟨setSiblings path (sib ++ [.mk (baseOf '/' q) q []]) l.tree,
        l.folders.insert q (path ++ [sib.length])⟩, path ++ [sib.length]) := by
    rw [Loading.newItem, hat]
    rfl
  rw [hnew]
  refine ⟨⟨h.tree.addItem hK hne hq hat, fun x => ?_, fun x path' hx => ?_⟩, ?_⟩
  · rw [OrderedMap.find_insert, List.mem_append, List.mem_singleton]
    by_cases hxq : q = x
    · simp [hxq]
    · rw [if_neg hxq, h.known]
      simp [Ne.symm hxq]
  · rw [OrderedMap.find_insert] at hx
    split_ifs at hx with hxq
    · obtain rfl := Option.some.inj hx
      have hset := siblingsAt_setSiblings (sib ++ [.mk (baseOf '/' q) q []]) hat
      have hkey : keyOf x = some q := by rw [keyOf, ← hxq, if_neg hne]
      rw [siblingsAt_append _ _ hset, hkey]
      exact ⟨[], by simp [SessionItem.fullSessname, SessionItem.children]⟩
    · obtain ⟨sib', hsib⟩ := h.leads x path' hx
      exact siblingsAt_addSiblings hat hsib
  · rw [OrderedMap.find_insert, if_pos rfl]

/-- The loop over the directories adds their paths. -/
theorem newFolders_loaded (h : Loaded K l) (hK : PathTree '/' K) (hd : d = [] ∨ d ∈ K)
    (hat : siblingsAt none path l.tree = some (keyOf d, sib))
    (htmp : tmp = d ++ ['/'] ∨ d = [] ∧ tmp = []) (hparts : ∀ part ∈ parts, '/' ∉ part) :
    Loaded ((prefixesFrom '/' tmp parts).foldl insertPath K) (l.newFolders path tmp parts) := by
  induction parts generalizing K l d tmp path sib with
  | nil => exact h
  | cons part parts ih =>
      have hpart := hparts part List.mem_cons_self
      have hrest : ∀ p ∈ parts, '/' ∉ p := fun p hp => hparts p (List.mem_cons_of_mem _ hp)
      obtain ⟨hdir, hbase⟩ := split_tmp htmp hpart
      have hknown := h.known (tmp ++ part)
      rw [prefixesFrom, List.foldl_cons, Loading.newFolders]
      cases hfind : l.folders.find (tmp ++ part) with
      | some path' =>
          rw [hfind] at hknown
          have hmem := hknown.mp rfl
          have hsame : insertPath K (tmp ++ part) = K := if_pos hmem
          obtain ⟨sib', hsib⟩ := h.leads _ _ hfind
          simp only [hsame]
          exact ih h hK hmem hsib (.inl rfl) hrest
      | none =>
          rw [hfind] at hknown
          have hnot : ¬ (tmp ++ part = [] ∨ tmp ++ part ∈ K) := fun hmem => by
            have habs := hknown.mpr hmem
            cases habs
          have hnew : insertPath K (tmp ++ part) = K ++ [tmp ++ part] := if_neg hnot
          rw [← hdir] at hd hat
          have hK' : PathTree '/' (K ++ [tmp ++ part]) := hnew ▸ hK.insertPath hd
          rw [not_or] at hnot
          obtain ⟨hloaded, hmade⟩ := newItem_loaded h hK hnot.1 hnot.2 hat
          rw [hbase] at hloaded hmade
          obtain ⟨sib', hsib⟩ := hloaded.leads _ _ hmade
          simp only [hnew]
          exact ih hloaded hK' (.inr (by simp)) hsib (.inl rfl) hrest

/-- A name without a slash at its end adds its path. -/
theorem add_loaded (h : Loaded K l) (hK : PathTree '/' K) (hlast : n.getLast? ≠ some '/') :
    Loaded (addPath '/' K n) (l.add n) := by
  by_cases hknown : n = [] ∨ n ∈ K
  · rw [Loading.add, if_pos ((h.known n).mpr hknown), hK.addPath_eq_self hknown]
    exact h
  · have hadd : l.add n = ((if (l.folders.find (dirOf '/' n)).isSome then l
          else l.newFolders [] [] (n.splitOn '/').dropLast).newItem
        (((if (l.folders.find (dirOf '/' n)).isSome then l
          else l.newFolders [] [] (n.splitOn '/').dropLast).folders.find (dirOf '/' n)).getD [])
        (baseOf '/' n) n).1 := by
      rw [Loading.add, if_neg fun hsome => hknown ((h.known n).mp hsome)]
      simp only [if_neg hlast]
      rfl
    rw [not_or] at hknown
    have hK' := hK.addPath (dirOf '/' n)
    have hnot := notMem_addPath_dirOf '/' hknown.1 hknown.2
    have hnew := addPath_eq_append '/' hknown.1 hknown.2
    have hfolders : Loaded (addPath '/' K (dirOf '/' n))
        (if (l.folders.find (dirOf '/' n)).isSome then l
          else l.newFolders [] [] (n.splitOn '/').dropLast) := by
      by_cases hdir : dirOf '/' n = [] ∨ dirOf '/' n ∈ K
      · rw [if_pos ((h.known _).mpr hdir), hK.addPath_eq_self hdir]
        exact h
      · rw [if_neg fun hsome => hdir ((h.known _).mp hsome),
          dropLast_splitOn fun hnil => hdir (.inl hnil)]
        exact newFolders_loaded h hK (.inl rfl) rfl (.inr ⟨rfl, rfl⟩) fun _ => notMem_of_mem_splitOn
    rw [hadd, hnew]
    generalize (if (l.folders.find (dirOf '/' n)).isSome then l
      else l.newFolders [] [] (n.splitOn '/').dropLast) = l' at hfolders ⊢
    obtain ⟨path, hfind⟩ := Option.isSome_iff_exists.mp
      ((hfolders.known _).mpr (dirOf_mem_addPath '/' K n))
    obtain ⟨sib, hat⟩ := hfolders.leads _ _ hfind
    rw [hfind]
    exact (newItem_loaded hfolders hK' hknown.1 hnot hat).1

/-- The state of the loop of `loadSessionNames` after some names. -/
def loadingOf (names : List Text) : Loading :=
  names.foldl Loading.add ⟨[], OrderedMap.empty.insert [] []⟩

theorem foldl_loaded (h : Loaded K l) (hK : PathTree '/' K)
    (hlast : ∀ n ∈ names, n.getLast? ≠ some '/') :
    Loaded (names.foldl (addPath '/') K) (names.foldl Loading.add l) := by
  induction names generalizing K l with
  | nil => exact h
  | cons n names ih =>
      exact ih (add_loaded h hK (hlast n List.mem_cons_self)) (hK.addPath n)
        fun m hm => hlast m (List.mem_cons_of_mem _ hm)

/-- **`loadSessionNames` shows the paths of the names**, if none of them ends with a slash. -/
theorem loaded_loadingOf (hlast : ∀ n ∈ names, n.getLast? ≠ some '/') :
    Loaded (pathsOf '/' names) (loadingOf names) := by
  refine foldl_loaded ⟨⟨rfl, trivial⟩, fun q => ?_, fun q path hq => ?_⟩ .nil hlast
  · rw [OrderedMap.find_insert]
    by_cases hq : [] = q
    · simp [← hq]
    · have hempty : (OrderedMap.empty : OrderedMap Text (List Nat)).find q = none := rfl
      simp [hq, Ne.symm hq, hempty]
  · rw [OrderedMap.find_insert] at hq
    split_ifs at hq with hnil
    · obtain rfl := Option.some.inj hq
      exact ⟨[], by rw [keyOf, if_pos hnil.symm]; rfl⟩
    · exact absurd hq (by simp [OrderedMap.find, OrderedMap.empty, OrderedMap.findIn])

end Loading

end Config
end Qutty
