import Qutty.Config.SessionTreeModel

/-!
# The items and the paths of the sessions

The items of `QtSessionTreeModel` stand for the paths of a `PathTree` (`itemsOf`): the names of
the sessions and of their folders, in the order of their creation.  The constructor goes
through these trees (`gives_model`), as long as no folder is moved that something lies in.
-/

namespace Qutty
namespace Config

open Lib Lib.ByteOrder

/-- The pointer to the item of a path; the empty path is the root. -/
def ptrOf (K : List Text) (d : Text) : Option ItemPointer :=
  if d = [] then none else some ⟨K.idxOf d, 0⟩

/-- The number of the item of a path. -/
def idOf (K : List Text) (d : Text) : Option Nat := if d = [] then none else some (K.idxOf d)

/-- The items of a tree of paths. -/
def itemsOf (K : List Text) : TreeItems :=
  K.map fun q => ⟨baseOf '/' q, ptrOf K (dirOf '/' q)⟩

/-- A folder with something in it is not moved after its creation: none of the items that come
behind it makes its list grow. -/
def Stays (grows : Nat → Bool) (K : List Text) : Prop :=
  ∀ q ∈ K, q ∈ K.map (dirOf '/') →
    ∀ n, (childrenOf '/' K (dirOf '/' q)).idxOf q < n →
      n < (childrenOf '/' K (dirOf '/' q)).length → grows n = false

section Lists

variable {α β : Type} [BEq α] [LawfulBEq α] [BEq β] [LawfulBEq β] {l : List α} {a : α} {f : α → β}

theorem idxOf_map_of_injOn (h : ∀ b ∈ l, f b = f a → b = a) :
    (l.map f).idxOf (f a) = l.idxOf a := by
  induction l with
  | nil => rfl
  | cons b l ih =>
      rw [List.map_cons, List.idxOf_cons, List.idxOf_cons,
        ih fun c hc => h c (List.mem_cons_of_mem _ hc)]
      by_cases hb : b = a
      · simp [hb]
      · have hf : f b ≠ f a := fun heq => hb (h b List.mem_cons_self heq)
        rw [beq_false_of_ne hb, beq_false_of_ne hf]

theorem map_idxOf_self (h : l.Nodup) : l.map l.idxOf = List.range l.length := by
  refine List.ext_getElem (by simp) fun i hi _ => ?_
  rw [List.getElem_map, List.getElem_range]
  exact h.idxOf_getElem i (by simpa using hi)

end Lists

section Items

variable {grows : Nat → Bool} {K : List Text} {q d : Text}

@[simp] theorem length_itemsOf (K : List Text) : (itemsOf K).length = K.length :=
  List.length_map _

theorem getElem?_itemsOf (hq : q ∈ K) :
    (itemsOf K)[K.idxOf q]? = some ⟨baseOf '/' q, ptrOf K (dirOf '/' q)⟩ := by
  rw [itemsOf, List.getElem?_map, List.getElem?_idxOf hq]
  rfl

/-- Every item is that of a path. -/
theorem exists_path {i : Nat} (hK : PathTree '/' K) (hi : i < (itemsOf K).length) :
    ∃ q ∈ K, i = K.idxOf q := by
  rw [length_itemsOf] at hi
  exact ⟨K[i], List.getElem_mem hi, (hK.nodup.idxOf_getElem i hi).symm⟩

theorem idxOf_lt_itemsOf (hq : q ∈ K) : K.idxOf q < (itemsOf K).length := by
  rw [length_itemsOf]
  exact List.idxOf_lt_length_of_mem hq

theorem ptrOf_map (K : List Text) (d : Text) : (ptrOf K d).map ItemPointer.item = idOf K d := by
  rw [ptrOf, idOf]
  split_ifs <;> rfl

theorem parentOf_itemsOf (hq : q ∈ K) :
    (itemsOf K).parentOf (K.idxOf q) = idOf K (dirOf '/' q) := by
  rw [TreeItems.parentOf, getElem?_itemsOf hq, ← ptrOf_map]
  rfl

theorem idOf_inj {d e : Text} (hd : d = [] ∨ d ∈ K) : idOf K d = idOf K e ↔ d = e := by
  refine ⟨fun h => ?_, fun h => by rw [h]⟩
  rw [idOf, idOf] at h
  split_ifs at h with hd' he he
  · rw [hd', he]
  · exact (List.idxOf_inj (hd.resolve_left hd')).mp (Option.some.inj h)

/-- The child items are those of the children. -/
theorem childItems_itemsOf (hK : PathTree '/' K) (d : Text) :
    (itemsOf K).childItems (idOf K d) = (childrenOf '/' K d).map K.idxOf := by
  rw [TreeItems.childItems, length_itemsOf, ← map_idxOf_self hK.nodup, List.filter_map,
    childrenOf]
  have hsame : ∀ q ∈ K, ((fun i => decide ((itemsOf K).parentOf i = idOf K d)) ∘ K.idxOf) q =
      decide (dirOf '/' q = d) := by
    intro q hq
    simp only [Function.comp_apply, parentOf_itemsOf hq, idOf_inj (hK.closed q hq)]
  rw [List.filter_congr hsame]

theorem place_itemsOf (hK : PathTree '/' K) (hq : q ∈ K) :
    (itemsOf K).place (K.idxOf q) = (childrenOf '/' K (dirOf '/' q)).idxOf q := by
  rw [TreeItems.place, parentOf_itemsOf hq, childItems_itemsOf hK]
  have hinj : ∀ p ∈ childrenOf '/' K (dirOf '/' q), K.idxOf p = K.idxOf q → p = q :=
    fun p hp heq => (List.idxOf_inj (mem_childrenOf.mp hp).1).mp heq
  exact idxOf_map_of_injOn hinj

/-- An item is where it was if none of the later ones makes its list grow. -/
theorem moves_itemsOf (hK : PathTree '/' K) (hq : q ∈ K) :
    (itemsOf K).moves grows (K.idxOf q) = 0 ↔
      ∀ n, (childrenOf '/' K (dirOf '/' q)).idxOf q < n →
        n < (childrenOf '/' K (dirOf '/' q)).length → grows n = false := by
  rw [TreeItems.moves, place_itemsOf hK hq, parentOf_itemsOf hq, childItems_itemsOf hK,
    List.length_map, List.length_eq_zero_iff, List.filter_eq_nil_iff]
  refine forall_congr' fun n => ?_
  rw [List.mem_range'_1, Bool.not_eq_true]
  constructor
  · exact fun h hlt hlen => h ⟨hlt, by omega⟩
  · exact fun h hn => h (by omega) (by omega)

theorem deref_ptrOf (hq : q ∈ K) :
    (itemsOf K).deref grows ⟨K.idxOf q, 0⟩ =
      if (itemsOf K).moves grows (K.idxOf q) = 0 then some (K.idxOf q) else none := by
  simp only [TreeItems.deref, idxOf_lt_itemsOf hq, true_and]

theorem deref_pointer (hq : q ∈ K) :
    (itemsOf K).deref grows ((itemsOf K).pointer grows (K.idxOf q)) = some (K.idxOf q) :=
  if_pos ⟨idxOf_lt_itemsOf hq, rfl⟩

/-- A folder that is not moved at the end has not been moved before. -/
theorem Stays.moves_before {L : List Text} (h : Stays grows (K ++ L)) (hK : PathTree '/' K)
    (hq : q ∈ K) (hchild : q ∈ (K ++ L).map (dirOf '/')) :
    (itemsOf K).moves grows (K.idxOf q) = 0 := by
  have hmem : q ∈ childrenOf '/' K (dirOf '/' q) := mem_childrenOf.mpr ⟨hq, rfl⟩
  refine (moves_itemsOf hK hq).mpr fun n hlt hlen => ?_
  refine h q (List.mem_append_left _ hq) hchild n ?_ ?_
  · rwa [childrenOf_append, List.idxOf_append_of_mem hmem]
  · rw [childrenOf_append, List.length_append]
    omega

theorem Stays.moves (h : Stays grows K) (hK : PathTree '/' K) (hq : q ∈ K)
    (hchild : q ∈ K.map (dirOf '/')) : (itemsOf K).moves grows (K.idxOf q) = 0 :=
  (moves_itemsOf hK hq).mpr (h q hq hchild)

theorem Stays.of_prefix {K' : List Text} (h : Stays grows K') (hK : PathTree '/' K)
    (hpre : K <+: K') : Stays grows K := by
  obtain ⟨L, rfl⟩ := hpre
  intro q hq hchild
  refine (moves_itemsOf hK hq).mp (h.moves_before hK hq ?_)
  rw [List.map_append]
  exact List.mem_append_left _ hchild

end Items

section Building

variable {grows : Nat → Bool} {K : List Text} {b : Building} {q d n tmp : Text}
  {parts names : List Text}

/-- The constructor has come to a tree of paths. -/
structure Stands (K : List Text) (b : Building) : Prop where
  items : b.items = itemsOf K
  folders : ∀ q, b.folders.find q = if q = [] ∨ q ∈ K then some (ptrOf K q) else none

/-- A part of the constructor can only come to a tree of paths, and does so if its folders are
not moved. -/
def Gives (grows : Nat → Bool) (r : Option Building) (K : List Text) : Prop :=
  (∀ b, r = some b → Stands K b) ∧ (Stays grows K → r ≠ none)

theorem ptrOf_append (h : d = [] ∨ d ∈ K) (q : Text) : ptrOf (K ++ [q]) d = ptrOf K d := by
  rw [ptrOf, ptrOf]
  split_ifs with hd
  · rfl
  · rw [List.idxOf_append_of_mem (h.resolve_left hd)]

theorem ptrOf_new (hne : q ≠ []) (hq : q ∉ K) : ptrOf (K ++ [q]) q = some ⟨K.length, 0⟩ := by
  rw [ptrOf, if_neg hne, List.idxOf_append_of_notMem hq]
  simp

theorem itemsOf_append (hK : PathTree '/' K) (hd : dirOf '/' q = [] ∨ dirOf '/' q ∈ K) :
    itemsOf (K ++ [q]) = itemsOf K ++ [⟨baseOf '/' q, ptrOf K (dirOf '/' q)⟩] := by
  rw [itemsOf, itemsOf, List.map_append, List.map_singleton, ptrOf_append hd]
  refine congrArg (· ++ _) (List.map_congr_left fun p hp => ?_)
  rw [ptrOf_append (hK.closed p hp)]

variable (grows) in
/-- A new item is that of a new path. -/
theorem newItem_gives (h : Stands K b) (hK : PathTree '/' K) (hne : q ≠ []) (hq : q ∉ K)
    (hd : dirOf '/' q = [] ∨ dirOf '/' q ∈ K) :
    (∀ made, b.newItem grows (ptrOf K (dirOf '/' q)) (baseOf '/' q) q = some made →
      Stands (K ++ [q]) made.1 ∧ made.2 = ptrOf (K ++ [q]) q) ∧
    (Stays grows (K ++ [q]) →
      b.newItem grows (ptrOf K (dirOf '/' q)) (baseOf '/' q) q ≠ none) := by
  have hstands : Stands (K ++ [q])
      ⟨itemsOf (K ++ [q]), b.folders.insert q (some ⟨b.items.length, 0⟩)⟩ := by
    refine ⟨rfl, fun p => ?_⟩
    rw [OrderedMap.find_insert, h.folders, h.items, length_itemsOf]
    by_cases hp : q = p
    · subst hp
      rw [if_pos rfl, if_pos (.inr (by simp)), ptrOf_new hne hq]
    · rw [if_neg hp]
      have hmem : (p = [] ∨ p ∈ K ++ [q]) ↔ (p = [] ∨ p ∈ K) := by
        simp [Ne.symm hp]
      simp only [hmem]
      split_ifs with hpK
      · rw [ptrOf_append hpK]
      · rfl
  have hptr : (some ⟨b.items.length, 0⟩ : Option ItemPointer) = ptrOf (K ++ [q]) q := by
    rw [ptrOf_new hne hq, h.items, length_itemsOf]
  -- the item is made if its parent is where it was
  have hmade : ∀ r, b.items.emplaceChild grows (ptrOf K (dirOf '/' q)) (baseOf '/' q) = some r →
      r = (itemsOf (K ++ [q]), ⟨b.items.length, 0⟩) := by
    intro r hr
    rw [itemsOf_append hK hd, ← h.items]
    cases hp : ptrOf K (dirOf '/' q) with
    | none =>
        rw [hp] at hr
        exact (Option.some.inj hr).symm
    | some ptr =>
        rw [hp] at hr
        obtain ⟨-, -, hr⟩ := Option.map_eq_some_iff.mp hr
        exact hr.symm
  refine ⟨fun made hm => ?_, fun hstays => ?_⟩
  · obtain ⟨r, hr, rfl⟩ := Option.map_eq_some_iff.mp hm
    rw [hmade r hr]
    exact ⟨hstands, hptr⟩
  · rw [Building.newItem, ne_eq, Option.map_eq_none_iff, h.items, ptrOf]
    split_ifs with hroot
    · exact Option.some_ne_none _
    · have hdK := hd.resolve_left hroot
      have hfolder : dirOf '/' q ∈ (K ++ [q]).map (dirOf '/') :=
        List.mem_map.mpr ⟨q, by simp, rfl⟩
      have hmoves := hstays.moves_before hK hdK hfolder
      simp [TreeItems.emplaceChild, deref_ptrOf hdK, hmoves]

/-- The loop over the directories adds their paths. -/
theorem newFolders_gives (h : Stands K b) (hK : PathTree '/' K) (hd : d = [] ∨ d ∈ K)
    (htmp : tmp = d ++ ['/'] ∨ d = [] ∧ tmp = []) (hparts : ∀ part ∈ parts, '/' ∉ part) :
    Gives grows (b.newFolders grows (ptrOf K d) tmp parts)
      ((prefixesFrom '/' tmp parts).foldl insertPath K) := by
  induction parts generalizing K b d tmp with
  | nil =>
      refine ⟨fun b' hb => ?_, fun _ => Option.some_ne_none _⟩
      obtain rfl := Option.some.inj hb
      exact h
  | cons part parts ih =>
      have hpart := hparts part List.mem_cons_self
      have hrest : ∀ p ∈ parts, '/' ∉ p := fun p hp => hparts p (List.mem_cons_of_mem _ hp)
      have hsplit := split_tmp htmp hpart
      rw [prefixesFrom, List.foldl_cons, Building.newFolders]
      simp only [h.folders]
      by_cases hknown : tmp ++ part = [] ∨ tmp ++ part ∈ K
      · have hsame : insertPath K (tmp ++ part) = K := if_pos hknown
        rw [if_pos hknown, hsame]
        exact ih h hK hknown (.inl rfl) hrest
      · have hnew : insertPath K (tmp ++ part) = K ++ [tmp ++ part] := if_neg hknown
        rw [if_neg hknown, hnew]
        rw [not_or] at hknown
        have hd' : dirOf '/' (tmp ++ part) = [] ∨ dirOf '/' (tmp ++ part) ∈ K := by
          rwa [hsplit.1]
        have hK' : PathTree '/' (K ++ [tmp ++ part]) := hnew ▸ hK.insertPath hd'
        obtain ⟨hmade, hsome⟩ := newItem_gives grows h hK hknown.1 hknown.2 hd'
        rw [hsplit.1, hsplit.2] at hmade hsome
        constructor
        · intro b' hb
          obtain ⟨made, hm, hb⟩ := Option.bind_eq_some_iff.mp hb
          obtain ⟨hstands, hptr⟩ := hmade made hm
          rw [hptr] at hb
          exact (ih hstands hK' (.inr (by simp)) (.inl rfl) hrest).1 b' hb
        · intro hstays hnone
          obtain ⟨made, hm⟩ := Option.ne_none_iff_exists'.mp
            (hsome (hstays.of_prefix hK' (prefix_foldl_insertPath _ _)))
          obtain ⟨hstands, hptr⟩ := hmade made hm
          rw [hm, Option.bind_some, hptr] at hnone
          exact (ih hstands hK' (.inr (by simp)) (.inl rfl) hrest).2 hstays hnone

variable (grows) in
/-- A name without a slash at its end adds its path. -/
theorem add_gives (h : Stands K b) (hK : PathTree '/' K) (hlast : n.getLast? ≠ some '/') :
    Gives grows (b.add grows n) (addPath '/' K n) := by
  by_cases hknown : n = [] ∨ n ∈ K
  · have hfind : (b.folders.find n).isSome := by simp [h.folders, hknown]
    rw [Building.add, if_pos hfind, hK.addPath_eq_self hknown]
    refine ⟨fun b' hb => ?_, fun _ => Option.some_ne_none _⟩
    obtain rfl := Option.some.inj hb
    exact h
  · have hfind : ¬ (b.folders.find n).isSome := by simp [h.folders, hknown]
    have hadd : b.add grows n =
        (if (b.folders.find (dirOf '/' n)).isSome then some b
          else b.newFolders grows none [] (n.splitOn '/').dropLast).bind fun b =>
        (b.newItem grows ((b.folders.find (dirOf '/' n)).getD none) (baseOf '/' n) n).map
          Prod.fst := by
      rw [Building.add, if_neg hfind]
      simp only [if_neg hlast]
      rfl
    rw [not_or] at hknown
    have hK' := hK.addPath (dirOf '/' n)
    have hd := dirOf_mem_addPath '/' K n
    have hnot := notMem_addPath_dirOf '/' hknown.1 hknown.2
    have hnew := addPath_eq_append '/' hknown.1 hknown.2
    have hfolders : Gives grows (if (b.folders.find (dirOf '/' n)).isSome then some b
        else b.newFolders grows none [] (n.splitOn '/').dropLast)
        (addPath '/' K (dirOf '/' n)) := by
      by_cases hdir : dirOf '/' n = [] ∨ dirOf '/' n ∈ K
      · have hsome : (b.folders.find (dirOf '/' n)).isSome := by simp [h.folders, hdir]
        rw [if_pos hsome, hK.addPath_eq_self hdir]
        exact ⟨fun b' hb => Option.some.inj hb ▸ h, fun _ => Option.some_ne_none _⟩
      · have hsome : ¬ (b.folders.find (dirOf '/' n)).isSome := by simp [h.folders, hdir]
        rw [if_neg hsome, dropLast_splitOn fun hnil => hdir (.inl hnil)]
        exact newFolders_gives h hK (.inl rfl) (.inr ⟨rfl, rfl⟩) fun _ => notMem_of_mem_splitOn
    rw [hnew, hadd]
    constructor
    · intro b' hb
      obtain ⟨b₁, hb₁, hb⟩ := Option.bind_eq_some_iff.mp hb
      obtain ⟨made, hm, rfl⟩ := Option.map_eq_some_iff.mp hb
      have hstands := hfolders.1 b₁ hb₁
      rw [hstands.folders, if_pos hd] at hm
      exact ((newItem_gives grows hstands hK' hknown.1 hnot hd).1 made hm).1
    · intro hstays
      obtain ⟨b₁, hb₁⟩ := Option.ne_none_iff_exists'.mp
        (hfolders.2 (hstays.of_prefix hK' (List.prefix_append _ _)))
      have hstands := hfolders.1 b₁ hb₁
      rw [hb₁, Option.bind_some, hstands.folders, if_pos hd, ne_eq, Option.map_eq_none_iff]
      exact (newItem_gives grows hstands hK' hknown.1 hnot hd).2 hstays

variable (grows) in
theorem foldlM_gives (h : Stands K b) (hK : PathTree '/' K)
    (hlast : ∀ n ∈ names, n.getLast? ≠ some '/') :
    Gives grows (names.foldlM (Building.add grows) b) (names.foldl (addPath '/') K) := by
  induction names generalizing K b with
  | nil =>
      refine ⟨fun b' hb => ?_, fun _ => Option.some_ne_none _⟩
      obtain rfl := Option.some.inj hb
      exact h
  | cons n names ih =>
      have hadd := add_gives grows h hK (hlast n List.mem_cons_self)
      have hrest : ∀ m ∈ names, m.getLast? ≠ some '/' :=
        fun m hm => hlast m (List.mem_cons_of_mem _ hm)
      rw [List.foldlM_cons, List.foldl_cons]
      constructor
      · intro b' hb
        obtain ⟨b₁, hb₁, hb⟩ := Option.bind_eq_some_iff.mp hb
        exact (ih (hadd.1 b₁ hb₁) (hK.addPath n) hrest).1 b' hb
      · intro hstays hnone
        have hbefore : Stays grows (addPath '/' K n) :=
          hstays.of_prefix (hK.addPath n) (prefix_foldl_addPath _ _)
        obtain ⟨b₁, hb₁⟩ := Option.ne_none_iff_exists'.mp (hadd.2 hbefore)
        change Option.bind (Building.add grows b n) _ = none at hnone
        rw [hb₁, Option.bind_some] at hnone
        exact (ih (hadd.1 b₁ hb₁) (hK.addPath n) hrest).2 hstays hnone

variable (grows) in
/-- **The constructor comes to the tree of the names**, if it comes to an end at all. -/
theorem gives_model (hlast : ∀ n ∈ names, n.getLast? ≠ some '/') :
    (∀ items, QtSessionTreeModel grows names = some items → items = itemsOf (pathsOf '/' names)) ∧
      (Stays grows (pathsOf '/' names) → QtSessionTreeModel grows names ≠ none) := by
  have hempty : Stands [] ⟨[], OrderedMap.empty.insert [] none⟩ := by
    refine ⟨rfl, fun q => ?_⟩
    rw [OrderedMap.find_insert]
    by_cases hq : q = []
    · simp [hq, ptrOf]
    · have hne : ¬ (q = [] ∨ q ∈ ([] : List Text)) := by simp [hq]
      rw [if_neg (Ne.symm hq), if_neg hne]
      rfl
  obtain ⟨hgives, hsome⟩ := foldlM_gives grows hempty .nil hlast
  constructor
  · intro items hitems
    obtain ⟨b, hb, rfl⟩ := Option.map_eq_some_iff.mp hitems
    exact (hgives b hb).items
  · intro hstays
    rw [QtSessionTreeModel, ne_eq, Option.map_eq_none_iff]
    exact hsome hstays

end Building

section Queries

variable {grows : Nat → Bool} {K : List Text} {q d : Text}

/-- The full name of an item: a slash at the beginning is lost. -/
def shownName : Text → Text
  | [] => []
  | c :: q => if c = '/' then q else c :: q

theorem shownName_of_ne (hq : q.head? ≠ some '/') : shownName q = q := by
  cases q with
  | nil => rfl
  | cons c q =>
      have hc : c ≠ '/' := fun heq => hq (congrArg some heq)
      rw [shownName, if_neg hc]

theorem shownName_append (hd : d ≠ []) (c : Text) :
    shownName (d ++ '/' :: c) = shownName d ++ '/' :: c := by
  obtain ⟨a, d, rfl⟩ := List.exists_cons_of_ne_nil hd
  rw [List.cons_append, shownName, shownName]
  split_ifs <;> rfl

theorem shownName_of_root (hd : dirOf '/' q = []) : shownName q = baseOf '/' q := by
  rcases path_eq '/' q with heq | ⟨-, heq⟩
  · rw [hd, List.nil_append] at heq
    conv_lhs => rw [heq, shownName]
    exact if_pos rfl
  · have hhead : q.head? ≠ some '/' := by
      intro hhead
      have hnot := baseOf_notMem '/' q
      rw [← heq] at hnot
      exact hnot (List.mem_of_mem_head? hhead)
    rw [shownName_of_ne hhead, ← heq]

/-- How deep the item of a path lies. -/
def depth (q : Text) : Nat := ((prefixesOf '/' q).filter (· ≠ [])).length

theorem depth_append {c : Text} (hc : '/' ∉ c) (d : Text) : depth (d ++ '/' :: c) = depth d + 1 := by
  rw [depth, depth, prefixesOf_append_cons hc, List.filter_append, List.length_append]
  simp

theorem depth_dirOf (hq : q ≠ []) : depth q = depth (dirOf '/' q) + 1 := by
  rcases path_cases '/' q with h | ⟨d, c, hc, rfl⟩
  · rw [dirOf_of_notMem h, depth, depth, prefixesOf_of_notMem h,
      prefixesOf_of_notMem List.not_mem_nil]
    simp [hq]
  · rw [dirOf_append_cons hc, depth_append hc]

theorem depth_le (hK : PathTree '/' K) (hq : q ∈ K) : depth q ≤ K.length := by
  have hsub : (prefixesOf '/' q).filter (· ≠ []) ⊆ K := by
    intro p hp
    obtain ⟨hp, hne⟩ := List.mem_filter.mp hp
    exact (hK.prefixesOf (.inr hq) p hp).resolve_left (by simpa using hne)
  exact (((nodup_prefixesOf q).filter _).subperm hsub).length_le

theorem depth_pos (hq : q ≠ []) : 0 < depth q :=
  List.length_pos_of_mem (List.mem_filter.mpr ⟨self_mem_prefixesOf q, by simpa using hq⟩)

/-- The folder of an item is where it was. -/
theorem Stays.moves_dirOf (h : Stays grows K) (hK : PathTree '/' K) (hq : q ∈ K)
    (hd : dirOf '/' q ≠ []) :
    dirOf '/' q ∈ K ∧ (itemsOf K).moves grows (K.idxOf (dirOf '/' q)) = 0 := by
  have hmem := (hK.closed q hq).resolve_left hd
  exact ⟨hmem, h.moves hK hmem (List.mem_map_of_mem hq)⟩

theorem Stays.deref_dirOf (h : Stays grows K) (hK : PathTree '/' K) (hq : q ∈ K)
    (hd : dirOf '/' q ≠ []) :
    (itemsOf K).deref grows ⟨K.idxOf (dirOf '/' q), 0⟩ = some (K.idxOf (dirOf '/' q)) := by
  obtain ⟨hmem, hmoves⟩ := h.moves_dirOf hK hq hd
  rw [deref_ptrOf hmem, if_pos hmoves]

theorem getFullSessionName_itemsOf (h : Stays grows K) (hK : PathTree '/' K) (hq : q ∈ K)
    {fuel : Nat} (hfuel : depth q ≤ fuel) :
    (itemsOf K).getFullSessionName grows fuel (K.idxOf q) = some (shownName q) := by
  induction fuel generalizing q with
  | zero =>
      have hpos := depth_pos (ne_of_mem_of_not_mem hq hK.nil_notMem)
      omega
  | succ fuel ih =>
      rw [TreeItems.getFullSessionName, getElem?_itemsOf hq, Option.bind_some, ptrOf]
      by_cases hd : dirOf '/' q = []
      · simp only [if_pos hd, shownName_of_root hd]
      · have hmem := (h.moves_dirOf hK hq hd).1
        have heq := (path_eq '/' q).resolve_right fun h => hd h.1
        have hdepth : depth (dirOf '/' q) ≤ fuel := by
          rw [heq, depth_append (baseOf_notMem '/' q)] at hfuel
          omega
        simp only [if_neg hd, h.deref_dirOf hK hq hd, Option.bind_some, ih hmem hdepth,
          Option.map_some]
        conv_rhs => rw [heq, shownName_append hd]

theorem data_itemsOf (h : Stays grows K) (hK : PathTree '/' K) (hq : q ∈ K) :
    (itemsOf K).data grows ((itemsOf K).indexOf grows (K.idxOf q)) = some (shownName q) := by
  have hdepth := depth_le hK hq
  rw [← length_itemsOf K] at hdepth
  simp only [TreeItems.data, TreeItems.indexOf, Option.bind_some, deref_pointer hq,
    getFullSessionName_itemsOf h hK hq hdepth]

/-- The index of the item of a path; that of the root item is not valid. -/
def indexOfPath (grows : Nat → Bool) (K : List Text) (d : Text) : QModelIndex :=
  if d = [] then none else (itemsOf K).indexOf grows (K.idxOf d)

theorem itemOf_indexOfPath (hd : d = [] ∨ d ∈ K) :
    (itemsOf K).itemOf grows (indexOfPath grows K d) = some (idOf K d) := by
  rw [indexOfPath, idOf]
  split_ifs with hroot
  · rfl
  · simp [TreeItems.itemOf, TreeItems.indexOf, deref_pointer (hd.resolve_left hroot)]

theorem index_itemsOf (hK : PathTree '/' K) (hd : d = [] ∨ d ∈ K) (row : Nat) :
    (itemsOf K).index grows row (indexOfPath grows K d) =
      some ((childrenOf '/' K d)[row]?.map fun q =>
        (row, (itemsOf K).pointer grows (K.idxOf q))) := by
  rw [TreeItems.index, itemOf_indexOfPath hd, Option.map_some, childItems_itemsOf hK,
    List.getElem?_map, Option.map_map]
  rfl

variable (grows) in
/-- The index of an item is found at its row. -/
theorem index_place (hK : PathTree '/' K) (hq : q ∈ K) :
    (itemsOf K).index grows ((itemsOf K).place (K.idxOf q)) (indexOfPath grows K (dirOf '/' q)) =
      some ((itemsOf K).indexOf grows (K.idxOf q)) := by
  have hmem : q ∈ childrenOf '/' K (dirOf '/' q) := mem_childrenOf.mpr ⟨hq, rfl⟩
  rw [index_itemsOf hK (hK.closed q hq), place_itemsOf hK hq, List.getElem?_idxOf hmem,
    Option.map_some, TreeItems.indexOf, place_itemsOf hK hq]

theorem row_itemsOf (h : Stays grows K) (hK : PathTree '/' K) (hq : q ∈ K) :
    (itemsOf K).row grows (K.idxOf q) = some ((itemsOf K).place (K.idxOf q)) := by
  rw [TreeItems.row, getElem?_itemsOf hq, Option.bind_some, ptrOf]
  by_cases hd : dirOf '/' q = []
  · simp only [if_pos hd]
  · simp only [if_neg hd, h.deref_dirOf hK hq hd, Option.map_some]

/-- The parent of the index of an item is the index of its folder. -/
theorem parent_itemsOf (h : Stays grows K) (hK : PathTree '/' K) (hq : q ∈ K) :
    (itemsOf K).parent grows ((itemsOf K).indexOf grows (K.idxOf q)) =
      some (indexOfPath grows K (dirOf '/' q)) := by
  simp only [TreeItems.parent, TreeItems.indexOf, deref_pointer hq, getElem?_itemsOf hq,
    Option.bind_some, ptrOf, indexOfPath]
  by_cases hd : dirOf '/' q = []
  · simp only [if_pos hd]
  · obtain ⟨hmem, hmoves⟩ := h.moves_dirOf hK hq hd
    simp only [if_neg hd, h.deref_dirOf hK hq hd, Option.bind_some, row_itemsOf h hK hmem,
      Option.map_some, TreeItems.pointer, hmoves]

/-- Items of one folder with the same name are the same, if no path begins with a slash. -/
theorem eq_of_dirOf_baseOf {p : Text} (hp : p.head? ≠ some '/') (hq : q.head? ≠ some '/')
    (hd : dirOf '/' p = dirOf '/' q) (hb : baseOf '/' p = baseOf '/' q) : p = q := by
  have hplain : ∀ x : Text, x.head? ≠ some '/' → dirOf '/' x = [] → x = baseOf '/' x := by
    intro x hx hdx
    refine (path_eq '/' x).elim (fun heq => ?_) And.right
    rw [hdx, List.nil_append] at heq
    rw [heq] at hx
    exact absurd rfl hx
  by_cases hroot : dirOf '/' p = []
  · rw [hplain p hp hroot, hplain q hq (hd ▸ hroot), hb]
  · rw [(path_eq '/' p).resolve_right fun h => hroot h.1,
      (path_eq '/' q).resolve_right fun h => hroot (hd ▸ h.1), hd, hb]

end Queries

end Config
end Qutty
