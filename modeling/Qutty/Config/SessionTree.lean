import Qutty.Config.Sessions
import Qutty.Lib.Renaming

/-!
# Renames in the tree of sessions

What an item and the items below it are called before and after
`adjust_sessname_hierarchy` is known from the tree alone (`relabelling`).  The tree gets
these names (`names_adjust`), and `config_list` the renames among them, one after the
other (`configList_adjust`).
-/

namespace Qutty
namespace Config

open Lib

section Names

mutual

/-- The full names of an item and of the items below it. -/
def SessionItem.names : SessionItem → List Text
  | .mk _ full children => full :: itemNames children

/-- The full names of some items and of the items below them. -/
def itemNames : List SessionItem → List Text
  | [] => []
  | item :: items => item.names ++ itemNames items

end

mutual

/-- The full names before and after `adjust_sessname_hierarchy`. -/
def SessionItem.relabelling (parent : Option Text) : SessionItem → List (Text × Text)
  | .mk text full children =>
      let fullname := pathName parent text
      if fullname = full then (full :: itemNames children).map (fun name => (name, name))
      else (full, fullname) :: childRelabelling (some fullname) children

/-- The full names before and after the loop over the children. -/
def childRelabelling (parent : Option Text) : List SessionItem → List (Text × Text)
  | [] => []
  | item :: items => item.relabelling parent ++ childRelabelling parent items

end

/-- The names that change. -/
def renames (rs : List (Text × Text)) : List (Text × Text) := rs.filter (fun r => r.1 ≠ r.2)

/-- An entry of `config_list` gets another name. -/
def ConfigList.rename (list : ConfigList) (r : Text × Text) : ConfigList :=
  (list.erase r.1).insert r.2 ((list.at r.1).changeName r.2)

@[simp] theorem renames_nil : renames [] = [] := rfl

@[simp] theorem renames_append (rs ss : List (Text × Text)) :
    renames (rs ++ ss) = renames rs ++ renames ss := List.filter_append ..

@[simp] theorem renames_same (names : List Text) :
    renames (names.map (fun name => (name, name))) = [] := by
  simp [renames, List.filter_eq_nil_iff]

theorem renames_cons {o n : Text} (h : o ≠ n) (rs : List (Text × Text)) :
    renames ((o, n) :: rs) = (o, n) :: renames rs := by
  simp [renames, h]

end Names

section Adjusting

mutual

/-- The names before are those of the items. -/
theorem relabelling_fst (parent : Option Text) (item : SessionItem) :
    (item.relabelling parent).map Prod.fst = item.names := by
  match item with
  | .mk text full children =>
      rw [SessionItem.relabelling, SessionItem.names]
      split_ifs
      · simp [Function.comp_def]
      · simp [childRelabelling_fst]

theorem childRelabelling_fst (parent : Option Text) (items : List SessionItem) :
    (childRelabelling parent items).map Prod.fst = itemNames items := by
  match items with
  | [] => rfl
  | item :: items =>
      rw [childRelabelling, itemNames, List.map_append, relabelling_fst, childRelabelling_fst]

end

mutual

/-- **The names after are those of the adjusted items.** -/
theorem names_adjust (parent : Option Text) (item : SessionItem) (list : ConfigList) :
    (adjustSessnameHierarchy parent item list).1.names = (item.relabelling parent).map Prod.snd := by
  match item with
  | .mk text full children =>
      rw [adjustSessnameHierarchy, SessionItem.relabelling]
      split_ifs
      · simp [SessionItem.names, Function.comp_def]
      · simp [SessionItem.names, names_adjustChildren]

theorem names_adjustChildren (parent : Option Text) (items : List SessionItem)
    (list : ConfigList) : itemNames (adjustChildren parent items list).1 =
      (childRelabelling parent items).map Prod.snd := by
  match items with
  | [] => rfl
  | item :: items =>
      rw [adjustChildren, itemNames, childRelabelling, List.map_append, names_adjust,
        names_adjustChildren]

end

mutual

/-- **The entries of `config_list` are renamed one after the other.** -/
theorem configList_adjust (parent : Option Text) (item : SessionItem) (list : ConfigList) :
    (adjustSessnameHierarchy parent item list).2 =
      (renames (item.relabelling parent)).foldl ConfigList.rename list := by
  match item with
  | .mk text full children =>
      rw [adjustSessnameHierarchy, SessionItem.relabelling]
      split_ifs with h
      · rw [renames_same, List.foldl_nil]
      · have hne : full ≠ pathName parent text := Ne.symm h
        rw [renames_cons hne, List.foldl_cons, configList_adjustChildren]
        rfl

theorem configList_adjustChildren (parent : Option Text) (items : List SessionItem)
    (list : ConfigList) : (adjustChildren parent items list).2 =
      (renames (childRelabelling parent items)).foldl ConfigList.rename list := by
  match items with
  | [] => rfl
  | item :: items =>
      rw [adjustChildren, childRelabelling, renames_append, List.foldl_append,
        ← configList_adjust, ← configList_adjustChildren]

end

end Adjusting

section Stored

variable (list : ConfigList) (r : Text × Text) (k name : Text) (conf : Conf)

theorem session_insert :
    ConfigList.session (list.insert k ⟨name, some conf⟩) =
      Function.update list.session k (some conf) := by
  funext j
  rw [ConfigList.session, OrderedMap.find_insert, Function.update_apply]
  split_ifs with hkj hjk hjk
  · rfl
  · exact absurd hkj.symm hjk
  · exact absurd hjk.symm hkj
  · rfl

theorem session_erase :
    ConfigList.session (list.erase k) = Function.update list.session k none := by
  funext j
  rw [ConfigList.session, OrderedMap.find_erase, Function.update_apply]
  split_ifs with hkj hjk hjk
  · rfl
  · exact absurd hkj.symm hjk
  · exact absurd hjk.symm hkj
  · rfl

/-- What is at a name that is asked for. -/
theorem at_ptr : (list.at k).ptr = list.session k := by
  rw [ConfigList.at, ConfigList.session]
  cases list.find k <;> rfl

/-- The sessions are renamed as the entries are. -/
theorem session_rename : (list.rename r).session = rename list.session r := by
  funext j
  rw [ConfigList.rename, ConfigList.session, OrderedMap.find_insert, OrderedMap.find_erase, rename]
  by_cases hn : j = r.2
  · rw [if_pos hn.symm, if_pos hn, Option.bind_some, PuttyConfig.changeName, at_ptr]
  · rw [if_neg (Ne.symm hn), if_neg hn]
    by_cases ho : j = r.1
    · rw [if_pos ho.symm, if_pos ho, Option.bind_none]
    · rw [if_neg (Ne.symm ho), if_neg ho, ConfigList.session]

theorem session_renameAll (rs : List (Text × Text)) :
    (rs.foldl ConfigList.rename list).session = renameAll list.session rs := by
  induction rs generalizing list with
  | nil => rfl
  | cons r rs ih => rw [List.foldl_cons, ih, session_rename, renameAll_cons]

theorem mem_sessions {list : ConfigList} {name : Text} :
    name ∈ list.sessions ↔ list.session name ≠ none := by
  rw [ConfigList.sessions, List.mem_filter, OrderedMap.mem_keys, ConfigList.session]
  cases h : OrderedMap.find list name <;> simp [Option.isSome_iff_ne_none]

theorem sessions_nodup : list.sessions.Nodup := list.keys_nodup.filter _

/-- There are at least as many sessions if each has one of its own to go to. -/
theorem sessions_length_le {before after : ConfigList} (φ : Text → Text)
    (hmaps : ∀ name, before.session name ≠ none → after.session (φ name) ≠ none)
    (hinj : Set.InjOn φ { name | before.session name ≠ none }) :
    before.sessions.length ≤ after.sessions.length := by
  rw [← List.toFinset_card_of_nodup (sessions_nodup before),
    ← List.toFinset_card_of_nodup (sessions_nodup after)]
  refine Finset.card_le_card_of_injOn φ (fun name hname => ?_) (fun j hj k hk h => ?_)
  · rw [Finset.mem_coe, List.mem_toFinset, mem_sessions] at hname ⊢
    exact hmaps name hname
  · rw [Finset.mem_coe, List.mem_toFinset, mem_sessions] at hj hk
    exact hinj hj hk h

end Stored

section Siblings

theorem itemNames_eq (items : List SessionItem) :
    itemNames items = items.flatMap SessionItem.names := by
  induction items with
  | nil => rfl
  | cons item items ih => rw [itemNames, ih, List.flatMap_cons]

@[simp] theorem itemNames_append (items items' : List SessionItem) :
    itemNames (items ++ items') = itemNames items ++ itemNames items' := by
  simp [itemNames_eq]

@[simp] theorem itemNames_cons (item : SessionItem) (items : List SessionItem) :
    itemNames (item :: items) = item.names ++ itemNames items := rfl

@[simp] theorem names_withChildren (item : SessionItem) (children : List SessionItem) :
    (item.withChildren children).names = item.fullSessname :: itemNames children := by
  cases item
  rfl

variable {parent : Option Text} {dir : List Nat} {items siblings new : List SessionItem}
  {p : Option Text}

theorem modify_eq {i : Nat} {item : SessionItem} (h : items[i]? = some item)
    (f : SessionItem → SessionItem) :
    items.modify i f = items.take i ++ f item :: items.drop (i + 1) := by
  obtain ⟨hi, rfl⟩ := List.getElem?_eq_some_iff.mp h
  exact List.modify_eq_take_cons_drop hi

theorem split_at {i : Nat} {item : SessionItem} (h : items[i]? = some item) :
    items = items.take i ++ item :: items.drop (i + 1) := by
  obtain ⟨hi, rfl⟩ := List.getElem?_eq_some_iff.mp h
  simp

theorem setSiblings_self (h : siblingsAt parent dir items = some (p, siblings)) :
    setSiblings dir siblings items = items := by
  induction dir generalizing parent items with
  | nil =>
      obtain ⟨-, rfl⟩ := Prod.mk.inj (Option.some.inj h)
      rfl
  | cons i dir ih =>
      rw [siblingsAt] at h
      rw [setSiblings]
      cases hitem : items[i]? with
      | none => simp [hitem] at h
      | some item =>
          rw [hitem] at h
          rw [modify_eq hitem, ih h]
          conv_rhs => rw [split_at hitem]
          cases item
          rfl

/-- The names outside a list of siblings stay, whatever takes their place. -/
theorem exists_outside (h : siblingsAt parent dir items = some (p, siblings)) :
    ∃ outside : List Text, ∀ new name,
      name ∈ itemNames (setSiblings dir new items) ↔ name ∈ outside ∨ name ∈ itemNames new := by
  induction dir generalizing parent items with
  | nil => exact ⟨[], fun new name => by simp [setSiblings]⟩
  | cons i dir ih =>
      rw [siblingsAt] at h
      cases hitem : items[i]? with
      | none => simp [hitem] at h
      | some item =>
          rw [hitem] at h
          obtain ⟨outside, hout⟩ := ih h
          refine ⟨itemNames (items.take i) ++ item.fullSessname :: outside ++
            itemNames (items.drop (i + 1)), fun new name => ?_⟩
          rw [setSiblings, modify_eq hitem]
          simp only [itemNames_append, itemNames_cons, names_withChildren, List.mem_append,
            List.mem_cons, hout new name]
          tauto

end Siblings

end Config
end Qutty
