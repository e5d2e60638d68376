import Qutty.Config.SessionTree

/-!
# Which sessions an operation keeps

Saving, copying and moving do not look whether a name is in use.  `erase` and assignment
follow each other through the subtree, so that a new name that belongs to another
session, at any depth, loses that session.

Where the new names are free when their turn comes (`Free`), every other session keeps
its settings, the sessions of the subtree keep theirs under their new names, and no
session gets lost (`sessions_kept_in_runs`).  The loop that picks the name of a copy always
ends with a name that no sibling has.
-/

namespace Qutty
namespace Config

open Lib

section CopyNames

theorem copyName_injective (text : Text) : Function.Injective (copyName text) := by
  intro i j h
  have hdigits : Nat.toDigits 10 i = Nat.toDigits 10 j := by
    simpa [copyName] using h
  rw [← Nat.ofDigitChars_ten_toDigits (n := i), hdigits, Nat.ofDigitChars_ten_toDigits]

/-- The names that the loop tries. -/
def candidate (text : Text) : Nat → Text
  | 0 => text
  | i + 1 => copyName text (i + 1)

theorem candidate_injective (text : Text) : Function.Injective (candidate text) := by
  have hlong : ∀ i, copyName text i ≠ text := by
    intro i h
    have hlen := congrArg List.length h
    simp only [copyName, List.length_append, List.length_cons] at hlen
    omega
  intro i j h
  cases i with
  | zero =>
      cases j with
      | zero => rfl
      | succ j => exact absurd h.symm (hlong (j + 1))
  | succ i =>
      cases j with
      | zero => exact absurd h (hlong (i + 1))
      | succ j => exact copyName_injective text h

variable {texts : List Text} {text name : Text}

/-- While the loop goes on, the names that it has tried are in use. -/
theorem pickName_none {fuel i : Nat}
    (h : pickName texts text fuel (i + 1) (candidate text i) = none) :
    ∀ j < fuel, candidate text (i + j) ∈ texts := by
  induction fuel generalizing i with
  | zero => simp
  | succ fuel ih =>
      rw [pickName] at h
      split_ifs at h with hused
      intro j hj
      cases j with
      | zero => exact hused
      | succ j =>
          have hrest := ih h j (by omega)
          rwa [show i + (j + 1) = i + 1 + j by omega]

theorem pickName_fresh {fuel i : Nat} {tried : Text}
    (h : pickName texts text fuel i tried = some name) : name ∉ texts := by
  induction fuel generalizing i tried with
  | zero => simp [pickName] at h
  | succ fuel ih =>
      rw [pickName] at h
      split_ifs at h with hused
      · exact ih h
      · obtain rfl := Option.some.inj h
        exact hused

/-- **The loop ends**, with a name that no child of the parent has. -/
theorem exists_copyName (siblings : List SessionItem) (item : SessionItem) :
    ∃ name, copyNameFor siblings item = some name ∧ name ∉ siblings.map SessionItem.text := by
  cases h : copyNameFor siblings item with
  | some name => exact ⟨name, rfl, pickName_fresh h⟩
  | none =>
      -- one candidate more than there are siblings
      have hused : (List.range (siblings.length + 1)).map (candidate item.text) ⊆
          siblings.map SessionItem.text := by
        intro name hname
        obtain ⟨j, hj, rfl⟩ := List.mem_map.mp hname
        have hin := pickName_none (i := 0) h j (List.mem_range.mp hj)
        rwa [Nat.zero_add] at hin
      have hnodup := (List.nodup_range (n := siblings.length + 1)).map
        (candidate_injective item.text)
      have hlen := (hnodup.subperm hused).length_le
      simp at hlen

end CopyNames

section Losses

/-- What an operation has to keep: every session but the one that it names, under its own
name or, where it belongs to an item of the subtree, under the new name of this item; and
the number of sessions. -/
structure Keeps (before after : ConfigList) (named : Option Text) (moved : List (Text × Text)) :
    Prop where
  others : ∀ name, before.session name ≠ none → named ≠ some name → name ∉ moved.map Prod.fst →
    after.session name = before.session name
  subtree : ∀ r ∈ moved, before.session r.1 ≠ none → named ≠ some r.1 →
    after.session r.2 = before.session r.1
  count : before.sessions.length ≤ after.sessions.length

theorem Keeps.same (list : ConfigList) : Keeps list list none [] :=
  ⟨fun _ _ _ _ => rfl, by simp, le_refl _⟩

/-- The renames of a drop. -/
def Dropping.renames (d : Dropping) : List (Text × Text) :=
  Config.renames (d.item.relabelling d.parent)

/-- The renames below an item that is saved. -/
def Saving.renames (s : Saving) : List (Text × Text) :=
  Config.renames (childRelabelling (some s.fullname) s.item.children)

/-- What an operation that renames or stores has to keep. -/
def Lossless (w : SettingsWindow) (op : Operation) (w' : SettingsWindow) : Prop :=
  match op with
  | .save p leSavedSess cfg =>
      match w.saving p leSavedSess with
      | none => Keeps w.configList w'.configList none []
      | some s =>
          Keeps w.configList w'.configList (some s.item.fullSessname) s.renames ∧
            w'.configList.session s.fullname = some cfg
  | .copy _ => Keeps w.configList w'.configList none []
  | .move p q =>
      match w.dropping p q with
      | none => Keeps w.configList w'.configList none []
      | some d => Keeps w.configList w'.configList none d.renames
  | .delete _ => True
  | .import _ _ => True

/-- The new names are free when their turn comes, and no rename takes up what another has
moved. -/
def Free (w : SettingsWindow) : Operation → Prop
  | .save p leSavedSess cfg =>
      ∀ s, w.saving p leSavedSess = some s →
        let rs := (s.item.fullSessname, s.fullname) :: s.renames
        let sessions := Function.update w.configList.session s.item.fullSessname (some cfg)
        Vacant sessions [] rs ∧ Apart sessions rs
  | .copy p =>
      ∀ parent siblings item name, w.item p = some (parent, siblings, item) →
        copyNameFor siblings item = some name → w.configList.session (pathName parent name) = none
  | .move p q =>
      ∀ d, w.dropping p q = some d →
        Vacant w.configList.session [] d.renames ∧ Apart w.configList.session d.renames
  | .delete _ => True
  | .import _ _ => True

variable {before after : ConfigList}

/-- **Free renames keep everything.** -/
theorem keeps_of_free {rs : List (Text × Text)} (hvacant : Vacant before.session [] rs)
    (hapart : Apart before.session rs) (hafter : after.session = renameAll before.session rs) :
    Keeps before after none rs where
  others name hname _ hold := by
    rw [hafter]
    exact renameAll_of_notMem (hvacant.ne_of_mem hname (by simp) hold)
  subtree r hr ho _ := by
    rw [hafter]
    exact renameAll_of_mem hvacant hapart hr ho (by simp) rfl
  count := by
    refine sessions_length_le (newName rs) (fun name hname => ?_) (fun j hj k hk h => ?_)
    · rw [hafter, renameAll_newName hvacant hapart hname]
      exact hname
    · exact newName_injOn hvacant hapart ⟨hj, by simp⟩ ⟨hk, by simp⟩ h

/-- A session that is stored under the old name of an item, and renamed with it. -/
theorem keeps_of_save {old new : Text} {cfg : Conf} {rs : List (Text × Text)}
    (hvacant : Vacant (Function.update before.session old (some cfg)) [] ((old, new) :: rs))
    (hapart : Apart (Function.update before.session old (some cfg)) ((old, new) :: rs))
    (hafter : after.session =
      renameAll (Function.update before.session old (some cfg)) ((old, new) :: rs)) :
    Keeps before after (some old) rs ∧ after.session new = some cfg := by
  have hold : Function.update before.session old (some cfg) old = some cfg :=
    Function.update_self ..
  have hother : ∀ name, name ≠ old →
      Function.update before.session old (some cfg) name = before.session name :=
    fun name hname => Function.update_of_ne hname _ _
  have hstored : ∀ name, before.session name ≠ none →
      Function.update before.session old (some cfg) name ≠ none := by
    intro name hname
    by_cases h : name = old
    · rw [h, hold]
      simp
    · rwa [hother name h]
  refine ⟨⟨fun name hname hnamed hmoved => ?_, fun r hr ho hnamed => ?_, ?_⟩, ?_⟩
  · have hne : name ≠ old := fun h => hnamed (congrArg some h.symm)
    have hnot : name ∉ ((old, new) :: rs).map Prod.fst := by simp [hne, hmoved]
    rw [hafter, renameAll_of_notMem (hvacant.ne_of_mem (hstored name hname) (by simp) hnot),
      hother name hne]
  · have hne : r.1 ≠ old := fun h => hnamed (congrArg some h.symm)
    rw [hafter, renameAll_of_mem hvacant hapart (List.mem_cons_of_mem _ hr) (hstored _ ho)
      (by simp) rfl, hother _ hne]
  · refine sessions_length_le (newName ((old, new) :: rs)) (fun name hname => ?_)
      (fun j hj k hk h => ?_)
    · rw [hafter, renameAll_newName hvacant hapart (hstored name hname)]
      exact hstored name hname
    · exact newName_injOn hvacant hapart ⟨hstored j hj, by simp⟩ ⟨hstored k hk, by simp⟩ h
  · rw [hafter, renameAll_of_mem (o := old) (n := new) hvacant hapart List.mem_cons_self
      (by rw [hold]; simp) (by simp) rfl, hold]

/-- The sessions after a save. -/
theorem session_save (list : ConfigList) (old new : Text) (cfg : Conf)
    (rs : List (Text × Text)) :
    (rs.foldl ConfigList.rename ((list.erase old).insert new ⟨new, some cfg⟩)).session =
      renameAll (Function.update list.session old (some cfg)) ((old, new) :: rs) := by
  rw [session_renameAll, renameAll_cons, session_insert, session_erase]
  congr 1
  funext k
  rw [rename, Function.update_apply, Function.update_self]
  split_ifs with hnew hold
  · rfl
  · rw [hold, Function.update_self]
  · rw [Function.update_of_ne hold, Function.update_of_ne hold]

/-- A new session under a free name. -/
theorem keeps_of_insert (list : ConfigList) {name : Text} (conf : Conf)
    (hfree : list.session name = none) :
    Keeps list (list.insert name ⟨name, some conf⟩) none [] := by
  have hsame : ∀ k, list.session k ≠ none →
      ConfigList.session (list.insert name ⟨name, some conf⟩) k = list.session k := by
    intro k hk
    have hne : k ≠ name := by
      rintro rfl
      exact hk hfree
    rw [session_insert, Function.update_of_ne hne]
  refine ⟨fun k hk _ _ => hsame k hk, by simp, sessions_length_le id (fun k hk => ?_) ?_⟩
  · rwa [id, hsame k hk]
  · exact Set.injOn_id _

/-- **An operation whose new names are free loses nothing.** -/
theorem lossless_of_free {w w' : SettingsWindow} {op : Operation} (hfree : Free w op)
    (hstep : w.step op = some w') : Lossless w op w' := by
  cases op with
  | save p leSavedSess cfg =>
      obtain rfl := Option.some.inj hstep
      rw [Lossless, SettingsWindow.onSaveSess]
      cases hs : w.saving p leSavedSess with
      | none => exact Keeps.same _
      | some s =>
          obtain ⟨hvacant, hapart⟩ := hfree s hs
          refine keeps_of_save hvacant hapart ?_
          dsimp only
          rw [configList_adjustChildren]
          exact session_save ..
  | delete p => exact trivial
  | copy p =>
      rw [SettingsWindow.step, SettingsWindow.onSessCopy] at hstep
      rw [Lossless]
      cases hitem : w.item p with
      | none =>
          rw [hitem] at hstep
          obtain rfl := Option.some.inj hstep
          exact Keeps.same _
      | some at' =>
          obtain ⟨parent, siblings, item⟩ := at'
          rw [hitem] at hstep
          cases hname : copyNameFor siblings item with
          | none => simp [hname] at hstep
          | some name =>
              simp only [hname, Option.map_eq_some_iff, PuttyConfig.copyWithNewName] at hstep
              obtain ⟨entry, ⟨conf, -, rfl⟩, rfl⟩ := hstep
              exact keeps_of_insert _ conf (hfree parent siblings item name hitem hname)
  | move p q =>
      obtain rfl := Option.some.inj hstep
      rw [Lossless, SettingsWindow.onDrop]
      cases hd : w.dropping p q with
      | none => exact Keeps.same _
      | some d =>
          obtain ⟨hvacant, hapart⟩ := hfree d hd
          refine keeps_of_free hvacant hapart ?_
          dsimp only
          rw [configList_adjust]
          exact session_renameAll ..
  | «import» configs checked => exact trivial

/-- **No session is lost** in a run of the window whose new names are free, and a copy
always finds a name that no sibling has. -/
theorem sessions_kept_in_runs (list : ConfigList) (ops : List Operation)
    (hfree : Steps SettingsWindow.step Free (.opened list) ops) :
    EachStep SettingsWindow.step Lossless (.opened list) ops ∧
      ∀ siblings item, ∃ name, copyNameFor siblings item = some name ∧
        name ∉ siblings.map SessionItem.text :=
  ⟨eachStep_of_steps (fun _ _ _ => lossless_of_free) hfree, exists_copyName⟩

/-- A session is renamed, with a folder beside it, and copied. -/
theorem sessions_kept_in_runs_rename :
    let ops := [Operation.save ⟨[], 0⟩ ['x'] Conf.new, .copy ⟨[], 0⟩]
    EachStep SettingsWindow.step Lossless
        (.opened (readSessions [(['a'], Conf.new), (['b', '/', 'c'], Conf.new)])) ops ∧
      ∀ siblings item, ∃ name, copyNameFor siblings item = some name ∧
        name ∉ siblings.map SessionItem.text := by
  refine sessions_kept_in_runs _ _ ?_
  rintro w hw
  refine ⟨?_, fun w' hw' => ⟨?_, trivial⟩⟩
  · rintro s hs
    obtain rfl := Option.some.inj hs
    exact ⟨⟨.inl rfl, trivial⟩, List.pairwise_singleton ..⟩
  · rintro parent siblings item name hitem hname
    obtain rfl := Option.some.inj hw
    obtain ⟨rfl, rfl, rfl⟩ : none = parent ∧ _ = siblings ∧ _ = item := by
      simpa only [Prod.mk.injEq] using Option.some.inj hitem
    obtain rfl := Option.some.inj hname
    rfl

/-- A session that is renamed to the name of another one takes its place. -/
theorem rename_onto_session_loses_it :
    ¬ ∀ (list : ConfigList) (ops : List Operation),
      EachStep SettingsWindow.step Lossless (.opened list) ops := by
  intro h
  have hstep := h (readSessions [(['a'], Conf.new), (['b'], Conf.new)])
    [.save ⟨[], 0⟩ ['b'] Conf.new] _ rfl
  have hcount : 2 ≤ 1 := hstep.1.1.count
  omega

end Losses

end Config
end Qutty
