import Qutty.Config.DamagedFiles
import Qutty.Config.RoundTrip

/-!
# Custom shortcuts for saved sessions

The shortcuts that the preferences window stores in `menu_action_list`, and what their
activation calls: `slot_GuiPreferencesWindow_accepted` of `GuiPreferencesWindow.cpp`, after
its loop over the static actions, and `contextMenuCustomSavedSession` of `GuiMenu.cpp`.

The action that is activated is found, but the name of its session is not taken from it:
the session that is looked up is the one without a name.  So no stored session is ever
opened (`opensStoredSessions_iff`).
-/

namespace Qutty
namespace Menu

open Lib Lib.ByteOrder Lib.PullParser Config

section Preferences

variable {K : Type}

/-- An item of the tree: the session and the open mode in its data, and the text of the
key sequence. -/
structure CustomItem where
  session : Text
  opentype : Nat
  text : Text
deriving DecidableEq

/-- `GuiBase::TYPE_LEAF`, `TYPE_HORIZONTAL` and `TYPE_VERTICAL`. -/
def openModes : List Nat := [4, 2, 3]

/-- The loop over the items, from row `i` on; `toString` makes a text of the data that was
stored as a view. -/
def acceptItems (seq : KeySequences K) (toString : Text → Text) :
    Nat → List CustomItem → MenuActionList K → MenuActionList K
  | _, [], list => list
  | i, ch :: chs, list =>
      let session := toString ch.session
      let id := menuCustomOpenSavedSession + i
      acceptItems seq toString (i + 1) chs
        (if ch.text = [] ∨ session = [] ∨ ch.opentype < 1 ∨ ch.opentype > 4 then list
        else list.insertNew id ⟨id, seq.ofString ch.text, [], session, ch.opentype⟩)

/-- What `slot_GuiPreferencesWindow_accepted` makes of the custom shortcuts. -/
def acceptCustom (seq : KeySequences K) (toString : Text → Text) (items : List CustomItem)
    (cfg : QtConfig K) : QtConfig K :=
  { cfg with
    menuActionList := acceptItems seq toString 0 items (eraseCustomActions cfg.menuActionList) }

end Preferences

section Activation

variable {K : Type}

/-- A call of `on_createNewSession`: the name of the entry of `config_list`, and the mode. -/
structure NewSession where
  entry : Text
  splittype : Nat
deriving DecidableEq

/-- `contextMenuCustomSavedSession`: its calls. -/
def contextMenuCustomSavedSession (cfg : QtConfig K) (ind : Nat) : List NewSession :=
  match cfg.menuActionList.find ind with
  | none => []
  | some action =>
      let sessname : Text := []
      match cfg.configList.find sessname with
      | none => []
      | some _ => [⟨sessname, action.intData⟩]

/-- The activation of the shortcut that was made for an id, if there is one. -/
def activate (cfg : QtConfig K) (ind : Nat) : List NewSession :=
  if (customActions cfg.menuActionList).any (fun e => e.1 = ind) then
    contextMenuCustomSavedSession cfg ind
  else []

/-- The shortcut of every item opens its session, once and in its mode. -/
def OpensItems (cfg : QtConfig K) (items : List CustomItem) : Prop :=
  ∀ i item, items[i]? = some item →
    activate cfg (menuCustomOpenSavedSession + i) = [⟨item.session, item.opentype⟩]

/-- The shortcuts open their sessions after the window is accepted, and after the
configuration is saved and reloaded. -/
structure OpensStoredSessions (plat : Platform K) (toString : Text → Text) (cfg : QtConfig K)
    (items : List CustomItem) : Prop where
  accepted : OpensItems (acceptCustom plat.keys toString items cfg) items
  reloaded : ∀ doc cfg', writeToXML plat (acceptCustom plat.keys toString items cfg) = some doc →
    readFromXML plat (QtConfig.empty K) doc.events = some (0, cfg') → OpensItems cfg' items

/-- Only the session without a name is opened. -/
theorem entry_of_mem_activate {cfg : QtConfig K} {ind : Nat} {call : NewSession}
    (h : call ∈ activate cfg ind) : call.entry = [] := by
  unfold activate at h
  split_ifs at h
  · unfold contextMenuCustomSavedSession at h
    split at h
    · exact absurd h List.not_mem_nil
    · dsimp only at h
      split at h
      · exact absurd h List.not_mem_nil
      · obtain rfl := List.mem_singleton.mp h
        rfl
  · exact absurd h List.not_mem_nil

theorem activate_of_find_none {cfg : QtConfig K} {ind : Nat}
    (h : cfg.menuActionList.find ind = none) : activate cfg ind = [] := by
  rw [activate, contextMenuCustomSavedSession, h]
  exact ite_self []

/-- The items from a row on leave the ids of the rows before. -/
theorem find_acceptItems (seq : KeySequences K) (toString : Text → Text) (items : List CustomItem)
    {i n : Nat} (hi : i < n) (list : MenuActionList K) :
    (acceptItems seq toString n items list).find (menuCustomOpenSavedSession + i) =
      list.find (menuCustomOpenSavedSession + i) := by
  induction items generalizing n list with
  | nil => rfl
  | cons ch chs ih =>
      rw [acceptItems, ih (by omega)]
      split_ifs
      · rfl
      · rw [OrderedMap.find_insertNew, if_neg (by omega)]

/-- After the erasure there is no custom action. -/
theorem find_eraseCustomActions (list : MenuActionList K) :
    (eraseCustomActions list).find menuCustomOpenSavedSession = none := by
  cases h : (eraseCustomActions list).find menuCustomOpenSavedSession with
  | none => rfl
  | some action =>
      have hmem := (List.mem_filter.mp (OrderedMap.mem_entries.mpr h)).2
      have hrange : menuCustomOpenSavedSession ≤ menuCustomOpenSavedSessionEnd := by decide
      rw [decide_eq_true_eq] at hmem
      exact absurd ⟨le_rfl, hrange⟩ hmem

/-- **The shortcuts work exactly if there are none**, whatever becomes of the data. -/
theorem opensStoredSessions_iff (plat : Platform K) (toString : Text → Text)
    (hempty : toString [] = []) (cfg : QtConfig K) (items : List CustomItem) :
    OpensStoredSessions plat toString cfg items ↔ items = [] := by
  constructor
  · intro h
    cases items with
    | nil => rfl
    | cons ch chs =>
        have hopen := h.accepted 0 ch rfl
        have hentry : ch.session = [] :=
          entry_of_mem_activate (hopen ▸ List.mem_singleton_self (NewSession.mk ch.session ch.opentype))
        -- an item without a session is not stored, and nothing is called
        have hnone : (acceptCustom plat.keys toString (ch :: chs) cfg).menuActionList.find
            (menuCustomOpenSavedSession + 0) = none := by
          rw [acceptCustom, acceptItems, hentry, hempty, find_acceptItems _ _ _ (by omega),
            if_pos (.inr (.inl rfl))]
          exact find_eraseCustomActions _
        rw [activate_of_find_none hnone] at hopen
        exact absurd hopen (by simp)
  · rintro rfl
    refine ⟨fun i item hi => absurd hi (by simp), fun doc cfg' _ _ i item hi => absurd hi (by simp)⟩

/-- A configuration with the session `s`. -/
def savedSession : QtConfig Text :=
  { QtConfig.empty Text with
    configList := OrderedMap.empty.insert ['s'] ⟨['s'], some Conf.new⟩ }

theorem opensStoredSessions_iff_oneItem :
    OpensStoredSessions (plainPlatform Conf.new) id savedSession [⟨['s'], 4, ['F', '1']⟩] ↔
      [(⟨['s'], 4, ['F', '1']⟩ : CustomItem)] = [] :=
  opensStoredSessions_iff (plainPlatform Conf.new) id rfl savedSession _

/-- The shortcut F1 does not open the session `s` in a new tab. -/
theorem not_opensStoredSessions_oneItem :
    ['s'] ∈ savedSession.configList.keys ∧ 4 ∈ openModes ∧
      ¬ OpensStoredSessions (plainPlatform Conf.new) id savedSession [⟨['s'], 4, ['F', '1']⟩] := by
  refine ⟨by decide, by decide, fun h => ?_⟩
  have hopen := h.accepted 0 ⟨['s'], 4, ['F', '1']⟩ rfl
  have hentry := entry_of_mem_activate (hopen ▸ List.mem_singleton_self (NewSession.mk ['s'] 4))
  exact absurd hentry (by decide)

end Activation

end Menu
end Qutty
