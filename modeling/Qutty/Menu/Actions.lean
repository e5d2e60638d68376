import Qutty.Lib.OrderedMap
import Qutty.Lib.Text

/-!
# The actions of the menus

The menu ids of `GuiMenu.hpp`, the table `qutty_menu_actions` of `GuiMenu.cpp`, and
`QtMenuActionConfig` of `QtConfig.hpp` with the map `menu_action_list` from ids to
actions.  Key sequences belong to Qt: `KeySequences` has what is used of them.
-/

namespace Qutty
namespace Menu

open Lib

/-- `QKeySequence`: its conversions from and to text, and `isEmpty`. -/
structure KeySequences (K : Type) where
  ofString : Text → K
  toString : K → Text
  isEmpty : K → Bool

/-- `MENU_STATIC_ACTION_MAX`. -/
def menuStaticActionMax : Nat := 40

/-- `MENU_CUSTOM_OPEN_SAVED_SESSION`. -/
def menuCustomOpenSavedSession : Nat := 100000

/-- `MENU_CUSTOM_OPEN_SAVED_SESSION_END`. -/
def menuCustomOpenSavedSessionEnd : Nat := 200000

/-- `qutty_menu_actions_t`: the default key, and whether there is a slot. -/
structure MenuActionInfo where
  key : String
  slot : Bool
deriving DecidableEq

/-- `qutty_menu_actions`, by id. -/
def quttyMenuActions : List MenuActionInfo :=
  [⟨"", true⟩, ⟨"", true⟩, ⟨"", true⟩, ⟨"", true⟩, ⟨"Ctrl+Shift+T", true⟩, ⟨"", true⟩,
   ⟨"", true⟩, ⟨"Ctrl+Shift+H", true⟩, ⟨"Ctrl+Shift+V", true⟩, ⟨"", true⟩, ⟨"", true⟩,
   ⟨"Shift+Left", true⟩, ⟨"Shift+Right", true⟩, ⟨"Ctrl+Shift+Up", true⟩,
   ⟨"Ctrl+Shift+Down", true⟩, ⟨"Ctrl+Shift+Left", true⟩, ⟨"Ctrl+Shift+Right", true⟩,
   ⟨"Ctrl+Tab", true⟩, ⟨"Ctrl+Shift+tab", true⟩, ⟨"Ctrl+Shift+[", true⟩,
   ⟨"Ctrl+Shift+]", true⟩, ⟨"", true⟩, ⟨"", true⟩, ⟨"", true⟩, ⟨"", true⟩, ⟨"", true⟩,
   ⟨"", true⟩, ⟨"", true⟩, ⟨"", true⟩, ⟨"", true⟩, ⟨"Ctrl+Shift+F", true⟩, ⟨"F3", true⟩,
   ⟨"Shift+F3", true⟩, ⟨"", false⟩, ⟨"", false⟩, ⟨"", false⟩, ⟨"", true⟩,
   ⟨"Ctrl+\x27", true⟩, ⟨"Ctrl+;", true⟩, ⟨"", true⟩]

theorem length_quttyMenuActions : quttyMenuActions.length = menuStaticActionMax := rfl

/-- `QtMenuActionConfig`; the numbers are `uint32_t`. -/
structure QtMenuActionConfig (K : Type) where
  id : Nat
  shortcut : K
  name : Text
  strData : Text
  intData : Nat
deriving DecidableEq

/-- `menu_action_list`. -/
abbrev MenuActionList (K : Type) := OrderedMap Nat (QtMenuActionConfig K)

/-- The entries from `lower_bound` of the first id up to `upper_bound` of the last one. -/
def customActions {K : Type} (list : MenuActionList K) : List (Nat × QtMenuActionConfig K) :=
  list.entries.filter (fun e =>
    menuCustomOpenSavedSession ≤ e.1 ∧ e.1 ≤ menuCustomOpenSavedSessionEnd)

/-- `menu_action_list.erase(it_begin, it_end)` for these entries. -/
def eraseCustomActions {K : Type} (list : MenuActionList K) : MenuActionList K :=
  ⟨list.entries.filter (fun e =>
      ¬ (menuCustomOpenSavedSession ≤ e.1 ∧ e.1 ≤ menuCustomOpenSavedSessionEnd)),
    list.sorted.filter _⟩

end Menu
end Qutty
