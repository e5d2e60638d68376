import Mathlib.Data.Char
import Qutty.Config.Conf
import Qutty.Lib.Runs

/-!
# The stored sessions and their tree

`config_list` of `QtConfig` and the tree of sessions in `GuiSettingsWindow`.  Every item
of the tree has a text, and the full name of its session as data, which is meant to be
the texts of the items down to it with slashes between them.  An item of which nothing
is stored is a folder.

The operations are those of the window: save or rename, delete, copy, a move by drag and
drop, and the import of a file.  Where `conf_copy` would be called with a null pointer
there is no state afterwards.
-/

namespace Qutty
namespace Config

open Lib Lib.ByteOrder

section Store

/-- `PuttyConfig`; a null pointer is none. -/
structure PuttyConfig where
  name : Text
  ptr : Option Conf

/-- `PuttyConfig()`. -/
def PuttyConfig.default : PuttyConfig := ⟨[], none⟩

/-- `copyWithNewName`: none for `conf_copy(NULL)`. -/
def PuttyConfig.copyWithNewName (cfg : PuttyConfig) (name : Text) : Option PuttyConfig :=
  cfg.ptr.map (fun conf => ⟨name, some conf⟩)

/-- `copy`. -/
def PuttyConfig.copy (cfg : PuttyConfig) : Option PuttyConfig := cfg.copyWithNewName cfg.name

/-- `changeName`. -/
def PuttyConfig.changeName (cfg : PuttyConfig) (name : Text) : PuttyConfig := { cfg with name }

/-- `config_list`. -/
abbrev ConfigList := OrderedMap Text PuttyConfig

/-- `config_list[name]`, which is made if it is not there. -/
def ConfigList.at (list : ConfigList) (name : Text) : PuttyConfig :=
  (list.find name).getD PuttyConfig.default

/-- The session of a name. -/
def ConfigList.session (list : ConfigList) (name : Text) : Option Conf :=
  (list.find name).bind PuttyConfig.ptr

/-- The names of the stored sessions. -/
def ConfigList.sessions (list : ConfigList) : List Text :=
  list.keys.filter (fun name => (list.session name).isSome)

end Store

section Tree

/-- `QTreeWidgetItem`, with `text(0)` and the data of `QUTTY_ROLE_FULL_SESSNAME`. -/
inductive SessionItem where
  | mk (text fullSessname : Text) (children : List SessionItem)

namespace SessionItem

/-- `text(0)`. -/
def text : SessionItem → Text
  | mk text _ _ => text

/-- `data(0, QUTTY_ROLE_FULL_SESSNAME)`. -/
def fullSessname : SessionItem → Text
  | mk _ full _ => full

/-- The child items. -/
def children : SessionItem → List SessionItem
  | mk _ _ children => children

/-- An item with other children. -/
def withChildren : SessionItem → List SessionItem → SessionItem
  | mk text full _, children => mk text full children

end SessionItem

/-- `QUTTY_DEFAULT_CONFIG_SETTINGS`. -/
def defaultSettings : Text :=
  ['D', 'e', 'f', 'a', 'u', 'l', 't', ' ', 'S', 'e', 't', 't', 'i', 'n', 'g', 's']

/-- The name of an item below a parent, whose full name is given unless it is the invisible
root. -/
def pathName : Option Text → Text → Text
  | none, text => text
  | some parent, text => parent ++ '/' :: text

/-- The items below the item that a path of indices leads to, and its full name. -/
def siblingsAt : Option Text → List Nat → List SessionItem → Option (Option Text × List SessionItem)
  | parent, [], items => some (parent, items)
  | _, i :: dir, items =>
      match items[i]? with
      | none => none
      | some item => siblingsAt (some item.fullSessname) dir item.children

/-- Other items below the item that a path leads to. -/
def setSiblings : List Nat → List SessionItem → List SessionItem → List SessionItem
  | [], new, _ => new
  | i :: dir, new, items =>
      items.modify i (fun item => item.withChildren (setSiblings dir new item.children))

mutual

/-- `adjust_sessname_hierarchy`.  `config_list[oldfullname]` makes an entry if there is
none; it is moved from and erased. -/
def adjustSessnameHierarchy (parent : Option Text) :
    SessionItem → ConfigList → SessionItem × ConfigList
  | .mk text oldfullname children, list =>
      let fullname := pathName parent text
      if fullname = oldfullname then (.mk text oldfullname children, list)
      else
        let cfg := (list.at oldfullname).changeName fullname
        let list := (list.erase oldfullname).insert fullname cfg
        let below := adjustChildren (some fullname) children list
        (.mk text fullname below.1, below.2)

/-- The loop over the children. -/
def adjustChildren (parent : Option Text) :
    List SessionItem → ConfigList → List SessionItem × ConfigList
  | [], list => ([], list)
  | item :: items, list =>
      let first := adjustSessnameHierarchy parent item list
      let rest := adjustChildren parent items first.2
      (first.1 :: rest.1, rest.2)

end

end Tree

section Loading

/-- The state of the loop of `loadSessionNames`; items are given by their paths. -/
structure Loading where
  tree : List SessionItem
  folders : OrderedMap Text (List Nat)

/-- A new item below another one, which becomes `folders[full]`. -/
def Loading.newItem (l : Loading) (dir : List Nat) (text full : Text) : Loading × List Nat :=
  let siblings := ((siblingsAt none dir l.tree).map Prod.snd).getD []
  let path := dir ++ [siblings.length]
  (⟨setSiblings dir (siblings ++ [.mk text full []]) l.tree, l.folders.insert full path⟩, path)

/-- The items of the folders above a session. -/
def Loading.newFolders : Loading → List Nat → Text → List Text → Loading
  | l, _, _, [] => l
  | l, dir, tmpdir, part :: parts =>
      let tmpdir := tmpdir ++ part
      match l.folders.find tmpdir with
      | some item => l.newFolders item (tmpdir ++ ['/']) parts
      | none =>
          let made := l.newItem dir part tmpdir
          made.1.newFolders made.2 (tmpdir ++ ['/']) parts

/-- A name of `config_list`.  The directory is the name before the last slash, and empty if
there is none. -/
def Loading.add (l : Loading) (name : Text) : Loading :=
  if (l.folders.find name).isSome then l
  else
    let full := if name.getLast? = some '/' then name.dropLast else name
    let split := full.splitOn '/'
    let dirname := ['/'].intercalate split.dropLast
    let l := if (l.folders.find dirname).isSome then l else l.newFolders [] [] split.dropLast
    (l.newItem ((l.folders.find dirname).getD []) (split.getLastD []) full).1

/-- `loadSessionNames`. -/
def loadSessionNames (list : ConfigList) : List SessionItem :=
  (list.keys.foldl Loading.add ⟨[], OrderedMap.empty.insert [] []⟩).tree

end Loading

section Window

/-- `config_list` and the tree of the window. -/
structure SettingsWindow where
  configList : ConfigList
  tree : List SessionItem

/-- The window when it opens. -/
def SettingsWindow.opened (list : ConfigList) : SettingsWindow := ⟨list, loadSessionNames list⟩

/-- Where an item is: the path to its parent, and its index. -/
structure Position where
  dir : List Nat
  index : Nat
deriving DecidableEq

/-- The items beside a position, with the full name of their parent and the item itself. -/
def SettingsWindow.item (w : SettingsWindow) (p : Position) :
    Option (Option Text × List SessionItem × SessionItem) :=
  match siblingsAt none p.dir w.tree with
  | none => none
  | some (parent, siblings) => siblings[p.index]?.map (fun item => (parent, siblings, item))

/-- `insertChild`. -/
def insertChild (siblings : List SessionItem) (i : Nat) (item : SessionItem) : List SessionItem :=
  siblings.take i ++ item :: siblings.drop i

/-- What a save is about: an item among its siblings, and its new text and full name. -/
structure Saving where
  siblings : List SessionItem
  item : SessionItem
  name : Text
  fullname : Text

/-- The start of `on_b_save_sess_clicked`, with the text of `le_saved_sess`; none where it
returns. -/
def SettingsWindow.saving (w : SettingsWindow) (p : Position) (leSavedSess : Text) :
    Option Saving :=
  match w.item p with
  | none => none
  | some (parent, siblings, item) =>
      if item.text = defaultSettings then some ⟨siblings, item, defaultSettings, defaultSettings⟩
      else if leSavedSess = [] then none
      else some ⟨siblings, item, leSavedSess, pathName parent leSavedSess⟩

/-- `on_b_save_sess_clicked` with the settings that `getConfig` returns. -/
def SettingsWindow.onSaveSess (w : SettingsWindow) (p : Position) (leSavedSess : Text)
    (cfg : Conf) : SettingsWindow :=
  match w.saving p leSavedSess with
  | none => w
  | some s =>
      let list := (w.configList.erase s.item.fullSessname).insert s.fullname ⟨s.fullname, some cfg⟩
      let below := adjustChildren (some s.fullname) s.item.children list
      let item := SessionItem.mk s.name s.fullname below.1
      ⟨below.2, setSiblings p.dir (s.siblings.set p.index item) w.tree⟩

/-- `on_b_delete_sess_clicked`. -/
def SettingsWindow.onDeleteSess (w : SettingsWindow) (p : Position) : SettingsWindow :=
  match w.item p with
  | none => w
  | some (_, siblings, item) =>
      if item.text = defaultSettings then w
      else if item.children ≠ [] then w
      else ⟨w.configList.erase item.fullSessname,
        setSiblings p.dir (siblings.eraseIdx p.index) w.tree⟩

/-- The name that `on_b_sess_copy_clicked` tries after `i` others. -/
def copyName (text : Text) (i : Nat) : Text :=
  text ++ ' ' :: '(' :: ((Nat.toDigits 10 i) ++ [')'])

/-- The loop that looks for a name that no child of the parent has. -/
def pickName (texts : List Text) (text : Text) : Nat → Nat → Text → Option Text
  | 0, _, _ => none
  | fuel + 1, i, foldername =>
      if foldername ∈ texts then pickName texts text fuel (i + 1) (copyName text i)
      else some foldername

/-- The name of the copy of an item. -/
def copyNameFor (siblings : List SessionItem) (item : SessionItem) : Option Text :=
  pickName (siblings.map SessionItem.text) item.text (siblings.length + 1) 1 item.text

/-- `on_b_sess_copy_clicked`. -/
def SettingsWindow.onSessCopy (w : SettingsWindow) (p : Position) : Option SettingsWindow :=
  match w.item p with
  | none => some w
  | some (parent, siblings, item) =>
      match copyNameFor siblings item with
      | none => none
      | some foldername =>
          let fullname := pathName parent foldername
          let newitem := SessionItem.mk foldername fullname []
          ((w.configList.at (pathName parent item.text)).copyWithNewName fullname).map (fun cfg =>
            ⟨w.configList.insert fullname cfg,
              setSiblings p.dir (insertChild siblings (p.index + 1) newitem) w.tree⟩)

/-- What a drop is about: the item, the tree without it, and where it goes. -/
structure Dropping where
  item : SessionItem
  tree : List SessionItem
  parent : Option Text
  siblings : List SessionItem

/-- An item that is dropped; none where there is no such place. -/
def SettingsWindow.dropping (w : SettingsWindow) (p q : Position) : Option Dropping :=
  match w.item p with
  | none => none
  | some (_, siblings, item) =>
      let tree := setSiblings p.dir (siblings.eraseIdx p.index) w.tree
      (siblingsAt none q.dir tree).map (fun target => ⟨item, tree, target.1, target.2⟩)

/-- `dropEvent` and `slot_sessname_hierarchy_changed`. -/
def SettingsWindow.onDrop (w : SettingsWindow) (p q : Position) : SettingsWindow :=
  match w.dropping p q with
  | none => w
  | some d =>
      let adjusted := adjustSessnameHierarchy d.parent d.item w.configList
      ⟨adjusted.2, setSiblings q.dir (insertChild d.siblings q.index adjusted.1) d.tree⟩

/-- The sessions that `readFromXML` makes of the `config` elements of a file. -/
def readSessions (configs : List (Text × Conf)) : ConfigList :=
  configs.foldl (fun list c => list.insert c.1 ⟨c.1, some c.2⟩) OrderedMap.empty

/-- `on_import_clicked` with the names that are checked. -/
def importSessions (file : ConfigList) : List Text → ConfigList → Option ConfigList
  | [], list => some list
  | str :: checked, list =>
      match file.find str with
      | none => importSessions file checked list
      | some entry =>
          entry.copy.bind (fun cfg => importSessions file checked (list.insert str cfg))

/-- What the user can do. -/
inductive Operation where
  | save (current : Position) (leSavedSess : Text) (cfg : Conf)
  | delete (current : Position)
  | copy (current : Position)
  | move (current target : Position)
  | import (configs : List (Text × Conf)) (checked : List Text)

/-- An operation of the window; none if the program crashes. -/
def SettingsWindow.step (w : SettingsWindow) : Operation → Option SettingsWindow
  | .save p leSavedSess cfg => some (w.onSaveSess p leSavedSess cfg)
  | .delete p => some (w.onDeleteSess p)
  | .copy p => w.onSessCopy p
  | .move p q => some (w.onDrop p q)
  | .import configs checked =>
      (importSessions (readSessions configs) checked w.configList).map
        (fun list => { w with configList := list })

end Window

end Config
end Qutty
