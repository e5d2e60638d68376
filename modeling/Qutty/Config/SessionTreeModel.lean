import Qutty.Config.Sessions
import Qutty.Lib.PathTree

/-!
# The tree model of the sessions

`QtSessionTreeModel` shows the names of `config_list` as a tree.  Its items lie in lists of
items, `childItems`, which move their items when they grow.  A pointer to an item, be it in
`folders` or the `parentItem` of a child, is of use as long as the item has not been moved
since; after that there is no result (`none`).

The items are numbered in the order of their creation.  `childItems` of an item are those with
it as `parentItem`, and how often an item was moved is known from its row and the number of
its siblings.  When a list grows is a parameter.
-/

namespace Qutty
namespace Config

open Lib Lib.ByteOrder

/-- `QtSessionTreeItem *`: the item, and how often it had been moved when it was taken. -/
structure ItemPointer where
  item : Nat
  moves : Nat
deriving DecidableEq

/-- `QtSessionTreeItem`; the parent `none` is the root item of the model. -/
structure QtSessionTreeItem where
  sessionName : Text
  parentItem : Option ItemPointer

/-- The items of a model in the order of their creation, without the root item. -/
abbrev TreeItems : Type := List QtSessionTreeItem

namespace TreeItems

/-- The parent of an item; `none` is the root item, which is also that of no item. -/
def parentOf (items : TreeItems) (i : Nat) : Option Nat :=
  (items[i]?.bind QtSessionTreeItem.parentItem).map ItemPointer.item

/-- `childItems`. -/
def childItems (items : TreeItems) (p : Option Nat) : List Nat :=
  (List.range items.length).filter (fun i => items.parentOf i = p)

/-- The place of an item in the list that it lies in. -/
def place (items : TreeItems) (i : Nat) : Nat := (items.childItems (items.parentOf i)).idxOf i

section Memory

variable (grows : Nat → Bool)

/-- How often an item was moved; `grows n` says whether a list of `n` items moves them when
one more is added. -/
def moves (items : TreeItems) (i : Nat) : Nat :=
  ((List.range' (items.place i + 1)
    ((items.childItems (items.parentOf i)).length - (items.place i + 1))).filter grows).length

/-- The item of a pointer, if it is still there. -/
def deref (items : TreeItems) (p : ItemPointer) : Option Nat :=
  if p.item < items.length ∧ items.moves grows p.item = p.moves then some p.item else none

/-- `&item`. -/
def pointer (items : TreeItems) (i : Nat) : ItemPointer := ⟨i, items.moves grows i⟩

/-- `row`. -/
def row (items : TreeItems) (i : Nat) : Option Nat :=
  match items[i]?.bind QtSessionTreeItem.parentItem with
  | none => some (items.place i)
  | some parentItem => (items.deref grows parentItem).map fun _ => items.place i

/-- `emplaceChild`: the item of the result has not been moved yet. -/
def emplaceChild (items : TreeItems) (p : Option ItemPointer) (name : Text) :
    Option (TreeItems × ItemPointer) :=
  match p with
  | none => some (items ++ [⟨name, none⟩], ⟨items.length, 0⟩)
  | some ptr =>
      (items.deref grows ptr).map fun _ => (items ++ [⟨name, some ptr⟩], ⟨items.length, 0⟩)

/-- `getFullSessionName`. -/
def getFullSessionName (items : TreeItems) : Nat → Nat → Option Text
  | 0, _ => none
  | fuel + 1, i =>
      items[i]?.bind fun item =>
        match item.parentItem with
        | none => some item.sessionName
        | some ptr =>
            (items.deref grows ptr).bind fun p =>
              (getFullSessionName items fuel p).map (· ++ '/' :: item.sessionName)

end Memory

end TreeItems

section Building

variable (grows : Nat → Bool)

/-- The state of the constructor; `folders[""]` is the root item. -/
structure Building where
  items : TreeItems
  folders : OrderedMap Text (Option ItemPointer)

/-- A new item, which becomes `folders[full]`. -/
def Building.newItem (b : Building) (parent : Option ItemPointer) (name full : Text) :
    Option (Building × Option ItemPointer) :=
  (b.items.emplaceChild grows parent name).map fun made =>
    (⟨made.1, b.folders.insert full (some made.2)⟩, some made.2)

/-- The loop over the directories of a session. -/
def Building.newFolders : Building → Option ItemPointer → Text → List Text → Option Building
  | b, _, _, [] => some b
  | b, parent, tmpdir, part :: parts =>
      let tmpdir := tmpdir ++ part
      match b.folders.find tmpdir with
      | some item => b.newFolders item (tmpdir ++ ['/']) parts
      | none =>
          (b.newItem grows parent part tmpdir).bind fun made =>
            made.1.newFolders made.2 (tmpdir ++ ['/']) parts

/-- A name of `config_list`.  The directory is the name before the last slash, and empty if
there is none. -/
def Building.add (b : Building) (name : Text) : Option Building :=
  if (b.folders.find name).isSome then some b
  else
    let full := if name.getLast? = some '/' then name.dropLast else name
    let split := full.splitOn '/'
    let dirname := ['/'].intercalate split.dropLast
    let b' := if (b.folders.find dirname).isSome then some b
      else b.newFolders grows none [] split.dropLast
    b'.bind fun b =>
      (b.newItem grows ((b.folders.find dirname).getD none) (split.getLastD []) full).map Prod.fst

/-- `QtSessionTreeModel::QtSessionTreeModel`, for the names in `config_list`. -/
def QtSessionTreeModel (names : List Text) : Option TreeItems :=
  (names.foldlM (Building.add grows) ⟨[], OrderedMap.empty.insert [] none⟩).map Building.items

end Building

section Queries

/-- `QModelIndex`: the row and the internal pointer; the column is 0. -/
abbrev QModelIndex : Type := Option (Nat × ItemPointer)

namespace TreeItems

variable (grows : Nat → Bool) (items : TreeItems)

/-- The item of an index, which is the root item for an index that is not valid. -/
def itemOf (index : QModelIndex) : Option (Option Nat) :=
  match index with
  | none => some none
  | some (_, ptr) => (items.deref grows ptr).map some

/-- `index`. -/
def index (row : Nat) (parent : QModelIndex) : Option QModelIndex :=
  (items.itemOf grows parent).map fun p =>
    (items.childItems p)[row]?.map fun i => (row, items.pointer grows i)

/-- `parent`. -/
def parent (index : QModelIndex) : Option QModelIndex :=
  match index with
  | none => some none
  | some (_, ptr) =>
      (items.deref grows ptr).bind fun i =>
        match items[i]?.bind QtSessionTreeItem.parentItem with
        | none => some none
        | some parentItem =>
            (items.deref grows parentItem).bind fun p =>
              (items.row grows p).map fun row => some (row, parentItem)

/-- `data`. -/
def data (index : QModelIndex) : Option Text :=
  index.bind fun ix =>
    (items.deref grows ix.2).bind fun i => items.getFullSessionName grows items.length i

/-- `findIndexForSessionName`, from an index on: the first row with the name, part by part. -/
def findIndex : QModelIndex → List Text → Option QModelIndex
  | par, [] => some par
  | par, part :: parts =>
      (items.itemOf grows par).bind fun p =>
        match (items.childItems p).findIdx? (fun i =>
            items[i]?.map QtSessionTreeItem.sessionName = some part) with
        | none => some none
        | some row => (items.index grows row par).bind fun ch => findIndex ch parts

/-- `findIndexForSessionName`. -/
def findIndexForSessionName (fullsessname : Text) : Option QModelIndex :=
  items.findIndex grows none (fullsessname.splitOn '/')

/-- The index of an item. -/
def indexOf (i : Nat) : QModelIndex := some (items.place i, items.pointer grows i)

/-- What is shown below an item: names, and full names as `data` returns them. -/
def shown : Nat → Option Nat → Option (List SessionItem)
  | 0, _ => none
  | fuel + 1, p =>
      (items.childItems p).mapM fun i =>
        (items[i]?.map QtSessionTreeItem.sessionName).bind fun name =>
          (items.data grows (items.indexOf grows i)).bind fun full =>
            (shown fuel (some i)).map fun children => SessionItem.mk name full children

end TreeItems

end Queries

end Config
end Qutty
