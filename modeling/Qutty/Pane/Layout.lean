import Qutty.Lib.Forest

/-!
# Tabs and split panes

The pane layout of a main window: `GuiSplitter.cpp`, the layout functions of
`GuiMainWindow.cpp` and the drop handlers of `GuiDrag.cpp`.  A tab shows a
terminal or a splitter; a splitter has terminals and further splitters as
children.  The structure is kept three times, by hand: in the `child` vector of
each splitter, in the `parentSplit` pointer of each pane, and by Qt (the widgets
of a `QSplitter` in visual order, the pages of the tab widget).  `tabIndexMap`
and `widgetAtIndex` are caches, rebuilt by `on_tabLayoutChanged`.

Panes are objects, so the state is a heap: functions from identifiers.  What Qt
does is modelled as far as the code depends on it:

* a widget that gets a new parent leaves its old splitter or tab page;
* inserting and removing a page calls `on_tabLayoutChanged`;
* `deleteLater` takes effect when the operation is over.

A function returns `none` where an assertion fails, or where
`child.erase(std::remove(..))` erases at the end iterator.  Sizes, focus, titles
and the current tab are left out.
-/

namespace Qutty
namespace Pane

/-- A pane: a terminal or a splitter. -/
inductive GuiBase where
  | term (t : Nat)
  | split (s : Nat)
deriving DecidableEq, Repr

/-- `Qt::Orientation`. -/
inductive Orientation where
  | horizontal
  | vertical
deriving DecidableEq, Repr

/-- `GuiBase::SplitType`; `TYPE_HORIZONTAL` is `down` and `TYPE_VERTICAL` is
`right`. -/
inductive SplitType where
  | none
  | up
  | left
  | down
  | right
  | leaf
deriving DecidableEq, Repr

/-- The layout of a main window.  `nextTerminal` and `nextSplitter` are the
identifiers of the next objects; `opened` and `closed` are ghost records of the
open terminals and of the terminals closed so far. -/
structure GuiMainWindow where
  nextTerminal : Nat
  nextSplitter : Nat
  orientation : Nat → Orientation
  child : Nat → List GuiBase
  parentSplit : GuiBase → Option Nat
  /-- the widgets of a `QSplitter`, in visual order -/
  widgets : Nat → List GuiBase
  /-- the pages of `tabArea` -/
  tabs : List GuiBase
  terminalList : List Nat
  /-- the writes to the map, in order -/
  tabIndexMap : List (GuiBase × Nat)
  widgetAtIndex : List (Option Nat × Option Nat)
  /-- splitters that wait for `deleteLater` -/
  dying : List Nat
  opened : List Nat
  closed : List Nat

/-- `insertWidget` and `insertTab`: an index out of range means the end. -/
def insertAt (i : Int) (b : GuiBase) (l : List GuiBase) : List GuiBase :=
  if i < 0 ∨ l.length < i then l ++ [b] else l.insertIdx i.toNat b

/-- `indexOf`. -/
def indexOf (l : List GuiBase) (b : GuiBase) : Int :=
  if b ∈ l then l.idxOf b else -1

/-- `child.erase(std::remove(child.begin(), child.end(), b))`: one element is
erased, at the new end; behind it the old elements stay. -/
def eraseRemove (l : List GuiBase) (b : GuiBase) : Option (List GuiBase) :=
  let kept := l.filter (fun x => x ≠ b)
  if b ∈ l then some (kept ++ l.drop (kept.length + 1)) else none

/-- The orientation for a kind of split. -/
def orientOf (split : SplitType) : Orientation :=
  if split = .down ∨ split = .up then .vertical else .horizontal

/-- The old terminal comes first. -/
def SplitType.oldFirst (split : SplitType) : Bool :=
  split = .down ∨ split = .right

namespace GuiMainWindow

/-- An empty main window. -/
def init : GuiMainWindow where
  nextTerminal := 0
  nextSplitter := 0
  orientation _ := .horizontal
  child _ := []
  parentSplit _ := none
  widgets _ := []
  tabs := []
  terminalList := []
  tabIndexMap := []
  widgetAtIndex := []
  dying := []
  opened := []
  closed := []

/-- `populateAllTerminals`, down to a given depth. -/
def populate (child : Nat → List GuiBase) : Nat → GuiBase → List Nat
  | _, .term t => [t]
  | 0, .split _ => []
  | n + 1, .split s => (child s).flatMap (populate child n)

/-- `populateAllTerminals`.  A splitter inside another one is younger, so that
the number of splitters bounds the depth. -/
def populateAllTerminals (w : GuiMainWindow) (b : GuiBase) : List Nat :=
  populate w.child w.nextSplitter b

/-- The writes to `tabIndexMap` for the tab at index `i`. -/
def indexEntries (w : GuiMainWindow) : GuiBase × Nat → List (GuiBase × Nat)
  | (.term t, i) => [(.term t, i)]
  | (.split s, i) =>
      (.split s, i) :: (w.populateAllTerminals (.split s)).map (fun t => (.term t, i))

/-- The entry of `widgetAtIndex` for a page. -/
def pagePair : GuiBase → Option Nat × Option Nat
  | .term t => (none, some t)
  | .split s => (some s, none)

/-- `on_tabLayoutChanged`. -/
def onTabLayoutChanged (w : GuiMainWindow) : GuiMainWindow :=
  { w with tabIndexMap := w.tabs.zipIdx.flatMap w.indexEntries
           widgetAtIndex := w.tabs.map pagePair }

/-- `getTerminalTabInd`. -/
def getTerminalTabInd (w : GuiMainWindow) (b : GuiBase) : Int :=
  match w.tabIndexMap.reverse.find? (fun e => e.1 = b) with
  | some e => e.2
  | none => -1

/-- A widget leaves its parent: splitters lose it, and so does the tab widget. -/
def leaveParent (w : GuiMainWindow) (b : GuiBase) : GuiMainWindow :=
  let w := { w with widgets := fun s => (w.widgets s).erase b }
  if b ∈ w.tabs then ({ w with tabs := w.tabs.erase b }).onTabLayoutChanged else w

/-- `tabInsert`. -/
def tabInsert (w : GuiMainWindow) (tabind : Int) (b : GuiBase) : GuiMainWindow :=
  let w := w.leaveParent b
  ({ w with tabs := insertAt tabind b w.tabs }).onTabLayoutChanged

/-- `tabRemove`. -/
def tabRemove (w : GuiMainWindow) (tabind : Int) : GuiMainWindow :=
  if 0 ≤ tabind ∧ tabind < w.tabs.length then
    ({ w with tabs := w.tabs.eraseIdx tabind.toNat }).onTabLayoutChanged
  else w

/-- `GuiSplitter::addBaseWidget`. -/
def addBaseWidget (w : GuiMainWindow) (s : Nat) (ind : Int) (b : GuiBase) : GuiMainWindow :=
  let w := { w with
    child := Function.update w.child s (w.child s ++ [b])
    parentSplit := Function.update w.parentSplit b (some s) }
  let w := w.leaveParent b
  { w with widgets := Function.update w.widgets s (insertAt ind b (w.widgets s)) }

/-- `GuiSplitter::removeBaseWidget`. -/
def removeBaseWidget (w : GuiMainWindow) (s : Nat) (b : GuiBase) : Option GuiMainWindow := do
  let rest ← eraseRemove (w.child s) b
  let w := { w with
    child := Function.update w.child s rest
    parentSplit := Function.update w.parentSplit b none }
  some (w.leaveParent b)

/-- `new GuiSplitter(orient)`; the new splitter is the old `nextSplitter`. -/
def newSplitter (w : GuiMainWindow) (orient : Orientation) : GuiMainWindow :=
  { w with
    nextSplitter := w.nextSplitter + 1
    orientation := Function.update w.orientation w.nextSplitter orient
    child := Function.update w.child w.nextSplitter []
    parentSplit := Function.update w.parentSplit (.split w.nextSplitter) none
    widgets := Function.update w.widgets w.nextSplitter [] }

/-- `new GuiSplitter(orient, parentsplit, ind)`. -/
def newSplitterIn (w : GuiMainWindow) (orient : Orientation) (parentsplit : Nat) (ind : Int) :
    GuiMainWindow :=
  (w.newSplitter orient).addBaseWidget parentsplit ind (.split w.nextSplitter)

/-- The two panes of a new splitter. -/
def addPair (w : GuiMainWindow) (s : Nat) (split : SplitType) (oldTerm newTerm : Nat) :
    GuiMainWindow :=
  if split.oldFirst then
    (w.addBaseWidget s 0 (.term oldTerm)).addBaseWidget s 1 (.term newTerm)
  else (w.addBaseWidget s 0 (.term newTerm)).addBaseWidget s 1 (.term oldTerm)

/-- `GuiSplitter::createSplitLayout`. -/
def splitterCreateSplitLayout (w : GuiMainWindow) (p : Nat) (split : SplitType)
    (oldTerm newTerm : Nat) : Option GuiMainWindow :=
  let orient := orientOf split
  let ind := indexOf (w.widgets p) (.term oldTerm)
  if ind = -1 then none
  else if orient ≠ w.orientation p then do
    let s := w.nextSplitter
    let w ← (w.newSplitterIn orient p ind).removeBaseWidget p (.term oldTerm)
    some (w.addPair s split oldTerm newTerm)
  else if split.oldFirst then some (w.addBaseWidget p (ind + 1) (.term newTerm))
  else some (w.addBaseWidget p ind (.term newTerm))

/-- `GuiTerminalWindow::createSplitLayout`. -/
def createSplitLayout (w : GuiMainWindow) (t : Nat) (split : SplitType) (newTerm : Nat) :
    Option GuiMainWindow :=
  match w.parentSplit (.term t) with
  | none =>
      let tabind := w.getTerminalTabInd (.term t)
      let w := w.tabRemove tabind
      let s := w.nextSplitter
      let w := (w.newSplitter (orientOf split)).addPair s split t newTerm
      some (w.tabInsert tabind (.split s))
  | some p => w.splitterCreateSplitLayout p split t newTerm

/-- `close` and `deleteLater` of a splitter. -/
def deleteLater (w : GuiMainWindow) (s : Nat) : GuiMainWindow :=
  { w with dying := s :: w.dying }

/-- The part of `removeSplitLayout` for a splitter `s` left with one child `b`. -/
def collapse (w : GuiMainWindow) (s : Nat) (b : GuiBase) : Option GuiMainWindow := do
  let w ← w.removeBaseWidget s b
  match w.parentSplit (.split s) with
  | some g =>
      let rest ← eraseRemove (w.child g) (.split s)
      let w := { w with child := Function.update w.child g rest }
      let w := w.addBaseWidget g (indexOf (w.widgets g) (.split s)) b
      let w := { w with parentSplit := Function.update w.parentSplit (.split s) none }
      some (w.deleteLater s)
  | none =>
      let tabind := w.getTerminalTabInd (.split s)
      some (((w.tabRemove tabind).tabInsert tabind b).deleteLater s)

/-- `GuiSplitter::removeSplitLayout`. -/
def removeSplitLayout (w : GuiMainWindow) (s : Nat) (t : Nat) : Option GuiMainWindow := do
  let w ← w.removeBaseWidget s (.term t)
  match w.child s with
  | [b] => w.collapse s b
  | _ => some w

/-- The first step of a drop or a close: leave the splitter, if there is one. -/
def leaveSplit (w : GuiMainWindow) (t : Nat) : Option GuiMainWindow :=
  match w.parentSplit (.term t) with
  | some s => w.removeSplitLayout s t
  | none => some w

/-- `GuiMainWindow::closeTerminal`. -/
def mainCloseTerminal (w : GuiMainWindow) (t : Nat) : GuiMainWindow :=
  let ind := indexOf w.tabs (.term t)
  let w := { w with terminalList := w.terminalList.filter (fun x => x ≠ t) }
  let w := if ind ≠ -1 then w.tabRemove ind else w
  w.onTabLayoutChanged

/-- The ghost records of a closed terminal. -/
def recordClosed (w : GuiMainWindow) (t : Nat) : GuiMainWindow :=
  { w with opened := w.opened.erase t, closed := w.closed ++ [t] }

/-- `GuiTerminalWindow::closeTerminal`. -/
def closeTerminal (w : GuiMainWindow) (t : Nat) : Option GuiMainWindow := do
  let w ← w.leaveSplit t
  some ((w.mainCloseTerminal t).recordClosed t)

/-- `GuiMainWindow::setupLayout` with `TYPE_LEAF`. -/
def setupLayoutLeaf (w : GuiMainWindow) (newTerm : Nat) (tabind : Int) : GuiMainWindow :=
  let w := (w.leaveParent (.term newTerm)).tabInsert tabind (.term newTerm)
  ({ w with terminalList := w.terminalList ++ [newTerm] }).onTabLayoutChanged

/-- `GuiMainWindow::setupLayout` with a split of the current terminal `t`.  Its
assertion that the split is `TYPE_HORIZONTAL` or `TYPE_VERTICAL` is left out:
`createSplitLayout` is defined for every kind. -/
def setupLayoutSplit (w : GuiMainWindow) (newTerm t : Nat) (split : SplitType) :
    Option GuiMainWindow := do
  let w ← w.createSplitLayout t split newTerm
  some ({ w with terminalList := w.terminalList ++ [newTerm] }).onTabLayoutChanged

/-- `new GuiTerminalWindow`; the new terminal is the old `nextTerminal`. -/
def newTerminal (w : GuiMainWindow) : GuiMainWindow :=
  { w with nextTerminal := w.nextTerminal + 1, opened := w.opened ++ [w.nextTerminal] }

/-- `reqCloseTerminal(true)`, down to a given depth. -/
def reqClose : Nat → GuiBase → GuiMainWindow → Option GuiMainWindow
  | _, .term t, w => w.closeTerminal t
  | 0, .split _, _ => none
  | n + 1, .split s, w => do
      let w ← (w.child s).foldlM (fun w b => reqClose n b w) w
      if w.child s = [] then some (w.deleteLater s) else none

/-- `GuiSplitter::reqCloseTerminal(true)`, on a snapshot of each `child`
vector. -/
def reqCloseTerminal (w : GuiMainWindow) (s : Nat) : Option GuiMainWindow :=
  reqClose (w.nextSplitter + 1) (.split s) w

/-- The end of an operation: splitters that wait for it are deleted. -/
def purge (w : GuiMainWindow) : GuiMainWindow :=
  { w with
    widgets := fun s => (w.widgets s).filter (fun b => ∀ d ∈ w.dying, b ≠ .split d)
    dying := [] }

end GuiMainWindow

/-- The operations on the layout. -/
inductive PaneOp where
  | openTab
  /-- split the terminal `t` -/
  | split (t : Nat) (type : SplitType)
  | close (t : Nat)
  | dropOnTerminal (dropped dst : Nat) (type : SplitType)
  | dropOnTabBar (dropped : Nat) (tabind : Int) (type : SplitType)
deriving DecidableEq, Repr

namespace GuiMainWindow

/-- The body of an operation.  Operations on terminals that are not open do not
occur, and neither do drops of a terminal on itself. -/
def perform (w : GuiMainWindow) : PaneOp → Option GuiMainWindow
  | .openTab => some (w.newTerminal.setupLayoutLeaf w.nextTerminal (-1))
  | .split t type =>
      if t ∈ w.opened then w.newTerminal.setupLayoutSplit w.nextTerminal t type else some w
  | .close t => if t ∈ w.opened then w.closeTerminal t else some w
  | .dropOnTerminal dropped dst type =>
      if dropped ∈ w.opened ∧ dst ∈ w.opened ∧ dropped ≠ dst then do
        let w ← w.leaveSplit dropped
        w.createSplitLayout dst type dropped
      else some w
  | .dropOnTabBar dropped tabind type =>
      if dropped ∈ w.opened ∧ (type = .left ∨ type = .right) ∧ tabind ≠ -1 then do
        let w ← w.leaveSplit dropped
        some (w.setupLayoutLeaf dropped (if type = .left then tabind else tabind + 1))
      else some w

/-- One operation. -/
def step (w : GuiMainWindow) (op : PaneOp) : Option GuiMainWindow :=
  (w.perform op).map purge

/-- A sequence of operations. -/
def run (w : GuiMainWindow) : List PaneOp → Option GuiMainWindow
  | [] => some w
  | op :: ops => (w.step op).bind (fun w => run w ops)

end GuiMainWindow

end Pane
end Qutty
