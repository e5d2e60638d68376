import Qutty.Lib.Occurrence

/-!
# The find toolbar

`on_findUp` and `on_findDown` search the lines of a terminal, the scrollback first and then
the screen, for the text of the toolbar.  They start behind the last match and go on line by
line, around the end of the buffer, until a counter of the lines exceeds their number.

The two are one search with two sets of parameters (`Direction`).  `on_find_eq` says what a
search does in terms of the first line with a match among the lines that it visits.
Repainting is left out, and so is the search without a current terminal.
-/

namespace Qutty
namespace Find

open Lib

/-- `QString`, as its UTF-16 code units. -/
abbrev QString : Type := List Nat

section Strings

variable (foldCase : Nat → Nat)

/-- `QString::compare` with `Qt::CaseInsensitive`: whether the texts differ. -/
def compare (s t : QString) : Bool := s.map foldCase ≠ t.map foldCase

/-- `QString::indexOf` with `Qt::CaseInsensitive`, for a text that is not empty. -/
def indexOf (s t : QString) (start : Int) : Int :=
  let start := if start < 0 then start + s.length else start
  if start < 0 then -1
  else ((firstOccurrence foldCase s t start.toNat).map Nat.cast).getD (-1)

/-- `QString::lastIndexOf` with `Qt::CaseInsensitive`, for a text that is not empty.  From
behind the end of the string it finds single characters only. -/
def lastIndexOf (s t : QString) (start : Int) : Int :=
  let start := if start < 0 then start + s.length else start
  if start < 0 ∨ s.length < start ∧ t.length ≠ 1 then -1
  else ((lastOccurrence foldCase s t start.toNat).map Nat.cast).getD (-1)

end Strings

/-- The tables of `unicode_data` that the search uses. -/
structure UnicodeData where
  unitab_line : Nat → Nat
  unitab_xterm : Nat → Nat
  unitab_scoacs : Nat → Nat

/-- The part of `Terminal` that the search uses; a line is the list of the `chr` of its
cells. -/
structure Terminal where
  rows : Nat
  cols : Nat
  scrollback : List (List Nat)
  screen : List (List Nat)
  ucsdata : UnicodeData

def CSET_MASK : Nat := 0xFFFFFF00
def CSET_ASCII : Nat := 0xD800
def CSET_LINEDRW : Nat := 0xD900
def CSET_SCOACS : Nat := 0xDA00

namespace Terminal

/-- The character of a cell, cut to a `char`. -/
def cellChar (term : Terminal) (tchar : Nat) : Nat :=
  let tchar :=
    if tchar &&& CSET_MASK = CSET_ASCII then term.ucsdata.unitab_line (tchar &&& 0xFF)
    else if tchar &&& CSET_MASK = CSET_LINEDRW then term.ucsdata.unitab_xterm (tchar &&& 0xFF)
    else if tchar &&& CSET_MASK = CSET_SCOACS then term.ucsdata.unitab_scoacs (tchar &&& 0xFF)
    else tchar
  tchar &&& 0xFF

/-- `index234`. -/
def index234 (tree : List (List Nat)) (ind : Int) : Option (List Nat) :=
  if ind < 0 then none else tree[ind.toNat]?

/-- The text of a row of the buffer; `ind` is its index on the screen. -/
def rowText (term : Terminal) (row ind : Int) : QString :=
  let line :=
    if term.scrollback.length > row then index234 term.scrollback row
    else index234 term.screen ind
  match line with
  | some chars => chars.map term.cellChar
  | none => []

/-- The lines of the buffer. -/
def lines (term : Terminal) : List QString :=
  (term.scrollback ++ term.screen).map (fun chars => chars.map term.cellChar)

end Terminal

/-- A vertical scroll bar; its minimum is 0. -/
structure QScrollBar where
  value : Nat
  maximum : Nat
  le : value ≤ maximum

namespace QScrollBar

def setRange (bar : QScrollBar) (maximum : Int) : QScrollBar :=
  ⟨min bar.value maximum.toNat, maximum.toNat, min_le_right _ _⟩

def setValue (bar : QScrollBar) (value : Int) : QScrollBar :=
  ⟨min value.toNat bar.maximum, bar.maximum, min_le_right _ _⟩

/-- `GuiTerminalWindow::setScrollBar`. -/
def setScrollBar (bar : QScrollBar) (total start page : Int) : QScrollBar :=
  let bar := bar.setRange (total - page)
  if bar.value ≠ start then bar.setValue start else bar

end QScrollBar

/-- `scrollbar->maximum() + term->rows`. -/
def total (term : Terminal) (bar : QScrollBar) : Nat := bar.maximum + term.rows

/-- `GuiFindToolBar`. -/
structure GuiFindToolBar where
  findTextFlag : Bool
  currentRow : Int
  currentCol : Int
  pageStartPosition : Int
  currentSearchedText : QString
deriving DecidableEq, Repr

namespace GuiFindToolBar

/-- A new toolbar. -/
def init : GuiFindToolBar where
  findTextFlag := false
  currentRow := -1
  currentCol := -1
  pageStartPosition := 0
  currentSearchedText := []

end GuiFindToolBar

/-- What distinguishes `on_findUp` and `on_findDown`. -/
structure Direction where
  /-- the column behind a match of the given length -/
  resume : (col length : Int) → Int
  /-- the column from which another line is searched -/
  restart : (cols : Int) → Int
  /-- the row of the first search -/
  startRow : (value rows : Int) → Int
  /-- the row, or the other end of the buffer -/
  wrap : (total row : Int) → Int
  /-- the index on the screen for a row -/
  screenInd : (ind : Int) → Int
  /-- the match in a line -/
  find : (foldCase : Nat → Nat) → (cols : Int) → (str text : QString) → (col : Int) → Option Int
  next : (row : Int) → Int
  /-- whether to scroll to a row -/
  offPage : (row value rows : Int) → Bool

/-- The parameters of `on_findUp`. -/
def up : Direction where
  resume col length := col - length
  restart cols := cols - 1
  startRow value rows := value + rows - 1
  wrap total row := if row < 0 then total - 1 else row
  screenInd ind := ind
  find foldCase _ str text col :=
    if col ≥ 0 ∧ lastIndexOf foldCase str text col ≥ 0 then
      some (lastIndexOf foldCase str text col)
    else none
  next row := row - 1
  offPage row value rows := row < value ∨ row > value + rows

/-- The parameters of `on_findDown`. -/
def down : Direction where
  resume col length := col + length
  restart _ := 0
  startRow value _ := value
  wrap total row := if row ≥ total then 0 else row
  screenInd ind := |ind|
  find foldCase cols str text col :=
    if col < cols ∧ indexOf foldCase str text col ≥ 0 then
      some (indexOf foldCase str text col)
    else none
  next row := row + 1
  offPage row value rows := row < value ∨ row ≥ value + rows

section Search

variable (d : Direction) (foldCase : Nat → Nat) (term : Terminal)

/-- The text of the line that is searched for a row. -/
def str (row : Int) : QString :=
  term.rowText row (d.screenInd (row - term.scrollback.length))

/-- The `while` loop, for at most the given number of lines: where it found the text. -/
def scan (text : QString) (total : Int) : Nat → (tempStartPosition row col : Int) →
    Option (Option (Int × Int))
  | 0, _, _, _ => none
  | n + 1, tempStartPosition, row, col =>
      let row := d.wrap total row
      match d.find foldCase term.cols (str d term row) text col with
      | some col => some (some (row, col))
      | none =>
          if tempStartPosition + 1 > total then some none
          else scan text total n (tempStartPosition + 1) (d.next row) (d.restart term.cols)

/-- The columns, the page and the text with which the loop starts. -/
def start (searched : QString) (bar : QScrollBar) (f : GuiFindToolBar) : GuiFindToolBar :=
  let changed := compare foldCase searched f.currentSearchedText
  let currentCol := d.resume f.currentCol f.currentSearchedText.length
  { findTextFlag := true
    currentRow := if f.currentRow < 0 then d.startRow bar.value term.rows else f.currentRow
    currentCol := if changed ∧ currentCol < 0 then d.restart term.cols else currentCol
    pageStartPosition := if changed then bar.value else f.pageStartPosition
    currentSearchedText := if changed then searched else f.currentSearchedText }

/-- The scroll bar after a match in a row. -/
def scrolled (f : GuiFindToolBar) (bar : QScrollBar) (row : Int) : QScrollBar :=
  if f.pageStartPosition ≠ bar.value then
    bar.setScrollBar (total term bar) f.pageStartPosition term.rows
  else if d.offPage row bar.value term.rows then
    bar.setScrollBar (total term bar) row term.rows
  else bar

/-- The toolbar after a match. -/
def landed (f : GuiFindToolBar) (bar : QScrollBar) (row col : Int) : GuiFindToolBar :=
  { f with
    currentRow := row
    currentCol := col
    pageStartPosition :=
      if f.pageStartPosition ≠ bar.value then f.pageStartPosition
      else (scrolled d term f bar row).value
    currentSearchedText :=
      ((str d term row).drop col.toNat).take f.currentSearchedText.length }

/-- `on_findUp` and `on_findDown`. -/
def on_find (searched : QString) (bar : QScrollBar) (f : GuiFindToolBar) :
    Option (GuiFindToolBar × QScrollBar) :=
  if searched = [] then some ({ f with findTextFlag := false }, bar)
  else
    let s := start d foldCase term searched bar f
    match scan d foldCase term s.currentSearchedText (total term bar) (total term bar + 1) 0
        s.currentRow s.currentCol with
    | none => none
    | some none =>
        some ({ s with
          findTextFlag := false
          currentRow := f.currentRow
          currentCol := f.currentCol }, bar)
    | some (some (row, col)) =>
        some (landed d term s bar row col, scrolled d term s bar row)

end Search

/-- `GuiFindToolBar::on_findUp`. -/
def on_findUp (foldCase : Nat → Nat) (term : Terminal) (searched : QString) (bar : QScrollBar)
    (f : GuiFindToolBar) : Option (GuiFindToolBar × QScrollBar) :=
  on_find up foldCase term searched bar f

/-- `GuiFindToolBar::on_findDown`. -/
def on_findDown (foldCase : Nat → Nat) (term : Terminal) (searched : QString)
    (bar : QScrollBar) (f : GuiFindToolBar) : Option (GuiFindToolBar × QScrollBar) :=
  on_find down foldCase term searched bar f

section Scrolling

variable {d : Direction} {term : Terminal} {bar : QScrollBar}

/-- The range of the scroll bar stays the same. -/
theorem setScrollBar_total (term : Terminal) (bar : QScrollBar) (start : Int) :
    bar.setScrollBar (total term bar) start term.rows = bar.setValue start := by
  obtain ⟨value, maximum, hle⟩ := bar
  have hmax : ((total term ⟨value, maximum, hle⟩ : Nat) - (term.rows : Int)).toNat = maximum := by
    simp only [total]
    omega
  simp only [QScrollBar.setScrollBar, QScrollBar.setRange, hmax, min_eq_left hle]
  split_ifs with hne
  · rfl
  · rw [← not_not.mp hne]
    simp [QScrollBar.setValue, hle]

theorem scrolled_eq (d : Direction) (term : Terminal) (f : GuiFindToolBar) (bar : QScrollBar)
    (row : Int) :
    scrolled d term f bar row =
      if f.pageStartPosition ≠ bar.value then bar.setValue f.pageStartPosition
      else if d.offPage row bar.value term.rows then bar.setValue row else bar := by
  simp only [scrolled, setScrollBar_total]

theorem scrolled_maximum (d : Direction) (term : Terminal) (f : GuiFindToolBar)
    (bar : QScrollBar) (row : Int) : (scrolled d term f bar row).maximum = bar.maximum := by
  rw [scrolled_eq]
  split_ifs <;> rfl

end Scrolling

section Visits

variable (d : Direction) (foldCase : Nat → Nat) (term : Terminal)

/-- The rows that a search visits from `row` on. -/
def visited (total row : Int) : Nat → Int
  | 0 => d.wrap total row
  | i + 1 => d.wrap total (d.next (visited total row i))

/-- The match in the `i`-th row that a search visits: only there the column counts. -/
def hit (text : QString) (total row col : Int) (i : Nat) : Option Int :=
  d.find foldCase term.cols (str d term (visited d total row i)) text
    (if i = 0 then col else d.restart term.cols)

variable {d foldCase term}

theorem scan_eq {text : QString} {total : Nat} {row col : Int} {n i : Nat} {r c : Int}
    (hn : i + n = total + 1) (hn0 : n ≠ 0) (hr : d.wrap total r = visited d total row i)
    (hc : c = if i = 0 then col else d.restart term.cols) :
    scan d foldCase term text total n i r c =
      some ((firstHit (hit d foldCase term text total row col) n i).map
        (fun h => (visited d total row h.1, h.2))) := by
  induction n generalizing i r c with
  | zero => exact absurd rfl hn0
  | succ n ih =>
      have hstep : d.find foldCase term.cols (str d term (visited d total row i)) text c =
          hit d foldCase term text total row col i := by rw [hc, hit]
      rw [scan, firstHit]
      simp only [hr, hstep]
      cases hit d foldCase term text total row col i with
      | some k => rfl
      | none =>
          simp only
          by_cases hn' : n = 0
          · subst hn'
            rw [if_pos (by omega)]
            rfl
          · rw [if_neg (by omega)]
            have hcast : (i : Int) + 1 = ((i + 1 : Nat) : Int) := by omega
            rw [hcast]
            exact ih (by omega) hn' rfl (by simp)

theorem scan_start (text : QString) (total : Nat) (row col : Int) :
    scan d foldCase term text total (total + 1) 0 row col =
      some ((firstHit (hit d foldCase term text total row col) (total + 1) 0).map
        (fun h => (visited d total row h.1, h.2))) :=
  scan_eq (i := 0) (Nat.zero_add _) (Nat.succ_ne_zero _) rfl (if_pos rfl).symm

variable (d foldCase term) in
/-- Where a search lands: at the step and the column of the first match. -/
def landing (searched : QString) (bar : QScrollBar) (f : GuiFindToolBar) : Option (Nat × Int) :=
  let s := start d foldCase term searched bar f
  firstHit (hit d foldCase term s.currentSearchedText (total term bar) s.currentRow
    s.currentCol) (total term bar + 1) 0

/-- **What a search does.**  It ends, with the toolbar at the first match among as many rows
as there are and one more, or unmoved. -/
theorem on_find_eq {searched : QString} (hs : searched ≠ []) (bar : QScrollBar)
    (f : GuiFindToolBar) :
    on_find d foldCase term searched bar f =
      let s := start d foldCase term searched bar f
      match landing d foldCase term searched bar f with
      | some (i, col) =>
          let row := visited d (total term bar) s.currentRow i
          some (landed d term s bar row col, scrolled d term s bar row)
      | none =>
          some ({ s with
            findTextFlag := false
            currentRow := f.currentRow
            currentCol := f.currentCol }, bar) := by
  rw [on_find, if_neg hs, landing]
  simp only [scan_start]
  cases firstHit _ _ _ <;> rfl

end Visits

end Find
end Qutty
