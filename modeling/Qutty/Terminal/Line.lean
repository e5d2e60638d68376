import Qutty.Lib.Chains
import Qutty.Lib.Runs

/-!
# The lines of the terminal

`puttysrc/terminal/terminal.c`: a line is an array of character cells.  The first `cols` are
the columns of the line.  The rest is a pool from which the combining characters are taken:
the first `cc_next` of a column leads to its first combining character, and so on; the cells
that are not used are linked in the same way from `cc_free`.  All links are distances.

The array is a memory (`chars`), of which `size` cells are allocated.
-/

namespace Qutty
namespace Terminal

open Lib Lib.Chains

/-- `optionalrgb` -/
structure OptionalRgb where
  enabled : Bool
  r : UInt8
  g : UInt8
  b : UInt8
deriving DecidableEq, Repr

/-- `optionalrgb_none` -/
def optionalrgbNone : OptionalRgb := ⟨false, 0, 0, 0⟩

/-- `truecolour` -/
structure Truecolour where
  fg : OptionalRgb
  bg : OptionalRgb
deriving DecidableEq, Repr

/-- `termchar` -/
structure Termchar where
  chr : UInt32
  attr : UInt32
  truecolour : Truecolour
  ccNext : Int
deriving DecidableEq, Repr

/-- `termline` -/
structure Termline where
  lattr : UInt16
  cols : Nat
  size : Nat
  temporary : Bool
  ccFree : Nat
  chars : Nat → Termchar
  trusted : Bool

/-- `CC_LIMIT` -/
def ccLimit : Nat := 32

/-- `sizeof(termchar)`, where a `long` has eight bytes. -/
def sizeofTermchar : Nat := 32

/-- `safegrowarray`: the new number of elements. -/
def safegrowarray (oldsize eltsize oldlen extralen : Nat) : Nat :=
  if oldsize > oldlen + extralen then oldsize
  else
    let increment := oldlen + extralen - oldsize
    let increment := if increment < 256 / eltsize then 256 / eltsize else increment
    let increment := if increment < oldsize / 16 then oldsize / 16 else increment
    oldsize + increment

/-- `memmove` within an array. -/
def memmove (chars : Nat → Termchar) (dest src n : Nat) : Nat → Termchar := fun i =>
  if dest ≤ i ∧ i < dest + n then chars (src + (i - dest)) else chars i

namespace Termline

variable (line : Termline)

section Cells

/-- Where the link of a cell leads. -/
def next (i : Nat) : Option Nat :=
  if (line.chars i).ccNext = 0 then none else some ((i : Int) + (line.chars i).ccNext).toNat

/-- The first free cell. -/
def freeHead : Option Nat := if line.ccFree = 0 then none else some line.ccFree

/-- `chars[i] = c`. -/
def setCell (i : Nat) (c : Termchar) : Termline :=
  { line with chars := Function.update line.chars i c }

/-- `chars[i].cc_next = d`. -/
def setCcNext (i : Nat) (d : Int) : Termline :=
  line.setCell i { line.chars i with ccNext := d }

/-- `chars[i].chr = chr`. -/
def setChr (i : Nat) (chr : UInt32) : Termline :=
  line.setCell i { line.chars i with chr := chr }

/-- The combining characters of a cell. -/
def ccList (i : Nat) : List UInt32 :=
  (follow line.next line.size i).map fun j => (line.chars j).chr

end Cells

section Combining

/-- `clear_cc`. -/
def clearCc (col : Nat) : Termline :=
  if (line.chars col).ccNext = 0 then line
  else
    let last := lastNode line.next line.size col
    let freed := { line with ccFree := ((col : Int) + (line.chars col).ccNext).toNat }
    (freed.setCcNext last (if line.ccFree = 0 then 0 else (line.ccFree : Int) - last)).setCcNext
      col 0

/-- The part of `add_cc` that extends the array. -/
def extend : Termline :=
  let size := safegrowarray line.size sizeofTermchar line.size 1
  { line with
    size := size
    ccFree := line.size
    chars := fun n =>
      if line.size ≤ n ∧ n < size then
        { line.chars n with ccNext := if n + 1 < size then 1 else 0 }
      else line.chars n }

/-- The part of `add_cc` that takes a cell from the free list. -/
def link (last : Nat) (chr : UInt32) : Termline :=
  let newcc := line.ccFree
  let taken := { line with
    ccFree :=
      if (line.chars newcc).ccNext = 0 then 0
      else ((newcc : Int) + (line.chars newcc).ccNext).toNat }
  ((taken.setCcNext newcc 0).setChr newcc chr).setCcNext last ((newcc : Int) - last)

/-- `add_cc`. -/
def addCc (col : Nat) (chr : UInt32) : Termline :=
  if (line.chars col).chr = 0xFFFD then line
  else
    match lastWithin line.next ccLimit col with
    | none => (line.clearCc col).setChr col 0xFFFD
    | some last => (if line.ccFree = 0 then line.extend else line).link last chr

/-- `copy_termchar`, from a cell of another line. -/
def copyTermchar (destline : Termline) (x : Nat) (srcline : Termline) (src : Nat) : Termline :=
  let cleared := destline.clearCc x
  let copied := cleared.setCell x { srcline.chars src with ccNext := 0 }
  (srcline.ccList src).foldl (fun line chr => line.addCc x chr) copied

/-- `move_termchar`. -/
def moveTermchar (dest src : Nat) : Termline :=
  let cleared := line.clearCc dest
  let c := cleared.chars src
  let moved := cleared.setCell dest
    (if c.ccNext = 0 then c else { c with ccNext := c.ccNext - ((dest : Int) - src) })
  moved.setCcNext src 0

end Combining

section Lines

/-- `newtermline`, with the erase character. -/
def newtermline (cols : Nat) (eraseChar : Termchar) : Termline where
  lattr := 0
  cols := cols
  size := cols
  temporary := false
  ccFree := 0
  chars := fun _ => eraseChar
  trusted := false

/-- `copy_termchar`, from an erase character. -/
def erase (x : Nat) (eraseChar : Termchar) : Termline :=
  line.copyTermchar x (newtermline 1 eraseChar) 0

/-- The part of `resizeline` that moves the pool to its new place. -/
def relocate (basicEraseChar : Termchar) (line : Termline) (cols : Nat) : Termline :=
  let oldcols := line.cols
  let change := (cols : Int) - oldcols
  let chars := memmove line.chars cols oldcols (line.size - oldcols)
  let chars := fun i =>
    if i < oldcols ∧ i < cols ∧ (chars i).ccNext ≠ 0 then
      { chars i with ccNext := (chars i).ccNext + change }
    else chars i
  { line with
    size := ((line.size : Int) + change).toNat
    cols := cols
    ccFree := if line.ccFree = 0 then 0 else ((line.ccFree : Int) + change).toNat
    chars := fun i => if oldcols ≤ i ∧ i < cols then basicEraseChar else chars i }

/-- `resizeline`. -/
def resizeline (basicEraseChar : Termchar) (line : Termline) (cols : Nat) : Termline :=
  if line.cols = cols then line
  else relocate basicEraseChar ((List.range' cols (line.cols - cols)).foldl clearCc line) cols

/-- `clear_line`, with the erase characters of the terminal. -/
def clearLine (basicEraseChar eraseChar : Termchar) (line : Termline) (cols : Nat) : Termline :=
  let cleared := (List.range cols).foldl (fun line i => line.erase i eraseChar)
    (resizeline basicEraseChar line cols)
  { cleared with lattr := 0 }

/-- What the display of a character does to its cell. -/
def display (x : Nat) (chr attr : UInt32) (truecolour : Truecolour) : Termline :=
  let cleared := line.clearCc x
  cleared.setCell x { cleared.chars x with chr := chr, attr := attr, truecolour := truecolour }

/-- The second half of a wide character. -/
def ucswide : UInt32 := 0xDFFF

/-- `check_boundary`, within the columns. -/
def checkBoundary (x : Nat) : Termline :=
  if (line.chars x).chr = ucswide then
    let cleared := (line.clearCc (x - 1)).clearCc x
    let spaced := cleared.setChr (x - 1) (0x20 ||| 0xD800)
    spaced.setCell x (spaced.chars (x - 1))
  else line

end Lines

end Termline

/-- An erase character of the terminal: it has no combining characters. -/
def EraseChar := { c : Termchar // c.ccNext = 0 }

/-- What the terminal does to a line. -/
inductive LineOp where
  | addCc (x : Nat) (chr : UInt32)
  | clearCc (x : Nat)
  | display (x : Nat) (chr attr : UInt32) (truecolour : Truecolour)
  | erase (x : Nat) (eraseChar : EraseChar)
  | copy (x : Nat) (other src : Nat)
  | move (dest src : Nat)
  | resize (cols : Nat)
  | clear (cols : Nat) (eraseChar : EraseChar)
  | boundary (x : Nat)

/-- An operation on one of the lines.  Nothing is asked for outside of a line, and no line is
copied into itself. -/
def lineStep (basicEraseChar : EraseChar) (lines : Nat → Termline) :
    Nat × LineOp → Option (Nat → Termline)
  | (k, op) =>
      let line := lines k
      let result : Option Termline :=
        match op with
        | .addCc x chr => if x < line.cols then some (line.addCc x chr) else none
        | .clearCc x => if x < line.cols then some (line.clearCc x) else none
        | .display x chr attr truecolour =>
            if x < line.cols then some (line.display x chr attr truecolour) else none
        | .erase x eraseChar => if x < line.cols then some (line.erase x eraseChar.val) else none
        | .copy x other src =>
            if x < line.cols ∧ src < (lines other).cols ∧ other ≠ k then
              some (line.copyTermchar x (lines other) src)
            else none
        | .move dest src =>
            if dest < line.cols ∧ src < line.cols ∧ dest ≠ src then
              some (line.moveTermchar dest src)
            else none
        | .resize cols =>
            if 0 < cols then some (Termline.resizeline basicEraseChar.val line cols) else none
        | .clear cols eraseChar =>
            if 0 < cols then some (Termline.clearLine basicEraseChar.val eraseChar.val line cols)
            else none
        | .boundary x => if 0 < x ∧ x < line.cols then some (line.checkBoundary x) else none
      result.map (fun line => Function.update lines k line)

end Terminal
end Qutty
