import Qutty.Terminal.Input
import Mathlib.Tactic.SplitIfs

/-!
# The emulation around the input loop

The parts of `term_out` that decide what happens to a byte before it can be displayed:
character-set translation, the printer, the selection, `ESC` sequences and the end of an
OSC string.  What they display is `shown`, which stands for the screens, the cursor, the
attributes and the rest of `Terminal`; the functions that work on it are `Reactions`.
-/

namespace Qutty

/-- `struct pos`. -/
structure Pos where
  y : Int
  x : Int
deriving DecidableEq, Repr

/-- `poslt`. -/
def poslt (p q : Pos) : Bool :=
  if p.y ≠ q.y then p.y < q.y else p.x < q.x

/-- `incpos`. -/
def incpos (p : Pos) (cols : Int) : Pos :=
  if p.x = cols then ⟨p.y + 1, 0⟩ else { p with x := p.x + 1 }

/-- `selstate`. -/
inductive SelState where
  | noSelection
  | aboutTo
  | dragging
  | selected
deriving DecidableEq, Repr

/-- `struct term_utf8_decode`. -/
structure Utf8Decode where
  state : Nat
  chr : Nat
  size : Nat
deriving DecidableEq, Repr

/-- `cset_attr`. -/
inductive CharSet where
  | ascii
  | linedrw
  | scoacs
  | gbchr
deriving DecidableEq, Repr

/-- `CSET_ASCII` and so on. -/
def CharSet.code : CharSet → Nat
  | .ascii => 0xD800
  | .linedrw => 0xD900
  | .scoacs => 0xDA00
  | .gbchr => 0xDB00

/-- The fields of `Terminal` that the loop reads and writes itself. -/
structure Fields (δ : Type) where
  selstate : SelState
  selstart : Pos
  selend : Pos
  /-- `win_resize_pending != WIN_RESIZE_NO` -/
  winResizePending : Bool
  printing : Bool
  onlyPrinting : Bool
  printState : Nat
  printerBuf : List UInt8
  utf8 : Utf8Decode
  vt52Mode : Bool
  compatibilityLevel : Nat
  shown : δ

/-- What the display knows, and what the other parts of the emulation do. -/
structure Reactions (δ : Type) where
  curs : δ → Pos
  cols : δ → Int
  /-- `in_utf` -/
  inUtf : δ → Bool
  unitabCtrl : Nat → Nat
  utf8linedraw : δ → Bool
  /-- `cset_attr[cset]` -/
  csetAttr : δ → CharSet
  scoAcs : δ → Nat
  delete : Fields δ → Fields δ
  control : Screen (Fields δ) → Nat → Screen (Fields δ)
  doOsc : Screen (Fields δ) → Screen (Fields δ)
  /-- the cases of the switch after `ESC` -/
  escFinal : Int → Screen (Fields δ) → Screen (Fields δ)
  /-- an OSC string with a character other than CR, LF and `ESC` -/
  oscString : Screen (Fields δ) → Nat → Screen (Fields δ)
  /-- `TOPLEVEL` and the states that are not modelled -/
  other : Screen (Fields δ) → Nat → Screen (Fields δ)

/-- `CL_ANSIMIN` and so on. -/
def Compat.bit : Compat → Nat
  | .ansimin => 0x0001
  | .vt220 => 0x0010
  | .other => 0x4000

/-- `ANSI(x, y)`. -/
def ansi (x y : Nat) : Int := x + y * 256

/-- The final bytes of `ESC` sequences that the switch knows, `ESC P` aside. -/
def escFinals : List Int :=
  (['[', ']', 'X', '^', '_', '7', '8', '=', '>', 'D', 'E', 'M', 'Z', 'c', 'H'].map
      (fun c => ansi c.toNat 0)) ++
    (['8', '3', '4', '5', '6'].map (fun c => ansi c.toNat '#'.toNat)) ++
    (['A', 'B', '0', 'U'].map (fun c => ansi c.toNat '('.toNat)) ++
    (['A', 'B', '0', 'U'].map (fun c => ansi c.toNat ')'.toNat)) ++
    (['8', 'G', '@'].map (fun c => ansi c.toNat '%'.toNat))

namespace Fields

variable {δ : Type} (R : Reactions δ) (f : Fields δ)

/-- `term_print_finish`; the printer itself is left out. -/
def printFinish : Fields δ :=
  { f with printerBuf := [], printing := false, onlyPrinting := false }

/-- `print_state` in print-only mode. -/
def nextPrintState (c : UInt8) : Nat :=
  if c = 0x1b then 1
  else if c = 0x9b then 2
  else if c = 0x5b ∧ f.printState = 1 then 2
  else if c = 0x34 ∧ f.printState = 2 then 3
  else if c = 0x69 ∧ f.printState = 3 then 4
  else 0

/-- The printer at the beginning of a pass. -/
def print (c : UInt8) : Fields δ × Bool :=
  if f.printing then
    let f := { f with printerBuf := f.printerBuf ++ [c] }
    if f.onlyPrinting then
      let f := { f with printState := f.nextPrintState c }
      (if f.printState = 4 then f.printFinish else f, true)
    else (f, false)
  else (f, false)

/-- `term_print_flush`. -/
def printFlush : Fields δ :=
  { f with printerBuf := f.printerBuf.drop (f.printerBuf.length - 5) }

/-- `check_selection` for the character under the cursor. -/
def checkSelection : Fields δ :=
  if f.selstate ≠ .noSelection ∧ poslt (R.curs f.shown) f.selend ∧
      poslt f.selstart (incpos (R.curs f.shown) (R.cols f.shown)) then
    { f with selstate := .noSelection, selstart := ⟨0, 0⟩, selend := ⟨0, 0⟩ }
  else f

/-- The character of a UTF-8 sequence with all its bytes. -/
def completeUtf8 (t size : Nat) : Translation :=
  if t < 0x80 ∨ (t < 0x800 ∧ 2 ≤ size) ∨ (t < 0x10000 ∧ 3 ≤ size) ∨
      (t < 0x200000 ∧ 4 ≤ size) ∨ (t < 0x4000000 ∧ 5 ≤ size) then .invalid
  else if t = 0x2028 ∨ t = 0x2029 then .char 0x85
  else if t < 0xA0 then .char 0xFFFD
  else if 0xD800 ≤ t ∧ t < 0xE000 then .invalid
  else if 0x10FFFF < t then .invalid
  else if t = 0xFEFF then .incomplete
  else if t = 0xFFFE ∨ t = 0xFFFF then .invalid
  else .char t

/-- A 7-bit character. -/
def translateAscii (c : Nat) : Nat :=
  if R.unitabCtrl c ≠ 0xFF then R.unitabCtrl c else c ||| CharSet.ascii.code

/-- The UTF-8 part of `term_translate`. -/
def translateUtf8 (c : Nat) : Fields δ × Translation :=
  let start (n chr : Nat) : Fields δ × Translation :=
    ({ f with utf8 := ⟨n, chr, n⟩ }, .incomplete)
  if f.utf8.state = 0 then
    if c < 0x80 then
      (f, .char (if R.unitabCtrl c = 0xFF ∧ R.utf8linedraw f.shown ∧
          R.csetAttr f.shown = .linedrw then c ||| CharSet.linedrw.code
        else translateAscii R c))
    else if c / 32 = 6 then start 1 (c % 32)
    else if c / 16 = 14 then start 2 (c % 16)
    else if c / 8 = 30 then start 3 (c % 8)
    else if c / 4 = 62 then start 4 (c % 4)
    else if c / 2 = 126 then start 5 (c % 2)
    else (f, .invalid)
  else if c / 64 ≠ 2 then ({ f with utf8 := { f.utf8 with state := 0 } }, .truncated)
  else
    let u : Utf8Decode := ⟨f.utf8.state - 1, f.utf8.chr * 64 + c % 64, f.utf8.size⟩
    ({ f with utf8 := u }, if u.state = 0 then completeUtf8 u.chr u.size else .incomplete)

/-- `term_translate`. -/
def translate (b : UInt8) : Fields δ × Translation :=
  let c := b.toNat
  if R.inUtf f.shown then f.translateUtf8 R c
  else if R.scoAcs f.shown ≠ 0 ∧ c ≠ 0x1b ∧ c ≠ 10 ∧ c ≠ 13 ∧ c ≠ 8 then
    (f, .char ((if R.scoAcs f.shown = 2 then c ||| 0x80 else c) ||| CharSet.scoacs.code))
  else
    (f, .char (match R.csetAttr f.shown with
      | .linedrw =>
          if R.unitabCtrl c ≠ 0xFF then R.unitabCtrl c else c ||| CharSet.linedrw.code
      | .gbchr => if c = 0x23 then 0x7d ||| CharSet.linedrw.code else translateAscii R c
      | .ascii => translateAscii R c
      | .scoacs => if 0x20 ≤ c then c ||| CharSet.scoacs.code else c))

end Fields

namespace Reactions

variable {δ : Type} (R : Reactions δ)

/-- `SEEN_ESC` and `OSC_MAYBE_ST`, except for `ESC P`. -/
def escape (s : Screen (Fields δ)) (c : Nat) : Screen (Fields δ) :=
  if s.termstate = .oscMaybeSt ∧ c = 0x5c then { R.doOsc s with termstate := .toplevel }
  else if 0x20 ≤ c ∧ c ≤ 0x2f then
    { s with escQuery := if s.escQuery ≠ 0 then -1 else c }
  else
    let s := { s with termstate := .toplevel }
    let code : Int := c + s.escQuery * 256
    if code ∈ escFinals then R.escFinal code s else s

/-- The states that the loop itself does not deal with. -/
def others (s : Screen (Fields δ)) (c : Nat) : Screen (Fields δ) :=
  match s.termstate with
  | .oscString =>
      if c = 10 ∨ c = 13 then { s with termstate := .toplevel }
      else if c = 0x1b then { s with termstate := .oscMaybeSt }
      else R.oscString s c
  | _ => R.other s c

/-- The emulation. -/
def emulator : Emulator (Fields δ) where
  dragging f := f.selstate = .dragging
  resizePending f := f.winResizePending
  print := Fields.print
  translate := Fields.translate R
  vt52Mode := Fields.vt52Mode
  hasCompat f x := f.compatibilityLevel &&& x.bit ≠ 0
  delete := R.delete
  control := R.control
  escape := R.escape
  other := R.others
  checkSelection := Fields.checkSelection R
  printFlush := Fields.printFlush

end Reactions

/-- The loop reads its input, and obeys `ESC`. -/
structure Attends {δ : Type} (d : δ) (f : Fields δ) : Prop where
  shown : f.shown = d
  notDragging : f.selstate ≠ .dragging
  notResizing : f.winResizePending = false
  notOnlyPrinting : f.printing = true → f.onlyPrinting = false
  notVt52 : f.vt52Mode = false
  ansimin : f.compatibilityLevel &&& Compat.ansimin.bit ≠ 0

namespace Attends

variable {δ : Type} {d : δ} {f : Fields δ}

/-- A byte that goes to the printer as well. -/
theorem print (h : Attends d f) (b : UInt8) : Attends d (f.print b).1 ∧ (f.print b).2 = false := by
  rw [Fields.print]
  by_cases hprint : f.printing = true
  · have honly := h.notOnlyPrinting hprint
    simp only [hprint, if_true, honly, Bool.false_eq_true, if_false, and_true]
    exact ⟨h.shown, h.notDragging, h.notResizing, fun _ => rfl, h.notVt52, h.ansimin⟩
  · simp only [hprint, Bool.false_eq_true, if_false, and_true]
    exact h

theorem print_utf8 (f : Fields δ) (b : UInt8) : (f.print b).1.utf8 = f.utf8 := by
  rw [Fields.print]
  dsimp only
  split_ifs <;> rfl

theorem checkSelection (h : Attends d f) (R : Reactions δ) :
    Attends d (f.checkSelection R) := by
  rw [Fields.checkSelection]
  split_ifs
  · exact ⟨h.shown, by simp, h.notResizing, h.notOnlyPrinting, h.notVt52, h.ansimin⟩
  · exact h

theorem printFlush (h : Attends d f) : Attends d f.printFlush :=
  ⟨h.shown, h.notDragging, h.notResizing, h.notOnlyPrinting, h.notVt52, h.ansimin⟩

/-- `ESC` is a control character in every character set. -/
theorem translate_esc (R : Reactions δ) (hesc : R.unitabCtrl 0x1b = 0x1b)
    (hutf : R.inUtf f.shown = true → f.utf8.state = 0) : f.translate R 0x1b = (f, .char 0x1b) := by
  have hascii : Fields.translateAscii R 0x1b = 0x1b := by
    rw [Fields.translateAscii, hesc]
    rfl
  have hcode : (0x1b : UInt8).toNat = 0x1b := rfl
  rw [Fields.translate, hcode]
  by_cases hin : R.inUtf f.shown = true
  · simp [hin, Fields.translateUtf8, hutf hin, hesc, hascii]
  · cases R.csetAttr f.shown <;> simp [hin, hesc, hascii]

end Attends

end Qutty
