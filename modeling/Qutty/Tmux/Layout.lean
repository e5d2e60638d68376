import Qutty.Basic
import Qutty.Lib.Istream

/-!
# Window layouts

`TmuxLayout` of `tmux/TmuxLayout.hpp` and its parser in `tmux/TmuxLayout.cpp`.
A layout is read from a stream by recursive descent: dimensions and position,
then a pane id, or the children of a split in brackets.

An object keeps what it held before when it is read again: numbers that are not
there leave fields as they were, and children are appended.  The recursion has
fuel; each level uses up at least one character, so that twice the length of the
text is enough.
-/

namespace Qutty
namespace Tmux

open Lib

/-- `TmuxLayout::TmuxLayoutType`. -/
inductive TmuxLayoutType where
  | none
  | leaf
  | horizontal
  | vertical
deriving DecidableEq, Repr

/-- `TmuxLayout`, without the `parent` pointer, which nothing reads. -/
structure TmuxLayout where
  width : Nat
  height : Nat
  x : Nat
  y : Nat
  paneid : Nat
  layoutType : TmuxLayoutType
  child : List TmuxLayout
deriving Repr

namespace TmuxLayout

/-- `TmuxLayout::TmuxLayout`; the pane id is `-1` as an `unsigned int`. -/
def init : TmuxLayout := ⟨0, 0, 0, 0, 2 ^ 32 - 1, .none, []⟩

/-- The label `cu0` of `parseLayout`. -/
def rejected (l : TmuxLayout) (s : Istream) : Bool × TmuxLayout × Istream :=
  (false, { l with layoutType := .none }, s)

/-- The octet of a character of the source. -/
def octetOf (c : Char) : UInt8 := c.toNat.toUInt8

/-- A number, and the character after it. -/
def readField (old : Nat) (s : Istream) : Nat × Option UInt8 × Istream :=
  let (v, s) := s.readUnsignedInto old
  let (c, s) := s.get
  (v, c, s)

mutual

/-- `TmuxLayout::parseLayout`. -/
def parseLayout : Nat → TmuxLayout → Istream → Bool × TmuxLayout × Istream
  | 0, l, s => l.rejected s
  | n + 1, l, s =>
      let (width, c, s) := readField l.width s
      let l := { l with width := width }
      if c ≠ some (octetOf 'x') then l.rejected s
      else
        let (height, c, s) := readField l.height s
        let l := { l with height := height }
        if c ≠ some (octetOf ',') then l.rejected s
        else
          let (x, c, s) := readField l.x s
          let l := { l with x := x }
          if c ≠ some (octetOf ',') then l.rejected s
          else
            let (y, s) := s.readUnsignedInto l.y
            let l := { l with y := y }
            let (c, s) := s.peek
            if c = some (octetOf '\x7b') ∨ c = some (octetOf '[') then
              let (c, s) := s.get
              let l := { l with
                layoutType := if c = some (octetOf '[') then .vertical else .horizontal }
              let (ok, child, s) := parseLayoutChildren n l.child s
              let l := { l with child := child }
              if ok then (true, l, s) else l.rejected s
            else
              let (c, s) := s.get
              if c ≠ some (octetOf ',') then l.rejected s
              else
                let (paneid, s) := s.readUnsignedInto l.paneid
                (true, { l with paneid := paneid, layoutType := .leaf }, s)

/-- `TmuxLayout::parseLayoutChildren`.  The value that `parseLayout` returns for
a child is not looked at. -/
def parseLayoutChildren : Nat → List TmuxLayout → Istream → Bool × List TmuxLayout × Istream
  | 0, child, s => (false, child, s)
  | n + 1, child, s =>
      let (_, tchild, s) := parseLayout n init s
      let (c, s) := s.get
      if c = some (octetOf ']') ∨ c = some (octetOf '\x7d') then (true, child ++ [tchild], s)
      else if c = some (octetOf ',') then parseLayoutChildren n (child ++ [tchild]) s
      else (false, child, s)

end

/-- `TmuxLayout::initLayout`. -/
def initLayout (l : TmuxLayout) (layout : List UInt8) : Bool × TmuxLayout :=
  let (ok, l, _) := parseLayout (2 * layout.length + 2) l (.ofString layout)
  (ok, l)

mutual

/-- Every node of the tree has a type, and splits have children. -/
def wellFormed : TmuxLayout → Bool
  | ⟨_, _, _, _, _, .none, _⟩ => false
  | ⟨_, _, _, _, _, .leaf, _⟩ => true
  | ⟨_, _, _, _, _, .horizontal, child⟩ => child ≠ [] ∧ wellFormedAll child
  | ⟨_, _, _, _, _, .vertical, child⟩ => child ≠ [] ∧ wellFormedAll child

def wellFormedAll : List TmuxLayout → Bool
  | [] => true
  | l :: ls => wellFormed l && wellFormedAll ls

end

end TmuxLayout

/-- A window split in two, with one half split again. -/
example : (TmuxLayout.init.initLayout
    ("78x28,0,0[78x14,0,0,1,78x13,0,15\x7b39x13,0,15,2,38x13,40,15,3\x7d]".toList.map
      TmuxLayout.octetOf)).1 = true := by
  decide +kernel

end Tmux
end Qutty
