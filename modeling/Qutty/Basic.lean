import Mathlib.Tactic

/-!
# Octets, literals and aborts

What the models of the receive path share: the carrier of received octets, the
byte strings of the source's literals, and the ways in which the program stops
without returning.
-/

namespace Qutty

/-- Octets as the receive path sees them. The carrier may hold more than the
octet, for instance its position in the stream; no function below can look at
anything but the octet. -/
class Octet (α : Type) where
  octet : α → UInt8

export Octet (octet)

instance : Octet UInt8 := ⟨id⟩

/-- Octets labelled with their position in the stream they came from. -/
instance : Octet (Nat × UInt8) := ⟨Prod.snd⟩

/-- A stream with its positions. -/
def label (bytes : List UInt8) : List (Nat × UInt8) :=
  bytes.zipIdx.map Prod.swap

/-- Every position occurs once. -/
theorem label_nodup (bytes : List UInt8) : (label bytes).Nodup := by
  apply List.Nodup.of_map Prod.fst
  have hfst : (label bytes).map Prod.fst = List.range bytes.length := by
    simp [label, Function.comp_def, List.zipIdx_map_snd, List.range_eq_range']
  rw [hfst]
  exact List.nodup_range

/-- The bytes of an ASCII literal of the source. -/
def ascii (text : List Char) : List UInt8 :=
  text.map (fun c => c.toNat.toUInt8)

/-- `strStartsWith(start, s, l)`: `strncmp` on a `start` without NUL. -/
def startsWith {α : Type} [Octet α] (start : List UInt8) (s : List α) : Bool :=
  start.isPrefixOf (s.map octet)

/-- Ways to stop without returning. -/
inductive Fault where
  /-- `qFatal("TMUX unrecognized command ...")` -/
  | unrecognizedCommand
  /-- `assert(_tmuxMode == ...)` in `GuiTerminalWindow` -/
  | tmuxModeAssertion
  /-- `memcpy` with a negative size -/
  | memcpySize
  /-- `_tmuxGateway` dereferenced while it is `NULL` -/
  | nullGateway
deriving DecidableEq, Repr

end Qutty
