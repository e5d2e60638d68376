import Mathlib.Tactic

/-!
# Machines that read symbols and write symbols

A machine reads one symbol after the other, and writes some for each.  It does not matter
how its input is cut into pieces (`run_flatten`).  If every message, read in a state of
rest, ends in a state of rest and writes what belongs to it, then so does any sequence of
messages (`run_flatMap`).
-/

namespace Qutty
namespace Lib
namespace Transducer

variable {σ α β μ : Type} (step : σ → α → σ × List β)

/-- The state after some symbols, and what has been written. -/
def run : σ → List α → σ × List β
  | s, [] => (s, [])
  | s, a :: as => ((run (step s a).1 as).1, (step s a).2 ++ (run (step s a).1 as).2)

/-- The same for an input in pieces. -/
def runPieces : σ → List (List α) → σ × List β
  | s, [] => (s, [])
  | s, as :: pieces =>
      ((runPieces (run step s as).1 pieces).1,
        (run step s as).2 ++ (runPieces (run step s as).1 pieces).2)

variable {step} {s : σ}

@[simp] theorem run_nil : run step s [] = (s, []) := rfl

@[simp] theorem run_cons (a : α) (as : List α) :
    run step s (a :: as) = ((run step (step s a).1 as).1, (step s a).2 ++ (run step (step s a).1 as).2) :=
  rfl

theorem run_append (as bs : List α) :
    run step s (as ++ bs) =
      ((run step (run step s as).1 bs).1, (run step s as).2 ++ (run step (run step s as).1 bs).2) := by
  induction as generalizing s with
  | nil => simp
  | cons a as ih => simp [ih]

/-- **The pieces do not matter.** -/
theorem run_flatten (pieces : List (List α)) :
    runPieces step s pieces = run step s pieces.flatten := by
  induction pieces generalizing s with
  | nil => rfl
  | cons as pieces ih => simp [runPieces, run_append, ih]

variable (step) in
/-- A message is read from a state of rest to a state of rest, and writes what belongs to it. -/
def Reads (Rest : σ → Prop) (enc : List α) (out : List β) : Prop :=
  ∀ s, Rest s → Rest (run step s enc).1 ∧ (run step s enc).2 = out

variable {Rest : σ → Prop}

theorem Reads.append {enc enc' : List α} {out out' : List β} (h : Reads step Rest enc out)
    (h' : Reads step Rest enc' out') : Reads step Rest (enc ++ enc') (out ++ out') := by
  intro s hs
  obtain ⟨hrest, hout⟩ := h s hs
  obtain ⟨hrest', hout'⟩ := h' _ hrest
  rw [run_append]
  exact ⟨hrest', by simp only [hout, hout']⟩

/-- **The rule for messages.** -/
theorem run_flatMap {enc : μ → List α} {out : μ → List β} {ms : List μ}
    (h : ∀ m ∈ ms, Reads step Rest (enc m) (out m)) :
    Reads step Rest (ms.flatMap enc) (ms.flatMap out) := by
  induction ms with
  | nil => exact fun s hs => ⟨hs, rfl⟩
  | cons m ms ih =>
      simp only [List.flatMap_cons]
      exact (h m (by simp)).append (ih fun m' hm' => h m' (by simp [hm']))

end Transducer
end Lib
end Qutty
