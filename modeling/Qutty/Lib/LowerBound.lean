import Mathlib.Data.List.Basic
import Mathlib.Order.Basic

/-!
# Binary search

`std::lower_bound` halves an interval in which the elements below a key come first.
`below i` says whether the element at `i` is below the key.  On a sequence where this
changes only once the result is the place of the change (`lowerBound_eq`).
-/

namespace Qutty
namespace Lib

section Search

variable (below : Nat → Bool)

/-- The loop of `std::lower_bound`, for a number of rounds. -/
def lowerBoundFrom : Nat → Nat → Nat → Nat
  | 0, first, _ => first
  | rounds + 1, first, len =>
      if len = 0 then first
      else if below (first + len / 2) then
        lowerBoundFrom rounds (first + len / 2 + 1) (len - len / 2 - 1)
      else lowerBoundFrom rounds first (len / 2)

/-- `std::lower_bound` over `n` elements; every round shortens the interval. -/
def lowerBound (n : Nat) : Nat := lowerBoundFrom below n 0 n

variable {below}

/-- The search stays around the place `k` where the elements stop to be below the key. -/
theorem lowerBoundFrom_eq {k : Nat} (rounds first len : Nat) (hrounds : len ≤ rounds)
    (hfirst : first ≤ k) (hlast : k ≤ first + len) (hbelow : ∀ i < k, below i = true)
    (habove : ∀ i, k ≤ i → i < first + len → below i = false) :
    lowerBoundFrom below rounds first len = k := by
  induction rounds generalizing first len with
  | zero =>
      rw [lowerBoundFrom]
      omega
  | succ rounds ih =>
      rw [lowerBoundFrom]
      by_cases hlen : len = 0
      · rw [if_pos hlen]
        omega
      · rw [if_neg hlen]
        by_cases hmid : first + len / 2 < k
        · rw [if_pos (hbelow _ hmid)]
          exact ih _ _ (by omega) (by omega) (by omega) (fun i hki hi => habove i hki (by omega))
        · have hfalse := habove (first + len / 2) (by omega) (by omega)
          rw [if_neg (by simp [hfalse])]
          exact ih _ _ (by omega) hfirst (by omega) (fun i hki hi => habove i hki (by omega))

/-- **The search finds the first element that is not below the key.** -/
theorem lowerBound_eq {n k : Nat} (hk : k ≤ n) (hbelow : ∀ i < k, below i = true)
    (habove : ∀ i, k ≤ i → i < n → below i = false) : lowerBound below n = k :=
  lowerBoundFrom_eq n 0 n (Nat.le_refl n) (Nat.zero_le k) (by omega) hbelow
    (fun i hki hi => habove i hki (by omega))

end Search

end Lib
end Qutty
