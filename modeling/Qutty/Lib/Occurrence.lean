import Mathlib.Tactic

/-!
# Occurrences of a text

A text occurs in another one up to a function `fold` on the characters.  `firstOccurrence`
and `lastOccurrence` look for it from an index on, to the right and to the left;
`greedy` lists the occurrences that do not overlap, from left to right.

`firstHit` is the search behind a loop that gives up after a number of steps.
-/

namespace Qutty
namespace Lib

section FirstHit

variable {β : Type} {hit : Nat → Option β} {n i j : Nat} {b : β}

/-- The first of the steps `i`, `i + 1`, … with a result, among `n` steps. -/
def firstHit (hit : Nat → Option β) : Nat → Nat → Option (Nat × β)
  | 0, _ => none
  | n + 1, i =>
      match hit i with
      | some b => some (i, b)
      | none => firstHit hit n (i + 1)

theorem firstHit_eq_none_iff :
    firstHit hit n i = none ↔ ∀ k, i ≤ k → k < i + n → hit k = none := by
  induction n generalizing i with
  | zero => exact iff_of_true rfl fun k hk hlt => by omega
  | succ n ih =>
      rw [firstHit]
      cases hi : hit i with
      | some b =>
          refine iff_of_false (by simp) fun hall => ?_
          rw [hall i le_rfl (by omega)] at hi
          cases hi
      | none =>
          rw [ih]
          refine forall_congr' fun k => ?_
          constructor
          · intro hall hk hlt
            by_cases hik : k = i
            · rw [hik, hi]
            · exact hall (by omega) (by omega)
          · exact fun hall hk hlt => hall (by omega) (by omega)

theorem firstHit_eq_some_iff :
    firstHit hit n i = some (j, b) ↔
      i ≤ j ∧ j < i + n ∧ hit j = some b ∧ ∀ k, i ≤ k → k < j → hit k = none := by
  induction n generalizing i with
  | zero => exact iff_of_false (by simp [firstHit]) fun h => by omega
  | succ n ih =>
      rw [firstHit]
      cases hi : hit i with
      | some b' =>
          constructor
          · rintro ⟨⟩
            exact ⟨le_rfl, by omega, hi, fun k hk hlt => by omega⟩
          · rintro ⟨hij, -, hj, hall⟩
            obtain rfl : i = j := by
              by_contra hne
              rw [hall i le_rfl (by omega)] at hi
              cases hi
            rw [hi, Option.some.injEq] at hj
            rw [hj]
      | none =>
          rw [ih]
          constructor
          · rintro ⟨hij, hlt, hj, hall⟩
            refine ⟨by omega, by omega, hj, fun k hk hlt' => ?_⟩
            by_cases hik : k = i
            · rw [hik, hi]
            · exact hall k (by omega) hlt'
          · rintro ⟨hij, hlt, hj, hall⟩
            have hne : i ≠ j := by
              rintro rfl
              rw [hi] at hj
              cases hj
            exact ⟨by omega, by omega, hj, fun k hk hlt' => hall k (by omega) hlt'⟩

end FirstHit

section Occurrence

variable {α β : Type} {fold : α → β} {s t t' : List α} {k j n : Nat}

/-- The text `t` stands in `s` at the index `k`. -/
def OccursAt (fold : α → β) (s t : List α) (k : Nat) : Prop :=
  t.map fold <+: (s.drop k).map fold

theorem OccursAt.le (h : OccursAt fold s t k) (ht : t ≠ []) : k + t.length ≤ s.length := by
  have hlen := h.length_le
  have hpos := List.length_pos_of_ne_nil ht
  rw [List.length_map, List.length_map, List.length_drop] at hlen
  omega

theorem OccursAt.lt (h : OccursAt fold s t k) (ht : t ≠ []) : k < s.length := by
  have hle := h.le ht
  have hpos := List.length_pos_of_ne_nil ht
  omega

/-- Only the folded text matters. -/
theorem occursAt_congr (h : t.map fold = t'.map fold) :
    OccursAt fold s t k ↔ OccursAt fold s t' k := by
  rw [OccursAt, OccursAt, h]

/-- What stands at an occurrence is the text itself. -/
theorem OccursAt.map_take (h : OccursAt fold s t k) :
    ((s.drop k).take t.length).map fold = t.map fold := by
  have heq := List.prefix_iff_eq_take.mp h
  rw [List.length_map] at heq
  rw [List.map_take]
  exact heq.symm

variable [DecidableEq β]

instance (fold : α → β) (s t : List α) (k : Nat) : Decidable (OccursAt fold s t k) :=
  inferInstanceAs (Decidable (t.map fold <+: (s.drop k).map fold))

variable (fold s t) in
/-- The first occurrence at `n` or to the right of it. -/
def firstOccurrence (n : Nat) : Option Nat :=
  (List.range' n (s.length - n)).find? (fun k => OccursAt fold s t k)

variable (fold s t) in
/-- The occurrences from `n` on that do not overlap, each the first one behind the one before;
there are at most as many as the first argument. -/
def greedyFrom : Nat → Nat → List Nat
  | 0, _ => []
  | m + 1, n =>
      match firstOccurrence fold s t n with
      | none => []
      | some k => k :: greedyFrom m (k + t.length)

variable (fold s t) in
/-- The occurrences that do not overlap, from left to right. -/
def greedy : List Nat := greedyFrom fold s t s.length 0

variable (fold s t) in
/-- The last occurrence at `n` or to the left of it. -/
def lastOccurrence : Nat → Option Nat
  | 0 => if OccursAt fold s t 0 then some 0 else none
  | n + 1 => if OccursAt fold s t (n + 1) then some (n + 1) else lastOccurrence n

theorem firstOccurrence_eq_none_iff (ht : t ≠ []) :
    firstOccurrence fold s t n = none ↔ ∀ k, n ≤ k → ¬ OccursAt fold s t k := by
  rw [firstOccurrence, List.find?_eq_none]
  constructor
  · intro hall k hk hocc
    have hlt := hocc.lt ht
    exact hall k (by rw [List.mem_range'_1]; omega) (decide_eq_true hocc)
  · intro hall k hk
    rw [List.mem_range'_1] at hk
    simpa using hall k hk.1

theorem firstOccurrence_eq_some_iff (ht : t ≠ []) :
    firstOccurrence fold s t n = some k ↔
      n ≤ k ∧ OccursAt fold s t k ∧ ∀ j, n ≤ j → j < k → ¬ OccursAt fold s t j := by
  rw [firstOccurrence, List.find?_range'_eq_some]
  simp only [decide_eq_true_eq, List.mem_range'_1, Bool.not_eq_eq_eq_not, Bool.not_true,
    decide_eq_false_iff_not]
  constructor
  · rintro ⟨hocc, hk, hall⟩
    exact ⟨hk.1, hocc, hall⟩
  · rintro ⟨hk, hocc, hall⟩
    have hlt := hocc.lt ht
    exact ⟨hocc, by omega, hall⟩

theorem lastOccurrence_eq_none_iff :
    lastOccurrence fold s t n = none ↔ ∀ k ≤ n, ¬ OccursAt fold s t k := by
  induction n with
  | zero =>
      rw [lastOccurrence]
      split_ifs with hocc
      · exact iff_of_false (by simp) fun hall => hall 0 le_rfl hocc
      · refine iff_of_true rfl fun k hk => ?_
        rwa [Nat.le_zero.mp hk]
  | succ n ih =>
      rw [lastOccurrence]
      split_ifs with hocc
      · exact iff_of_false (by simp) fun hall => hall (n + 1) le_rfl hocc
      · rw [ih]
        refine ⟨fun hall k hk => ?_, fun hall k hk => hall k (by omega)⟩
        by_cases hkn : k = n + 1
        · rwa [hkn]
        · exact hall k (by omega)

theorem lastOccurrence_spec (h : lastOccurrence fold s t n = some k) :
    k ≤ n ∧ OccursAt fold s t k := by
  induction n with
  | zero =>
      rw [lastOccurrence] at h
      split_ifs at h with hocc
      cases h
      exact ⟨le_rfl, hocc⟩
  | succ n ih =>
      rw [lastOccurrence] at h
      split_ifs at h with hocc
      · cases h
        exact ⟨le_rfl, hocc⟩
      · exact ⟨(ih h).1.trans (by omega), (ih h).2⟩

section Greedy

variable {m : Nat}

theorem mem_greedyFrom (ht : t ≠ []) (hk : k ∈ greedyFrom fold s t m n) :
    n ≤ k ∧ OccursAt fold s t k := by
  induction m generalizing n with
  | zero => exact absurd hk List.not_mem_nil
  | succ m ih =>
      rw [greedyFrom] at hk
      cases hfirst : firstOccurrence fold s t n with
      | none =>
          rw [hfirst] at hk
          exact absurd hk List.not_mem_nil
      | some j =>
          rw [hfirst] at hk
          obtain ⟨hnj, hocc, -⟩ := (firstOccurrence_eq_some_iff ht).mp hfirst
          rcases List.mem_cons.mp hk with rfl | hk
          · exact ⟨hnj, hocc⟩
          · have hjk := (ih hk).1
            exact ⟨by omega, (ih hk).2⟩

theorem pairwise_greedyFrom (ht : t ≠ []) :
    (greedyFrom fold s t m n).Pairwise (fun j k => j + t.length ≤ k) := by
  induction m generalizing n with
  | zero => exact .nil
  | succ m ih =>
      rw [greedyFrom]
      cases firstOccurrence fold s t n with
      | none => exact .nil
      | some j => exact .cons (fun k hk => (mem_greedyFrom ht hk).1) ih

/-- Every occurrence begins within one of those listed. -/
theorem exists_mem_greedyFrom (ht : t ≠ []) (hm : s.length ≤ n + m) (hk : OccursAt fold s t k)
    (hnk : n ≤ k) : ∃ g ∈ greedyFrom fold s t m n, g ≤ k ∧ k < g + t.length := by
  induction m generalizing n with
  | zero =>
      have hlt := hk.lt ht
      omega
  | succ m ih =>
      have hpos := List.length_pos_of_ne_nil ht
      rw [greedyFrom]
      cases hfirst : firstOccurrence fold s t n with
      | none => exact absurd hk ((firstOccurrence_eq_none_iff ht).mp hfirst k hnk)
      | some j =>
          obtain ⟨hnj, -, hleast⟩ := (firstOccurrence_eq_some_iff ht).mp hfirst
          have hjk : j ≤ k := not_lt.mp fun hkj => hleast k hnk hkj hk
          by_cases hlt : k < j + t.length
          · exact ⟨j, List.mem_cons_self, hjk, hlt⟩
          · obtain ⟨g, hg, hgk⟩ := ih (by omega : s.length ≤ j + t.length + m) (by omega)
            exact ⟨g, List.mem_cons_of_mem _ hg, hgk⟩

theorem occursAt_of_mem_greedy (ht : t ≠ []) (hk : k ∈ greedy fold s t) :
    OccursAt fold s t k :=
  (mem_greedyFrom ht hk).2

theorem pairwise_greedy (ht : t ≠ []) :
    (greedy fold s t).Pairwise (fun j k => j + t.length ≤ k) :=
  pairwise_greedyFrom ht

theorem exists_mem_greedy (ht : t ≠ []) (hk : OccursAt fold s t k) :
    ∃ g ∈ greedy fold s t, g ≤ k ∧ k < g + t.length :=
  exists_mem_greedyFrom ht (by omega) hk (Nat.zero_le k)

/-- The first occurrence is listed. -/
theorem mem_greedy_of_first (ht : t ≠ []) (hk : OccursAt fold s t k)
    (hfirst : ∀ j, OccursAt fold s t j → k ≤ j) : k ∈ greedy fold s t := by
  obtain ⟨g, hg, hgk, -⟩ := exists_mem_greedy ht hk
  have hkg := hfirst g (occursAt_of_mem_greedy ht hg)
  rwa [le_antisymm hkg hgk]

end Greedy

end Occurrence

end Lib
end Qutty
