import Mathlib.Tactic

/-!
# The cyclic order from a point

From a point `x` a linear order is read up to its end, and then from its beginning up to `x`.
`NextIn S x p` says that `p` is the first element of `S` that is read in this way.
-/

namespace Qutty
namespace Lib

section CyclicOrder

variable {α : Type} [LinearOrder α] {S T : Set α} {x p q r : α}

/-- Read from `x` on, `p` does not come after `q`. -/
def CyclicLE (x p q : α) : Prop := x ≤ p ∧ q < x ∨ (x ≤ p ↔ x ≤ q) ∧ p ≤ q

theorem CyclicLE.trans (hpq : CyclicLE x p q) (hqr : CyclicLE x q r) : CyclicLE x p r := by
  rcases hpq with ⟨hp, hq⟩ | ⟨hiff, hpq⟩
  · rcases hqr with ⟨hq', -⟩ | ⟨hiff', -⟩
    · exact absurd hq (not_lt.mpr hq')
    · exact .inl ⟨hp, not_le.mp fun hr => absurd hq (not_lt.mpr (hiff'.mpr hr))⟩
  · rcases hqr with ⟨hq, hr⟩ | ⟨hiff', hqr⟩
    · exact .inl ⟨hiff.mpr hq, hr⟩
    · exact .inr ⟨hiff.trans hiff', hpq.trans hqr⟩

theorem CyclicLE.antisymm (hpq : CyclicLE x p q) (hqp : CyclicLE x q p) : p = q := by
  rcases hpq with ⟨hp, hq⟩ | ⟨hiff, hpq⟩
  · rcases hqp with ⟨hq', -⟩ | ⟨hiff', -⟩
    · exact absurd hq (not_lt.mpr hq')
    · exact absurd hq (not_lt.mpr (hiff'.mpr hp))
  · rcases hqp with ⟨hq, hp⟩ | ⟨-, hqp⟩
    · exact absurd hp (not_lt.mpr (hiff.mpr hq))
    · exact le_antisymm hpq hqp

/-- The first element of `S` from `x` on. -/
structure NextIn (S : Set α) (x p : α) : Prop where
  mem : p ∈ S
  le : ∀ q ∈ S, CyclicLE x p q

theorem NextIn.unique (hp : NextIn S x p) (hq : NextIn S x q) : p = q :=
  (hp.le q hq.mem).antisymm (hq.le p hp.mem)

/-- It is enough to look at some elements of `S`, if no other one comes before all of them. -/
theorem NextIn.of_subset (h : NextIn T x p) (hsub : T ⊆ S)
    (hbefore : ∀ q ∈ S, ∃ g ∈ T, CyclicLE x g q) : NextIn S x p := by
  refine ⟨hsub h.mem, fun q hq => ?_⟩
  obtain ⟨g, hg, hle⟩ := hbefore q hq
  exact (h.le g hg).trans hle

/-- In a sorted list the next element is the next one of the list. -/
theorem nextIn_getElem {G : List α} (hG : G.Pairwise (· < ·)) {i : Nat} (hi : i < G.length)
    (hlt : G[i] < x) (hge : ∀ j (hj : j < G.length), i < j → x ≤ G[j])
    (hp : G[(i + 1) % G.length]? = some p) : NextIn {g | g ∈ G} x p := by
  have hle : ∀ j k (hj : j < G.length) (hk : k < G.length), j ≤ k → G[j] ≤ G[k] := by
    intro j k hj hk hjk
    rcases hjk.eq_or_lt with rfl | hjk
    · exact le_rfl
    · exact (List.pairwise_iff_getElem.mp hG j k hj hk hjk).le
  refine ⟨List.mem_of_getElem? hp, fun q hq => ?_⟩
  obtain ⟨j, hj, rfl⟩ := List.mem_iff_getElem.mp hq
  obtain ⟨hmod, rfl⟩ := List.getElem?_eq_some_iff.mp hp
  by_cases hlast : i + 1 = G.length
  · -- around the end: all of the list is before `x`
    have hzero : (i + 1) % G.length = 0 := by rw [hlast, Nat.mod_self]
    have hbefore : ∀ k (hk : k < G.length), G[k] < x := by
      intro k hk
      exact (hle k i hk hi (by omega)).trans_lt hlt
    refine .inr ⟨iff_of_false (hbefore _ hmod).not_ge (hbefore j hj).not_ge, ?_⟩
    exact hle _ j hmod hj (by omega)
  · have hnext : (i + 1) % G.length = i + 1 := Nat.mod_eq_of_lt (by omega)
    have hahead : x ≤ G[(i + 1) % G.length] := hge _ hmod (by omega)
    by_cases hij : j ≤ i
    · exact .inl ⟨hahead, (hle j i hj hi hij).trans_lt hlt⟩
    · exact .inr ⟨iff_of_true hahead (hge j hj (by omega)), hle _ j hmod hj (by omega)⟩

end CyclicOrder

end Lib
end Qutty
