import Mathlib.Tactic

/-!
# Replacing one element of a list

`subst x ys` puts a list in the place of an element; `l.flatMap (subst x ys)` does so
throughout a list.  In a list without duplicates this is what `erase` and `insertIdx` do
at the index of the element.
-/

namespace Qutty
namespace Lib

variable {α : Type}

theorem insertIdx_length_append (pre post : List α) (y : α) :
    (pre ++ post).insertIdx pre.length y = pre ++ y :: post := by
  induction pre with
  | nil => rfl
  | cons c pre ih => simp [ih]

variable [DecidableEq α] {l : List α} {x y : α} {ys : List α}

/-- `ys` in the place of `x`. -/
def subst (x : α) (ys : List α) (c : α) : List α := if c = x then ys else [c]

@[simp] theorem subst_self : subst x ys x = ys := if_pos rfl

theorem subst_of_ne {c : α} (hc : c ≠ x) : subst x ys c = [c] := if_neg hc

theorem flatMap_subst_of_not_mem (hx : x ∉ l) : l.flatMap (subst x ys) = l := by
  induction l with
  | nil => rfl
  | cons c l ih =>
      have hc : c ≠ x := by
        rintro rfl
        exact hx List.mem_cons_self
      rw [List.flatMap_cons, subst_of_ne hc, ih fun hm => hx (List.mem_cons_of_mem c hm)]
      rfl

theorem flatMap_subst_nil (x : α) (l : List α) :
    l.flatMap (subst x []) = l.filter (fun c => c ≠ x) := by
  induction l with
  | nil => rfl
  | cons c l ih =>
      rw [List.flatMap_cons, List.filter_cons, ih]
      by_cases hc : c = x
      · simp [hc]
      · simp [subst_of_ne hc, hc]

/-- An element splits a list without duplicates. -/
theorem exists_split (hl : l.Nodup) (hx : x ∈ l) :
    ∃ pre post, l = pre ++ x :: post ∧ x ∉ pre ∧ x ∉ post ∧ l.idxOf x = pre.length := by
  obtain ⟨pre, post, rfl⟩ := List.append_of_mem hx
  have hpre : x ∉ pre := fun hm => List.disjoint_of_nodup_append hl hm List.mem_cons_self
  have hpost : x ∉ post := (List.nodup_cons.mp hl.of_append_right).1
  refine ⟨pre, post, rfl, hpre, hpost, ?_⟩
  rw [List.idxOf_append_of_notMem hpre, List.idxOf_cons_self, Nat.add_zero]

theorem flatMap_subst_append {pre post : List α} (hpre : x ∉ pre) (hpost : x ∉ post) :
    (pre ++ x :: post).flatMap (subst x ys) = pre ++ ys ++ post := by
  rw [List.flatMap_append, List.flatMap_cons, subst_self, flatMap_subst_of_not_mem hpre,
    flatMap_subst_of_not_mem hpost, List.append_assoc]

theorem flatMap_subst_erase (hl : l.Nodup) : l.flatMap (subst x []) = l.erase x := by
  rw [flatMap_subst_nil, hl.erase_eq_filter]
  exact List.filter_congr fun c _ => by by_cases hc : c = x <;> simp [hc]

theorem flatMap_subst_before (hl : l.Nodup) (hx : x ∈ l) :
    l.flatMap (subst x [y, x]) = l.insertIdx (l.idxOf x) y := by
  obtain ⟨pre, post, rfl, hpre, hpost, hidx⟩ := exists_split hl hx
  rw [flatMap_subst_append hpre hpost, hidx, insertIdx_length_append, List.append_assoc]
  rfl

theorem flatMap_subst_after (hl : l.Nodup) (hx : x ∈ l) :
    l.flatMap (subst x [x, y]) = l.insertIdx (l.idxOf x + 1) y := by
  obtain ⟨pre, post, rfl, hpre, hpost, hidx⟩ := exists_split hl hx
  have hins := insertIdx_length_append (pre ++ [x]) post y
  rw [List.length_append, List.length_singleton, List.append_assoc, List.singleton_append] at hins
  rw [flatMap_subst_append hpre hpost, hidx, hins]
  simp

theorem flatMap_subst_singleton (hl : l.Nodup) (hx : x ∈ l) (hy : y ≠ x) :
    l.flatMap (subst x [y]) = (l.insertIdx (l.idxOf x) y).erase x := by
  obtain ⟨pre, post, rfl, hpre, hpost, hidx⟩ := exists_split hl hx
  rw [flatMap_subst_append hpre hpost, hidx, insertIdx_length_append,
    List.erase_append_right _ hpre, List.erase_cons_tail (by simpa using hy),
    List.erase_cons_head, List.append_assoc]
  rfl

/-- One element of a list has all the images. -/
theorem flatMap_eq_of_unique {β : Type} {f : α → List β} (hl : l.Nodup) (hx : x ∈ l)
    (hf : ∀ c ∈ l, c ≠ x → f c = []) : l.flatMap f = f x := by
  obtain ⟨pre, post, rfl, hpre, hpost, -⟩ := exists_split hl hx
  have hnil : ∀ l' : List α, (∀ c ∈ l', c ∈ pre ++ x :: post ∧ c ≠ x) → l'.flatMap f = [] := by
    intro l' hl'
    refine List.flatMap_eq_nil_iff.mpr fun c hc => ?_
    exact hf c (hl' c hc).1 (hl' c hc).2
  have hpre' : pre.flatMap f = [] := by
    refine hnil pre fun c hc => ⟨by simp [hc], ?_⟩
    rintro rfl
    exact hpre hc
  have hpost' : post.flatMap f = [] := by
    refine hnil post fun c hc => ⟨by simp [hc], ?_⟩
    rintro rfl
    exact hpost hc
  rw [List.flatMap_append, List.flatMap_cons, hpre', hpost', List.nil_append, List.append_nil]

end Lib
end Qutty
