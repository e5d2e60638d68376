import Mathlib.Tactic

/-!
# Lists kept in order

An element goes to its place in a list, unless one like it is there (`insertBy`).  The order may
be another one at every insertion, as long as the elements compare as they stand.
-/

namespace Qutty
namespace Lib

section Inserting

variable {α β : Type} (cmp : α → α → Ordering) (e : α)

/-- Insertion, and whether the element is new. -/
def insertBy : List α → List α × Bool
  | [] => ([e], true)
  | x :: xs =>
      match cmp e x with
      | .lt => (e :: x :: xs, true)
      | .eq => (x :: xs, false)
      | .gt => (x :: (insertBy xs).1, (insertBy xs).2)

variable {cmp e} {l : List α}

theorem insertBy_old (h : (insertBy cmp e l).2 = false) : (insertBy cmp e l).1 = l := by
  induction l with
  | nil => simp [insertBy] at h
  | cons x xs ih =>
      cases hcmp : cmp e x with
      | lt => simp [insertBy, hcmp] at h
      | eq => simp [insertBy, hcmp]
      | gt =>
          simp only [insertBy, hcmp] at h ⊢
          rw [ih h]

/-- What is not new is there already. -/
theorem insertBy_found (h : (insertBy cmp e l).2 = false) : ∃ x ∈ l, cmp e x = .eq := by
  induction l with
  | nil => simp [insertBy] at h
  | cons x xs ih =>
      cases hcmp : cmp e x with
      | lt => simp [insertBy, hcmp] at h
      | eq => exact ⟨x, List.mem_cons_self, hcmp⟩
      | gt =>
          simp only [insertBy, hcmp] at h
          obtain ⟨y, hy, heq⟩ := ih h
          exact ⟨y, List.mem_cons_of_mem _ hy, heq⟩

theorem insertBy_new (h : (insertBy cmp e l).2 = true) : (insertBy cmp e l).1.Perm (e :: l) := by
  induction l with
  | nil => exact .refl _
  | cons x xs ih =>
      cases hcmp : cmp e x with
      | lt =>
          simp only [insertBy, hcmp]
          exact .refl _
      | eq => simp [insertBy, hcmp] at h
      | gt =>
          simp only [insertBy, hcmp] at h ⊢
          exact ((ih h).cons x).trans (.swap e x xs)

theorem mem_insertBy {x : α} :
    x ∈ (insertBy cmp e l).1 ↔ x ∈ l ∨ ((insertBy cmp e l).2 = true ∧ x = e) := by
  cases hnew : (insertBy cmp e l).2 with
  | false => simp [insertBy_old hnew]
  | true =>
      rw [(insertBy_new hnew).mem_iff, List.mem_cons]
      tauto

variable (cmp e l) in
theorem head_insertBy :
    (insertBy cmp e l).1.head? = some e ∨ (insertBy cmp e l).1.head? = l.head? := by
  cases l with
  | nil => exact .inl rfl
  | cons x xs => cases hcmp : cmp e x <;> simp [insertBy, hcmp]

/-- The list stays in order. -/
theorem pairwise_insertBy {r : α → α → Prop} (htrans : ∀ a b c, r a b → r b c → r a c)
    (hlt : ∀ x ∈ l, cmp e x = .lt → r e x) (hgt : ∀ x ∈ l, cmp e x = .gt → r x e)
    (h : l.Pairwise r) : (insertBy cmp e l).1.Pairwise r := by
  induction l with
  | nil => simp [insertBy]
  | cons x xs ih =>
      obtain ⟨hx, hxs⟩ := List.pairwise_cons.mp h
      cases hcmp : cmp e x with
      | lt =>
          have hex := hlt x List.mem_cons_self hcmp
          simp only [insertBy, hcmp]
          refine List.pairwise_cons.mpr ⟨fun y hy => ?_, h⟩
          rcases List.mem_cons.mp hy with rfl | hy
          · exact hex
          · exact htrans _ _ _ hex (hx y hy)
      | eq =>
          simp only [insertBy, hcmp]
          exact h
      | gt =>
          have hrest := ih (fun y hy => hlt y (List.mem_cons_of_mem _ hy))
            (fun y hy => hgt y (List.mem_cons_of_mem _ hy)) hxs
          simp only [insertBy, hcmp]
          refine List.pairwise_cons.mpr ⟨fun y hy => ?_, hrest⟩
          rcases mem_insertBy.mp hy with hy | ⟨-, rfl⟩
          · exact hx y hy
          · exact hgt x List.mem_cons_self hcmp

/-- Elements that compare in the same way go to the same place. -/
theorem insertBy_map {cmp' : β → β → Ordering} (f : α → β)
    (hcmp : ∀ x ∈ l, cmp' (f e) (f x) = cmp e x) :
    insertBy cmp' (f e) (l.map f) = ((insertBy cmp e l).1.map f, (insertBy cmp e l).2) := by
  induction l with
  | nil => rfl
  | cons x xs ih =>
      have hrest := ih fun y hy => hcmp y (List.mem_cons_of_mem _ hy)
      have hhead := hcmp x List.mem_cons_self
      cases hx : cmp e x with
      | lt => simp [insertBy, hhead, hx]
      | eq => simp [insertBy, hhead, hx]
      | gt => simp [insertBy, hhead, hx, hrest]

end Inserting

end Lib
end Qutty
