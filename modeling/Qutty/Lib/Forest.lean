import Mathlib.Tactic
import Mathlib.Logic.Relation

/-!
# Forests with parent and child links

A node type with a list of children for each node and an optional parent.  The
two kinds of links are separate data, as in a heap of objects with pointers both
ways, and agree when the forest is `Linked`.  `link` and `unlink` change both at
once and keep them in agreement.

`Under f r x` says that `x` is reached from `r` along child links.  With a rank
that grows along them, every node hangs under exactly one root
(`exists_root`, `root_unique`), siblings have disjoint subtrees
(`not_under_of_siblings`), and `subtree`, which lists a subtree with a bound on
its depth, lists it completely and without repetition.
-/

namespace Qutty
namespace Lib

universe u

/-- Child links and parent links. -/
@[ext] structure Forest (ν : Type u) where
  children : ν → List ν
  parent : ν → Option ν

namespace Forest

variable {ν : Type u}

/-- The two kinds of links agree. -/
structure Linked (f : Forest ν) : Prop where
  mem_iff : ∀ c p, f.parent c = some p ↔ c ∈ f.children p
  nodup : ∀ p, (f.children p).Nodup

/-- A rank that grows along child links. -/
def Ranked (f : Forest ν) (rank : ν → Nat) : Prop :=
  ∀ p c, c ∈ f.children p → rank p < rank c

/-- `x` is in the subtree of `r`. -/
def Under (f : Forest ν) : ν → ν → Prop :=
  Relation.ReflTransGen (fun p c => c ∈ f.children p)

/-- The nodes of a subtree, down to a given depth. -/
def subtree (f : Forest ν) : Nat → ν → List ν
  | 0, _ => []
  | n + 1, r => r :: (f.children r).flatMap (subtree f n)

theorem Linked.not_mem_of_parent_none {f : Forest ν} (h : f.Linked) {c : ν}
    (hc : f.parent c = none) (q : ν) : c ∉ f.children q := by
  intro hm
  rw [← h.mem_iff, hc] at hm
  cases hm

section Links

variable [DecidableEq ν]

/-- Add `c` as the last child of `p`. -/
def link (f : Forest ν) (p c : ν) : Forest ν :=
  ⟨Function.update f.children p (f.children p ++ [c]), Function.update f.parent c (some p)⟩

/-- Take `c` away from `p`. -/
def unlink (f : Forest ν) (p c : ν) : Forest ν :=
  ⟨Function.update f.children p ((f.children p).erase c), Function.update f.parent c none⟩

variable {f : Forest ν} {p c : ν}

theorem mem_children_link {x q : ν} :
    x ∈ (f.link p c).children q ↔ x ∈ f.children q ∨ q = p ∧ x = c := by
  by_cases hq : q = p
  · subst hq
    simp [link]
  · simp [link, hq]

theorem Linked.mem_children_unlink (h : f.Linked) {x q : ν} :
    x ∈ (f.unlink p c).children q ↔ x ∈ f.children q ∧ ¬ (q = p ∧ x = c) := by
  by_cases hq : q = p
  · subst hq
    simp [unlink, (h.nodup q).mem_erase_iff, and_comm]
  · simp [unlink, hq]

/-- Linking a node without parent. -/
theorem Linked.link (h : f.Linked) (hc : f.parent c = none) : (f.link p c).Linked where
  mem_iff x q := by
    rw [mem_children_link, ← h.mem_iff]
    by_cases hx : x = c
    · subst hx
      simp [Forest.link, hc, eq_comm]
    · simp [Forest.link, hx]
  nodup q := by
    by_cases hq : q = p
    · subst hq
      simp only [Forest.link, Function.update_self]
      refine List.nodup_append.mpr ⟨h.nodup q, List.nodup_singleton c, ?_⟩
      rintro x hx y hy rfl
      rw [List.mem_singleton.mp hy] at hx
      exact h.not_mem_of_parent_none hc q hx
    · simpa [Forest.link, hq] using h.nodup q

/-- Unlinking a child. -/
theorem Linked.unlink (h : f.Linked) (hc : c ∈ f.children p) : (f.unlink p c).Linked where
  mem_iff x q := by
    rw [h.mem_children_unlink, ← h.mem_iff]
    by_cases hx : x = c
    · subst hx
      have hp := (h.mem_iff x p).mpr hc
      simp [Forest.unlink, hp, eq_comm]
    · simp [Forest.unlink, hx]
  nodup q := by
    by_cases hq : q = p
    · subst hq
      simpa [Forest.unlink] using (h.nodup q).erase c
    · simpa [Forest.unlink, hq] using h.nodup q

end Links

section Under

variable {f f' : Forest ν} {rank : ν → Nat}

theorem Under.refl (r : ν) : f.Under r r := Relation.ReflTransGen.refl

theorem Under.head {p c x : ν} (hc : c ∈ f.children p) (h : f.Under c x) : f.Under p x :=
  Relation.ReflTransGen.head hc h

theorem Under.tail {r p c : ν} (h : f.Under r p) (hc : c ∈ f.children p) : f.Under r c :=
  Relation.ReflTransGen.tail h hc

theorem Under.trans {r x y : ν} (h : f.Under r x) (h' : f.Under x y) : f.Under r y :=
  Relation.ReflTransGen.trans h h'

/-- A subtree is its root and the subtrees of the children. -/
theorem under_iff {r x : ν} : f.Under r x ↔ r = x ∨ ∃ c ∈ f.children r, f.Under c x :=
  Relation.ReflTransGen.cases_head_iff

theorem under_leaf {r x : ν} (hr : f.children r = []) : f.Under r x ↔ r = x := by
  rw [under_iff]
  simp [hr]

theorem Ranked.le_of_under (hr : f.Ranked rank) {r x : ν} (h : f.Under r x) :
    rank r ≤ rank x := by
  induction h with
  | refl => exact le_rfl
  | tail _ hc ih => exact le_of_lt (lt_of_le_of_lt ih (hr _ _ hc))

theorem Ranked.not_under_of_child (hr : f.Ranked rank) {p c : ν} (hc : c ∈ f.children p) :
    ¬ f.Under c p := by
  intro h
  exact absurd (hr p c hc) (not_lt.mpr (hr.le_of_under h))

/-- The ancestors of a node form a chain. -/
theorem Linked.under_total (hl : f.Linked) {a b x : ν} (ha : f.Under a x) (hb : f.Under b x) :
    f.Under a b ∨ f.Under b a := by
  induction ha with
  | refl => exact .inr hb
  | tail hap hc ih =>
      rename_i p c
      rcases Relation.ReflTransGen.cases_tail hb with heq | ⟨q, hbq, hc'⟩
      · subst heq
        exact .inl (hap.tail hc)
      · have hpq : some p = some q := by
          rw [← (hl.mem_iff c p).mpr hc, ← (hl.mem_iff c q).mpr hc']
        cases hpq
        exact ih hbq

/-- Above a node without parent there is nothing. -/
theorem Linked.eq_of_under_root (hl : f.Linked) {a r : ν} (hr : f.parent r = none)
    (h : f.Under a r) : a = r := by
  rcases Relation.ReflTransGen.cases_tail h with heq | ⟨p, -, hc⟩
  · exact heq.symm
  · exact absurd hc (hl.not_mem_of_parent_none hr p)

theorem Linked.root_unique (hl : f.Linked) {r r' x : ν} (hr : f.parent r = none)
    (hr' : f.parent r' = none) (h : f.Under r x) (h' : f.Under r' x) : r = r' := by
  rcases hl.under_total h h' with hu | hu
  · exact hl.eq_of_under_root hr' hu
  · exact (hl.eq_of_under_root hr hu).symm

/-- Every node hangs under a root. -/
theorem Linked.exists_root (hl : f.Linked) (hr : f.Ranked rank) (x : ν) :
    ∃ r, f.parent r = none ∧ f.Under r x := by
  induction hn : rank x using Nat.strong_induction_on generalizing x with
  | _ n ih =>
      cases hp : f.parent x with
      | none => exact ⟨x, hp, .refl x⟩
      | some p =>
          have hx := (hl.mem_iff x p).mp hp
          obtain ⟨r, hroot, hu⟩ := ih (rank p) (hn ▸ hr p x hx) p rfl
          exact ⟨r, hroot, hu.tail hx⟩

/-- Siblings have disjoint subtrees. -/
theorem Linked.not_under_of_siblings (hl : f.Linked) (hr : f.Ranked rank) {p c d x : ν}
    (hc : c ∈ f.children p) (hd : d ∈ f.children p) (hne : c ≠ d) (h : f.Under c x) :
    ¬ f.Under d x := by
  intro h'
  -- one of them would be above the other, hence above their parent
  have key : ∀ a b, a ∈ f.children p → b ∈ f.children p → a ≠ b → ¬ f.Under a b := by
    intro a b ha hb hab hu
    rcases Relation.ReflTransGen.cases_tail hu with heq | ⟨q, haq, hbq⟩
    · exact hab heq.symm
    · have hpq : some p = some q := by
        rw [← (hl.mem_iff b p).mpr hb, ← (hl.mem_iff b q).mpr hbq]
      cases hpq
      exact hr.not_under_of_child ha haq
  rcases hl.under_total h h' with hu | hu
  · exact key c d hc hd hne hu
  · exact key d c hd hc hne.symm hu

/-- Every subtree has a leaf. -/
theorem Ranked.exists_leaf (hr : f.Ranked rank) {bound : Nat}
    (hb : ∀ p c, c ∈ f.children p → rank c ≤ bound) (r : ν) :
    ∃ x, f.Under r x ∧ f.children x = [] := by
  induction hn : bound - rank r using Nat.strong_induction_on generalizing r with
  | _ n ih =>
      rcases hc : f.children r with _ | ⟨c, cs⟩
      · exact ⟨r, .refl r, hc⟩
      · have hmem : c ∈ f.children r := by simp [hc]
        have hlt := hr r c hmem
        have hle := hb r c hmem
        obtain ⟨x, hu, hx⟩ := ih (bound - rank c) (by omega) c rfl
        exact ⟨x, hu.head hmem, hx⟩

/-- Subtrees depend only on the links inside them. -/
theorem under_congr {r x : ν} (h : ∀ y, f.Under r y → f'.children y = f.children y) :
    f'.Under r x ↔ f.Under r x := by
  constructor
  · intro hu
    induction hu with
    | refl => exact .refl r
    | tail _ hc ih => exact ih.tail (h _ ih ▸ hc)
  · intro hu
    induction hu with
    | refl => exact .refl r
    | tail hup hc ih => exact ih.tail ((h _ hup).symm ▸ hc)

/-- If every link of `f'` follows links of `f`, subtrees only shrink. -/
theorem Under.of_links (h : ∀ p c, c ∈ f'.children p → f.Under p c) {r x : ν}
    (hu : f'.Under r x) : f.Under r x := by
  induction hu with
  | refl => exact .refl r
  | tail _ hc ih => exact ih.trans (h _ _ hc)

end Under

section Subtree

variable {f f' : Forest ν} {rank : ν → Nat} {n : Nat}

theorem under_of_mem_subtree {r x : ν} (h : x ∈ f.subtree n r) : f.Under r x := by
  induction n generalizing r with
  | zero => simp [subtree] at h
  | succ n ih =>
      simp only [subtree, List.mem_cons, List.mem_flatMap] at h
      rcases h with rfl | ⟨c, hc, hx⟩
      · exact .refl x
      · exact (ih hx).head hc

/-- A subtree is listed completely if the bound on its depth is large enough. -/
theorem Ranked.mem_subtree (hr : f.Ranked rank) {bound : Nat}
    (hb : ∀ p c, c ∈ f.children p → rank c ≤ bound) {r x : ν} (hn : bound < rank r + n)
    (hpos : 0 < n) (h : f.Under r x) : x ∈ f.subtree n r := by
  induction n generalizing r with
  | zero => omega
  | succ n ih =>
      rw [subtree]
      rcases under_iff.mp h with rfl | ⟨c, hc, hu⟩
      · exact List.mem_cons_self
      · have hlt := hr r c hc
        have hle := hb r c hc
        exact List.mem_cons_of_mem _
          (List.mem_flatMap.mpr ⟨c, hc, ih (by omega) (by omega) hu⟩)

/-- The bound on the depth does not matter if it is large enough. -/
theorem Ranked.subtree_eq (hr : f.Ranked rank) {bound m : Nat}
    (hb : ∀ p c, c ∈ f.children p → rank c ≤ bound) {r : ν} (hn : bound < rank r + n)
    (hm : bound < rank r + m) (hn0 : 0 < n) (hm0 : 0 < m) : f.subtree n r = f.subtree m r := by
  induction n generalizing m r with
  | zero => omega
  | succ n ih =>
      obtain ⟨m, rfl⟩ : ∃ k, m = k + 1 := ⟨m - 1, by omega⟩
      simp only [subtree, List.cons.injEq, true_and]
      refine List.flatMap_congr fun c hc => ?_
      have hlt := hr r c hc
      have hle := hb r c hc
      exact ih (by omega) (by omega) (by omega) (by omega)

/-- A subtree is listed without repetition. -/
theorem Linked.nodup_subtree (hl : f.Linked) (hr : f.Ranked rank) (n : Nat) (r : ν) :
    (f.subtree n r).Nodup := by
  induction n generalizing r with
  | zero => exact List.nodup_nil
  | succ n ih =>
      refine List.nodup_cons.mpr ⟨?_, List.nodup_flatMap.mpr ⟨fun c _ => ih c, ?_⟩⟩
      · intro hm
        obtain ⟨c, hc, hx⟩ := List.mem_flatMap.mp hm
        exact hr.not_under_of_child hc (under_of_mem_subtree hx)
      · refine (hl.nodup r).imp_of_mem ?_
        intro c d hc hd hne x hxc hxd
        exact hl.not_under_of_siblings hr hc hd hne (under_of_mem_subtree hxc)
          (under_of_mem_subtree hxd)

theorem subtree_congr {r : ν} (h : ∀ y, f.Under r y → f'.children y = f.children y) :
    f'.subtree n r = f.subtree n r := by
  induction n generalizing r with
  | zero => rfl
  | succ n ih =>
      simp only [subtree, h r (.refl r), List.cons.injEq, true_and]
      refine List.flatMap_congr fun c hc => ih fun y hy => h y (hy.head hc)

end Subtree

end Forest

end Lib
end Qutty
