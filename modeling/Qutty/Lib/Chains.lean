import Mathlib.Tactic

/-!
# Chains through a pool of nodes

A node may point to another one.  `Links next h l` says that the nodes that are reached from
the head `h` are those of `l`, in order.  Nodes that are not in the list may change
(`Links.congr`), and what the last node of a list points to is put behind it
(`Links.append`).  Where the lists of several heads share a pool, a list is exchanged for
another one (`flatMap_update_perm`).
-/

namespace Qutty
namespace Lib
namespace Chains

variable {ι κ : Type}

section Links

variable (next : ι → Option ι)

/-- The nodes that are reached from a head. -/
def Links : Option ι → List ι → Prop
  | h, [] => h = none
  | h, a :: l => h = some a ∧ Links (next a) l

/-- The nodes after a node, as far as they are looked for. -/
def follow : Nat → ι → List ι
  | 0, _ => []
  | n + 1, a =>
      match next a with
      | none => []
      | some b => b :: follow n b

/-- The last node that is reached from a node, as far as it is looked for. -/
def lastNode : Nat → ι → ι
  | 0, a => a
  | n + 1, a =>
      match next a with
      | none => a
      | some b => lastNode n b

/-- The last node, if there are fewer nodes than the bound. -/
def lastWithin : Nat → ι → Option ι
  | 0, _ => none
  | n + 1, a =>
      match next a with
      | none => some a
      | some b => lastWithin n b

variable {next} {next' : ι → Option ι} {h h' : Option ι} {a : ι} {l m : List ι} {n : Nat}

theorem Links.congr (hl : Links next h l) (hsame : ∀ x ∈ l, next' x = next x) :
    Links next' h l := by
  induction l generalizing h with
  | nil => exact hl
  | cons a l ih =>
      refine ⟨hl.1, ?_⟩
      rw [hsame a (by simp)]
      exact ih hl.2 fun x hx => hsame x (by simp [hx])

/-- A list and what its last node points to. -/
theorem Links.append {z : ι} (hl : Links next h (l ++ [z])) (hsame : ∀ x ∈ l, next' x = next x)
    (hz : next' z = h') (hm : Links next' h' m) : Links next' h (l ++ z :: m) := by
  induction l generalizing h with
  | nil =>
      refine ⟨hl.1, ?_⟩
      rw [hz]
      exact hm
  | cons a l ih =>
      refine ⟨hl.1, ?_⟩
      rw [hsame a (by simp)]
      exact ih hl.2 fun x hx => hsame x (by simp [hx])

theorem Links.unique (hl : Links next h l) (hm : Links next h m) : l = m := by
  induction l generalizing h m with
  | nil =>
      cases m with
      | nil => rfl
      | cons b m => exact absurd (hl.symm.trans hm.1) (by simp)
  | cons a l ih =>
      cases m with
      | nil => exact absurd (hm.symm.trans hl.1) (by simp)
      | cons b m =>
          obtain rfl := Option.some.inj (hl.1.symm.trans hm.1)
          rw [ih hl.2 hm.2]

/-- The nodes are moved. -/
theorem Links.map {σ : ι → ι} (hl : Links next h l) (hmove : ∀ x ∈ l, next' (σ x) = (next x).map σ) :
    Links next' (h.map σ) (l.map σ) := by
  induction l generalizing h with
  | nil =>
      have hnone : h = none := hl
      exact hnone ▸ rfl
  | cons a l ih =>
      obtain ⟨rfl, hrest⟩ := hl
      refine ⟨rfl, ?_⟩
      rw [hmove a (by simp)]
      exact ih hrest fun x hx => hmove x (by simp [hx])

/-- A link out of a list leads into it. -/
theorem Links.next_mem {x y : ι} (hl : Links next h l) (hx : x ∈ l) (hy : next x = some y) :
    y ∈ l := by
  induction l generalizing h with
  | nil => exact absurd hx (by simp)
  | cons a l ih =>
      rcases List.mem_cons.mp hx with rfl | hx
      · cases l with
        | nil => exact absurd (hl.2.symm.trans hy) (by simp)
        | cons b l =>
            obtain rfl := Option.some.inj (hl.2.1.symm.trans hy)
            simp
      · exact List.mem_cons_of_mem _ (ih hl.2 hx)

theorem Links.nil_iff (hl : Links next h l) : l = [] ↔ h = none := by
  cases l with
  | nil => exact iff_of_true rfl hl
  | cons a l => exact iff_of_false (by simp) (by simp [hl.1])

theorem Links.follow (hl : Links next (next a) l) (hn : l.length ≤ n) : follow next n a = l := by
  induction l generalizing a n with
  | nil =>
      have hnone : next a = none := hl
      cases n with
      | zero => rfl
      | succ n => simp only [Chains.follow, hnone]
  | cons b l ih =>
      obtain ⟨hsome, hrest⟩ := hl
      cases n with
      | zero => exact absurd hn (by simp)
      | succ n =>
          simp only [Chains.follow, hsome]
          rw [ih hrest (by simpa using hn)]

theorem Links.lastNode (hl : Links next (next a) l) (hn : l.length ≤ n) :
    lastNode next n a = (a :: l).getLast (by simp) := by
  induction l generalizing a n with
  | nil =>
      have hnone : next a = none := hl
      cases n with
      | zero => rfl
      | succ n => simp only [Chains.lastNode, hnone, List.getLast_singleton]
  | cons b l ih =>
      obtain ⟨hsome, hrest⟩ := hl
      cases n with
      | zero => exact absurd hn (by simp)
      | succ n =>
          simp only [Chains.lastNode, hsome]
          rw [ih hrest (by simpa using hn), List.getLast_cons (List.cons_ne_nil b l)]

theorem Links.lastWithin (hl : Links next (next a) l) :
    lastWithin next n a = if l.length < n then some ((a :: l).getLast (by simp)) else none := by
  induction l generalizing a n with
  | nil =>
      have hnone : next a = none := hl
      cases n with
      | zero => rfl
      | succ n => simp [Chains.lastWithin, hnone]
  | cons b l ih =>
      obtain ⟨hsome, hrest⟩ := hl
      cases n with
      | zero => rfl
      | succ n =>
          simp only [Chains.lastWithin, hsome, ih hrest, List.length_cons, Nat.add_lt_add_iff_right]
          rw [List.getLast_cons (List.cons_ne_nil b l)]

end Links

section Pool

variable [DecidableEq κ]

/-- **One of the lists is exchanged**: the pool gives the new one and gets the old one. -/
theorem flatMap_update_perm {ks : List κ} {k : κ} (hk : k ∈ ks) (hnodup : ks.Nodup)
    (lists : κ → List ι) (l : List ι) :
    (ks.flatMap (Function.update lists k l) ++ lists k).Perm (ks.flatMap lists ++ l) := by
  induction ks with
  | nil => exact absurd hk (by simp)
  | cons j ks ih =>
      rw [List.nodup_cons] at hnodup
      simp only [List.flatMap_cons]
      by_cases hj : j = k
      · subst hj
        have hrest : ks.flatMap (Function.update lists j l) = ks.flatMap lists := by
          refine List.flatMap_congr fun i hi => ?_
          have hne : i ≠ j := by
            rintro rfl
            exact hnodup.1 hi
          exact Function.update_of_ne hne _ _
        rw [hrest, Function.update_self]
        have hmove : (l ++ ks.flatMap lists).Perm (ks.flatMap lists ++ l) := List.perm_append_comm
        have hfirst : (l ++ ks.flatMap lists ++ lists j).Perm (lists j ++ (l ++ ks.flatMap lists)) :=
          List.perm_append_comm
        rw [List.append_assoc (lists j)]
        exact hfirst.trans (hmove.append_left _)
      · have hmem : k ∈ ks := by simpa [Ne.symm hj] using hk
        rw [Function.update_of_ne hj, List.append_assoc, List.append_assoc]
        exact (ih hmem hnodup.2).append_left _

/-- Nodes of the pool go to the end of a list. -/
theorem flatMap_extend_perm {ks : List κ} {k : κ} (hk : k ∈ ks) (hnodup : ks.Nodup)
    (lists : κ → List ι) (l : List ι) :
    (ks.flatMap (Function.update lists k (lists k ++ l))).Perm (ks.flatMap lists ++ l) := by
  have hperm := flatMap_update_perm hk hnodup lists (lists k ++ l)
  have hswap : (ks.flatMap lists ++ (lists k ++ l)).Perm (ks.flatMap lists ++ l ++ lists k) := by
    rw [List.append_assoc]
    exact List.perm_append_comm.append_left _
  exact (List.perm_append_right_iff (lists k)).mp (hperm.trans hswap)

end Pool

end Chains
end Lib
end Qutty
