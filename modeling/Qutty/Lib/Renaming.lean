import Mathlib.Tactic
import Mathlib.Data.Finset.Card

/-!
# Renaming the keys of a partial map

A rename `(o, n)` takes what a partial map has at `o` to `n`, whatever was there, and
leaves nothing at `o`.  Renames are done one after the other, so that one can
overwrite what another has moved, or take it on to a third key.

`Vacant` and `Apart` say that this does not happen.  Then every value is found at the
new name of its key (`renameAll_newName`), and no two keys have one new name
(`newName_injOn`).  The keys in use follow the same renames (`renameKeys`).
-/

namespace Qutty
namespace Lib

section Keys

variable {κ : Type}

/-- The keys in use after a rename. -/
def renameKey (s : Set κ) (r : κ × κ) : Set κ := insert r.2 (s \ {r.1})

/-- The keys in use after some renames. -/
def renameKeys (s : Set κ) (rs : List (κ × κ)) : Set κ := rs.foldl renameKey s

/-- Every rename finds a value at its old name. -/
def Found : Set κ → List (κ × κ) → Prop
  | _, [] => True
  | s, r :: rs => r.1 ∈ s ∧ Found (renameKey s r) rs

@[simp] theorem renameKeys_nil (s : Set κ) : renameKeys s [] = s := rfl

@[simp] theorem renameKeys_cons (s : Set κ) (r : κ × κ) (rs : List (κ × κ)) :
    renameKeys s (r :: rs) = renameKeys (renameKey s r) rs := rfl

end Keys

section Renaming

variable {κ β : Type} [DecidableEq κ]

/-- What is at the old name goes to the new one. -/
def rename (f : κ → Option β) (r : κ × κ) : κ → Option β :=
  fun k => if k = r.2 then f r.1 else if k = r.1 then none else f k

/-- Renames, one after the other. -/
def renameAll (f : κ → Option β) (rs : List (κ × κ)) : κ → Option β := rs.foldl rename f

/-- The new name of a key. -/
def newName : List (κ × κ) → κ → κ
  | [], k => k
  | r :: rs, k => if k = r.1 then r.2 else newName rs k

/-- Every new name is free when its turn comes, `left` being the names that were given up
before. -/
def Vacant (f : κ → Option β) : List κ → List (κ × κ) → Prop
  | _, [] => True
  | left, r :: rs => (f r.2 = none ∨ r.2 ∈ r.1 :: left) ∧ Vacant f (r.1 :: left) rs

/-- A value that has been renamed is left alone by the renames that follow. -/
def Apart (f : κ → Option β) (rs : List (κ × κ)) : Prop :=
  rs.Pairwise (fun r s => f r.1 ≠ none → s.1 ≠ r.1 ∧ s.1 ≠ r.2 ∧ s.2 ≠ r.2)

@[simp] theorem renameAll_nil (f : κ → Option β) : renameAll f [] = f := rfl

@[simp] theorem renameAll_cons (f : κ → Option β) (r : κ × κ) (rs : List (κ × κ)) :
    renameAll f (r :: rs) = renameAll (rename f r) rs := rfl

theorem rename_of_ne {f : κ → Option β} {r : κ × κ} {k : κ} (ho : k ≠ r.1) (hn : k ≠ r.2) :
    rename f r k = f k := by
  simp [rename, ho, hn]

/-- A key that no rename mentions keeps its value. -/
theorem renameAll_of_notMem {f : κ → Option β} {rs : List (κ × κ)} {k : κ}
    (h : ∀ r ∈ rs, k ≠ r.1 ∧ k ≠ r.2) : renameAll f rs k = f k := by
  induction rs generalizing f with
  | nil => rfl
  | cons r rs ih =>
      obtain ⟨hr, hrs⟩ := List.forall_mem_cons.mp h
      rw [renameAll_cons, ih hrs, rename_of_ne hr.1 hr.2]

theorem newName_of_notMem {rs : List (κ × κ)} {k : κ} (h : k ∉ rs.map Prod.fst) :
    newName rs k = k := by
  induction rs with
  | nil => rfl
  | cons r rs ih =>
      rw [List.map_cons, List.mem_cons, not_or] at h
      rw [newName, if_neg h.1, ih h.2]

/-- A key has a rename or keeps its name. -/
theorem newName_cases (rs : List (κ × κ)) (k : κ) :
    (k, newName rs k) ∈ rs ∨ k ∉ rs.map Prod.fst ∧ newName rs k = k := by
  induction rs with
  | nil => exact .inr ⟨by simp, rfl⟩
  | cons r rs ih =>
      rw [newName]
      split_ifs with hk
      · subst hk
        exact .inl (by simp)
      · rcases ih with hin | ⟨hnot, heq⟩
        · exact .inl (List.mem_cons_of_mem _ hin)
        · exact .inr ⟨by simp [hk, hnot], heq⟩

section Lossless

variable {f : κ → Option β} {left : List κ} {rs : List (κ × κ)} {k : κ}

omit [DecidableEq κ] in
/-- No rename goes to a key in use that is not given up. -/
theorem Vacant.ne_of_mem (h : Vacant f left rs) (hk : f k ≠ none) (hleft : k ∉ left)
    (hold : k ∉ rs.map Prod.fst) : ∀ r ∈ rs, k ≠ r.1 ∧ k ≠ r.2 := by
  induction rs generalizing left with
  | nil => simp
  | cons r rs ih =>
      rw [List.map_cons, List.mem_cons, not_or] at hold
      have hleft' : k ∉ r.1 :: left := by simp [hold.1, hleft]
      refine List.forall_mem_cons.mpr ⟨⟨hold.1, ?_⟩, ih h.2 hleft' hold.2⟩
      rintro rfl
      rcases h.1 with hfree | hgone
      · exact hk hfree
      · exact hleft' hgone

/-- The value of a key with a rename arrives.  The renames before this one have not
touched the key, so `g`, the map when its turn comes, is still `f` there. -/
theorem renameAll_of_mem {g : κ → Option β} {o n : κ} (hvacant : Vacant f left rs)
    (hapart : Apart f rs) (hmem : (o, n) ∈ rs) (ho : f o ≠ none) (hleft : o ∉ left)
    (hg : g o = f o) : renameAll g rs n = f o := by
  induction rs generalizing g left with
  | nil => simp at hmem
  | cons r rs ih =>
      obtain ⟨hhead, htail⟩ := List.pairwise_cons.mp hapart
      rw [renameAll_cons]
      rcases List.mem_cons.mp hmem with rfl | hmem
      · have hrest : ∀ s ∈ rs, n ≠ s.1 ∧ n ≠ s.2 :=
          fun s hs => ⟨(hhead s hs ho).2.1.symm, (hhead s hs ho).2.2.symm⟩
        rw [renameAll_of_notMem hrest]
        simpa [rename] using hg
      · have hold : o ≠ r.1 := by
          rintro rfl
          exact (hhead _ hmem ho).1 rfl
        have hleft' : o ∉ r.1 :: left := by simp [hold, hleft]
        have hnew : o ≠ r.2 := by
          rintro rfl
          rcases hvacant.1 with hfree | hgone
          · exact ho hfree
          · exact hleft' hgone
        exact ih hvacant.2 htail hmem hleft' (by rw [rename_of_ne hold hnew, hg])

/-- **Every value is found under the new name of its key.** -/
theorem renameAll_newName (hvacant : Vacant f [] rs) (hapart : Apart f rs) (hk : f k ≠ none) :
    renameAll f rs (newName rs k) = f k := by
  rcases newName_cases rs k with hmem | ⟨hnot, heq⟩
  · exact renameAll_of_mem hvacant hapart hmem hk (by simp) rfl
  · rw [heq]
    exact renameAll_of_notMem (hvacant.ne_of_mem hk (by simp) hnot)

/-- A key in use has one rename at most. -/
theorem Apart.newName_eq (hapart : Apart f rs) {o n : κ} (hmem : (o, n) ∈ rs) (ho : f o ≠ none) :
    newName rs o = n := by
  induction rs with
  | nil => simp at hmem
  | cons r rs ih =>
      obtain ⟨hhead, htail⟩ := List.pairwise_cons.mp hapart
      rw [newName]
      rcases List.mem_cons.mp hmem with rfl | hmem
      · simp
      · rw [if_neg ?_, ih htail hmem]
        rintro rfl
        exact (hhead _ hmem ho).1 rfl

/-- The first rename does not go where another key goes. -/
theorem newName_ne_head {r : κ × κ} (hvacant : Vacant f left (r :: rs))
    (hapart : Apart f (r :: rs)) (hr : f r.1 ≠ none) (hk : f k ≠ none) (hne : k ≠ r.1)
    (hleft : k ∉ left) : newName rs k ≠ r.2 := by
  intro heq
  obtain ⟨hhead, -⟩ := List.pairwise_cons.mp hapart
  rcases newName_cases rs k with hmem | ⟨-, hself⟩
  · exact (hhead _ hmem hr).2.2 heq
  · obtain rfl : k = r.2 := hself.symm.trans heq
    rcases hvacant.1 with hfree | hgone
    · exact hk hfree
    · rcases List.mem_cons.mp hgone with hsame | hgone
      · exact hne hsame
      · exact hleft hgone

/-- **No two keys in use have one new name.** -/
theorem newName_injOn (hvacant : Vacant f left rs) (hapart : Apart f rs) :
    Set.InjOn (newName rs) { k | f k ≠ none ∧ k ∉ left } := by
  induction rs generalizing left with
  | nil => exact fun j _ k _ h => h
  | cons r rs ih =>
      rintro j ⟨hj, hjl⟩ k ⟨hk, hkl⟩ heq
      rw [newName, newName] at heq
      split_ifs at heq with hjr hkr hkr
      · exact hjr.trans hkr.symm
      · exact absurd heq.symm (newName_ne_head hvacant hapart (hjr ▸ hj) hk hkr hkl)
      · exact absurd heq (newName_ne_head hvacant hapart (hkr ▸ hk) hj hjr hjl)
      · have hrest := ih hvacant.2 (List.pairwise_cons.mp hapart).2
        exact hrest ⟨hj, by simp [hjr, hjl]⟩ ⟨hk, by simp [hkr, hkl]⟩ heq

end Lossless

end Renaming

end Lib
end Qutty
