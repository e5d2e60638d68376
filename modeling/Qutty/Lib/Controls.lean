import Mathlib.Data.List.Induction

/-!
# Controls that are bound to entries

A form shows a store in its controls, one after the other, and stores the controls one
after the other.  What a control shows stays until the end if no later control disturbs it
(`foldlM_shows`).  Storing a control changes one entry only, in a way that depends on this
entry; if no two controls of an entry change it differently, the entry is the same
afterwards exactly if none of its controls changes it (`foldlM_changes`).
-/

namespace Qutty
namespace Lib
namespace Controls

section Showing

variable {ω σ : Type} {set : σ → ω → Option σ} {inv : σ → Prop} {shows : ω → σ → Prop}

/-- **Every control shows what it was given**, when all have been set. -/
theorem foldlM_shows {ws : List ω}
    (hset : ∀ w ∈ ws, ∀ s, inv s → ∃ s', set s w = some s' ∧ inv s' ∧ shows w s')
    (hkeep : ws.Pairwise (fun w w' => ∀ s s', inv s → set s w' = some s' → shows w s → shows w s'))
    {s : σ} (hs : inv s) :
    ∃ s', ws.foldlM set s = some s' ∧ inv s' ∧ ∀ w ∈ ws, shows w s' := by
  induction ws using List.reverseRecOn with
  | nil => exact ⟨s, rfl, hs, fun w hw => absurd hw List.not_mem_nil⟩
  | append_singleton ws w ih =>
      have hpair := List.pairwise_append.mp hkeep
      obtain ⟨s₁, hfold, hinv, hshows⟩ :=
        ih (fun v hv => hset v (List.mem_append_left _ hv)) hpair.1
      obtain ⟨s₂, hlast, hinv₂, hshow⟩ := hset w (by simp) s₁ hinv
      refine ⟨s₂, ?_, hinv₂, fun v hv => ?_⟩
      · rw [List.foldlM_append, hfold]
        simp [hlast]
      · rcases List.mem_append.mp hv with hv | hv
        · exact hpair.2.2 v hv w (by simp) s₁ s₂ hinv hlast (hshows v hv)
        · obtain rfl := List.mem_singleton.mp hv
          exact hshow

end Showing

section Storing

variable {ω χ κ ν : Type}

/-- One entry of the store changes, in a way that depends on this entry. -/
structure Changes (entry : χ → κ → ν) (key : κ) (change : ν → ν) (c c' : χ) : Prop where
  self : entry c' key = change (entry c key)
  other : ∀ j ≠ key, entry c' j = entry c j

variable {entry : χ → κ → ν} {step : χ → ω → Option χ} {key : ω → κ} {change : ω → ν → ν}

/-- A later control of the same entry agrees with what an earlier one has changed. -/
def Agrees (key : ω → κ) (change : ω → ν → ν) (w w' : ω) : Prop :=
  key w = key w' → ∀ v, change w v = v ∨ change w' (change w v) = change w v

/-- **An entry is the same** after all controls have been stored exactly if none of its
controls changes it. -/
theorem foldlM_changes {ws : List ω}
    (hstep : ∀ w ∈ ws, ∀ c, ∃ c', step c w = some c' ∧ Changes entry (key w) (change w) c c')
    (hagree : ws.Pairwise (Agrees key change)) (c : χ) :
    ∃ c', ws.foldlM step c = some c' ∧ ∀ k, (entry c' k = entry c k ↔
      ∀ w ∈ ws, key w = k → change w (entry c k) = entry c k) := by
  induction ws generalizing c with
  | nil => exact ⟨c, rfl, fun k => by simp⟩
  | cons w ws ih =>
      obtain ⟨hfirst, hrest⟩ := List.pairwise_cons.mp hagree
      obtain ⟨c₁, hw, hchange⟩ := hstep w (by simp) c
      obtain ⟨c', hfold, hsame⟩ := ih (fun v hv => hstep v (by simp [hv])) hrest c₁
      refine ⟨c', by rw [List.foldlM_cons, hw]; exact hfold, fun k => ?_⟩
      have hk := hsame k
      by_cases hkey : key w = k
      · subst hkey
        rw [hchange.self] at hk
        by_cases hfix : change w (entry c (key w)) = entry c (key w)
        · rw [hfix] at hk
          simp [hk, hfix]
        · -- the later controls leave the other value alone
          have hstays : entry c' (key w) = change w (entry c (key w)) := by
            refine hk.mpr fun v hv hvkey => ?_
            rcases hfirst v hv hvkey.symm (entry c (key w)) with hsame | hsame
            · exact absurd hsame hfix
            · exact hsame
          refine ⟨fun heq => absurd (hstays.symm.trans heq) hfix, fun hall => ?_⟩
          exact absurd (hall w (by simp) rfl) hfix
      · rw [hchange.other k (Ne.symm hkey)] at hk
        simp [hk, hkey]

end Storing

end Controls
end Lib
end Qutty
