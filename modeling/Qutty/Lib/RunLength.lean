import Mathlib.Tactic

/-!
# Literals packed by run length

A sequence of literals, each of some bytes, is packed in blocks.  A header below 128 is
followed by one literal more than it says; a header from 128 on is followed by one literal,
which stands for as many as the header says, counted from two (`Packs`).  To read what is packed
it is enough to read the literals one after the other (`Packs.reads`).
-/

namespace Qutty
namespace Lib
namespace RunLength

/-- These bytes are a packing of these literals. -/
inductive Packs : List UInt8 → List (List UInt8) → Prop
  | nil : Packs [] []
  | literals {out : List UInt8} {done pend : List (List UInt8)} (h : Packs out done)
      (hpos : 1 ≤ pend.length) (hmax : pend.length ≤ 128) :
      Packs (out ++ UInt8.ofNat (pend.length - 1) :: pend.flatten) (done ++ pend)
  | run {out lit : List UInt8} {done : List (List UInt8)} {k : Nat} (h : Packs out done)
      (hpos : 2 ≤ k) (hmax : k ≤ 129) :
      Packs (out ++ UInt8.ofNat (k + 0x80 - 2) :: lit) (done ++ List.replicate k lit)

section Reading

variable {σ : Type} (step : σ → List UInt8 → σ → Prop)

/-- The literals are read one after the other. -/
def ReadsAll : σ → List (List UInt8) → σ → Prop
  | s, [], s' => s' = s
  | s, lit :: lits, s' => ∃ s₁, step s lit s₁ ∧ ReadsAll s₁ lits s'

variable {step} {s s' : σ}

theorem readsAll_append {lits lits' : List (List UInt8)} :
    ReadsAll step s (lits ++ lits') s' ↔
      ∃ s₁, ReadsAll step s lits s₁ ∧ ReadsAll step s₁ lits' s' := by
  induction lits generalizing s with
  | nil => simp [ReadsAll]
  | cons lit lits ih =>
      simp only [List.cons_append, ReadsAll, ih]
      constructor
      · rintro ⟨s₁, hlit, s₂, hlits, hrest⟩
        exact ⟨s₂, ⟨s₁, hlit, hlits⟩, hrest⟩
      · rintro ⟨s₂, ⟨s₁, hlit, hlits⟩, hrest⟩
        exact ⟨s₁, hlit, s₂, hlits, hrest⟩

/-- **The rule for a packing**: what holds before the first block, and is carried over a block of
literals and over a run, holds after the last block. -/
theorem Packs.reads {out : List UInt8} {lits : List (List UInt8)} (h : Packs out lits)
    {P : σ → List UInt8 → List (List UInt8) → Prop} (hs : P s [] [])
    (hliterals : ∀ out done pend s₁ s₂, P s₁ out done → 1 ≤ pend.length → pend.length ≤ 128 →
      ReadsAll step s₁ pend s₂ →
      P s₂ (out ++ UInt8.ofNat (pend.length - 1) :: pend.flatten) (done ++ pend))
    (hrun : ∀ out done lit k s₁ s₂, P s₁ out done → 2 ≤ k → k ≤ 129 →
      ReadsAll step s₁ (List.replicate k lit) s₂ →
      P s₂ (out ++ UInt8.ofNat (k + 0x80 - 2) :: lit) (done ++ List.replicate k lit))
    (hall : ReadsAll step s lits s') : P s' out lits := by
  induction h generalizing s' with
  | nil =>
      obtain rfl : s' = s := hall
      exact hs
  | literals h hpos hmax ih =>
      obtain ⟨s₁, hdone, hpend⟩ := readsAll_append.mp hall
      exact hliterals _ _ _ s₁ s' (ih hdone) hpos hmax hpend
  | run h hpos hmax ih =>
      obtain ⟨s₁, hdone, hlits⟩ := readsAll_append.mp hall
      exact hrun _ _ _ _ s₁ s' (ih hdone) hpos hmax hlits

end Reading

end RunLength
end Lib
end Qutty
