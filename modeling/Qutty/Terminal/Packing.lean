import Qutty.Terminal.Scrollback

/-!
# The packing of literals

`makerle` writes a packing of the literals that it is given, whatever they are, and its
assertions hold (`makerle_packs`).  It never writes more than the literals themselves, a byte for
each 128 of them and one byte more.
-/

namespace Qutty
namespace Terminal

open Lib Lib.RunLength

section Buffers

variable (a m c : List UInt8) (x y : UInt8)

theorem slice_middle : slice (a ++ m ++ c) a.length m.length = m := by
  simp [slice]

theorem slice_end : slice (a ++ m) a.length m.length = m := by
  simp [slice]

theorem set_middle : (a ++ x :: c).set a.length y = a ++ y :: c := by
  simp

/-- A literal makes room for the header of its run. -/
theorem moveBytes_take {l : List UInt8} (hl : l ≠ []) :
    ∃ x, (moveBytes (a ++ l ++ c) (a.length + 1) a.length l.length).take (a.length + l.length + 1) =
      a ++ x :: l := by
  cases l with
  | nil => exact absurd rfl hl
  | cons x l =>
      refine ⟨x, ?_⟩
      have htake : (a ++ x :: l ++ c).take (a.length + 1) = a ++ [x] := by
        have hassoc : a ++ x :: l ++ c = a ++ [x] ++ (l ++ c) := by simp
        rw [hassoc]
        exact List.take_left' (by simp)
      have hslice : slice (a ++ x :: l ++ c) a.length (x :: l).length = x :: l :=
        slice_middle a (x :: l) c
      rw [moveBytes, htake, hslice]
      have hlength : (a ++ [x] ++ x :: l).length = a.length + (x :: l).length + 1 := by simp; omega
      rw [← hlength, List.take_left']
      · simp
      · rfl

end Buffers

section Literals

variable {α : Type} (makeliteral : α → UInt32 → List UInt8 × UInt32)

/-- The literals for some cells, one after the other. -/
def literals : List α → UInt32 → List (List UInt8)
  | [], _ => []
  | c :: cs, state => (makeliteral c state).1 :: literals cs (makeliteral c state).2

theorem literals_length (cs : List α) (state : UInt32) :
    (literals makeliteral cs state).length = cs.length := by
  induction cs generalizing state with
  | nil => rfl
  | cons c cs ih => simp [literals, ih]

theorem extendRun_length (b : List UInt8) (runpos thislen : Nat) (cs : List α) (state : UInt32)
    (runlen : Nat) : (extendRun makeliteral b runpos thislen cs state runlen).1.length ≤ cs.length := by
  induction cs generalizing state runlen with
  | nil => exact le_rfl
  | cons c cs ih =>
      simp only [extendRun]
      split_ifs
      · exact (ih _ _).trans (Nat.le_succ _)
      · exact le_rfl
      · exact le_rfl

/-- The literals that a run takes. -/
theorem extendRun_literals (b l : List UInt8) (runpos : Nat)
    (hslice : slice b (runpos + 1) l.length = l) (cs : List α) (state : UInt32) (runlen : Nat)
    (hrunlen : runlen ≤ 129) :
    ∃ k, (extendRun makeliteral b runpos l.length cs state runlen).2.2 = runlen + k ∧
      runlen + k ≤ 129 ∧
      literals makeliteral cs state = List.replicate k l ++
        literals makeliteral (extendRun makeliteral b runpos l.length cs state runlen).1
          (extendRun makeliteral b runpos l.length cs state runlen).2.1 := by
  induction cs generalizing state runlen with
  | nil => exact ⟨0, rfl, hrunlen, rfl⟩
  | cons c cs ih =>
      simp only [extendRun]
      split_ifs with hroom hsame
      · obtain ⟨k, hk, hle, hlits⟩ := ih (makeliteral c state).2 (runlen + 1) hroom
        have hlit : (makeliteral c state).1 = l := by
          rw [← hslice, ← hsame.1]
          exact hsame.2.symm
        refine ⟨k + 1, by rw [hk]; omega, by omega, ?_⟩
        rw [literals, hlits, hlit, List.replicate_succ, List.cons_append]
      · exact ⟨0, rfl, hrunlen, rfl⟩
      · exact ⟨0, rfl, hrunlen, rfl⟩

end Literals

section Loop

/-- What `makerle` has written: `out` packs what is done, and after a header come the literals
that wait for it; the last of them is known, and whether it is the same as the one before. -/
structure Waiting (start out : List UInt8) (done pend : List (List UInt8)) (s : Rle) : Prop where
  b : s.b = start ++ out ++ 0 :: pend.flatten
  hdrpos : s.hdrpos = (start ++ out).length
  hdrsize : s.hdrsize = pend.length
  room : pend.length < 128
  packs : Packs out done
  size : out.length ≤ done.flatten.length + done.length / 128
  last : (pend = [] ∧ s.prevlen = 0 ∧ s.prev2 = false) ∨
    ∃ p l, pend = p ++ [l] ∧ s.prevlen = l.length ∧
      s.prevpos = (start ++ out ++ 0 :: p.flatten).length ∧
      (s.prev2 = true → l.length = 1 ∧ ∃ q, p = q ++ [l])

variable {start out : List UInt8} {done pend : List (List UInt8)} {s : Rle} {l : List UInt8}

/-- A literal that is not part of a run waits for the header too. -/
theorem waiting_count (hb : s.b = start ++ out ++ 0 :: (pend ++ [l]).flatten)
    (hhdrpos : s.hdrpos = (start ++ out).length) (hhdrsize : s.hdrsize = pend.length)
    (hroom : pend.length < 128) (hpacks : Packs out done)
    (hsize : out.length ≤ done.flatten.length + done.length / 128)
    (hprevlen : s.prevlen = l.length)
    (hprevpos : s.prevpos = (start ++ out ++ 0 :: pend.flatten).length)
    (hprev2 : s.prev2 = true → l.length = 1 ∧ ∃ q, pend = q ++ [l]) :
    ∃ out' done' pend', Waiting start out' done' pend' s.count ∧
      done' ++ pend' = done ++ (pend ++ [l]) ∧ s.count.state = s.state := by
  by_cases hfull : s.hdrsize + 1 = 128
  · have hlength : (pend ++ [l]).length = 128 := by
      rw [List.length_append, List.length_singleton, ← hhdrsize, hfull]
    refine ⟨out ++ UInt8.ofNat ((pend ++ [l]).length - 1) :: (pend ++ [l]).flatten,
      done ++ (pend ++ [l]), [], ⟨?_, ?_, ?_, by simp, ?_, ?_, .inl ⟨rfl, ?_, ?_⟩⟩, by simp, ?_⟩
    · simp only [Rle.count, hfull, ↓reduceIte, hlength, hb, hhdrpos, set_middle]
      simp
    · simp only [Rle.count, hfull, ↓reduceIte, hb]
      simp
    · simp only [Rle.count, hfull, ↓reduceIte]
      rfl
    · exact hpacks.literals (by omega) (by omega)
    · simp only [List.length_append, List.length_cons, List.flatten_append] at hlength ⊢
      omega
    · simp only [Rle.count, hfull, ↓reduceIte]
    · simp only [Rle.count, hfull, ↓reduceIte]
    · simp only [Rle.count, hfull, ↓reduceIte]
  · have hcount : s.count = { s with hdrsize := s.hdrsize + 1 } := by
      simp only [Rle.count, hfull, ↓reduceIte]
    rw [hcount]
    refine ⟨out, done, pend ++ [l], ⟨hb, hhdrpos, ?_, ?_, hpacks, hsize,
      .inr ⟨pend, l, rfl, hprevlen, hprevpos, hprev2⟩⟩, rfl, rfl⟩
    · simp [hhdrsize]
    · rw [List.length_append, List.length_singleton]
      omega

/-- The header of the literals before a run. -/
theorem packs_before (hpacks : Packs out done) (q : List (List UInt8)) (hq : q.length < 128) :
    Packs (if q = [] then out else out ++ UInt8.ofNat (q.length - 1) :: q.flatten) (done ++ q) ∧
      (if q = [] then out else out ++ UInt8.ofNat (q.length - 1) :: q.flatten).length ≤
        out.length + q.flatten.length + 1 := by
  split_ifs with hnil
  · subst hnil
    rw [List.append_nil]
    exact ⟨hpacks, by simp⟩
  · have hpos := List.length_pos_iff.mpr hnil
    refine ⟨hpacks.literals (by omega) (by omega), ?_⟩
    simp only [List.length_append, List.length_cons]
    omega

/-- **A run begins**: its literals are taken from those that wait. -/
theorem startRun_eq (start out : List UInt8) (q : List (List UInt8)) (n : Nat) (hl : l ≠ [])
    (hn : (s.prev2 = false ∧ n = 2) ∨ (s.prev2 = true ∧ n = 3))
    (hb : s.b = start ++ out ++ 0 :: (q ++ List.replicate n l).flatten)
    (hhdrpos : s.hdrpos = (start ++ out).length) (hhdrsize : s.hdrsize = q.length + (n - 1))
    (hroom : q.length < 128) (hprevlen : s.prevlen = l.length)
    (hprevpos : s.prevpos = (start ++ out ++ 0 :: (q ++ List.replicate (n - 2) l).flatten).length) :
    ∃ x, s.startRun = some
      (start ++ (if q = [] then out else out ++ UInt8.ofNat (q.length - 1) :: q.flatten) ++ x :: l,
        (start ++ (if q = [] then out else out ++ UInt8.ofNat (q.length - 1) :: q.flatten)).length) := by
  have hfew : ¬(s.prev2 = true ∧ s.hdrsize ≤ 1) := by
    rcases hn with ⟨hprev2, rfl⟩ | ⟨hprev2, rfl⟩
    · simp [hprev2]
    · omega
  have hcount : (if s.prev2 then s.hdrsize - 2 else s.hdrsize - 1) = q.length := by
    rcases hn with ⟨hprev2, rfl⟩ | ⟨hprev2, rfl⟩
    · simp only [hprev2, Bool.false_eq_true, ↓reduceIte]
      omega
    · simp only [hprev2, ↓reduceIte]
      omega
  have hfirst : (if s.prev2 then s.prevpos - s.prevlen else s.prevpos) =
      (start ++ out ++ 0 :: q.flatten).length := by
    rcases hn with ⟨hprev2, rfl⟩ | ⟨hprev2, rfl⟩
    · simp only [hprev2, Bool.false_eq_true, ↓reduceIte, hprevpos]
      simp
    · simp only [hprev2, ↓reduceIte, hprevpos, hprevlen]
      simp
      omega
  have hbuffer : ∃ rest, s.b = start ++ out ++ 0 :: q.flatten ++ l ++ rest := by
    rcases hn with ⟨-, rfl⟩ | ⟨-, rfl⟩
    · exact ⟨l, by simp [hb]⟩
    · exact ⟨l ++ l, by simp [hb, List.replicate_succ]⟩
  obtain ⟨rest, hrest⟩ := hbuffer
  by_cases hq : q = []
  · subst hq
    refine ⟨0, ?_⟩
    have hnext : (start ++ out ++ 0 :: ([] : List (List UInt8)).flatten).length = s.hdrpos + 1 := by
      rw [hhdrpos]
      simp
      omega
    have htake : s.b.take (s.hdrpos + 1 + s.prevlen) = start ++ out ++ 0 :: l := by
      have hassoc : start ++ out ++ 0 :: ([] : List (List UInt8)).flatten ++ l ++ rest =
          start ++ out ++ 0 :: l ++ rest := by simp
      rw [hrest, hassoc, ← hnext, hprevlen]
      exact List.take_left' (by simp; omega)
    simp only [Rle.startRun, if_neg hfew, hcount, hfirst, List.length_nil, ↓reduceIte, hnext, htake]
    rw [hhdrpos]
  · obtain ⟨x, hmoved⟩ := moveBytes_take (start ++ out ++ 0 :: q.flatten) rest hl
    have hpos : q.length ≠ 0 := by simpa using hq
    refine ⟨x, ?_⟩
    rw [← hrest, ← hprevlen] at hmoved
    simp only [Rle.startRun, if_neg hfew, hcount, hfirst, hpos, ↓reduceIte, hmoved, hq,
      show q.length ≤ 128 by omega, hhdrpos]
    have hset : (start ++ out ++ 0 :: q.flatten ++ x :: l).set (start ++ out).length
        (UInt8.ofNat (q.length - 1)) =
        start ++ (out ++ UInt8.ofNat (q.length - 1) :: q.flatten) ++ x :: l := by
      have hassoc : start ++ out ++ 0 :: q.flatten ++ x :: l =
          start ++ out ++ 0 :: (q.flatten ++ x :: l) := by simp
      rw [hassoc, set_middle]
      simp
    rw [hset]
    simp

/-- The literal before, while it waits, is found where `makerle` looks for it. -/
theorem Waiting.same_literal (h : Waiting start out done pend s) {lit : List UInt8}
    (hlit : lit ≠ []) (hlength : lit.length = s.prevlen)
    (hsame : slice (s.b ++ lit) s.prevpos lit.length = slice (s.b ++ lit) s.b.length lit.length) :
    ∃ p, pend = p ++ [lit] ∧ s.prevpos = (start ++ out ++ 0 :: p.flatten).length ∧
      (s.prev2 = true → lit.length = 1 ∧ ∃ q, p = q ++ [lit]) := by
  rcases h.last with ⟨-, hprevlen, -⟩ | ⟨p, l, hpend, hprevlen, hprevpos, hprev2⟩
  · rw [hprevlen] at hlength
    exact absurd (List.length_eq_zero_iff.mp hlength) hlit
  · have hbuffer : s.b ++ lit = start ++ out ++ 0 :: p.flatten ++ l ++ lit := by
      rw [h.b, hpend]
      simp
    have hslice : slice (s.b ++ lit) s.prevpos lit.length = l := by
      rw [hbuffer, hprevpos, hlength, hprevlen]
      exact slice_middle _ l lit
    obtain rfl : l = lit := by
      rw [← hslice, hsame]
      exact slice_end s.b lit
    exact ⟨p, hpend, hprevpos, hprev2⟩

/-- A run takes less room than its literals. -/
theorem run_saves {k n len : Nat} (hk : n ≤ k) (hlen : 0 < len)
    (h : (1 < len ∧ 2 ≤ n) ∨ 3 ≤ n) : len + 2 ≤ k * len := by
  rcases h with ⟨hmore, hn⟩ | hn
  · have htwice : 2 * len ≤ k * len := Nat.mul_le_mul_right len (hn.trans hk)
    omega
  · have hthrice : 3 * len ≤ k * len := Nat.mul_le_mul_right len (hn.trans hk)
    omega

/-- What is written when a run begins, and what is written when it ends. -/
theorem Waiting.run (h : Waiting start out done pend s) {lit : List UInt8} (hlit : lit ≠ [])
    (hlength : lit.length = s.prevlen)
    (hsame : slice (s.b ++ lit) s.prevpos lit.length = slice (s.b ++ lit) s.b.length lit.length)
    (hrun : 1 < lit.length ∨ s.prev2 = true) (state : UInt32) {k : Nat}
    (hk : (if s.prev2 = true then 3 else 2) = k) :
    ∃ q mid x, pend ++ [lit] = q ++ List.replicate k lit ∧
      Rle.startRun { s with b := s.b ++ lit, state := state } =
        some (start ++ mid ++ x :: lit, (start ++ mid).length) ∧
      ∀ more, k + more ≤ 129 → ∀ state',
        Waiting start (mid ++ UInt8.ofNat (k + more + 0x80 - 2) :: lit)
          (done ++ q ++ List.replicate (k + more) lit) []
          { b := start ++ mid ++ UInt8.ofNat (k + more + 0x80 - 2) :: lit ++ [0]
            hdrpos := (start ++ mid ++ x :: lit).length
            hdrsize := 0
            prevlen := 0
            prevpos := 0
            prev2 := false
            state := state' } := by
  obtain ⟨p, hpend, hprevpos, hprev2⟩ := h.same_literal hlit hlength hsame
  have hcases : (s.prev2 = false ∧ k = 2) ∨ (s.prev2 = true ∧ k = 3) := by
    cases htwo : s.prev2 <;> simp [htwo] at hk <;> simp [← hk]
  have hsplit : ∃ q, pend = q ++ List.replicate (k - 1) lit ∧
      p = q ++ List.replicate (k - 2) lit := by
    rcases hcases with ⟨-, rfl⟩ | ⟨htwo, rfl⟩
    · exact ⟨p, by simp [hpend], by simp⟩
    · obtain ⟨-, q, rfl⟩ := hprev2 htwo
      exact ⟨q, by simp [hpend, List.replicate_succ], by simp⟩
  obtain ⟨q, hq, hpq⟩ := hsplit
  have hkone : k - 1 + 1 = k := by omega
  have hall : pend ++ [lit] = q ++ List.replicate k lit := by
    rw [hq, List.append_assoc, ← List.replicate_succ', hkone]
  have hqlength : pend.length = q.length + (k - 1) := by simp [hq]
  have hroom := h.room
  have hbuffer : s.b ++ lit = start ++ out ++ 0 :: (q ++ List.replicate k lit).flatten := by
    rw [← hall, h.b]
    simp
  obtain ⟨x, hstart⟩ := startRun_eq start out q k
    (s := { s with b := s.b ++ lit, state := state }) hlit hcases hbuffer h.hdrpos
    (by rw [← hqlength]; exact h.hdrsize) (by omega) hlength.symm (by rw [hprevpos, hpq])
  obtain ⟨hpacks, hmid⟩ := packs_before h.packs q (by omega)
  generalize (if q = [] then out else out ++ UInt8.ofNat (q.length - 1) :: q.flatten) = mid
    at hstart hpacks hmid
  refine ⟨q, mid, x, hall, hstart, fun more hmax state' =>
    ⟨by simp, by simp, rfl, by simp, hpacks.run (by omega) hmax, ?_, .inl ⟨rfl, rfl, rfl⟩⟩⟩
  have hsaves : lit.length + 2 ≤ (k + more) * lit.length := by
    refine run_saves (Nat.le_add_right k more) (List.length_pos_iff.mpr hlit) ?_
    rcases hcases with ⟨hprev, rfl⟩ | ⟨-, rfl⟩
    · exact .inl ⟨by simpa [hprev] using hrun, le_rfl⟩
    · exact .inr le_rfl
  have hsize := h.size
  have hlengths : (List.replicate (k + more) lit).flatten.length = (k + more) * lit.length := by
    simp
  simp only [List.length_append, List.length_cons, List.flatten_append, List.length_replicate,
    hlengths]
  omega

end Loop

section Whole

variable {α : Type} {makeliteral : α → UInt32 → List UInt8 × UInt32}

/-- **A round of the loop**: it goes through, and a cell at least is done or waits. -/
theorem Waiting.round (hliteral : ∀ c state, (makeliteral c state).1 ≠ []) {start out : List UInt8}
    {done pend : List (List UInt8)} {s : Rle} (h : Waiting start out done pend s) (c : α)
    (cs : List α) :
    ∃ cs' s' out' done' pend', makerleRound makeliteral c cs s = some (cs', s') ∧
      cs'.length ≤ cs.length ∧ Waiting start out' done' pend' s' ∧
      done' ++ pend' ++ literals makeliteral cs' s'.state =
        done ++ pend ++ literals makeliteral (c :: cs) s.state := by
  obtain ⟨lit, state, hmade⟩ : ∃ lit state, makeliteral c s.state = (lit, state) := ⟨_, _, rfl⟩
  have hlit : lit ≠ [] := by
    have hnonempty := hliteral c s.state
    rwa [hmade] at hnonempty
  have hbuffer : s.b ++ lit = start ++ out ++ 0 :: (pend ++ [lit]).flatten := by
    rw [h.b]
    simp
  have hone := List.length_pos_iff.mpr hlit
  -- a literal that is not part of a run waits with the others
  have hwaits : ∀ prev2 : Bool, (prev2 = true → lit.length = 1 ∧ ∃ q, pend = q ++ [lit]) →
      ∃ out' done' pend', Waiting start out' done' pend' (Rle.count { s with
          b := s.b ++ lit, state := state, prev2 := prev2, prevlen := lit.length
          prevpos := s.b.length }) ∧
        done' ++ pend' ++ literals makeliteral cs (Rle.count { s with
          b := s.b ++ lit, state := state, prev2 := prev2, prevlen := lit.length
          prevpos := s.b.length }).state =
          done ++ pend ++ lit :: literals makeliteral cs state := by
    intro prev2 hprev2
    obtain ⟨out', done', pend', hwaiting, hall, hstate⟩ := waiting_count (l := lit)
      (s := { s with
        b := s.b ++ lit, state := state, prev2 := prev2, prevlen := lit.length
        prevpos := s.b.length })
      hbuffer h.hdrpos h.hdrsize h.room h.packs h.size rfl (by rw [← h.b]) hprev2
    refine ⟨out', done', pend', hwaiting, ?_⟩
    rw [hstate, hall]
    simp
  simp only [makerleRound, literals, hmade]
  by_cases hsame : lit.length = s.prevlen ∧
      slice (s.b ++ lit) s.prevpos lit.length = slice (s.b ++ lit) s.b.length lit.length
  · rw [if_pos hsame]
    have hbegins : (lit.length > 1 || s.prev2) = true ↔ lit.length > 1 ∨ s.prev2 = true := by simp
    by_cases hrun : lit.length > 1 ∨ s.prev2 = true
    · obtain ⟨k, hk⟩ : ∃ k, (if s.prev2 = true then 3 else 2) = k := ⟨_, rfl⟩
      obtain ⟨q, mid, x, hpend, hstart, hnext⟩ := h.run hlit hsame.1 hsame.2 hrun state hk
      have hslice : slice (start ++ mid ++ x :: lit) ((start ++ mid).length + 1) lit.length =
          lit := by
        have hassoc : start ++ mid ++ x :: lit = start ++ mid ++ [x] ++ lit := by simp
        have hlength : (start ++ mid).length + 1 = (start ++ mid ++ [x]).length := by
          rw [List.length_append, List.length_append, List.length_append, List.length_singleton]
        rw [hassoc, hlength]
        exact slice_end _ lit
      have hkmax : k ≤ 129 := by
        rw [← hk]
        split <;> omega
      obtain ⟨more, hmore, hmax, hlits⟩ := extendRun_literals makeliteral
        (start ++ mid ++ x :: lit) lit (start ++ mid).length hslice cs state k hkmax
      have hrest := extendRun_length makeliteral (start ++ mid ++ x :: lit)
        (start ++ mid).length lit.length cs state k
      rw [if_pos (hbegins.mpr hrun)]
      simp only [hstart, hk, Option.bind_some]
      generalize extendRun makeliteral (start ++ mid ++ x :: lit) (start ++ mid).length
        lit.length cs state k = run at hmore hlits hrest ⊢
      obtain ⟨cs', state', runlen⟩ := run
      simp only at hmore hlits hrest ⊢
      subst hmore
      rw [if_pos hmax, set_middle]
      refine ⟨cs', _, _, _, _, rfl, hrest, hnext more hmax state', ?_⟩
      calc done ++ q ++ List.replicate (k + more) lit ++ [] ++ literals makeliteral cs' state'
          = done ++ (q ++ List.replicate k lit) ++
              (List.replicate more lit ++ literals makeliteral cs' state') := by
            rw [List.replicate_add]
            simp only [List.append_assoc, List.nil_append]
        _ = done ++ pend ++ lit :: literals makeliteral cs state := by
            rw [← hpend, ← hlits]
            simp
    · -- the second of two literals of one byte
      obtain ⟨p, hpend, -, -⟩ := h.same_literal hlit hsame.1 hsame.2
      have hfew : lit.length = 1 := by
        have hmax : ¬1 < lit.length := fun hmore => hrun (.inl hmore)
        omega
      obtain ⟨out', done', pend', hwaiting, hall⟩ := hwaits true fun _ => ⟨hfew, p, hpend⟩
      rw [if_neg (mt hbegins.mp hrun)]
      exact ⟨cs, _, out', done', pend', rfl, le_rfl, hwaiting, hall⟩
  · obtain ⟨out', done', pend', hwaiting, hall⟩ := hwaits false fun hfalse => by simp at hfalse
    rw [if_neg hsame]
    exact ⟨cs, _, out', done', pend', rfl, le_rfl, hwaiting, hall⟩

/-- **The loop**: it goes through, and what is done and what waits are the literals. -/
theorem makerleLoop_packs (hliteral : ∀ c state, (makeliteral c state).1 ≠ []) (start : List UInt8)
    (fuel : Nat) (cs : List α) (hfuel : cs.length ≤ fuel) (s : Rle) {out : List UInt8}
    {done pend : List (List UInt8)} (h : Waiting start out done pend s) :
    ∃ s' out' done' pend', makerleLoop makeliteral fuel cs s = some s' ∧
      Waiting start out' done' pend' s' ∧
      done' ++ pend' = done ++ pend ++ literals makeliteral cs s.state := by
  induction fuel generalizing cs s out done pend with
  | zero =>
      obtain rfl := List.length_eq_zero_iff.mp (Nat.le_zero.mp hfuel)
      exact ⟨s, out, done, pend, rfl, h, by simp [literals]⟩
  | succ fuel ih =>
      cases cs with
      | nil => exact ⟨s, out, done, pend, rfl, h, by simp [literals]⟩
      | cons c cs =>
          obtain ⟨cs₁, s₁, out₁, done₁, pend₁, hround, hle, h₁, hall₁⟩ := h.round hliteral c cs
          have hfuel₁ : cs₁.length ≤ fuel := hle.trans (Nat.le_of_succ_le_succ hfuel)
          obtain ⟨s', out', done', pend', hloop, h', hall⟩ := ih cs₁ hfuel₁ s₁ h₁
          refine ⟨s', out', done', pend', ?_, h', hall.trans hall₁⟩
          rw [makerleLoop, hround, Option.bind_some]
          exact hloop

/-- **What `makerle` writes**: a packing of the literals.  No assertion fails, and what is written
is not longer than the literals, a byte for each 128 of them and one byte more. -/
theorem makerle_packs (hliteral : ∀ c state, (makeliteral c state).1 ≠ []) (b : List UInt8)
    (cs : List α) :
    ∃ out, makerle makeliteral b cs = some (b ++ out) ∧
      Packs out (literals makeliteral cs 0) ∧
      out.length ≤ (literals makeliteral cs 0).flatten.length + cs.length / 128 + 1 := by
  have hstart : Waiting b [] [] [] ⟨b ++ [0], b.length, 0, 0, 0, false, 0⟩ :=
    ⟨by simp, by simp, rfl, by simp, .nil, by simp, .inl ⟨rfl, rfl, rfl⟩⟩
  obtain ⟨s, out, done, pend, hloop, hwaiting, hall⟩ := makerleLoop_packs hliteral b _ cs le_rfl
    _ hstart
  simp only [List.nil_append] at hall
  have hcount : done.length + pend.length = cs.length := by
    rw [← List.length_append, hall, literals_length]
  have hbytes : done.flatten.length + pend.flatten.length =
      (literals makeliteral cs 0).flatten.length := by
    rw [← List.length_append, ← List.flatten_append, hall]
  have hsize := hwaiting.size
  have hroom := hwaiting.room
  have hhdrsize := hwaiting.hdrsize
  by_cases hpend : s.hdrsize > 0
  · refine ⟨out ++ UInt8.ofNat (pend.length - 1) :: pend.flatten, ?_, ?_, ?_⟩
    · have hset : s.b.set s.hdrpos (UInt8.ofNat (s.hdrsize - 1)) =
          b ++ out ++ UInt8.ofNat (pend.length - 1) :: pend.flatten := by
        rw [hwaiting.b, hwaiting.hdrpos, hhdrsize, set_middle]
      simp only [makerle, hloop, Option.bind_some, if_pos hpend,
        if_pos (show s.hdrsize ≤ 128 by omega), hset, List.append_assoc]
    · rw [← hall]
      exact hwaiting.packs.literals (by omega) (by omega)
    · simp only [List.length_append, List.length_cons]
      omega
  · have hnone : pend = [] := List.length_eq_zero_iff.mp (by omega)
    subst hnone
    refine ⟨out, ?_, ?_, ?_⟩
    · simp only [makerle, hloop, Option.bind_some, if_neg hpend, hwaiting.b, hwaiting.hdrpos]
      exact congrArg some (List.take_left' rfl)
    · rw [← hall, List.append_nil]
      exact hwaiting.packs
    · simp only [List.flatten_nil, List.length_nil] at hbytes hcount
      omega

end Whole

end Terminal
end Qutty
