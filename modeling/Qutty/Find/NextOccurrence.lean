import Qutty.Find.Completeness
import Qutty.Lib.CyclicOrder

/-!
# Which occurrence a search down goes to

The lines are as wide as the terminal here.  `on_findDown` goes to the first occurrence, in
the cyclic order of reading, from the end of the last match on (`findDown_next`).  Pressed
again and again it goes through the occurrences that do not overlap, line by line, and leaves
none out (`findDown_spec`).
-/

namespace Qutty
namespace Find

open Lib

/-- Positions in the buffer, a row and a column, in the order of reading. -/
abbrev Position : Type := Nat ×ₗ Nat

/-- The position of the toolbar. -/
def At (f : GuiFindToolBar) (p : Position) : Prop :=
  f.currentRow = (ofLex p).1 ∧ f.currentCol = (ofLex p).2

/-- The position behind a text of the given length. -/
def behind (length : Nat) (p : Position) : Position :=
  toLex ((ofLex p).1, (ofLex p).2 + length)

theorem lt_behind {length : Nat} (hpos : 0 < length) (p : Position) : p < behind length p :=
  Prod.Lex.lt_iff.mpr (.inr ⟨rfl, Nat.lt_add_of_pos_right hpos⟩)

section Occurrences

variable (foldCase : Nat → Nat) (term : Terminal) (searched : QString)

/-- Where the text occurs. -/
def occurrences : Set Position :=
  {p | ∃ line, term.lines[(ofLex p).1]? = some line ∧ OccursAt foldCase line searched (ofLex p).2}

/-- The occurrences that do not overlap, line by line and from left to right. -/
def greedyOccurrences : List Position :=
  term.lines.zipIdx.flatMap fun l =>
    (greedy foldCase l.1 searched).map fun k => toLex (l.2, k)

/-- The toolbar after the key was pressed so many times. -/
def presses (bar : QScrollBar) (f : GuiFindToolBar) : Nat → Option (GuiFindToolBar × QScrollBar)
  | 0 => some (f, bar)
  | n + 1 => (on_findDown foldCase term searched bar f).bind fun r => presses r.2 r.1 n

end Occurrences

variable {foldCase : Nat → Nat} {term : Terminal} {searched : QString} {bar : QScrollBar}
  {f : GuiFindToolBar} {p q : Position}

section Landing

variable {i : Nat} {k : Int}

/-- The step at which a search from `x` comes to a position. -/
def stepOf (N : Nat) (x q : Position) : Nat :=
  if x ≤ q then (ofLex q).1 - (ofLex x).1 else (ofLex q).1 + N - (ofLex x).1

theorem stepOf_spec {N : Nat} {x : Position} (hx : (ofLex x).1 < N) (hq : (ofLex q).1 < N) :
    stepOf N x q ≤ N ∧ ((ofLex x).1 + stepOf N x q) % N = (ofLex q).1 ∧
      (stepOf N x q = 0 → (ofLex x).2 ≤ (ofLex q).2) := by
  rw [stepOf]
  split_ifs with hle
  · rw [Prod.Lex.le_iff] at hle
    have hsum : (ofLex x).1 + ((ofLex q).1 - (ofLex x).1) = (ofLex q).1 := by omega
    exact ⟨by omega, by rw [hsum, Nat.mod_eq_of_lt hq], by omega⟩
  · rw [Prod.Lex.le_iff] at hle
    have hsum : (ofLex x).1 + ((ofLex q).1 + N - (ofLex x).1) = (ofLex q).1 + N := by omega
    exact ⟨by omega, by rw [hsum, Nat.add_mod_right, Nat.mod_eq_of_lt hq], by omega⟩

/-- A position that is found at a step is not met before it. -/
theorem stepOf_eq {N i n : Nat} {x : Position} (hx : (ofLex x).1 < N)
    (hcol : (if i = 0 then (ofLex x).2 else 0) ≤ n)
    (hle : i ≤ stepOf N x (toLex (((ofLex x).1 + i) % N, n))) :
    stepOf N x (toLex (((ofLex x).1 + i) % N, n)) = i := by
  by_cases hi : i = 0
  · have hrow : ((ofLex x).1 + i) % N = (ofLex x).1 := by
      rw [hi, Nat.add_zero, Nat.mod_eq_of_lt hx]
    rw [if_pos hi] at hcol
    have hahead : x ≤ toLex ((ofLex x).1, n) := Prod.Lex.le_iff.mpr (.inr ⟨rfl, hcol⟩)
    rw [stepOf, hrow, if_pos hahead, hi]
    exact Nat.sub_self _
  · obtain ⟨hN, hmod, -⟩ := stepOf_spec (q := toLex (((ofLex x).1 + i) % N, n)) hx
      (Nat.mod_lt _ (by omega))
    generalize stepOf N x (toLex (((ofLex x).1 + i) % N, n)) = s at hle hN hmod ⊢
    have hsub : (ofLex x).1 + s - ((ofLex x).1 + i) = s - i := by omega
    have hdiff := Nat.sub_mod_eq_zero_of_mod_eq hmod
    rw [hsub, Nat.mod_eq_of_lt (by omega)] at hdiff
    omega

/-- The order of the steps is the cyclic order. -/
theorem cyclicLE_of_stepOf {N : Nat} {x : Position} (hx : (ofLex x).1 < N)
    (hq : (ofLex q).1 < N)
    (h : stepOf N x p < stepOf N x q ∨
      stepOf N x p = stepOf N x q ∧ (ofLex p).2 ≤ (ofLex q).2) : CyclicLE x p q := by
  simp only [CyclicLE, ← not_le]
  rw [stepOf, stepOf] at h
  by_cases hxp : x ≤ p
  · by_cases hxq : x ≤ q
    · rw [if_pos hxp, if_pos hxq] at h
      refine .inr ⟨iff_of_true hxp hxq, ?_⟩
      rw [Prod.Lex.le_iff] at hxp hxq ⊢
      omega
    · exact .inl ⟨hxp, hxq⟩
  · by_cases hxq : x ≤ q
    · rw [if_neg hxp, if_pos hxq] at h
      rw [Prod.Lex.le_iff] at hxp hxq
      omega
    · rw [if_neg hxp, if_neg hxq] at h
      refine .inr ⟨iff_of_false hxp hxq, ?_⟩
      rw [Prod.Lex.le_iff] at hxp hxq ⊢
      omega

variable (foldCase) in
/-- A step of a search down looks for the first occurrence in its line. -/
theorem hit_down (hfit : Fits term bar) (hwide : ∀ line ∈ term.lines, line.length = term.cols)
    (text : QString) {x : Position} (hx : (ofLex x).1 < total term bar) (i : Nat) :
    ∃ line, term.lines[((ofLex x).1 + i) % total term bar]? = some line ∧
      hit down foldCase term text (total term bar) (ofLex x).1 (ofLex x).2 i =
        (firstOccurrence foldCase line text (if i = 0 then (ofLex x).2 else 0)).map Nat.cast := by
  have hlt := Nat.mod_lt ((ofLex x).1 + i) hfit.total_pos
  rw [← hfit.length_lines] at hlt
  refine ⟨term.lines[((ofLex x).1 + i) % term.lines.length], ?_, ?_⟩
  · rw [hfit.length_lines.symm]
    exact List.getElem?_eq_getElem hlt
  · have hvisit : visited down (total term bar) (ofLex x).1 i =
        (((ofLex x).1 + i) % term.lines.length : Nat) := by
      rw [visited_down hfit.total_pos (Int.natCast_nonneg _), if_pos (by omega),
        Int.toNat_natCast, hfit.length_lines]
    have hcol : (if i = 0 then ((ofLex x).2 : Int) else down.restart term.cols) =
        ((if i = 0 then (ofLex x).2 else 0 : Nat) : Int) := by
      split_ifs <;> rfl
    have hlen := hwide _ (List.getElem_mem hlt)
    rw [hit, hvisit, str_eq (.inr rfl), List.getElem?_eq_getElem hlt, Option.getD_some, hcol,
      down_find _ (Int.natCast_nonneg _), Int.toNat_natCast]
    generalize (if i = 0 then (ofLex x).2 else 0) = col
    split_ifs with hbehind
    · rfl
    · rw [firstOccurrence, hlen, Nat.sub_eq_zero_of_le (by omega)]
      rfl

/-- **Where a search down lands**: at the next occurrence. -/
theorem nextIn_of_landing (hfit : Fits term bar)
    (hwide : ∀ line ∈ term.lines, line.length = term.cols) (hs : searched ≠ []) (hat : At f p)
    (hp : (ofLex p).1 < total term bar)
    (hl : landing down foldCase term searched bar f = some (i, k)) :
    ∃ q, visited down (total term bar) (start down foldCase term searched bar f).currentRow i =
        (ofLex q).1 ∧ k = (ofLex q).2 ∧
      NextIn (occurrences foldCase term searched) (behind f.currentSearchedText.length p) q := by
  obtain ⟨htext, hne⟩ := start_text down foldCase term bar f hs
  have hrow : (start down foldCase term searched bar f).currentRow =
      (ofLex (behind f.currentSearchedText.length p)).1 := by
    have hnonneg : ¬ f.currentRow < 0 := by
      rw [hat.1]
      omega
    simp only [start, if_neg hnonneg]
    exact hat.1
  have hcol : (start down foldCase term searched bar f).currentCol =
      (ofLex (behind f.currentSearchedText.length p)).2 := by
    have hresume : down.resume f.currentCol f.currentSearchedText.length =
        (ofLex (behind f.currentSearchedText.length p)).2 := by
      rw [hat.2]
      rfl
    simp only [start, hresume]
    rw [if_neg fun h => absurd h.2 (by omega)]
  have hx : (ofLex (behind f.currentSearchedText.length p)).1 < total term bar := hp
  generalize behind f.currentSearchedText.length p = x at hrow hcol hx ⊢
  rw [landing, hrow, hcol] at hl
  obtain ⟨-, hi, hhit, hmiss⟩ := firstHit_eq_some_iff.mp hl
  -- an occurrence is met at its step, and not before the landing
  have hmet : ∀ q ∈ occurrences foldCase term searched, (ofLex q).1 < total term bar ∧
      i ≤ stepOf (total term bar) x q := by
    rintro q ⟨line, hline, hocc⟩
    have hq : (ofLex q).1 < total term bar := by
      rw [← hfit.length_lines]
      exact (List.getElem?_eq_some_iff.mp hline).1
    obtain ⟨-, hmod, hzero⟩ := stepOf_spec hx hq
    refine ⟨hq, not_lt.mp fun hlt => ?_⟩
    have hnone := hmiss _ (Nat.zero_le _) hlt
    obtain ⟨line', hline', heq⟩ := hit_down foldCase hfit hwide
      (start down foldCase term searched bar f).currentSearchedText hx (stepOf (total term bar) x q)
    rw [hmod, hline, Option.some.injEq] at hline'
    rw [heq, Option.map_eq_none_iff, firstOccurrence_eq_none_iff hne, ← hline'] at hnone
    refine hnone (ofLex q).2 ?_ ((occursAt_congr htext).mpr hocc)
    split_ifs with h0
    · exact hzero h0
    · exact Nat.zero_le _
  obtain ⟨line, hline, heq⟩ := hit_down foldCase hfit hwide
    (start down foldCase term searched bar f).currentSearchedText hx i
  rw [heq] at hhit
  obtain ⟨n, hn, rfl⟩ := Option.map_eq_some_iff.mp hhit
  obtain ⟨hcoln, hocc, hleast⟩ := (firstOccurrence_eq_some_iff hne).mp hn
  have hmem : toLex (((ofLex x).1 + i) % total term bar, n) ∈
      occurrences foldCase term searched := ⟨line, hline, (occursAt_congr htext).mp hocc⟩
  obtain ⟨hq, hle⟩ := hmet _ hmem
  refine ⟨toLex (((ofLex x).1 + i) % total term bar, n), ?_, rfl, hmem, fun q' hmem' => ?_⟩
  · rw [hrow, visited_down hfit.total_pos (Int.natCast_nonneg _), if_pos (by omega),
      Int.toNat_natCast]
    rfl
  · obtain ⟨hq', hle'⟩ := hmet q' hmem'
    have hstep := stepOf_eq hx hcoln hle
    refine cyclicLE_of_stepOf hx hq' ?_
    rw [hstep]
    refine hle'.lt_or_eq.imp_right fun heq' => ⟨heq', not_lt.mp fun hlt => ?_⟩
    -- another one in the same line
    obtain ⟨line', hline', hocc'⟩ := hmem'
    obtain ⟨-, hmod, hzero⟩ := stepOf_spec hx hq'
    rw [← heq'] at hmod hzero
    rw [← hmod, hline, Option.some.injEq] at hline'
    rw [← hline'] at hocc'
    refine hleast (ofLex q').2 ?_ hlt ((occursAt_congr htext).mpr hocc')
    split_ifs with h0
    · exact hzero h0
    · exact Nat.zero_le _

end Landing

section Greedy

theorem mem_greedyOccurrences : p ∈ greedyOccurrences foldCase term searched ↔
    ∃ line, term.lines[(ofLex p).1]? = some line ∧
      (ofLex p).2 ∈ greedy foldCase line searched := by
  rw [greedyOccurrences, List.mem_flatMap]
  constructor
  · rintro ⟨⟨line, row⟩, hmem, hp⟩
    obtain ⟨k, hk, rfl⟩ := List.mem_map.mp hp
    exact ⟨line, List.mem_zipIdx_iff_getElem?.mp hmem, hk⟩
  · rintro ⟨line, hline, hk⟩
    exact ⟨(line, (ofLex p).1), List.mem_zipIdx_iff_getElem?.mpr hline,
      List.mem_map.mpr ⟨_, hk, rfl⟩⟩

theorem greedyOccurrences_subset (hs : searched ≠ []) :
    {p | p ∈ greedyOccurrences foldCase term searched} ⊆ occurrences foldCase term searched := by
  intro p hp
  obtain ⟨line, hline, hk⟩ := mem_greedyOccurrences.mp hp
  exact ⟨line, hline, occursAt_of_mem_greedy hs hk⟩

variable (foldCase term) in
/-- Each of them lies behind the end of the one before. -/
theorem pairwise_greedyOccurrences (hs : searched ≠ []) :
    (greedyOccurrences foldCase term searched).Pairwise fun p q =>
      behind searched.length p ≤ q := by
  rw [greedyOccurrences, List.pairwise_flatMap]
  constructor
  · rintro ⟨line, row⟩ -
    rw [List.pairwise_map]
    refine (pairwise_greedy hs).imp fun hjk => ?_
    exact Prod.Lex.le_iff.mpr (.inr ⟨rfl, hjk⟩)
  · rw [List.pairwise_iff_getElem]
    intro i j hi hj hij p hp q hq
    obtain ⟨k, -, rfl⟩ := List.mem_map.mp hp
    obtain ⟨l, -, rfl⟩ := List.mem_map.mp hq
    refine Prod.Lex.le_iff.mpr (.inl ?_)
    simpa [behind] using hij

/-- From the end of one of them the next occurrence is the next one of the list. -/
theorem nextIn_greedy (hs : searched ≠ []) {i : Nat}
    (hi : (greedyOccurrences foldCase term searched)[i]? = some p)
    (hq : (greedyOccurrences foldCase term searched)[
      (i + 1) % (greedyOccurrences foldCase term searched).length]? = some q) :
    NextIn (occurrences foldCase term searched) (behind searched.length p) q := by
  have hpos := List.length_pos_of_ne_nil hs
  have hbehind := List.pairwise_iff_getElem.mp (pairwise_greedyOccurrences foldCase term hs)
  have hsorted : (greedyOccurrences foldCase term searched).Pairwise (· < ·) := by
    exact (pairwise_greedyOccurrences foldCase term hs).imp fun hle => (lt_behind hpos _).trans_le hle
  obtain ⟨hlt, rfl⟩ := List.getElem?_eq_some_iff.mp hi
  have hpx := lt_behind hpos (greedyOccurrences foldCase term searched)[i]
  generalize hx : behind searched.length (greedyOccurrences foldCase term searched)[i] = x at hpx ⊢
  have hge : ∀ j (hj : j < (greedyOccurrences foldCase term searched).length), i < j →
      x ≤ (greedyOccurrences foldCase term searched)[j] := by
    intro j hj hij
    rw [← hx]
    exact hbehind i j hlt hj hij
  refine (nextIn_getElem hsorted hlt hpx hge hq).of_subset (greedyOccurrences_subset hs) ?_
  rintro q' ⟨line, hline, hocc⟩
  obtain ⟨k, hk, hkq, hqk⟩ := exists_mem_greedy hs hocc
  have hmem : toLex ((ofLex q').1, k) ∈ greedyOccurrences foldCase term searched :=
    mem_greedyOccurrences.mpr ⟨line, hline, hk⟩
  have hle : toLex ((ofLex q').1, k) ≤ q' := Prod.Lex.le_iff.mpr (.inr ⟨rfl, hkq⟩)
  refine ⟨_, hmem, .inr ⟨⟨fun hxg => hxg.trans hle, fun hxq => ?_⟩, hle⟩⟩
  -- an occurrence within one that ends before `x` is before `x` too
  by_contra hxg
  have hinside : q' < behind searched.length (toLex ((ofLex q').1, k)) :=
    Prod.Lex.lt_iff.mpr (.inr ⟨rfl, hqk⟩)
  obtain ⟨j, hj, hjeq⟩ := List.mem_iff_getElem.mp hmem
  rcases lt_trichotomy j i with hji | rfl | hij
  · have hend := hbehind j i hj hlt hji
    rw [hjeq] at hend
    exact absurd (hinside.trans_le (hend.trans hpx.le)) (not_lt.mpr hxq)
  · rw [hjeq] at hx
    rw [← hx] at hxq
    exact absurd hinside (not_lt.mpr hxq)
  · exact hxg (hjeq ▸ hge j hj hij)

end Greedy

section Presses

/-- What a press of the key does. -/
structure Pressed (foldCase : Nat → Nat) (term : Terminal) (searched : QString)
    (f : GuiFindToolBar) (p : Position) (r : GuiFindToolBar × QScrollBar) (q : Position) :
    Prop where
  flag : r.1.findTextFlag = true
  at_next : At r.1 q
  next : NextIn (occurrences foldCase term searched) (behind f.currentSearchedText.length p) q
  text : r.1.currentSearchedText.map foldCase = searched.map foldCase
  fits : Fits term r.2
  lt : (ofLex q).1 < total term r.2

/-- **A search down goes to the next occurrence.** -/
theorem findDown_next (hfit : Fits term bar)
    (hwide : ∀ line ∈ term.lines, line.length = term.cols) (hs : searched ≠ [])
    (hocc : Occurs foldCase term searched) (hat : At f p) (hp : (ofLex p).1 < total term bar) :
    ∃ r q, on_findDown foldCase term searched bar f = some r ∧
      Pressed foldCase term searched f p r q := by
  rw [on_findDown, on_find_eq hs]
  cases hl : landing down foldCase term searched bar f with
  | none => exact absurd hl (landing_down_ne_none hfit hs hocc)
  | some h =>
      obtain ⟨i, k⟩ := h
      obtain ⟨q, hrow, rfl, hnext⟩ := nextIn_of_landing hfit hwide hs hat hp hl
      obtain ⟨line, hline, hoccurs⟩ := hnext.mem
      have hmax := scrolled_maximum down term (start down foldCase term searched bar f) bar
        (visited down (total term bar) (start down foldCase term searched bar f).currentRow i)
      refine ⟨_, q, rfl, rfl, ⟨hrow, rfl⟩, hnext, ?_, ?_, ?_⟩
      · simp only [landed, start_length down foldCase term bar f hs]
        rw [hrow, str_eq (.inr rfl), hline]
        exact hoccurs.map_take
      · exact ⟨hfit.rows_pos, hfit.cols_pos, hfit.screen, hmax.trans hfit.maximum⟩
      · have hlt := (List.getElem?_eq_some_iff.mp hline).1
        rw [hfit.length_lines] at hlt
        rw [total, hmax]
        exact hlt

/-- The next occurrence is further right in the same row, or it is the first one of its row. -/
theorem same_row_or_greedy (hs : searched ≠ []) {x : Position}
    (h : NextIn (occurrences foldCase term searched) x q) :
    ((ofLex q).1 = (ofLex x).1 ∧ (ofLex x).2 ≤ (ofLex q).2) ∨
      q ∈ greedyOccurrences foldCase term searched := by
  by_cases hrow : x ≤ q ∧ (ofLex q).1 = (ofLex x).1
  · have hle := Prod.Lex.le_iff.mp hrow.1
    exact .inl ⟨hrow.2, by omega⟩
  · obtain ⟨line, hline, hocc⟩ := h.mem
    refine .inr (mem_greedyOccurrences.mpr ⟨line, hline, ?_⟩)
    refine mem_greedy_of_first hs hocc fun k hk => ?_
    have hother := h.le (toLex ((ofLex q).1, k)) ⟨line, hline, hk⟩
    simp only [CyclicLE, ← not_le, Prod.Lex.le_iff, ofLex_toLex] at hrow hother
    omega

variable (foldCase term searched bar f) in
/-- The presses from here on go through the list, from its `i`-th element on. -/
def Cycles (i : Nat) : Prop :=
  ∀ n, ∃ r q, presses foldCase term searched bar f n = some r ∧
    (n ≠ 0 → r.1.findTextFlag = true) ∧ At r.1 q ∧
    (greedyOccurrences foldCase term searched)[
      (i + n) % (greedyOccurrences foldCase term searched).length]? = some q

/-- From one of the occurrences of the list the presses go through all of it. -/
theorem cycles_of_greedy (hfit : Fits term bar)
    (hwide : ∀ line ∈ term.lines, line.length = term.cols) (hs : searched ≠ [])
    (htext : f.currentSearchedText.map foldCase = searched.map foldCase) (hat : At f p) {i : Nat}
    (hi : (greedyOccurrences foldCase term searched)[i]? = some p) :
    Cycles foldCase term searched bar f i := by
  intro n
  induction n generalizing bar f p i with
  | zero =>
      obtain ⟨hlt, -⟩ := List.getElem?_eq_some_iff.mp hi
      refine ⟨_, p, rfl, fun h => absurd rfl h, hat, ?_⟩
      rwa [Nat.add_zero, Nat.mod_eq_of_lt hlt]
  | succ n ih =>
      obtain ⟨hlt, -⟩ := List.getElem?_eq_some_iff.mp hi
      obtain ⟨line, hline, hocc⟩ := greedyOccurrences_subset hs (List.mem_of_getElem? hi)
      have hoccurs : Occurs foldCase term searched :=
        ⟨line, List.mem_of_getElem? hline, _, hocc⟩
      have hrow := (List.getElem?_eq_some_iff.mp hline).1
      rw [hfit.length_lines] at hrow
      obtain ⟨r, q, hr, hpress⟩ := findDown_next hfit hwide hs hoccurs hat hrow
      have hlen := congrArg List.length htext
      rw [List.length_map, List.length_map] at hlen
      -- the press goes to the next element of the list
      have hnext := List.getElem?_eq_getElem (Nat.mod_lt (i + 1) (Nat.zero_lt_of_lt hlt))
      have hq := hpress.next
      rw [hlen] at hq
      rw [← (nextIn_greedy hs hi hnext).unique hq] at hpress
      obtain ⟨r', q', hr', hflag, hat', hq'⟩ := ih hpress.fits hpress.text hpress.at_next hnext
      rw [Nat.mod_add_mod, Nat.add_assoc, Nat.add_comm 1 n] at hq'
      rw [presses, hr, Option.bind_some]
      refine ⟨r', q', hr', fun _ => ?_, hat', hq'⟩
      by_cases hn : n = 0
      · subst hn
        obtain rfl := Option.some.inj hr'
        exact hpress.flag
      · exact hflag hn

/-- A press goes on in its row, or the presses go through the list from there on. -/
theorem press_cases (hfit : Fits term bar)
    (hwide : ∀ line ∈ term.lines, line.length = term.cols) (hs : searched ≠ [])
    (hocc : Occurs foldCase term searched) (hat : At f p) (hp : (ofLex p).1 < total term bar) :
    ∃ r q, on_findDown foldCase term searched bar f = some r ∧
      Pressed foldCase term searched f p r q ∧
      ((ofLex q).1 = (ofLex p).1 ∧
          (ofLex p).2 + f.currentSearchedText.length ≤ (ofLex q).2 ∧ (ofLex q).2 < term.cols ∨
        ∃ i, Cycles foldCase term searched r.2 r.1 i) := by
  obtain ⟨r, q, hr, hpress⟩ := findDown_next hfit hwide hs hocc hat hp
  refine ⟨r, q, hr, hpress, ?_⟩
  rcases same_row_or_greedy hs hpress.next with ⟨hrow, hcol⟩ | hmem
  · obtain ⟨line, hline, hat'⟩ := hpress.next.mem
    have hlt := hat'.lt hs
    rw [hwide line (List.mem_of_getElem? hline)] at hlt
    exact .inl ⟨hrow, hcol, hlt⟩
  · obtain ⟨i, hi⟩ := List.getElem?_of_mem hmem
    exact .inr ⟨i, cycles_of_greedy hpress.fits hwide hs hpress.text hpress.at_next hi⟩

/-- The presses leave the row, as they go to the right in it. -/
theorem exists_cycles (hfit : Fits term bar)
    (hwide : ∀ line ∈ term.lines, line.length = term.cols) (hs : searched ≠ [])
    (hocc : Occurs foldCase term searched) (hat : At f p) (hp : (ofLex p).1 < total term bar)
    {c : Nat} (hc : term.cols ≤ (ofLex p).2 + f.currentSearchedText.length + c) :
    ∃ m r i, (∀ j ≤ m, ∃ r q, presses foldCase term searched bar f j = some r ∧
        At r.1 q ∧ (ofLex q).1 = (ofLex p).1) ∧
      presses foldCase term searched bar f (m + 1) = some r ∧ r.1.findTextFlag = true ∧
      Cycles foldCase term searched r.2 r.1 i := by
  induction c generalizing bar f p with
  | zero =>
      obtain ⟨r, q, hr, hpress, ⟨-, hle, hlt⟩ | ⟨i, hcycles⟩⟩ :=
        press_cases hfit hwide hs hocc hat hp
      · omega
      · refine ⟨0, r, i, fun j hj => ?_, by rw [presses, hr]; rfl, hpress.flag, hcycles⟩
        rw [Nat.le_zero.mp hj]
        exact ⟨_, p, rfl, hat, rfl⟩
  | succ c ih =>
      obtain ⟨r, q, hr, hpress, ⟨hrow, hle, hlt⟩ | ⟨i, hcycles⟩⟩ :=
        press_cases hfit hwide hs hocc hat hp
      · have hlen := congrArg List.length hpress.text
        have hpos := List.length_pos_of_ne_nil hs
        rw [List.length_map, List.length_map] at hlen
        obtain ⟨m, r', i, hstay, hr', hflag, hcycles⟩ :=
          ih hpress.fits hpress.at_next hpress.lt (by omega)
        refine ⟨m + 1, r', i, fun j hj => ?_, by rw [presses, hr]; exact hr', hflag, hcycles⟩
        cases j with
        | zero => exact ⟨_, p, rfl, hat, rfl⟩
        | succ j =>
            obtain ⟨r'', q', hr'', hat'', hrow'⟩ := hstay j (by omega)
            exact ⟨r'', q', by rw [presses, hr]; exact hr'', hat'', hrow'.trans hrow⟩
      · refine ⟨0, r, i, fun j hj => ?_, by rw [presses, hr]; rfl, hpress.flag, hcycles⟩
        rw [Nat.le_zero.mp hj]
        exact ⟨_, p, rfl, hat, rfl⟩

end Presses

section Results

/-- **Which occurrences a search down goes through.** -/
theorem findDown_spec (hfit : Fits term bar)
    (hwide : ∀ line ∈ term.lines, line.length = term.cols) (hs : searched ≠ [])
    (hocc : Occurs foldCase term searched) (hat : At f p) (hp : (ofLex p).1 < total term bar) :
    (∃ r q, on_findDown foldCase term searched bar f = some r ∧ r.1.findTextFlag = true ∧
      At r.1 q ∧ NextIn (occurrences foldCase term searched)
        (behind f.currentSearchedText.length p) q) ∧
    (f.currentSearchedText.map foldCase = searched.map foldCase →
      ∀ i, (greedyOccurrences foldCase term searched)[i]? = some p →
        Cycles foldCase term searched bar f i) ∧
    ∃ m r i, (∀ j ≤ m, ∃ r q, presses foldCase term searched bar f j = some r ∧
        At r.1 q ∧ (ofLex q).1 = (ofLex p).1) ∧
      presses foldCase term searched bar f (m + 1) = some r ∧ r.1.findTextFlag = true ∧
      Cycles foldCase term searched r.2 r.1 i := by
  refine ⟨?_, fun htext i hi => cycles_of_greedy hfit hwide hs htext hat hi, ?_⟩
  · obtain ⟨r, q, hr, hpress⟩ := findDown_next hfit hwide hs hocc hat hp
    exact ⟨r, q, hr, hpress.flag, hpress.at_next, hpress.next⟩
  · exact exists_cycles hfit hwide hs hocc hat hp (Nat.le_add_left _ _)

end Results

section Examples

/-- The lines `ABAB` and `AB--`. -/
def threeTexts : Terminal := oneRow [[65, 66, 65, 66]] withText

/-- A toolbar at the first of the texts `AB`. -/
def atFirst : GuiFindToolBar := ⟨true, 0, 0, 0, [65, 66]⟩

/-- After four presses the second of the three texts is reached again. -/
theorem findDown_spec_threeTexts :
    ∃ r, presses asciiFold threeTexts [97, 98] (atEnd threeTexts) atFirst 4 = some r ∧
      At r.1 (toLex (0, 2)) := by
  have hwide : ∀ line ∈ threeTexts.lines, line.length = threeTexts.cols := by
    intro line hline
    rcases List.mem_cons.mp hline with rfl | hline
    · rfl
    · rw [List.mem_singleton.mp hline]
      rfl
  have hne : ([97, 98] : QString) ≠ [] := by simp
  have hocc : Occurs asciiFold threeTexts [97, 98] :=
    ⟨[65, 66, 65, 66], List.mem_cons_self, 0, by decide⟩
  have hat : At atFirst (toLex (0, 0)) := ⟨rfl, rfl⟩
  have hrow : (ofLex (toLex (0, 0) : Position)).1 < total threeTexts (atEnd threeTexts) :=
    Nat.two_pos
  obtain ⟨-, hrun, -⟩ := findDown_spec (fits_oneRow _ _) hwide hne hocc hat hrow
  obtain ⟨r, q, hr, -, hq, hlist⟩ := hrun rfl 0 rfl 4
  obtain rfl : toLex (0, 2) = q := Option.some.inj hlist
  exact ⟨r, hr, hq⟩

end Examples

end Find
end Qutty
