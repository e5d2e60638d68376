import Qutty.Find.ToolBar

/-!
# Whether a search finds the text

The toolbar keeps its row and its column when the terminal changes: the row may be behind
the last line, and the column behind the end of its line.  `on_findDown` starts over at the
first row then, and finds the text wherever it is.  `on_findUp` spends its steps on rows that
do not exist, and it searches every line from the column `cols - 1`, which misses lines of
another width (`searchComplete_iff`).
-/

namespace Qutty
namespace Find

open Lib

/-- The terminal and its scroll bar fit together. -/
structure Fits (term : Terminal) (bar : QScrollBar) : Prop where
  rows_pos : 0 < term.rows
  cols_pos : 0 < term.cols
  screen : term.screen.length = term.rows
  maximum : bar.maximum = term.scrollback.length

/-- The states of a toolbar after any searches, in any terminals, and keys pressed. -/
inductive Reachable (foldCase : Nat → Nat) : GuiFindToolBar → Prop where
  | init : Reachable foldCase .init
  | on_findUp {term : Terminal} {searched : QString} {bar bar' : QScrollBar}
      {f f' : GuiFindToolBar} (h : Reachable foldCase f)
      (hf : on_findUp foldCase term searched bar f = some (f', bar')) : Reachable foldCase f'
  | on_findDown {term : Terminal} {searched : QString} {bar bar' : QScrollBar}
      {f f' : GuiFindToolBar} (h : Reachable foldCase f)
      (hf : on_findDown foldCase term searched bar f = some (f', bar')) : Reachable foldCase f'
  | keyPress {f : GuiFindToolBar} (h : Reachable foldCase f) :
      Reachable foldCase { f with findTextFlag := false }

/-- The text occurs in some line. -/
def Occurs (foldCase : Nat → Nat) (term : Terminal) (searched : QString) : Prop :=
  ∃ line ∈ term.lines, ∃ k, OccursAt foldCase line searched k

/-- The search has found the text if and only if it occurs, and has not moved otherwise. -/
structure Complete (foldCase : Nat → Nat) (term : Terminal) (searched : QString)
    (f f' : GuiFindToolBar) : Prop where
  found : Occurs foldCase term searched → f'.findTextFlag = true ∧
    ∃ (row k : Nat) (line : QString), f'.currentRow = row ∧ f'.currentCol = k ∧
      term.lines[row]? = some line ∧ OccursAt foldCase line searched k
  absent : ¬ Occurs foldCase term searched →
    f'.findTextFlag = false ∧ f'.currentRow = f.currentRow ∧ f'.currentCol = f.currentCol

section Strings

variable {foldCase : Nat → Nat} {s t : QString} {col k : Int}

theorem down_find (cols : Int) (hcol : 0 ≤ col) :
    down.find foldCase cols s t col =
      if col < cols then (firstOccurrence foldCase s t col.toNat).map Nat.cast else none := by
  have hindex : indexOf foldCase s t col =
      ((firstOccurrence foldCase s t col.toNat).map Nat.cast).getD (-1) := by
    rw [indexOf]
    simp only [if_neg (not_lt.mpr hcol)]
  simp only [down, hindex]
  cases firstOccurrence foldCase s t col.toNat with
  | none => simp
  | some k => simp

theorem up_find (cols : Int) :
    up.find foldCase cols s t col =
      if 0 ≤ col ∧ (col ≤ s.length ∨ t.length = 1) then
        (lastOccurrence foldCase s t col.toNat).map Nat.cast
      else none := by
  by_cases hcol : 0 ≤ col
  · have hlast : lastIndexOf foldCase s t col =
        if col ≤ s.length ∨ t.length = 1 then
          ((lastOccurrence foldCase s t col.toNat).map Nat.cast).getD (-1)
        else -1 := by
      rw [lastIndexOf]
      simp only [if_neg (not_lt.mpr hcol)]
      by_cases hfits : col ≤ s.length ∨ t.length = 1
      · rw [if_neg (by omega), if_pos hfits]
      · rw [if_pos (by omega), if_neg hfits]
    simp only [up, hlast, hcol, true_and, ge_iff_le]
    by_cases hfits : col ≤ s.length ∨ t.length = 1
    · rw [if_pos hfits, if_pos hfits]
      cases lastOccurrence foldCase s t col.toNat with
      | none => simp
      | some k => simp
    · rw [if_neg hfits, if_neg hfits]
      simp
  · simp [up, hcol]

/-- The text occurs at a column up to `start`, in a line that a search from there reaches. -/
def SeenFrom (foldCase : Nat → Nat) (s t : QString) (start : Int) : Prop :=
  (start ≤ s.length ∨ t.length = 1) ∧ ∃ k : Nat, (k : Int) ≤ start ∧ OccursAt foldCase s t k

theorem up_find_ne_none (cols : Int) :
    up.find foldCase cols s t col ≠ none ↔ SeenFrom foldCase s t col := by
  rw [up_find, SeenFrom]
  by_cases hcol : 0 ≤ col
  · by_cases hfits : col ≤ s.length ∨ t.length = 1
    · rw [if_pos ⟨hcol, hfits⟩, ne_eq, Option.map_eq_none_iff, lastOccurrence_eq_none_iff,
        and_iff_right hfits]
      simp only [not_forall, not_not]
      refine exists_congr fun k => ?_
      rw [← exists_prop]
      constructor
      · rintro ⟨hk, hocc⟩
        exact ⟨by omega, hocc⟩
      · rintro ⟨hk, hocc⟩
        exact ⟨by omega, hocc⟩
    · rw [if_neg fun h => hfits h.2]
      exact iff_of_false (by simp) fun h => hfits h.1
  · rw [if_neg fun h => hcol h.1]
    refine iff_of_false (by simp) ?_
    rintro ⟨-, k, hk, -⟩
    omega

/-- What a search finds in a line is an occurrence. -/
theorem find_occursAt {d : Direction} (hd : d = up ∨ d = down) (cols : Int)
    (hcol : d = down → 0 ≤ col) (ht : t ≠ []) (hk : d.find foldCase cols s t col = some k) :
    ∃ n : Nat, k = n ∧ OccursAt foldCase s t n := by
  rcases hd with rfl | rfl
  · rw [up_find] at hk
    split_ifs at hk
    obtain ⟨n, hn, rfl⟩ := Option.map_eq_some_iff.mp hk
    exact ⟨n, rfl, (lastOccurrence_spec hn).2⟩
  · rw [down_find cols (hcol rfl)] at hk
    split_ifs at hk
    obtain ⟨n, hn, rfl⟩ := Option.map_eq_some_iff.mp hk
    exact ⟨n, rfl, ((firstOccurrence_eq_some_iff ht).mp hn).2.1⟩

end Strings

section Rows

variable {d : Direction} {term : Terminal} {bar : QScrollBar} {N i row : Nat} {r : Int}

/-- The text that is searched for a row is that line of the buffer. -/
theorem str_eq (hd : d = up ∨ d = down) (term : Terminal) (row : Nat) :
    str d term row = (term.lines[row]?).getD [] := by
  have hind : ∀ x : Int, 0 ≤ x → d.screenInd x = x := by
    rcases hd with rfl | rfl
    · exact fun x _ => rfl
    · exact fun x hx => abs_of_nonneg hx
  rw [str, Terminal.rowText, Terminal.lines, List.getElem?_map, List.getElem?_append]
  by_cases hrow : row < term.scrollback.length
  · have hrow' : (term.scrollback.length : Int) > row := by omega
    rw [if_pos hrow', if_pos hrow, Terminal.index234, if_neg (by omega), Int.toNat_natCast]
    cases term.scrollback[row]? <;> rfl
  · have hrow' : ¬ (term.scrollback.length : Int) > row := by omega
    have hsub : ((row : Int) - term.scrollback.length).toNat = row - term.scrollback.length := by
      omega
    rw [if_neg hrow', if_neg hrow, hind _ (by omega), Terminal.index234, if_neg (by omega), hsub]
    cases term.screen[row - term.scrollback.length]? <;> rfl

theorem Fits.length_lines (h : Fits term bar) : term.lines.length = total term bar := by
  rw [Terminal.lines, List.length_map, List.length_append, h.screen, total, h.maximum]

theorem Fits.total_pos (h : Fits term bar) : 0 < total term bar := by
  have hrows := h.rows_pos
  rw [total]
  omega

theorem up_wrap (hr : 0 ≤ r) : up.wrap N r = r := if_neg (not_lt.mpr hr)

theorem down_wrap_next (hrow : row < N) :
    down.wrap N (down.next row) = if row + 1 = N then 0 else (row + 1 : Nat) := by
  simp only [down]
  split_ifs <;> omega

theorem up_wrap_next (hrow : row < N) :
    up.wrap N (up.next row) = if row = 0 then (N - 1 : Nat) else (row - 1 : Nat) := by
  simp only [up]
  split_ifs <;> omega

/-- Down the rows and on from the first one. -/
theorem visited_down (hN : 0 < N) (hr : 0 ≤ r) (i : Nat) :
    visited down N r i = (((if r < N then r.toNat else 0) + i) % N : Nat) := by
  induction i with
  | zero =>
      rw [visited, Nat.add_zero]
      simp only [down]
      by_cases hlt : r < N
      · rw [if_pos hlt, if_neg (by omega), Nat.mod_eq_of_lt (by omega)]
        omega
      · rw [if_neg hlt, if_pos (by omega), Nat.zero_mod]
        rfl
  | succ i ih =>
      rw [visited, ih, ← Nat.add_assoc]
      generalize (if r < N then r.toNat else 0) + i = x
      have hlt := Nat.mod_lt x hN
      have hmod := Nat.mod_add_mod x N 1
      rw [down_wrap_next hlt]
      split_ifs with hlast
      · rw [hlast, Nat.mod_self] at hmod
        rw [← hmod]
      · rw [Nat.mod_eq_of_lt (by omega : x % N + 1 < N)] at hmod
        rw [hmod]

/-- Up the rows and on from the last one. -/
theorem visited_up (hrow : row < N) (hi : i ≤ N) :
    visited up N row i = ((row + N - i) % N : Nat) := by
  have hN : 0 < N := by omega
  induction i with
  | zero =>
      rw [visited, Nat.sub_zero, Nat.add_mod_right, Nat.mod_eq_of_lt hrow]
      exact up_wrap (by omega)
  | succ i ih =>
      rw [visited, ih (by omega), up_wrap_next (Nat.mod_lt _ hN)]
      obtain ⟨x, hx⟩ : ∃ x, row + N - i = x + 1 := ⟨row + N - i - 1, by omega⟩
      have hsucc : row + N - (i + 1) = x := by omega
      have hmod := Nat.mod_add_mod x N 1
      have hlt := Nat.mod_lt x hN
      rw [hx, hsucc]
      by_cases hlast : x % N + 1 = N
      · have hzero : (x + 1) % N = 0 := by rw [← hmod, hlast, Nat.mod_self]
        have hpred : x % N = N - 1 := by omega
        rw [if_pos hzero, hpred]
      · have hpos : (x + 1) % N = x % N + 1 := by rw [← hmod, Nat.mod_eq_of_lt (by omega)]
        rw [if_neg (by omega), hpos, Nat.add_sub_cancel]

/-- Up from behind the last row. -/
theorem visited_up_stale (hi : i ≤ row) : visited up N row i = (row - i : Nat) := by
  induction i with
  | zero => exact up_wrap (by omega)
  | succ i ih =>
      have hpred : up.next ((row - i : Nat) : Int) = (row - (i + 1) : Nat) := by
        simp only [up]
        omega
      rw [visited, ih (by omega), hpred]
      exact up_wrap (by omega)

end Rows

section Start

variable {d : Direction} {foldCase : Nat → Nat} {term : Terminal} {searched : QString}
  {bar : QScrollBar} {f : GuiFindToolBar}

variable (d foldCase term bar f) in
/-- The text of the loop is the searched one, up to case. -/
theorem start_text (hs : searched ≠ []) :
    (start d foldCase term searched bar f).currentSearchedText.map foldCase =
        searched.map foldCase ∧
      (start d foldCase term searched bar f).currentSearchedText ≠ [] := by
  simp only [start]
  by_cases hc : compare foldCase searched f.currentSearchedText = true
  · rw [if_pos hc]
    exact ⟨rfl, hs⟩
  · rw [if_neg hc]
    have heq : searched.map foldCase = f.currentSearchedText.map foldCase := by
      simpa [compare] using hc
    refine ⟨heq.symm, fun hnil => hs ?_⟩
    rw [hnil] at heq
    exact List.map_eq_nil_iff.mp heq

variable (d foldCase term bar f) in
theorem start_length (hs : searched ≠ []) :
    (start d foldCase term searched bar f).currentSearchedText.length = searched.length := by
  simpa using congrArg List.length (start_text d foldCase term bar f hs).1

variable (foldCase searched f) in
theorem start_row (hd : d = up ∨ d = down) (h : Fits term bar) :
    0 ≤ (start d foldCase term searched bar f).currentRow := by
  have hrows := h.rows_pos
  simp only [start]
  by_cases hrow : f.currentRow < 0
  · rw [if_pos hrow]
    rcases hd with rfl | rfl
    · simp only [up]
      omega
    · exact Int.natCast_nonneg _
  · rw [if_neg hrow]
    omega

theorem start_col (hf : -1 ≤ f.currentCol) (hs : searched ≠ []) :
    0 ≤ (start down foldCase term searched bar f).currentCol := by
  have hpos := List.length_pos_of_ne_nil hs
  simp only [start, down]
  by_cases hc : compare foldCase searched f.currentSearchedText = true
  · simp only [hc, true_and]
    split_ifs with hneg
    · exact le_rfl
    · omega
  · simp only [hc]
    have heq : searched.map foldCase = f.currentSearchedText.map foldCase := by
      simpa [compare] using hc
    have hlen := congrArg List.length heq
    rw [List.length_map, List.length_map] at hlen
    omega

/-- The rows that are visited exist. -/
theorem visited_nonneg (hd : d = up ∨ d = down) {N : Nat} (hN : 0 < N) {r : Int} (hr : 0 ≤ r)
    (i : Nat) : 0 ≤ visited d N r i := by
  rcases hd with rfl | rfl
  · have hwrap : ∀ x : Int, 0 ≤ up.wrap N x := by
      intro x
      simp only [up]
      split_ifs <;> omega
    cases i with
    | zero => exact hwrap r
    | succ i => exact hwrap _
  · rw [visited_down hN hr]
    exact Int.natCast_nonneg _

theorem find_nonneg (hd : d = up ∨ d = down) {cols col k : Int} {s t : QString}
    (hk : d.find foldCase cols s t col = some k) : 0 ≤ k := by
  rcases hd with rfl | rfl
  · simp only [up] at hk
    split_ifs at hk with hpos
    exact Option.some.inj hk ▸ hpos.2
  · simp only [down] at hk
    split_ifs at hk with hpos
    exact Option.some.inj hk ▸ hpos.2

/-- The column behind a search is that of a match, or the one before. -/
theorem currentCol_on_find (hd : d = up ∨ d = down) {f' : GuiFindToolBar} {bar' : QScrollBar}
    (hf : -1 ≤ f.currentCol) (hfind : on_find d foldCase term searched bar f = some (f', bar')) :
    -1 ≤ f'.currentCol := by
  by_cases hs : searched = []
  · rw [on_find, if_pos hs, Option.some.injEq, Prod.mk.injEq] at hfind
    exact hfind.1 ▸ hf
  · rw [on_find_eq hs] at hfind
    cases hl : landing d foldCase term searched bar f with
    | none =>
        simp only [hl, Option.some.injEq, Prod.mk.injEq] at hfind
        exact hfind.1 ▸ hf
    | some h =>
        obtain ⟨i, k⟩ := h
        simp only [hl, Option.some.injEq, Prod.mk.injEq] at hfind
        rw [landing] at hl
        have hhit := (firstHit_eq_some_iff.mp hl).2.2.1
        have hk := find_nonneg hd hhit
        rw [← hfind.1]
        exact le_trans (by omega) hk

theorem Reachable.currentCol (hf : Reachable foldCase f) : -1 ≤ f.currentCol := by
  induction hf with
  | init => exact le_rfl
  | on_findUp _ hfind ih => exact currentCol_on_find (.inl rfl) ih hfind
  | on_findDown _ hfind ih => exact currentCol_on_find (.inr rfl) ih hfind
  | keyPress _ ih => exact ih

end Start

section Landing

variable {d : Direction} {foldCase : Nat → Nat} {term : Terminal} {searched : QString}
  {bar : QScrollBar} {f : GuiFindToolBar} {i : Nat} {k : Int}

/-- Where a search lands there is an occurrence. -/
theorem landing_occursAt (hd : d = up ∨ d = down) (h : Fits term bar) (hs : searched ≠ [])
    (hcol : -1 ≤ f.currentCol) (hl : landing d foldCase term searched bar f = some (i, k)) :
    ∃ (row n : Nat) (line : QString),
      visited d (total term bar) (start d foldCase term searched bar f).currentRow i = row ∧
        k = n ∧ term.lines[row]? = some line ∧ OccursAt foldCase line searched n := by
  obtain ⟨htext, hne⟩ := start_text d foldCase term bar f hs
  obtain ⟨row, hrow⟩ := Int.eq_ofNat_of_zero_le
    (visited_nonneg hd h.total_pos (start_row foldCase searched f hd h) i)
  rw [landing] at hl
  have hhit := (firstHit_eq_some_iff.mp hl).2.2.1
  rw [hit, hrow, str_eq hd] at hhit
  have hcol' : d = down → 0 ≤ if i = 0 then (start d foldCase term searched bar f).currentCol
      else d.restart term.cols := by
    rintro rfl
    split_ifs
    · exact start_col hcol hs
    · exact le_rfl
  obtain ⟨n, hn, hocc⟩ := find_occursAt hd _ hcol' hne hhit
  rw [occursAt_congr htext] at hocc
  cases hline : term.lines[row]? with
  | none =>
      have hlt := hocc.lt hs
      simp [hline] at hlt
  | some line =>
      rw [hline] at hocc
      exact ⟨row, n, line, hrow, hn, hline, hocc⟩

variable (foldCase) in
/-- **A search is complete if and only if it lands wherever the text occurs.** -/
theorem on_find_complete_iff (hd : d = up ∨ d = down) (h : Fits term bar) (hs : searched ≠ [])
    (hcol : -1 ≤ f.currentCol) :
    ∃ r, on_find d foldCase term searched bar f = some r ∧
      (Complete foldCase term searched f r.1 ↔
        (Occurs foldCase term searched → landing d foldCase term searched bar f ≠ none)) := by
  rw [on_find_eq hs]
  cases hl : landing d foldCase term searched bar f with
  | none =>
      refine ⟨_, rfl, ?_⟩
      constructor
      · intro hc hocc
        exact absurd (hc.found hocc).1 (by simp)
      · intro himp
        exact ⟨fun hocc => absurd rfl (himp hocc), fun _ => ⟨rfl, rfl, rfl⟩⟩
  | some hit =>
      obtain ⟨i, k⟩ := hit
      obtain ⟨row, n, line, hrow, hn, hline, hocc⟩ := landing_occursAt hd h hs hcol hl
      have hoccurs : Occurs foldCase term searched :=
        ⟨line, List.mem_of_getElem? hline, n, hocc⟩
      refine ⟨_, rfl, iff_of_true ?_ (by simp)⟩
      exact ⟨fun _ => ⟨rfl, row, n, line, hrow, hn, hline, hocc⟩, fun hno => absurd hoccurs hno⟩

/-- Every row is among those that a search down visits after its first one. -/
theorem exists_visited_down {N : Nat} {r : Int} {row : Nat} (hr : 0 ≤ r) (hrow : row < N) :
    ∃ i, 1 ≤ i ∧ i ≤ N ∧ visited down N r i = row := by
  have hN : 0 < N := by omega
  have hs : (if r < N then r.toNat else 0) < N := by
    split_ifs <;> omega
  generalize hstart : (if r < N then r.toNat else 0) = x at hs
  by_cases hlt : x < row
  · refine ⟨row - x, by omega, by omega, ?_⟩
    rw [visited_down hN hr, hstart, Nat.mod_eq_of_lt (by omega)]
    omega
  · refine ⟨row + N - x, by omega, by omega, ?_⟩
    have heq : x + (row + N - x) = row + N := by omega
    rw [visited_down hN hr, hstart, heq, Nat.add_mod_right, Nat.mod_eq_of_lt hrow]

/-- A search down lands wherever the text occurs. -/
theorem landing_down_ne_none (h : Fits term bar) (hs : searched ≠ [])
    (hocc : Occurs foldCase term searched) : landing down foldCase term searched bar f ≠ none := by
  obtain ⟨line, hline, k, hk⟩ := hocc
  obtain ⟨row, hrow⟩ := List.getElem?_of_mem hline
  have hlt : row < total term bar := by
    rw [← h.length_lines]
    exact (List.getElem?_eq_some_iff.mp hrow).1
  obtain ⟨htext, hne⟩ := start_text down foldCase term bar f hs
  obtain ⟨i, hi, hiN, hvisit⟩ := exists_visited_down (start_row foldCase searched f (.inr rfl) h) hlt
  intro hnone
  have hcols := h.cols_pos
  rw [landing] at hnone
  have hmiss := firstHit_eq_none_iff.mp hnone i (by omega) (by omega)
  have hzero : i ≠ 0 := by omega
  rw [hit, hvisit, str_eq (.inr rfl), hrow, if_neg hzero] at hmiss
  change down.find foldCase term.cols line _ 0 = none at hmiss
  rw [down_find _ le_rfl, if_pos (by omega), Option.map_eq_none_iff,
    firstOccurrence_eq_none_iff hne] at hmiss
  exact hmiss k (Nat.zero_le k) ((occursAt_congr htext).mpr hk)

variable (foldCase term searched bar f) in
/-- The row in which a search up starts. -/
def upRow : Int := if f.currentRow < 0 then bar.value + term.rows - 1 else f.currentRow

variable (foldCase term searched f) in
/-- The column from which a search up starts. -/
def upCol : Int :=
  if compare foldCase searched f.currentSearchedText ∧
      f.currentCol - f.currentSearchedText.length < 0 then term.cols - 1
  else f.currentCol - f.currentSearchedText.length

variable (foldCase term searched bar f) in
/-- The text occurs where a search up looks: in a line at most as many rows above the start
as there are rows, seen from the last column of the terminal; or in the line of the start, seen
from the column of the start. -/
def UpReaches : Prop :=
  (∃ (row : Nat) (line : QString), term.lines[row]? = some line ∧
    upRow term bar f ≤ total term bar + row ∧ SeenFrom foldCase line searched (term.cols - 1)) ∨
  ∃ (row : Nat) (line : QString), term.lines[row]? = some line ∧ upRow term bar f = row ∧
    SeenFrom foldCase line searched (upCol foldCase term searched f)

theorem seenFrom_congr {s t t' : QString} {col : Int} (h : t.map foldCase = t'.map foldCase) :
    SeenFrom foldCase s t col ↔ SeenFrom foldCase s t' col := by
  have hlen := congrArg List.length h
  rw [List.length_map, List.length_map] at hlen
  rw [SeenFrom, SeenFrom, hlen]
  simp only [occursAt_congr h]

theorem not_seenFrom_nil {t : QString} {col : Int} (ht : t ≠ []) : ¬ SeenFrom foldCase [] t col := by
  rintro ⟨-, k, -, hocc⟩
  have hlt := hocc.lt ht
  simp at hlt

/-- The rows that a search up visits after its first one. -/
theorem exists_visited_up {N row x : Nat} (hrow : row < N) :
    (∃ i, 1 ≤ i ∧ i ≤ N ∧ visited up N x i = row) ↔ x ≤ N + row := by
  by_cases hx : x < N
  · refine iff_of_true ?_ (by omega)
    by_cases hlt : row < x
    · refine ⟨x - row, by omega, by omega, ?_⟩
      have heq : x + N - (x - row) = row + N := by omega
      rw [visited_up hx (by omega), heq, Nat.add_mod_right, Nat.mod_eq_of_lt hrow]
    · refine ⟨x + N - row, by omega, by omega, ?_⟩
      have heq : x + N - (x + N - row) = row := by omega
      rw [visited_up hx (by omega), heq, Nat.mod_eq_of_lt hrow]
  · constructor
    · rintro ⟨i, -, hiN, hvisit⟩
      rw [visited_up_stale (by omega)] at hvisit
      omega
    · intro hle
      refine ⟨x - row, by omega, by omega, ?_⟩
      rw [visited_up_stale (by omega)]
      omega

/-- Where a search up lands. -/
theorem landing_up_ne_none_iff (h : Fits term bar) (hs : searched ≠ []) :
    landing up foldCase term searched bar f ≠ none ↔
      UpReaches foldCase term searched bar f := by
  obtain ⟨htext, hne⟩ := start_text up foldCase term bar f hs
  have hstart := start_row foldCase searched f (.inl rfl) h
  have hrow₀ : (start up foldCase term searched bar f).currentRow = upRow term bar f := rfl
  have hcol₀ : (start up foldCase term searched bar f).currentCol =
      upCol foldCase term searched f := rfl
  rw [hrow₀] at hstart
  obtain ⟨x, hx⟩ := Int.eq_ofNat_of_zero_le hstart
  -- one step of the search
  have hstep : ∀ i (row : Nat), visited up (total term bar) x i = row →
      (hit up foldCase term (start up foldCase term searched bar f).currentSearchedText
          (total term bar) x (upCol foldCase term searched f) i ≠ none ↔
        ∃ line, term.lines[row]? = some line ∧ SeenFrom foldCase line searched
          (if i = 0 then upCol foldCase term searched f else term.cols - 1)) := by
    intro i row hvisit
    rw [hit, hvisit, str_eq (.inl rfl), up_find_ne_none, seenFrom_congr htext]
    cases hline : term.lines[row]? with
    | none => simpa using not_seenFrom_nil hs
    | some line =>
        simp only [Option.getD_some, Option.some.injEq, exists_eq_left']
        rfl
  have hlanding : landing up foldCase term searched bar f ≠ none ↔
      ∃ i ≤ total term bar, hit up foldCase term
        (start up foldCase term searched bar f).currentSearchedText
        (total term bar) x (upCol foldCase term searched f) i ≠ none := by
    rw [landing, hrow₀, hcol₀, hx, ne_eq, firstHit_eq_none_iff]
    simp only [not_forall, exists_prop, Nat.zero_le, true_and, Nat.zero_add]
    exact exists_congr fun i => and_congr_left' Nat.lt_succ_iff
  rw [hlanding, UpReaches, hx]
  have hzero : visited up (total term bar) x 0 = x := up_wrap (Int.natCast_nonneg x)
  constructor
  · rintro ⟨i, hi, hhit⟩
    obtain ⟨row, hvisit⟩ := Int.eq_ofNat_of_zero_le
      (visited_nonneg (.inl rfl) h.total_pos (Int.natCast_nonneg x) i)
    obtain ⟨line, hline, hseen⟩ := (hstep i row hvisit).mp hhit
    by_cases hi0 : i = 0
    · rw [if_pos hi0] at hseen
      rw [hi0, hzero] at hvisit
      exact .inr ⟨row, line, hline, hvisit, hseen⟩
    · rw [if_neg hi0] at hseen
      have hlt : row < total term bar := by
        rw [← h.length_lines]
        exact (List.getElem?_eq_some_iff.mp hline).1
      have hle := (exists_visited_up hlt).mp ⟨i, by omega, hi, hvisit⟩
      exact .inl ⟨row, line, hline, by omega, hseen⟩
  · rintro (⟨row, line, hline, hle, hseen⟩ | ⟨row, line, hline, hrow, hseen⟩)
    · have hlt : row < total term bar := by
        rw [← h.length_lines]
        exact (List.getElem?_eq_some_iff.mp hline).1
      obtain ⟨i, hi, hiN, hvisit⟩ :=
        (exists_visited_up (x := x) hlt).mpr (by omega)
      have hi0 : i ≠ 0 := by omega
      exact ⟨i, hiN, (hstep i row hvisit).mpr ⟨line, hline, by rwa [if_neg hi0]⟩⟩
    · exact ⟨0, Nat.zero_le _, (hstep 0 row (hzero.trans hrow)).mpr ⟨line, hline, hseen⟩⟩

end Landing

section Results

variable {foldCase : Nat → Nat} {term : Terminal} {searched : QString} {bar : QScrollBar}
  {f : GuiFindToolBar}

/-- **Which searches are complete.** -/
theorem searchComplete_iff (hf : Reachable foldCase f) (h : Fits term bar) (hs : searched ≠ []) :
    (∃ r, on_findDown foldCase term searched bar f = some r ∧
      Complete foldCase term searched f r.1) ∧
    ∃ r, on_findUp foldCase term searched bar f = some r ∧
      (Complete foldCase term searched f r.1 ↔
        (Occurs foldCase term searched → UpReaches foldCase term searched bar f)) := by
  constructor
  · obtain ⟨r, hr, hiff⟩ := on_find_complete_iff foldCase (.inr rfl) h hs hf.currentCol
    exact ⟨r, hr, hiff.mpr (landing_down_ne_none h hs)⟩
  · obtain ⟨r, hr, hiff⟩ := on_find_complete_iff foldCase (.inl rfl) h hs hf.currentCol
    rw [landing_up_ne_none_iff h hs] at hiff
    exact ⟨r, hr, hiff⟩

end Results

section Examples

/-- Case folding of the ASCII letters. -/
def asciiFold (c : Nat) : Nat := if 65 ≤ c ∧ c ≤ 90 then c + 32 else c

/-- A terminal with one row on the screen and four columns; the cells are ASCII. -/
def oneRow (scrollback : List (List Nat)) (screen : List Nat) : Terminal where
  rows := 1
  cols := 4
  scrollback := scrollback
  screen := [screen]
  ucsdata := ⟨id, id, id⟩

/-- The scroll bar at its end. -/
def atEnd (term : Terminal) : QScrollBar := ⟨term.scrollback.length, term.scrollback.length, le_rfl⟩

theorem fits_oneRow (scrollback : List (List Nat)) (screen : List Nat) :
    Fits (oneRow scrollback screen) (atEnd (oneRow scrollback screen)) :=
  ⟨Nat.one_pos, Nat.succ_pos 3, rfl, rfl⟩

/-- A line of dashes. -/
def dashes : List Nat := [45, 45, 45, 45]

/-- A line with the text `AB`. -/
def withText : List Nat := [65, 66, 45, 45]

/-- The text `ab` is found in both directions in a new toolbar. -/
theorem searchComplete_iff_init :
    ∃ r s, on_findDown asciiFold (oneRow [dashes] withText) [97, 98]
        (atEnd (oneRow [dashes] withText)) .init = some r ∧ r.1.currentRow = 1 ∧
      on_findUp asciiFold (oneRow [dashes] withText) [97, 98]
        (atEnd (oneRow [dashes] withText)) .init = some s ∧
      Complete asciiFold (oneRow [dashes] withText) [97, 98] .init s.1 := by
  have hne : ([97, 98] : QString) ≠ [] := by simp
  have hinit : Reachable asciiFold .init := .init
  obtain ⟨⟨r, hr, -⟩, s, hs, hiff⟩ := searchComplete_iff hinit (fits_oneRow [dashes] withText) hne
  refine ⟨r, s, hr, ?_, hs, hiff.mpr fun _ => .inl ⟨1, withText, rfl, ?_, .inl ?_, 0, ?_, ?_⟩⟩
  · obtain rfl := Option.some.inj hr
    rfl
  all_goals decide

/-- After a match in the fourth line the scrollback is cleared; the search up misses the text
on the screen then.  A new toolbar misses it in a line that is left from two columns. -/
theorem not_searchComplete_stale :
    (∃ f, Reachable asciiFold f ∧ f.currentRow = 3 ∧
      ∃ r, on_findUp asciiFold (oneRow [] withText) [97, 98] (atEnd (oneRow [] withText)) f =
          some r ∧ ¬ Complete asciiFold (oneRow [] withText) [97, 98] f r.1) ∧
    ∃ r, on_findUp asciiFold (oneRow [[65, 66]] dashes) [97, 98]
          (atEnd (oneRow [[65, 66]] dashes)) .init = some r ∧
        ¬ Complete asciiFold (oneRow [[65, 66]] dashes) [97, 98] .init r.1 := by
  have hcleared : Occurs asciiFold (oneRow [] withText) [97, 98] :=
    ⟨withText, List.mem_singleton_self _, 0, by decide⟩
  have hnarrow : Occurs asciiFold (oneRow [[65, 66]] dashes) [97, 98] :=
    ⟨[65, 66], List.mem_cons_self, 0, by decide⟩
  have hfound : on_findDown asciiFold (oneRow [dashes, dashes, dashes] withText) [97, 98]
      (atEnd (oneRow [dashes, dashes, dashes] withText)) .init =
      some (⟨true, 3, 0, 3, [65, 66]⟩, ⟨3, 3, le_rfl⟩) := rfl
  have hreach : Reachable asciiFold ⟨true, 3, 0, 3, [65, 66]⟩ := .on_findDown .init hfound
  refine ⟨⟨_, hreach, rfl, _, rfl, fun hc => ?_⟩, _, rfl, fun hc => ?_⟩
  · exact absurd (hc.found hcleared).1 (by decide)
  · exact absurd (hc.found hnarrow).1 (by decide)

end Examples

end Find
end Qutty
