import Qutty.Find.Completeness

/-!
# Whether the text that was found is on the screen

A search that has found the text scrolls in one of two ways.  If the scroll bar has been moved
since the last search, it goes back to where that search has left it, wherever the text is.
Otherwise it goes to the row of the text, if that row is not shown; `on_findUp` takes the first
row below the screen for a row that is shown (`visible_iff`).
-/

namespace Qutty
namespace Find

open Lib

/-- The row of the toolbar is among the rows that are shown. -/
def OnScreen (term : Terminal) (r : GuiFindToolBar × QScrollBar) : Prop :=
  (r.2.value : Int) ≤ r.1.currentRow ∧ r.1.currentRow < r.2.value + term.rows

/-- A row is shown while the scroll bar is at the value. -/
def ShownAt (term : Terminal) (value row : Nat) : Prop := value ≤ row ∧ row < value + term.rows

/-- The first row with a match among `rows 0`, …, `rows n`. -/
def FirstMatch (rows : Nat → Nat) (Match : Nat → Prop) (n row : Nat) : Prop :=
  ∃ i ≤ n, rows i = row ∧ Match i ∧ ∀ j < i, ¬ Match j

theorem FirstMatch.unique {rows : Nat → Nat} {Match : Nat → Prop} {n r₁ r₂ : Nat}
    (h₁ : FirstMatch rows Match n r₁) (h₂ : FirstMatch rows Match n r₂) : r₁ = r₂ := by
  obtain ⟨i, -, rfl, hi, hbefore⟩ := h₁
  obtain ⟨j, -, rfl, hj, hbefore'⟩ := h₂
  obtain hij | rfl | hij := lt_trichotomy i j
  · exact absurd hi (hbefore' i hij)
  · rfl
  · exact absurd hj (hbefore j hij)

section Rows

variable (foldCase : Nat → Nat) (term : Terminal) (searched : QString) (bar : QScrollBar)
  (f : GuiFindToolBar)

/-- The page at the start of a search: where the last search has left the scroll bar, or where
it is if the text is another one. -/
def pageStart : Int :=
  if compare foldCase searched f.currentSearchedText then bar.value else f.pageStartPosition

/-- The line of the buffer in a row. -/
def lineAt (row : Nat) : QString := (term.lines[row]?).getD []

/-- The row in which a search down starts. -/
def downRow : Nat := if f.currentRow < 0 then bar.value else f.currentRow.toNat

/-- The column from which a search down starts. -/
def downCol : Int :=
  let col := f.currentCol + f.currentSearchedText.length
  if compare foldCase searched f.currentSearchedText ∧ col < 0 then 0 else col

/-- The rows in the order of a search down. -/
def rowsDown (i : Nat) : Nat :=
  ((if downRow bar f < total term bar then downRow bar f else 0) + i) % total term bar

/-- The rows in the order of a search up. -/
def rowsUp (i : Nat) : Nat :=
  let row := (upRow term bar f).toNat
  if i ≤ row then row - i else row + total term bar - i

/-- The text occurs in the `i`-th row of a search down, in the first row only behind the column
of the start. -/
def MatchDown (i : Nat) : Prop :=
  let col := if i = 0 then downCol foldCase searched f else 0
  col < term.cols ∧ ∃ k : Nat, col ≤ k ∧
    OccursAt foldCase (lineAt term (rowsDown term bar f i)) searched k

/-- The text occurs in the `i`-th row of a search up, where such a search looks. -/
def MatchUp (i : Nat) : Prop :=
  SeenFrom foldCase (lineAt term (rowsUp term bar f i)) searched
    (if i = 0 then upCol foldCase term searched f else term.cols - 1)

/-- The next row with the text, downwards. -/
def NextDown : Nat → Prop :=
  FirstMatch (rowsDown term bar f) (MatchDown foldCase term searched bar f) (total term bar)

/-- The next row with the text, upwards. -/
def NextUp : Nat → Prop :=
  FirstMatch (rowsUp term bar f) (MatchUp foldCase term searched bar f) (total term bar)

end Rows

variable {d : Direction} {foldCase : Nat → Nat} {term : Terminal} {searched : QString}
  {bar : QScrollBar} {f : GuiFindToolBar}

section Steps

variable {i : Nat}

theorem visited_rowsDown (hrows : 0 < term.rows) (i : Nat) :
    visited down (total term bar) (start down foldCase term searched bar f).currentRow i =
      rowsDown term bar f i := by
  have hN : 0 < total term bar := by
    rw [total]
    omega
  have hstart : (start down foldCase term searched bar f).currentRow = downRow bar f := by
    simp only [start, downRow, down]
    split_ifs <;> omega
  rw [hstart, visited_down hN (Int.natCast_nonneg _), rowsDown, Int.toNat_natCast]
  simp only [Nat.cast_lt]

theorem visited_rowsUp (hrows : 0 < term.rows) (hi : i ≤ total term bar) :
    visited up (total term bar) (start up foldCase term searched bar f).currentRow i =
      rowsUp term bar f i := by
  have hstart : (start up foldCase term searched bar f).currentRow =
      ((upRow term bar f).toNat : Nat) := by
    simp only [start, upRow, up]
    split_ifs <;> omega
  rw [hstart, rowsUp]
  generalize (upRow term bar f).toNat = row
  by_cases hrow : row < total term bar
  · rw [visited_up hrow hi]
    split_ifs with hle
    · have hsum : row + total term bar - i = row - i + total term bar := by omega
      rw [hsum, Nat.add_mod_right, Nat.mod_eq_of_lt (by omega)]
    · rw [Nat.mod_eq_of_lt (by omega)]
  · rw [visited_up_stale (by omega), if_pos (by omega)]

theorem hit_down_ne_none (hrows : 0 < term.rows) (hf : -1 ≤ f.currentCol) (hs : searched ≠ []) :
    hit down foldCase term (start down foldCase term searched bar f).currentSearchedText
        (total term bar) (start down foldCase term searched bar f).currentRow
        (start down foldCase term searched bar f).currentCol i ≠ none ↔
      MatchDown foldCase term searched bar f i := by
  obtain ⟨htext, hne⟩ := start_text down foldCase term bar f hs
  have hcol : (if i = 0 then (start down foldCase term searched bar f).currentCol
      else down.restart term.cols) = if i = 0 then downCol foldCase searched f else 0 := rfl
  have hstart : 0 ≤ (start down foldCase term searched bar f).currentCol := start_col hf hs
  have hnonneg : 0 ≤ if i = 0 then downCol foldCase searched f else 0 := by
    split_ifs
    · exact hstart
    · exact le_rfl
  rw [hit, visited_rowsDown hrows, str_eq (.inr rfl), hcol, MatchDown, lineAt]
  generalize (if i = 0 then downCol foldCase searched f else 0) = col at hnonneg
  rw [down_find _ hnonneg]
  split_ifs with hlt
  · rw [ne_eq, Option.map_eq_none_iff, firstOccurrence_eq_none_iff hne]
    simp only [not_forall, not_not, hlt, true_and, occursAt_congr htext, exists_prop]
    exact exists_congr fun k => and_congr_left' (by omega)
  · exact iff_of_false (by simp) fun h => hlt h.1

theorem hit_up_ne_none (hrows : 0 < term.rows) (hs : searched ≠ []) (hi : i ≤ total term bar) :
    hit up foldCase term (start up foldCase term searched bar f).currentSearchedText
        (total term bar) (start up foldCase term searched bar f).currentRow
        (start up foldCase term searched bar f).currentCol i ≠ none ↔
      MatchUp foldCase term searched bar f i := by
  obtain ⟨htext, -⟩ := start_text up foldCase term bar f hs
  rw [hit, visited_rowsUp hrows hi, str_eq (.inl rfl), up_find_ne_none, seenFrom_congr htext]
  rfl

end Steps

section Scrolled

variable {row : Nat}

theorem value_setValue (bar : QScrollBar) (x : Int) :
    (bar.setValue x).value = min x.toNat bar.maximum := rfl

theorem shownAt_down (hrows : 0 < term.rows) (hrow : row < total term bar) :
    ShownAt term (scrolled down term (start down foldCase term searched bar f) bar row).value row ↔
      (pageStart foldCase searched bar f = bar.value ∨
        ShownAt term (bar.setValue (pageStart foldCase searched bar f)).value row) := by
  have hle := bar.le
  have hpage : (start down foldCase term searched bar f).pageStartPosition =
      pageStart foldCase searched bar f := rfl
  rw [total] at hrow
  rw [scrolled_eq, hpage]
  by_cases hp : pageStart foldCase searched bar f = bar.value
  · rw [if_neg (not_not.mpr hp)]
    refine iff_of_true ?_ (.inl hp)
    simp only [down, decide_eq_true_eq, ShownAt]
    split_ifs with hoff
    · rw [value_setValue, Int.toNat_natCast]
      omega
    · omega
  · rw [if_pos hp, or_iff_right hp]

theorem shownAt_up (hrows : 0 < term.rows) :
    ShownAt term (scrolled up term (start up foldCase term searched bar f) bar row).value row ↔
      if pageStart foldCase searched bar f = bar.value then
        row ≠ bar.value + term.rows ∧ row < total term bar
      else ShownAt term (bar.setValue (pageStart foldCase searched bar f)).value row := by
  have hle := bar.le
  have hpage : (start up foldCase term searched bar f).pageStartPosition =
      pageStart foldCase searched bar f := rfl
  rw [scrolled_eq, hpage, total]
  by_cases hp : pageStart foldCase searched bar f = bar.value
  · rw [if_neg (not_not.mpr hp), if_pos hp]
    simp only [up, decide_eq_true_eq, ShownAt]
    split_ifs with hoff
    · rw [value_setValue, Int.toNat_natCast]
      omega
    · omega
  · rw [if_pos hp, if_neg hp]

end Scrolled

section Results

/-- A search that lands ends with its first match shown or not. -/
theorem onScreen_iff {rows : Nat → Nat} {Match : Nat → Prop} (hs : searched ≠ [])
    (hrow : ∀ i ≤ total term bar, visited d (total term bar)
      (start d foldCase term searched bar f).currentRow i = rows i)
    (hmatch : ∀ i ≤ total term bar, hit d foldCase term
        (start d foldCase term searched bar f).currentSearchedText (total term bar)
        (start d foldCase term searched bar f).currentRow
        (start d foldCase term searched bar f).currentCol i ≠ none ↔ Match i) :
    ∃ r, on_find d foldCase term searched bar f = some r ∧
      ((r.1.findTextFlag = true → OnScreen term r) ↔
        ∀ row, FirstMatch rows Match (total term bar) row → ShownAt term
          (scrolled d term (start d foldCase term searched bar f) bar row).value row) := by
  rw [on_find_eq hs]
  cases hl : landing d foldCase term searched bar f with
  | none =>
      refine ⟨_, rfl, iff_of_true (by simp) ?_⟩
      rintro row ⟨i, hi, -, hmi, -⟩
      rw [landing] at hl
      exact absurd (firstHit_eq_none_iff.mp hl i (Nat.zero_le i) (by omega)) ((hmatch i hi).mpr hmi)
  | some h =>
      obtain ⟨i, k⟩ := h
      rw [landing] at hl
      obtain ⟨-, hi, hhit, hmiss⟩ := firstHit_eq_some_iff.mp hl
      have hfirst : FirstMatch rows Match (total term bar) (rows i) := by
        refine ⟨i, by omega, rfl, (hmatch i (by omega)).mp (by rw [hhit]; simp), fun j hj hm => ?_⟩
        exact (hmatch j (by omega)).mpr hm (hmiss j (Nat.zero_le j) hj)
      refine ⟨_, rfl, ?_⟩
      simp only
      rw [hrow i (by omega)]
      constructor
      · intro h row hmrow
        rw [hmrow.unique hfirst]
        obtain ⟨hle, hlt⟩ := h rfl
        simp only [landed] at hle hlt
        exact ⟨by omega, by omega⟩
      · intro h _
        obtain ⟨hle, hlt⟩ := h _ hfirst
        simp only [OnScreen, landed]
        exact ⟨by omega, by omega⟩

variable (term bar) in
/-- **When a text that was found is on the screen.** -/
theorem visible_iff (hf : Reachable foldCase f) (hrows : 0 < term.rows) (hs : searched ≠ []) :
    (∃ r, on_findDown foldCase term searched bar f = some r ∧
      ((r.1.findTextFlag = true → OnScreen term r) ↔
        ∀ row, NextDown foldCase term searched bar f row →
          pageStart foldCase searched bar f = bar.value ∨
            ShownAt term (bar.setValue (pageStart foldCase searched bar f)).value row)) ∧
    ∃ r, on_findUp foldCase term searched bar f = some r ∧
      ((r.1.findTextFlag = true → OnScreen term r) ↔
        ∀ row, NextUp foldCase term searched bar f row →
          if pageStart foldCase searched bar f = bar.value then
            row ≠ bar.value + term.rows ∧ row < total term bar
          else ShownAt term (bar.setValue (pageStart foldCase searched bar f)).value row) := by
  constructor
  · obtain ⟨r, hr, hiff⟩ := onScreen_iff hs (fun i _ => visited_rowsDown hrows i)
      (fun i _ => hit_down_ne_none hrows hf.currentCol hs)
    refine ⟨r, hr, hiff.trans (forall₂_congr fun row hrow => shownAt_down hrows ?_)⟩
    obtain ⟨i, -, rfl, -⟩ := hrow
    refine Nat.mod_lt _ ?_
    rw [total]
    omega
  · obtain ⟨r, hr, hiff⟩ := onScreen_iff hs (fun i hi => visited_rowsUp hrows hi)
      (fun i hi => hit_up_ne_none hrows hs hi)
    exact ⟨r, hr, hiff.trans (forall₂_congr fun row _ => shownAt_up hrows)⟩

end Results

section Examples

/-- In a new toolbar a search down ends with its text shown. -/
theorem visible_iff_init :
    ∃ r, on_findDown asciiFold (oneRow [dashes] withText) [97, 98]
        (atEnd (oneRow [dashes] withText)) .init = some r ∧
      r.1.findTextFlag = true ∧ OnScreen (oneRow [dashes] withText) r := by
  have hinit : Reachable asciiFold .init := .init
  have hne : ([97, 98] : QString) ≠ [] := by simp
  obtain ⟨⟨r, hr, hiff⟩, -⟩ := visible_iff (oneRow [dashes] withText)
    (atEnd (oneRow [dashes] withText)) hinit Nat.one_pos hne
  have hflag : r.1.findTextFlag = true := by
    obtain rfl := Option.some.inj hr
    rfl
  exact ⟨r, hr, hflag, hiff.mpr (fun _ _ => .inl rfl) hflag⟩

/-- The text `ab` is found in the last row, and the user scrolls to the first row.  Then the
search up for `b` finds it in the last row and does not scroll; the search down for `ab` finds
it in the first row and scrolls to the last one. -/
theorem not_visible_scrolled :
    (∃ f bar r, Reachable asciiFold f ∧
      on_findUp asciiFold (oneRow [dashes] withText) [98] bar f = some r ∧
        r.1.findTextFlag = true ∧ ¬ OnScreen (oneRow [dashes] withText) r) ∧
    ∃ f bar r, Reachable asciiFold f ∧
      on_findDown asciiFold (oneRow [withText] withText) [97, 98] bar f = some r ∧
        r.1.findTextFlag = true ∧ ¬ OnScreen (oneRow [withText] withText) r := by
  have hfound : on_findDown asciiFold (oneRow [dashes] withText) [97, 98]
      (atEnd (oneRow [dashes] withText)) .init =
      some (⟨true, 1, 0, 1, [65, 66]⟩, ⟨1, 1, le_rfl⟩) := rfl
  have hreach : Reachable asciiFold ⟨true, 1, 0, 1, [65, 66]⟩ := .on_findDown .init hfound
  refine ⟨⟨_, ⟨0, 1, Nat.zero_le 1⟩, _, hreach, rfl, rfl, fun h => ?_⟩,
    _, ⟨0, 1, Nat.zero_le 1⟩, _, hreach, rfl, rfl, fun h => ?_⟩
  · exact absurd h.2 (by decide)
  · exact absurd h.1 (by decide)

end Examples

end Find
end Qutty
