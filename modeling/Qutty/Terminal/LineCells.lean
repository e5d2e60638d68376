import Qutty.Terminal.Line

/-!
# The cells that a line stands for

A line stands for a row of cells, each with a list of combining characters.  The lists of the
columns and the free list share the pool (`Pool`): every cell of it is in exactly one of them.
Every operation on a line keeps this and does to the cells what it is there for
(`Holds`), in whatever order the operations come (`run_holds`).
-/

namespace Qutty
namespace Terminal

open Lib Lib.Chains

/-- A character cell. -/
@[ext] structure Cell where
  chr : UInt32
  attr : UInt32
  truecolour : Truecolour
  ccs : List UInt32
  /-- `CC_LIMIT` -/
  few : ccs.length ≤ ccLimit
  /-- U+FFFD has no combining characters. -/
  plain : chr = 0xFFFD → ccs = []
deriving DecidableEq

namespace Cell

/-- A cell without combining characters. -/
def base (c : Termchar) : Cell := ⟨c.chr, c.attr, c.truecolour, [], by simp, fun _ => rfl⟩

/-- A cell gives up its combining characters. -/
def clear (c : Cell) : Cell := ⟨c.chr, c.attr, c.truecolour, [], by simp, fun _ => rfl⟩

/-- A combining character is added; where there are too many, the cell is given up. -/
def add (c : Cell) (chr : UInt32) : Cell :=
  if hplain : c.chr = 0xFFFD then c
  else if hfew : c.ccs.length < ccLimit then
    ⟨c.chr, c.attr, c.truecolour, c.ccs ++ [chr], by simpa using hfew, fun h => absurd h hplain⟩
  else ⟨0xFFFD, c.attr, c.truecolour, [], by simp, fun _ => rfl⟩

/-- Combining characters that fit. -/
theorem foldl_add (chrs : List UInt32) (cell : Cell) (hchr : cell.chr ≠ 0xFFFD)
    (hfew : cell.ccs.length + chrs.length ≤ ccLimit) :
    (chrs.foldl Cell.add cell).chr = cell.chr ∧ (chrs.foldl Cell.add cell).attr = cell.attr ∧
      (chrs.foldl Cell.add cell).truecolour = cell.truecolour ∧
      (chrs.foldl Cell.add cell).ccs = cell.ccs ++ chrs := by
  induction chrs generalizing cell with
  | nil => simp
  | cons chr chrs ih =>
      rw [List.length_cons] at hfew
      have hlt : cell.ccs.length < ccLimit := by omega
      have hadd : cell.add chr = ⟨cell.chr, cell.attr, cell.truecolour, cell.ccs ++ [chr],
          by simpa using hlt, fun h => absurd h hchr⟩ := by
        simp only [Cell.add, hchr, ↓reduceDIte, hlt]
      rw [List.foldl_cons, hadd]
      obtain ⟨h₁, h₂, h₃, h₄⟩ := ih ⟨cell.chr, cell.attr, cell.truecolour, cell.ccs ++ [chr],
        by simpa using hlt, fun h => absurd h hchr⟩ hchr (by simp; omega)
      exact ⟨h₁, h₂, h₃, by simpa using h₄⟩

/-- A cell is built up from its combining characters. -/
theorem rebuild (cell : Cell) : cell.ccs.foldl Cell.add cell.clear = cell := by
  by_cases hchr : cell.chr = 0xFFFD
  · have hnone := cell.plain hchr
    exact Cell.ext (by simp [hnone, Cell.clear]) (by simp [hnone, Cell.clear])
      (by simp [hnone, Cell.clear]) (by simp [hnone, Cell.clear])
  · obtain ⟨h₁, h₂, h₃, h₄⟩ := foldl_add cell.ccs cell.clear hchr
      (by simpa [Cell.clear] using cell.few)
    exact Cell.ext h₁ h₂ h₃ h₄

end Cell

namespace Termline

/-- The lists of the columns and the free list share the pool. -/
structure Pool (line : Termline) (lists : Nat → List Nat) (free : List Nat) : Prop where
  pos : 0 < line.cols
  le : line.cols ≤ line.size
  columns : ∀ c < line.cols, Links line.next (line.next c) (lists c)
  unused : Links line.next line.freeHead free
  perm : ((List.range line.cols).flatMap lists ++ free).Perm
    (List.range' line.cols (line.size - line.cols))

section Sharing

variable {line : Termline} {lists : Nat → List Nat} {free : List Nat} {c c' i : Nat}

theorem Pool.nodup (h : Pool line lists free) :
    ((List.range line.cols).flatMap lists ++ free).Nodup :=
  h.perm.nodup_iff.mpr (List.nodup_range' ..)

theorem Pool.mem_flatMap (hc : c < line.cols) (hi : i ∈ lists c) :
    i ∈ (List.range line.cols).flatMap lists :=
  List.mem_flatMap.mpr ⟨c, List.mem_range.mpr hc, hi⟩

theorem Pool.mem_range (h : Pool line lists free)
    (hi : i ∈ (List.range line.cols).flatMap lists ++ free) : line.cols ≤ i ∧ i < line.size := by
  have hmem := h.perm.mem_iff.mp hi
  rw [List.mem_range'_1] at hmem
  have hsize := h.le
  omega

theorem Pool.cell_range (h : Pool line lists free) (hc : c < line.cols) (hi : i ∈ lists c) :
    line.cols ≤ i ∧ i < line.size :=
  h.mem_range (List.mem_append_left _ (Pool.mem_flatMap hc hi))

theorem Pool.free_range (h : Pool line lists free) (hi : i ∈ free) :
    line.cols ≤ i ∧ i < line.size :=
  h.mem_range (List.mem_append_right _ hi)

theorem Pool.cell_not_free (h : Pool line lists free) (hc : c < line.cols) (hi : i ∈ lists c) :
    i ∉ free :=
  fun hfree => (List.nodup_append.mp h.nodup).2.2 i (Pool.mem_flatMap hc hi) i hfree rfl

theorem Pool.free_nodup (h : Pool line lists free) : free.Nodup := (List.nodup_append.mp h.nodup).2.1

theorem Pool.cell_nodup (h : Pool line lists free) (hc : c < line.cols) : (lists c).Nodup := by
  have hflat := (List.nodup_append.mp h.nodup).1
  exact (List.nodup_flatMap.mp hflat).1 c (List.mem_range.mpr hc)

theorem Pool.disjoint (h : Pool line lists free) (hc : c < line.cols) (hc' : c' < line.cols)
    (hne : c ≠ c') (hi : i ∈ lists c) : i ∉ lists c' := by
  have hflat := (List.nodup_flatMap.mp (List.nodup_append.mp h.nodup).1).2
  have hpair : ∀ a < line.cols, ∀ b < line.cols, a < b → (lists a).Disjoint (lists b) := by
    intro a ha b hb hab
    have hget := List.pairwise_iff_getElem.mp hflat a b (by simpa using ha) (by simpa using hb) hab
    simpa using hget
  rcases Nat.lt_or_gt_of_ne hne with hlt | hlt
  · exact hpair c hc c' hc' hlt hi
  · exact fun hi' => hpair c' hc' c hc hlt hi' hi

theorem Pool.length (h : Pool line lists free) (hc : c < line.cols) :
    (lists c).length ≤ line.size := by
  have hall := h.perm.length_eq
  rw [List.length_append, List.length_range'] at hall
  have hpart : (lists c).length ≤ ((List.range line.cols).flatMap lists).length :=
    (h.cell_nodup hc).subperm (fun i hi => Pool.mem_flatMap hc hi) |>.length_le
  omega

end Sharing

section Links

variable {line : Termline} {lists : Nat → List Nat} {free : List Nat} {c i j : Nat}

theorem next_setCell (i : Nat) (ch : Termchar) :
    (line.setCell i ch).next =
      Function.update line.next i
        (if ch.ccNext = 0 then none else some ((i : Int) + ch.ccNext).toNat) := by
  funext j
  by_cases hj : j = i
  · subst hj
    simp [next, setCell]
  · simp [next, setCell, hj]

theorem next_setChr (i : Nat) (chr : UInt32) : (line.setChr i chr).next = line.next := by
  rw [setChr, next_setCell]
  exact Function.update_eq_self i line.next

/-- A link is cut. -/
theorem next_setCcNext_zero (i : Nat) :
    (line.setCcNext i 0).next = Function.update line.next i none := by
  rw [setCcNext, next_setCell]
  rfl

/-- A link to another cell. -/
theorem next_setCcNext {i j : Nat} (hij : i ≠ j) :
    (line.setCcNext i ((j : Int) - i)).next = Function.update line.next i (some j) := by
  have hne : (j : Int) - i ≠ 0 := by omega
  have hto : ((i : Int) + ((j : Int) - i)).toNat = j := by omega
  rw [setCcNext, next_setCell, if_neg hne, hto]

/-- The link of a cell, as a distance. -/
theorem next_eq_none : line.next i = none ↔ (line.chars i).ccNext = 0 := by
  simp [next]

theorem toNat_of_next (h : line.next i = some j) :
    (line.chars i).ccNext ≠ 0 ∧ ((i : Int) + (line.chars i).ccNext).toNat = j := by
  simp only [next] at h
  split_ifs at h with hzero
  exact ⟨hzero, Option.some.inj h⟩

/-- Everything but the links. -/
structure SameText (line line' : Termline) : Prop where
  cols : line'.cols = line.cols
  size : line'.size = line.size
  lattr : line'.lattr = line.lattr
  trusted : line'.trusted = line.trusted
  chr : ∀ i, (line'.chars i).chr = (line.chars i).chr
  attr : ∀ i, (line'.chars i).attr = (line.chars i).attr
  truecolour : ∀ i, (line'.chars i).truecolour = (line.chars i).truecolour

theorem sameText_setCcNext (i : Nat) (d : Int) : SameText line (line.setCcNext i d) := by
  refine ⟨rfl, rfl, rfl, rfl, fun j => ?_, fun j => ?_, fun j => ?_⟩
  all_goals
    by_cases hj : j = i
    · subst hj
      simp [setCcNext, setCell]
    · simp [setCcNext, setCell, hj]

theorem SameText.refl (line : Termline) : SameText line line :=
  ⟨rfl, rfl, rfl, rfl, fun _ => rfl, fun _ => rfl, fun _ => rfl⟩

theorem SameText.trans {line₁ line₂ line₃ : Termline} (h : SameText line₁ line₂)
    (h' : SameText line₂ line₃) : SameText line₁ line₃ :=
  ⟨h'.cols.trans h.cols, h'.size.trans h.size, h'.lattr.trans h.lattr,
    h'.trusted.trans h.trusted, fun i => (h'.chr i).trans (h.chr i),
    fun i => (h'.attr i).trans (h.attr i), fun i => (h'.truecolour i).trans (h.truecolour i)⟩

end Links

section Clearing

variable {line : Termline} {lists : Nat → List Nat} {free : List Nat} {c : Nat}

/-- The head of the free list is not one of the cells in use. -/
theorem Pool.free_ne (h : Pool line lists free) (hc : c < line.cols) {z : Nat}
    (hz : z ∈ lists c) (hfree : line.ccFree ≠ 0) : z ≠ line.ccFree := by
  rintro rfl
  have hhead : line.freeHead = some line.ccFree := if_neg hfree
  have hunused := h.unused
  rw [hhead] at hunused
  cases free with
  | nil => exact absurd hunused (by simp [Links])
  | cons f rest =>
      obtain rfl := Option.some.inj hunused.1
      exact h.cell_not_free hc hz (by simp)

/-- `clear_cc`, where there is something to clear. -/
theorem Pool.clearCc_next (h : Pool line lists free) (hc : c < line.cols) {m : List Nat} {z : Nat}
    (hlist : lists c = m ++ [z]) :
    (line.clearCc c).next =
        Function.update (Function.update line.next z line.freeHead) c none ∧
      (line.clearCc c).freeHead = line.next c ∧ SameText line (line.clearCc c) := by
  have hlinks := h.columns c hc
  have hz : z ∈ lists c := by simp [hlist]
  have hne : lists c ≠ [] := by simp [hlist]
  have hsome : line.next c ≠ none := fun hnone => hne (hlinks.nil_iff.mpr hnone)
  obtain ⟨a, ha⟩ := Option.ne_none_iff_exists'.mp hsome
  obtain ⟨hzero, hto⟩ := toNat_of_next ha
  have hlast : lastNode line.next line.size c = z := by
    rw [hlinks.lastNode (h.length hc), List.getLast_cons hne]
    simp [hlist]
  have hrange : line.cols ≤ a := by
    cases hl : lists c with
    | nil => exact absurd hl hne
    | cons b l =>
        rw [hl, ha] at hlinks
        obtain rfl := Option.some.inj hlinks.1
        exact (h.cell_range hc (by simp [hl])).1
  have hpos := h.pos
  simp only [clearCc, hzero, ↓reduceIte, hlast]
  refine ⟨?_, ?_, ?_⟩
  · rw [next_setCcNext_zero]
    congr 1
    by_cases hfree : line.ccFree = 0
    · simp only [hfree, ↓reduceIte, freeHead]
      exact next_setCcNext_zero z
    · simp only [hfree, ↓reduceIte, freeHead]
      exact next_setCcNext (h.free_ne hc hz hfree)
  · have ha' : a ≠ 0 := by omega
    rw [ha, ← hto]
    rw [← hto] at ha'
    exact if_neg ha'
  · refine SameText.trans (SameText.trans ?_ (sameText_setCcNext z _)) (sameText_setCcNext c 0)
    exact ⟨rfl, rfl, rfl, rfl, fun _ => rfl, fun _ => rfl, fun _ => rfl⟩

/-- **`clear_cc`**: the list of a column goes to the front of the free list. -/
theorem Pool.clearCc (h : Pool line lists free) (hc : c < line.cols) :
    Pool (line.clearCc c) (Function.update lists c []) (lists c ++ free) ∧
      SameText line (line.clearCc c) := by
  rcases List.eq_nil_or_concat (lists c) with hnil | ⟨m, z, hlist⟩
  · have hnone : line.next c = none := (h.columns c hc).nil_iff.mp hnil
    have hsame : line.clearCc c = line := by
      simp only [Termline.clearCc, next_eq_none.mp hnone, ↓reduceIte]
    rw [hsame, hnil, ← hnil, Function.update_eq_self, hnil]
    exact ⟨h, .refl line⟩
  · rw [List.concat_eq_append] at hlist
    obtain ⟨hnext, hhead, htext⟩ := h.clearCc_next hc hlist
    have hz : z ∈ lists c := by simp [hlist]
    have hzrange := h.cell_range hc hz
    have hnodup := h.cell_nodup hc
    rw [hlist] at hnodup
    have hzm : z ∉ m := fun hmem => (List.nodup_append.mp hnodup).2.2 z hmem z (by simp) rfl
    have hkept : ∀ x, x ≠ z → x ≠ c → (line.clearCc c).next x = line.next x := by
      intro x hxz hxc
      rw [hnext, Function.update_of_ne hxc, Function.update_of_ne hxz]
    have hlastnext : (line.clearCc c).next z = line.freeHead := by
      rw [hnext, Function.update_of_ne (by omega), Function.update_self]
    refine ⟨⟨htext.cols ▸ h.pos, ?_, ?_, ?_, ?_⟩, htext⟩
    · rw [htext.cols, htext.size]
      exact h.le
    · intro c' hc'
      rw [htext.cols] at hc'
      by_cases hcc : c' = c
      · subst hcc
        rw [Function.update_self, hnext, Function.update_self]
        exact rfl
      · rw [Function.update_of_ne hcc, hkept c' (by omega) hcc]
        refine (h.columns c' hc').congr fun x hx => hkept x ?_ ?_
        · rintro rfl
          exact h.disjoint hc' hc hcc hx hz
        · have hrange := h.cell_range hc' hx
          omega
    · have hlinks := h.columns c hc
      rw [hhead, hlist, List.append_assoc]
      rw [hlist] at hlinks
      refine hlinks.append (fun x hx => hkept x ?_ ?_) hlastnext ?_
      · rintro rfl
        exact hzm hx
      · have hrange := h.cell_range hc (i := x) (by simp [hlist, hx])
        omega
      · refine h.unused.congr fun x hx => hkept x ?_ ?_
        · rintro rfl
          exact h.cell_not_free hc hz hx
        · have hrange := h.free_range hx
          omega
    · have hperm := flatMap_update_perm (List.mem_range.mpr hc) List.nodup_range lists []
      rw [List.append_nil] at hperm
      rw [htext.cols, htext.size, ← List.append_assoc]
      exact (hperm.append_right free).trans h.perm

end Clearing

section Adding

variable {line : Termline} {lists : Nat → List Nat} {free : List Nat} {c : Nat}

theorem lt_safegrowarray (size eltsize : Nat) : size < safegrowarray size eltsize size 1 := by
  simp only [safegrowarray]
  split_ifs <;> omega

/-- A run of cells, each linked to the next one. -/
theorem links_range' (next : Nat → Option Nat) (start n : Nat)
    (hnext : ∀ i, start ≤ i → i < start + n → next i = if i + 1 < start + n then some (i + 1) else none) :
    Links next (if n = 0 then none else some start) (List.range' start n) := by
  induction n generalizing start with
  | zero => exact rfl
  | succ n ih =>
      rw [List.range'_succ]
      refine ⟨rfl, ?_⟩
      have htail := ih (start + 1) fun i hi hi' => by
        rw [hnext i (by omega) (by omega)]
        simp only [show start + 1 + n = start + (n + 1) by omega]
      rw [hnext start le_rfl (by omega)]
      cases n with
      | zero => exact if_neg (by omega)
      | succ n =>
          rw [if_pos (by omega)]
          simpa using htail

/-- The array is extended where the free list is empty. -/
theorem Pool.extend (h : Pool line lists free) (hfree : line.ccFree = 0) :
    ∃ f rest, Pool line.extend lists (f :: rest) ∧ line.extend.cols = line.cols ∧
      line.extend.lattr = line.lattr ∧ line.extend.trusted = line.trusted ∧
      ∀ i, (line.extend.chars i).chr = (line.chars i).chr ∧
        (line.extend.chars i).attr = (line.chars i).attr ∧
        (line.extend.chars i).truecolour = (line.chars i).truecolour := by
  have hgrown := lt_safegrowarray line.size sizeofTermchar
  have hpos := h.pos
  have hle := h.le
  have hnil : free = [] := h.unused.nil_iff.mpr (if_pos hfree)
  have hold : ∀ i, i < line.size → line.extend.next i = line.next i := by
    intro i hi
    have hout : ¬(line.size ≤ i ∧ i < safegrowarray line.size sizeofTermchar line.size 1) := by omega
    simp only [next, Termline.extend, if_neg hout]
  have hnew : ∀ i, line.size ≤ i → i < safegrowarray line.size sizeofTermchar line.size 1 →
      line.extend.next i =
        if i + 1 < safegrowarray line.size sizeofTermchar line.size 1 then some (i + 1) else none := by
    intro i hi hi'
    simp only [next, Termline.extend, if_pos (And.intro hi hi')]
    by_cases hmore : i + 1 < safegrowarray line.size sizeofTermchar line.size 1
    · simp only [hmore, ↓reduceIte, one_ne_zero]
      rfl
    · simp only [hmore, ↓reduceIte]
  generalize hsize : safegrowarray line.size sizeofTermchar line.size 1 = size at hgrown hold hnew
  have hextended : line.extend.size = size := hsize
  have hrun := links_range' line.extend.next line.size (size - line.size) fun i hi hi' => by
    rw [hnew i hi (by omega)]
    simp only [show line.size + (size - line.size) = size by omega]
  refine ⟨line.size, List.range' (line.size + 1) (size - line.size - 1), ?_, rfl, rfl, rfl, ?_⟩
  · have hrange : line.size :: List.range' (line.size + 1) (size - line.size - 1) =
        List.range' line.size (size - line.size) := by
      rw [← List.range'_succ]
      congr 1
      omega
    rw [hrange]
    refine ⟨hpos, ?_, ?_, ?_, ?_⟩
    · rw [hextended]
      exact hle.trans hgrown.le
    · intro c hc
      have hc' : c < line.cols := hc
      rw [hold c (by omega)]
      exact (h.columns c hc).congr fun x hx => hold x (h.cell_range hc hx).2
    · have hhead : line.extend.freeHead = some line.size := if_neg (by
        show line.size ≠ 0
        omega)
      rw [hhead]
      rwa [if_neg (by omega)] at hrun
    · have hperm := h.perm
      rw [hnil, List.append_nil] at hperm
      have hsplit : List.range' line.cols (line.extend.size - line.extend.cols) =
          List.range' line.cols (line.size - line.cols) ++
            List.range' line.size (size - line.size) := by
        have hcols : line.extend.cols = line.cols := rfl
        rw [hextended, hcols]
        have hadd : size - line.cols = (line.size - line.cols) + (size - line.size) := by omega
        rw [hadd, ← List.range'_append_1]
        congr 2
        omega
      have hcols : line.extend.cols = line.cols := rfl
      rw [hcols] at hsplit ⊢
      rw [hsplit]
      exact hperm.append_right _
  · intro i
    simp only [Termline.extend]
    split_ifs <;> exact ⟨rfl, rfl, rfl⟩

/-- What `add_cc` changes of a free cell and of the last cell of a list. -/
theorem link_next {f last : Nat} (hfree : line.ccFree = f) (hne : last ≠ f) (chr : UInt32) :
    (line.link last chr).next =
      Function.update (Function.update line.next f none) last (some f) := by
  simp only [link, hfree]
  rw [next_setCcNext hne, next_setChr, next_setCcNext_zero]
  rfl

theorem link_text {f last : Nat} (hfree : line.ccFree = f) (hne : last ≠ f) (chr : UInt32) :
    (line.link last chr).cols = line.cols ∧ (line.link last chr).size = line.size ∧
      (line.link last chr).lattr = line.lattr ∧ (line.link last chr).trusted = line.trusted ∧
      ∀ i, ((line.link last chr).chars i).chr = (if i = f then chr else (line.chars i).chr) ∧
        ((line.link last chr).chars i).attr = (line.chars i).attr ∧
        ((line.link last chr).chars i).truecolour = (line.chars i).truecolour := by
  refine ⟨rfl, rfl, rfl, rfl, fun i => ?_⟩
  simp only [link, hfree, setCcNext, setChr, setCell]
  by_cases hlast : i = last
  · subst hlast
    simp [hne]
  · by_cases hf : i = f
    · subst hf
      simp [hlast]
    · simp [hlast, hf]

/-- **The free cell goes to the end of the list of a column.** -/
theorem Pool.link {f : Nat} {rest : List Nat} (h : Pool line lists (f :: rest))
    (hc : c < line.cols) (chr : UInt32) :
    Pool (line.link ((c :: lists c).getLast (by simp)) chr)
      (Function.update lists c (lists c ++ [f])) rest := by
  have hfree : line.ccFree = f ∧ Links line.next (line.next f) rest := by
    obtain ⟨hhead, hrest⟩ := h.unused
    simp only [freeHead] at hhead
    split_ifs at hhead
    exact ⟨Option.some.inj hhead, hrest⟩
  obtain ⟨hccfree, hrest⟩ := hfree
  have hfrange := h.free_range (i := f) (by simp)
  have hfrest : f ∉ rest := (List.nodup_cons.mp h.free_nodup).1
  have hlast : ∀ z, z = (c :: lists c).getLast (by simp) →
      (z = c ∧ lists c = []) ∨ ∃ m, lists c = m ++ [z] := by
    rintro z rfl
    rcases List.eq_nil_or_concat (lists c) with hnil | ⟨m, z, hlist⟩
    · left
      simp [hnil]
    · right
      rw [List.concat_eq_append] at hlist
      exact ⟨m, by simp [hlist]⟩
  generalize hz : (c :: lists c).getLast (by simp) = last
  have hlastcases := hlast last hz.symm
  have hlastmem : last = c ∨ last ∈ lists c := by
    rcases hlastcases with ⟨heq, -⟩ | ⟨m, hm⟩
    · exact .inl heq
    · exact .inr (by simp [hm])
  have hlastnot : last ≠ f := by
    rcases hlastmem with rfl | hmem
    · omega
    · rintro rfl
      exact h.cell_not_free hc hmem (by simp)
  have hnext := link_next hccfree hlastnot chr
  have hkept : ∀ x, x ≠ last → x ≠ f → (line.link last chr).next x = line.next x := by
    intro x hxl hxf
    rw [hnext, Function.update_of_ne hxl, Function.update_of_ne hxf]
  have hlastnext : (line.link last chr).next last = some f := by
    rw [hnext, Function.update_self]
  have hfnext : (line.link last chr).next f = none := by
    rw [hnext, Function.update_of_ne (Ne.symm hlastnot), Function.update_self]
  have hpos := h.pos
  refine ⟨hpos, h.le, ?_, ?_, ?_⟩
  · intro c' hc'
    have hc' : c' < line.cols := hc'
    by_cases hcc : c' = c
    · subst hcc
      rw [Function.update_self]
      rcases hlastcases with ⟨rfl, hnil⟩ | ⟨m, hm⟩
      · rw [hnil, hlastnext]
        exact ⟨rfl, hfnext⟩
      · have hlinks := h.columns c' hc
        have hlastrange := h.cell_range hc (i := last) (by simp [hm])
        have hnodup := h.cell_nodup hc
        rw [hm] at hlinks hnodup
        rw [hkept c' (by omega) (by omega), hm, List.append_assoc]
        refine hlinks.append (fun x hx => hkept x ?_ ?_) hlastnext ⟨rfl, hfnext⟩
        · rintro rfl
          exact (List.nodup_append.mp hnodup).2.2 x hx x (by simp) rfl
        · rintro rfl
          exact h.cell_not_free hc (by simp [hm, hx]) (List.mem_cons_self ..)
    · have hother : c' ≠ last := by
        rcases hlastmem with rfl | hmem
        · exact hcc
        · have hrange := h.cell_range hc hmem
          omega
      rw [Function.update_of_ne hcc, hkept c' hother (by omega)]
      refine (h.columns c' hc').congr fun x hx => hkept x ?_ ?_
      · rcases hlastmem with rfl | hmem
        · have hrange := h.cell_range hc' hx
          omega
        · rintro rfl
          exact h.disjoint hc' hc hcc hx hmem
      · rintro rfl
        exact h.cell_not_free hc' hx (by simp)
  · have hhead : (line.link last chr).freeHead = line.next f := by
      simp only [freeHead, Termline.link, setCcNext, setChr, setCell, hccfree, next]
      by_cases hend : (line.chars f).ccNext = 0
      · simp [hend]
      · have hsome : line.next f = some ((f : Int) + (line.chars f).ccNext).toNat := if_neg hend
        have hrange : line.cols ≤ ((f : Int) + (line.chars f).ccNext).toNat := by
          cases rest with
          | nil => exact absurd hrest (by simp [Links, hsome])
          | cons g rest =>
              rw [hsome] at hrest
              obtain hg := Option.some.inj hrest.1
              rw [hg]
              exact (h.free_range (by simp)).1
        have hne : ((f : Int) + (line.chars f).ccNext).toNat ≠ 0 := by omega
        simp [hend, hne]
    rw [hhead]
    refine hrest.congr fun x hx => hkept x ?_ ?_
    · rcases hlastmem with rfl | hmem
      · have hrange := h.free_range (i := x) (by simp [hx])
        omega
      · rintro rfl
        exact h.cell_not_free hc hmem (by simp [hx])
    · rintro rfl
      exact hfrest hx
  · have hperm := flatMap_extend_perm (List.mem_range.mpr hc) List.nodup_range lists [f]
    have hall := h.perm
    rw [List.append_cons] at hall
    exact (hperm.append_right rest).trans hall

end Adding

section Holding

/-- A column of a line, with its list of combining characters, is a cell. -/
structure Shows (line : Termline) (list : List Nat) (c : Nat) (cell : Cell) : Prop where
  chr : cell.chr = (line.chars c).chr
  attr : cell.attr = (line.chars c).attr
  truecolour : cell.truecolour = (line.chars c).truecolour
  ccs : cell.ccs = list.map fun i => (line.chars i).chr

/-- **A line stands for a row of cells**, with these lists. -/
structure HoldsIn (line : Termline) (lists : Nat → List Nat) (free : List Nat)
    (cells : List Cell) : Prop where
  pool : Pool line lists free
  length : cells.length = line.cols
  shows : ∀ (c : Nat) (cell : Cell), cells[c]? = some cell → Shows line (lists c) c cell

/-- A line stands for a row of cells. -/
def Holds (line : Termline) (cells : List Cell) : Prop := ∃ lists free, HoldsIn line lists free cells

variable {line line' : Termline} {lists : Nat → List Nat} {free : List Nat} {cells : List Cell}
  {c : Nat} {cell : Cell}

/-- Everything of a cell but its link. -/
def text (ch : Termchar) : UInt32 × UInt32 × Truecolour := (ch.chr, ch.attr, ch.truecolour)

/-- The same text at another place. -/
theorem Shows.transfer {s : Nat} {list list' : List Nat} (h : Shows line list s cell)
    (htext : text (line'.chars c) = text (line.chars s))
    (hccs : (list'.map fun i => (line'.chars i).chr) = list.map fun i => (line.chars i).chr) :
    Shows line' list' c cell := by
  simp only [text, Prod.mk.injEq] at htext
  exact ⟨h.chr.trans htext.1.symm, h.attr.trans htext.2.1.symm,
    h.truecolour.trans htext.2.2.symm, h.ccs.trans hccs.symm⟩

theorem SameText.text (h : SameText line line') (i : Nat) :
    Termline.text (line'.chars i) = Termline.text (line.chars i) := by
  simp only [Termline.text, h.chr, h.attr, h.truecolour]

theorem Shows.same (h : Shows line (lists c) c cell) (htext : SameText line line') :
    Shows line' (lists c) c cell :=
  h.transfer (htext.text c) (List.map_congr_left fun i _ => htext.chr i)

/-- One column changes. -/
theorem HoldsIn.modify {lists' : Nat → List Nat} {free' : List Nat} {f : Cell → Cell}
    (h : HoldsIn line lists free cells) (hpool : Pool line' lists' free')
    (hcols : line'.cols = line.cols)
    (hself : ∀ cell, cells[c]? = some cell → Shows line' (lists' c) c (f cell))
    (hother : ∀ c' cell, c' ≠ c → cells[c']? = some cell → Shows line (lists c') c' cell →
      Shows line' (lists' c') c' cell) :
    HoldsIn line' lists' free' (cells.modify c f) where
  pool := hpool
  length := by rw [List.length_modify, h.length, hcols]
  shows c' cell hget := by
    rw [List.getElem?_modify] at hget
    obtain ⟨cell', hcell', heq⟩ := Option.map_eq_some_iff.mp hget
    by_cases hcc : c = c'
    · subst hcc
      rw [if_pos rfl] at heq
      subst heq
      exact hself cell' hcell'
    · rw [if_neg hcc] at heq
      obtain rfl : cell' = cell := heq
      exact hother c' cell' (Ne.symm hcc) hcell' (h.shows c' cell' hcell')

/-- **`clear_cc`** clears the combining characters of a column. -/
theorem HoldsIn.clearCc (h : HoldsIn line lists free cells) (hc : c < line.cols) :
    HoldsIn (line.clearCc c) (Function.update lists c []) (lists c ++ free)
      (cells.modify c Cell.clear) := by
  obtain ⟨hpool, htext⟩ := h.pool.clearCc hc
  refine h.modify hpool htext.cols (fun cell hget => ?_) fun c' cell hne hget hshows => ?_
  · have hshows := h.shows c cell hget
    rw [Function.update_self]
    exact ⟨hshows.chr.trans (htext.chr c).symm, hshows.attr.trans (htext.attr c).symm,
      hshows.truecolour.trans (htext.truecolour c).symm, rfl⟩
  · have hsame := hshows.same htext
    rwa [Function.update_of_ne hne]

/-- The text of a column that has no combining characters. -/
theorem HoldsIn.setCell (h : HoldsIn line lists free cells) (hc : c < line.cols)
    (hnone : lists c = []) (ch : Termchar) (hch : ch.ccNext = 0) :
    HoldsIn (line.setCell c ch) lists free (cells.modify c fun _ => Cell.base ch) := by
  have hnext : (line.setCell c ch).next = line.next := by
    have hself : line.next c = none := (h.pool.columns c hc).nil_iff.mp hnone
    rw [next_setCell, if_pos hch, ← hself]
    exact Function.update_eq_self c line.next
  have hkept : ∀ i, i ≠ c → (line.setCell c ch).chars i = line.chars i := fun i hi =>
    Function.update_of_ne hi _ _
  have hset : (line.setCell c ch).chars c = ch := Function.update_self ..
  refine h.modify ⟨h.pool.pos, h.pool.le, ?_, ?_, h.pool.perm⟩ rfl (fun cell _ => ?_)
    fun c' cell hne hget hshows => ?_
  · rw [hnext]
    exact h.pool.columns
  · rw [hnext]
    exact h.pool.unused
  · rw [hnone]
    exact ⟨by rw [hset]; rfl, by rw [hset]; rfl, by rw [hset]; rfl, rfl⟩
  · have hc' : c' < line.cols := by
      rw [← h.length]
      exact (List.getElem?_eq_some_iff.mp hget).1
    refine hshows.transfer (by rw [hkept c' hne]) (List.map_congr_left fun i hi => ?_)
    have hrange := h.pool.cell_range hc' hi
    rw [hkept i (by omega)]

theorem modify_congr {f g : Cell → Cell} (h : ∀ cell, cells[c]? = some cell → f cell = g cell) :
    cells.modify c f = cells.modify c g := by
  refine List.ext_getElem? fun i => ?_
  by_cases hi : c = i
  · subst hi
    rw [List.getElem?_modify_eq, List.getElem?_modify_eq]
    cases hget : cells[c]? with
    | none => rfl
    | some cell => simp only [Option.map_eq_map, Option.map_some, h cell hget]
  · rw [List.getElem?_modify_ne _ _ hi, List.getElem?_modify_ne _ _ hi]

theorem modify_same {f : Cell → Cell} (h : ∀ cell, cells[c]? = some cell → f cell = cell) :
    cells.modify c f = cells := by
  rw [modify_congr (g := id) h, List.modify_id]

/-- A column is one of the cells. -/
theorem HoldsIn.get (h : HoldsIn line lists free cells) (hc : c < line.cols) :
    ∃ cell, cells[c]? = some cell ∧ Shows line (lists c) c cell := by
  have hlt : c < cells.length := h.length ▸ hc
  have hget : cells[c]? = some cells[c] := List.getElem?_eq_getElem hlt
  exact ⟨cells[c], hget, h.shows c _ hget⟩

theorem HoldsIn.link {f : Nat} {rest : List Nat} (h : HoldsIn line lists (f :: rest) cells)
    (hc : c < line.cols) (chr : UInt32) {g : Cell → Cell}
    (hg : ∀ cell, cells[c]? = some cell →
      (g cell).chr = cell.chr ∧ (g cell).attr = cell.attr ∧ (g cell).truecolour = cell.truecolour ∧
        (g cell).ccs = cell.ccs ++ [chr]) :
    HoldsIn (line.link ((c :: lists c).getLast (by simp)) chr)
      (Function.update lists c (lists c ++ [f])) rest (cells.modify c g) := by
  have hpool := h.pool.link hc chr
  have hccfree : line.ccFree = f := by
    have hhead := h.pool.unused.1
    simp only [freeHead] at hhead
    split_ifs at hhead
    exact Option.some.inj hhead
  have hfrange := h.pool.free_range (i := f) (by simp)
  have hlast : (c :: lists c).getLast (by simp) ≠ f := by
    rcases List.mem_cons.mp (List.getLast_mem (List.cons_ne_nil c (lists c))) with heq | hmem
    · rw [heq]
      omega
    · intro heq
      rw [heq] at hmem
      exact h.pool.cell_not_free hc hmem (by simp)
  generalize (c :: lists c).getLast (by simp) = last at hpool hlast
  obtain ⟨-, -, -, -, htext⟩ := link_text hccfree hlast chr
  have hchars : ∀ i, i ≠ f → ((line.link last chr).chars i).chr = (line.chars i).chr := by
    intro i hi
    rw [(htext i).1, if_neg hi]
  have hlistchars : ∀ c' < line.cols, ((lists c').map fun i => ((line.link last chr).chars i).chr) =
      (lists c').map fun i => (line.chars i).chr := by
    intro c' hc'
    refine List.map_congr_left fun i hi => hchars i ?_
    rintro rfl
    exact h.pool.cell_not_free hc' hi (by simp)
  refine h.modify hpool rfl (fun cell hget => ?_) fun c' cell hne hget hshows => ?_
  · have hshows := h.shows c cell hget
    obtain ⟨hchr, hattr, hcolour, hccs⟩ := hg cell hget
    refine ⟨?_, ?_, ?_, ?_⟩
    · rw [hchr, hchars c (by omega), hshows.chr]
    · rw [hattr, (htext c).2.1, hshows.attr]
    · rw [hcolour, (htext c).2.2, hshows.truecolour]
    · rw [hccs, Function.update_self, List.map_append, hlistchars c hc, hshows.ccs]
      simp [(htext f).1]
  · have hc' : c' < line.cols := by
      rw [← h.length]
      exact (List.getElem?_eq_some_iff.mp hget).1
    rw [Function.update_of_ne hne]
    refine hshows.transfer ?_ (hlistchars c' hc')
    simp only [text, hchars c' (by omega), (htext c').2.1, (htext c').2.2]

theorem HoldsIn.extend (h : HoldsIn line lists free cells) (hfree : line.ccFree = 0) :
    ∃ f rest, HoldsIn line.extend lists (f :: rest) cells := by
  obtain ⟨f, rest, hpool, hcols, -, -, htext⟩ := h.pool.extend hfree
  refine ⟨f, rest, hpool, h.length.trans hcols.symm, fun c cell hget => ?_⟩
  refine (h.shows c cell hget).transfer ?_ (List.map_congr_left fun i _ => (htext i).1)
  simp only [text, (htext c).1, (htext c).2.1, (htext c).2.2]

/-- **`add_cc`** adds a combining character to a column. -/
theorem HoldsIn.addCc (h : HoldsIn line lists free cells) (hc : c < line.cols) (chr : UInt32) :
    Holds (line.addCc c chr) (cells.modify c fun cell => cell.add chr) := by
  obtain ⟨cell, hget, hshows⟩ := h.get hc
  have honly : ∀ cell', cells[c]? = some cell' → cell' = cell := by
    intro cell' hget'
    exact Option.some.inj (hget'.symm.trans hget)
  by_cases hreplaced : (line.chars c).chr = 0xFFFD
  · have hsame : cells.modify c (fun cell => cell.add chr) = cells := modify_same fun cell' hget' => by
      rw [honly cell' hget']
      simp only [Cell.add, hshows.chr, hreplaced, ↓reduceDIte]
    rw [hsame]
    simp only [Termline.addCc, hreplaced, ↓reduceIte]
    exact ⟨lists, free, h⟩
  · have hcellchr : cell.chr ≠ 0xFFFD := by rwa [hshows.chr]
    have hlength : cell.ccs.length = (lists c).length := by rw [hshows.ccs, List.length_map]
    simp only [Termline.addCc, hreplaced, ↓reduceIte, (h.pool.columns c hc).lastWithin]
    by_cases hfew : (lists c).length < ccLimit
    · simp only [hfew, ↓reduceIte]
      have hadd : ∀ cell', cells[c]? = some cell' →
          (cell'.add chr).chr = cell'.chr ∧ (cell'.add chr).attr = cell'.attr ∧
            (cell'.add chr).truecolour = cell'.truecolour ∧
            (cell'.add chr).ccs = cell'.ccs ++ [chr] := by
        intro cell' hget'
        rw [honly cell' hget']
        simp only [Cell.add, hcellchr, ↓reduceDIte, hlength, hfew, and_self]
      by_cases hfree : line.ccFree = 0
      · obtain ⟨f, rest, hextended⟩ := h.extend hfree
        rw [if_pos hfree]
        exact ⟨_, _, hextended.link hc chr hadd⟩
      · rw [if_neg hfree]
        cases free with
        | nil => exact absurd (h.pool.unused.nil_iff.mp rfl) (by simp [freeHead, hfree])
        | cons f rest => exact ⟨_, _, h.link hc chr hadd⟩
    · simp only [hfew, ↓reduceIte]
      have hcleared := h.clearCc hc
      have hcols := (h.pool.clearCc hc).2.cols
      have hzero : ((line.clearCc c).chars c).ccNext = 0 := by
        have hlinks := hcleared.pool.columns c (hcols ▸ hc)
        rw [Function.update_self] at hlinks
        exact next_eq_none.mp hlinks
      have hset := hcleared.setCell (hcols ▸ hc) (Function.update_self ..)
        { (line.clearCc c).chars c with chr := 0xFFFD } hzero
      rw [List.modify_modify_eq] at hset
      have htext := (h.pool.clearCc hc).2
      have hcell : cells.modify c (fun cell => cell.add chr) =
          cells.modify c ((fun _ => Cell.base { (line.clearCc c).chars c with chr := 0xFFFD }) ∘
            Cell.clear) := modify_congr fun cell' hget' => by
        rw [honly cell' hget']
        simp only [Cell.add, hcellchr, ↓reduceDIte, hlength, hfew, Function.comp, Cell.base]
        exact Cell.ext rfl (hshows.attr.trans (htext.attr c).symm)
          (hshows.truecolour.trans (htext.truecolour c).symm) rfl
      rw [hcell]
      exact ⟨_, _, hset⟩

end Holding

section Copying

variable {line srcline : Termline} {lists : Nat → List Nat} {free : List Nat}
  {cells srccells : List Cell} {c : Nat} {cell : Cell}

theorem Holds.length (h : Holds line cells) : cells.length = line.cols := by
  obtain ⟨lists, free, h⟩ := h
  exact h.length

theorem Holds.clearCc (h : Holds line cells) (hc : c < cells.length) :
    Holds (line.clearCc c) (cells.modify c Cell.clear) := by
  obtain ⟨lists, free, h⟩ := h
  exact ⟨_, _, h.clearCc (h.length ▸ hc)⟩

theorem Holds.addCc (h : Holds line cells) (hc : c < cells.length) (chr : UInt32) :
    Holds (line.addCc c chr) (cells.modify c fun cell => cell.add chr) := by
  obtain ⟨lists, free, h⟩ := h
  exact h.addCc (h.length ▸ hc) chr

/-- Several combining characters are added. -/
theorem Holds.foldl_addCc (h : Holds line cells) (hc : c < cells.length) (chrs : List UInt32) :
    Holds (chrs.foldl (fun line chr => line.addCc c chr) line)
      (cells.modify c fun cell => chrs.foldl Cell.add cell) := by
  induction chrs generalizing line cells with
  | nil =>
      have hsame : cells.modify c (fun cell => cell) = cells := List.modify_id ..
      simpa [hsame] using h
  | cons chr chrs ih =>
      have hadd := h.addCc hc chr
      have hrest := ih hadd (by rwa [List.length_modify])
      rw [List.modify_modify_eq] at hrest
      exact hrest

/-- The combining characters that are read of a column. -/
theorem HoldsIn.ccList (h : HoldsIn line lists free cells) (hget : cells[c]? = some cell) :
    line.ccList c = cell.ccs := by
  have hc : c < line.cols := by
    rw [← h.length]
    exact (List.getElem?_eq_some_iff.mp hget).1
  rw [Termline.ccList, (h.pool.columns c hc).follow (h.pool.length hc), (h.shows c cell hget).ccs]

/-- A column gets a new text and loses its combining characters. -/
theorem Holds.setClear (h : Holds line cells) (hc : c < cells.length) (ch : Termchar)
    (hch : ch.ccNext = 0) :
    Holds ((line.clearCc c).setCell c ch) (cells.modify c fun _ => Cell.base ch) := by
  obtain ⟨lists, free, h⟩ := h
  have hlt : c < line.cols := h.length ▸ hc
  have hcols := (h.pool.clearCc hlt).2.cols
  have hset := (h.clearCc hlt).setCell (hcols ▸ hlt) (Function.update_self ..) ch hch
  rw [List.modify_modify_eq] at hset
  exact ⟨_, _, hset⟩

theorem Holds.cleared (h : Holds line cells) (hc : c < cells.length) :
    ((line.clearCc c).chars c).ccNext = 0 := by
  obtain ⟨lists, free, h⟩ := h
  have hlt : c < line.cols := h.length ▸ hc
  have hlinks := (h.clearCc hlt).pool.columns c ((h.pool.clearCc hlt).2.cols ▸ hlt)
  rw [Function.update_self] at hlinks
  exact next_eq_none.mp hlinks

/-- **`copy_termchar`** makes a column the copy of a cell of another line. -/
theorem Holds.copyTermchar (h : Holds line cells) (hsrc : Holds srcline srccells) {x src : Nat}
    (hx : x < cells.length) (hget : srccells[src]? = some cell) :
    Holds (line.copyTermchar x srcline src) (cells.modify x fun _ => cell) := by
  obtain ⟨srclists, srcfree, hsrc⟩ := hsrc
  have hshows := hsrc.shows src cell hget
  have hset := h.setClear hx { srcline.chars src with ccNext := 0 } rfl
  have hbase : Cell.base { srcline.chars src with ccNext := 0 } = cell.clear :=
    Cell.ext hshows.chr.symm hshows.attr.symm hshows.truecolour.symm rfl
  have hfold := hset.foldl_addCc (by rwa [List.length_modify]) cell.ccs
  rw [List.modify_modify_eq] at hfold
  have hrebuilt : (fun cell' => cell.ccs.foldl Cell.add cell') ∘
      (fun _ => Cell.base { srcline.chars src with ccNext := 0 }) = fun _ : Cell => cell := by
    funext cell'
    simp only [Function.comp, hbase, cell.rebuild]
  rw [hrebuilt] at hfold
  rw [Termline.copyTermchar, hsrc.ccList hget]
  exact hfold

/-- What `move_termchar` does to the links. -/
theorem HoldsIn.move_next (h : HoldsIn line lists free cells) {dest src : Nat}
    (hdest : dest < line.cols) (hsrc : src < line.cols) :
    ((line.setCell dest
        (if (line.chars src).ccNext = 0 then line.chars src
          else { line.chars src with
            ccNext := (line.chars src).ccNext - ((dest : Int) - src) })).setCcNext src 0).next =
      Function.update (Function.update line.next dest (line.next src)) src none := by
  rw [next_setCcNext_zero, next_setCell]
  congr 2
  by_cases hzero : (line.chars src).ccNext = 0
  · have hsrcnone := next_eq_none.mpr hzero
    simp only [hzero, ↓reduceIte, hsrcnone]
  · have hlinks := h.pool.columns src hsrc
    have hsome : line.next src = some ((src : Int) + (line.chars src).ccNext).toNat := if_neg hzero
    have hrange : line.cols ≤ ((src : Int) + (line.chars src).ccNext).toNat := by
      cases hlist : lists src with
      | nil =>
          rw [hlist, hsome] at hlinks
          exact absurd hlinks (by simp [Links])
      | cons a l =>
          rw [hlist, hsome] at hlinks
          obtain ha := Option.some.inj hlinks.1
          rw [ha]
          exact (h.pool.cell_range hsrc (by simp [hlist])).1
    have hdist : (line.chars src).ccNext - ((dest : Int) - src) ≠ 0 := by omega
    have hsum : (dest : Int) + ((line.chars src).ccNext - ((dest : Int) - src)) =
        (src : Int) + (line.chars src).ccNext := by omega
    simp only [hzero, ↓reduceIte, hdist, hsome, hsum]

/-- A cleared column takes the list of another one. -/
theorem Pool.move (h : Pool line lists free) {line' : Termline} {dest src : Nat}
    (hdest : dest < line.cols) (hsrc : src < line.cols) (hne : dest ≠ src)
    (hnone : lists dest = [])
    (hnext : line'.next = Function.update (Function.update line.next dest (line.next src)) src none)
    (hcols : line'.cols = line.cols) (hsize : line'.size = line.size)
    (hfree : line'.ccFree = line.ccFree) :
    Pool line' (Function.update (Function.update lists dest (lists src)) src []) free := by
  have hkept : ∀ x, x ≠ dest → x ≠ src → line'.next x = line.next x := by
    intro x hxd hxs
    rw [hnext, Function.update_of_ne hxs, Function.update_of_ne hxd]
  refine ⟨hcols ▸ h.pos, ?_, ?_, ?_, ?_⟩
  · rw [hcols, hsize]
    exact h.le
  · intro c hc
    rw [hcols] at hc
    have hmoved : ∀ c' < line.cols, Links line.next (line.next c') (lists c') →
        Links line'.next (line.next c') (lists c') := by
      intro c' hc' hlinks
      refine hlinks.congr fun x hx => ?_
      have hrange := h.cell_range hc' hx
      exact hkept x (by omega) (by omega)
    by_cases hcs : c = src
    · subst hcs
      rw [Function.update_self, hnext, Function.update_self]
      exact rfl
    · rw [Function.update_of_ne hcs]
      by_cases hcd : c = dest
      · subst hcd
        rw [Function.update_self, hnext, Function.update_of_ne hcs, Function.update_self]
        have hlinks := hmoved src hsrc (h.columns src hsrc)
        rwa [hnext] at hlinks
      · rw [Function.update_of_ne hcd, hkept c hcd hcs]
        exact hmoved c hc (h.columns c hc)
  · have hhead : line'.freeHead = line.freeHead := by simp only [freeHead, hfree]
    rw [hhead]
    refine h.unused.congr fun x hx => ?_
    have hrange := h.free_range hx
    exact hkept x (by omega) (by omega)
  · have htake := flatMap_extend_perm (List.mem_range.mpr hdest) List.nodup_range lists (lists src)
    rw [hnone, List.nil_append] at htake
    have hgive := flatMap_update_perm (List.mem_range.mpr hsrc) List.nodup_range
      (Function.update lists dest (lists src)) []
    rw [Function.update_of_ne (Ne.symm hne), List.append_nil] at hgive
    have hboth := (List.perm_append_right_iff (lists src)).mp (hgive.trans htake)
    rw [hcols, hsize]
    exact (hboth.append_right free).trans h.perm

/-- **`move_termchar`** moves a cell within its line. -/
theorem Holds.moveTermchar (h : Holds line cells) {dest src : Nat} (hdest : dest < cells.length)
    (hget : cells[src]? = some cell) (hne : dest ≠ src) :
    Holds (line.moveTermchar dest src)
      ((cells.modify dest fun _ => cell).modify src Cell.clear) := by
  obtain ⟨lists, free, h⟩ := h
  have hdlt : dest < line.cols := h.length ▸ hdest
  have hslt : src < line.cols := by
    rw [← h.length]
    exact (List.getElem?_eq_some_iff.mp hget).1
  have hclear := h.clearCc hdlt
  obtain ⟨-, htext⟩ := h.pool.clearCc hdlt
  have hcols := htext.cols
  have hnext := hclear.move_next (hcols ▸ hdlt) (hcols ▸ hslt)
  have hpool := hclear.pool.move (hcols ▸ hdlt) (hcols ▸ hslt) hne (Function.update_self ..) hnext
    rfl rfl rfl
  have hsrcshows := (h.shows src cell hget)
  have hsrclist : Function.update lists dest [] src = lists src :=
    Function.update_of_ne (Ne.symm hne) _ _
  have hmoved : line.moveTermchar dest src =
      ((line.clearCc dest).setCell dest
        (if ((line.clearCc dest).chars src).ccNext = 0 then (line.clearCc dest).chars src
          else { (line.clearCc dest).chars src with
            ccNext := ((line.clearCc dest).chars src).ccNext - ((dest : Int) - src) })).setCcNext
        src 0 := rfl
  rw [← hmoved] at hpool
  have hnew : ∀ i, text ((line.moveTermchar dest src).chars i) =
      text (line.chars (if i = dest then src else i)) := by
    intro i
    rw [hmoved, (sameText_setCcNext src 0).text]
    by_cases hi : i = dest
    · subst hi
      simp only [setCell, Function.update_self, ↓reduceIte]
      split_ifs <;> exact htext.text src
    · simp only [setCell, Function.update_of_ne hi, if_neg hi]
      exact htext.text i
  have hlistchars : ∀ c' < line.cols,
      ((lists c').map fun i => ((line.moveTermchar dest src).chars i).chr) =
        (lists c').map fun i => (line.chars i).chr := by
    intro c' hc'
    refine List.map_congr_left fun i hi => ?_
    have hrange := h.pool.cell_range hc' hi
    have hi' := hnew i
    rw [if_neg (by omega)] at hi'
    exact congrArg Prod.fst hi'
  refine ⟨_, _, hpool, ?_, fun c cell' hget' => ?_⟩
  · rw [List.length_modify, List.length_modify, h.length]
    exact hcols.symm
  · by_cases hcs : c = src
    · subst hcs
      rw [List.getElem?_modify_eq, List.getElem?_modify_ne _ _ hne, hget] at hget'
      obtain rfl := Option.some.inj hget'
      have htextc := hnew c
      rw [if_neg (Ne.symm hne)] at htextc
      rw [Function.update_self]
      have hcleared : Shows line [] c cell.clear :=
        ⟨hsrcshows.chr, hsrcshows.attr, hsrcshows.truecolour, rfl⟩
      exact hcleared.transfer htextc rfl
    · rw [List.getElem?_modify_ne _ _ (Ne.symm hcs)] at hget'
      rw [Function.update_of_ne hcs]
      have htextc := hnew c
      by_cases hcd : c = dest
      · subst hcd
        have hdestcell : cells[c]? = some cells[c] := List.getElem?_eq_getElem hdest
        rw [List.getElem?_modify_eq, hdestcell] at hget'
        obtain rfl := Option.some.inj hget'
        rw [if_pos rfl] at htextc
        rw [Function.update_self, hsrclist]
        exact hsrcshows.transfer htextc (hlistchars src hslt)
      · rw [List.getElem?_modify_ne _ _ (Ne.symm hcd)] at hget'
        have hc : c < line.cols := by
          rw [← h.length]
          exact (List.getElem?_eq_some_iff.mp hget').1
        rw [if_neg hcd] at htextc
        rw [Function.update_of_ne hcd, Function.update_of_ne hcd]
        exact (h.shows c cell' hget').transfer htextc (hlistchars c hc)

end Copying

section Resizing

variable {line line' : Termline} {lists : Nat → List Nat} {free : List Nat} {cells : List Cell}

/-- The columns that are thrown out are cleared. -/
theorem HoldsIn.clear_range (h : HoldsIn line lists free cells) (start n : Nat)
    (hn : start + n ≤ line.cols) :
    ∃ lists' free', HoldsIn ((List.range' start n).foldl Termline.clearCc line) lists' free'
        ((List.range' start n).foldl (fun cells c => cells.modify c Cell.clear) cells) ∧
      SameText line ((List.range' start n).foldl Termline.clearCc line) ∧
      (∀ c, start ≤ c → c < start + n → lists' c = []) ∧
      (∀ c, c < start → lists' c = lists c) := by
  induction n generalizing start line lists free cells with
  | zero => exact ⟨lists, free, h, .refl line, fun c _ _ => by omega, fun _ _ => rfl⟩
  | succ n ih =>
      have hc : start < line.cols := by omega
      have hcleared := h.clearCc hc
      have htext := (h.pool.clearCc hc).2
      obtain ⟨lists', free', hrest, htext', hnone, hkept⟩ :=
        ih hcleared (start + 1) (by rw [htext.cols]; omega)
      rw [List.range'_succ]
      refine ⟨lists', free', hrest, htext.trans htext', fun c hlo hhi => ?_, fun c hlt => ?_⟩
      · rcases Nat.eq_or_lt_of_le hlo with heq | hlt
        · subst heq
          rw [hkept start (by omega), Function.update_self]
        · exact hnone c hlt (by omega)
      · rw [hkept c (by omega), Function.update_of_ne (by omega)]

theorem foldl_modify_getElem? (start n c : Nat) (hc : c < start) :
    ((List.range' start n).foldl (fun cells c => cells.modify c Cell.clear) cells)[c]? =
      cells[c]? := by
  induction n generalizing start cells with
  | zero => rfl
  | succ n ih =>
      rw [List.range'_succ, List.foldl_cons, ih (start + 1) (by omega),
        List.getElem?_modify_ne _ _ (by omega)]

theorem flatMap_range_eq {α : Type} {g : Nat → List α} {a b : Nat}
    (h : ∀ c, min a b ≤ c → c < max a b → g c = []) :
    (List.range a).flatMap g = (List.range b).flatMap g := by
  have hle : ∀ a b : Nat, a ≤ b → (∀ c, a ≤ c → c < b → g c = []) →
      (List.range a).flatMap g = (List.range b).flatMap g := by
    intro a b hab hnone
    obtain ⟨k, rfl⟩ := Nat.exists_eq_add_of_le hab
    rw [List.range_add, List.flatMap_append]
    have hrest : (List.map (a + ·) (List.range k)).flatMap g = [] := by
      simp only [List.flatMap_eq_nil_iff, List.mem_map, List.mem_range]
      rintro c ⟨i, hi, rfl⟩
      exact hnone _ (by omega) (by omega)
    rw [hrest, List.append_nil]
  rcases Nat.le_total a b with hab | hab
  · exact hle a b hab fun c hlo hhi => h c (by omega) (by omega)
  · exact (hle b a hab fun c hlo hhi => h c (by omega) (by omega)).symm

/-- Where a cell of the pool is after a resize. -/
def shifted (oldcols cols i : Nat) : Nat := i - oldcols + cols

/-- A line in whose pool nothing has changed but the place. -/
structure Shifted (line line' : Termline) (erase : Termchar) : Prop where
  size : line'.size = line'.cols + (line.size - line.cols)
  free : line'.freeHead = line.freeHead.map (shifted line.cols line'.cols)
  kept : ∀ i, i < line.cols → i < line'.cols → text (line'.chars i) = text (line.chars i) ∧
    line'.next i = (line.next i).map (shifted line.cols line'.cols)
  fresh : ∀ i, line.cols ≤ i → i < line'.cols →
    text (line'.chars i) = text erase ∧ line'.next i = none
  pool : ∀ i, line.cols ≤ i → i < line.size →
    text (line'.chars (shifted line.cols line'.cols i)) = text (line.chars i) ∧
    line'.next (shifted line.cols line'.cols i) =
      (line.next i).map (shifted line.cols line'.cols)

/-- The lists move with the pool. -/
theorem HoldsIn.shifted {erase : Termchar} (h : HoldsIn line lists free cells)
    (hshift : Shifted line line' erase) (hcols : 0 < line'.cols)
    (hnone : ∀ c, line'.cols ≤ c → c < line.cols → lists c = []) :
    Holds line' (cells.take line'.cols ++
      List.replicate (line'.cols - cells.length) (Cell.base erase)) := by
  have hlength := h.length
  have hle := h.pool.le
  refine ⟨fun c => if c < line.cols then (lists c).map (Termline.shifted line.cols line'.cols)
    else [], free.map (Termline.shifted line.cols line'.cols), ⟨hcols, ?_, ?_, ?_, ?_⟩, ?_, ?_⟩
  · rw [hshift.size]
    exact Nat.le_add_right _ _
  · intro c hc
    by_cases hold : c < line.cols
    · rw [if_pos hold, (hshift.kept c hold hc).2]
      refine (h.pool.columns c hold).map fun x hx => ?_
      have hrange := h.pool.cell_range hold hx
      exact (hshift.pool x hrange.1 hrange.2).2
    · rw [if_neg hold, (hshift.fresh c (by omega) hc).2]
      exact rfl
  · rw [hshift.free]
    refine h.pool.unused.map fun x hx => ?_
    have hrange := h.pool.free_range hx
    exact (hshift.pool x hrange.1 hrange.2).2
  · have hsame : (List.range line'.cols).flatMap (fun c =>
        if c < line.cols then (lists c).map (Termline.shifted line.cols line'.cols) else []) =
        (List.range line.cols).flatMap fun c =>
          (lists c).map (Termline.shifted line.cols line'.cols) := by
      have hinside : (List.range line.cols).flatMap (fun c =>
          (lists c).map (Termline.shifted line.cols line'.cols)) =
          (List.range line.cols).flatMap fun c =>
            if c < line.cols then (lists c).map (Termline.shifted line.cols line'.cols) else [] :=
        List.flatMap_congr fun c hc => by rw [if_pos (List.mem_range.mp hc)]
      rw [hinside]
      refine flatMap_range_eq fun c hlo hhi => ?_
      by_cases hold : c < line.cols
      · rw [if_pos hold, hnone c (by omega) hold, List.map_nil]
      · rw [if_neg hold]
    rw [hsame, ← List.map_flatMap, ← List.map_append]
    have hmoved := h.pool.perm.map (Termline.shifted line.cols line'.cols)
    have hrange : (List.range' line.cols (line.size - line.cols)).map
        (Termline.shifted line.cols line'.cols) =
        List.range' line'.cols (line'.size - line'.cols) := by
      rw [hshift.size]
      refine List.ext_getElem (by simp) fun i hi hi' => ?_
      simp only [List.getElem_map, List.getElem_range', Termline.shifted]
      omega
    rwa [hrange] at hmoved
  · simp
    omega
  · intro c cell hget
    by_cases hc : c < (cells.take line'.cols).length
    · rw [List.getElem?_append_left hc] at hget
      rw [List.length_take, Nat.lt_min] at hc
      have hold : c < line.cols := by omega
      rw [List.getElem?_take_of_lt hc.1] at hget
      rw [if_pos hold]
      refine (h.shows c cell hget).transfer (hshift.kept c hold hc.1).1 ?_
      rw [List.map_map]
      refine List.map_congr_left fun i hi => ?_
      have hrange := h.pool.cell_range hold hi
      exact congrArg Prod.fst (hshift.pool i hrange.1 hrange.2).1
    · rw [List.getElem?_append_right (by omega)] at hget
      obtain ⟨hlt, heq⟩ := List.getElem?_eq_some_iff.mp hget
      rw [List.getElem_replicate] at heq
      rw [List.length_replicate] at hlt
      rw [List.length_take] at hc hlt
      have hnew : line.cols ≤ c ∧ c < line'.cols := by omega
      rw [if_neg (by omega)]
      have hbase : Cell.base erase = cell := heq
      subst hbase
      have htext := (hshift.fresh c hnew.1 hnew.2).1
      simp only [text, Prod.mk.injEq] at htext
      exact ⟨htext.1.symm, htext.2.1.symm, htext.2.2.symm, rfl⟩

/-- A link leads into the pool. -/
theorem Pool.next_range (h : Pool line lists free) {i j : Nat} (hi : i < line.size)
    (hj : line.next i = some j) : line.cols ≤ j := by
  by_cases hc : i < line.cols
  · have hlinks := h.columns i hc
    rw [hj] at hlinks
    cases hlist : lists i with
    | nil =>
        rw [hlist] at hlinks
        exact absurd hlinks (by simp [Links])
    | cons a l =>
        rw [hlist] at hlinks
        obtain rfl := Option.some.inj hlinks.1
        exact (h.cell_range hc (by simp [hlist])).1
  · have hmem : i ∈ (List.range line.cols).flatMap lists ++ free := by
      rw [h.perm.mem_iff, List.mem_range'_1]
      omega
    rcases List.mem_append.mp hmem with hcell | hfree
    · obtain ⟨c, hc, hic⟩ := List.mem_flatMap.mp hcell
      have hcols := List.mem_range.mp hc
      exact (h.cell_range hcols ((h.columns c hcols).next_mem hic hj)).1
    · exact (h.free_range (h.unused.next_mem hfree hj)).1

/-- A cell with its link made longer or shorter. -/
theorem next_of_ccNext {i d : Nat} (hd : ((i : Int) + (line.chars i).ccNext) = d)
    (hne : (line.chars i).ccNext ≠ 0) : line.next i = some d := by
  simp only [next, if_neg hne, hd, Int.toNat_natCast]

/-- **The pool at its new place.** -/
theorem Pool.relocate (h : Pool line lists free) {cols : Nat} (hcols : 0 < cols)
    {erase : Termchar} (herase : erase.ccNext = 0) :
    Shifted line (relocate erase line cols) erase := by
  have hle := h.le
  have hpos := h.pos
  have hkept : ∀ i, i < line.cols → i < cols → (Termline.relocate erase line cols).chars i =
      if (line.chars i).ccNext ≠ 0 then
        { line.chars i with ccNext := (line.chars i).ccNext + ((cols : Int) - line.cols) }
      else line.chars i := by
    intro i hi hi'
    have hmove : memmove line.chars cols line.cols (line.size - line.cols) i = line.chars i :=
      if_neg (by omega)
    have hfresh : ¬(line.cols ≤ i ∧ i < cols) := by omega
    simp only [Termline.relocate, hmove, if_neg hfresh]
    simp only [hi, hi', true_and]
  have hpool : ∀ i, line.cols ≤ i → i < line.size →
      (Termline.relocate erase line cols).chars (Termline.shifted line.cols cols i) =
        line.chars i := by
    intro i hi hi'
    have hmove : memmove line.chars cols line.cols (line.size - line.cols)
        (Termline.shifted line.cols cols i) = line.chars i := by
      have hinside : cols ≤ Termline.shifted line.cols cols i ∧
          Termline.shifted line.cols cols i < cols + (line.size - line.cols) := by
        simp only [Termline.shifted]
        omega
      have hback : line.cols + (Termline.shifted line.cols cols i - cols) = i := by
        simp only [Termline.shifted]
        omega
      rw [memmove, if_pos hinside, hback]
    have hfresh : ¬(line.cols ≤ Termline.shifted line.cols cols i ∧
        Termline.shifted line.cols cols i < cols) := by
      simp only [Termline.shifted]
      omega
    have hcolumn : ¬(Termline.shifted line.cols cols i < line.cols ∧
        Termline.shifted line.cols cols i < cols ∧ (line.chars i).ccNext ≠ 0) := by
      simp only [Termline.shifted]
      omega
    simp only [Termline.relocate, hmove, if_neg hfresh, if_neg hcolumn]
  refine ⟨?_, ?_, fun i hi hi' => ⟨?_, ?_⟩, fun i hi hi' => ?_, fun i hi hi' => ⟨?_, ?_⟩⟩
  · simp only [Termline.relocate]
    omega
  · by_cases hfree : line.ccFree = 0
    · simp only [freeHead, Termline.relocate, hfree, ↓reduceIte, Option.map_none]
    · have hhead : line.freeHead = some line.ccFree := if_neg hfree
      have hunused := h.unused
      rw [hhead] at hunused
      cases free with
      | nil => exact absurd hunused (by simp [Links])
      | cons f rest =>
          obtain rfl := Option.some.inj hunused.1
          have hrange := h.free_range (i := line.ccFree) (by simp)
          have hto : ((line.ccFree : Int) + ((cols : Int) - line.cols)).toNat =
              Termline.shifted line.cols cols line.ccFree := by
            simp only [Termline.shifted]
            omega
          have hne : Termline.shifted line.cols cols line.ccFree ≠ 0 := by
            simp only [Termline.shifted]
            omega
          simp only [freeHead, Termline.relocate, hfree, ↓reduceIte, hto, hne, Option.map_some]
  · rw [hkept i hi hi']
    split_ifs <;> rfl
  · have hcols' : i < cols := hi'
    have hchars := hkept i hi hcols'
    cases hnext : line.next i with
    | none =>
        have hzero := next_eq_none.mp hnext
        rw [if_neg (by simpa using hzero)] at hchars
        exact next_eq_none.mpr (by rw [hchars, hzero])
    | some j =>
        obtain ⟨hne, hto⟩ := toNat_of_next hnext
        have hrange := h.next_range (by omega) hnext
        rw [if_pos hne] at hchars
        have hlink : (Termline.relocate erase line cols).next i =
            some (Termline.shifted line.cols cols j) := by
          refine next_of_ccNext ?_ ?_
          · rw [hchars]
            simp only [Termline.shifted]
            omega
          · rw [hchars]
            simp only
            omega
        exact hlink
  · have hchars : (Termline.relocate erase line cols).chars i = erase := if_pos ⟨hi, hi'⟩
    exact ⟨by rw [hchars], next_eq_none.mpr (by rw [hchars, herase])⟩
  · exact congrArg text (hpool i hi hi')
  · have hchars := hpool i hi hi'
    cases hnext : line.next i with
    | none => exact next_eq_none.mpr (by rw [← next_eq_none.mp hnext, ← hchars]; rfl)
    | some j =>
        obtain ⟨hne, hto⟩ := toNat_of_next hnext
        have hrange := h.next_range hi' hnext
        have hlink : (Termline.relocate erase line cols).next (Termline.shifted line.cols cols i) =
            some (Termline.shifted line.cols cols j) := by
          refine next_of_ccNext ?_ ?_
          · rw [hchars]
            simp only [Termline.shifted]
            omega
          · rw [hchars]
            exact hne
        exact hlink

/-- The cells after a resize. -/
def resizeCells (erase : Termchar) (cells : List Cell) (cols : Nat) : List Cell :=
  cells.take cols ++ List.replicate (cols - cells.length) (Cell.base erase)

/-- **`resizeline`** cuts the row of cells or makes it longer. -/
theorem Holds.resizeline (h : Holds line cells) {cols : Nat} (hcols : 0 < cols)
    {erase : Termchar} (herase : erase.ccNext = 0) :
    Holds (resizeline erase line cols) (resizeCells erase cells cols) := by
  by_cases hsame : line.cols = cols
  · have hlength := h.length
    simp only [Termline.resizeline, hsame, ↓reduceIte, resizeCells]
    rw [List.take_of_length_le (by omega), hlength, hsame, Nat.sub_self, List.replicate_zero,
      List.append_nil]
    exact h
  · obtain ⟨lists, free, h⟩ := h
    have hlength := h.length
    simp only [Termline.resizeline, hsame, ↓reduceIte]
    by_cases hgrow : line.cols ≤ cols
    · have hnothing : List.range' cols (line.cols - cols) = [] := by
        rw [Nat.sub_eq_zero_of_le hgrow]
        rfl
      rw [hnothing]
      exact h.shifted (h.pool.relocate hcols herase) hcols fun c hlo hhi => by
        have hlo : cols ≤ c := hlo
        omega
    · obtain ⟨lists', free', hcleared, htext, hnone, -⟩ :=
        h.clear_range cols (line.cols - cols) (by omega)
      have hshifted := hcleared.shifted (hcleared.pool.relocate hcols herase) hcols
        fun c hlo hhi => hnone c hlo (by rw [htext.cols] at hhi; omega)
      have hlength' : ((List.range' cols (line.cols - cols)).foldl
          (fun cells c => cells.modify c Cell.clear) cells).length = cells.length := by
        rw [hcleared.length, htext.cols, hlength]
      have htake : ((List.range' cols (line.cols - cols)).foldl
          (fun cells c => cells.modify c Cell.clear) cells).take cols = cells.take cols := by
        refine List.ext_getElem? fun c => ?_
        rw [List.getElem?_take, List.getElem?_take]
        by_cases hc : c < cols
        · rw [if_pos hc, if_pos hc, foldl_modify_getElem? _ _ _ hc]
        · rw [if_neg hc, if_neg hc]
      have hcols' : ∀ line : Termline, (Termline.relocate erase line cols).cols = cols :=
        fun _ => rfl
      rw [hcols', htake, hlength'] at hshifted
      exact hshifted

end Resizing

section Columns

variable {line : Termline} {cells : List Cell}

/-- A line without a pool, and without links. -/
theorem holds_plain (hpos : 0 < line.cols) (hsize : line.size = line.cols) (hfree : line.ccFree = 0)
    (hlength : cells.length = line.cols)
    (hcells : ∀ (c : Nat) (cell : Cell), cells[c]? = some cell →
      (line.chars c).ccNext = 0 ∧ cell = Cell.base (line.chars c)) : Holds line cells := by
  refine ⟨fun _ => [], [], ⟨hpos, hsize.ge, fun c hc => ?_, ?_, ?_⟩, hlength, fun c cell hget => ?_⟩
  · have hget := List.getElem?_eq_getElem (hc.trans_eq hlength.symm)
    exact next_eq_none.mpr (hcells c _ hget).1
  · have hnone : line.freeHead = none := by simp [freeHead, hfree]
    exact hnone
  · have hempty : (List.range line.cols).flatMap (fun _ => ([] : List Nat)) = [] := by simp
    rw [hempty, hsize, Nat.sub_self]
    exact .refl _
  · obtain ⟨-, rfl⟩ := hcells c cell hget
    exact ⟨rfl, rfl, rfl, rfl⟩

/-- A new line. -/
theorem holds_newtermline {cols : Nat} (hcols : 0 < cols) {eraseChar : Termchar}
    (herase : eraseChar.ccNext = 0) :
    Holds (newtermline cols eraseChar) (List.replicate cols (Cell.base eraseChar)) := by
  refine holds_plain hcols rfl rfl List.length_replicate fun c cell hget => ⟨herase, ?_⟩
  obtain ⟨hc, heq⟩ := List.getElem?_eq_some_iff.mp hget
  rw [List.getElem_replicate] at heq
  exact heq.symm

/-- The text of a displayed character. -/
theorem Holds.display (h : Holds line cells) {x : Nat} (hx : x < cells.length)
    (chr attr : UInt32) (truecolour : Truecolour) :
    Holds (line.display x chr attr truecolour)
      (cells.modify x fun _ => Cell.base ⟨chr, attr, truecolour, 0⟩) := by
  have hset := h.setClear hx { (line.clearCc x).chars x with
    chr := chr, attr := attr, truecolour := truecolour } (h.cleared hx)
  exact hset

theorem Holds.erase (h : Holds line cells) {x : Nat} (hx : x < cells.length)
    {eraseChar : Termchar} (herase : eraseChar.ccNext = 0) :
    Holds (line.erase x eraseChar) (cells.modify x fun _ => Cell.base eraseChar) :=
  h.copyTermchar (holds_newtermline Nat.one_pos herase) hx rfl

theorem modify_append_cons {α : Type} {l r : List α} {a : α} {f : α → α} {n : Nat}
    (hn : l.length = n) : (l ++ a :: r).modify n f = l ++ f a :: r := by
  subst hn
  induction l with
  | nil => rfl
  | cons b l ih => simp [ih]

/-- The first columns are erased. -/
theorem Holds.erase_range (h : Holds line cells) {eraseChar : Termchar}
    (herase : eraseChar.ccNext = 0) (n : Nat) (hn : n ≤ cells.length) :
    Holds ((List.range n).foldl (fun line i => line.erase i eraseChar) line)
      (List.replicate n (Cell.base eraseChar) ++ cells.drop n) := by
  induction n with
  | zero => simpa using h
  | succ n ih =>
      have hlt : n < cells.length := hn
      have hprefix := ih (Nat.le_of_succ_le hn)
      have herased := hprefix.erase (x := n) (by simp; omega) herase
      rw [List.range_succ, List.foldl_append]
      have hcells : (List.replicate n (Cell.base eraseChar) ++ cells.drop n).modify n
          (fun _ => Cell.base eraseChar) =
          List.replicate (n + 1) (Cell.base eraseChar) ++ cells.drop (n + 1) := by
        rw [List.drop_eq_getElem_cons hlt, modify_append_cons List.length_replicate,
          List.replicate_succ', List.append_assoc, List.singleton_append]
      rw [hcells] at herased
      exact herased

theorem Holds.setLattr (h : Holds line cells) (lattr : UInt16) :
    Holds { line with lattr := lattr } cells := by
  obtain ⟨lists, free, h⟩ := h
  exact ⟨lists, free, ⟨h.pool.pos, h.pool.le, h.pool.columns, h.pool.unused, h.pool.perm⟩, h.length,
    fun c cell hget => ⟨(h.shows c cell hget).chr, (h.shows c cell hget).attr,
      (h.shows c cell hget).truecolour, (h.shows c cell hget).ccs⟩⟩

/-- **`clear_line`** leaves nothing but erase characters. -/
theorem Holds.clearLine (h : Holds line cells) {cols : Nat} (hcols : 0 < cols)
    {basic eraseChar : Termchar} (hbasic : basic.ccNext = 0) (herase : eraseChar.ccNext = 0) :
    Holds (clearLine basic eraseChar line cols) (List.replicate cols (Cell.base eraseChar)) := by
  have hresized := h.resizeline hcols hbasic
  have hlength : (resizeCells basic cells cols).length = cols := by
    simp [resizeCells]
    omega
  have herased := hresized.erase_range herase cols hlength.ge
  rw [List.drop_of_length_le hlength.le, List.append_nil] at herased
  exact herased.setLattr 0

/-- A cell without combining characters has no link. -/
theorem Holds.ccNext_zero (h : Holds line cells) {c : Nat} {cell : Cell}
    (hget : cells[c]? = some cell) (hnone : cell.ccs = []) : (line.chars c).ccNext = 0 := by
  obtain ⟨lists, free, h⟩ := h
  have hc : c < line.cols := by
    rw [← h.length]
    exact (List.getElem?_eq_some_iff.mp hget).1
  have hlist : lists c = [] := by
    have hccs := (h.shows c cell hget).ccs
    rw [hnone] at hccs
    exact List.map_eq_nil_iff.mp hccs.symm
  exact next_eq_none.mp ((h.pool.columns c hc).nil_iff.mp hlist)

/-- The text of a cell that has no combining characters. -/
theorem Holds.setCell (h : Holds line cells) {c : Nat} {cell : Cell}
    (hget : cells[c]? = some cell) (hnone : cell.ccs = []) (ch : Termchar) (hch : ch.ccNext = 0) :
    Holds (line.setCell c ch) (cells.modify c fun _ => Cell.base ch) := by
  have hzero := h.ccNext_zero hget hnone
  obtain ⟨lists, free, h⟩ := h
  have hc : c < line.cols := by
    rw [← h.length]
    exact (List.getElem?_eq_some_iff.mp hget).1
  have hlist : lists c = [] := (h.pool.columns c hc).nil_iff.mpr (next_eq_none.mpr hzero)
  exact ⟨lists, free, h.setCell hc hlist ch hch⟩

theorem Holds.shows (h : Holds line cells) {c : Nat} {cell : Cell} (hget : cells[c]? = some cell) :
    cell.chr = (line.chars c).chr ∧ cell.attr = (line.chars c).attr ∧
      cell.truecolour = (line.chars c).truecolour := by
  obtain ⟨lists, free, h⟩ := h
  have hshows := h.shows c cell hget
  exact ⟨hshows.chr, hshows.attr, hshows.truecolour⟩

/-- A wide character that is cut in two. -/
def cutWide (x : Nat) (cells : List Cell) : List Cell :=
  match cells[x]?, cells[x - 1]? with
  | some cell, some first =>
      if cell.chr = ucswide then
        let space := Cell.base ⟨0x20 ||| 0xD800, first.attr, first.truecolour, 0⟩
        (cells.modify (x - 1) fun _ => space).modify x fun _ => space
      else cells
  | _, _ => cells

/-- **`check_boundary`** leaves no half of a wide character. -/
theorem Holds.checkBoundary (h : Holds line cells) {x : Nat} (hpos : 0 < x)
    (hx : x < cells.length) : Holds (line.checkBoundary x) (cutWide x cells) := by
  have hfirst : x - 1 < cells.length := by omega
  have hne : x - 1 ≠ x := by omega
  have hget : cells[x]? = some cells[x] := List.getElem?_eq_getElem hx
  have hget' : cells[x - 1]? = some cells[x - 1] := List.getElem?_eq_getElem hfirst
  simp only [Termline.checkBoundary, cutWide, hget, hget', (h.shows hget).1]
  split_ifs
  · have hboth := (h.clearCc hfirst).clearCc (c := x) (by rwa [List.length_modify])
    have hnow : ((cells.modify (x - 1) Cell.clear).modify x Cell.clear)[x - 1]? =
        some cells[x - 1].clear := by
      rw [List.getElem?_modify_ne _ _ (Ne.symm hne), List.getElem?_modify_eq, hget']
      rfl
    obtain ⟨-, hattr, hcolour⟩ := hboth.shows hnow
    generalize (line.clearCc (x - 1)).clearCc x = cleared at hboth hattr hcolour
    have hzero := hboth.ccNext_zero hnow rfl
    have hspaced := hboth.setCell hnow rfl
      { cleared.chars (x - 1) with chr := 0x20 ||| 0xD800 } hzero
    have hbase : Cell.base { cleared.chars (x - 1) with chr := 0x20 ||| 0xD800 } =
        Cell.base ⟨0x20 ||| 0xD800, cells[x - 1].attr, cells[x - 1].truecolour, 0⟩ :=
      Cell.ext rfl hattr.symm hcolour.symm rfl
    have hsecond : (((cells.modify (x - 1) Cell.clear).modify x Cell.clear).modify (x - 1) fun _ =>
        Cell.base { cleared.chars (x - 1) with chr := 0x20 ||| 0xD800 })[x]? =
          some cells[x].clear := by
      rw [List.getElem?_modify_ne _ _ hne, List.getElem?_modify_eq,
        List.getElem?_modify_ne _ _ hne, hget]
      rfl
    have hset := hspaced.setCell hsecond rfl
      { cleared.chars (x - 1) with chr := 0x20 ||| 0xD800 } hzero
    rw [hbase] at hset
    have hcells : (((cells.modify (x - 1) Cell.clear).modify x Cell.clear).modify (x - 1) fun _ =>
        Cell.base ⟨0x20 ||| 0xD800, cells[x - 1].attr, cells[x - 1].truecolour, 0⟩).modify x
          (fun _ => Cell.base ⟨0x20 ||| 0xD800, cells[x - 1].attr, cells[x - 1].truecolour, 0⟩) =
        (cells.modify (x - 1) fun _ =>
          Cell.base ⟨0x20 ||| 0xD800, cells[x - 1].attr, cells[x - 1].truecolour, 0⟩).modify x
          (fun _ => Cell.base ⟨0x20 ||| 0xD800, cells[x - 1].attr, cells[x - 1].truecolour, 0⟩) := by
      refine List.ext_getElem? fun i => ?_
      by_cases hi : x = i
      · subst hi
        rw [List.getElem?_modify_eq, List.getElem?_modify_eq, List.getElem?_modify_ne _ _ hne,
          List.getElem?_modify_eq, List.getElem?_modify_ne _ _ hne,
          List.getElem?_modify_ne _ _ hne, hget]
        rfl
      · rw [List.getElem?_modify_ne _ _ hi, List.getElem?_modify_ne _ _ hi]
        by_cases hi' : x - 1 = i
        · subst hi'
          rw [List.getElem?_modify_eq, List.getElem?_modify_eq, List.getElem?_modify_ne _ _ hi,
            List.getElem?_modify_eq, hget']
          rfl
        · rw [List.getElem?_modify_ne _ _ hi', List.getElem?_modify_ne _ _ hi',
            List.getElem?_modify_ne _ _ hi, List.getElem?_modify_ne _ _ hi']
    rw [hcells] at hset
    have hline : (cleared.setChr (x - 1) (0x20 ||| 0xD800)).chars (x - 1) =
        { cleared.chars (x - 1) with chr := 0x20 ||| 0xD800 } := Function.update_self ..
    rw [hline]
    exact hset
  · exact h

end Columns

end Termline

section Runs

open Termline

/-- What the operations are for. -/
def cellStep (basicEraseChar : EraseChar) (rows : Nat → List Cell) :
    Nat × LineOp → Option (Nat → List Cell)
  | (k, op) =>
      let row := rows k
      let result : Option (List Cell) :=
        match op with
        | .addCc x chr => if x < row.length then some (row.modify x fun c => c.add chr) else none
        | .clearCc x => if x < row.length then some (row.modify x Cell.clear) else none
        | .display x chr attr truecolour =>
            if x < row.length then
              some (row.modify x fun _ => Cell.base ⟨chr, attr, truecolour, 0⟩)
            else none
        | .erase x eraseChar =>
            if x < row.length then some (row.modify x fun _ => Cell.base eraseChar.val) else none
        | .copy x other src =>
            match (rows other)[src]? with
            | some cell =>
                if x < row.length ∧ other ≠ k then some (row.modify x fun _ => cell) else none
            | none => none
        | .move dest src =>
            match row[src]? with
            | some cell =>
                if dest < row.length ∧ dest ≠ src then
                  some ((row.modify dest fun _ => cell).modify src Cell.clear)
                else none
            | none => none
        | .resize cols =>
            if 0 < cols then some (resizeCells basicEraseChar.val row cols) else none
        | .clear cols eraseChar =>
            if 0 < cols then some (List.replicate cols (Cell.base eraseChar.val)) else none
        | .boundary x => if 0 < x ∧ x < row.length then some (cutWide x row) else none
      result.map (fun row => Function.update rows k row)

variable {basicEraseChar : EraseChar} {lines lines' : Nat → Termline} {rows : Nat → List Cell}

/-- Every line stands for its row. -/
def HoldsAll (lines : Nat → Termline) (rows : Nat → List Cell) : Prop :=
  ∀ k, Holds (lines k) (rows k)

theorem HoldsAll.update (h : HoldsAll lines rows) {k : Nat} {line : Termline} {row : List Cell}
    (hline : Holds line row) : HoldsAll (Function.update lines k line) (Function.update rows k row) := by
  intro j
  by_cases hj : j = k
  · subst hj
    rw [Function.update_self, Function.update_self]
    exact hline
  · rw [Function.update_of_ne hj, Function.update_of_ne hj]
    exact h j

/-- An operation that can be done does to a line what it does to the row. -/
theorem holds_lineStep (h : HoldsAll lines rows) (e : Nat × LineOp)
    (hstep : lineStep basicEraseChar lines e = some lines') :
    ∃ rows', cellStep basicEraseChar rows e = some rows' ∧ HoldsAll lines' rows' := by
  obtain ⟨k, op⟩ := e
  have hk := h k
  have hlength := hk.length
  simp only [lineStep, Option.map_eq_some_iff] at hstep
  obtain ⟨line, hline, rfl⟩ := hstep
  have hdone : ∀ row, Holds line row → HoldsAll (Function.update lines k line)
      (Function.update rows k row) := fun row hrow => h.update hrow
  cases op with
  | addCc x chr =>
      obtain ⟨hx, rfl⟩ := Option.ite_none_right_eq_some.mp hline |>.imp_right Option.some.inj
      rw [← hlength] at hx
      exact ⟨_, by simp only [cellStep, hx, ↓reduceIte, Option.map_some], hdone _ (hk.addCc hx chr)⟩
  | clearCc x =>
      obtain ⟨hx, rfl⟩ := Option.ite_none_right_eq_some.mp hline |>.imp_right Option.some.inj
      rw [← hlength] at hx
      exact ⟨_, by simp only [cellStep, hx, ↓reduceIte, Option.map_some], hdone _ (hk.clearCc hx)⟩
  | display x chr attr truecolour =>
      obtain ⟨hx, rfl⟩ := Option.ite_none_right_eq_some.mp hline |>.imp_right Option.some.inj
      rw [← hlength] at hx
      exact ⟨_, by simp only [cellStep, hx, ↓reduceIte, Option.map_some],
        hdone _ (hk.display hx chr attr truecolour)⟩
  | erase x eraseChar =>
      obtain ⟨hx, rfl⟩ := Option.ite_none_right_eq_some.mp hline |>.imp_right Option.some.inj
      rw [← hlength] at hx
      exact ⟨_, by simp only [cellStep, hx, ↓reduceIte, Option.map_some],
        hdone _ (hk.erase hx eraseChar.property)⟩
  | copy x other src =>
      obtain ⟨⟨hx, hsrc, hne⟩, rfl⟩ :=
        Option.ite_none_right_eq_some.mp hline |>.imp_right Option.some.inj
      rw [← hlength] at hx
      rw [← (h other).length] at hsrc
      have hget : (rows other)[src]? = some (rows other)[src] := List.getElem?_eq_getElem hsrc
      exact ⟨_, by simp only [cellStep, hget, hx, hne, ne_eq, not_false_eq_true, and_self,
        ↓reduceIte, Option.map_some], hdone _ (hk.copyTermchar (h other) hx hget)⟩
  | move dest src =>
      obtain ⟨⟨hdest, hsrc, hne⟩, rfl⟩ :=
        Option.ite_none_right_eq_some.mp hline |>.imp_right Option.some.inj
      rw [← hlength] at hdest hsrc
      have hget : (rows k)[src]? = some (rows k)[src] := List.getElem?_eq_getElem hsrc
      exact ⟨_, by simp only [cellStep, hget, hdest, hne, ne_eq, not_false_eq_true, and_self,
        ↓reduceIte, Option.map_some], hdone _ (hk.moveTermchar hdest hget hne)⟩
  | resize cols =>
      obtain ⟨hcols, rfl⟩ := Option.ite_none_right_eq_some.mp hline |>.imp_right Option.some.inj
      exact ⟨_, by simp only [cellStep, hcols, ↓reduceIte, Option.map_some],
        hdone _ (hk.resizeline hcols basicEraseChar.property)⟩
  | clear cols eraseChar =>
      obtain ⟨hcols, rfl⟩ := Option.ite_none_right_eq_some.mp hline |>.imp_right Option.some.inj
      exact ⟨_, by simp only [cellStep, hcols, ↓reduceIte, Option.map_some],
        hdone _ (hk.clearLine hcols basicEraseChar.property eraseChar.property)⟩
  | boundary x =>
      obtain ⟨⟨hpos, hx⟩, rfl⟩ :=
        Option.ite_none_right_eq_some.mp hline |>.imp_right Option.some.inj
      rw [← hlength] at hx
      exact ⟨_, by simp only [cellStep, hpos, hx, and_self, ↓reduceIte, Option.map_some],
        hdone _ (hk.checkBoundary hpos hx)⟩

/-- **The lines stand for rows of cells**, whatever is done to them: the lists of the columns and
the free list share the pool, every link leads into it, and each operation does to the cells what
it is there for. -/
theorem run_holds (basicEraseChar : EraseChar) (widths : Nat → Nat) (hwidths : ∀ k, 0 < widths k)
    (ops : List (Nat × LineOp)) (lines : Nat → Termline)
    (hrun : runSteps (lineStep basicEraseChar)
      (fun k => newtermline (widths k) basicEraseChar.val) ops = some lines) :
    ∃ rows, runSteps (cellStep basicEraseChar)
        (fun k => List.replicate (widths k) (Cell.base basicEraseChar.val)) ops = some rows ∧
      ∀ k, Holds (lines k) (rows k) := by
  exact runSteps_simulates HoldsAll (fun lines rows e lines' h hstep => holds_lineStep h e hstep)
    (fun k => holds_newtermline (hwidths k) basicEraseChar.property) hrun

/-- A space in the usual colours. -/
def space : EraseChar := ⟨⟨0x20, 0x2300, ⟨optionalrgbNone, optionalrgbNone⟩, 0⟩, rfl⟩

theorem run_holds_sample :
    ∃ lines rows,
      runSteps (lineStep space) (fun _ => newtermline 2 space.val)
        [(0, .display 0 0x65 0 ⟨optionalrgbNone, optionalrgbNone⟩), (0, .addCc 0 0x301),
          (1, .copy 1 0 0), (0, .resize 3), (1, .boundary 1), (0, .move 2 0)] = some lines ∧
      runSteps (cellStep space) (fun _ => List.replicate 2 (Cell.base space.val))
        [(0, .display 0 0x65 0 ⟨optionalrgbNone, optionalrgbNone⟩), (0, .addCc 0 0x301),
          (1, .copy 1 0 0), (0, .resize 3), (1, .boundary 1), (0, .move 2 0)] = some rows ∧
      ∀ k, Holds (lines k) (rows k) := by
  obtain ⟨lines, hlines⟩ : ∃ lines, runSteps (lineStep space) (fun _ => newtermline 2 space.val)
      [(0, .display 0 0x65 0 ⟨optionalrgbNone, optionalrgbNone⟩), (0, .addCc 0 0x301),
        (1, .copy 1 0 0), (0, .resize 3), (1, .boundary 1), (0, .move 2 0)] = some lines :=
    Option.isSome_iff_exists.mp (by decide)
  obtain ⟨rows, hrows, hholds⟩ := run_holds space (fun _ => 2) (fun _ => by decide) _ lines hlines
  exact ⟨lines, rows, hlines, hrows, hholds⟩

end Runs

end Terminal
end Qutty
