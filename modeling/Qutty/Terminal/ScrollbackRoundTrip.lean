import Qutty.Terminal.Packing

/-!
# Compressed lines are read as they were written

What is written for a literal is read as that literal, a packing is read as its literals, and a
line that is compressed and decompressed stands for the same cells
(`decompressline_compressline`).
-/

namespace Qutty
namespace Terminal

open Lib Lib.Chains Lib.RunLength

section Codecs

@[simp] theorem getByte_cons (b : UInt8) (rest : List UInt8) :
    BinarySource.getByte ⟨b :: rest, false⟩ = (b, ⟨rest, false⟩) := rfl

/-- What is written as two bytes is read. -/
@[simp] theorem getUint16_putUint16 (n : Nat) (rest : List UInt8) :
    BinarySource.getUint16 ⟨putUint16 n ++ rest, false⟩ = (n % 0x10000, ⟨rest, false⟩) := by
  simp only [BinarySource.getUint16, putUint16, List.cons_append, List.nil_append,
    UInt8.toNat_ofNat']
  congr 1
  omega

/-- What is written as four bytes is read. -/
@[simp] theorem getUint32_putUint32 (n : Nat) (rest : List UInt8) :
    BinarySource.getUint32 ⟨putUint32 n ++ rest, false⟩ = (n % 0x100000000, ⟨rest, false⟩) := by
  simp only [BinarySource.getUint32, putUint32, List.cons_append, List.nil_append,
    UInt8.toNat_ofNat']
  congr 1
  omega

theorem low_or_high (chr : UInt32) :
    UInt32.ofNat (chr.toNat % 0x80) ||| (chr &&& ~~~0x7F) = chr := by
  have hlow : UInt32.ofNat (chr.toNat % 0x80) = chr &&& 0x7F := by
    apply UInt32.toNat_inj.mp
    rw [UInt32.toNat_and, UInt32.toNat_ofNat']
    have hmask : chr.toNat &&& (0x7F : UInt32).toNat = chr.toNat % 2 ^ 7 :=
      Nat.and_two_pow_sub_one_eq_mod chr.toNat 7
    rw [hmask]
    omega
  rw [hlow]
  apply UInt32.eq_of_toBitVec_eq
  simp only [UInt32.toBitVec_or, UInt32.toBitVec_and, UInt32.toBitVec_not]
  have hall : (0x7F : UInt32).toBitVec ||| ~~~(0x7F : UInt32).toBitVec = BitVec.allOnes 32 := by
    decide
  rw [← BitVec.and_or_distrib_left, hall, BitVec.and_allOnes]

/-- **A character is read as it was written**, whatever was written before. -/
theorem readChr_literalChr (chr state : UInt32) (rest : List UInt8) :
    readChr ⟨(literalChr chr state).1 ++ rest, false⟩ state = some (chr, ⟨rest, false⟩) := by
  have hchr := chr.toNat_lt
  have hback : ∀ n, n = chr.toNat → UInt32.ofNat n = chr := fun n hn => by
    rw [hn, UInt32.ofNat_toNat]
  simp only [literalChr]
  split_ifs with hstate h₂ h₃ h₄
  · have hlow : (UInt8.ofNat (chr.toNat % 0x80)).toNat = chr.toNat % 0x80 := by
      rw [UInt8.toNat_ofNat']
      omega
    have hlt : chr.toNat % 0x80 < 0x80 := Nat.mod_lt _ (by decide)
    simp only [readChr, List.cons_append, List.nil_append, getByte_cons, hlow, hlt, ↓reduceIte]
    rw [← hstate, low_or_high]
  · have hhead : (UInt8.ofNat (0x80 + chr.toNat / 0x100 % 0x40)).toNat =
        0x80 + chr.toNat / 0x100 % 0x40 := by
      rw [UInt8.toNat_ofNat']
      omega
    simp only [readChr, List.cons_append, List.nil_append, getByte_cons, hhead, UInt8.toNat_ofNat']
    rw [if_neg (by omega), if_pos (by omega), hback _ (by omega)]
  · have hhead : (UInt8.ofNat (0xC0 + chr.toNat / 0x10000 % 0x20)).toNat =
        0xC0 + chr.toNat / 0x10000 % 0x20 := by
      rw [UInt8.toNat_ofNat']
      omega
    simp only [readChr, List.cons_append, getByte_cons, hhead, getUint16_putUint16]
    rw [if_neg (by omega), if_neg (by omega), if_pos (by omega), hback _ (by omega)]
  · have hhead : (UInt8.ofNat (0xE0 + chr.toNat / 0x1000000 % 0x10)).toNat =
        0xE0 + chr.toNat / 0x1000000 % 0x10 := by
      rw [UInt8.toNat_ofNat']
      omega
    simp only [readChr, List.cons_append, getByte_cons, hhead, getUint16_putUint16,
      UInt8.toNat_ofNat']
    rw [if_neg (by omega), if_neg (by omega), if_neg (by omega), if_pos (by omega),
      hback _ (by omega)]
  · have hhead : (0xF0 : UInt8).toNat = 0xF0 := rfl
    simp only [readChr, List.cons_append, getByte_cons, hhead, getUint32_putUint32]
    rw [if_neg (by decide), if_neg (by decide), if_neg (by decide), if_neg (by decide),
      if_pos trivial, hback _ (by omega)]

theorem literalChr_ne_nil (chr state : UInt32) : (literalChr chr state).1 ≠ [] := by
  simp only [literalChr]
  split_ifs <;> simp

/-- The attributes of a cell come back.  The highest bit is never set on a line. -/
theorem unpermute_permute {attr : UInt32} (hattr : attr < 0x80000000) :
    unpermute (permute attr) = attr := by
  have hlt : attr.toBitVec.toNat < 2 ^ 31 := hattr
  have htop : attr.toBitVec[31] = false :=
    BitVec.msb_eq_false_iff_two_mul_lt.mpr (show 2 * attr.toBitVec.toNat < 2 ^ 32 by omega)
  apply UInt32.eq_of_toBitVec_eq
  apply BitVec.eq_of_getLsbD_eq
  intro i hi
  interval_cases i <;> simp [unpermute, permute, htop]

theorem permute_lt (attr : UInt32) : permute attr < 0x80000000 := by
  have htop : (permute attr).toBitVec.getLsbD 31 = false := by simp [permute]
  have hmsb : (permute attr).toBitVec.msb = false := htop
  exact BitVec.toNat_lt_of_msb_false hmsb

/-- **The attributes of a cell are read** as they were written. -/
theorem readAttr_literalAttr (attr state : UInt32) (rest : List UInt8) :
    readAttr ⟨(literalAttr attr state).1 ++ rest, false⟩ =
      (unpermute (permute attr), ⟨rest, false⟩) := by
  have hlt : (permute attr).toNat < 0x80000000 := permute_lt attr
  have hback : ∀ n, n = (permute attr).toNat → UInt32.ofNat n = permute attr := fun n hn => by
    rw [hn, UInt32.ofNat_toNat]
  simp only [literalAttr]
  split_ifs with hshort
  · have hval : BinarySource.getUint16 ⟨[UInt8.ofNat ((permute attr).toNat / 0x100),
        UInt8.ofNat (permute attr).toNat] ++ rest, false⟩ =
        ((permute attr).toNat % 0x10000, ⟨rest, false⟩) := getUint16_putUint16 _ rest
    simp only [readAttr, hval]
    rw [if_neg (by omega), hback _ (by omega)]
  · have hval : BinarySource.getUint16 ⟨[UInt8.ofNat (0x80 + (permute attr).toNat / 0x1000000 % 0x80),
        UInt8.ofNat ((permute attr).toNat / 0x10000), UInt8.ofNat ((permute attr).toNat / 0x100),
        UInt8.ofNat (permute attr).toNat] ++ rest, false⟩ =
        (0x8000 + (permute attr).toNat / 0x10000, ⟨putUint16 (permute attr).toNat ++ rest, false⟩) := by
      simp only [BinarySource.getUint16, List.cons_append, List.nil_append, UInt8.toNat_ofNat',
        putUint16]
      congr 1
      omega
    simp only [readAttr, hval, getUint16_putUint16]
    rw [if_pos (by omega), hback _ (by omega)]

/-- A colour as it comes back. -/
def OptionalRgb.normal (c : OptionalRgb) : OptionalRgb := if c.enabled then c else optionalrgbNone

theorem readRgb_putRgb (c : OptionalRgb) {enabled : Bool} (henabled : enabled = c.enabled)
    (rest : List UInt8) :
    readRgb enabled ⟨putRgb c ++ rest, false⟩ = (c.normal, ⟨rest, false⟩) := by
  subst henabled
  obtain ⟨enabled, r, g, b⟩ := c
  cases enabled <;> rfl

/-- **The colours of a cell are read** as they were written. -/
theorem readTruecolour_literalTruecolour (c : Truecolour) (state : UInt32) (rest : List UInt8) :
    readTruecolour ⟨(literalTruecolour c state).1 ++ rest, false⟩ =
      (⟨c.fg.normal, c.bg.normal⟩, ⟨rest, false⟩) := by
  have hsplit : (literalTruecolour c state).1 ++ rest =
      ((if c.fg.enabled then 1 else 0) + (if c.bg.enabled then 2 else 0) : UInt8) ::
        (putRgb c.fg ++ (putRgb c.bg ++ rest)) := by
    simp [literalTruecolour]
  rw [hsplit]
  simp only [readTruecolour, getByte_cons]
  rw [readRgb_putRgb c.fg (by cases c.fg.enabled <;> cases c.bg.enabled <;> simp <;> decide),
    readRgb_putRgb c.bg (by cases c.fg.enabled <;> cases c.bg.enabled <;> simp <;> decide)]

/-- **A number is read** as it was written. -/
theorem getNumber_putNumber (n : Nat) (rest : List UInt8) :
    getNumber (putNumber n ++ rest) = (n, ⟨rest, false⟩) := by
  induction n using putNumber.induct with
  | case1 n hlarge ih =>
      rw [putNumber, if_pos hlarge]
      have hhead : (UInt8.ofNat (n % 0x80 + 0x80)).toNat = n % 0x80 + 0x80 := by
        rw [UInt8.toNat_ofNat']
        omega
      simp only [List.cons_append, getNumber, hhead, ih]
      rw [if_pos (by omega)]
      congr 1
      omega
  | case2 n hsmall =>
      rw [putNumber, if_neg hsmall]
      have hhead : (UInt8.ofNat n).toNat = n := by
        rw [UInt8.toNat_ofNat']
        omega
      simp only [List.cons_append, List.nil_append, getNumber, hhead]
      rw [if_neg (by omega)]

end Codecs

section Reading

variable {readliteral : Reader → Option Reader} {r r' : Reader}

/-- A reader with other data before it. -/
def Reader.before (r : Reader) (rest : List UInt8) : Reader := { r with bs := ⟨rest, false⟩ }

@[simp] theorem Reader.before_n (rest : List UInt8) : (r.before rest).n = r.n := rfl

@[simp] theorem Reader.before_ldata (rest : List UInt8) : (r.before rest).ldata = r.ldata := rfl

@[simp] theorem Reader.before_bs (rest : List UInt8) : (r.before rest).bs = ⟨rest, false⟩ := rfl

@[simp] theorem Reader.before_before (rest rest' : List UInt8) :
    (r.before rest).before rest' = r.before rest' := rfl

/-- A literal is read for the next column. -/
def ReadsLiteral (readliteral : Reader → Option Reader) (r : Reader) (lit : List UInt8)
    (r' : Reader) : Prop :=
  ∀ rest, readNext readliteral (r.before (lit ++ rest)) = some (r'.before rest)

theorem ReadsLiteral.lt {lit : List UInt8} (h : ReadsLiteral readliteral r lit r') :
    r.n < r.ldata.cols := by
  by_contra hn
  have hread := h []
  rw [readNext, Reader.before_n, Reader.before_ldata, if_neg hn] at hread
  exact absurd hread (by simp)

/-- Literals that stand one after the other. -/
theorem readLiterals_flatten {lits : List (List UInt8)}
    (h : ReadsAll (ReadsLiteral readliteral) r lits r') (rest : List UInt8) :
    readLiterals readliteral lits.length (r.before (lits.flatten ++ rest)) =
      some (r'.before rest) := by
  induction lits generalizing r with
  | nil =>
      obtain rfl : r' = r := h
      rfl
  | cons lit lits ih =>
      obtain ⟨r₁, hlit, hlits⟩ := h
      rw [List.length_cons, List.flatten_cons, List.append_assoc, readLiterals, hlit,
        Option.bind_some, ih hlits]

/-- A literal that is read again and again. -/
theorem readRun_replicate {lit : List UInt8} {k : Nat}
    (h : ReadsAll (ReadsLiteral readliteral) r (List.replicate (k + 1) lit) r')
    (rest rest' : List UInt8) :
    readRun readliteral (lit ++ rest) (k + 1) (r.before rest') = some (r'.before rest) := by
  induction k generalizing r rest' with
  | zero =>
      obtain ⟨r₁, hlit, hlits⟩ := h
      obtain rfl : r' = r₁ := hlits
      have hread := hlit rest
      rw [readRun]
      exact Option.bind_eq_some_iff.mpr ⟨_, hread, rfl⟩
  | succ k ih =>
      obtain ⟨r₁, hlit, hlits⟩ := h
      have hread := hlit rest
      rw [readRun]
      exact Option.bind_eq_some_iff.mpr ⟨_, hread, ih hlits rest⟩

theorem readsAll_lt {lits : List (List UInt8)}
    (h : ReadsAll (ReadsLiteral readliteral) r lits r') (hpos : 1 ≤ lits.length) :
    r.n < r.ldata.cols := by
  cases lits with
  | nil => exact absurd hpos (by simp)
  | cons lit lits =>
      obtain ⟨r₁, hlit, -⟩ := h
      exact hlit.lt

/-- **A packing is read** as its literals. -/
theorem readBlocks_packs {out : List UInt8} {lits : List (List UInt8)} (h : Packs out lits)
    (hreads : ReadsAll (ReadsLiteral readliteral) r lits r') :
    ∃ blocks ≤ lits.length, ∀ fuel rest,
      readBlocks readliteral (blocks + fuel) (r.before (out ++ rest)) =
        readBlocks readliteral fuel (r'.before rest) := by
  refine h.reads (P := fun r₁ out lits => ∃ blocks ≤ lits.length, ∀ fuel rest,
    readBlocks readliteral (blocks + fuel) (r.before (out ++ rest)) =
      readBlocks readliteral fuel (r₁.before rest)) ⟨0, le_rfl, fun fuel rest => by simp⟩
    ?_ ?_ hreads
  · rintro out done pend r₁ r₂ ⟨blocks, hle, hblocks⟩ hpos hmax hpend
    refine ⟨blocks + 1, by simp; omega, fun fuel rest => ?_⟩
    obtain ⟨n, hn⟩ : ∃ n, pend.length = n + 1 := ⟨pend.length - 1, by omega⟩
    have hlt := readsAll_lt hpend (by omega)
    have hhdr : (UInt8.ofNat (pend.length - 1)).toNat = n := by
      rw [UInt8.toNat_ofNat', hn]
      omega
    have hread := readLiterals_flatten hpend rest
    rw [hn] at hread
    have hassoc : out ++ UInt8.ofNat (pend.length - 1) :: pend.flatten ++ rest =
        out ++ (UInt8.ofNat (pend.length - 1) :: (pend.flatten ++ rest)) := by simp
    rw [hassoc, Nat.add_assoc, hblocks, Nat.add_comm 1, readBlocks, Reader.before_n,
      Reader.before_ldata, if_pos hlt, Reader.before_bs, getByte_cons]
    simp only [hhdr]
    rw [if_neg (by omega)]
    have hwhole : (readLiterals readliteral (n + 1) (r₁.before (pend.flatten ++ rest))).bind
        (readBlocks readliteral fuel) = readBlocks readliteral fuel (r₂.before rest) := by
      rw [hread, Option.bind_some]
    exact hwhole
  · rintro out done lit k r₁ r₂ ⟨blocks, hle, hblocks⟩ hpos hmax hlits
    refine ⟨blocks + 1, by simp; omega, fun fuel rest => ?_⟩
    obtain ⟨n, rfl⟩ : ∃ n, k = n + 1 := ⟨k - 1, by omega⟩
    have hlt := readsAll_lt hlits (by simp)
    have hhdr : (UInt8.ofNat (n + 1 + 0x80 - 2)).toNat = n + 1 + 0x80 - 2 := by
      rw [UInt8.toNat_ofNat']
      omega
    have hcount : n + 1 + 0x80 - 2 + 2 - 0x80 = n + 1 := by omega
    have hassoc : out ++ UInt8.ofNat (n + 1 + 0x80 - 2) :: lit ++ rest =
        out ++ (UInt8.ofNat (n + 1 + 0x80 - 2) :: (lit ++ rest)) := by simp
    rw [hassoc, Nat.add_assoc, hblocks, Nat.add_comm 1, readBlocks, Reader.before_n,
      Reader.before_ldata, if_pos hlt, Reader.before_bs, getByte_cons]
    simp only [hhdr, hcount]
    rw [if_pos (by omega)]
    have hwhole : (readRun readliteral (lit ++ rest) (n + 1) (r₁.before (lit ++ rest))).bind
        (readBlocks readliteral fuel) = readBlocks readliteral fuel (r₂.before rest) := by
      rw [readRun_replicate hlits, Option.bind_some]
    exact hwhole

/-- **`readrle` reads what `makerle` has written**, literal by literal. -/
theorem readrle_packs {out : List UInt8} {lits : List (List UInt8)} (h : Packs out lits)
    {ldata : Termline} (hlits : lits.length = ldata.cols)
    (hreads : ReadsAll (ReadsLiteral readliteral) ⟨⟨[], false⟩, ldata, 0, 0⟩ lits r')
    (hn : r'.n = r'.ldata.cols) (rest : List UInt8) :
    readrle readliteral ⟨out ++ rest, false⟩ ldata = some (⟨rest, false⟩, r'.ldata) := by
  obtain ⟨blocks, hle, hblocks⟩ := readBlocks_packs h hreads
  have hfuel : blocks + (ldata.cols - blocks) = ldata.cols := by omega
  have hend : readBlocks readliteral (ldata.cols - blocks) (r'.before rest) =
      some (r'.before rest) := by
    cases ldata.cols - blocks <;> simp [readBlocks, hn]
  have hall := hblocks (ldata.cols - blocks) rest
  rw [hfuel, hend] at hall
  refine Option.bind_eq_some_iff.mpr ⟨_, hall, ?_⟩
  simp [hn]

end Reading

section Columns

variable {readliteral : Reader → Option Reader} {makeliteral : Nat → UInt32 → List UInt8 × UInt32}
  {put : Termline → Nat → Termline}

theorem foldl_cols (hcols : ∀ ldata i, (put ldata i).cols = ldata.cols) (is : List Nat)
    (ldata : Termline) : (is.foldl put ldata).cols = ldata.cols := by
  induction is generalizing ldata with
  | nil => rfl
  | cons i is ih => exact (ih _).trans (hcols ldata i)

/-- The literals of the columns are read one after the other. -/
theorem readsAll_columns {cols : Nat} (hcols : ∀ ldata i, (put ldata i).cols = ldata.cols)
    (hread : ∀ i < cols, ∀ ldata state rest,
      readliteral ⟨⟨(makeliteral i state).1 ++ rest, false⟩, ldata, i, state⟩ =
        some ⟨⟨rest, false⟩, put ldata i, i, (makeliteral i state).2⟩)
    (n start : Nat) (ldata : Termline) (hldata : ldata.cols = cols) (hn : start + n = cols)
    (state : UInt32) :
    ∃ state', ReadsAll (ReadsLiteral readliteral) ⟨⟨[], false⟩, ldata, start, state⟩
      (literals makeliteral (List.range' start n) state)
      ⟨⟨[], false⟩, (List.range' start n).foldl put ldata, cols, state'⟩ := by
  induction n generalizing start ldata state with
  | zero =>
      obtain rfl : start = cols := by omega
      exact ⟨state, rfl⟩
  | succ n ih =>
      obtain ⟨state', hrest⟩ := ih (start + 1) (put ldata start) ((hcols ..).trans hldata)
        (by omega) (makeliteral start state).2
      refine ⟨state', ⟨⟨[], false⟩, put ldata start, start + 1, (makeliteral start state).2⟩,
        fun rest => ?_, hrest⟩
      have hlt : start < cols := by omega
      have hliteral := hread start hlt ldata state rest
      simp only [readNext, Reader.before, hldata, if_pos hlt]
      rw [hliteral]
      rfl

/-- **A sequence of literals is written and read.** -/
theorem readrle_makerle (readliteral : Reader → Option Reader)
    (makeliteral : Nat → UInt32 → List UInt8 × UInt32) (put : Termline → Nat → Termline)
    (cols : Nat) (hnonempty : ∀ i state, (makeliteral i state).1 ≠ [])
    (hcols : ∀ ldata i, (put ldata i).cols = ldata.cols)
    (hread : ∀ i < cols, ∀ ldata state rest,
      readliteral ⟨⟨(makeliteral i state).1 ++ rest, false⟩, ldata, i, state⟩ =
        some ⟨⟨rest, false⟩, put ldata i, i, (makeliteral i state).2⟩) (b : List UInt8) :
    ∃ out, makerle makeliteral b (List.range cols) = some (b ++ out) ∧
      ∀ ldata : Termline, ldata.cols = cols → ∀ rest,
        readrle readliteral ⟨out ++ rest, false⟩ ldata =
          some (⟨rest, false⟩, (List.range cols).foldl put ldata) := by
  obtain ⟨out, hmake, hpacks, -⟩ := makerle_packs hnonempty b (List.range cols)
  refine ⟨out, hmake, fun ldata hldata rest => ?_⟩
  obtain ⟨state', hreads⟩ := readsAll_columns hcols hread cols 0 ldata hldata (by simp) 0
  rw [← List.range_eq_range'] at hreads
  exact readrle_packs hpacks (by rw [literals_length, List.length_range, hldata]) hreads
    ((foldl_cols hcols _ ldata).trans hldata).symm rest

end Columns

section Cells

/-- A colour that is not used comes back without a value, and the highest bit of the attributes
does not come back. -/
def Cell.stored (cell : Cell) : Cell :=
  ⟨cell.chr, unpermute (permute cell.attr), ⟨cell.truecolour.fg.normal, cell.truecolour.bg.normal⟩,
    cell.ccs, cell.few, cell.plain⟩

/-- A cell that comes back as it was. -/
def Cell.Kept (cell : Cell) : Prop :=
  cell.attr < 0x80000000 ∧ cell.truecolour.fg.normal = cell.truecolour.fg ∧
    cell.truecolour.bg.normal = cell.truecolour.bg

theorem Cell.stored_of_kept {cell : Cell} (h : cell.Kept) : cell.stored = cell := by
  obtain ⟨hattr, hfg, hbg⟩ := h
  refine Cell.ext rfl (unpermute_permute hattr) ?_ rfl
  rw [Cell.stored, hfg, hbg]

/-- The combining characters of a column are read as they were written. -/
theorem readCcs_literals (ccs : List UInt32) (hccs : 0 ∉ ccs) (fuel : Nat)
    (hfuel : ccs.length < fuel) (r : Reader) (rest : List UInt8) :
    readCcs fuel (r.before (ccs.flatMap (fun chr => (literalChr chr 0).1) ++
      ((literalChr 0 0).1 ++ rest))) =
      some (Reader.before { r with
        ldata := ccs.foldl (fun ldata chr => ldata.addCc r.n chr) r.ldata } rest) := by
  induction ccs generalizing fuel r with
  | nil =>
      obtain ⟨fuel, rfl⟩ : ∃ m, fuel = m + 1 := ⟨fuel - 1, by omega⟩
      simp only [readCcs, List.flatMap_nil, List.nil_append, Reader.before_bs, readChr_literalChr,
        ↓reduceIte]
      rfl
  | cons chr ccs ih =>
      obtain ⟨fuel, rfl⟩ : ∃ m, fuel = m + 1 := ⟨fuel - 1, by omega⟩
      have hchr : chr ≠ 0 := fun h => hccs (by rw [h]; exact List.mem_cons_self)
      rw [List.length_cons] at hfuel
      have hrest := ih (fun h => hccs (List.mem_cons_of_mem _ h)) fuel (by omega)
        { r with ldata := r.ldata.addCc r.n chr }
      rw [List.flatMap_cons, List.append_assoc]
      simp only [readCcs, Reader.before_bs, readChr_literalChr, if_neg hchr]
      exact hrest

theorem readliteralCc_literalCc (ccs : List UInt32) (hccs : 0 ∉ ccs) (ldata : Termline) (i : Nat)
    (state : UInt32) (rest : List UInt8) :
    readliteralCc ⟨⟨(literalCc ccs state).1 ++ rest, false⟩, ldata, i, state⟩ =
      some ⟨⟨rest, false⟩,
        ccs.foldl (fun ldata chr => ldata.addCc i chr) (ldata.setCcNext i 0), i, state⟩ := by
  have hlength : ccs.length ≤ (ccs.flatMap fun chr => (literalChr chr 0).1).length := by
    rw [List.length_flatMap]
    calc ccs.length = (ccs.map fun _ => 1).sum := by simp
      _ ≤ (ccs.map fun chr => (literalChr chr 0).1.length).sum :=
          List.sum_le_sum fun chr _ => List.length_pos_iff.mpr (literalChr_ne_nil chr 0)
  have hassoc : (literalCc ccs state).1 ++ rest =
      ccs.flatMap (fun chr => (literalChr chr 0).1) ++ ((literalChr 0 0).1 ++ rest) := by
    simp [literalCc]
  have hread := readCcs_literals ccs hccs
    ((ccs.flatMap (fun chr => (literalChr chr 0).1) ++ ((literalChr 0 0).1 ++ rest)).length + 1)
    (by rw [List.length_append]; omega) ⟨⟨[], false⟩, ldata.setCcNext i 0, i, state⟩ rest
  rw [readliteralCc, hassoc]
  exact hread

end Cells

namespace Termline

variable {line : Termline} {cells : List Cell}

/-- A function of the cells of the columns. -/
def mapCells (f : Nat → Termchar → Termchar) (line : Termline) : Termline :=
  { line with chars := fun i => if i < line.cols then f i (line.chars i) else line.chars i }

theorem foldl_setCell (f : Nat → Termchar → Termchar) (line : Termline) :
    (List.range line.cols).foldl (fun line i => line.setCell i (f i (line.chars i))) line =
      line.mapCells f := by
  have hprefix : ∀ n, (List.range n).foldl (fun line i => line.setCell i (f i (line.chars i))) line =
      { line with chars := fun i => if i < n then f i (line.chars i) else line.chars i } := by
    intro n
    induction n with
    | zero => simp
    | succ n ih =>
        rw [List.range_succ, List.foldl_append, ih, List.foldl_cons, List.foldl_nil]
        simp only [setCell, lt_irrefl, ↓reduceIte]
        congr 1
        funext i
        by_cases hi : i = n
        · subst hi
          simp
        · rw [Function.update_of_ne hi]
          have hiff : i < n + 1 ↔ i < n := by omega
          simp only [hiff]
  exact hprefix line.cols

/-- What the combining characters leave alone. -/
def frame (line : Termline) : Nat × UInt16 × Bool × Bool :=
  (line.cols, line.lattr, line.trusted, line.temporary)

theorem clearCc_frame (line : Termline) (c : Nat) : (line.clearCc c).frame = line.frame := by
  simp only [clearCc]
  split <;> rfl

theorem addCc_frame (line : Termline) (c : Nat) (chr : UInt32) :
    (line.addCc c chr).frame = line.frame := by
  simp only [addCc]
  split
  · rfl
  · cases lastWithin line.next ccLimit c with
    | none => exact clearCc_frame line c
    | some last => by_cases hfree : line.ccFree = 0 <;> simp only [hfree, ↓reduceIte] <;> rfl

theorem foldl_addCc_frame (c : Nat) (chrs : List UInt32) (line : Termline) :
    (chrs.foldl (fun line chr => line.addCc c chr) line).frame = line.frame := by
  induction chrs generalizing line with
  | nil => rfl
  | cons chr chrs ih => exact (ih _).trans (addCc_frame line c chr)

/-- The combining characters of the columns. -/
def putCcs (ccs : Nat → List UInt32) (line : Termline) (i : Nat) : Termline :=
  (ccs i).foldl (fun line chr => line.addCc i chr) (line.setCcNext i 0)

theorem putCcs_frame (ccs : Nat → List UInt32) (line : Termline) (i : Nat) :
    (putCcs ccs line i).frame = line.frame :=
  foldl_addCc_frame i (ccs i) _

theorem foldl_putCcs_frame (ccs : Nat → List UInt32) (is : List Nat) (line : Termline) :
    (is.foldl (putCcs ccs) line).frame = line.frame := by
  induction is generalizing line with
  | nil => rfl
  | cons i is ih => exact (ih _).trans (putCcs_frame ccs line i)

/-- **The combining characters come back** in all columns. -/
theorem Holds.readCcs (h : Holds line (cells.map Cell.clear)) (ccs : Nat → List UInt32)
    (hccs : ∀ (i : Nat) (cell : Cell), cells[i]? = some cell → ccs i = cell.ccs) (n : Nat)
    (hn : n ≤ cells.length) :
    Holds ((List.range n).foldl (putCcs ccs) line)
      (cells.take n ++ (cells.map Cell.clear).drop n) := by
  induction n with
  | zero => simpa using h
  | succ n ih =>
      have hlt : n < cells.length := hn
      have hprefix := ih (Nat.le_of_succ_le hn)
      have hget : (cells.take n ++ (cells.map Cell.clear).drop n)[n]? = some cells[n].clear := by
        rw [List.getElem?_append_right (by simp)]
        simp [hlt, Nat.min_eq_left hlt.le]
      rw [List.range_succ, List.foldl_append, List.foldl_cons, List.foldl_nil]
      generalize (List.range n).foldl _ line = before at hprefix ⊢
      have hzero := hprefix.ccNext_zero hget rfl
      have hsame : before.setCcNext n 0 = before := by
        rw [setCcNext, ← hzero]
        exact congrArg (fun chars => { before with chars := chars }) (Function.update_eq_self n _)
      have hadded := hprefix.foldl_addCc (c := n) (by simp; omega) (ccs n)
      rw [putCcs, hsame]
      have hcells : (cells.take n ++ (cells.map Cell.clear).drop n).modify n
          (fun cell => (ccs n).foldl Cell.add cell) =
          cells.take (n + 1) ++ (cells.map Cell.clear).drop (n + 1) := by
        have hmap : n < (cells.map Cell.clear).length := by simpa using hlt
        have hrebuild : (ccs n).foldl Cell.add cells[n].clear = cells[n] := by
          rw [hccs n cells[n] (List.getElem?_eq_getElem hlt)]
          exact cells[n].rebuild
        rw [List.drop_eq_getElem_cons hmap, modify_append_cons (by simp [hlt.le]),
          List.take_succ_eq_append_getElem hlt, List.append_assoc, List.singleton_append,
          List.getElem_map, hrebuild]
      rw [hcells] at hadded
      exact hadded

/-- A line without combining characters whose columns are those of another. -/
theorem Holds.plain (h : Holds line cells) {line' : Termline} (hcols : line'.cols = line.cols)
    (hsize : line'.size = line'.cols) (hfree : line'.ccFree = 0)
    (hchars : ∀ i < line.cols, line'.chars i =
      ⟨(line.chars i).chr, unpermute (permute (line.chars i).attr),
        ⟨(line.chars i).truecolour.fg.normal, (line.chars i).truecolour.bg.normal⟩, 0⟩) :
    Holds line' ((cells.map Cell.stored).map Cell.clear) := by
  have hpos : 0 < line.cols := by
    obtain ⟨lists, free, hin⟩ := h
    exact hin.pool.pos
  refine holds_plain (hpos.trans_eq hcols.symm) hsize hfree (by simp [h.length, hcols])
    fun i cell hget => ?_
  rw [List.map_map, List.getElem?_map, Option.map_eq_some_iff] at hget
  obtain ⟨source, hsource, rfl⟩ := hget
  have hi : i < line.cols := by
    rw [← h.length]
    exact (List.getElem?_eq_some_iff.mp hsource).1
  obtain ⟨hchr, hattr, hcolour⟩ := h.shows hsource
  rw [hchars i hi]
  refine ⟨rfl, Cell.ext hchr ?_ ?_ rfl⟩
  · simp only [Function.comp_apply, Cell.clear, Cell.stored, Cell.base, hattr]
  · simp only [Function.comp_apply, Cell.clear, Cell.stored, Cell.base, hcolour]

theorem Holds.ccList (h : Holds line cells) {i : Nat} {cell : Cell} (hget : cells[i]? = some cell) :
    line.ccList i = cell.ccs := by
  obtain ⟨lists, free, h⟩ := h
  exact h.ccList hget

end Termline

section Lines

open Termline

variable {line : Termline} {cells : List Cell}

/-- What comes before the literals. -/
def header (line : Termline) : List UInt8 :=
  putNumber line.cols ++ putNumber (line.lattr.toNat + if line.trusted then 0x10000 else 0)

/-- The line before its literals are read. -/
def blank (heap : Nat → Termchar) (line : Termline) : Termline where
  lattr := line.lattr
  cols := line.cols
  size := line.cols
  temporary := true
  ccFree := 0
  chars := fun i => if i < line.cols then { heap i with ccNext := 0 } else heap i
  trusted := line.trusted

/-- The number of columns and the attributes of the line come back. -/
theorem decompressline_header (heap : Nat → Termchar) (line : Termline) (data : List UInt8) :
    decompressline heap (header line ++ data) =
      (readrle readliteralChr ⟨data, false⟩ (blank heap line)).bind fun r =>
        (readrle readliteralAttr r.1 r.2).bind fun r =>
          (readrle readliteralTruecolour r.1 r.2).bind fun r =>
            (readrle readliteralCc r.1 r.2).bind fun r =>
              if r.1.err = false ∧ r.1.rest = [] then some r.2 else none := by
  have hlt := line.lattr.toNat_lt
  have hlattr : UInt16.ofNat (line.lattr.toNat + if line.trusted then 0x10000 else 0) =
      line.lattr := by
    apply UInt16.toNat_inj.mp
    rw [UInt16.toNat_ofNat']
    split <;> omega
  have htrusted : decide ((line.lattr.toNat + if line.trusted then 0x10000 else 0) / 0x10000 % 2 = 1) =
      line.trusted := by
    cases line.trusted <;> simp <;> omega
  simp only [decompressline, header, List.append_assoc, getNumber_putNumber, Bool.false_eq_true,
    ↓reduceIte, htrusted, hlattr, blank]

/-- The fields of the cells are written and read. -/
theorem readrle_field (readliteral : Reader → Option Reader)
    (makeliteral : Nat → UInt32 → List UInt8 × UInt32) (f : Nat → Termchar → Termchar) (cols : Nat)
    (hnonempty : ∀ i state, (makeliteral i state).1 ≠ [])
    (hread : ∀ i ldata state rest,
      readliteral ⟨⟨(makeliteral i state).1 ++ rest, false⟩, ldata, i, state⟩ =
        some ⟨⟨rest, false⟩, ldata.setCell i (f i (ldata.chars i)), i, (makeliteral i state).2⟩)
    (b : List UInt8) :
    ∃ out, makerle makeliteral b (List.range cols) = some (b ++ out) ∧
      ∀ ldata : Termline, ldata.cols = cols → ∀ rest,
        readrle readliteral ⟨out ++ rest, false⟩ ldata =
          some (⟨rest, false⟩, ldata.mapCells f) := by
  obtain ⟨out, hmake, hreads⟩ := readrle_makerle readliteral makeliteral
    (fun ldata i => ldata.setCell i (f i (ldata.chars i))) cols hnonempty (fun _ _ => rfl)
    (fun i _ => hread i) b
  exact ⟨out, hmake, fun ldata hldata rest => by
    rw [hreads ldata hldata rest, ← hldata, foldl_setCell]⟩

/-- **A line goes into the scrollback and comes back**: compressing it never fails, and what is
decompressed stands for the same cells, whatever was in the memory; only a colour that is not used
and the highest bit of the attributes are lost. -/
theorem decompressline_compressline (h : Holds line cells) (hccs : ∀ cell ∈ cells, 0 ∉ cell.ccs) :
    ∃ data, compressline line = some data ∧
      ∀ heap, ∃ line', decompressline heap data = some line' ∧
        Holds line' (cells.map Cell.stored) ∧
        ((∀ cell ∈ cells, cell.Kept) → Holds line' cells) ∧
        line'.cols = line.cols ∧ line'.lattr = line.lattr ∧ line'.trusted = line.trusted ∧
        line'.temporary = true := by
  have hnozero : ∀ i < line.cols, 0 ∉ line.ccList i := fun i hi => by
    have hget := List.getElem?_eq_getElem (hi.trans_eq h.length.symm)
    rw [h.ccList hget]
    exact hccs _ (List.getElem_mem _)
  have hasserts : ((List.range line.cols).any fun i => (line.ccList i).contains 0) = false := by
    simpa using hnozero
  -- the four sequences
  obtain ⟨chrs, hchrs, hreadChrs⟩ := readrle_field readliteralChr
    (fun i => literalChr (line.chars i).chr) (fun i c => { c with chr := (line.chars i).chr })
    line.cols (fun i state => literalChr_ne_nil _ _)
    (fun i ldata state rest => by simp only [readliteralChr, readChr_literalChr]; rfl) (header line)
  obtain ⟨attrs, hattrs, hreadAttrs⟩ := readrle_field readliteralAttr
    (fun i => literalAttr (line.chars i).attr)
    (fun i c => { c with attr := unpermute (permute (line.chars i).attr) }) line.cols
    (fun i state => by simp only [literalAttr]; split_ifs <;> simp)
    (fun i ldata state rest => by simp only [readliteralAttr, readAttr_literalAttr]; rfl)
    (header line ++ chrs)
  obtain ⟨colours, hcolours, hreadColours⟩ := readrle_field readliteralTruecolour
    (fun i => literalTruecolour (line.chars i).truecolour)
    (fun i c => { c with truecolour :=
      ⟨(line.chars i).truecolour.fg.normal, (line.chars i).truecolour.bg.normal⟩ }) line.cols
    (fun i state => by simp [literalTruecolour])
    (fun i ldata state rest => by
      simp only [readliteralTruecolour, readTruecolour_literalTruecolour]; rfl)
    (header line ++ chrs ++ attrs)
  obtain ⟨ccs, hccsMade, hreadCcs⟩ := readrle_makerle readliteralCc
    (fun i => literalCc (line.ccList i)) (putCcs line.ccList) line.cols
    (fun i state => by simp [literalCc, literalChr_ne_nil])
    (fun ldata i => congrArg Prod.fst (putCcs_frame line.ccList ldata i))
    (fun i hi ldata state rest => readliteralCc_literalCc _ (hnozero i hi) ldata i state rest)
    (header line ++ chrs ++ attrs ++ colours)
  refine ⟨header line ++ chrs ++ attrs ++ colours ++ ccs, ?_, fun heap => ?_⟩
  · rw [header] at hchrs hattrs hcolours hccsMade
    simp only [compressline, hchrs, hattrs, hcolours, hasserts, hccsMade, Option.bind_some,
      Bool.false_eq_true, ↓reduceIte, header]
  have hdata : header line ++ chrs ++ attrs ++ colours ++ ccs =
      header line ++ (chrs ++ (attrs ++ (colours ++ (ccs ++ [])))) := by simp
  rw [hdata, decompressline_header]
  rw [hreadChrs (blank heap line) rfl, Option.bind_some, hreadAttrs, Option.bind_some, hreadColours,
    Option.bind_some, hreadCcs, Option.bind_some]
  · generalize hl : mapCells _ (mapCells _ (mapCells _ (blank heap line))) = l
    have hplain : Holds l ((cells.map Cell.stored).map Cell.clear) := by
      subst hl
      exact h.plain rfl rfl rfl fun i hi => by simp [mapCells, blank, hi]
    have hframe : ((List.range line.cols).foldl (putCcs line.ccList) l).frame =
        (line.cols, line.lattr, line.trusted, true) := by
      subst hl
      exact foldl_putCcs_frame ..
    have hall := hplain.readCcs line.ccList (fun i cell hget => by
      rw [List.getElem?_map, Option.map_eq_some_iff] at hget
      obtain ⟨source, hsource, rfl⟩ := hget
      have hccList := h.ccList hsource
      exact hccList) line.cols (by simp [h.length])
    rw [List.take_of_length_le (by simp [h.length]), List.drop_of_length_le (by simp [h.length]),
      List.append_nil] at hall
    simp only [frame, Prod.mk.injEq] at hframe
    obtain ⟨hcols, hlattr, htrusted, htemporary⟩ := hframe
    refine ⟨_, by simp only [and_self, ↓reduceIte], hall, fun hkept => ?_, hcols, hlattr, htrusted,
      htemporary⟩
    have hsame : cells.map Cell.stored = cells := by
      conv_rhs => rw [← List.map_id cells]
      exact List.map_congr_left fun cell hcell => Cell.stored_of_kept (hkept cell hcell)
    rw [hsame] at hall
    exact hall
  · rfl
  · rfl
  · rfl

theorem decompressline_compressline_sample :
    ∃ data, compressline ((newtermline 3 space.val).addCc 1 0x301) = some data ∧
      ∀ heap, ∃ line', decompressline heap data = some line' ∧
        Holds line' [Cell.base space.val, (Cell.base space.val).add 0x301, Cell.base space.val] := by
  have hline : Holds ((newtermline 3 space.val).addCc 1 0x301)
      [Cell.base space.val, (Cell.base space.val).add 0x301, Cell.base space.val] :=
    (holds_newtermline (by decide) rfl).addCc (c := 1) (by decide) 0x301
  obtain ⟨data, hdata, hback⟩ := decompressline_compressline hline (by decide)
  refine ⟨data, hdata, fun heap => ?_⟩
  obtain ⟨line', hline', -, hkept, -⟩ := hback heap
  exact ⟨line', hline', hkept (by simp only [Cell.Kept]; decide)⟩

end Lines

end Terminal
end Qutty
