import Qutty.Config.Writing

/-!
# Values that are written and read

A value goes through an attribute: it is written as a text, and the Latin-1 form of the
text is read.  Numbers (`toInt_numberText`, `viewToInt_numberText`), names of options
(`key_of_name`) and colours (`toInt_colour`) come back as they were; what becomes of
text is `recode`.
-/

namespace Qutty
namespace Config

open Lib Lib.ByteOrder Lib.Istream Lib.PullParser Menu

section Text

/-- The C string of an attribute. -/
def recode (text : Text) : CStr := cstr (toLatin1 text)

theorem toLatin1_asciiText {bytes : List UInt8} (h : ∀ b ∈ bytes, PlainByte b) :
    toLatin1 (asciiText bytes) = bytes := by
  rw [toLatin1_of_plain (plain_asciiText h), toUtf8_asciiText (fun b hb => (h b hb).2)]

theorem recode_fromUtf8 {s : CStr} (h : ∀ b ∈ s.val, PlainByte b) : recode (fromUtf8 s.val) = s := by
  rw [recode, toLatin1_fromUtf8_of_plain h, cstr_val]

variable {k : ConfOption} (hk : k ∈ confOptions)

include hk in
theorem toLatin1_optionName : toLatin1 (optionName k) = k.bytes :=
  toLatin1_asciiText (confOptions_plain k hk)

include hk in
/-- An option is read under its name. -/
theorem key_of_name {tag : Tag} (h : tag.value attrKey = optionName k) :
    (Read.of tag).key = some k := by
  have hbytes : (cstr k.bytes).val = k.bytes :=
    cstr_val_of_notMem (fun h0 => absurd (confOptions_plain k hk 0 h0).1 (by decide))
  simp only [Read.of, h, toLatin1_optionName hk]
  exact keyFor_bytes hk hbytes

end Text

section Numbers

theorem numberText_eq (i : Int) : numberText i = asciiText (numeralBytes i) := by
  rw [numberText, asciiText, ← toNat_numeralBytes, List.map_map]
  rfl

theorem plain_numeralBytes (i : Int) : ∀ b ∈ numeralBytes i, PlainByte b := by
  intro b hb
  have hmem : b.toNat ∈ intNumeral i := toNat_numeralBytes i ▸ List.mem_map_of_mem hb
  rw [PlainByte]
  rcases mem_intNumeral hmem with h | h <;> omega

theorem toLatin1_numberText (i : Int) : toLatin1 (numberText i) = numeralBytes i := by
  rw [numberText_eq, toLatin1_asciiText (plain_numeralBytes i)]

theorem fitsInt_val (v : CInt) : fitsInt v.val = some v := by
  rw [fitsInt, dif_pos v.property]

/-- Without the prefix of base 16 a number is what `strtol` reads. -/
theorem toInt_eq (bytes : List UInt8) {i : Int}
    (h : readInt UInt8.toNat 10 bytes = some (i, [])) : toInt 10 bytes = fitsInt i := by
  have hprefix : ∀ cs, skipPrefix 10 cs = cs := by
    intro cs
    unfold skipPrefix
    split
    · exact if_neg (by simp)
    · rfl
  rw [readInt] at h
  simp only [toInt, hprefix]
  generalize readSign UInt8.toNat (bytes.dropWhile (fun b => isSpace b.toNat)) = signed at h ⊢
  obtain ⟨neg, ds⟩ := signed
  obtain ⟨⟨v, rest⟩, hmag, hv⟩ := Option.map_eq_some_iff.mp h
  obtain ⟨rfl, rfl⟩ := Prod.mk.inj hv
  simp only [hmag]

/-- **A number that is written is read.** -/
theorem toInt_numberText (v : CInt) : toInt 10 (toLatin1 (numberText v.val)) = some v := by
  have hread := readInt_intNumeral (toNat_numeralBytes v.val)
    (fun c hc => absurd hc (by simp) : ∀ c ∈ ([] : List UInt8).head?, digitValue 10 c.toNat = none)
  rw [List.append_nil] at hread
  rw [toLatin1_numberText, toInt_eq _ hread, fitsInt_val]

theorem toNat_numberText (i : Int) : (numberText i).map Char.toNat = intNumeral i := by
  rw [numberText, List.map_map]
  conv_rhs => rw [← List.map_id (intNumeral i)]
  refine List.map_congr_left fun c hc => toNat_ofNat ?_
  rcases mem_intNumeral hc with rfl | hdigit
  · decide
  · omega

theorem isSpaceChar_numberText {i : Int} {c : Char} (hc : c ∈ numberText i) :
    isSpaceChar c = false := by
  have hmem : c.toNat ∈ intNumeral i := toNat_numberText i ▸ List.mem_map_of_mem hc
  have hrange : 45 ≤ c.toNat ∧ c.toNat ≤ 57 := by
    rcases mem_intNumeral hmem with h | h <;> omega
  simp [isSpaceChar, isSpace]
  omega

/-- There are no blanks around a number. -/
theorem trim_numberText (i : Int) :
    (((numberText i).dropWhile isSpaceChar).reverse.dropWhile isSpaceChar).reverse =
      numberText i := by
  have hdrop : ∀ cs : Text, (∀ c ∈ cs, isSpaceChar c = false) → cs.dropWhile isSpaceChar = cs := by
    intro cs hcs
    cases cs with
    | nil => rfl
    | cons c cs => rw [List.dropWhile_cons_of_neg (by simp [hcs c (by simp)])]
  rw [hdrop _ (fun c hc => isSpaceChar_numberText hc), hdrop _ (fun c hc =>
    isSpaceChar_numberText (List.mem_reverse.mp hc)), List.reverse_reverse]

theorem readInt_numberText (i : Int) :
    readInt Char.toNat 10 (numberText i) = some (i, []) := by
  have hread := readInt_intNumeral (toNat_numberText i)
    (fun c hc => absurd hc (by simp) : ∀ c ∈ ([] : Text).head?, digitValue 10 c.toNat = none)
  rwa [List.append_nil] at hread

/-- The same for `QStringView::toInt`. -/
theorem viewToInt_numberText (v : CInt) : viewToInt (numberText v.val) = v := by
  simp only [viewToInt, trim_numberText, readInt_numberText, fitsInt_val, Option.getD_some]

end Numbers

section Colours

/-- A component of a colour. -/
def Component (v : CInt) : Prop := 0 ≤ v.val ∧ v.val < 256

/-- `%02X` of a component: its two digits. -/
theorem hexText_eq {v : CInt} (h : Component v) :
    hexText v.val = [digitCode (v.val.toNat / 16), digitCode (v.val.toNat % 16)].map Char.ofNat := by
  obtain ⟨n, hn⟩ := Int.eq_ofNat_of_zero_le h.1
  have hlt : n < 256 := by
    have := h.2
    omega
  have huint : toUint32 v.val = n := by
    rw [toUint32, hn]
    omega
  rw [hexText, huint, hn]
  simp only [Int.toNat_natCast]
  by_cases hzero : n = 0
  · subst hzero
    rfl
  · by_cases hsmall : n < 16
    · have hdiv : n / 16 = 0 := Nat.div_eq_of_lt hsmall
      rw [numeral, if_neg hzero, Nat.digits_of_lt 16 n hzero hsmall, hdiv,
        Nat.mod_eq_of_lt hsmall]
      rfl
    · have hdigits : Nat.digits 16 n = [n % 16, n / 16] := by
        rw [Nat.digits_def' (by omega) (by omega),
          Nat.digits_of_lt 16 (n / 16) (by omega) (by omega)]
      rw [numeral, if_neg hzero, hdigits]
      rfl

/-- Hexadecimal digits are read as a number; the second one is no `x`. -/
theorem toInt_hexDigits {d₁ d₂ : Nat} {ds : List Nat} (h : ∀ d ∈ d₁ :: d₂ :: ds, d < 16)
    (v : CInt) (hv : ((d₁ :: d₂ :: ds).foldl (fun a d => 16 * a + d) 0 : Nat) = v.val) :
    toInt 16 (((d₁ :: d₂ :: ds).map digitCode).map Nat.toUInt8) = some v := by
  have hcode : ∀ d < 16, (digitCode d).toUInt8.toNat = digitCode d ∧
      isSpace (digitCode d) = false ∧ digitCode d ≠ 45 ∧ digitCode d ≠ 43 ∧
      digitCode d ≠ 120 ∧ digitCode d ≠ 88 := by
    decide
  have hbytes : (((d₁ :: d₂ :: ds).map digitCode).map Nat.toUInt8).map UInt8.toNat =
      (d₁ :: d₂ :: ds).map digitCode := by
    rw [List.map_map, List.map_map]
    exact List.map_congr_left fun d hd => (hcode d (h d hd)).1
  obtain ⟨hnat₁, hspace, hminus, hplus, -⟩ := hcode d₁ (h d₁ (by simp))
  obtain ⟨hnat₂, -, -, -, hx, hX⟩ := hcode d₂ (h d₂ (by simp))
  have hread : readDigits UInt8.toNat 16 0 (((d₁ :: d₂ :: ds).map digitCode).map Nat.toUInt8) =
      ((d₁ :: d₂ :: ds).foldl (fun a d => 16 * a + d) 0, []) := by
    have happend := readDigits_append hbytes h (by omega) 0 []
    rw [List.append_nil] at happend
    exact happend
  have hval := digitValue_digitCode (h d₁ (by simp)) (by omega : 16 ≤ 36)
  have hprefix : skipPrefix 16 (((d₁ :: d₂ :: ds).map digitCode).map Nat.toUInt8) =
      ((d₁ :: d₂ :: ds).map digitCode).map Nat.toUInt8 := by
    unfold skipPrefix
    split
    · rename_i x d rest heq
      simp only [List.map_cons, List.cons.injEq] at heq
      rw [if_neg]
      rintro ⟨-, hX', -⟩
      rw [← heq.2.1] at hX'
      rcases hX' with hX' | hX'
      · exact hx (by rw [← hnat₂, hX']; rfl)
      · exact hX (by rw [← hnat₂, hX']; rfl)
    · rfl
  have hmag : readMagnitude UInt8.toNat 16 (((d₁ :: d₂ :: ds).map digitCode).map Nat.toUInt8) =
      some ((d₁ :: d₂ :: ds).foldl (fun a d => 16 * a + d) 0, []) := by
    rw [← hread]
    simp only [List.map_cons, readMagnitude, hnat₁, hval]
  have hsign : readSign UInt8.toNat
      ((((d₁ :: d₂ :: ds).map digitCode).map Nat.toUInt8).dropWhile (fun b => isSpace b.toNat)) =
        (false, ((d₁ :: d₂ :: ds).map digitCode).map Nat.toUInt8) := by
    simp only [List.map_cons, List.dropWhile_cons, hnat₁, hspace, Bool.false_eq_true, if_false,
      readSign, hminus, hplus]
  simp only [toInt, hsign, hprefix, hmag, Bool.false_eq_true, if_false]
  rw [hv, fitsInt_val]

/-- The number of a colour. -/
def colourValue {r g b : CInt} (hr : Component r) (hg : Component g) (hb : Component b) : CInt :=
  ⟨(r.val * 256 + g.val) * 256 + b.val, by
    obtain ⟨hr₀, hr₁⟩ := hr
    obtain ⟨hg₀, hg₁⟩ := hg
    obtain ⟨hb₀, hb₁⟩ := hb
    omega⟩

/-- **A colour that is written is read.** -/
theorem toInt_colour {r g b : CInt} (hr : Component r) (hg : Component g) (hb : Component b) :
    toInt 16 (toLatin1 (hexText r.val ++ (hexText g.val ++ hexText b.val))) =
      some (colourValue hr hg hb) := by
  have hr' := hr
  have hg' := hg
  have hb' := hb
  obtain ⟨hr₀, hr₁⟩ := hr'
  obtain ⟨hg₀, hg₁⟩ := hg'
  obtain ⟨hb₀, hb₁⟩ := hb'
  have hdigits : toLatin1 (hexText r.val ++ (hexText g.val ++ hexText b.val)) =
      ([r.val.toNat / 16, r.val.toNat % 16, g.val.toNat / 16, g.val.toNat % 16,
        b.val.toNat / 16, b.val.toNat % 16].map digitCode).map Nat.toUInt8 := by
    have hlatin : ∀ d < 16, latin1 (Char.ofNat (digitCode d)) = [(digitCode d).toUInt8] := by
      decide
    rw [hexText_eq hr, hexText_eq hg, hexText_eq hb]
    simp only [toLatin1, List.map_cons, List.map_nil, List.cons_append, List.nil_append,
      List.flatMap_cons, List.flatMap_nil, List.append_nil]
    rw [hlatin _ (by omega), hlatin _ (by omega), hlatin _ (by omega), hlatin _ (by omega),
      hlatin _ (by omega), hlatin _ (by omega)]
    rfl
  rw [hdigits]
  refine toInt_hexDigits (fun d hd => ?_) _ ?_
  · simp only [List.mem_cons, List.not_mem_nil, or_false] at hd
    omega
  · simp only [List.foldl_cons, List.foldl_nil, colourValue]
    omega

/-- The bytes of a colour are its components. -/
theorem colourByte_colourValue {r g b : CInt} (hr : Component r) (hg : Component g)
    (hb : Component b) :
    colourByte (colourValue hr hg hb) 16 = r ∧ colourByte (colourValue hr hg hb) 8 = g ∧
      colourByte (colourValue hr hg hb) 0 = b := by
  have hr' := hr
  have hg' := hg
  have hb' := hb
  obtain ⟨hr₀, hr₁⟩ := hr'
  obtain ⟨hg₀, hg₁⟩ := hg'
  obtain ⟨hb₀, hb₁⟩ := hb'
  refine ⟨Subtype.ext ?_, Subtype.ext ?_, Subtype.ext ?_⟩
  · simp only [colourByte, colourValue]
    omega
  · simp only [colourByte, colourValue]
    omega
  · simp only [colourByte, colourValue]
    omega

end Colours

end Config
end Qutty
