import Mathlib.Tactic
import Mathlib.Data.List.Lex
import Mathlib.Data.List.TakeWhile

/-!
# Text and its encodings

A text is a sequence of Unicode characters, and a C string a sequence of bytes
without NUL.  Latin-1 has one byte for each UTF-16 code unit and a question mark
for what it cannot express; UTF-8 is decoded with a replacement character for
each byte that begins no character.

Texts of plain characters, the seven bit ones other than NUL, are the same in
both encodings, and these are the only ones:

* `cstr_toLatin1_eq_toUtf8` compares the two encodings of one text;
* `fromUtf8_cstr_toLatin1` says which texts survive being written in Latin-1 and
  read as UTF-8.
-/

namespace Qutty
namespace Lib

/-- A sequence of Unicode characters. -/
abbrev Text := List Char

namespace ByteOrder

/-- Bytes are ordered by their number. -/
scoped instance linearOrderByte : LinearOrder UInt8 where
  le_refl := UInt8.le_refl
  le_trans _ _ _ := UInt8.le_trans
  le_antisymm _ _ := UInt8.le_antisymm
  le_total := UInt8.le_total
  lt_iff_le_not_ge a b := by
    rw [UInt8.le_iff_toNat_le, UInt8.le_iff_toNat_le, UInt8.lt_iff_toNat_lt]
    omega
  toDecidableLE := inferInstance
  toDecidableLT := inferInstance
  toDecidableEq := inferInstance

end ByteOrder

/-- Bytes without NUL. -/
abbrev CStr := { bytes : List UInt8 // 0 ∉ bytes }

/-- The C string at the start of some bytes. -/
def cstr (bytes : List UInt8) : CStr :=
  ⟨bytes.takeWhile (· ≠ 0), fun h => by simpa using List.mem_takeWhile_imp h⟩

/-- A seven bit character other than NUL. -/
def Plain (c : Char) : Prop := 0 < c.toNat ∧ c.toNat < 128

instance (c : Char) : Decidable (Plain c) := inferInstanceAs (Decidable (_ ∧ _))

/-- A seven bit byte other than NUL. -/
def PlainByte (b : UInt8) : Prop := 0 < b.toNat ∧ b.toNat < 128

instance (b : UInt8) : Decidable (PlainByte b) := inferInstanceAs (Decidable (_ ∧ _))

/-- The number of UTF-16 code units of a character. -/
def utf16Size (c : Char) : Nat := if c.toNat < 65536 then 1 else 2

/-- The number of UTF-16 code units of a text. -/
def utf16Length (text : Text) : Nat := (text.map utf16Size).sum

/-- The Latin-1 bytes of a character: `?` for each code unit above 255. -/
def latin1 (c : Char) : List UInt8 :=
  if c.toNat < 256 then [c.toNat.toUInt8] else List.replicate (utf16Size c) 63

/-- `QString::toLatin1`. -/
def toLatin1 (text : Text) : List UInt8 := text.flatMap latin1

/-- `QString::toUtf8`. -/
def toUtf8 (text : Text) : List UInt8 := text.flatMap String.utf8EncodeChar

/-- What stands for a byte that begins no character. -/
def replacement : Char := Char.ofNat 0xFFFD

/-- The characters of some bytes, at most `fuel` of them. -/
def decodeUtf8 : Nat → List UInt8 → Text
  | 0, _ => []
  | _ + 1, [] => []
  | fuel + 1, b :: bs =>
      match ByteArray.utf8DecodeChar? (b :: bs).toByteArray 0 with
      | some c => c :: decodeUtf8 fuel ((b :: bs).drop c.utf8Size)
      | none => replacement :: decodeUtf8 fuel bs

/-- `QString::fromUtf8`. -/
def fromUtf8 (bytes : List UInt8) : Text := decodeUtf8 bytes.length bytes

section CStrings

theorem cstr_val_of_notMem {bytes : List UInt8} (h : 0 ∉ bytes) : (cstr bytes).val = bytes := by
  refine List.takeWhile_eq_self_iff.mpr ?_
  intro b hb
  simpa using fun h0 : b = 0 => h (h0 ▸ hb)

@[simp] theorem cstr_val (s : CStr) : cstr s.val = s :=
  Subtype.ext (cstr_val_of_notMem s.property)

theorem length_cstr_le (bytes : List UInt8) : (cstr bytes).val.length ≤ bytes.length :=
  (List.takeWhile_sublist _).length_le

/-- A C string as long as the bytes that it was taken from is all of them. -/
theorem cstr_val_of_length {bytes : List UInt8} (h : bytes.length ≤ (cstr bytes).val.length) :
    (cstr bytes).val = bytes :=
  (List.takeWhile_sublist _).eq_of_length_le h

end CStrings

section FlatMap

variable {α β : Type} {f g : α → List β}

theorem length_flatMap_le (hlen : ∀ a, (f a).length ≤ (g a).length) (xs : List α) :
    (xs.flatMap f).length ≤ (xs.flatMap g).length := by
  induction xs with
  | nil => exact le_rfl
  | cons x xs ih =>
      have hx := hlen x
      simp only [List.flatMap_cons, List.length_append]
      omega

/-- Two encodings of which one is never longer agree on a sequence if and only
if they agree on each element. -/
theorem flatMap_eq_iff (hlen : ∀ a, (f a).length ≤ (g a).length) (xs : List α) :
    xs.flatMap f = xs.flatMap g ↔ ∀ x ∈ xs, f x = g x := by
  induction xs with
  | nil => simp
  | cons x xs ih =>
      constructor
      · intro h
        have hx := hlen x
        have hxs := length_flatMap_le hlen xs
        rw [List.flatMap_cons, List.flatMap_cons] at h
        have htotal := congrArg List.length h
        rw [List.length_append, List.length_append] at htotal
        obtain ⟨hhead, htail⟩ := List.append_inj h (by omega)
        intro y hy
        rcases List.mem_cons.mp hy with rfl | hy
        · exact hhead
        · exact ih.mp htail y hy
      · intro h
        rw [List.flatMap_cons, List.flatMap_cons, h x (by simp),
          ih.mpr (fun y hy => h y (by simp [hy]))]

end FlatMap

section Characters

variable (c : Char)

@[simp] theorem length_latin1 : (latin1 c).length = utf16Size c := by
  rw [latin1]
  split_ifs with h
  · have hbmp : c.toNat < 65536 := by omega
    simp [utf16Size, hbmp]
  · simp

theorem length_toLatin1 (text : Text) : (toLatin1 text).length = utf16Length text := by
  simp [toLatin1, utf16Length, List.length_flatMap]

theorem utf8Size_cases :
    (c.toNat < 128 ∧ c.utf8Size = 1) ∨ (128 ≤ c.toNat ∧ c.toNat < 2048 ∧ c.utf8Size = 2) ∨
      (2048 ≤ c.toNat ∧ c.toNat < 65536 ∧ c.utf8Size = 3) ∨
      (65536 ≤ c.toNat ∧ c.utf8Size = 4) := by
  have hval : c.toNat = c.val.toNat := rfl
  have h1 : c.val ≤ 127 ↔ c.toNat ≤ 127 := by rw [UInt32.le_iff_toNat_le, hval]; rfl
  have h2 : c.val ≤ 2047 ↔ c.toNat ≤ 2047 := by rw [UInt32.le_iff_toNat_le, hval]; rfl
  have h3 : c.val ≤ 65535 ↔ c.toNat ≤ 65535 := by rw [UInt32.le_iff_toNat_le, hval]; rfl
  have hsize : c.utf8Size =
      if c.val ≤ 127 then 1 else if c.val ≤ 2047 then 2 else if c.val ≤ 65535 then 3 else 4 := rfl
  rw [hsize]
  simp only [h1, h2, h3]
  split_ifs <;> omega

theorem utf16Size_le_utf8Size : utf16Size c ≤ c.utf8Size := by
  rw [utf16Size]
  rcases utf8Size_cases c with h | h | h | h <;> split_ifs <;> omega

theorem utf8Size_pos : 0 < c.utf8Size := by
  rcases utf8Size_cases c with h | h | h | h <;> omega

/-- Only seven bit characters take no more bytes than code units. -/
theorem lt_of_utf8Size_le {c : Char} (h : c.utf8Size ≤ utf16Size c) : c.toNat < 128 := by
  rw [utf16Size] at h
  rcases utf8Size_cases c with h' | h' | h' | h' <;> split_ifs at h <;> omega

theorem utf8EncodeChar_of_lt {c : Char} (h : c.toNat < 128) :
    String.utf8EncodeChar c = [c.toNat.toUInt8] := by
  have hsize : c.utf8Size = 1 := by
    rcases utf8Size_cases c with h' | h' | h' | h' <;> omega
  rw [String.utf8EncodeChar_eq_singleton hsize]
  rfl

theorem latin1_of_lt {c : Char} (h : c.toNat < 256) : latin1 c = [c.toNat.toUInt8] :=
  if_pos h

/-- Only NUL is encoded with a NUL. -/
theorem zero_mem_utf8 {c : Char} (h : 0 ∈ String.utf8EncodeChar c) : c.toNat = 0 := by
  have hbyte : ∀ n d : Nat, 128 ≤ d → n + d < 256 → (0 : UInt8) ≠ UInt8.ofNat (n + d) := by
    intro n d hd hlt h0
    have hnat := congrArg UInt8.toNat h0
    simp only [UInt8.toNat_ofNat', UInt8.toNat_zero] at hnat
    omega
  have hval : c.toNat = c.val.toNat := rfl
  unfold String.utf8EncodeChar at h
  dsimp only at h
  split_ifs at h with h1 h2 h3
  · have hnat := congrArg UInt8.toNat (List.mem_singleton.mp h)
    simp only [UInt8.toNat_ofNat', UInt8.toNat_zero] at hnat
    omega
  · simp only [List.mem_cons, List.not_mem_nil, or_false] at h
    rcases h with h | h <;> exact absurd h (hbyte _ _ (by omega) (by omega))
  · simp only [List.mem_cons, List.not_mem_nil, or_false] at h
    rcases h with h | h | h <;> exact absurd h (hbyte _ _ (by omega) (by omega))
  · simp only [List.mem_cons, List.not_mem_nil, or_false] at h
    rcases h with h | h | h | h <;> exact absurd h (hbyte _ _ (by omega) (by omega))

/-- The two encodings of a character agree on the seven bit ones. -/
theorem latin1_eq_utf8_iff : latin1 c = String.utf8EncodeChar c ↔ c.toNat < 128 := by
  constructor
  · intro h
    apply lt_of_utf8Size_le
    rw [← String.length_utf8EncodeChar, ← h, length_latin1]
  · intro h
    rw [utf8EncodeChar_of_lt h, latin1_of_lt (by omega)]

theorem length_latin1_le_utf8 : (latin1 c).length ≤ (String.utf8EncodeChar c).length := by
  rw [length_latin1, String.length_utf8EncodeChar]
  exact utf16Size_le_utf8Size c

theorem zero_mem_latin1 {c : Char} (h : 0 ∈ latin1 c) : c.toNat = 0 := by
  rw [latin1] at h
  split_ifs at h with hlt
  · have h0 := congrArg UInt8.toNat (List.mem_singleton.mp h)
    have hmod : c.toNat % 256 = 0 := by simpa using h0.symm
    omega
  · exact absurd (List.eq_of_mem_replicate h) (by decide)

end Characters

section Decoding

theorem decodeUtf8_char (c : Char) (bs : List UInt8) (fuel : Nat) :
    decodeUtf8 (fuel + 1) (String.utf8EncodeChar c ++ bs) = c :: decodeUtf8 fuel bs := by
  have hdec : ByteArray.utf8DecodeChar? (String.utf8EncodeChar c ++ bs).toByteArray 0 = some c := by
    rw [List.toByteArray_append]
    exact ByteArray.utf8DecodeChar?_utf8EncodeChar_append
  have hlen := String.length_utf8EncodeChar c
  have hpos := utf8Size_pos c
  have hdrop : (String.utf8EncodeChar c ++ bs).drop c.utf8Size = bs := by
    rw [← hlen, List.drop_left]
  cases hbytes : String.utf8EncodeChar c ++ bs with
  | nil =>
      have h0 := congrArg List.length hbytes
      rw [List.length_append] at h0
      simp only [List.length_nil] at h0
      omega
  | cons b rest =>
      rw [hbytes] at hdec hdrop
      rw [decodeUtf8, hdec]
      simp only [hdrop]

/-- Decoding needs one unit of fuel for each character. -/
theorem decodeUtf8_toUtf8 (text : Text) (fuel : Nat) (h : text.length ≤ fuel) :
    decodeUtf8 fuel (toUtf8 text) = text := by
  induction text generalizing fuel with
  | nil => cases fuel <;> rfl
  | cons c text ih =>
      cases fuel with
      | zero => simp at h
      | succ fuel =>
          have h' : text.length ≤ fuel := by simpa using h
          have hcons : toUtf8 (c :: text) = String.utf8EncodeChar c ++ toUtf8 text := rfl
          rw [hcons, decodeUtf8_char, ih fuel h']

theorem length_le_toUtf8 (text : Text) : text.length ≤ (toUtf8 text).length := by
  induction text with
  | nil => exact le_rfl
  | cons c text ih =>
      have hpos := utf8Size_pos c
      rw [← String.length_utf8EncodeChar] at hpos
      simp only [toUtf8, List.flatMap_cons, List.length_append, List.length_cons] at ih ⊢
      omega

/-- **A text in UTF-8 is read back.** -/
@[simp] theorem fromUtf8_toUtf8 (text : Text) : fromUtf8 (toUtf8 text) = text :=
  decodeUtf8_toUtf8 text _ (length_le_toUtf8 text)

theorem toUtf8_injective : Function.Injective toUtf8 :=
  Function.LeftInverse.injective fromUtf8_toUtf8

/-- A decoded character and the bytes behind it. -/
theorem length_of_utf8DecodeChar {bs : List UInt8} {c : Char}
    (h : ByteArray.utf8DecodeChar? bs.toByteArray 0 = some c) :
    c.utf8Size ≤ bs.length := by
  have heq := congrArg ByteArray.size (ByteArray.eq_of_utf8DecodeChar?_eq_some h)
  rw [ByteArray.size_append] at heq
  simp only [List.size_toByteArray, String.length_utf8EncodeChar] at heq
  omega

/-- What is decoded has no more code units than there were bytes; with as many,
every byte was a character of its own. -/
theorem utf16Length_decodeUtf8 (fuel : Nat) (bs : List UInt8) :
    utf16Length (decodeUtf8 fuel bs) ≤ bs.length ∧
      (bs.length ≤ utf16Length (decodeUtf8 fuel bs) →
        ∀ c ∈ decodeUtf8 fuel bs, c.toNat < 128 ∨ c = replacement) := by
  induction fuel generalizing bs with
  | zero => simp [decodeUtf8, utf16Length]
  | succ fuel ih =>
      cases bs with
      | nil => simp [decodeUtf8, utf16Length]
      | cons b bs =>
          cases hdec : ByteArray.utf8DecodeChar? (b :: bs).toByteArray 0 with
          | none =>
              obtain ⟨hle, hplain⟩ := ih bs
              have hone : utf16Size replacement = 1 := by decide
              rw [decodeUtf8, hdec]
              simp only [utf16Length, List.map_cons, List.sum_cons, List.length_cons, hone]
                at hle hplain ⊢
              refine ⟨by omega, fun h c hc => ?_⟩
              rcases List.mem_cons.mp hc with rfl | hc
              · exact .inr rfl
              · exact hplain (by omega) c hc
          | some d =>
              obtain ⟨hle, hplain⟩ := ih ((b :: bs).drop d.utf8Size)
              have hsize := length_of_utf8DecodeChar hdec
              have hunits := utf16Size_le_utf8Size d
              rw [decodeUtf8, hdec]
              simp only [utf16Length, List.map_cons, List.sum_cons, List.length_drop]
                at hle hplain ⊢
              refine ⟨by omega, fun h c hc => ?_⟩
              rcases List.mem_cons.mp hc with rfl | hc
              · exact .inl (lt_of_utf8Size_le (by omega))
              · exact hplain (by omega) c hc

/-- Bytes without NUL are decoded to a text without NUL. -/
theorem zero_mem_of_mem_decodeUtf8 {fuel : Nat} {bs : List UInt8} {c : Char}
    (hc : c ∈ decodeUtf8 fuel bs) (h0 : c.toNat = 0) : 0 ∈ bs := by
  induction fuel generalizing bs with
  | zero => simp [decodeUtf8] at hc
  | succ fuel ih =>
      cases bs with
      | nil => simp [decodeUtf8] at hc
      | cons b bs =>
          rw [decodeUtf8] at hc
          cases hdec : ByteArray.utf8DecodeChar? (b :: bs).toByteArray 0 with
          | none =>
              simp only [hdec, List.mem_cons] at hc
              rcases hc with rfl | hc
              · exact absurd h0 (by decide)
              · exact List.mem_cons_of_mem b (ih hc)
          | some d =>
              simp only [hdec, List.mem_cons] at hc
              rcases hc with rfl | hc
              · have heq := congrArg (fun a => a.data.toList)
                  (ByteArray.eq_of_utf8DecodeChar?_eq_some hdec)
                rw [utf8EncodeChar_of_lt (by omega), h0] at heq
                simp at heq
                simp [heq.1]
              · exact List.mem_of_mem_drop (ih hc)

end Decoding

section SevenBit

/-- Seven bit bytes as characters. -/
def asciiText (bytes : List UInt8) : Text := bytes.map (fun b => Char.ofNat b.toNat)

theorem toNat_ofNat {n : Nat} (h : n < 128) : (Char.ofNat n).toNat = n := by
  have hvalid : n.isValidChar := Or.inl (by omega)
  rw [Char.ofNat, dif_pos hvalid]
  rfl

variable {bytes : List UInt8}

theorem toUtf8_asciiText (h : ∀ b ∈ bytes, b.toNat < 128) : toUtf8 (asciiText bytes) = bytes := by
  induction bytes with
  | nil => rfl
  | cons b bytes ih =>
      have hb := h b (by simp)
      have hcons : toUtf8 (asciiText (b :: bytes)) =
          String.utf8EncodeChar (Char.ofNat b.toNat) ++ toUtf8 (asciiText bytes) := rfl
      rw [hcons, ih (fun d hd => h d (by simp [hd])),
        utf8EncodeChar_of_lt (by rw [toNat_ofNat hb]; exact hb), toNat_ofNat hb]
      simp

/-- Seven bit bytes are decoded one by one. -/
theorem fromUtf8_of_ascii (h : ∀ b ∈ bytes, b.toNat < 128) : fromUtf8 bytes = asciiText bytes := by
  have hback := fromUtf8_toUtf8 (asciiText bytes)
  rwa [toUtf8_asciiText h] at hback

theorem plain_asciiText (h : ∀ b ∈ bytes, PlainByte b) : ∀ c ∈ asciiText bytes, Plain c := by
  intro c hc
  obtain ⟨b, hb, rfl⟩ := List.mem_map.mp hc
  rw [Plain, toNat_ofNat (h b hb).2]
  exact h b hb

end SevenBit

section Plain

variable {text : Text}

theorem zero_notMem_toLatin1 (h : ∀ c ∈ text, Plain c) : 0 ∉ toLatin1 text := by
  intro h0
  obtain ⟨c, hc, hc0⟩ := List.mem_flatMap.mp h0
  exact absurd (zero_mem_latin1 hc0) (h c hc).1.ne'

/-- Plain text is the same in Latin-1 and in UTF-8. -/
theorem toLatin1_of_plain (h : ∀ c ∈ text, Plain c) : toLatin1 text = toUtf8 text :=
  (flatMap_eq_iff length_latin1_le_utf8 text).mpr
    (fun c hc => (latin1_eq_utf8_iff c).mpr (h c hc).2)

theorem cstr_toLatin1_of_plain (h : ∀ c ∈ text, Plain c) :
    (cstr (toLatin1 text)).val = toUtf8 text := by
  rw [cstr_val_of_notMem (zero_notMem_toLatin1 h), toLatin1_of_plain h]

/-- Plain bytes that are decoded and written in Latin-1 are the same bytes. -/
theorem toLatin1_fromUtf8_of_plain {bytes : List UInt8} (h : ∀ b ∈ bytes, PlainByte b) :
    toLatin1 (fromUtf8 bytes) = bytes := by
  have hascii : ∀ b ∈ bytes, b.toNat < 128 := fun b hb => (h b hb).2
  rw [fromUtf8_of_ascii hascii, toLatin1_of_plain (plain_asciiText h), toUtf8_asciiText hascii]

/-- **The encodings agree on plain text only**, where the bytes are cut at NUL. -/
theorem cstr_toLatin1_eq_toUtf8 (h0 : 0 ∉ toUtf8 text) :
    (cstr (toLatin1 text)).val = toUtf8 text ↔ ∀ c ∈ text, Plain c := by
  constructor
  · intro h
    have hle := length_flatMap_le length_latin1_le_utf8 text
    have hfull : (cstr (toLatin1 text)).val = toLatin1 text := by
      apply cstr_val_of_length
      rw [h]
      exact hle
    rw [hfull] at h
    have hchars := (flatMap_eq_iff length_latin1_le_utf8 text).mp h
    intro c hc
    have hlt := (latin1_eq_utf8_iff c).mp (hchars c hc)
    refine ⟨Nat.pos_of_ne_zero fun hzero => h0 ?_, hlt⟩
    refine List.mem_flatMap.mpr ⟨c, hc, ?_⟩
    rw [utf8EncodeChar_of_lt hlt, hzero]
    decide
  · exact cstr_toLatin1_of_plain

/-- The Latin-1 bytes of seven bit and of replacement characters. -/
theorem toLatin1_ascii_of_decoded (h : ∀ c ∈ text, c.toNat < 128 ∨ c = replacement) :
    ∀ b ∈ toLatin1 text, b.toNat < 128 := by
  intro b hb
  obtain ⟨c, hc, hb⟩ := List.mem_flatMap.mp hb
  rcases h c hc with hlt | rfl
  · rw [latin1_of_lt (by omega), List.mem_singleton] at hb
    subst hb
    have hmod : c.toNat % 256 = c.toNat := Nat.mod_eq_of_lt (by omega)
    simpa [hmod] using hlt
  · have hq : latin1 replacement = [63] := by decide
    rw [hq, List.mem_singleton] at hb
    subst hb
    decide

/-- **The texts that are read as they were, when they are written in Latin-1 and
read as UTF-8, are the plain ones.** -/
theorem fromUtf8_cstr_toLatin1 :
    fromUtf8 (cstr (toLatin1 text)).val = text ↔ ∀ c ∈ text, Plain c := by
  constructor
  · intro h
    -- as many code units come back as there were bytes, so each byte was decoded alone
    obtain ⟨hle, hplain⟩ :=
      utf16Length_decodeUtf8 (cstr (toLatin1 text)).val.length (cstr (toLatin1 text)).val
    rw [← fromUtf8, h] at hle hplain
    have hcut := length_cstr_le (toLatin1 text)
    rw [length_toLatin1] at hcut
    have hfull : (cstr (toLatin1 text)).val = toLatin1 text := by
      apply cstr_val_of_length
      rw [length_toLatin1]
      exact hle
    have hascii := toLatin1_ascii_of_decoded (hplain (by omega))
    rw [hfull, fromUtf8_of_ascii hascii] at h
    have hbytes : ∀ b ∈ toLatin1 text, PlainByte b := by
      intro b hb
      refine ⟨Nat.pos_of_ne_zero fun hzero => ?_, hascii b hb⟩
      have hb0 : b = 0 := UInt8.toNat_inj.mp hzero
      rw [hb0, ← hfull] at hb
      exact (cstr (toLatin1 text)).property hb
    intro c hc
    rw [← h] at hc
    exact plain_asciiText hbytes c hc
  · intro h
    rw [cstr_toLatin1_of_plain h, fromUtf8_toUtf8]

/-- A C string that is decoded and written in Latin-1 does not get longer, and stays as
long only if plain bytes come out. -/
theorem length_cstr_toLatin1_fromUtf8 (s : CStr) :
    (cstr (toLatin1 (fromUtf8 s.val))).val.length ≤ s.val.length ∧
      (s.val.length ≤ (cstr (toLatin1 (fromUtf8 s.val))).val.length →
        ∀ b ∈ (cstr (toLatin1 (fromUtf8 s.val))).val, PlainByte b) := by
  obtain ⟨hle, hplain⟩ := utf16Length_decodeUtf8 s.val.length s.val
  rw [← fromUtf8, ← length_toLatin1] at hle hplain
  have hcut := length_cstr_le (toLatin1 (fromUtf8 s.val))
  refine ⟨by omega, fun h b hb => ?_⟩
  have hfull : (cstr (toLatin1 (fromUtf8 s.val))).val = toLatin1 (fromUtf8 s.val) :=
    cstr_val_of_length (by omega)
  have hne : b ≠ 0 := fun h0 => (cstr (toLatin1 (fromUtf8 s.val))).property (h0 ▸ hb)
  refine ⟨Nat.pos_of_ne_zero fun hzero => hne (UInt8.toNat_inj.mp hzero), ?_⟩
  rw [hfull] at hb
  exact toLatin1_ascii_of_decoded (hplain (by omega)) b hb

/-- **The C strings that are written as they were, when they are read as UTF-8 and written
in Latin-1, are the plain ones.** -/
theorem cstr_toLatin1_fromUtf8 {s : CStr} :
    cstr (toLatin1 (fromUtf8 s.val)) = s ↔ ∀ b ∈ s.val, PlainByte b := by
  constructor
  · intro h
    have hplain := (length_cstr_toLatin1_fromUtf8 s).2
    rw [h] at hplain
    exact hplain le_rfl
  · intro h
    rw [toLatin1_fromUtf8_of_plain h, cstr_val]

/-- **The paths that come back, when they are written in UTF-8 as C strings, read, written
in Latin-1 and read as UTF-8, are the plain ones.** -/
theorem fromUtf8_cstr_toLatin1_fromUtf8_cstr_toUtf8 :
    fromUtf8 (cstr (toLatin1 (fromUtf8 (cstr (toUtf8 text)).val))).val = text ↔
      ∀ c ∈ text, Plain c := by
  have hdecoded : 0 ∉ toUtf8 text → fromUtf8 (cstr (toUtf8 text)).val = text := by
    intro h0
    rw [cstr_val_of_notMem h0, fromUtf8_toUtf8]
  constructor
  · intro h
    -- nothing that is decoded from a C string has a NUL
    have h0 : 0 ∉ toUtf8 text := by
      intro h0
      obtain ⟨c, hc, hc0⟩ := List.mem_flatMap.mp h0
      have hzero := zero_mem_utf8 hc0
      rw [← h] at hc
      exact (cstr (toLatin1 (fromUtf8 (cstr (toUtf8 text)).val))).property
        (zero_mem_of_mem_decodeUtf8 hc hzero)
    rw [hdecoded h0] at h
    exact fromUtf8_cstr_toLatin1.mp h
  · intro h
    have h0 : 0 ∉ toUtf8 text := by
      intro h0
      obtain ⟨c, hc, hc0⟩ := List.mem_flatMap.mp h0
      exact absurd (zero_mem_utf8 hc0) (h c hc).1.ne'
    rw [hdecoded h0]
    exact fromUtf8_cstr_toLatin1.mpr h

end Plain

end Lib
end Qutty
