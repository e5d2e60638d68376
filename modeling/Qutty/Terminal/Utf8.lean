import Qutty.Terminal.Emulation

/-!
# UTF-8

`puttysrc/utils/encode_utf8.c` writes a character in UTF-8, and `puttysrc/utils/decode_utf8.c`
reads one.  What is read without an error are the encodings of texts without surrogates, and nothing
else (`decodeBytes_eq_ok_iff`).

The terminal reads UTF-8 byte by byte, in `term_translate`, where a byte that does not go on with
a character is translated once more.  It cuts any input as `decode_utf8` does, and sees the same
characters and errors but for some special characters (`translateBytes_seen`).
-/

namespace Qutty
namespace Terminal

section Encoding

/-- `BinarySink_put_utf8_char`: none where its assertion fails. -/
def putUtf8Char (ch : Nat) : Option (List UInt8) :=
  if ch < 0x80 then some [UInt8.ofNat ch]
  else if ch < 0x800 then
    some [UInt8.ofNat (0xC0 + ch / 0x40), UInt8.ofNat (0x80 + ch % 0x40)]
  else if ch < 0x10000 then
    some [UInt8.ofNat (0xE0 + ch / 0x1000), UInt8.ofNat (0x80 + ch / 0x40 % 0x40),
      UInt8.ofNat (0x80 + ch % 0x40)]
  else if ch ≤ 0x10FFFF then
    some [UInt8.ofNat (0xF0 + ch / 0x40000), UInt8.ofNat (0x80 + ch / 0x1000 % 0x40),
      UInt8.ofNat (0x80 + ch / 0x40 % 0x40), UInt8.ofNat (0x80 + ch % 0x40)]
  else none

/-- `DecodeUTF8Failure`, for what is returned with 0xFFFD. -/
inductive DecodeUTF8Failure where
  | spuriousContinuation
  | illegalByte
  | outOfData
  | truncatedSequence
  | overlongEncoding
  | encodedSurrogate
  | codePointTooBig
deriving DecidableEq

/-- What is read, and the rest. -/
abbrev Decoded := Except DecodeUTF8Failure Nat × List UInt8

/-- The loop of `decode_utf8`. -/
def readConts : Nat → Nat → List UInt8 → Decoded
  | 0, wc, src => (.ok wc, src)
  | _ + 1, _, [] => (.error .outOfData, [])
  | ncont + 1, wc, cont :: src =>
      if 0x80 ≤ cont.toNat ∧ cont.toNat < 0xC0 then
        readConts ncont (wc * 0x40 + cont.toNat % 0x40) src
      else (.error .truncatedSequence, cont :: src)

/-- The checks of `decode_utf8` for a character with all its bytes. -/
def checkChar (min wc : Nat) : Except DecodeUTF8Failure Nat :=
  if wc < min then .error .overlongEncoding
  else if 0xD800 ≤ wc ∧ wc < 0xE000 then .error .encodedSurrogate
  else if wc > 0x10FFFF then .error .codePointTooBig
  else .ok wc

/-- The end of `decode_utf8`, for the bits of the first byte. -/
def decodeFrom (wc ncont min : Nat) (src : List UInt8) : Decoded :=
  match readConts ncont wc src with
  | (.ok wc, rest) => (checkChar min wc, rest)
  | failed => failed

/-- `decode_utf8`; for an empty source it returns the 0 of `get_byte`. -/
def decodeUtf8 : List UInt8 → Decoded
  | [] => (.ok 0, [])
  | byte :: src =>
      let c := byte.toNat
      if c < 0x80 then (.ok c, src)
      else if c < 0xC0 then (.error .spuriousContinuation, src)
      else if c < 0xE0 then decodeFrom (c % 0x20) 1 0x80 src
      else if c < 0xF0 then decodeFrom (c % 0x10) 2 0x800 src
      else if c < 0xF8 then decodeFrom (c % 8) 3 0x10000 src
      else if c < 0xFC then decodeFrom (c % 4) 4 0x200000 src
      else if c < 0xFE then decodeFrom (c % 2) 5 0x4000000 src
      else (.error .illegalByte, src)

/-- The characters of a text. -/
def putUtf8Text : List Nat → Option (List UInt8)
  | [] => some []
  | ch :: text => (putUtf8Char ch).bind fun bytes => (putUtf8Text text).map (bytes ++ ·)

/-- The calls of `decode_utf8` for some bytes. -/
def decodeBytes : Nat → List UInt8 → List (Except DecodeUTF8Failure Nat)
  | fuel + 1, byte :: bytes =>
      let decoded := decodeUtf8 (byte :: bytes)
      decoded.1 :: decodeBytes fuel decoded.2
  | _, _ => []

end Encoding

section Exactness

variable {c : UInt8} {n wc w ncont min : Nat} {src rest : List UInt8}

/-- The characters of Unicode. -/
def ScalarValue (wc : Nat) : Prop := wc ≤ 0x10FFFF ∧ ¬(0xD800 ≤ wc ∧ wc < 0xE000)

theorem toNat_byte (h : n < 0x100) : (UInt8.ofNat n).toNat = n := by
  rw [UInt8.toNat_ofNat']
  exact Nat.mod_eq_of_lt h

theorem byte_eq (h : n = c.toNat) : UInt8.ofNat n = c := by
  rw [h]
  exact UInt8.ofNat_toNat

theorem readConts_succ_eq_ok : readConts (ncont + 1) w src = (.ok wc, rest) ↔
    ∃ cont src', src = cont :: src' ∧ (0x80 ≤ cont.toNat ∧ cont.toNat < 0xC0) ∧
      readConts ncont (w * 0x40 + cont.toNat % 0x40) src' = (.ok wc, rest) := by
  cases src with
  | nil => simp [readConts]
  | cons cont src =>
      by_cases hcont : 0x80 ≤ cont.toNat ∧ cont.toNat < 0xC0
      · simp [readConts, hcont]
      · simp [readConts, hcont]

theorem checkChar_eq_ok : checkChar min w = .ok wc ↔ w = wc ∧ min ≤ wc ∧ ScalarValue wc := by
  simp only [checkChar, ScalarValue]
  constructor
  · intro h
    split_ifs at h with hmin hsurrogate hbig
    obtain rfl := Except.ok.inj h
    exact ⟨rfl, not_lt.mp hmin, not_lt.mp hbig, hsurrogate⟩
  · rintro ⟨rfl, hmin, hbig, hsurrogate⟩
    rw [if_neg (not_lt.mpr hmin), if_neg hsurrogate, if_neg (not_lt.mpr hbig)]

theorem decodeFrom_eq_ok : decodeFrom w ncont min src = (.ok wc, rest) ↔
    readConts ncont w src = (.ok wc, rest) ∧ min ≤ wc ∧ ScalarValue wc := by
  rw [decodeFrom]
  constructor
  · intro h
    split at h
    · next w' rest' hread =>
        obtain ⟨hcheck, rfl⟩ := Prod.mk.inj h
        obtain ⟨rfl, hmin, hscalar⟩ := checkChar_eq_ok.mp hcheck
        exact ⟨hread, hmin, hscalar⟩
    · next hread => exact absurd h (hread wc rest)
  · rintro ⟨hread, hmin, hscalar⟩
    rw [hread]
    exact congrArg (·, rest) (checkChar_eq_ok.mpr ⟨rfl, hmin, hscalar⟩)

/-- The first byte of an encoding. -/
theorem putUtf8Char_head {bytes : List UInt8} (h : putUtf8Char wc = some bytes) :
    ∃ c cs, bytes = c :: cs ∧
      if wc < 0x80 then c.toNat = wc ∧ cs = []
      else if wc < 0x800 then 0xC0 ≤ c.toNat ∧ c.toNat < 0xE0
      else if wc < 0x10000 then 0xE0 ≤ c.toNat ∧ c.toNat < 0xF0
      else 0xF0 ≤ c.toNat ∧ c.toNat < 0xF8 := by
  rw [putUtf8Char] at h
  split_ifs at h with h₁ h₂ h₃ h₄ <;> obtain rfl := Option.some.inj h
  · exact ⟨_, _, rfl, by rw [if_pos h₁]; exact ⟨toNat_byte (by omega), rfl⟩⟩
  · refine ⟨_, _, rfl, ?_⟩
    rw [if_neg h₁, if_pos h₂, toNat_byte (by omega)]
    omega
  · refine ⟨_, _, rfl, ?_⟩
    rw [if_neg h₁, if_neg h₂, if_pos h₃, toNat_byte (by omega)]
    omega
  · refine ⟨_, _, rfl, ?_⟩
    rw [if_neg h₁, if_neg h₂, if_neg h₃, toNat_byte (by omega)]
    omega

/-- The class of the first byte is that of the character. -/
theorem putUtf8Char_class {bytes : List UInt8} (hbytes : putUtf8Char wc = some bytes)
    (heq : c :: src = bytes ++ rest) :
    if wc < 0x80 then c.toNat = wc ∧ src = rest
    else if wc < 0x800 then 0xC0 ≤ c.toNat ∧ c.toNat < 0xE0
    else if wc < 0x10000 then 0xE0 ≤ c.toNat ∧ c.toNat < 0xF0
    else 0xF0 ≤ c.toNat ∧ c.toNat < 0xF8 := by
  obtain ⟨c', cs, rfl, hhead⟩ := putUtf8Char_head hbytes
  obtain ⟨rfl, hsrc⟩ := List.cons.inj heq
  split_ifs at hhead ⊢ with h₁ h₂ h₃
  · exact ⟨hhead.1, by rw [hsrc, hhead.2]; rfl⟩
  · exact hhead
  · exact hhead
  · exact hhead

/-- What is read after a first byte of two is the encoding. -/
theorem decodeFrom_two (hc : 0xC0 ≤ c.toNat ∧ c.toNat < 0xE0) :
    decodeFrom (c.toNat % 0x20) 1 0x80 src = (.ok wc, rest) ↔
      ScalarValue wc ∧ ∃ bytes, putUtf8Char wc = some bytes ∧ c :: src = bytes ++ rest := by
  rw [decodeFrom_eq_ok]
  constructor
  · rintro ⟨hread, hmin, hscalar⟩
    obtain ⟨d, src', rfl, hd, hread⟩ := readConts_succ_eq_ok.mp hread
    obtain ⟨hwc, rfl⟩ := Prod.mk.inj hread
    have hwc := Except.ok.inj hwc
    have hlt : wc < 0x800 := by omega
    refine ⟨hscalar, [c, d], ?_, rfl⟩
    rw [putUtf8Char, if_neg (not_lt.mpr hmin), if_pos hlt, byte_eq (c := c) (by omega),
      byte_eq (c := d) (by omega)]
  · rintro ⟨hscalar, bytes, hbytes, heq⟩
    obtain ⟨hmin, hlt⟩ : 0x80 ≤ wc ∧ wc < 0x800 := by
      have hclass := putUtf8Char_class hbytes heq
      split_ifs at hclass <;> omega
    rw [putUtf8Char, if_neg (not_lt.mpr hmin), if_pos hlt] at hbytes
    obtain rfl := Option.some.inj hbytes
    obtain ⟨rfl, rfl⟩ := List.cons.inj heq
    refine ⟨readConts_succ_eq_ok.mpr ⟨_, _, rfl, ?_, ?_⟩, hmin, hscalar⟩
    · rw [toNat_byte (by omega)]
      omega
    · rw [toNat_byte (by omega), toNat_byte (by omega)]
      exact congrArg (fun n => (Except.ok n, rest)) (by omega)

/-- What is read after a first byte of three is the encoding. -/
theorem decodeFrom_three (hc : 0xE0 ≤ c.toNat ∧ c.toNat < 0xF0) :
    decodeFrom (c.toNat % 0x10) 2 0x800 src = (.ok wc, rest) ↔
      ScalarValue wc ∧ ∃ bytes, putUtf8Char wc = some bytes ∧ c :: src = bytes ++ rest := by
  rw [decodeFrom_eq_ok]
  constructor
  · rintro ⟨hread, hmin, hscalar⟩
    obtain ⟨d, src', rfl, hd, hread⟩ := readConts_succ_eq_ok.mp hread
    obtain ⟨e, src'', rfl, he, hread⟩ := readConts_succ_eq_ok.mp hread
    obtain ⟨hwc, rfl⟩ := Prod.mk.inj hread
    have hwc := Except.ok.inj hwc
    have hlt : wc < 0x10000 := by omega
    refine ⟨hscalar, [c, d, e], ?_, rfl⟩
    rw [putUtf8Char, if_neg (by omega), if_neg (not_lt.mpr hmin), if_pos hlt,
      byte_eq (c := c) (by omega), byte_eq (c := d) (by omega), byte_eq (c := e) (by omega)]
  · rintro ⟨hscalar, bytes, hbytes, heq⟩
    obtain ⟨hmin, hlt⟩ : 0x800 ≤ wc ∧ wc < 0x10000 := by
      have hclass := putUtf8Char_class hbytes heq
      split_ifs at hclass <;> omega
    rw [putUtf8Char, if_neg (by omega), if_neg (not_lt.mpr hmin), if_pos hlt] at hbytes
    obtain rfl := Option.some.inj hbytes
    obtain ⟨rfl, rfl⟩ := List.cons.inj heq
    refine ⟨readConts_succ_eq_ok.mpr ⟨_, _, rfl, ?_, readConts_succ_eq_ok.mpr
      ⟨_, _, rfl, ?_, ?_⟩⟩, hmin, hscalar⟩
    · rw [toNat_byte (by omega)]
      omega
    · rw [toNat_byte (by omega)]
      omega
    · rw [toNat_byte (by omega), toNat_byte (by omega), toNat_byte (by omega)]
      exact congrArg (fun n => (Except.ok n, rest)) (by omega)

/-- What is read after a first byte of four is the encoding. -/
theorem decodeFrom_four (hc : 0xF0 ≤ c.toNat ∧ c.toNat < 0xF8) :
    decodeFrom (c.toNat % 8) 3 0x10000 src = (.ok wc, rest) ↔
      ScalarValue wc ∧ ∃ bytes, putUtf8Char wc = some bytes ∧ c :: src = bytes ++ rest := by
  rw [decodeFrom_eq_ok]
  constructor
  · rintro ⟨hread, hmin, hscalar⟩
    obtain ⟨d, src', rfl, hd, hread⟩ := readConts_succ_eq_ok.mp hread
    obtain ⟨e, src'', rfl, he, hread⟩ := readConts_succ_eq_ok.mp hread
    obtain ⟨g, src₃, rfl, hg, hread⟩ := readConts_succ_eq_ok.mp hread
    obtain ⟨hwc, rfl⟩ := Prod.mk.inj hread
    have hwc := Except.ok.inj hwc
    have hbig := hscalar.1
    refine ⟨hscalar, [c, d, e, g], ?_, rfl⟩
    rw [putUtf8Char, if_neg (by omega), if_neg (by omega), if_neg (by omega), if_pos hbig,
      byte_eq (c := c) (by omega), byte_eq (c := d) (by omega), byte_eq (c := e) (by omega),
      byte_eq (c := g) (by omega)]
  · rintro ⟨hscalar, bytes, hbytes, heq⟩
    have hmin : 0x10000 ≤ wc := by
      have hclass := putUtf8Char_class hbytes heq
      split_ifs at hclass <;> omega
    have hbig := hscalar.1
    rw [putUtf8Char, if_neg (by omega), if_neg (by omega), if_neg (by omega), if_pos hbig]
      at hbytes
    obtain rfl := Option.some.inj hbytes
    obtain ⟨rfl, rfl⟩ := List.cons.inj heq
    refine ⟨readConts_succ_eq_ok.mpr ⟨_, _, rfl, ?_, readConts_succ_eq_ok.mpr
      ⟨_, _, rfl, ?_, readConts_succ_eq_ok.mpr ⟨_, _, rfl, ?_, ?_⟩⟩⟩, hmin, hscalar⟩
    · rw [toNat_byte (by omega)]
      omega
    · rw [toNat_byte (by omega)]
      omega
    · rw [toNat_byte (by omega)]
      omega
    · rw [toNat_byte (by omega), toNat_byte (by omega), toNat_byte (by omega),
        toNat_byte (by omega)]
      exact congrArg (fun n => (Except.ok n, rest)) (by omega)

/-- Five and six bytes are never read. -/
theorem decodeFrom_ne_ok (hmin : 0x10FFFF < min) : decodeFrom w ncont min src ≠ (.ok wc, rest) := by
  intro h
  obtain ⟨-, hle, hbig, -⟩ := decodeFrom_eq_ok.mp h
  omega

/-- No encoding begins with a continuation byte, or with one for five or more bytes. -/
theorem not_encoding (hc : (0x80 ≤ c.toNat ∧ c.toNat < 0xC0) ∨ 0xF8 ≤ c.toNat) :
    ¬(ScalarValue wc ∧ ∃ bytes, putUtf8Char wc = some bytes ∧ c :: src = bytes ++ rest) := by
  rintro ⟨-, bytes, hbytes, heq⟩
  have hclass := putUtf8Char_class hbytes heq
  split_ifs at hclass <;> omega

/-- What is read from a source that is not empty are the encodings of the characters that are no
surrogates, and what has been written is read again. -/
theorem decodeUtf8_eq_ok_iff (c : UInt8) (src rest : List UInt8) (wc : Nat) :
    decodeUtf8 (c :: src) = (.ok wc, rest) ↔
      ScalarValue wc ∧ ∃ bytes, putUtf8Char wc = some bytes ∧ c :: src = bytes ++ rest := by
  simp only [decodeUtf8]
  split_ifs with h₁ h₂ h₃ h₄ h₅ h₆ h₇
  · constructor
    · intro h
      obtain ⟨hwc, rfl⟩ := Prod.mk.inj h
      obtain rfl := Except.ok.inj hwc
      refine ⟨⟨by omega, by omega⟩, [c], ?_, rfl⟩
      rw [putUtf8Char, if_pos h₁, byte_eq rfl]
    · rintro ⟨-, bytes, hbytes, heq⟩
      have hclass := putUtf8Char_class hbytes heq
      split_ifs at hclass
      · exact Prod.ext (congrArg Except.ok hclass.1) hclass.2
      all_goals omega
  · exact iff_of_false (by simp) (not_encoding (by omega))
  · exact decodeFrom_two ⟨not_lt.mp h₂, h₃⟩
  · exact decodeFrom_three ⟨not_lt.mp h₃, h₄⟩
  · exact decodeFrom_four ⟨not_lt.mp h₄, h₅⟩
  · exact iff_of_false (decodeFrom_ne_ok (by omega)) (not_encoding (by omega))
  · exact iff_of_false (decodeFrom_ne_ok (by omega)) (not_encoding (by omega))
  · exact iff_of_false (by simp) (not_encoding (by omega))

theorem readConts_length (ncont w : Nat) (src : List UInt8) :
    (readConts ncont w src).2.length ≤ src.length := by
  induction src generalizing ncont w with
  | nil => cases ncont <;> exact le_rfl
  | cons cont src ih =>
      cases ncont with
      | zero => exact le_rfl
      | succ ncont =>
          rw [readConts]
          split_ifs
          · exact (ih ncont _).trans (Nat.le_succ _)
          · exact le_rfl

theorem decodeFrom_rest (w ncont min : Nat) (src : List UInt8) :
    (decodeFrom w ncont min src).2 = (readConts ncont w src).2 := by
  rw [decodeFrom]
  split
  · next hread => rw [hread]
  · rfl

/-- The rest is shorter. -/
theorem decodeUtf8_length (c : UInt8) (src : List UInt8) :
    (decodeUtf8 (c :: src)).2.length ≤ src.length := by
  have hfrom : ∀ w ncont min, (decodeFrom w ncont min src).2.length ≤ src.length := by
    intro w ncont min
    rw [decodeFrom_rest]
    exact readConts_length ncont w src
  simp only [decodeUtf8]
  split_ifs <;> first | exact le_rfl | exact hfrom _ _ _

theorem decodeBytes_text (text : List Nat) (fuel : Nat) (bytes : List UInt8)
    (hfuel : bytes.length ≤ fuel) : decodeBytes fuel bytes = text.map .ok ↔
      (∀ wc ∈ text, ScalarValue wc) ∧ putUtf8Text text = some bytes := by
  induction text generalizing fuel bytes with
  | nil =>
      cases bytes with
      | nil => simp [decodeBytes, putUtf8Text]
      | cons byte bytes =>
          obtain ⟨fuel, rfl⟩ : ∃ n, fuel = n + 1 := ⟨fuel - 1, by simp at hfuel; omega⟩
          simp [decodeBytes, putUtf8Text]
  | cons wc text ih =>
      cases bytes with
      | nil =>
          refine iff_of_false (by simp [decodeBytes]) ?_
          rintro ⟨-, htext⟩
          obtain ⟨enc, henc, hrest⟩ := Option.bind_eq_some_iff.mp htext
          obtain ⟨rest, -, happend⟩ := Option.map_eq_some_iff.mp hrest
          obtain ⟨c, cs, rfl, -⟩ := putUtf8Char_head henc
          exact absurd happend (by simp)
      | cons byte bytes =>
          obtain ⟨fuel, rfl⟩ : ∃ n, fuel = n + 1 := ⟨fuel - 1, by simp at hfuel; omega⟩
          have hlength : (decodeUtf8 (byte :: bytes)).2.length ≤ fuel :=
            (decodeUtf8_length byte bytes).trans (Nat.le_of_succ_le_succ hfuel)
          simp only [decodeBytes, List.map_cons, List.cons.injEq, ih fuel _ hlength,
            List.forall_mem_cons]
          constructor
          · rintro ⟨hread, hscalars, hrest⟩
            obtain ⟨hscalar, enc, henc, hbytes⟩ :=
              (decodeUtf8_eq_ok_iff byte bytes _ wc).mp (Prod.ext hread rfl)
            refine ⟨⟨hscalar, hscalars⟩, ?_⟩
            rw [putUtf8Text, henc, hrest]
            exact congrArg some hbytes.symm
          · rintro ⟨⟨hscalar, hscalars⟩, htext⟩
            obtain ⟨enc, henc, hmap⟩ := Option.bind_eq_some_iff.mp htext
            obtain ⟨rest, hrest, hbytes⟩ := Option.map_eq_some_iff.mp hmap
            have hread := (decodeUtf8_eq_ok_iff byte bytes rest wc).mpr
              ⟨hscalar, enc, henc, hbytes.symm⟩
            rw [hread]
            exact ⟨rfl, hscalars, hrest⟩

/-- **UTF-8 is read exactly**: some bytes are read without an error, as the characters of a text,
if and only if the text has no surrogates and they are what is written for it. -/
theorem decodeBytes_eq_ok_iff (bytes : List UInt8) (text : List Nat) :
    decodeBytes bytes.length bytes = text.map .ok ↔
      (∀ wc ∈ text, ScalarValue wc) ∧ putUtf8Text text = some bytes :=
  decodeBytes_text text bytes.length bytes le_rfl

-- a surrogate is one error for its three bytes, and a sequence that breaks off one for what it has
example : decodeBytes 6 [0xED, 0xA0, 0x80, 0xE2, 0x82, 0x41] =
    [.error .encodedSurrogate, .error .truncatedSequence, .ok 0x41] := by decide

end Exactness

section Translation

variable {δ : Type} (R : Reactions δ)

/-- The bytes of a text in `term_translate`, as long as the display does not change: a byte at
which a sequence was given up is translated once more. -/
def translateBytes : Fields δ → List UInt8 → List Translation
  | _, [] => []
  | f, byte :: bytes =>
      let r := f.translateUtf8 R byte.toNat
      if r.2 = .truncated then
        let again := r.1.translateUtf8 R byte.toNat
        r.2 :: again.2 :: translateBytes again.1 bytes
      else r.2 :: translateBytes r.1 bytes

/-- An ASCII character on the display. -/
def asciiSeen (f : Fields δ) (c : Nat) : Translation :=
  .char (if R.unitabCtrl c = 0xFF ∧ R.utf8linedraw f.shown ∧
    R.csetAttr f.shown = .linedrw then c ||| CharSet.linedrw.code
  else Fields.translateAscii R c)

/-- What the terminal makes of a character or an error: line and paragraph separators are a line
break, the C1 controls are not obeyed, the byte order mark is nothing, and its mirror image and
the character behind that are errors. -/
def seenAs (f : Fields δ) : Except DecodeUTF8Failure Nat → Translation
  | .ok wc =>
      if wc < 0x80 then asciiSeen R f wc
      else if wc = 0x2028 ∨ wc = 0x2029 then .char 0x85
      else if wc < 0xA0 then .char 0xFFFD
      else if wc = 0xFEFF then .incomplete
      else if wc = 0xFFFE ∨ wc = 0xFFFF then .invalid
      else .char wc
  | .error .outOfData => .incomplete
  | .error .truncatedSequence => .truncated
  | .error _ => .invalid

/-- The results that are seen. -/
def visible (ts : List Translation) : List Translation := ts.filter (· ≠ .incomplete)

/-- The terminal in the middle of a character. -/
def within (f : Fields δ) (state chr size : Nat) : Fields δ :=
  { f with utf8 := ⟨state, chr, size⟩ }

/-- The least character with a number of continuation bytes. -/
def leastOf : Nat → Nat
  | 1 => 0x80
  | 2 => 0x800
  | 3 => 0x10000
  | 4 => 0x200000
  | _ => 0x4000000

variable {R} {f : Fields δ} {size : Nat}

theorem visible_incomplete (ts : List Translation) :
    visible (.incomplete :: ts) = visible ts := by
  simp [visible]

theorem visible_cons (t : Translation) (ts : List Translation) :
    visible (t :: ts) = visible [t] ++ visible ts :=
  List.filter_append [t] ts

/-- The checks at the end of a sequence are those of `decode_utf8`. -/
theorem completeUtf8_seen (f : Fields δ) (hsize : 1 ≤ size ∧ size ≤ 5) (wc : Nat) :
    Fields.completeUtf8 wc size = seenAs R f (checkChar (leastOf size) wc) := by
  obtain ⟨hleast, hmin⟩ : ((wc < 0x80 ∨ (wc < 0x800 ∧ 2 ≤ size) ∨ (wc < 0x10000 ∧ 3 ≤ size) ∨
      (wc < 0x200000 ∧ 4 ≤ size) ∨ (wc < 0x4000000 ∧ 5 ≤ size)) ↔ wc < leastOf size) ∧
      0x80 ≤ leastOf size := by
    obtain rfl | rfl | rfl | rfl | rfl :
      size = 1 ∨ size = 2 ∨ size = 3 ∨ size = 4 ∨ size = 5 := by omega
    all_goals simp only [leastOf]; omega
  rw [Fields.completeUtf8, checkChar]
  by_cases hlow : wc < leastOf size
  · rw [if_pos (hleast.mpr hlow), if_pos hlow]
    rfl
  · rw [if_neg (mt hleast.mp hlow), if_neg hlow]
    have hascii : ¬wc < 0x80 := by omega
    by_cases hsurrogate : 0xD800 ≤ wc ∧ wc < 0xE000
    · rw [if_neg (by omega), if_neg (by omega), if_pos hsurrogate, if_pos hsurrogate]
      rfl
    · by_cases hbig : 0x10FFFF < wc
      · rw [if_neg (by omega), if_neg (by omega), if_neg hsurrogate, if_pos hbig,
          if_neg hsurrogate, if_pos hbig]
        rfl
      · simp only [if_neg hsurrogate, if_neg hbig, gt_iff_lt, seenAs, if_neg hascii]

theorem completeUtf8_ne_truncated (wc size : Nat) :
    Fields.completeUtf8 wc size ≠ .truncated := by
  rw [Fields.completeUtf8]
  split_ifs <;> simp

theorem translateUtf8_ne_truncated (hstate : f.utf8.state = 0) (c : Nat) :
    (f.translateUtf8 R c).2 ≠ .truncated := by
  simp only [Fields.translateUtf8, if_pos hstate]
  split_ifs <;> simp

/-- At the start of a character, a byte is translated once. -/
theorem translateBytes_start (hstate : f.utf8.state = 0) (byte : UInt8) (src : List UInt8) :
    translateBytes R f (byte :: src) = (f.translateUtf8 R byte.toNat).2 ::
      translateBytes R (f.translateUtf8 R byte.toNat).1 src := by
  rw [translateBytes]
  exact if_neg (translateUtf8_ne_truncated hstate _)

theorem decodeFrom_nil (w ncont min : Nat) :
    decodeFrom w (ncont + 1) min [] = (.error .outOfData, []) := rfl

theorem decodeFrom_zero (w min : Nat) (src : List UInt8) :
    decodeFrom w 0 min src = (checkChar min w, src) := by
  rw [decodeFrom, readConts]

theorem decodeFrom_cons (w ncont min : Nat) (byte : UInt8) (src : List UInt8) :
    decodeFrom w (ncont + 1) min (byte :: src) =
      if 0x80 ≤ byte.toNat ∧ byte.toNat < 0xC0 then
        decodeFrom (w * 0x40 + byte.toNat % 0x40) ncont min src
      else (.error .truncatedSequence, byte :: src) := by
  rw [decodeFrom, readConts]
  split_ifs
  · rfl
  · rfl

/-- **The rest of a character** is read as by the loop of `decode_utf8`. -/
theorem translateBytes_within (f : Fields δ) (hsize : 1 ≤ size ∧ size ≤ 5) (src : List UInt8)
    (ncont chr : Nat) :
    ∃ wc, visible (translateBytes R (within f (ncont + 1) chr size) src) =
      visible [seenAs R f (decodeFrom chr (ncont + 1) (leastOf size) src).1] ++
        visible (translateBytes R (within f 0 wc size)
          (decodeFrom chr (ncont + 1) (leastOf size) src).2) := by
  induction src generalizing ncont chr with
  | nil => exact ⟨0, rfl⟩
  | cons byte src ih =>
      rw [decodeFrom_cons]
      by_cases hcont : 0x80 ≤ byte.toNat ∧ byte.toNat < 0xC0
      · have hclass : byte.toNat / 64 = 2 := by omega
        have hstep : (within f (ncont + 1) chr size).translateUtf8 R byte.toNat =
            (within f ncont (chr * 0x40 + byte.toNat % 0x40) size,
              if ncont = 0 then Fields.completeUtf8 (chr * 0x40 + byte.toNat % 0x40) size
              else .incomplete) := by
          simp [Fields.translateUtf8, within, hclass]
        rw [if_pos hcont, translateBytes, hstep]
        cases ncont with
        | zero =>
            have hnot := completeUtf8_ne_truncated (chr * 0x40 + byte.toNat % 0x40) size
            rw [decodeFrom_zero]
            simp only [if_true, if_neg hnot]
            refine ⟨chr * 0x40 + byte.toNat % 0x40, (visible_cons _ _).trans ?_⟩
            rw [completeUtf8_seen (R := R) f hsize]
        | succ ncont =>
            obtain ⟨wc, hrest⟩ := ih ncont (chr * 0x40 + byte.toNat % 0x40)
            refine ⟨wc, Eq.trans ?_ hrest⟩
            simp [visible_incomplete]
      · have hclass : byte.toNat / 64 ≠ 2 := by omega
        have hstep : (within f (ncont + 1) chr size).translateUtf8 R byte.toNat =
            (within f 0 chr size, .truncated) := by
          simp [Fields.translateUtf8, within, hclass]
        rw [if_neg hcont, translateBytes, hstep]
        simp only [if_true]
        refine ⟨chr, (visible_cons _ _).trans ?_⟩
        rw [translateBytes_start (R := R) (f := within f 0 chr size) rfl]
        rfl

/-- The first byte of a character. -/
theorem translateBytes_lead (f : Fields δ) (chr size bits : Nat) {n : Nat} (hn : 1 ≤ n ∧ n ≤ 5)
    (byte : UInt8) (src : List UInt8) (hlead : (within f 0 chr size).translateUtf8 R byte.toNat =
      (within f n bits n, .incomplete)) :
    ∃ wc, visible (translateBytes R (within f 0 chr size) (byte :: src)) =
      visible [seenAs R f (decodeFrom bits n (leastOf n) src).1] ++
        visible (translateBytes R (within f 0 wc n) (decodeFrom bits n (leastOf n) src).2) := by
  obtain ⟨ncont, rfl⟩ : ∃ m, n = m + 1 := ⟨n - 1, by omega⟩
  rw [translateBytes_start rfl, hlead, visible_incomplete]
  exact translateBytes_within f hn src ncont bits

/-- One call of `decode_utf8` in the terminal. -/
theorem translateBytes_step (f : Fields δ) (chr size : Nat) (byte : UInt8) (src : List UInt8) :
    ∃ chr' size', visible (translateBytes R (within f 0 chr size) (byte :: src)) =
      visible [seenAs R f (decodeUtf8 (byte :: src)).1] ++
        visible (translateBytes R (within f 0 chr' size') (decodeUtf8 (byte :: src)).2) := by
  have hbyte : byte.toNat < 0x100 := byte.toNat_lt
  -- a byte that is a character or an error by itself
  have hsingle : ∀ t, (within f 0 chr size).translateUtf8 R byte.toNat =
      (within f 0 chr size, t) → visible (translateBytes R (within f 0 chr size) (byte :: src)) =
        visible [t] ++ visible (translateBytes R (within f 0 chr size) src) := by
    intro t ht
    rw [translateBytes_start rfl, ht]
    exact visible_cons _ _
  simp only [decodeUtf8]
  split_ifs with h₁ h₂ h₃ h₄ h₅ h₆ h₇
  · refine ⟨chr, size, hsingle (seenAs R f (.ok byte.toNat)) ?_⟩
    simp only [Fields.translateUtf8, within, if_true, if_pos h₁, seenAs, asciiSeen]
    rfl
  · refine ⟨chr, size, hsingle .invalid ?_⟩
    simp only [Fields.translateUtf8, within, if_true, if_neg h₁]
    repeat rw [if_neg (by omega)]
  · obtain ⟨wc, hrest⟩ := translateBytes_lead (R := R) f chr size (byte.toNat % 0x20) (n := 1)
      (by omega) byte src (by
        simp only [Fields.translateUtf8, within, if_true, if_neg h₁]
        rw [if_pos (by omega)])
    exact ⟨wc, 1, hrest⟩
  · obtain ⟨wc, hrest⟩ := translateBytes_lead (R := R) f chr size (byte.toNat % 0x10) (n := 2)
      (by omega) byte src (by
        simp only [Fields.translateUtf8, within, if_true, if_neg h₁]
        rw [if_neg (by omega), if_pos (by omega)])
    exact ⟨wc, 2, hrest⟩
  · obtain ⟨wc, hrest⟩ := translateBytes_lead (R := R) f chr size (byte.toNat % 8) (n := 3)
      (by omega) byte src (by
        simp only [Fields.translateUtf8, within, if_true, if_neg h₁]
        rw [if_neg (by omega), if_neg (by omega), if_pos (by omega)])
    exact ⟨wc, 3, hrest⟩
  · obtain ⟨wc, hrest⟩ := translateBytes_lead (R := R) f chr size (byte.toNat % 4) (n := 4)
      (by omega) byte src (by
        simp only [Fields.translateUtf8, within, if_true, if_neg h₁]
        rw [if_neg (by omega), if_neg (by omega), if_neg (by omega), if_pos (by omega)])
    exact ⟨wc, 4, hrest⟩
  · obtain ⟨wc, hrest⟩ := translateBytes_lead (R := R) f chr size (byte.toNat % 2) (n := 5)
      (by omega) byte src (by
        simp only [Fields.translateUtf8, within, if_true, if_neg h₁]
        rw [if_neg (by omega), if_neg (by omega), if_neg (by omega), if_neg (by omega),
          if_pos (by omega)])
    exact ⟨wc, 5, hrest⟩
  · refine ⟨chr, size, hsingle .invalid ?_⟩
    simp only [Fields.translateUtf8, within, if_true, if_neg h₁]
    repeat rw [if_neg (by omega)]

theorem translateBytes_decode (f : Fields δ) (fuel : Nat) (bytes : List UInt8)
    (hfuel : bytes.length ≤ fuel) (chr size : Nat) :
    visible (translateBytes R (within f 0 chr size) bytes) =
      visible ((decodeBytes fuel bytes).map (seenAs R f)) := by
  induction fuel generalizing bytes chr size with
  | zero =>
      obtain rfl := List.eq_nil_of_length_eq_zero (Nat.le_zero.mp hfuel)
      rfl
  | succ fuel ih =>
      cases bytes with
      | nil => rfl
      | cons byte bytes =>
          have hlength := (decodeUtf8_length byte bytes).trans (Nat.le_of_succ_le_succ hfuel)
          obtain ⟨chr', size', hstep⟩ := translateBytes_step (R := R) f chr size byte bytes
          rw [hstep, ih _ hlength chr' size', decodeBytes, List.map_cons]
          exact (visible_cons _ _).symm

/-- **The terminal reads UTF-8 as `decode_utf8`**: between two characters it has seen of any bytes
what `decode_utf8` reads of them, errors included, but for the special characters. -/
theorem translateBytes_seen (R : Reactions δ) (f : Fields δ) (chr size : Nat)
    (bytes : List UInt8) :
    visible (translateBytes R (within f 0 chr size) bytes) =
      visible ((decodeBytes bytes.length bytes).map (seenAs R f)) :=
  translateBytes_decode f bytes.length bytes le_rfl chr size

end Translation

end Terminal
end Qutty
