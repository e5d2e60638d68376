import Qutty.Lib.Text

/-!
# Names in the registry

`escape_registry_key` and `unescape_registry_key` of `QtCommon.cpp`.  A byte that a
registry name must not have, the percent sign and a dot at the start are written as a
percent sign with two hexadecimal digits.  Characters are signed, so that the bytes from
128 on are below the blank.

Reading gives back what was written (`unescapeFrom_escapeFrom`), whatever the text looks
like, and the escaped form has the characters of a name only (`WellEscaped`).
-/

namespace Qutty
namespace Config

open Lib

section Escaping

/-- `hex`. -/
def hexTable : List UInt8 := [48, 49, 50, 51, 52, 53, 54, 55, 56, 57, 65, 66, 67, 68, 69, 70]

/-- `hex[n]`. -/
def hexDigit (n : UInt8) : UInt8 := hexTable.getD n.toNat 0

/-- The bytes that are escaped. -/
def mustEscape (candot : Bool) (c : UInt8) : Bool :=
  c = 32 ∨ c = 92 ∨ c = 42 ∨ c = 63 ∨ c = 37 ∨ c.toInt8.toInt < 32 ∨ 126 < c.toInt8.toInt ∨
    (c = 46 ∧ candot = false)

/-- A byte of `escape_registry_key`. -/
def escapeByte (candot : Bool) (c : UInt8) : List UInt8 :=
  if mustEscape candot c then [37, hexDigit (c >>> 4), hexDigit (c &&& 15)] else [c]

/-- The loop of `escape_registry_key`. -/
def escapeFrom : Bool → List UInt8 → List UInt8
  | _, [] => []
  | candot, c :: cs => escapeByte candot c ++ escapeFrom true cs

/-- `escape_registry_key`. -/
def escapeRegistryKey (s : CStr) : List UInt8 := escapeFrom false s.val

/-- The number that a digit of an escape stands for. -/
def digitOf (c : UInt8) : Int :=
  let i := c.toInt8.toInt - 48
  i - (if 9 < i then 7 else 0)

/-- `(i << 4) + j` as a byte. -/
def escapedByte (c d : UInt8) : UInt8 := ((digitOf c * 16 + digitOf d) % 256).toNat.toUInt8

/-- The loop of `unescape_registry_key`. -/
def unescapeFrom : List UInt8 → List UInt8
  | c :: a :: b :: cs =>
      if c = 37 then escapedByte a b :: unescapeFrom cs else c :: unescapeFrom (a :: b :: cs)
  | c :: cs => c :: unescapeFrom cs
  | [] => []

/-- `unescape_registry_key`. -/
def unescapeRegistryKey (s : CStr) : List UInt8 := unescapeFrom s.val

end Escaping

section Form

/-- `0` to `9` and `A` to `F`. -/
def UpperHex (c : UInt8) : Prop := (48 ≤ c ∧ c ≤ 57) ∨ (65 ≤ c ∧ c ≤ 70)

instance (c : UInt8) : Decidable (UpperHex c) := inferInstanceAs (Decidable (_ ∨ _))

/-- A byte of an escaped name. -/
def NameByte (c : UInt8) : Prop := 32 < c ∧ c ≤ 126 ∧ c ≠ 92 ∧ c ≠ 42 ∧ c ≠ 63

instance (c : UInt8) : Decidable (NameByte c) := inferInstanceAs (Decidable (_ ∧ _))

/-- What an escaped name looks like. -/
structure WellEscaped (out : List UInt8) : Prop where
  bytes : ∀ c ∈ out, NameByte c
  start : out.head? ≠ some 46
  percent : ∀ before after, out = before ++ 37 :: after →
    ∃ x y rest, after = x :: y :: rest ∧ UpperHex x ∧ UpperHex y

/-- The facts about one byte. -/
theorem byte_facts : ∀ n : Fin 256,
    let c := UInt8.ofFin n
    (UpperHex (hexDigit (c >>> 4)) ∧ UpperHex (hexDigit (c &&& 15)) ∧
        escapedByte (hexDigit (c >>> 4)) (hexDigit (c &&& 15)) = c) ∧
      (UpperHex c → NameByte c ∧ c ≠ 37) ∧
      ∀ candot, mustEscape candot c = false →
        NameByte c ∧ c ≠ 37 ∧ (candot = false → c ≠ 46) := by
  decide +kernel

theorem upperHex_hexDigit (c : UInt8) :
    UpperHex (hexDigit (c >>> 4)) ∧ UpperHex (hexDigit (c &&& 15)) :=
  ⟨(byte_facts c.toFin).1.1, (byte_facts c.toFin).1.2.1⟩

theorem escapedByte_hexDigit (c : UInt8) :
    escapedByte (hexDigit (c >>> 4)) (hexDigit (c &&& 15)) = c :=
  (byte_facts c.toFin).1.2.2

theorem UpperHex.nameByte {c : UInt8} (h : UpperHex c) : NameByte c :=
  ((byte_facts c.toFin).2.1 h).1

theorem UpperHex.ne_percent {c : UInt8} (h : UpperHex c) : c ≠ 37 :=
  ((byte_facts c.toFin).2.1 h).2

/-- A byte that is written as it is. -/
theorem facts_of_plain {candot : Bool} {c : UInt8} (h : mustEscape candot c = false) :
    NameByte c ∧ c ≠ 37 ∧ (candot = false → c ≠ 46) :=
  (byte_facts c.toFin).2.2 candot h

/-- The two forms of a byte. -/
theorem escapeByte_cases (candot : Bool) (c : UInt8) :
    (mustEscape candot c = false ∧ escapeByte candot c = [c]) ∨
      escapeByte candot c = [37, hexDigit (c >>> 4), hexDigit (c &&& 15)] := by
  unfold escapeByte
  cases h : mustEscape candot c with
  | false => exact .inl ⟨rfl, by simp⟩
  | true => exact .inr (by simp)

theorem bytes_escapeFrom (candot : Bool) (cs : List UInt8) :
    ∀ b ∈ escapeFrom candot cs, NameByte b := by
  induction cs generalizing candot with
  | nil => simp [escapeFrom]
  | cons c cs ih =>
      intro b hb
      rcases List.mem_append.mp hb with hb | hb
      · rcases escapeByte_cases candot c with ⟨hplain, heq⟩ | heq
        · rw [heq, List.mem_singleton] at hb
          exact hb ▸ (facts_of_plain hplain).1
        · rw [heq] at hb
          simp only [List.mem_cons, List.not_mem_nil, or_false] at hb
          rcases hb with rfl | rfl | rfl
          · decide
          · exact (upperHex_hexDigit c).1.nameByte
          · exact (upperHex_hexDigit c).2.nameByte
      · exact ih true b hb

theorem head_escapeFrom (cs : List UInt8) : (escapeFrom false cs).head? ≠ some 46 := by
  cases cs with
  | nil => simp [escapeFrom]
  | cons c cs =>
      rcases escapeByte_cases false c with ⟨hplain, heq⟩ | heq
      · rw [escapeFrom, heq]
        simpa using (facts_of_plain hplain).2.2 rfl
      · rw [escapeFrom, heq]
        simp

/-- Behind a percent sign are the digits of its byte. -/
theorem percent_escapeFrom (candot : Bool) (cs : List UInt8) {before after : List UInt8}
    (h : escapeFrom candot cs = before ++ 37 :: after) :
    ∃ x y rest, after = x :: y :: rest ∧ UpperHex x ∧ UpperHex y := by
  induction cs generalizing candot before with
  | nil => simp [escapeFrom] at h
  | cons c cs ih =>
      obtain ⟨hx, hy⟩ := upperHex_hexDigit c
      rcases escapeByte_cases candot c with ⟨hplain, heq⟩ | heq
      · rw [escapeFrom, heq] at h
        cases before with
        | nil => exact absurd (List.cons.inj h).1 (facts_of_plain hplain).2.1
        | cons b before => exact ih true (List.cons.inj h).2
      · rw [escapeFrom, heq] at h
        match before with
        | [] => exact ⟨_, _, _, (List.cons.inj h).2.symm, hx, hy⟩
        | [_] => exact absurd (List.cons.inj (List.cons.inj h).2).1 hx.ne_percent
        | [_, _] =>
            have htail := (List.cons.inj (List.cons.inj h).2).2
            exact absurd (List.cons.inj htail).1 hy.ne_percent
        | _ :: _ :: _ :: before =>
            have htail := (List.cons.inj (List.cons.inj h).2).2
            exact ih true (List.cons.inj htail).2

theorem wellEscaped_escapeRegistryKey (s : CStr) : WellEscaped (escapeRegistryKey s) where
  bytes := bytes_escapeFrom false s.val
  start := head_escapeFrom s.val
  percent _ _ h := percent_escapeFrom false s.val h

end Form

section RoundTrip

theorem unescapeFrom_cons {c : UInt8} (h : c ≠ 37) (cs : List UInt8) :
    unescapeFrom (c :: cs) = c :: unescapeFrom cs := by
  match cs with
  | [] => rfl
  | [_] => rfl
  | _ :: _ :: _ => rw [unescapeFrom, if_neg h]

/-- **Reading an escaped text gives the text.** -/
theorem unescapeFrom_escapeFrom (candot : Bool) (cs : List UInt8) :
    unescapeFrom (escapeFrom candot cs) = cs := by
  induction cs generalizing candot with
  | nil => rfl
  | cons c cs ih =>
      rcases escapeByte_cases candot c with ⟨hplain, heq⟩ | heq
      · rw [escapeFrom, heq, List.singleton_append,
          unescapeFrom_cons (facts_of_plain hplain).2.1, ih]
      · rw [escapeFrom, heq]
        show unescapeFrom (37 :: hexDigit (c >>> 4) :: hexDigit (c &&& 15) ::
          escapeFrom true cs) = c :: cs
        rw [unescapeFrom, if_pos rfl, escapedByte_hexDigit, ih]

/-- The escaped form is a C string. -/
theorem cstr_escapeRegistryKey (s : CStr) :
    (cstr (escapeRegistryKey s)).val = escapeRegistryKey s :=
  cstr_val_of_notMem (fun h => absurd ((wellEscaped_escapeRegistryKey s).bytes 0 h) (by decide))

/-- **Escaped names are read back, have the form of names, and are different for different
texts.** -/
theorem registryKey_escaping (s : CStr) :
    unescapeRegistryKey (cstr (escapeRegistryKey s)) = s.val ∧
      WellEscaped (escapeRegistryKey s) ∧
      ∀ t : CStr, escapeRegistryKey t = escapeRegistryKey s → t = s := by
  have hread : ∀ t : CStr, unescapeRegistryKey (cstr (escapeRegistryKey t)) = t.val := by
    intro t
    rw [unescapeRegistryKey, cstr_escapeRegistryKey, escapeRegistryKey, unescapeFrom_escapeFrom]
  refine ⟨hread s, wellEscaped_escapeRegistryKey s, fun t h => Subtype.ext ?_⟩
  rw [← hread t, ← hread s, h]

end RoundTrip

end Config
end Qutty
