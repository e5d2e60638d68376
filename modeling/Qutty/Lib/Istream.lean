import Qutty.Lib.Numerals
import Mathlib.Data.List.TakeWhile

/-!
# Input string streams

`std::istringstream` and `strtol` on octets, in the C locale: a stream is what is
left to read with `eofbit` and `failbit`.  Extractors leave the variable alone
when the stream is not good or holds only white space; a number that is not there
reads as zero, and one out of range as the nearest bound, both with `failbit`.

Where an extractor fails, the characters that it would have used up are left in
`rest`: nothing can be read from a stream after that.
-/

namespace Qutty
namespace Lib

/-- A stream: what is left to read, `eofbit` and `failbit`. -/
structure Istream where
  rest : List UInt8
  eof : Bool
  fail : Bool
deriving DecidableEq, Repr

namespace Istream

/-- The stream of a string. -/
def ofString (s : List UInt8) : Istream := ⟨s, false, false⟩

def good (s : Istream) : Bool := !s.eof && !s.fail

def failed (s : Istream) : Istream := { s with fail := true }

def isBlank (b : UInt8) : Bool := isSpace b.toNat

/-- The next character, as `get` returns it; `none` is `EOF`. -/
def get (s : Istream) : Option UInt8 × Istream :=
  if s.good then
    match s.rest with
    | [] => (none, ⟨[], true, true⟩)
    | c :: cs => (some c, ⟨cs, false, false⟩)
  else (none, s.failed)

def peek (s : Istream) : Option UInt8 × Istream :=
  if s.good then
    match s.rest with
    | [] => (none, ⟨[], true, false⟩)
    | c :: _ => (some c, s)
  else (none, s.failed)

/-- The characters after white space, if the stream is good and has any. -/
def skip (s : Istream) : Option (List UInt8) :=
  if s.good then
    match s.rest.dropWhile isBlank with
    | [] => none
    | c :: cs => some (c :: cs)
  else none

/-- The stream after an extractor has found nothing to begin with. -/
def exhausted (s : Istream) : Istream :=
  if s.good then ⟨[], true, true⟩ else s.failed

/-- `>>` to a number; `fit` makes it fit the type, or reports that it does not. -/
def readNumber (fit : Int → Int × Bool) (old : Int) (s : Istream) : Int × Istream :=
  match s.skip with
  | none => (old, s.exhausted)
  | some cs =>
      match readInt UInt8.toNat 10 cs with
      | none => (0, ⟨cs, false, true⟩)
      | some (v, rest) => ((fit v).1, ⟨rest, rest.isEmpty, (fit v).2⟩)

/-- A number as an `int`. -/
def fitInt (v : Int) : Int × Bool :=
  if v < -2 ^ 31 then (-2 ^ 31, true)
  else if 2 ^ 31 ≤ v then (2 ^ 31 - 1, true)
  else (v, false)

/-- A number as an `unsigned int`; a negative one wraps around. -/
def fitUnsigned (v : Int) : Int × Bool :=
  if v ≤ -2 ^ 32 ∨ 2 ^ 32 ≤ v then (2 ^ 32 - 1, true) else (v % 2 ^ 32, false)

/-- `>>` to an `int`. -/
def readIntInto (old : Int) (s : Istream) : Int × Istream :=
  readNumber fitInt old s

/-- `>>` to an `unsigned int`. -/
def readUnsignedInto (old : Nat) (s : Istream) : Nat × Istream :=
  let (v, s) := readNumber fitUnsigned old s
  (v.toNat, s)

/-- `>>` to a `char`. -/
def readCharInto (old : UInt8) (s : Istream) : UInt8 × Istream :=
  match s.skip with
  | some (c :: cs) => (c, ⟨cs, false, false⟩)
  | _ => (old, s.exhausted)

/-- `>>` to a `string`: a word. -/
def readWordInto (old : List UInt8) (s : Istream) : List UInt8 × Istream :=
  match s.skip with
  | none => (old, s.exhausted)
  | some cs =>
      let rest := cs.dropWhile (fun c => !isBlank c)
      (cs.takeWhile (fun c => !isBlank c), ⟨rest, rest.isEmpty, false⟩)

/-- `getline` up to a delimiter, which is used up. -/
def getlineInto (delim : UInt8) (old : List UInt8) (s : Istream) : List UInt8 × Istream :=
  if s.good then
    match s.rest.dropWhile (fun c => c ≠ delim) with
    | _ :: rest => (s.rest.takeWhile (fun c => c ≠ delim), ⟨rest, false, false⟩)
    | [] => (s.rest, ⟨[], true, s.rest.isEmpty⟩)
  else (old, s.failed)

/-- The lines that `while (getline(s, line))` goes through. -/
def lines (delim : UInt8) : Nat → Istream → List (List UInt8)
  | 0, _ => []
  | n + 1, s =>
      let (line, s) := s.getlineInto delim []
      if s.fail then [] else line :: lines delim n s

/-- All lines of a string. -/
def linesOf (delim : UInt8) (text : List UInt8) : List (List UInt8) :=
  lines delim (text.length + 1) (ofString text)

end Istream

/-- A string up to its terminator. -/
def cString (s : List UInt8) : List UInt8 :=
  s.takeWhile (fun c => c ≠ 0)

theorem cString_eq_self {s : List UInt8} (h : ∀ b ∈ s, b ≠ 0) : cString s = s := by
  rw [cString, List.takeWhile_eq_self_iff]
  exact fun b hb => decide_eq_true (h b hb)

/-- `strtol` in base ten with a `long` of 32 bits: the value, and where reading
stopped; `none` if there was no number. -/
def strtol (s : List UInt8) : Option (Int × List UInt8) :=
  (readInt UInt8.toNat 10 s).map (fun r => ((Istream.fitInt r.1).1, r.2))

/-- What is left behind a number is the end of the text. -/
theorem strtol_suffix {s bytes : List UInt8} {v : Int} (h : strtol s = some (v, bytes)) :
    ∃ before, s = before ++ bytes := by
  rw [strtol, Option.map_eq_some_iff] at h
  obtain ⟨⟨i, rest⟩, hread, hval⟩ := h
  obtain ⟨w, hsplit, -⟩ := readInt_split hread
  rw [Prod.mk.injEq] at hval
  exact ⟨w, hval.2 ▸ hsplit⟩

namespace Istream

section Reading

theorem skip_cons {c : UInt8} (cs : List UInt8) (hc : isBlank c = false) :
    (ofString (c :: cs)).skip = some (c :: cs) := by
  simp [skip, ofString, good, hc]

/-- Reading a numeral that an `int` can hold. -/
theorem readIntInto_intNumeral {xs rest : List UInt8} {v : Int} (old : Int)
    (hx : xs.map UInt8.toNat = intNumeral v) (hv : -2 ^ 31 ≤ v ∧ v < 2 ^ 31)
    (hrest : ∀ c ∈ rest.head?, digitValue 10 c.toNat = none) :
    readIntInto old (ofString (xs ++ rest)) = (v, ⟨rest, rest.isEmpty, false⟩) := by
  obtain ⟨c, cs, hcons, hblank⟩ := intNumeral_head v
  have hread := readInt_intNumeral hx hrest
  have hskip : (ofString (xs ++ rest)).skip = some (xs ++ rest) := by
    cases xs with
    | nil => simp [hcons] at hx
    | cons x xs =>
        rw [hcons, List.map_cons, List.cons.injEq] at hx
        exact skip_cons _ (by rw [isBlank, hx.1, hblank])
  have hfit : fitInt v = (v, false) := by
    rw [fitInt, if_neg (by omega), if_neg (by omega)]
  simp only [readIntInto, readNumber, hskip, hread, hfit]

/-- The next word. -/
theorem readWordInto_word {w rest : List UInt8} (old : List UInt8) {c : UInt8}
    (hne : w ≠ []) (hw : ∀ b ∈ w, isBlank b = false) (hc : isBlank c = true) :
    readWordInto old (ofString (w ++ c :: rest)) = (w, ⟨c :: rest, false, false⟩) := by
  cases w with
  | nil => exact absurd rfl hne
  | cons b w =>
      have hall : ∀ x ∈ b :: w, (!isBlank x) = true := by
        intro x hx
        rw [hw x hx]
        rfl
      have hskip := skip_cons (w ++ c :: rest) (hw b (by simp))
      have htake : (b :: w ++ c :: rest).takeWhile (fun c => !isBlank c) = b :: w := by
        rw [List.takeWhile_append_of_pos hall]
        simp [hc]
      have hdrop : (b :: w ++ c :: rest).dropWhile (fun c => !isBlank c) = c :: rest := by
        rw [List.dropWhile_append_of_pos hall]
        simp [hc]
      rw [List.cons_append] at htake hdrop ⊢
      simp only [readWordInto, hskip, htake, hdrop, List.isEmpty_cons]

/-- A word has no white space in it. -/
theorem isBlank_of_mem_word {text : List UInt8} {b : UInt8}
    (hb : b ∈ (readWordInto [] (ofString text)).1) : isBlank b = false := by
  unfold readWordInto at hb
  split at hb
  · cases hb
  · simpa using List.mem_takeWhile_imp hb

/-- A word comes from the stream. -/
theorem mem_of_mem_word {text : List UInt8} {b : UInt8}
    (hb : b ∈ (readWordInto [] (ofString text)).1) : b ∈ text := by
  unfold readWordInto skip ofString at hb
  dsimp only at hb
  split at hb
  · cases hb
  · rename_i cs hcs
    split at hcs
    · split at hcs
      · cases hcs
      · rename_i c cs' hdrop
        cases hcs
        have hmem := (List.takeWhile_prefix _).subset hb
        rw [← hdrop] at hmem
        exact (List.dropWhile_suffix _).subset hmem
    · cases hcs

/-- There is no word exactly if everything is white space. -/
theorem readWordInto_eq_nil_iff {text : List UInt8} :
    (readWordInto [] (ofString text)).1 = [] ↔ ∀ b ∈ text, isBlank b = true := by
  rw [← List.dropWhile_eq_nil_iff]
  cases hdrop : text.dropWhile isBlank with
  | nil => simp [readWordInto, skip, ofString, good, hdrop]
  | cons c cs =>
      have hc : isBlank c = false := by
        have hhead := List.head_dropWhile_not isBlank (l := text) (by simp [hdrop])
        simpa [hdrop] using hhead
      simp [readWordInto, skip, ofString, good, hdrop, hc]

end Reading

section State

/-- The stream can be read, and holds a text. -/
structure Ready (s : Istream) (text : List UInt8) : Prop where
  rest : s.rest = text
  fail : s.fail = false
  eof : s.eof = true → text = []

theorem ready_ofString (text : List UInt8) : (ofString text).Ready text :=
  ⟨rfl, rfl, by simp [ofString]⟩

theorem ready_mk (text : List UInt8) : Ready ⟨text, text.isEmpty, false⟩ text :=
  ⟨rfl, rfl, fun h => List.isEmpty_iff.mp h⟩

/-- An unsigned number at the start of a text, and the text behind it. -/
def unsignedAt (text : List UInt8) : Option (Nat × List UInt8) :=
  let (v, s) := readUnsignedInto 0 (ofString text)
  if s.fail then none else some (v, s.rest)

variable {s : Istream} {text rest : List UInt8} {c : UInt8} {v : Nat}

theorem good_of_ready (h : s.Ready (c :: text)) : s.good = true := by
  have heof : s.eof = false := by
    rw [Bool.eq_false_iff]
    intro he
    exact absurd (h.eof he) (by simp)
  simp [good, heof, h.fail]

theorem Ready.get_cons (h : s.Ready (c :: text)) : s.get = (some c, ⟨text, false, false⟩) := by
  rw [get, if_pos (good_of_ready h), h.rest]

theorem Ready.peek_cons (h : s.Ready (c :: text)) : s.peek = (some c, s) := by
  rw [peek, if_pos (good_of_ready h), h.rest]

/-- At its end a stream gives nothing, and fails. -/
theorem Ready.get_nil (h : s.Ready []) : s.get.1 = none ∧ s.get.2.fail = true := by
  rw [get]
  split_ifs
  · rw [h.rest]
    exact ⟨rfl, rfl⟩
  · exact ⟨rfl, rfl⟩

theorem get_of_fail (h : s.fail = true) : s.get = (none, s.failed) := by
  rw [get, if_neg (by simp [good, h])]

theorem peek_of_fail (h : s.fail = true) : s.peek = (none, s.failed) := by
  rw [peek, if_neg (by simp [good, h])]

/-- A number is not read from a stream that has failed. -/
theorem readUnsignedInto_of_fail (h : s.fail = true) (old : Nat) :
    (s.readUnsignedInto old).2.fail = true := by
  have hgood : s.good = false := by simp [good, h]
  simp [readUnsignedInto, readNumber, skip, exhausted, hgood, failed]

theorem Ready.skip_eq (h : s.Ready text) : s.skip = (ofString text).skip := by
  cases text with
  | nil =>
      rw [skip, skip, h.rest]
      simp [ofString, good]
  | cons c text =>
      rw [skip, skip, if_pos (good_of_ready h), h.rest]
      rfl

section Cases

variable (old : Nat) {cs : List UInt8} {i : Int}

theorem readUnsignedInto_of_empty (h : s.skip = none) :
    s.readUnsignedInto old = (old, s.exhausted) := by
  simp [readUnsignedInto, readNumber, h]

theorem readUnsignedInto_of_other (h : s.skip = some cs) (hread : readInt UInt8.toNat 10 cs = none) :
    s.readUnsignedInto old = (0, ⟨cs, false, true⟩) := by
  simp [readUnsignedInto, readNumber, h, hread]

theorem readUnsignedInto_of_number (h : s.skip = some cs)
    (hread : readInt UInt8.toNat 10 cs = some (i, rest)) :
    s.readUnsignedInto old =
      ((fitUnsigned i).1.toNat, ⟨rest, rest.isEmpty, (fitUnsigned i).2⟩) := by
  simp [readUnsignedInto, readNumber, h, hread]

theorem exhausted_fail (s : Istream) : s.exhausted.fail = true := by
  rw [exhausted]
  split_ifs <;> rfl

end Cases

/-- What an unsigned number is. -/
theorem unsignedAt_eq_some_iff :
    unsignedAt text = some (v, rest) ↔ ∃ cs i, (ofString text).skip = some cs ∧
      readInt UInt8.toNat 10 cs = some (i, rest) ∧ (fitUnsigned i).2 = false ∧
        (fitUnsigned i).1.toNat = v := by
  constructor
  · intro h
    cases hskip : (ofString text).skip with
    | none =>
        rw [unsignedAt, readUnsignedInto_of_empty 0 hskip] at h
        simp [exhausted_fail] at h
    | some cs =>
        cases hread : readInt UInt8.toNat 10 cs with
        | none =>
            rw [unsignedAt, readUnsignedInto_of_other 0 hskip hread] at h
            simp at h
        | some r =>
            rw [unsignedAt, readUnsignedInto_of_number 0 hskip hread] at h
            cases hfit : (fitUnsigned r.1).2 with
            | true => simp [hfit] at h
            | false =>
                obtain ⟨rfl, rfl⟩ : (fitUnsigned r.1).1.toNat = v ∧ r.2 = rest := by
                  simpa [hfit] using h
                exact ⟨cs, r.1, rfl, hread, hfit, rfl⟩
  · rintro ⟨cs, i, hskip, hread, hfit, rfl⟩
    rw [unsignedAt, readUnsignedInto_of_number 0 hskip hread]
    simp [hfit]

/-- A number that is there is read, whatever was there before. -/
theorem Ready.readUnsignedInto_some (h : s.Ready text) (hv : unsignedAt text = some (v, rest))
    (old : Nat) :
    (s.readUnsignedInto old).1 = v ∧ (s.readUnsignedInto old).2.Ready rest := by
  obtain ⟨cs, i, hskip, hread, hfit, rfl⟩ := unsignedAt_eq_some_iff.mp hv
  rw [readUnsignedInto_of_number old (h.skip_eq.trans hskip) hread, hfit]
  exact ⟨rfl, ready_mk rest⟩

/-- Without a number the stream fails. -/
theorem Ready.readUnsignedInto_none (h : s.Ready text) (hv : unsignedAt text = none)
    (old : Nat) : (s.readUnsignedInto old).2.fail = true := by
  cases hskip : (ofString text).skip with
  | none =>
      rw [readUnsignedInto_of_empty old (h.skip_eq.trans hskip)]
      exact exhausted_fail s
  | some cs =>
      cases hread : readInt UInt8.toNat 10 cs with
      | none => rw [readUnsignedInto_of_other old (h.skip_eq.trans hskip) hread]
      | some r =>
          rw [readUnsignedInto_of_number old (h.skip_eq.trans hskip) hread]
          by_contra hok
          have hsome := unsignedAt_eq_some_iff.mpr
            ⟨cs, r.1, hskip, hread, by simpa using hok, rfl⟩
          rw [hv] at hsome
          cases hsome

theorem skip_eq_some {cs : List UInt8} (h : (ofString text).skip = some cs) :
    text.dropWhile isBlank = cs ∧ cs ≠ [] := by
  rw [skip, if_pos (by rfl)] at h
  split at h
  · cases h
  · rename_i hdrop
    cases h
    exact ⟨hdrop, by simp⟩

/-- **A number takes up a text of its own.** -/
theorem unsignedAt_split (h : unsignedAt text = some (v, rest)) :
    ∃ w, text = w ++ rest ∧ w ≠ [] ∧ (∀ c ∈ rest.head?, digitValue 10 c.toNat = none) ∧
      ∀ rest', (∀ c ∈ rest'.head?, digitValue 10 c.toNat = none) →
        unsignedAt (w ++ rest') = some (v, rest') := by
  obtain ⟨cs, i, hskip, hread, hfit, rfl⟩ := unsignedAt_eq_some_iff.mp h
  obtain ⟨w, hcs, hne, hstop, happ⟩ := readInt_split hread
  obtain ⟨hdrop, -⟩ := skip_eq_some hskip
  have htext : text = text.takeWhile isBlank ++ w ++ rest := by
    rw [List.append_assoc, ← hcs, ← hdrop, List.takeWhile_append_dropWhile]
  refine ⟨text.takeWhile isBlank ++ w, htext, by simp [hne], hstop, fun rest' hrest' => ?_⟩
  refine unsignedAt_eq_some_iff.mpr ⟨w ++ rest', i, ?_, happ rest' hrest', hfit, rfl⟩
  obtain ⟨x, xs, rfl⟩ := List.exists_cons_of_ne_nil hne
  have hblank : isBlank x = false := by
    have hhead := List.head_dropWhile_not isBlank (l := text) (by simp [hdrop, hcs])
    simpa [hdrop, hcs] using hhead
  have hdrop' : (text.takeWhile isBlank ++ (x :: xs) ++ rest').dropWhile isBlank =
      x :: xs ++ rest' := by
    rw [List.append_assoc, List.dropWhile_append_of_pos (fun c hc => List.mem_takeWhile_imp hc),
      List.cons_append, List.dropWhile_cons_of_neg (by simp [hblank])]
  rw [skip, if_pos (by rfl)]
  simp only [ofString, hdrop', List.cons_append]

/-- The bytes of the numeral of an integer. -/
def numeralBytes (i : Int) : List UInt8 := (intNumeral i).map Nat.toUInt8

theorem toNat_numeralBytes (i : Int) : (numeralBytes i).map UInt8.toNat = intNumeral i := by
  rw [numeralBytes, List.map_map]
  conv_rhs => rw [← List.map_id (intNumeral i)]
  refine List.map_congr_left fun c hc => ?_
  have hlt : c < 256 := by
    rcases mem_intNumeral hc with rfl | hdigit
    · decide
    · omega
  simp [Nat.mod_eq_of_lt hlt]

/-- The numeral of an `unsigned int` is a number. -/
theorem unsignedAt_numeral {xs rest : List UInt8} {n : Nat}
    (hx : xs.map UInt8.toNat = intNumeral n) (hn : n < 2 ^ 32)
    (hrest : ∀ c ∈ rest.head?, digitValue 10 c.toNat = none) :
    unsignedAt (xs ++ rest) = some (n, rest) := by
  obtain ⟨c, cs, hcons, hblank⟩ := intNumeral_head n
  have hskip : (ofString (xs ++ rest)).skip = some (xs ++ rest) := by
    cases xs with
    | nil => simp [hcons] at hx
    | cons x xs =>
        rw [hcons, List.map_cons, List.cons.injEq] at hx
        exact skip_cons _ (by rw [isBlank, hx.1, hblank])
  have hfit : fitUnsigned n = ((n : Int), false) := by
    rw [fitUnsigned, if_neg (by omega), Int.emod_eq_of_lt (by omega) (by omega)]
  refine unsignedAt_eq_some_iff.mpr
    ⟨xs ++ rest, n, hskip, readInt_intNumeral hx hrest, by rw [hfit], ?_⟩
  rw [hfit]
  exact Int.toNat_natCast n

end State

section Tokens

/-- An `int` at the start of a text, and the text behind it. -/
def intAt (text : List UInt8) : Option (Int × List UInt8) :=
  let (v, s) := readIntInto 0 (ofString text)
  if s.fail then none else some (v, s.rest)

/-- The first word of a text, and the text behind it. -/
def wordAt (text : List UInt8) : Option (List UInt8 × List UInt8) :=
  match text.dropWhile isBlank with
  | [] => none
  | c :: cs =>
      some ((c :: cs).takeWhile (fun b => !isBlank b), (c :: cs).dropWhile (fun b => !isBlank b))

/-- The first character of a text that is not white space, and the text behind it. -/
def charAt (text : List UInt8) : Option (UInt8 × List UInt8) :=
  match text.dropWhile isBlank with
  | [] => none
  | c :: cs => some (c, cs)

variable {s : Istream} {text rest w : List UInt8} {v : Int} {c : UInt8}

theorem skip_ofString (text : List UInt8) :
    (ofString text).skip = if text.dropWhile isBlank = [] then none
      else some (text.dropWhile isBlank) := by
  cases h : text.dropWhile isBlank with
  | nil => simp [skip, ofString, good, h]
  | cons c cs => simp [skip, ofString, good, h]

theorem intAt_eq_some_iff :
    intAt text = some (v, rest) ↔ ∃ cs, (ofString text).skip = some cs ∧
      readInt UInt8.toNat 10 cs = some (v, rest) ∧ (fitInt v).2 = false := by
  have hfit : ∀ i, (fitInt i).2 = false → (fitInt i).1 = i := by
    intro i h
    rw [fitInt] at h ⊢
    split_ifs at h ⊢
    rfl
  constructor
  · intro h
    cases hskip : (ofString text).skip with
    | none => simp [intAt, readIntInto, readNumber, hskip, exhausted_fail] at h
    | some cs =>
        cases hread : readInt UInt8.toNat 10 cs with
        | none => simp [intAt, readIntInto, readNumber, hskip, hread] at h
        | some r =>
            cases hr : (fitInt r.1).2 with
            | true => simp [intAt, readIntInto, readNumber, hskip, hread, hr] at h
            | false =>
                have hv : (fitInt r.1).1 = v ∧ r.2 = rest := by
                  simpa [intAt, readIntInto, readNumber, hskip, hread, hr] using h
                rw [hfit _ hr] at hv
                obtain ⟨rfl, rfl⟩ := hv
                exact ⟨cs, rfl, hread, hr⟩
  · rintro ⟨cs, hskip, hread, hv⟩
    simp [intAt, readIntInto, readNumber, hskip, hread, hv, hfit v hv]

/-- An `int` that is there is read, whatever was there before. -/
theorem Ready.readIntInto_some (h : s.Ready text) (hv : intAt text = some (v, rest)) (old : Int) :
    s.readIntInto old = (v, ⟨rest, rest.isEmpty, false⟩) := by
  obtain ⟨cs, hskip, hread, hfit⟩ := intAt_eq_some_iff.mp hv
  have hval : (fitInt v).1 = v := by
    rw [fitInt] at hfit ⊢
    split_ifs at hfit ⊢
    rfl
  simp [readIntInto, readNumber, h.skip_eq.trans hskip, hread, hfit, hval]

/-- Without an `int` the stream fails. -/
theorem Ready.readIntInto_none (h : s.Ready text) (hv : intAt text = none) (old : Int) :
    (s.readIntInto old).2.fail = true := by
  cases hskip : (ofString text).skip with
  | none => simp [readIntInto, readNumber, h.skip_eq.trans hskip, exhausted_fail]
  | some cs =>
      cases hread : readInt UInt8.toNat 10 cs with
      | none => simp [readIntInto, readNumber, h.skip_eq.trans hskip, hread]
      | some r =>
          cases hfit : (fitInt r.1).2 with
          | true => simp [readIntInto, readNumber, h.skip_eq.trans hskip, hread, hfit]
          | false =>
              rw [intAt_eq_some_iff.mpr ⟨cs, hskip, hread, hfit⟩] at hv
              cases hv

theorem skip_of_fail (h : s.fail = true) : s.skip = none := by
  have hgood : s.good = false := by simp [good, h]
  simp [skip, hgood]

/-- A stream that has failed leaves variables alone. -/
theorem readIntInto_of_fail (h : s.fail = true) (old : Int) :
    (s.readIntInto old).1 = old ∧ (s.readIntInto old).2.fail = true := by
  simp [readIntInto, readNumber, skip_of_fail h, exhausted_fail]

theorem readWordInto_of_fail (h : s.fail = true) (old : List UInt8) :
    (s.readWordInto old).1 = old ∧ (s.readWordInto old).2.fail = true := by
  simp [readWordInto, skip_of_fail h, exhausted_fail]

/-- A word that is there is read. -/
theorem Ready.readWordInto_some (h : s.Ready text) (hw : wordAt text = some (w, rest))
    (old : List UInt8) : s.readWordInto old = (w, ⟨rest, rest.isEmpty, false⟩) := by
  have hskip := h.skip_eq.trans (skip_ofString text)
  rw [wordAt] at hw
  cases hdrop : text.dropWhile isBlank with
  | nil => simp [hdrop] at hw
  | cons c cs =>
      simp only [hdrop, Option.some.injEq, Prod.mk.injEq] at hw
      obtain ⟨rfl, rfl⟩ := hw
      simp [readWordInto, hskip, hdrop]

theorem Ready.readWordInto_none (h : s.Ready text) (hw : wordAt text = none) (old : List UInt8) :
    (s.readWordInto old).1 = old ∧ (s.readWordInto old).2.fail = true := by
  have hskip := h.skip_eq.trans (skip_ofString text)
  rw [wordAt] at hw
  cases hdrop : text.dropWhile isBlank with
  | nil => simp [readWordInto, hskip, hdrop, exhausted_fail]
  | cons c cs => simp [hdrop] at hw

/-- A character that is there is read. -/
theorem Ready.readCharInto_some (h : s.Ready text) (hc : charAt text = some (c, rest))
    (old : UInt8) : s.readCharInto old = (c, ⟨rest, false, false⟩) := by
  have hskip := h.skip_eq.trans (skip_ofString text)
  rw [charAt] at hc
  cases hdrop : text.dropWhile isBlank with
  | nil => simp [hdrop] at hc
  | cons d cs =>
      simp only [hdrop, Option.some.injEq, Prod.mk.injEq] at hc
      obtain ⟨rfl, rfl⟩ := hc
      simp [readCharInto, hskip, hdrop]

/-- Without a character the variable is left alone. -/
theorem Ready.readCharInto_none (h : s.Ready text) (hc : charAt text = none) (old : UInt8) :
    (s.readCharInto old).1 = old := by
  have hskip := h.skip_eq.trans (skip_ofString text)
  rw [charAt] at hc
  cases hdrop : text.dropWhile isBlank with
  | nil => simp [readCharInto, hskip, hdrop]
  | cons d cs => simp [hdrop] at hc

theorem readCharInto_of_fail (h : s.fail = true) (old : UInt8) : (s.readCharInto old).1 = old := by
  simp [readCharInto, skip_of_fail h]

/-- What is left behind a number is the end of the text. -/
theorem intAt_suffix (h : intAt text = some (v, rest)) : rest <:+ text := by
  obtain ⟨cs, hskip, hread, -⟩ := intAt_eq_some_iff.mp h
  obtain ⟨w, rfl, -⟩ := readInt_split hread
  obtain ⟨hdrop, -⟩ := skip_eq_some hskip
  exact (List.suffix_append w rest).trans (hdrop ▸ List.dropWhile_suffix _)

theorem wordAt_suffix (h : wordAt text = some (w, rest)) : rest <:+ text := by
  rw [wordAt] at h
  split at h
  · cases h
  · rename_i hdrop
    cases h
    rw [← hdrop]
    exact (List.dropWhile_suffix _).trans (List.dropWhile_suffix _)

theorem charAt_suffix (h : charAt text = some (c, rest)) : c :: rest <:+ text := by
  rw [charAt] at h
  split at h
  · cases h
  · rename_i hdrop
    cases h
    rw [← hdrop]
    exact List.dropWhile_suffix _

/-- A word is part of the text, is not empty and has no white space in it. -/
theorem wordAt_word (h : wordAt text = some (w, rest)) :
    w ≠ [] ∧ w.length ≤ text.length ∧ (∀ b ∈ w, b ∈ text) ∧ ∀ b ∈ w, isBlank b = false := by
  rw [wordAt] at h
  split at h
  · cases h
  · rename_i c cs hdrop
    cases h
    have hsuffix : c :: cs <:+ text := hdrop ▸ List.dropWhile_suffix _
    have hfront : (c :: cs).takeWhile (fun b => !isBlank b) <+: c :: cs :=
      List.takeWhile_prefix _
    have hc : isBlank c = false := by
      have hhead := List.head_dropWhile_not isBlank (l := text) (by simp [hdrop])
      simpa [hdrop] using hhead
    refine ⟨by simp [hc], hfront.length_le.trans hsuffix.length_le,
      fun b hb => hsuffix.subset (hfront.subset hb), fun b hb => ?_⟩
    simpa using List.mem_takeWhile_imp hb

end Tokens

section Lines

variable {delim : UInt8}

theorem getlineInto_line {line rest : List UInt8} (h : delim ∉ line) (old : List UInt8) :
    (ofString (line ++ delim :: rest)).getlineInto delim old = (line, ofString rest) := by
  have hall : ∀ c ∈ line, decide (c ≠ delim) = true := by
    intro c hc
    exact decide_eq_true (fun heq => h (heq ▸ hc))
  have htake : (line ++ delim :: rest).takeWhile (fun c => c ≠ delim) = line := by
    rw [List.takeWhile_append_of_pos hall, List.takeWhile_cons_of_neg (by simp), List.append_nil]
  have hdrop : (line ++ delim :: rest).dropWhile (fun c => c ≠ delim) = delim :: rest := by
    rw [List.dropWhile_append_of_pos hall, List.dropWhile_cons_of_neg (by simp)]
  simp only [getlineInto, ofString, good, htake, hdrop, Bool.not_false, Bool.and_true, if_true]

/-- What joined parts consist of. -/
theorem mem_of_mem_intercalate {sep : List UInt8} {parts : List (List UInt8)} {b : UInt8}
    (h : b ∈ sep.intercalate parts) : b ∈ sep ∨ ∃ part ∈ parts, b ∈ part := by
  induction parts with
  | nil => simp [List.intercalate_nil] at h
  | cons part parts ih =>
      cases parts with
      | nil =>
          rw [List.intercalate_singleton] at h
          exact .inr ⟨part, List.mem_cons_self, h⟩
      | cons part' parts =>
          rw [List.intercalate_cons_cons, List.mem_append, List.mem_append] at h
          rcases h with (h | h) | h
          · exact .inr ⟨part, List.mem_cons_self, h⟩
          · exact .inl h
          · rcases ih h with h | ⟨part'', hpart, hb⟩
            · exact .inl h
            · exact .inr ⟨part'', List.mem_cons_of_mem _ hpart, hb⟩

/-- The lines of a text in which each line ends with the delimiter. -/
theorem linesOf_flatten {ls : List (List UInt8)} (h : ∀ line ∈ ls, delim ∉ line) :
    linesOf delim (ls.map (· ++ [delim])).flatten = ls := by
  have hlines : ∀ n, ls.length < n →
      lines delim n (ofString (ls.map (· ++ [delim])).flatten) = ls := by
    induction ls with
    | nil =>
        intro n hn
        obtain ⟨n, rfl⟩ : ∃ m, n = m + 1 := ⟨n - 1, by simp at hn; omega⟩
        simp [lines, getlineInto, ofString, good]
    | cons line ls ih =>
        intro n hn
        rw [List.length_cons] at hn
        obtain ⟨n, rfl⟩ : ∃ m, n = m + 1 := ⟨n - 1, by omega⟩
        have hmore := ih (fun l hl => h l (List.mem_cons_of_mem _ hl)) n (by omega)
        rw [List.map_cons, List.flatten_cons, List.append_assoc, List.singleton_append, lines,
          getlineInto_line (h line List.mem_cons_self)]
        simp only [ofString, Bool.false_eq_true, if_false, List.cons.injEq, true_and]
        exact hmore
  refine hlines _ ?_
  have hlen : ls.length ≤ (ls.map (· ++ [delim])).flatten.length := by
    clear h hlines
    induction ls with
    | nil => simp
    | cons line ls ih =>
        simp only [List.map_cons, List.flatten_cons, List.length_append, List.length_cons,
          List.length_nil]
        omega
  omega

end Lines

section Lengths

variable {s : Istream}

theorem length_get_le (s : Istream) : s.get.2.rest.length ≤ s.rest.length := by
  rw [get]
  split_ifs
  · cases hrest : s.rest with
    | nil => simp
    | cons c cs => simp
  · exact le_rfl

theorem length_peek_le (s : Istream) : s.peek.2.rest.length ≤ s.rest.length := by
  rw [peek]
  split_ifs
  · cases hrest : s.rest with
    | nil => simp
    | cons c cs => simp [hrest]
  · exact le_rfl

/-- A character that was seen is used up. -/
theorem length_get_peek {c : UInt8} (h : s.peek.1 = some c) :
    s.peek.2.get.2.rest.length < s.rest.length := by
  rw [peek] at h ⊢
  split_ifs at h ⊢ with hgood
  cases hrest : s.rest with
  | nil => simp [hrest] at h
  | cons d cs =>
      simp only [get, hgood, if_true, hrest, List.length_cons]
      omega

theorem length_readUnsignedInto_le (old : Nat) (s : Istream) :
    (s.readUnsignedInto old).2.rest.length ≤ s.rest.length := by
  cases hskip : s.skip with
  | none =>
      rw [readUnsignedInto_of_empty old hskip, exhausted]
      split_ifs
      · simp
      · exact le_rfl
  | some cs =>
      have hcs : cs.length ≤ s.rest.length := by
        rw [skip] at hskip
        split_ifs at hskip
        split at hskip
        · cases hskip
        · rename_i hdrop
          cases hskip
          rw [← hdrop]
          exact (List.dropWhile_suffix _).length_le
      cases hread : readInt UInt8.toNat 10 cs with
      | none =>
          rw [readUnsignedInto_of_other old hskip hread]
          exact hcs
      | some r =>
          rw [readUnsignedInto_of_number old hskip hread]
          obtain ⟨w, hw, -⟩ := readInt_split hread
          have hlen := congrArg List.length hw
          rw [List.length_append] at hlen
          dsimp only
          omega

/-- A character that is there is used up. -/
theorem length_get_lt {c : UInt8} (h : s.get.1 = some c) :
    s.get.2.rest.length < s.rest.length := by
  rw [get] at h ⊢
  split_ifs at h ⊢ with hgood
  cases hrest : s.rest with
  | nil => simp [hrest] at h
  | cons d cs => simp

end Lengths

end Istream

end Lib
end Qutty
