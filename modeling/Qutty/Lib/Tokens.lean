import Qutty.Lib.Istream

/-!
# Words, characters and numbers

What the extractors of a stream find in a text.  A text that goes on behind a blank
is read like the part in front of the blank, as long as this part is not used up
(`tokenAt_before`); a row of tokens begins in the first part, and the first token
that is not there any more is looked for behind the blank (`tokensAt_cons_before`).
-/

namespace Qutty
namespace Lib
namespace Istream

/-- What an extractor looks for. -/
inductive TokenKind where
  | word
  | char
  | int
deriving DecidableEq, Repr

inductive Token where
  | word (w : List UInt8)
  | char (c : UInt8)
  | int (v : Int)
deriving DecidableEq, Repr

/-- One token at the start of a text, and the text behind it. -/
def tokenAt : TokenKind → List UInt8 → Option (Token × List UInt8)
  | .word, text => (wordAt text).map (fun r => (.word r.1, r.2))
  | .char, text => (charAt text).map (fun r => (.char r.1, r.2))
  | .int, text => (intAt text).map (fun r => (.int r.1, r.2))

/-- A row of tokens. -/
def tokensAt : List TokenKind → List UInt8 → Option (List Token × List UInt8)
  | [], text => some ([], text)
  | k :: ks, text =>
      (tokenAt k text).bind fun r => (tokensAt ks r.2).map fun rs => (r.1 :: rs.1, rs.2)

section Kinds

variable {text rest w : List UInt8} {c : UInt8} {v : Int} {k : TokenKind} {t : Token}

@[simp] theorem tokenAt_word :
    tokenAt .word text = some (.word w, rest) ↔ wordAt text = some (w, rest) := by
  cases h : wordAt text <;> simp [tokenAt, h, Prod.ext_iff]

@[simp] theorem tokenAt_char :
    tokenAt .char text = some (.char c, rest) ↔ charAt text = some (c, rest) := by
  cases h : charAt text <;> simp [tokenAt, h, Prod.ext_iff]

@[simp] theorem tokenAt_int :
    tokenAt .int text = some (.int v, rest) ↔ intAt text = some (v, rest) := by
  cases h : intAt text <;> simp [tokenAt, h, Prod.ext_iff]

theorem tokensAt_cons {ks : List TokenKind} {ts : List Token} :
    tokensAt (k :: ks) text = some (t :: ts, rest) ↔
      ∃ text', tokenAt k text = some (t, text') ∧ tokensAt ks text' = some (ts, rest) := by
  rw [tokensAt]
  cases htoken : tokenAt k text with
  | none => simp
  | some r =>
      obtain ⟨t', text'⟩ := r
      cases hmore : tokensAt ks text' with
      | none => simp [hmore]
      | some rs =>
          simp only [Option.bind_some, hmore, Option.map_some, Option.some.injEq, Prod.mk.injEq,
            List.cons.injEq]
          constructor
          · rintro ⟨⟨rfl, rfl⟩, rfl⟩
            exact ⟨text', ⟨rfl, rfl⟩, hmore⟩
          · rintro ⟨text'', ⟨rfl, rfl⟩, h⟩
            rw [hmore] at h
            cases h
            exact ⟨⟨rfl, rfl⟩, rfl⟩

end Kinds

/-- Nothing but white space. -/
def Blank (text : List UInt8) : Prop := ∀ b ∈ text, isBlank b = true

section Blanks

variable {a b text rest w : List UInt8} {d c : UInt8} {v : Int} {k : TokenKind}

theorem blank_iff : Blank a ↔ a.dropWhile isBlank = [] := List.dropWhile_eq_nil_iff.symm

instance (a : List UInt8) : Decidable (Blank a) := inferInstanceAs (Decidable (∀ b ∈ a, _))

theorem blank_nil : Blank [] := fun _ h => absurd h (by simp)

theorem Blank.append (ha : Blank a) (hb : Blank b) : Blank (a ++ b) := by
  intro c hc
  rcases List.mem_append.mp hc with h | h
  · exact ha c h
  · exact hb c h

theorem blank_singleton (hd : isBlank d = true) : Blank [d] := by
  intro c hc
  rwa [List.mem_singleton.mp hc]

/-- A blank is not a digit. -/
theorem not_digit_of_isBlank (hd : isBlank d = true) : digitValue 10 d.toNat = none := by
  have hspace : d.toNat = 32 ∨ (9 ≤ d.toNat ∧ d.toNat ≤ 13) := by
    simpa [isBlank, isSpace] using hd
  have h₁ : ¬ (48 ≤ d.toNat ∧ d.toNat ≤ 57) := by omega
  have h₂ : ¬ (65 ≤ d.toNat ∧ d.toNat ≤ 90) := by omega
  have h₃ : ¬ (97 ≤ d.toNat ∧ d.toNat ≤ 122) := by omega
  simp [digitValue, h₁, h₂, h₃]

theorem intAt_eq (text : List UInt8) :
    intAt text = if text.dropWhile isBlank = [] then none
      else (readInt UInt8.toNat 10 (text.dropWhile isBlank)).filter
        (fun r => !(fitInt r.1).2) := by
  have hskip := skip_ofString text
  cases hint : intAt text with
  | none =>
      split_ifs with hdrop
      · rfl
      · rw [if_neg hdrop] at hskip
        cases hread : readInt UInt8.toNat 10 (text.dropWhile isBlank) with
        | none => rfl
        | some r =>
            cases hfit : (fitInt r.1).2 with
            | true => simp [Option.filter, hfit]
            | false =>
                rw [intAt_eq_some_iff.mpr ⟨_, hskip, hread, hfit⟩] at hint
                cases hint
  | some r =>
      obtain ⟨cs, hcs, hread, hfit⟩ := intAt_eq_some_iff.mp (hint.trans (by rfl : some r = some (r.1, r.2)))
      rw [hcs] at hskip
      split_ifs at hskip with hdrop
      cases hskip
      rw [if_neg hdrop, hread]
      simp [Option.filter, hfit]

/-- White space in front of a token. -/
theorem tokenAt_blank (ha : Blank a) : tokenAt k (a ++ b) = tokenAt k b := by
  have hdrop : (a ++ b).dropWhile isBlank = b.dropWhile isBlank :=
    List.dropWhile_append_of_pos ha
  cases k with
  | word => rw [tokenAt, tokenAt, wordAt, wordAt, hdrop]
  | char => rw [tokenAt, tokenAt, charAt, charAt, hdrop]
  | int => rw [tokenAt, tokenAt, intAt_eq, intAt_eq, hdrop]

theorem tokenAt_of_blank (ha : Blank a) : tokenAt k a = none := by
  have hdrop := blank_iff.mp ha
  cases k with
  | word => rw [tokenAt, wordAt, hdrop]; rfl
  | char => rw [tokenAt, charAt, hdrop]; rfl
  | int => rw [tokenAt, intAt_eq, if_pos hdrop]; rfl

/-- A token in front of a blank is read as if the text ended there. -/
theorem tokenAt_before (ha : ¬ Blank a) (hd : isBlank d = true) :
    tokenAt k (a ++ d :: b) = (tokenAt k a).map (fun r => (r.1, r.2 ++ d :: b)) := by
  obtain ⟨c, cs, hcs⟩ := List.exists_cons_of_ne_nil (fun h => ha (blank_iff.mpr h))
  have hc : isBlank c = false := by
    have hhead := List.head_dropWhile_not isBlank (l := a) (by simp [hcs])
    simpa [hcs] using hhead
  have hdrop : (a ++ d :: b).dropWhile isBlank = c :: cs ++ d :: b := by
    rw [List.dropWhile_append, if_neg (by simp [hcs]), hcs]
  cases k with
  | word =>
      have htake : (c :: cs ++ d :: b).takeWhile (fun b => !isBlank b) =
          (c :: cs).takeWhile (fun b => !isBlank b) := by
        rw [List.takeWhile_append]
        split_ifs with h
        · rw [List.takeWhile_cons_of_neg (by simp [hd]), List.append_nil]
          exact ((List.takeWhile_prefix _).eq_of_length h).symm
        · rfl
      have hrest : (c :: cs ++ d :: b).dropWhile (fun b => !isBlank b) =
          (c :: cs).dropWhile (fun b => !isBlank b) ++ d :: b := by
        rw [List.dropWhile_append]
        split_ifs with h
        · rw [List.isEmpty_iff.mp h]
          simp [hd]
        · rfl
      rw [tokenAt, tokenAt, wordAt, wordAt, hdrop, hcs]
      simp only [List.cons_append, Option.map_some] at htake hrest ⊢
      rw [htake, hrest]
  | char =>
      rw [tokenAt, tokenAt, charAt, charAt, hdrop, hcs]
      rfl
  | int =>
      rw [tokenAt, tokenAt, intAt_eq, intAt_eq, hdrop, hcs,
        readInt_before _ hc (not_digit_of_isBlank hd)]
      cases readInt UInt8.toNat 10 (c :: cs) with
      | none => simp
      | some r => cases hfit : (fitInt r.1).2 <;> simp [Option.filter, hfit]

/-- A row of tokens begins in front of a blank, or behind it if there is nothing else. -/
theorem tokensAt_cons_before {ks : List TokenKind} {t : Token} {ts : List Token}
    (hd : isBlank d = true) :
    tokensAt (k :: ks) (a ++ d :: b) = some (t :: ts, rest) ↔
      (Blank a ∧ tokensAt (k :: ks) b = some (t :: ts, rest)) ∨
      ∃ a', tokenAt k a = some (t, a') ∧ tokensAt ks (a' ++ d :: b) = some (ts, rest) := by
  by_cases ha : Blank a
  · have hblank : Blank (a ++ [d]) := ha.append (blank_singleton hd)
    have hsame : tokensAt (k :: ks) (a ++ d :: b) = tokensAt (k :: ks) b := by
      rw [tokensAt, tokensAt, List.append_cons, tokenAt_blank hblank]
    rw [hsame, tokenAt_of_blank ha]
    simp [ha]
  · rw [tokensAt_cons, tokenAt_before ha hd]
    cases htoken : tokenAt k a with
    | none => simp [ha]
    | some r =>
        simp only [Option.map_some, Option.some.injEq, ha, false_and, false_or]
        constructor
        · rintro ⟨text', hr, hmore⟩
          cases hr
          exact ⟨r.2, rfl, hmore⟩
        · rintro ⟨a', rfl, hmore⟩
          exact ⟨_, rfl, hmore⟩

/-- White space in front of a row of tokens. -/
theorem tokensAt_blank {ks : List TokenKind} (ha : Blank a) :
    tokensAt (k :: ks) (a ++ b) = tokensAt (k :: ks) b := by
  rw [tokensAt, tokensAt, tokenAt_blank ha]

/-- What is read in front of a blank is read there if the text goes on. -/
theorem tokensAt_append {ks : List TokenKind} {ts : List Token} (hd : isBlank d = true)
    (h : tokensAt ks a = some (ts, rest)) :
    tokensAt ks (a ++ d :: b) = some (ts, rest ++ d :: b) := by
  induction ks generalizing a ts with
  | nil =>
      rw [tokensAt] at h ⊢
      cases h
      rfl
  | cons k ks ih =>
      cases ts with
      | nil =>
          rw [tokensAt, Option.bind_eq_some_iff] at h
          obtain ⟨r, -, h⟩ := h
          simp at h
      | cons t ts =>
          obtain ⟨a', htoken, hmore⟩ := tokensAt_cons.mp h
          exact (tokensAt_cons_before hd).mpr (.inr ⟨a', htoken, ih hmore⟩)

/-- A word that ends at a blank. -/
theorem tokensAt_word {ks : List TokenKind} {t : Token} {ts : List Token} (hne : w ≠ [])
    (hw : ∀ b ∈ w, isBlank b = false) (hd : isBlank d = true) :
    tokensAt (.word :: ks) (w ++ d :: b) = some (t :: ts, rest) ↔
      t = .word w ∧ tokensAt ks (d :: b) = some (ts, rest) := by
  have hword : wordAt (w ++ d :: b) = some (w, d :: b) := by
    obtain ⟨c, cs, rfl⟩ := List.exists_cons_of_ne_nil hne
    have hall : ∀ b ∈ c :: cs, (!isBlank b) = true := fun b hb => by rw [hw b hb]; rfl
    have hdrop : (c :: cs ++ d :: b).dropWhile isBlank = c :: cs ++ d :: b :=
      List.dropWhile_cons_of_neg (by rw [hw c List.mem_cons_self]; simp)
    have hsplit : (c :: cs ++ d :: b).takeWhile (fun b => !isBlank b) = c :: cs ∧
        (c :: cs ++ d :: b).dropWhile (fun b => !isBlank b) = d :: b := by
      rw [List.takeWhile_append_of_pos hall, List.dropWhile_append_of_pos hall]
      simp [hd]
    rw [wordAt, hdrop]
    simp only [List.cons_append] at hsplit ⊢
    rw [hsplit.1, hsplit.2]
  rw [tokensAt_cons]
  simp only [tokenAt, hword, Option.map_some, Option.some.injEq, Prod.mk.injEq]
  constructor
  · rintro ⟨text, ⟨rfl, rfl⟩, h⟩
    exact ⟨rfl, h⟩
  · rintro ⟨rfl, h⟩
    exact ⟨_, ⟨rfl, rfl⟩, h⟩

/-- A numeral that ends at a blank; an `int` has to hold it. -/
theorem tokensAt_numeral {ks : List TokenKind} {t : Token} {ts : List Token} {n : Nat}
    (hd : isBlank d = true) :
    tokensAt (.int :: ks) (numeralBytes n ++ d :: b) = some (t :: ts, rest) ↔
      n < 2 ^ 31 ∧ t = .int n ∧ tokensAt ks (d :: b) = some (ts, rest) := by
  have hread : readInt UInt8.toNat 10 (numeralBytes n ++ d :: b) = some ((n : Int), d :: b) :=
    readInt_intNumeral (toNat_numeralBytes n) (by simpa using not_digit_of_isBlank hd)
  have hdrop : (numeralBytes n ++ d :: b).dropWhile isBlank = numeralBytes n ++ d :: b := by
    obtain ⟨c, cs, hcons, hblank⟩ := intNumeral_head n
    have hbytes := toNat_numeralBytes n
    cases hx : numeralBytes n with
    | nil => simp [hx, hcons] at hbytes
    | cons x xs =>
        rw [hx, hcons, List.map_cons, List.cons.injEq] at hbytes
        have hxblank : isBlank x = false := by rw [isBlank, hbytes.1, hblank]
        exact List.dropWhile_cons_of_neg (by simp [hxblank])
  have hne : numeralBytes n ++ d :: b ≠ [] := by simp
  rw [tokensAt_cons]
  simp only [tokenAt, intAt_eq, hdrop, hne, if_false, hread, Option.filter]
  by_cases hn : n < 2 ^ 31
  · have hfit : (fitInt (n : Int)).2 = false := by
      rw [fitInt, if_neg (by omega), if_neg (by omega)]
    simp only [hfit, Bool.not_false, if_true, Option.map_some, Option.some.injEq, Prod.mk.injEq,
      hn, true_and]
    constructor
    · rintro ⟨text, ⟨rfl, rfl⟩, h⟩
      exact ⟨rfl, h⟩
    · rintro ⟨rfl, h⟩
      exact ⟨_, ⟨rfl, rfl⟩, h⟩
  · have hfit : (fitInt (n : Int)).2 = true := by
      rw [fitInt, if_neg (by omega), if_pos (by omega)]
    simp only [hfit, hn, false_and, iff_false]
    simp

/-- What begins with another character is not a number. -/
theorem tokensAt_int_none {ks : List TokenKind} (hblank : isBlank c = false)
    (hminus : c.toNat ≠ 45) (hplus : c.toNat ≠ 43) (hdigit : digitValue 10 c.toNat = none)
    (text : List UInt8) : tokensAt (.int :: ks) (c :: text) = none := by
  have hdrop : (c :: text).dropWhile isBlank = c :: text :=
    List.dropWhile_cons_of_neg (by simp [hblank])
  have hread : readInt UInt8.toNat 10 (c :: text) = none :=
    readInt_none hblank hminus hplus hdigit text
  have hint : intAt (c :: text) = none := by
    rw [intAt_eq, hdrop, if_neg (by simp), hread]
    rfl
  simp [tokensAt, tokenAt, hint]

theorem charAt_cons (hc : isBlank c = false) (text : List UInt8) :
    charAt (c :: text) = some (c, text) := by
  rw [charAt, List.dropWhile_cons_of_neg (by simp [hc])]

theorem skip_blank (ha : Blank a) : (ofString (a ++ b)).skip = (ofString b).skip := by
  have hdrop : (a ++ b).dropWhile isBlank = b.dropWhile isBlank :=
    List.dropWhile_append_of_pos ha
  rw [skip_ofString, skip_ofString, hdrop]

theorem readIntInto_blank (ha : Blank a) (old : Int) :
    (ofString (a ++ b)).readIntInto old = (ofString b).readIntInto old := by
  rw [readIntInto, readIntInto, readNumber, readNumber, skip_blank ha]
  rfl

theorem readWordInto_blank (ha : Blank a) (old : List UInt8) :
    (ofString (a ++ b)).readWordInto old = (ofString b).readWordInto old := by
  rw [readWordInto, readWordInto, skip_blank ha]
  rfl

/-- A number in front of a blank, also one that is not there or does not fit. -/
theorem readIntInto_before (ha : ¬ Blank a) (hd : isBlank d = true) (old : Int) :
    ((ofString (a ++ d :: b)).readIntInto old).1 = ((ofString a).readIntInto old).1 := by
  obtain ⟨c, cs, hcs⟩ := List.exists_cons_of_ne_nil (fun h => ha (blank_iff.mpr h))
  have hc : isBlank c = false := by
    have hhead := List.head_dropWhile_not isBlank (l := a) (by simp [hcs])
    simpa [hcs] using hhead
  have hdrop : (a ++ d :: b).dropWhile isBlank = c :: cs ++ d :: b := by
    rw [List.dropWhile_append, if_neg (by simp [hcs]), hcs]
  have hskip : (ofString a).skip = some (c :: cs) := by
    rw [skip_ofString, hcs, if_neg (by simp)]
  have hskip' : (ofString (a ++ d :: b)).skip = some (c :: cs ++ d :: b) := by
    rw [skip_ofString, hdrop, if_neg (by simp)]
  simp only [readIntInto, readNumber, hskip, hskip',
    readInt_before _ hc (not_digit_of_isBlank hd)]
  cases readInt UInt8.toNat 10 (c :: cs) <;> rfl

/-- An integer in front of a blank. -/
theorem readInt_before_blank (ha : ¬ Blank a) (hd : isBlank d = true) :
    readInt UInt8.toNat 10 (a ++ d :: b) =
      (readInt UInt8.toNat 10 a).map (fun r => (r.1, r.2 ++ d :: b)) := by
  obtain ⟨c, cs, hcs⟩ := List.exists_cons_of_ne_nil (fun h => ha (blank_iff.mpr h))
  have hc : isBlank c = false := by
    have hhead := List.head_dropWhile_not isBlank (l := a) (by simp [hcs])
    simpa [hcs] using hhead
  have hsplit : a = a.takeWhile isBlank ++ c :: cs := by
    rw [← hcs, List.takeWhile_append_dropWhile]
  have hspaces : ∀ x ∈ a.takeWhile isBlank, isSpace x.toNat = true :=
    fun x hx => List.mem_takeWhile_imp (p := isBlank) hx
  rw [hsplit, List.append_assoc, readInt_spaces _ hspaces, readInt_spaces _ hspaces,
    readInt_before _ hc (not_digit_of_isBlank hd)]

theorem strtol_before (ha : ¬ Blank a) (hd : isBlank d = true) :
    strtol (a ++ d :: b) = (strtol a).map (fun r => (r.1, r.2 ++ d :: b)) := by
  rw [strtol, strtol, readInt_before_blank ha hd]
  cases readInt UInt8.toNat 10 a <;> rfl

theorem strtol_blank (ha : Blank a) : strtol (a ++ b) = strtol b := by
  rw [strtol, strtol, readInt_spaces _ ha]

/-- What is read for an `int` is one, if the old value is one. -/
theorem readIntInto_bounds (s : Istream) {old : Int} (hold : -2 ^ 31 ≤ old ∧ old < 2 ^ 31) :
    -2 ^ 31 ≤ (s.readIntInto old).1 ∧ (s.readIntInto old).1 < 2 ^ 31 := by
  have hfit : ∀ v, -2 ^ 31 ≤ (fitInt v).1 ∧ (fitInt v).1 < 2 ^ 31 := by
    intro v
    rw [fitInt]
    split_ifs with h₁ h₂
    · norm_num
    · norm_num
    · exact ⟨by omega, by omega⟩
  rw [readIntInto, readNumber]
  split
  · exact hold
  · split
    · norm_num
    · exact hfit _

end Blanks

section NumberAndWord

/-- A number and the word behind it. -/
def numberWord (old : Int) (text : List UInt8) : Int × List UInt8 :=
  let (v, s) := (ofString text).readIntInto old
  (v, (s.readWordInto []).1)

variable {a g rest w : List UInt8} {d : UInt8} {v old : Int}

theorem numberWord_blank (ha : Blank a) : numberWord old (a ++ g) = numberWord old g := by
  rw [numberWord, numberWord, readIntInto_blank ha]

/-- Without a number in front of the blank there is no word. -/
theorem numberWord_none (ha : ¬ Blank a) (hd : isBlank d = true) (hint : intAt a = none) :
    numberWord old (a ++ d :: g) = (((ofString a).readIntInto old).1, []) := by
  have htoken : tokenAt .int (a ++ d :: g) = none := by
    rw [tokenAt_before ha hd, tokenAt, hint]
    rfl
  have hnone : intAt (a ++ d :: g) = none := by
    rw [tokenAt, Option.map_eq_none_iff] at htoken
    exact htoken
  have hfail := (ready_ofString (a ++ d :: g)).readIntInto_none hnone old
  have hvalue := readIntInto_before (b := g) ha hd old
  rw [numberWord]
  generalize (ofString (a ++ d :: g)).readIntInto old = out at hfail hvalue
  obtain ⟨v, s⟩ := out
  dsimp only at hfail hvalue ⊢
  rw [hvalue, (readWordInto_of_fail hfail []).1]

/-- With a number in front of the blank, the word is there as well or behind it. -/
theorem numberWord_some (hd : isBlank d = true) (hint : intAt a = some (v, rest)) :
    numberWord old (a ++ d :: g) =
      (v, if Blank rest then ((ofString g).readWordInto []).1
        else ((ofString rest).readWordInto []).1) := by
  have ha : ¬ Blank a := by
    intro hblank
    have hnone := tokenAt_of_blank (k := .int) hblank
    rw [tokenAt, hint] at hnone
    cases hnone
  have htoken : tokenAt .int (a ++ d :: g) = some (.int v, rest ++ d :: g) := by
    rw [tokenAt_before ha hd, tokenAt, hint]
    rfl
  have hread := (ready_ofString (a ++ d :: g)).readIntInto_some (tokenAt_int.mp htoken) old
  have hready := ready_mk (rest ++ d :: g)
  rw [numberWord, hread]
  dsimp only
  split_ifs with hblank
  · have hskip : Blank (rest ++ [d]) := hblank.append (blank_singleton hd)
    have hsame := hready.skip_eq
    rw [List.append_cons, skip_blank hskip] at hsame
    rw [readWordInto, readWordInto, List.append_cons, hsame]
    cases (ofString g).skip <;> rfl
  · have hsome : ∃ r, wordAt rest = some r := by
      rw [wordAt]
      cases hdrop : rest.dropWhile isBlank with
      | nil => exact absurd (blank_iff.mpr hdrop) hblank
      | cons c cs => exact ⟨_, rfl⟩
    obtain ⟨⟨w, rest'⟩, hword⟩ := hsome
    have hlater : tokenAt .word (rest ++ d :: g) = some (.word w, rest' ++ d :: g) := by
      rw [tokenAt_before hblank hd, tokenAt, hword]
      rfl
    rw [hready.readWordInto_some (tokenAt_word.mp hlater),
      (ready_ofString rest).readWordInto_some hword]

end NumberAndWord

end Istream
end Lib
end Qutty
