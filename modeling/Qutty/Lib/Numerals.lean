import Mathlib.Tactic
import Mathlib.Data.Nat.Digits.Defs
import Mathlib.Data.List.TakeWhile

/-!
# Numerals

Positional numerals as sequences of character codes, written and read as the C
library and its relatives do: `numeral` is what `%d` and `%X` print, and
`readInt` skips white space, takes an optional sign and the longest run of
digits, and gives back what follows.  Reading a numeral gives the number
(`readInt_intNumeral`), and what is read as a number is a text of its own
(`readInt_split`).

The characters are of any type with a code, so that bytes and Unicode text share
the functions.
-/

namespace Qutty
namespace Lib

/-- The code of a digit: `0` to `9`, `A` to `Z`. -/
def digitCode (d : Nat) : Nat :=
  if d < 10 then 48 + d else 55 + d

/-- The value of a digit, in both cases of the letters. -/
def digitValue (base c : Nat) : Option Nat :=
  let v :=
    if 48 ≤ c ∧ c ≤ 57 then some (c - 48)
    else if 65 ≤ c ∧ c ≤ 90 then some (c - 55)
    else if 97 ≤ c ∧ c ≤ 122 then some (c - 87)
    else none
  v.filter (fun d => d < base)

/-- The numeral of a natural number. -/
def numeral (base n : Nat) : List Nat :=
  if n = 0 then [48] else (Nat.digits base n).reverse.map digitCode

/-- The decimal numeral of an integer. -/
def intNumeral (i : Int) : List Nat :=
  if i < 0 then 45 :: numeral 10 i.natAbs else numeral 10 i.natAbs

/-- `isspace` in the C locale. -/
def isSpace (c : Nat) : Bool :=
  c = 32 ∨ (9 ≤ c ∧ c ≤ 13)

section Reading

variable {α : Type} (code : α → Nat)

/-- The longest run of digits, and what follows it. -/
def readDigits (base : Nat) : Nat → List α → Nat × List α
  | acc, [] => (acc, [])
  | acc, c :: cs =>
      match digitValue base (code c) with
      | some d => readDigits base (base * acc + d) cs
      | none => (acc, c :: cs)

/-- A sign. -/
def readSign : List α → Bool × List α
  | [] => (false, [])
  | c :: cs =>
      if code c = 45 then (true, cs) else if code c = 43 then (false, cs) else (false, c :: cs)

/-- The digits of an integer: none if there is not a single one. -/
def readMagnitude (base : Nat) : List α → Option (Nat × List α)
  | [] => none
  | c :: cs =>
      match digitValue base (code c) with
      | some _ => some (readDigits code base 0 (c :: cs))
      | none => none

/-- White space, a sign and digits. -/
def readInt (base : Nat) (cs : List α) : Option (Int × List α) :=
  let (neg, ds) := readSign code (cs.dropWhile (fun c => isSpace (code c)))
  (readMagnitude code base ds).map
    (fun (v, rest) => (if neg then -(v : Int) else (v : Int), rest))

end Reading

section Digits

theorem digitValue_digitCode {base d : Nat} (hd : d < base) (hbase : base ≤ 36) :
    digitValue base (digitCode d) = some d := by
  unfold digitValue digitCode
  by_cases h10 : d < 10
  · have hcode : 48 ≤ 48 + d ∧ 48 + d ≤ 57 := by omega
    simp [h10, hcode, hd]
  · have hno : ¬ (48 ≤ 55 + d ∧ 55 + d ≤ 57) := by omega
    have hcode : 65 ≤ 55 + d ∧ 55 + d ≤ 90 := by omega
    have hsub : 55 + d - 55 = d := by omega
    simp [h10, hno, hcode, hsub, hd]

theorem digitValue_lt {base c d : Nat} (h : digitValue base c = some d) : d < base := by
  rw [digitValue, Option.filter_eq_some_iff] at h
  exact of_decide_eq_true h.2

variable {α : Type} {code : α → Nat} {base : Nat}

/-- Digits are read from left to right. -/
theorem readDigits_append {xs : List α} {ds : List Nat} (hx : xs.map code = ds.map digitCode)
    (hds : ∀ d ∈ ds, d < base) (hbase : base ≤ 36) (acc : Nat) (rest : List α) :
    readDigits code base acc (xs ++ rest) =
      readDigits code base (ds.foldl (fun a d => base * a + d) acc) rest := by
  induction ds generalizing xs acc with
  | nil =>
      obtain rfl : xs = [] := by simpa using hx
      rfl
  | cons d ds ih =>
      cases xs with
      | nil => simp at hx
      | cons x xs =>
          simp only [List.map_cons, List.cons.injEq] at hx
          have hd := digitValue_digitCode (hds d (by simp)) hbase
          rw [List.cons_append, readDigits, hx.1, hd]
          exact ih hx.2 (fun e he => hds e (by simp [he])) _

/-- What follows does not begin with a digit. -/
theorem readDigits_stop {rest : List α}
    (hrest : ∀ c ∈ rest.head?, digitValue base (code c) = none) (acc : Nat) :
    readDigits code base acc rest = (acc, rest) := by
  cases rest with
  | nil => rfl
  | cons c cs =>
      have hc := hrest c (by simp)
      simp [readDigits, hc]

theorem foldl_digits (base n : Nat) :
    (Nat.digits base n).reverse.foldl (fun a d => base * a + d) 0 = n := by
  have h := Nat.ofDigits_eq_foldr base (Nat.digits base n)
  rw [Nat.ofDigits_digits] at h
  rw [List.foldl_reverse]
  simpa [Nat.add_comm] using h.symm

/-- The numeral as a list of digits. -/
theorem exists_digits (n : Nat) (hbase : 1 < base) :
    ∃ ds, numeral base n = ds.map digitCode ∧ (∀ d ∈ ds, d < base) ∧ ds ≠ [] ∧
      ds.foldl (fun a d => base * a + d) 0 = n := by
  by_cases hn : n = 0
  · refine ⟨[0], by simp [numeral, hn, digitCode], ?_, by simp, by simp [hn]⟩
    intro d hd
    simp only [List.mem_singleton] at hd
    omega
  · refine ⟨(Nat.digits base n).reverse, by simp [numeral, hn], ?_, ?_, foldl_digits base n⟩
    · intro d hd
      exact Nat.digits_lt_base hbase (List.mem_reverse.mp hd)
    · simpa using Nat.digits_ne_nil_iff_ne_zero.mpr hn

/-- Reading a numeral gives the number. -/
theorem readMagnitude_numeral {xs rest : List α} {n : Nat} (hx : xs.map code = numeral base n)
    (hbase : 1 < base) (hle : base ≤ 36)
    (hrest : ∀ c ∈ rest.head?, digitValue base (code c) = none) :
    readMagnitude code base (xs ++ rest) = some (n, rest) := by
  obtain ⟨ds, hds, hlt, hne, hval⟩ := exists_digits n hbase
  have hread := readDigits_append (hx.trans hds) hlt hle 0 rest
  rw [hval, readDigits_stop hrest] at hread
  cases xs with
  | nil =>
      rw [hds] at hx
      exact absurd (List.map_eq_nil_iff.mp hx.symm) hne
  | cons x xs =>
      have hfirst : (digitValue base (code x)).isSome := by
        cases ds with
        | nil => exact absurd rfl hne
        | cons d ds =>
            rw [hds] at hx
            simp only [List.map_cons, List.cons.injEq] at hx
            rw [hx.1, digitValue_digitCode (hlt d (by simp)) hle]
            rfl
      obtain ⟨d, hd⟩ := Option.isSome_iff_exists.mp hfirst
      rw [List.cons_append] at hread ⊢
      rw [readMagnitude, hd]
      simp [hread]

/-- The first character of a numeral is no space and no sign. -/
theorem numeral_head (n : Nat) (hbase : 1 < base) :
    ∃ c cs, numeral base n = c :: cs ∧ isSpace c = false ∧ c ≠ 45 ∧ c ≠ 43 := by
  obtain ⟨ds, hds, hlt, hne, -⟩ := exists_digits n hbase
  cases ds with
  | nil => exact absurd rfl hne
  | cons d ds =>
      have hd := hlt d (by simp)
      refine ⟨digitCode d, ds.map digitCode, hds, ?_⟩
      unfold digitCode isSpace
      split_ifs <;> simp <;> omega

/-- The numeral of an integer begins with no space. -/
theorem intNumeral_head (i : Int) :
    ∃ c cs, intNumeral i = c :: cs ∧ isSpace c = false := by
  rw [intNumeral]
  split_ifs
  · exact ⟨45, _, rfl, rfl⟩
  · obtain ⟨c, cs, hnum, hspace, -⟩ := numeral_head i.natAbs (by omega : 1 < 10)
    exact ⟨c, cs, hnum, hspace⟩

/-- The characters of a decimal numeral. -/
theorem mem_intNumeral {c : Nat} {i : Int} (h : c ∈ intNumeral i) :
    c = 45 ∨ (48 ≤ c ∧ c ≤ 57) := by
  obtain ⟨ds, hds, hlt, -⟩ := exists_digits i.natAbs (by omega : 1 < 10)
  have hdigit : c ∈ numeral 10 i.natAbs → 48 ≤ c ∧ c ≤ 57 := by
    intro hc
    rw [hds] at hc
    obtain ⟨d, hd, rfl⟩ := List.mem_map.mp hc
    have hd10 := hlt d hd
    rw [digitCode, if_pos hd10]
    omega
  rw [intNumeral] at h
  split_ifs at h
  · exact (List.mem_cons.mp h).imp id hdigit
  · exact .inr (hdigit h)

/-- **Reading the numeral of an integer gives the integer.** -/
theorem readInt_intNumeral {xs rest : List α} {i : Int} (hx : xs.map code = intNumeral i)
    (hrest : ∀ c ∈ rest.head?, digitValue 10 (code c) = none) :
    readInt code 10 (xs ++ rest) = some (i, rest) := by
  obtain ⟨c, cs, hnum, hspace, hminus, hplus⟩ :=
    numeral_head i.natAbs (by omega : 1 < 10)
  by_cases hneg : i < 0
  · rw [intNumeral, if_pos hneg] at hx
    cases xs with
    | nil => simp at hx
    | cons x xs =>
        simp only [List.map_cons, List.cons.injEq] at hx
        have hminus' : isSpace 45 = false := rfl
        have hmag := readMagnitude_numeral hx.2 (by omega) (by omega) hrest
        simp only [readInt, List.cons_append, List.dropWhile_cons, readSign, hx.1, hminus',
          Bool.false_eq_true, if_false, if_true, hmag, Option.map_some, Option.some.injEq,
          Prod.mk.injEq, and_true]
        omega
  · rw [intNumeral, if_neg hneg] at hx
    have hmag := readMagnitude_numeral hx (by omega) (by omega) hrest
    rw [hnum] at hx
    cases xs with
    | nil => simp at hx
    | cons x xs =>
        simp only [List.map_cons, List.cons.injEq] at hx
        rw [← hx.1] at hspace hminus hplus
        rw [List.cons_append] at hmag ⊢
        simp only [readInt, List.dropWhile_cons, hspace, Bool.false_eq_true, if_false, readSign,
          hminus, hplus, hmag, Option.map_some, Option.some.injEq, Prod.mk.injEq, and_true]
        omega

end Digits

section Splitting

variable {α : Type} {code : α → Nat} {base : Nat}

variable (code) in
/-- A run of digits, and what follows it. -/
theorem readDigits_split (acc : Nat) (cs : List α) :
    ∃ ds, cs = ds ++ (readDigits code base acc cs).2 ∧
      (∀ rest, (∀ c ∈ rest.head?, digitValue base (code c) = none) →
        readDigits code base acc (ds ++ rest) = ((readDigits code base acc cs).1, rest)) ∧
      ∀ c ∈ (readDigits code base acc cs).2.head?, digitValue base (code c) = none := by
  induction cs generalizing acc with
  | nil => exact ⟨[], rfl, fun rest hrest => readDigits_stop hrest acc, by simp [readDigits]⟩
  | cons c cs ih =>
      cases hc : digitValue base (code c) with
      | none =>
          have hread : readDigits code base acc (c :: cs) = (acc, c :: cs) := by
            simp [readDigits, hc]
          rw [hread]
          exact ⟨[], rfl, fun rest hrest => readDigits_stop hrest acc, by simp [hc]⟩
      | some d =>
          have hread : ∀ xs, readDigits code base acc (c :: xs) =
              readDigits code base (base * acc + d) xs := by
            intro xs
            simp [readDigits, hc]
          obtain ⟨ds, hsplit, happ, hstop⟩ := ih (base * acc + d)
          rw [hread]
          refine ⟨c :: ds, by rw [List.cons_append, ← hsplit], fun rest hrest => ?_, hstop⟩
          rw [List.cons_append, hread, happ rest hrest]

theorem readMagnitude_split {ds rest : List α} {v : Nat}
    (h : readMagnitude code base ds = some (v, rest)) :
    ∃ d w, ds = d :: w ++ rest ∧ (∀ c ∈ rest.head?, digitValue base (code c) = none) ∧
      ∀ rest', (∀ c ∈ rest'.head?, digitValue base (code c) = none) →
        readMagnitude code base (d :: w ++ rest') = some (v, rest') := by
  cases ds with
  | nil => simp [readMagnitude] at h
  | cons d ds =>
      cases hd : digitValue base (code d) with
      | none => simp [readMagnitude, hd] at h
      | some k =>
          have hread : ∀ xs, readMagnitude code base (d :: xs) =
              some (readDigits code base (base * 0 + k) xs) := by
            intro xs
            simp [readMagnitude, readDigits, hd]
          obtain ⟨w, hsplit, happ, hstop⟩ := readDigits_split code (base * 0 + k) ds
          rw [hread, Option.some.injEq] at h
          rw [h] at hsplit happ hstop
          refine ⟨d, w, by rw [List.cons_append, ← hsplit], hstop, fun rest' hrest' => ?_⟩
          rw [List.cons_append, hread, happ rest' hrest']

variable (code) in
theorem readSign_append (c : α) (cs xs : List α) :
    readSign code (c :: cs ++ xs) =
      ((readSign code (c :: cs)).1, (readSign code (c :: cs)).2 ++ xs) := by
  rw [List.cons_append, readSign, readSign]
  split_ifs <;> rfl

variable (code) in
/-- A sign is at most one character. -/
theorem readSign_suffix (cs : List α) : ∃ sign, cs = sign ++ (readSign code cs).2 := by
  cases cs with
  | nil => exact ⟨[], rfl⟩
  | cons c cs =>
      rw [readSign]
      split_ifs
      · exact ⟨[c], rfl⟩
      · exact ⟨[c], rfl⟩
      · exact ⟨[], rfl⟩

variable (code) in
/-- A run of digits in front of a character that is none. -/
theorem readDigits_before {d : α} (hd : digitValue base (code d) = none) (acc : Nat)
    (cs b : List α) : readDigits code base acc (cs ++ d :: b) =
      ((readDigits code base acc cs).1, (readDigits code base acc cs).2 ++ d :: b) := by
  induction cs generalizing acc with
  | nil => simp [readDigits, hd]
  | cons c cs ih =>
      rw [List.cons_append, readDigits, readDigits]
      cases digitValue base (code c) with
      | none => rfl
      | some v => exact ih (base * acc + v)

variable (code) in
/-- An integer in front of a character that is no digit is read as if the text ended there. -/
theorem readInt_before {c d : α} (hc : isSpace (code c) = false)
    (hd : digitValue base (code d) = none) (cs b : List α) :
    readInt code base (c :: cs ++ d :: b) =
      (readInt code base (c :: cs)).map (fun r => (r.1, r.2 ++ d :: b)) := by
  have hdrop : ∀ xs, (c :: xs).dropWhile (fun c => isSpace (code c)) = c :: xs :=
    fun xs => List.dropWhile_cons_of_neg (by simp [hc])
  rw [readInt, readInt, List.cons_append, hdrop, hdrop, ← List.cons_append, readSign_append]
  generalize readSign code (c :: cs) = sign
  obtain ⟨neg, ds⟩ := sign
  dsimp only
  cases ds with
  | nil => simp [readMagnitude, hd]
  | cons e es =>
      rw [List.cons_append, readMagnitude, readMagnitude]
      cases digitValue base (code e) with
      | none => rfl
      | some v =>
          rw [← List.cons_append, readDigits_before code hd]
          rfl

variable (code) in
/-- White space in front of an integer. -/
theorem readInt_spaces {ws : List α} (hws : ∀ c ∈ ws, isSpace (code c) = true) (cs : List α) :
    readInt code base (ws ++ cs) = readInt code base cs := by
  rw [readInt, readInt, List.dropWhile_append_of_pos hws]

/-- What is neither white space nor a sign nor a digit begins no integer. -/
theorem readInt_none {c : α} (hspace : isSpace (code c) = false) (hminus : code c ≠ 45)
    (hplus : code c ≠ 43) (hdigit : digitValue base (code c) = none) (cs : List α) :
    readInt code base (c :: cs) = none := by
  rw [readInt, List.dropWhile_cons_of_neg (by simp [hspace])]
  simp [readSign, hminus, hplus, readMagnitude, hdigit]

/-- **An integer takes up a text of its own**: it is followed by what is left, and
any other text that does not begin with a digit may follow it instead. -/
theorem readInt_split {cs rest : List α} {v : Int} (h : readInt code base cs = some (v, rest)) :
    ∃ w, cs = w ++ rest ∧ w ≠ [] ∧ (∀ c ∈ rest.head?, digitValue base (code c) = none) ∧
      ∀ rest', (∀ c ∈ rest'.head?, digitValue base (code c) = none) →
        readInt code base (w ++ rest') = some (v, rest') := by
  have hblanks := List.takeWhile_append_dropWhile (p := fun c => isSpace (code c)) (l := cs)
  rw [readInt, Option.map_eq_some_iff] at h
  obtain ⟨⟨m, rest₁⟩, hmag, hv⟩ := h
  obtain ⟨rfl, rfl⟩ : (if (readSign code (cs.dropWhile (fun c => isSpace (code c)))).1 then
      -(m : Int) else m) = v ∧ rest₁ = rest := by simpa using hv
  obtain ⟨sign, hsign⟩ := readSign_suffix code (cs.dropWhile (fun c => isSpace (code c)))
  obtain ⟨d, w, hds, hstop, happ⟩ := readMagnitude_split hmag
  rw [hds] at hsign
  refine ⟨cs.takeWhile (fun c => isSpace (code c)) ++ (sign ++ d :: w), ?_, by simp, hstop,
    fun rest' hrest' => ?_⟩
  · rw [List.append_assoc, List.append_assoc, ← hsign, hblanks]
  · -- the text begins with the same character as before, so blanks and sign are the same
    have hne : sign ++ d :: w ≠ [] := by simp
    obtain ⟨x, xs, hx⟩ := List.exists_cons_of_ne_nil hne
    have hdrop : cs.dropWhile (fun c => isSpace (code c)) = x :: xs ++ rest₁ := by
      rw [← hx, hsign, List.append_assoc]
    have hblank : isSpace (code x) = false := by
      have hhead := List.head_dropWhile_not (fun c => isSpace (code c)) (l := cs) (by simp [hdrop])
      simpa [hdrop] using hhead
    have hspaces : ∀ c ∈ cs.takeWhile (fun c => isSpace (code c)), isSpace (code c) = true :=
      fun c hc => List.mem_takeWhile_imp (p := fun c => isSpace (code c)) hc
    have hdrop' : (cs.takeWhile (fun c => isSpace (code c)) ++ (x :: xs) ++ rest').dropWhile
        (fun c => isSpace (code c)) = x :: xs ++ rest' := by
      rw [List.append_assoc,
        List.dropWhile_append_of_pos hspaces, List.cons_append,
        List.dropWhile_cons_of_neg (by simp [hblank])]
    have htail : (readSign code (x :: xs)).2 = d :: w := by
      rw [hdrop, readSign_append] at hds
      exact List.append_cancel_right hds
    have hmag' := happ rest' hrest'
    rw [readInt, hx, hdrop', readSign_append, htail, hdrop, readSign_append]
    simp only [hmag', Option.map_some]

end Splitting

end Lib
end Qutty
