import Qutty.Tmux.Output

/-!
# What a pane is fed for a line of output

The server writes control characters and the backslash as an escape of three
octal digits, and every other byte as it is (`encodeOutput`).  The line driver may
put carriage returns into the line.

`decode` is the loop of `cmd_hdlr_output` on what is left of the line.  It drops
the bytes from 128 on, for they are negative characters, and it counts a carriage
return inside an escape as one of the three digits.  So a payload is decoded to
the bytes that it stands for exactly if there is no such byte and no such carriage
return (`decode_eq_iff`).
-/

namespace Qutty
namespace Tmux

open Lib Pane

/-- The bytes that the server writes as an escape. -/
def escaped (b : UInt8) : Bool := b < 32 ∨ b = 92

/-- A byte in an `%output` line. -/
def encodeByte (b : UInt8) : List UInt8 :=
  if escaped b then [92, 48 + b / 64, 48 + b / 8 % 8, 48 + b % 8] else [b]

/-- The payload of an `%output` line. -/
def encodeOutput (data : List UInt8) : List UInt8 := data.flatMap encodeByte

/-- `\r` may stand anywhere in a text. -/
def Sprinkled (text line : List UInt8) : Prop := line.filter (fun b => b ≠ 13) = text

instance (text line : List UInt8) : Decidable (Sprinkled text line) :=
  inferInstanceAs (Decidable (_ = _))

/-- The carriage returns of a payload are between the encoded bytes. -/
inductive Clean : List UInt8 → List UInt8 → Prop
  | nil {crs : List UInt8} (hcrs : ∀ b ∈ crs, b = 13) : Clean [] crs
  | cons {b : UInt8} {data crs rest : List UInt8} (hcrs : ∀ b ∈ crs, b = 13)
      (hrest : Clean data rest) : Clean (b :: data) (crs ++ (encodeByte b ++ rest))

/-- The digits of an escape, and what is left behind them. -/
def readEscapeOf : Nat → UInt8 → List UInt8 → UInt8 × List UInt8
  | 0, c, bs => (c, bs)
  | _ + 1, _, [] => (63, [])
  | j + 1, c, b :: bs =>
      if b = 13 then readEscapeOf j c bs
      else if b < 48 ∨ 55 < b then (63, b :: bs)
      else readEscapeOf j (c * 8 + (b - 48)) bs

/-- The loop of `cmd_hdlr_output`, at most `n` times. -/
def decodeLoop : Nat → List UInt8 → List UInt8
  | 0, _ => []
  | _ + 1, [] => []
  | n + 1, b :: bs =>
      if isControl b then decodeLoop n bs
      else if b = 92 then (readEscapeOf 3 b bs).1 :: decodeLoop n (readEscapeOf 3 b bs).2
      else b :: decodeLoop n bs

/-- The data of a payload. -/
def decode (bs : List UInt8) : List UInt8 := decodeLoop bs.length bs

section Indices

variable (zs following : List UInt8)

theorem length_readEscapeOf_le (j : Nat) (c : UInt8) (bs : List UInt8) :
    (readEscapeOf j c bs).2.length ≤ bs.length := by
  induction j generalizing c bs with
  | zero => simp [readEscapeOf]
  | succ j ih =>
      cases bs with
      | nil => simp [readEscapeOf]
      | cons b bs =>
          have h₁ := ih c bs
          have h₂ := ih (c * 8 + (b - 48)) bs
          rw [readEscapeOf]
          split_ifs <;> simp only [List.length_cons] <;> omega

/-- The digits in memory are the digits of the payload: behind it is the end of the
line, which is no digit. -/
theorem readEscape_eq (j i : Nat) (c : UInt8) (hi : i < zs.length) :
    (readEscape (zs ++ 10 :: following) j i c).1 = (readEscapeOf j c (zs.drop (i + 1))).1 ∧
      zs.drop ((readEscape (zs ++ 10 :: following) j i c).2 + 1) =
        (readEscapeOf j c (zs.drop (i + 1))).2 ∧
      (readEscape (zs ++ 10 :: following) j i c).2 < zs.length := by
  induction j generalizing i c with
  | zero => simp [readEscape, readEscapeOf, hi]
  | succ j ih =>
      by_cases hend : i + 1 < zs.length
      · have hget : (zs ++ 10 :: following).getD (i + 1) 0 = zs[i + 1] := by
          rw [List.getD_eq_getElem?_getD, List.getElem?_append_left hend,
            List.getElem?_eq_getElem hend, Option.getD_some]
        rw [List.drop_eq_getElem_cons hend, readEscape, readEscapeOf, hget]
        split_ifs
        · exact ih (i + 1) c hend
        · exact ⟨rfl, List.drop_eq_getElem_cons hend, hi⟩
        · exact ih (i + 1) _ hend
      · have heq : i + 1 = zs.length := by omega
        have hget : (zs ++ 10 :: following).getD (i + 1) 0 = 10 := by
          rw [List.getD_eq_getElem?_getD, List.getElem?_append_right (by omega), heq]
          simp
        have hdrop : zs.drop (i + 1) = [] := List.drop_eq_nil_of_le (by omega)
        rw [hdrop, readEscape, readEscapeOf, hget]
        exact ⟨rfl, hdrop, hi⟩

theorem decodeFrom_eq (n i : Nat) :
    decodeFrom (zs ++ 10 :: following) zs.length n i = decodeLoop n (zs.drop i) := by
  induction n generalizing i with
  | zero => simp [decodeFrom, decodeLoop]
  | succ n ih =>
      by_cases hi : i < zs.length
      · have hget : (zs ++ 10 :: following).getD i 0 = zs[i] := by
          rw [List.getD_eq_getElem?_getD, List.getElem?_append_left hi,
            List.getElem?_eq_getElem hi, Option.getD_some]
        obtain ⟨hc, hrest, -⟩ := readEscape_eq zs following 3 i zs[i] hi
        rw [List.drop_eq_getElem_cons hi, decodeFrom, decodeLoop, if_pos hi, hget]
        dsimp only
        split_ifs
        · exact ih (i + 1)
        · rw [hc, ih, hrest]
        · rw [ih]
      · have hdrop : zs.drop i = [] := List.drop_eq_nil_of_le (by omega)
        rw [hdrop, decodeFrom, if_neg hi, decodeLoop]

/-- The data of an `%output` line are those of its payload. -/
theorem payloadData_eq_decode : payloadData zs following = decode zs := by
  rw [payloadData, decodeOutput, decodeFrom_eq, List.drop_zero, decode]

end Indices

section Steps

/-- Enough fuel is enough. -/
theorem decodeLoop_eq (n : Nat) (bs : List UInt8) (h : bs.length ≤ n) :
    decodeLoop n bs = decode bs := by
  induction n using Nat.strong_induction_on generalizing bs with
  | _ n ih =>
      cases n with
      | zero =>
          obtain rfl : bs = [] := List.length_eq_zero_iff.mp (by omega)
          rfl
      | succ n =>
          cases bs with
          | nil => rfl
          | cons b bs =>
              have hn : bs.length ≤ n := by simpa using h
              have hesc := length_readEscapeOf_le 3 b bs
              rw [decode, List.length_cons, decodeLoop, decodeLoop, ih n (by omega) bs hn,
                ih n (by omega) (readEscapeOf 3 b bs).2 (by omega)]
              by_cases hlen : bs.length = n
              · rw [hlen, ih n (by omega) bs hn, ih n (by omega) (readEscapeOf 3 b bs).2 (by omega)]
              · rw [ih bs.length (by omega) bs le_rfl,
                  ih bs.length (by omega) (readEscapeOf 3 b bs).2 hesc]

theorem decode_control {b : UInt8} (hb : isControl b = true) (bs : List UInt8) :
    decode (b :: bs) = decode bs := by
  rw [decode, List.length_cons, decodeLoop, if_pos hb, decodeLoop_eq _ bs le_rfl]

theorem decode_plain {b : UInt8} (hb : isControl b = false) (h92 : b ≠ 92) (bs : List UInt8) :
    decode (b :: bs) = b :: decode bs := by
  rw [decode, List.length_cons, decodeLoop, if_neg (by simp [hb]), if_neg h92,
    decodeLoop_eq _ bs le_rfl]

theorem decode_escape (bs : List UInt8) :
    decode (92 :: bs) = (readEscapeOf 3 92 bs).1 :: decode (readEscapeOf 3 92 bs).2 := by
  rw [decode, List.length_cons, decodeLoop, if_neg (by decide), if_pos rfl,
    decodeLoop_eq _ _ (length_readEscapeOf_le 3 92 bs)]

theorem decode_crs {crs : List UInt8} (h : ∀ b ∈ crs, b = 13) (bs : List UInt8) :
    decode (crs ++ bs) = decode bs := by
  induction crs with
  | nil => rfl
  | cons c crs ih =>
      obtain rfl := h c (by simp)
      rw [List.cons_append, decode_control (by decide), ih (fun b hb => h b (by simp [hb]))]

end Steps

section Sprinkling

/-- The first byte of a text, behind carriage returns. -/
theorem Sprinkled.cons {b : UInt8} {text line : List UInt8} (h : Sprinkled (b :: text) line) :
    ∃ crs rest, line = crs ++ b :: rest ∧ (∀ c ∈ crs, c = 13) ∧ Sprinkled text rest := by
  obtain ⟨crs, rest, hline, hcrs, -, hrest⟩ := List.filter_eq_cons_iff.mp h
  exact ⟨crs, rest, hline, fun c hc => by simpa using hcrs c hc, hrest⟩

theorem Sprinkled.nil {line : List UInt8} (h : Sprinkled [] line) : ∀ b ∈ line, b = 13 := by
  intro b hb
  simpa using List.filter_eq_nil_iff.mp h b hb

theorem Sprinkled.of_cr {text line : List UInt8} (h : Sprinkled text (13 :: line)) :
    Sprinkled text line := by
  simpa [Sprinkled] using h

theorem Sprinkled.of_cons {b c : UInt8} {text line : List UInt8}
    (h : Sprinkled (c :: text) (b :: line)) (hb : b ≠ 13) : b = c ∧ Sprinkled text line := by
  simpa [Sprinkled, List.filter_cons, hb] using h

/-- Carriage returns in front of another byte are told apart from what follows. -/
theorem crs_unique {crs crs' xs ys : List UInt8} {b : UInt8} (hb : b ≠ 13)
    (h : ∀ c ∈ crs, c = 13) (h' : ∀ c ∈ crs', c = 13) (heq : crs ++ b :: xs = crs' ++ b :: ys) :
    xs = ys := by
  induction crs generalizing crs' with
  | nil =>
      cases crs' with
      | nil => simpa using heq
      | cons c crs' =>
          rw [List.nil_append, List.cons_append, List.cons.injEq] at heq
          exact absurd (heq.1.trans (h' c (by simp))) hb
  | cons c crs ih =>
      cases crs' with
      | nil =>
          rw [List.nil_append, List.cons_append, List.cons.injEq] at heq
          exact absurd (heq.1.symm.trans (h c (by simp))) hb
      | cons c' crs' =>
          rw [List.cons_append, List.cons_append, List.cons.injEq] at heq
          exact ih (fun d hd => h d (by simp [hd])) (fun d hd => h' d (by simp [hd])) heq.2

/-- An octal digit. -/
def OctalDigit (d : UInt8) : Prop := 48 ≤ d ∧ d ≤ 55

theorem OctalDigit.ne_cr {d : UInt8} (h : OctalDigit d) : d ≠ 13 := by
  rintro rfl
  exact absurd h.1 (by decide)

/-- Reading an escape: `k` digits are read; the others stay where they are, and then a
carriage return has stood among the digits. -/
theorem readEscapeOf_sprinkled (j : Nat) (c : UInt8) {ds e w : List UInt8}
    (hds : ∀ d ∈ ds, OctalDigit d) (hlen : j ≤ ds.length) (hw : Sprinkled (ds ++ e) w) :
    ∃ k ≤ j, Sprinkled (ds.drop k ++ e) (readEscapeOf j c w).2 ∧
      (k = j → w = ds.take j ++ (readEscapeOf j c w).2 ∧
        (readEscapeOf j c w).1 = (ds.take j).foldl (fun c d => c * 8 + (d - 48)) c) ∧
      (k < j → ¬ ds.take j <+: w) := by
  induction j generalizing c ds w with
  | zero => exact ⟨0, le_rfl, by simpa [readEscapeOf] using hw, by simp [readEscapeOf], by simp⟩
  | succ j ih =>
      cases ds with
      | nil => simp at hlen
      | cons d ds =>
          have hlen' : j ≤ ds.length := by simpa using hlen
          have hd := hds d (by simp)
          cases w with
          | nil => simp [Sprinkled] at hw
          | cons b w =>
              by_cases hb : b = 13
              · subst hb
                obtain ⟨k, hk, hrest, -⟩ := ih c hds (by simp; omega) (Sprinkled.of_cr hw)
                refine ⟨k, by omega, by simpa [readEscapeOf] using hrest, by omega, fun _ => ?_⟩
                rw [List.take_succ_cons, List.cons_prefix_cons]
                exact fun h => hd.ne_cr h.1
              · obtain ⟨rfl, hw'⟩ := hw.of_cons hb
                have hdigit : ¬ (b < 48 ∨ 55 < b) := by
                  rintro (h | h)
                  · exact absurd hd.1 (UInt8.not_le.mpr h)
                  · exact absurd hd.2 (UInt8.not_le.mpr h)
                obtain ⟨k, hk, hrest, hall, hsome⟩ :=
                  ih (c * 8 + (b - 48)) (fun x hx => hds x (by simp [hx])) hlen' hw'
                have hread : readEscapeOf (j + 1) c (b :: w) =
                    readEscapeOf j (c * 8 + (b - 48)) w := by
                  rw [readEscapeOf, if_neg hb, if_neg hdigit]
                rw [hread]
                refine ⟨k + 1, by omega, by simpa using hrest, fun hkj => ?_, fun hkj => ?_⟩
                · obtain ⟨hsplit, hval⟩ := hall (by omega)
                  refine ⟨?_, by rw [hval]; simp⟩
                  rw [List.take_succ_cons, List.cons_append, ← hsplit]
                · rw [List.take_succ_cons, List.cons_prefix_cons]
                  exact fun h => hsome (by omega) h.2

theorem octal_of_fin : ∀ n : Fin 256,
    let b := UInt8.ofFin n
    ((48 ≤ 48 + b / 64 ∧ 48 + b / 64 ≤ 55) ∧ (48 ≤ 48 + b / 8 % 8 ∧ 48 + b / 8 % 8 ≤ 55) ∧
      (48 ≤ 48 + b % 8 ∧ 48 + b % 8 ≤ 55)) ∧
      [48 + b / 64, 48 + b / 8 % 8, 48 + b % 8].foldl (fun c d => c * 8 + (d - 48)) 92 = b := by
  decide +kernel

/-- The digits of an escape. -/
theorem encodeByte_escaped {b : UInt8} (hb : escaped b = true) :
    ∃ ds, encodeByte b = 92 :: ds ∧ ds.length = 3 ∧ (∀ d ∈ ds, OctalDigit d) ∧
      ds.foldl (fun c d => c * 8 + (d - 48)) 92 = b := by
  obtain ⟨⟨h₁, h₂, h₃⟩, hvalue⟩ := octal_of_fin b.toFin
  refine ⟨[48 + b / 64, 48 + b / 8 % 8, 48 + b % 8], by rw [encodeByte, if_pos hb], rfl,
    fun d hd => ?_, hvalue⟩
  simp only [List.mem_cons, List.not_mem_nil, or_false] at hd
  rcases hd with rfl | rfl | rfl
  · exact h₁
  · exact h₂
  · exact h₃

theorem low_of_escaped {b : UInt8} (hb : escaped b = true) : b < 128 := by
  simp only [escaped, Bool.decide_or, Bool.or_eq_true, decide_eq_true_eq] at hb
  rcases hb with h | rfl
  · exact UInt8.lt_trans h (by decide)
  · decide

/-- A byte that is written as it is and fed. -/
def Verbatim (b : UInt8) : Prop := isControl b = false ∧ b ≠ 92

theorem Verbatim.encodeByte {b : UInt8} (h : Verbatim b) : encodeByte b = [b] := by
  have hb := h.1
  rw [isControl, decide_eq_false_iff_not, not_or] at hb
  rw [Tmux.encodeByte, if_neg (by simp [escaped, hb.1, h.2])]

theorem OctalDigit.verbatim {d : UInt8} (h : OctalDigit d) : Verbatim d := by
  have h₁ := UInt8.le_iff_toNat_le.mp h.1
  have h₂ := UInt8.le_iff_toNat_le.mp h.2
  have e₁ : (48 : UInt8).toNat = 48 := rfl
  have e₂ : (55 : UInt8).toNat = 55 := rfl
  constructor
  · rw [isControl, decide_eq_false_iff_not, not_or, UInt8.lt_iff_toNat_lt, UInt8.le_iff_toNat_le]
    have e₃ : (32 : UInt8).toNat = 32 := rfl
    have e₄ : (128 : UInt8).toNat = 128 := rfl
    omega
  · rintro rfl
    exact absurd h.2 (by decide)

/-- Every byte is escaped, or verbatim, or lost. -/
theorem byte_cases (b : UInt8) :
    escaped b = true ∨ Verbatim b ∨ (128 ≤ b ∧ isControl b = true ∧ encodeByte b = [b]) := by
  by_cases he : escaped b = true
  · exact .inl he
  · have he' := he
    simp only [escaped, Bool.decide_or, Bool.or_eq_true, decide_eq_true_eq, not_or] at he'
    by_cases hb : 128 ≤ b
    · exact .inr (.inr ⟨hb, by simp [isControl, hb], by rw [encodeByte, if_neg he]⟩)
    · exact .inr (.inl ⟨by simp [isControl, he'.1, hb], he'.2⟩)

end Sprinkling

section Decoding

theorem encodeOutput_cons (b : UInt8) (data : List UInt8) :
    encodeOutput (b :: data) = encodeByte b ++ encodeOutput data := rfl

theorem Verbatim.decode_cons {b : UInt8} (h : Verbatim b) {crs : List UInt8}
    (hcrs : ∀ c ∈ crs, c = 13) (rest : List UInt8) :
    decode (crs ++ b :: rest) = b :: decode rest := by
  rw [decode_crs hcrs, decode_plain h.1 h.2]

/-- Where bytes stand in front of a payload, the data are ahead of it and stay so. -/
theorem decode_ne_of_ahead {data q zs : List UInt8} (hq : q ≠ []) (hverb : ∀ b ∈ q, Verbatim b)
    (hzs : Sprinkled (q ++ encodeOutput data) zs) : decode zs ≠ data := by
  induction data generalizing q zs with
  | nil =>
      obtain ⟨b, q, rfl⟩ := List.exists_cons_of_ne_nil hq
      obtain ⟨crs, rest, rfl, hcrs, -⟩ := hzs.cons
      rw [(hverb b (by simp)).decode_cons hcrs]
      simp
  | cons d data ih =>
      obtain ⟨b, q, rfl⟩ := List.exists_cons_of_ne_nil hq
      obtain ⟨crs, rest, rfl, hcrs, hrest⟩ := hzs.cons
      have hb := hverb b (by simp)
      rw [hb.decode_cons hcrs]
      intro heq
      obtain ⟨rfl, htail⟩ := List.cons.inj heq
      have hrest' : Sprinkled (q ++ [b] ++ encodeOutput data) rest := by
        rw [List.append_assoc, ← hb.encodeByte]
        exact hrest
      refine ih (by simp) (fun x hx => ?_) hrest' htail
      rcases List.mem_append.mp hx with hx | hx
      · exact hverb x (by simp [hx])
      · rw [List.mem_singleton.mp hx]
        exact hb

/-- An escape that is read with all its digits, or with some of them left over. -/
theorem decode_escaped {b : UInt8} (hb : escaped b = true) {rest zs : List UInt8}
    (hzs : Sprinkled (encodeByte b ++ rest) zs) :
    (∃ crs w, zs = crs ++ (encodeByte b ++ w) ∧ (∀ c ∈ crs, c = 13) ∧ Sprinkled rest w ∧
      decode zs = b :: decode w) ∨
    ∃ c w q, q ≠ [] ∧ (∀ d ∈ q, OctalDigit d) ∧ Sprinkled (q ++ rest) w ∧
      decode zs = c :: decode w ∧
      ∀ crs w', (∀ c ∈ crs, c = 13) → zs ≠ crs ++ (encodeByte b ++ w') := by
  obtain ⟨ds, henc, hlen, hds, hval⟩ := encodeByte_escaped hb
  rw [henc] at hzs ⊢
  obtain ⟨crs, w, rfl, hcrs, hw⟩ := hzs.cons
  obtain ⟨k, hk, hrest, hall, hsome⟩ := readEscapeOf_sprinkled 3 92 hds hlen.ge hw
  have hdecode : decode (crs ++ 92 :: w) =
      (readEscapeOf 3 92 w).1 :: decode (readEscapeOf 3 92 w).2 := by
    rw [decode_crs hcrs, decode_escape]
  have htake : ds.take 3 = ds := List.take_of_length_le hlen.le
  rcases Nat.lt_or_ge k 3 with hlt | hge
  · refine .inr ⟨_, _, ds.drop k, ?_, fun d hd => hds d (List.mem_of_mem_drop hd), hrest, hdecode,
      fun crs' w' hcrs' heq => ?_⟩
    · intro h
      have hlen' := congrArg List.length h
      simp only [List.length_drop, List.length_nil] at hlen'
      omega
    · rw [List.cons_append] at heq
      have hsame := crs_unique (by decide) hcrs hcrs' heq
      refine hsome hlt ?_
      rw [htake, hsame]
      exact List.prefix_append ds w'
  · obtain ⟨hsplit, hc⟩ := hall (by omega)
    rw [htake] at hsplit hc
    have hk3 : k = 3 := by omega
    subst hk3
    have hnil : ds.drop 3 = [] := List.drop_eq_nil_of_le hlen.le
    rw [hnil, List.nil_append] at hrest
    refine .inl ⟨crs, (readEscapeOf 3 92 w).2, ?_, hcrs, hrest, ?_⟩
    · rw [List.cons_append, ← hsplit]
    · rw [hdecode, hc, hval]

/-- Where bytes of a payload have been lost, the data do not catch up. -/
theorem decode_ne_of_behind {data lost zs : List UInt8} (hlost : lost ≠ [])
    (hhigh : ∀ b ∈ lost, 128 ≤ b) (hzs : Sprinkled (encodeOutput data) zs) :
    decode zs ≠ lost ++ data := by
  induction data generalizing lost zs with
  | nil =>
      have hnil := decode_crs hzs.nil []
      rw [List.append_nil] at hnil
      rw [hnil, List.append_nil]
      exact fun h => hlost h.symm
  | cons b data ih =>
      obtain ⟨x, lost, rfl⟩ := List.exists_cons_of_ne_nil hlost
      have hx := hhigh x (by simp)
      rw [encodeOutput_cons] at hzs
      intro heq
      rw [List.cons_append] at heq
      rcases byte_cases b with hesc | hverb | ⟨hb, hctl, henc⟩
      · have hlow := low_of_escaped hesc
        rcases decode_escaped hesc hzs with ⟨crs, w, -, -, -, hdec⟩ | ⟨c, w, q, hq, hds, hw, hdec, -⟩
        · rw [hdec] at heq
          rw [(List.cons.inj heq).1] at hlow
          exact absurd hx (UInt8.not_le.mpr hlow)
        · -- a digit that is left over is fed before anything else
          rw [hdec] at heq
          obtain ⟨d, q, rfl⟩ := List.exists_cons_of_ne_nil hq
          obtain ⟨crs, rest, rfl, hcrs, -⟩ := hw.cons
          have hd := hds d (by simp)
          have htail := (List.cons.inj heq).2
          rw [hd.verbatim.decode_cons hcrs] at htail
          cases lost with
          | nil =>
              rw [List.nil_append, List.cons.injEq] at htail
              rw [← htail.1] at hesc
              have hnot := hd.verbatim.1
              simp only [escaped, Bool.decide_or, Bool.or_eq_true, decide_eq_true_eq] at hesc
              rcases hesc with h | h
              · simp [isControl, h] at hnot
              · exact hd.verbatim.2 h
          | cons y lost =>
              rw [List.cons_append, List.cons.injEq] at htail
              have hy := hhigh y (by simp)
              rw [← htail.1] at hy
              have hnot := hd.verbatim.1
              simp [isControl, hy] at hnot
      · rw [hverb.encodeByte] at hzs
        obtain ⟨crs, rest, rfl, hcrs, -⟩ := hzs.cons
        rw [hverb.decode_cons hcrs] at heq
        have hnot := hverb.1
        rw [(List.cons.inj heq).1] at hnot
        simp [isControl, hx] at hnot
      · rw [henc] at hzs
        obtain ⟨crs, rest, rfl, hcrs, hrest⟩ := hzs.cons
        rw [decode_crs hcrs, decode_control hctl] at heq
        refine ih (by simp : x :: lost ++ [b] ≠ []) (fun y hy => ?_) hrest (by simpa using heq)
        rcases List.mem_append.mp hy with hy | hy
        · exact hhigh y hy
        · rw [List.mem_singleton.mp hy]
          exact hb

/-- A payload with a byte in front that is encoded without carriage returns in it. -/
theorem clean_cons_iff {b x : UInt8} {crs xs : List UInt8} (data rest : List UInt8) (hx : x ≠ 13)
    (henc : encodeByte b = x :: xs) (hcrs : ∀ c ∈ crs, c = 13) :
    Clean (b :: data) (crs ++ (encodeByte b ++ rest)) ↔ Clean data rest := by
  constructor
  · intro h
    generalize hline : crs ++ (encodeByte b ++ rest) = line at h
    cases h with
    | cons hcrs' hrest =>
        rw [henc, List.cons_append, List.cons_append] at hline
        rw [List.append_cancel_left (crs_unique hx hcrs hcrs' hline)]
        exact hrest
  · exact .cons hcrs

/-- **The data are what the payload stands for** exactly if no byte is lost and no
carriage return stands in an escape. -/
theorem decode_eq_iff {data zs : List UInt8} (hzs : Sprinkled (encodeOutput data) zs) :
    decode zs = data ↔ (∀ b ∈ data, b < 128) ∧ Clean data zs := by
  induction data generalizing zs with
  | nil =>
      have hnil := decode_crs hzs.nil []
      rw [List.append_nil] at hnil
      exact ⟨fun _ => ⟨by simp, .nil hzs.nil⟩, fun _ => hnil⟩
  | cons b data ih =>
      rw [encodeOutput_cons] at hzs
      rw [List.forall_mem_cons]
      rcases byte_cases b with hesc | hverb | ⟨hb, hctl, henc⟩
      · have hlow := low_of_escaped hesc
        rcases decode_escaped hesc hzs with ⟨crs, w, rfl, hcrs, hw, hdec⟩ |
          ⟨c, w, q, hq, hds, hw, hdec, hnot⟩
        · obtain ⟨ds, henc, -⟩ := encodeByte_escaped hesc
          rw [hdec, clean_cons_iff data w (by decide) henc hcrs, List.cons.injEq, ih hw]
          simp [hlow]
        · refine ⟨fun h => ?_, fun h => ?_⟩
          · rw [hdec, List.cons.injEq] at h
            exact absurd h.2 (decode_ne_of_ahead hq (fun d hd => (hds d hd).verbatim) hw)
          · obtain ⟨-, hclean⟩ := h
            generalize hline : zs = line at hclean
            cases hclean with
            | cons hcrs' _ => exact absurd hline (hnot _ _ hcrs')
      · have henc := hverb.encodeByte
        rw [henc] at hzs
        obtain ⟨crs, rest, rfl, hcrs, hrest⟩ := hzs.cons
        have hctl := hverb.1
        rw [isControl, decide_eq_false_iff_not, not_or] at hctl
        have hb13 : b ≠ 13 := by
          rintro rfl
          exact hctl.1 (by decide)
        have hclean := clean_cons_iff data rest hb13 henc hcrs
        rw [henc, List.singleton_append] at hclean
        rw [hverb.decode_cons hcrs, hclean, List.cons.injEq, ih hrest]
        simp [UInt8.not_le.mp hctl.2]
      · rw [henc] at hzs
        obtain ⟨crs, rest, rfl, hcrs, hrest⟩ := hzs.cons
        rw [decode_crs hcrs, decode_control hctl]
        refine ⟨fun h => ?_, fun h => absurd h.1.1 (UInt8.not_lt.mpr hb)⟩
        exact absurd h (decode_ne_of_behind (List.cons_ne_nil b []) (by simpa using hb) hrest)

end Decoding

section Numbers

/-- A decimal digit. -/
def DecimalDigit (d : UInt8) : Prop := 48 ≤ d.toNat ∧ d.toNat ≤ 57

theorem DecimalDigit.ne_cr {d : UInt8} (h : DecimalDigit d) : d ≠ 13 := by
  rintro rfl
  exact absurd h.1 (by decide)

theorem DecimalDigit.verbatim {d : UInt8} (h : DecimalDigit d) : Verbatim d := by
  have e₁ : (32 : UInt8).toNat = 32 := rfl
  have e₂ : (128 : UInt8).toNat = 128 := rfl
  obtain ⟨h₁, h₂⟩ := h
  constructor
  · rw [isControl, decide_eq_false_iff_not, not_or, UInt8.lt_iff_toNat_lt, UInt8.le_iff_toNat_le]
    omega
  · rintro rfl
    exact absurd h₂ (by decide)

theorem DecimalDigit.value {d : UInt8} (h : DecimalDigit d) :
    ∃ v, digitValue 10 d.toNat = some v := by
  obtain ⟨h₁, h₂⟩ := h
  refine ⟨d.toNat - 48, ?_⟩
  have hlt : d.toNat - 48 < 10 := by omega
  simp [digitValue, h₁, h₂, hlt]

theorem isSpace_of_cr {c : UInt8} (h : c = 13) : isSpace c.toNat = true := by
  rw [h]
  rfl

/-- A carriage return stands in a number, and behind it is the rest of the number. -/
def LeftOver (e tail bytes : List UInt8) : Prop :=
  ∃ z q, bytes = 13 :: (z ++ tail) ∧ q ≠ [] ∧ (∀ b ∈ q, Verbatim b) ∧ Sprinkled (q ++ e) z

variable {e tail : List UInt8}

theorem leftOver_digits {ds z : List UInt8} (hds : ∀ d ∈ ds, DecimalDigit d)
    (hz : Sprinkled (ds ++ 32 :: e) z) : LeftOver e tail (13 :: (z ++ tail)) := by
  refine ⟨z, ds ++ [32], rfl, by simp, fun b hb => ?_, by simpa using hz⟩
  rcases List.mem_append.mp hb with hb | hb
  · exact (hds b hb).verbatim
  · rw [List.mem_singleton.mp hb]
    simp [Verbatim, isControl]

variable (tail) in
/-- The digits of a number, up to the first carriage return. -/
theorem readDigits_sprinkled {ds w : List UInt8} (hds : ∀ d ∈ ds, DecimalDigit d) (acc : Nat)
    (hw : Sprinkled (ds ++ 32 :: e) w) :
    (∃ z, w = ds ++ 32 :: z ∧ Sprinkled e z) ∨
      (∀ z, w ≠ ds ++ 32 :: z) ∧ LeftOver e tail (readDigits UInt8.toNat 10 acc (w ++ tail)).2 := by
  induction ds generalizing w acc with
  | nil =>
      cases w with
      | nil => simp [Sprinkled] at hw
      | cons b w =>
          by_cases hb : b = 13
          · subst hb
            have hread : readDigits UInt8.toNat 10 acc (13 :: w ++ tail) = (acc, 13 :: (w ++ tail)) :=
              by simp [readDigits, digitValue]
            rw [hread]
            exact .inr ⟨fun z => by simp, leftOver_digits hds (Sprinkled.of_cr hw)⟩
          · obtain ⟨rfl, hw'⟩ := hw.of_cons hb
            exact .inl ⟨w, rfl, hw'⟩
  | cons d ds ih =>
      have hd := hds d (by simp)
      cases w with
      | nil => simp [Sprinkled] at hw
      | cons b w =>
          by_cases hb : b = 13
          · subst hb
            have hread : readDigits UInt8.toNat 10 acc (13 :: w ++ tail) = (acc, 13 :: (w ++ tail)) :=
              by simp [readDigits, digitValue]
            rw [hread]
            refine .inr ⟨fun z h => ?_, leftOver_digits hds (Sprinkled.of_cr hw)⟩
            rw [List.cons_append, List.cons.injEq] at h
            exact hd.ne_cr h.1.symm
          · obtain ⟨rfl, hw'⟩ := hw.of_cons hb
            obtain ⟨v, hv⟩ := hd.value
            have hread : readDigits UInt8.toNat 10 acc (b :: w ++ tail) =
                readDigits UInt8.toNat 10 (10 * acc + v) (w ++ tail) := by
              simp [readDigits, hv]
            rw [hread]
            rcases ih (fun x hx => hds x (by simp [hx])) (10 * acc + v) hw' with
              ⟨z, rfl, hz⟩ | ⟨hne, hleft⟩
            · exact .inl ⟨z, rfl, hz⟩
            · exact .inr ⟨fun z h => hne z (List.cons.inj h).2, hleft⟩

variable (tail) in
/-- A number is read as a whole, or not at all, or up to the first carriage return. -/
theorem readMagnitude_sprinkled {ds w : List UInt8} (hds : ∀ d ∈ ds, DecimalDigit d)
    (hw : Sprinkled (ds ++ 32 :: e) w) :
    (∃ z, w = ds ++ 32 :: z ∧ Sprinkled e z) ∨
      (∀ z, w ≠ ds ++ 32 :: z) ∧ ∀ v bytes,
        readMagnitude UInt8.toNat 10 (w ++ tail) = some (v, bytes) → LeftOver e tail bytes := by
  rcases readDigits_sprinkled tail hds 0 hw with hall | ⟨hsome, hleft⟩
  · exact .inl hall
  · refine .inr ⟨hsome, fun v bytes h => ?_⟩
    generalize w ++ tail = text at h hleft
    cases text with
    | nil => simp [readMagnitude] at h
    | cons b text =>
        rw [readMagnitude] at h
        split at h
        · rw [Option.some.injEq] at h
          rw [h] at hleft
          exact hleft
        · exact absurd h (by simp)

/-- The digits of a decimal numeral. -/
theorem ascii_decimal_eq (k : Int) : ∃ ds, ds ≠ [] ∧ (∀ d ∈ ds, DecimalDigit d) ∧
    ascii (decimal k) = (if k < 0 then 45 :: ds else ds) := by
  obtain ⟨ds, hds, hlt, hne, -⟩ := exists_digits k.natAbs (by omega : 1 < 10)
  have hdigit : ∀ d ∈ ((ds.map digitCode).map Char.ofNat).map (fun c => c.toNat.toUInt8),
      DecimalDigit d := by
    intro d hd
    simp only [List.map_map, List.mem_map, Function.comp_apply] at hd
    obtain ⟨n, hn, rfl⟩ := hd
    have hsmall : ∀ n < 10, DecimalDigit (Char.ofNat (digitCode n)).toNat.toUInt8 := by
      unfold DecimalDigit
      decide
    exact hsmall n (hlt n hn)
  refine ⟨_, by simpa using hne, hdigit, ?_⟩
  rw [ascii, decimal, intNumeral, hds]
  split_ifs <;> rfl

/-- The first character of a decimal numeral. -/
theorem ascii_decimal_first (k : Int) :
    ∃ x xs, ascii (decimal k) = x :: xs ∧ (x = 45 ∨ DecimalDigit x) ∧ x ≠ 13 := by
  obtain ⟨ds, hne, hds, htext⟩ := ascii_decimal_eq k
  obtain ⟨d, ds, rfl⟩ := List.exists_cons_of_ne_nil hne
  have hd := hds d (by simp)
  rw [htext]
  split_ifs
  · exact ⟨45, _, rfl, .inl rfl, by decide⟩
  · exact ⟨d, ds, rfl, .inr hd, hd.ne_cr⟩

/-- A number is read behind its sign. -/
theorem readMagnitude_of_strtol {b : UInt8} {cs bytes : List UInt8} {v : Int}
    (hb : b = 45 ∨ DecimalDigit b) (h : strtol (b :: cs) = some (v, bytes)) :
    ∃ m, readMagnitude UInt8.toNat 10 (if b = 45 then cs else b :: cs) = some (m, bytes) := by
  have hspace : isSpace b.toNat = false := by
    rcases hb with rfl | ⟨h₁, h₂⟩
    · rfl
    · simp only [isSpace, decide_eq_false_iff_not]
      omega
  have hplus : b.toNat ≠ 43 := by
    rcases hb with rfl | ⟨h₁, h₂⟩
    · decide
    · omega
  have hminus : b.toNat = 45 ↔ b = 45 := by
    rw [← UInt8.toNat_inj]
    rfl
  rw [strtol, Option.map_eq_some_iff] at h
  obtain ⟨⟨i, bytes'⟩, hread, hval⟩ := h
  rw [Prod.mk.injEq] at hval
  rw [readInt, List.dropWhile_cons_of_neg (by simp [hspace]), Option.map_eq_some_iff] at hread
  obtain ⟨⟨m, bytes''⟩, hmag, hpair⟩ := hread
  rw [Prod.mk.injEq] at hpair
  rw [readSign, if_neg hplus] at hmag
  refine ⟨m, ?_⟩
  rw [← hval.2, ← hpair.2, ← hmag]
  simp only [hminus]
  split_ifs <;> rfl

variable (tail) in
/-- **The number of a pane** is read as a whole, or not at all, or up to a carriage
return. -/
theorem strtol_sprinkled {k : Int} (hk : -2 ^ 31 ≤ k ∧ k < 2 ^ 31) {w : List UInt8}
    (hw : Sprinkled (ascii (decimal k) ++ 32 :: e) w) :
    (∃ crs z, w = crs ++ (ascii (decimal k) ++ 32 :: z) ∧ (∀ c ∈ crs, c = 13) ∧
        Sprinkled e z ∧ strtol (w ++ tail) = some (k, 32 :: (z ++ tail))) ∨
      (∀ crs z, (∀ c ∈ crs, c = 13) → w ≠ crs ++ (ascii (decimal k) ++ 32 :: z)) ∧
        ∀ v bytes, strtol (w ++ tail) = some (v, bytes) → LeftOver e tail bytes := by
  obtain ⟨ds, -, hds, htext⟩ := ascii_decimal_eq k
  obtain ⟨x, xs, hx, hfirst, hx13⟩ := ascii_decimal_first k
  rw [hx] at hw ⊢
  obtain ⟨crs, w, rfl, hcrs, hw'⟩ := hw.cons
  have hspaces : ∀ c ∈ crs, isSpace c.toNat = true := fun c hc => isSpace_of_cr (hcrs c hc)
  have hskip : ∀ cs, strtol (crs ++ cs) = strtol cs := by
    intro cs
    rw [strtol, strtol, readInt_spaces _ hspaces]
  -- the digits, behind the sign if there is one
  have hdigits : (∃ z, w = xs ++ 32 :: z ∧ Sprinkled e z) ∨
      (∀ z, w ≠ xs ++ 32 :: z) ∧ ∀ v bytes,
        readMagnitude UInt8.toNat 10 (if x = 45 then w ++ tail else x :: (w ++ tail)) =
          some (v, bytes) → LeftOver e tail bytes := by
    rw [htext] at hx
    split_ifs at hx
    · obtain ⟨rfl, rfl⟩ := List.cons.inj hx
      exact readMagnitude_sprinkled tail hds hw'
    · have hx45 : x ≠ 45 := by
        rintro rfl
        exact absurd (hds 45 (by simp [hx])).1 (by decide)
      have hdw : Sprinkled (ds ++ 32 :: e) (x :: w) := by
        simpa [Sprinkled, hx, hx13] using hw'
      simpa only [if_neg hx45, hx, List.cons_append, List.cons.injEq, true_and, ne_eq] using
        readMagnitude_sprinkled tail hds hdw
  rcases hdigits with ⟨z, rfl, hz⟩ | ⟨hsome, hleft⟩
  · refine .inl ⟨crs, z, rfl, hcrs, hz, ?_⟩
    have hfit : Istream.fitInt k = (k, false) := by
      rw [Istream.fitInt, if_neg (by omega), if_neg (by omega)]
    have hread : x :: (xs ++ 32 :: z) ++ tail = ascii (decimal k) ++ 32 :: (z ++ tail) := by
      simp [hx]
    rw [List.append_assoc, hskip, hread, strtol,
      readInt_intNumeral (toNat_ascii_decimal k) (by simp; rfl)]
    simp [hfit]
  · refine .inr ⟨fun crs' z hcrs' heq => ?_, fun v bytes h => ?_⟩
    · rw [List.cons_append] at heq
      exact hsome z (crs_unique hx13 hcrs hcrs' heq)
    · rw [List.append_assoc, hskip] at h
      obtain ⟨m, hm⟩ := readMagnitude_of_strtol hfirst h
      exact hleft m bytes hm

end Numbers

section Lines

/-- `%output `. -/
def outputPrefix : List UInt8 := ascii ['%', 'o', 'u', 't', 'p', 'u', 't', ' ']

/-- The ready pane that a line is for, and the bytes behind its number. -/
def outputPane (c : Client) (line : List UInt8) : Option (Nat × List UInt8) :=
  let cmd := (line ++ c.following).drop 8
  if cmd.head? ≠ some (TmuxLayout.octetOf '%') then none
  else
    (strtol (cmd.drop 1)).bind (fun (paneid, bytes) =>
      ((c.mapPanes.find paneid).filter (fun p => (c.pane p).ready)).map (fun p => (p, bytes)))

/-- The data are fed to the terminal, in pieces, and nothing else is fed. -/
def FeedsExactly (t : Nat) (data : List UInt8) (c c' : Client) : Prop :=
  ∃ pieces : List (List UInt8), pieces.flatten = data ∧
    c'.fed = c.fed ++ pieces.map (fun piece => ⟨t, .output, piece⟩)

/-- The carriage returns of a line are in front of the number of the pane and between
the encoded bytes. -/
def CleanLine (k : Int) (data zs : List UInt8) : Prop :=
  ∃ crs z, zs = outputPrefix ++ 37 :: (crs ++ (ascii (decimal k) ++ 32 :: z)) ∧
    (∀ c ∈ crs, c = 13) ∧ Clean data z

variable {c : Client} {k : Int} {p : Nat} {data zs : List UInt8}

theorem fed_feedPieces (p : Nat) (pieces : List (List UInt8)) (c : Client) :
    (pieces.foldl (fun c piece => c.fromBackend (c.pane p).termWnd .output piece) c).fed =
      c.fed ++ pieces.map (fun piece => ⟨(c.pane p).termWnd, .output, piece⟩) := by
  induction pieces generalizing c with
  | nil => simp
  | cons piece pieces ih =>
      rw [List.foldl_cons, ih, pane_fromBackend]
      simp [Client.fromBackend]

/-- What a line feeds. -/
theorem fed_cmdHdlrOutput (c : Client) (line : List UInt8) :
    (cmdHdlrOutput line c).fed =
      match outputPane c line with
      | none => c.fed
      | some (p, bytes) =>
          let start := (line ++ c.following).length - bytes.length + 1
          c.fed ++ ((decodeOutput ((line ++ c.following).drop start)
            (line.length - start - 1)).toChunks outputBufferSize).map
              (fun piece => ⟨(c.pane p).termWnd, .output, piece⟩) := by
  rw [cmdHdlrOutput, outputPane]
  dsimp only
  by_cases hhead : ((line ++ c.following).drop 8).head? = some (TmuxLayout.octetOf '%')
  · rw [if_neg (not_not.mpr hhead), if_neg (not_not.mpr hhead)]
    cases strtol (((line ++ c.following).drop 8).drop 1) with
    | none => rfl
    | some r =>
        rw [Option.bind_some]
        cases hfind : c.mapPanes.find r.1 with
        | none => simp [hfind]
        | some p =>
            cases hready : (c.pane p).ready with
            | false => simp [hfind, Option.filter, hready]
            | true => simp [hfind, Option.filter, hready, fed_feedPieces]
  · rw [if_pos hhead, if_pos hhead]

/-- What is fed in pieces. -/
theorem FeedsExactly.data_eq {t t' n : Nat} {d : List UInt8} {c' : Client}
    (h : FeedsExactly t data c c')
    (hfed : c'.fed = c.fed ++ (d.toChunks n).map (fun piece => ⟨t', .output, piece⟩)) :
    d = data := by
  obtain ⟨pieces, rfl, hpieces⟩ := h
  rw [hfed] at hpieces
  have hmap := congrArg (fun l => (l.map Feed.bytes).flatten) (List.append_cancel_left hpieces)
  simpa [Function.comp_def, flatten_toChunks] using hmap

/-- A line for no ready pane feeds nothing. -/
theorem feedsExactly_of_none {t : Nat} {line : List UInt8} (h : outputPane c line = none) :
    FeedsExactly t data c (cmdHdlrOutput line c) ↔ data = [] := by
  rw [FeedsExactly, fed_cmdHdlrOutput, h]
  constructor
  · rintro ⟨pieces, rfl, hfed⟩
    have hnil : pieces.map (fun piece => (⟨t, .output, piece⟩ : Feed)) = [] := by simpa using hfed
    rw [List.map_eq_nil_iff.mp hnil, List.flatten_nil]
  · rintro rfl
    exact ⟨[], rfl, by simp⟩

/-- The data of a line, where the bytes behind the number are a blank and `z`. -/
theorem fed_of_outputPane (before : List UInt8) {z : List UInt8} {y : UInt8}
    (hline : zs = before ++ y :: z)
    (h : outputPane c (zs ++ [10]) = some (p, y :: (z ++ 10 :: c.following))) :
    (cmdHdlrOutput (zs ++ [10]) c).fed = c.fed ++ ((decode z).toChunks outputBufferSize).map
      (fun piece => ⟨(c.pane p).termWnd, .output, piece⟩) := by
  have hmem : zs ++ [10] ++ c.following = before ++ y :: (z ++ 10 :: c.following) := by
    rw [hline]
    simp
  have hstart : (zs ++ [10] ++ c.following).length - (y :: (z ++ 10 :: c.following)).length + 1 =
      before.length + 1 := by
    rw [hmem, List.length_append]
    omega
  have hlen : (zs ++ [10]).length - (before.length + 1) - 1 = z.length := by
    rw [hline]
    simp only [List.length_append, List.length_cons, List.length_nil]
    omega
  have hdrop : (zs ++ [10] ++ c.following).drop (before.length + 1) = z ++ 10 :: c.following := by
    rw [hmem, ← List.drop_drop, List.drop_left, List.drop_one, List.tail_cons]
  rw [fed_cmdHdlrOutput, h]
  dsimp only
  rw [hstart, hlen, hdrop, ← payloadData_eq_decode z c.following, payloadData]

/-- **A line with a carriage return before the `%` of the pane is for no pane.** -/
theorem outputPane_none_of_head {text : List UInt8}
    (hzs : Sprinkled (outputPrefix ++ 37 :: text) zs) (hhead : ∀ z, zs ≠ outputPrefix ++ 37 :: z) :
    outputPane c (zs ++ [10]) = none := by
  obtain ⟨u₁, w, rfl, hu₁, hw⟩ := List.filter_eq_append_iff.mp hzs
  obtain ⟨crs, v, rfl, hcrs, -⟩ := Sprinkled.cons hw
  -- up to the `%`
  obtain ⟨u, hu⟩ : ∃ u, u = u₁ ++ crs := ⟨_, rfl⟩
  have hline : u₁ ++ (crs ++ 37 :: v) = u ++ 37 :: v := by rw [hu, List.append_assoc]
  have hfilter : u.filter (fun b => b ≠ 13) = outputPrefix := by
    have hcrs' : crs.filter (fun b => b ≠ 13) = [] :=
      List.filter_eq_nil_iff.mpr (fun b hb => by simp [hcrs b hb])
    rw [hu, List.filter_append, hu₁, hcrs', List.append_nil]
  have hprefix : outputPrefix.length = 8 := rfl
  have hsub : outputPrefix.Sublist u := hfilter ▸ List.filter_sublist
  have hlong : 8 < u.length := by
    rcases Nat.lt_or_ge 8 u.length with h | h
    · exact h
    · have heq := hsub.eq_of_length_le (by omega)
      rw [hline, ← heq] at hhead
      exact absurd rfl (hhead v)
  obtain ⟨x, b, hx⟩ : ∃ x b, u.drop 8 = x :: b :=
    List.exists_cons_of_ne_nil (by simpa using hlong)
  have hmem : (u₁ ++ (crs ++ 37 :: v) ++ [10] ++ c.following).drop 8 =
      x :: (b ++ 37 :: (v ++ 10 :: c.following)) := by
    rw [hline]
    simp only [List.append_assoc, List.cons_append, List.nil_append]
    rw [List.drop_append_of_le_length hlong.le, hx, List.cons_append]
  rw [outputPane]
  dsimp only
  rw [hmem, List.head?_cons]
  by_cases hpercent : x = 37
  · subst hpercent
    -- the `%` is the first of the line, and what follows is no number
    have hsplit : (u.take 8).filter (fun b => b ≠ 13) ++ 37 :: b.filter (fun b => b ≠ 13) =
        outputPrefix := by
      rw [← hfilter]
      conv_rhs => rw [← List.take_append_drop 8 u, hx, List.filter_append]
      rfl
    have hb : Sprinkled (ascii ['o', 'u', 't', 'p', 'u', 't', ' ']) b := by
      cases hfirst : (u.take 8).filter (fun b => b ≠ 13) with
      | nil =>
          rw [hfirst] at hsplit
          exact (List.cons.inj hsplit).2
      | cons y ys =>
          rw [hfirst, List.cons_append] at hsplit
          have htail : ys ++ 37 :: b.filter (fun b => b ≠ 13) =
              ascii ['o', 'u', 't', 'p', 'u', 't', ' '] := (List.cons.inj hsplit).2
          have hin : (37 : UInt8) ∈ ascii ['o', 'u', 't', 'p', 'u', 't', ' '] := by
            rw [← htail]
            simp
          exact absurd hin (by decide)
    obtain ⟨crs', rest, rfl, hcrs', -⟩ := Sprinkled.cons (b := 111) hb
    have hspaces : ∀ c ∈ crs', isSpace c.toNat = true := fun c hc => isSpace_of_cr (hcrs' c hc)
    have hread : strtol (crs' ++ 111 :: rest ++ 37 :: (v ++ 10 :: c.following)) = none := by
      rw [strtol, List.append_assoc, readInt_spaces _ hspaces, List.cons_append,
        readInt_none rfl (by decide) (by decide) (by decide)]
      rfl
    rw [if_neg (by simp [TmuxLayout.octetOf]), List.drop_one, List.tail_cons, hread]
    rfl
  · rw [if_pos]
    intro h
    exact hpercent (Option.some.inj h)

/-- **A line feeds exactly its data** if no byte is lost and every carriage return is in
front of the number or between encoded bytes; else only a line without data does, if it
is for no ready pane. -/
theorem cmdHdlrOutput_feedsExactly_iff (hk : -2 ^ 31 ≤ k ∧ k < 2 ^ 31) (hm : c.mapPanes.find k = some p)
    (hready : (c.pane p).ready = true)
    (hzs : Sprinkled (outputPrefix ++ 37 :: (ascii (decimal k) ++ 32 :: encodeOutput data)) zs) :
    FeedsExactly (c.pane p).termWnd data c (cmdHdlrOutput (zs ++ [10]) c) ↔
      ((∀ b ∈ data, b < 128) ∧ CleanLine k data zs) ∨
        (data = [] ∧ outputPane c (zs ++ [10]) = none) := by
  by_cases hhead : ∃ z, zs = outputPrefix ++ 37 :: z
  · obtain ⟨w, rfl⟩ := hhead
    have hw : Sprinkled (ascii (decimal k) ++ 32 :: encodeOutput data) w := by
      have h := hzs
      rw [Sprinkled, List.filter_append] at h
      exact (List.cons.inj (List.append_cancel_left h)).2
    have hpane : outputPane c (outputPrefix ++ 37 :: w ++ [10]) =
        (strtol (w ++ 10 :: c.following)).bind (fun (paneid, bytes) =>
          ((c.mapPanes.find paneid).filter (fun p => (c.pane p).ready)).map
            (fun p => (p, bytes))) := by
      have hmem : (outputPrefix ++ 37 :: w ++ [10] ++ c.following).drop 8 =
          37 :: (w ++ 10 :: c.following) := by
        have hdrop : (outputPrefix ++ 37 :: (w ++ 10 :: c.following)).drop 8 =
            37 :: (w ++ 10 :: c.following) := rfl
        simpa using hdrop
      rw [outputPane, hmem]
      simp [TmuxLayout.octetOf]
    rcases strtol_sprinkled (10 :: c.following) hk hw with
      ⟨crs, z, rfl, hcrs, hz, hread⟩ | ⟨hbroken, hleft⟩
    · have hfound : outputPane c (outputPrefix ++ 37 :: (crs ++ (ascii (decimal k) ++ 32 :: z)) ++
          [10]) = some (p, 32 :: (z ++ 10 :: c.following)) := by
        rw [hpane, hread]
        simp [hm, hready]
      have hfed := fed_of_outputPane (outputPrefix ++ 37 :: (crs ++ ascii (decimal k)))
        (by simp) hfound
      have hclean : CleanLine k data (outputPrefix ++ 37 :: (crs ++ (ascii (decimal k) ++ 32 :: z))) ↔
          Clean data z := by
        refine ⟨?_, fun h => ⟨crs, z, rfl, hcrs, h⟩⟩
        rintro ⟨crs', z', hline, hcrs', hclean⟩
        obtain ⟨x, xs, hx, -, hx13⟩ := ascii_decimal_first k
        have hrest := (List.cons.inj (List.append_cancel_left hline)).2
        rw [hx] at hrest
        have hsame := List.append_cancel_left (crs_unique hx13 hcrs hcrs' hrest)
        rw [(List.cons.inj hsame).2]
        exact hclean
      rw [hclean, hfound, ← decode_eq_iff hz]
      simp only [reduceCtorEq, and_false, or_false]
      constructor
      · intro h
        exact h.data_eq hfed
      · intro h
        exact ⟨_, by rw [flatten_toChunks, h], hfed⟩
    · have hnot : ¬ CleanLine k data (outputPrefix ++ 37 :: w) := by
        rintro ⟨crs, z, hline, hcrs, -⟩
        exact hbroken crs z hcrs (List.cons.inj (List.append_cancel_left hline)).2
      simp only [hnot, and_false, false_or]
      cases hfound : outputPane c (outputPrefix ++ 37 :: w ++ [10]) with
      | none => rw [feedsExactly_of_none hfound, and_iff_left rfl]
      | some r =>
          -- the rest of the number is fed as if it were data
          refine iff_of_false (fun hexactly => ?_) (by simp)
          have hr := hfound
          rw [hpane, Option.bind_eq_some_iff] at hr
          obtain ⟨⟨v, bytes⟩, hread, hr⟩ := hr
          obtain ⟨p', -, rfl⟩ := Option.map_eq_some_iff.mp hr
          obtain ⟨z, q, rfl, hq, hverb, hz⟩ := hleft v bytes hread
          obtain ⟨before, hbefore⟩ := strtol_suffix hread
          have hline : w = before ++ 13 :: z := by
            have hsame : w ++ 10 :: c.following = before ++ 13 :: z ++ 10 :: c.following := by
              rw [hbefore]
              simp
            exact List.append_cancel_right hsame
          have hfed := fed_of_outputPane (outputPrefix ++ 37 :: before)
            (by rw [hline]; simp) hfound
          exact decode_ne_of_ahead hq hverb hz (hexactly.data_eq hfed)
  · have hnone := outputPane_none_of_head hzs (fun z h => hhead ⟨z, h⟩) (c := c)
    have hnot : ¬ CleanLine k data zs := by
      rintro ⟨crs, z, hline, -⟩
      exact hhead ⟨_, hline⟩
    simp [feedsExactly_of_none hnone, hnone, hnot]

/-- A client with the ready pane 5. -/
def readyClient : Client :=
  { Client.init plainPlatform .init with
    nextPane := 1
    pane := fun _ => ⟨1, 5, ascii ['x'], 80, 24, true, 0⟩
    mapPanes := OrderedMap.insert .empty 5 0 }

/-- A carriage return in front of an escape is harmless. -/
theorem cmdHdlrOutput_feedsExactly_iff_escape :
    FeedsExactly 1 [27] readyClient
      (cmdHdlrOutput (ascii "%output %5 \r\\033\n".toList) readyClient) :=
  (@cmdHdlrOutput_feedsExactly_iff readyClient 5 0 [27] (ascii "%output %5 \r\\033".toList)
    (by decide) (by decide) (by decide) (by decide)).mpr
      (.inl ⟨by simp, [], ascii "\r\\033".toList, by decide, by simp,
        (show Clean [27] ([13] ++ (encodeByte 27 ++ [])) from .cons (by simp) (.nil (by simp)))⟩)

/-- The two bytes of `é` are lost. -/
theorem not_feedsExactly_accent :
    Sprinkled (outputPrefix ++ 37 :: (ascii (decimal 5) ++ 32 :: encodeOutput [195, 169]))
        (outputPrefix ++ [37, 53, 32, 195, 169]) ∧
      readyClient.mapPanes.find 5 = some 0 ∧ (readyClient.pane 0).ready = true ∧
      ¬ FeedsExactly (readyClient.pane 0).termWnd [195, 169] readyClient
        (cmdHdlrOutput (outputPrefix ++ [37, 53, 32, 195, 169] ++ [10]) readyClient) := by
  refine ⟨by decide, by decide, by decide, ?_⟩
  rintro ⟨pieces, hdata, hfed⟩
  have hnone : (cmdHdlrOutput (outputPrefix ++ [37, 53, 32, 195, 169] ++ [10]) readyClient).fed =
      readyClient.fed := by decide +kernel
  have hnil : pieces.map (fun piece => (⟨(readyClient.pane 0).termWnd, .output, piece⟩ : Feed)) =
      [] := by
    rw [hnone] at hfed
    simpa using hfed
  rw [List.map_eq_nil_iff.mp hnil] at hdata
  exact absurd hdata (by decide)

end Lines

end Tmux
end Qutty
