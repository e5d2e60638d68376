import Qutty.Tmux.Client
import Qutty.Tmux.Conservation

/-!
# Keys for a pane

`tmux_send` of `tmux/TmuxBackend.cpp`.  It writes the bytes of a buffer as tokens
`0xHH` into `send-keys` commands.  A command is full when fewer than six characters
of its buffer are left.

A `char` from 128 on is negative and is printed as `0xffffffHH`.  Six characters are
too few for such a token, and then the formatter's result is negative and takes
away the last character of the text.  The number of bytes is an `int`.  So the
commands carry the bytes of the buffer exactly if all of them are below 128 and there
are fewer than 2³¹ of them (`tmuxSend_keysSent_iff`).
-/

namespace Qutty
namespace Tmux

open Lib

/-- `_snwprintf`, which is a macro for `swprintf` on Linux. -/
inductive Formatter where
  | swprintf
  | snwprintf
deriving DecidableEq, Repr

/-- Whether a text fits in a buffer; `swprintf` needs room for the terminator. -/
def Formatter.fits : Formatter → Nat → Nat → Bool
  | .swprintf, size, len => len < size
  | .snwprintf, size, len => len ≤ size

/-- A `char` as the `unsigned int` of a format. -/
def promote (b : UInt8) : Nat := if b < 128 then b.toNat else 2 ^ 32 - 2 ^ 8 + b.toNat

/-- A digit of `%x`. -/
def lowerDigit (c : Nat) : Char := Char.ofNat (if 65 ≤ c then c + 32 else c)

/-- `0x%02x `. -/
def keyToken (b : UInt8) : List Char :=
  '0' :: 'x' :: (((numeral 16 (promote b)).map lowerDigit).leftpad 2 '0' ++ [' '])

/-- `wbuf_len`. -/
def wbufLen : Nat := 20480

/-- `send-keys -t %%%d `. -/
def sendKeysPrefix (paneid : Int) : List Char :=
  ['s', 'e', 'n', 'd', '-', 'k', 'e', 'y', 's', ' ', '-', 't', ' ', '%'] ++
    (decimal paneid ++ [' '])

/-- One token, behind the text in `wbuf`. -/
def printKey (fmt : Formatter) (text : List Char) (b : UInt8) : List Char :=
  if fmt.fits (wbufLen - text.length) (keyToken b).length then text ++ keyToken b
  else text.dropLast

/-- The inner loop of `tmux_send`: the text, and the bytes that are left. -/
def fillCommand (fmt : Formatter) : List Char → List UInt8 → List Char × List UInt8
  | text, [] => (text, [])
  | text, b :: bytes =>
      if text.length < wbufLen - 6 then fillCommand fmt (printKey fmt text b) bytes
      else (text, b :: bytes)

/-- The outer loop of `tmux_send`, at most `n` times. -/
def sendKeysTexts (fmt : Formatter) (paneid : Int) : Nat → List UInt8 → List (List Char)
  | 0, _ => []
  | n + 1, bytes =>
      let (text, rest) := fillCommand fmt (sendKeysPrefix paneid) bytes
      (text.dropLast ++ ['\n']) ::
        (if rest = [] then [] else sendKeysTexts fmt paneid n rest)

/-- `TmuxBackend`. -/
structure TmuxBackend (α σ : Type) where
  gateway : TmuxGateway α Receiver σ
  paneid : Int
  sendbufferLength : Nat

/-- `tmux_send`. -/
def tmuxSend {α σ : Type} (fmt : Formatter) (tmuxpane : TmuxBackend α σ) (buf : List UInt8) :
    TmuxBackend α σ :=
  let remLen := toInt buf.length
  let texts := sendKeysTexts fmt tmuxpane.paneid (buf.length + 1) (buf.take remLen.toNat)
  { tmuxpane with
    gateway := tmuxpane.gateway.sendCommands (texts.map (fun text => ⟨.gateway, .null, text⟩))
    sendbufferLength := buf.length }

/-- `0xHH`. -/
def IsKeyToken (token : List Char) (b : UInt8) : Prop :=
  ∃ h l vh vl, token = ['0', 'x', h, l] ∧ digitValue 16 h.toNat = some vh ∧
    digitValue 16 l.toNat = some vl ∧ b.toNat = 16 * vh + vl

/-- A `send-keys` command with the tokens of these bytes. -/
def SendsKeys (paneid : Int) (text : List Char) (keys : List UInt8) : Prop :=
  ∃ tokens, List.Forall₂ IsKeyToken tokens keys ∧
    text = sendKeysPrefix paneid ++ [' '].intercalate tokens ++ ['\n']

/-- Commands with the bytes of a buffer are sent, and nothing else is. -/
def KeysSent {α σ : Type} (paneid : Int) (buf : List UInt8) (g g' : TmuxGateway α Receiver σ) :
    Prop :=
  ∃ cmds : List (List Char × List UInt8),
    (∀ c ∈ cmds, SendsKeys paneid c.1 c.2 ∧ c.1.length ≤ wbufLen) ∧
    (cmds.map Prod.snd).flatten = buf ∧
    g'.trace = g.trace ++ cmds.map (fun c => .sent ⟨.gateway, .null, c.1⟩) ∧
    g'.commandQueue = g.commandQueue ++ List.replicate cmds.length ⟨some .gateway, .null⟩

section Tokens

/-- The digits of a token of two digits. -/
theorem keyToken_of_fin : ∀ n : Fin 128,
    keyToken (UInt8.ofNat n.val) =
        ['0', 'x', lowerDigit (digitCode (n.val / 16)), lowerDigit (digitCode (n.val % 16)), ' '] ∧
      digitValue 16 (lowerDigit (digitCode (n.val / 16))).toNat = some (n.val / 16) ∧
      digitValue 16 (lowerDigit (digitCode (n.val % 16))).toNat = some (n.val % 16) := by
  decide +kernel

theorem keyToken_high_of_fin : ∀ n : Fin 128,
    keyToken (UInt8.ofNat (n.val + 128)) = ['0', 'x', 'f', 'f', 'f', 'f', 'f', 'f',
      lowerDigit (digitCode (n.val / 16 + 8)), lowerDigit (digitCode (n.val % 16)), ' '] ∧
      lowerDigit (digitCode (n.val / 16 + 8)) ≠ 'x' ∧ lowerDigit (digitCode (n.val % 16)) ≠ 'x' := by
  decide +kernel

theorem digitValue_x : digitValue 16 'x'.toNat = none := by decide

/-- A byte below 128 has two digits, the first of them below 8. -/
theorem keyToken_low {b : UInt8} (hb : b < 128) :
    ∃ h l, keyToken b = ['0', 'x', h, l, ' '] ∧ IsKeyToken ['0', 'x', h, l] b ∧
      digitValue 16 h.toNat = some (b.toNat / 16) ∧ b.toNat / 16 < 8 ∧ h ≠ 'x' ∧ l ≠ 'x' := by
  have hlt : b.toNat < 128 := UInt8.lt_iff_toNat_lt.mp hb
  obtain ⟨htoken, hhigh, hlow⟩ := keyToken_of_fin ⟨b.toNat, hlt⟩
  have hof : UInt8.ofNat b.toNat = b := UInt8.ofNat_toNat
  dsimp only at htoken hhigh hlow
  rw [hof] at htoken
  refine ⟨_, _, htoken, ⟨_, _, _, _, rfl, hhigh, hlow, by omega⟩, hhigh, by omega, ?_, ?_⟩
  · intro h
    rw [h] at hhigh
    exact absurd (hhigh.symm.trans digitValue_x) (by simp)
  · intro h
    rw [h] at hlow
    exact absurd (hlow.symm.trans digitValue_x) (by simp)

/-- Any other byte has eight. -/
theorem keyToken_high {b : UInt8} (hb : 128 ≤ b) :
    ∃ h l, keyToken b = ['0', 'x', 'f', 'f', 'f', 'f', 'f', 'f', h, l, ' '] ∧ h ≠ 'x' ∧ l ≠ 'x' := by
  have hle : 128 ≤ b.toNat := UInt8.le_iff_toNat_le.mp hb
  have hlt := b.toNat_lt
  obtain ⟨htoken, hh, hl⟩ := keyToken_high_of_fin ⟨b.toNat - 128, by omega⟩
  have hof : UInt8.ofNat (b.toNat - 128 + 128) = b := by
    rw [Nat.sub_add_cancel hle]
    exact UInt8.ofNat_toNat
  rw [hof] at htoken
  exact ⟨_, _, htoken, hh, hl⟩

theorem length_keyToken_le (b : UInt8) : (keyToken b).length ≤ 11 := by
  by_cases hb : b < 128
  · obtain ⟨h, l, htoken, -⟩ := keyToken_low hb
    simp [htoken]
  · obtain ⟨h, l, htoken, -⟩ := keyToken_high (UInt8.not_lt.mp hb)
    simp [htoken]

theorem length_numeral_le {i : Int} (hi : -2 ^ 31 ≤ i ∧ i < 2 ^ 31) :
    (numeral 10 i.natAbs).length ≤ 10 := by
  have hbound : i.natAbs < 10 ^ 10 := by omega
  have hlen := (Nat.digits_length_le_iff (by omega : 1 < 10) i.natAbs).mpr hbound
  rw [numeral]
  split_ifs
  · simp
  · rw [List.length_map, List.length_reverse]
    exact hlen

theorem length_decimal_le {i : Int} (hi : -2 ^ 31 ≤ i ∧ i < 2 ^ 31) :
    (decimal i).length ≤ 11 := by
  have hdigits := length_numeral_le hi
  rw [decimal, List.length_map, intNumeral]
  split_ifs
  · rw [List.length_cons]
    omega
  · omega

theorem length_sendKeysPrefix {paneid : Int} (hid : -2 ^ 31 ≤ paneid ∧ paneid < 2 ^ 31) :
    1 ≤ (sendKeysPrefix paneid).length ∧ (sendKeysPrefix paneid).length ≤ 26 := by
  have hdecimal := length_decimal_le hid
  simp only [sendKeysPrefix, List.length_append, List.length_cons, List.length_nil]
  omega

end Tokens

section Intact

/-- The form of a command with its tokens. -/
theorem intercalate_tokens {tokens : List (List Char)} (h : tokens ≠ []) :
    (tokens.flatMap (fun token => token ++ [' '])).dropLast = [' '].intercalate tokens := by
  induction tokens with
  | nil => exact absurd rfl h
  | cons token tokens ih =>
      cases tokens with
      | nil => simp [List.intercalate]
      | cons token' tokens =>
          have hrest : ((token' :: tokens).flatMap (fun token => token ++ [' '])) ≠ [] := by simp
          have ih' := ih (by simp)
          rw [List.flatMap_cons, List.dropLast_append_of_ne_nil hrest, ih']
          simp [List.intercalate]

variable {fmt : Formatter}

variable (fmt) in
/-- Bytes below 128 are written one after the other, as far as the buffer goes. -/
theorem fillCommand_low (text : List Char) {bytes : List UInt8} (hlow : ∀ b ∈ bytes, b < 128)
    (hroom : text.length ≤ wbufLen) :
    ∃ keys, bytes = keys ++ (fillCommand fmt text bytes).2 ∧
      (fillCommand fmt text bytes).1 = text ++ keys.flatMap keyToken ∧
      (fillCommand fmt text bytes).1.length ≤ wbufLen ∧
      (text.length < wbufLen - 6 → bytes ≠ [] → keys ≠ []) := by
  induction bytes generalizing text with
  | nil => exact ⟨[], rfl, by simp [fillCommand], hroom, fun _ h => absurd rfl h⟩
  | cons b bytes ih =>
      by_cases hfull : text.length < wbufLen - 6
      · obtain ⟨h, l, htoken, -⟩ := keyToken_low (hlow b (by simp))
        have hprint : printKey fmt text b = text ++ keyToken b := by
          rw [printKey, if_pos]
          rw [htoken]
          rw [wbufLen] at hfull ⊢
          cases fmt with
          | swprintf =>
              have hfits : 5 < 20480 - text.length := by omega
              exact decide_eq_true hfits
          | snwprintf =>
              have hfits : 5 ≤ 20480 - text.length := by omega
              exact decide_eq_true hfits
        have hroom' : (text ++ keyToken b).length ≤ wbufLen := by
          simp only [htoken, List.length_append, List.length_cons, List.length_nil, wbufLen] at hfull ⊢
          omega
        obtain ⟨keys, hbytes, htext, hlen, -⟩ :=
          ih (text ++ keyToken b) (fun x hx => hlow x (by simp [hx])) hroom'
        rw [fillCommand, if_pos hfull, hprint]
        refine ⟨b :: keys, ?_, ?_, hlen, by simp⟩
        · rw [List.cons_append, ← hbytes]
        · rw [htext, List.flatMap_cons, List.append_assoc]
      · rw [fillCommand, if_neg hfull]
        exact ⟨[], rfl, by simp, hroom, fun h => absurd h hfull⟩

theorem sendsKeys_of_low (paneid : Int) {keys : List UInt8} (hlow : ∀ b ∈ keys, b < 128)
    (hne : keys ≠ []) :
    SendsKeys paneid ((sendKeysPrefix paneid ++ keys.flatMap keyToken).dropLast ++ ['\n']) keys := by
  have htokens : ∃ tokens, List.Forall₂ IsKeyToken tokens keys ∧
      keys.flatMap keyToken = tokens.flatMap (fun token => token ++ [' ']) := by
    clear hne
    induction keys with
    | nil => exact ⟨[], .nil, rfl⟩
    | cons b keys ih =>
        obtain ⟨tokens, hall, heq⟩ := ih (fun x hx => hlow x (by simp [hx]))
        obtain ⟨h, l, htoken, his, -⟩ := keyToken_low (hlow b (by simp))
        refine ⟨['0', 'x', h, l] :: tokens, .cons his hall, ?_⟩
        rw [List.flatMap_cons, List.flatMap_cons, heq, htoken]
        rfl
  obtain ⟨tokens, hall, heq⟩ := htokens
  have hne' : tokens ≠ [] := by
    rintro rfl
    cases hall
    exact hne rfl
  have hflat : keys.flatMap keyToken ≠ [] := by
    rw [heq]
    simpa using List.exists_mem_of_ne_nil _ hne'
  exact ⟨tokens, hall, by rw [List.dropLast_append_of_ne_nil hflat, heq, intercalate_tokens hne']⟩

variable (fmt) in
/-- **Bytes below 128 are sent** in as many commands as it takes. -/
theorem sendKeysTexts_low {paneid : Int} (hid : -2 ^ 31 ≤ paneid ∧ paneid < 2 ^ 31) {n : Nat}
    {bytes : List UInt8} (hlow : ∀ b ∈ bytes, b < 128) (hne : bytes ≠ []) (hn : bytes.length ≤ n) :
    ∃ cmds : List (List Char × List UInt8),
      sendKeysTexts fmt paneid n bytes = cmds.map Prod.fst ∧
      (∀ c ∈ cmds, SendsKeys paneid c.1 c.2 ∧ c.1.length ≤ wbufLen) ∧
      (cmds.map Prod.snd).flatten = bytes := by
  have hprefix := length_sendKeysPrefix hid
  induction n generalizing bytes with
  | zero => exact absurd (List.length_eq_zero_iff.mp (by omega)) hne
  | succ n ih =>
      obtain ⟨keys, hbytes, htext, hlen, hkeys⟩ := fillCommand_low fmt
        (sendKeysPrefix paneid) hlow (by rw [wbufLen]; omega)
      have hkeys' := hkeys (by rw [wbufLen]; omega) hne
      have hkeyslow : ∀ b ∈ keys, b < 128 := fun b hb => hlow b (by rw [hbytes]; simp [hb])
      have hsends := sendsKeys_of_low paneid hkeyslow hkeys'
      have hlast : ((sendKeysPrefix paneid ++ keys.flatMap keyToken).dropLast ++ ['\n']).length ≤
          wbufLen := by
        rw [htext] at hlen
        rw [List.length_append, List.length_dropLast, List.length_singleton]
        rw [wbufLen] at hlen ⊢
        omega
      rw [sendKeysTexts]
      dsimp only
      by_cases hrest : (fillCommand fmt (sendKeysPrefix paneid) bytes).2 = []
      · rw [if_pos hrest, htext]
        rw [hrest, List.append_nil] at hbytes
        refine ⟨[(_, keys)], rfl, ?_, by simp [hbytes]⟩
        simp only [List.forall_mem_singleton]
        exact ⟨hsends, hlast⟩
      · have hshort : (fillCommand fmt (sendKeysPrefix paneid) bytes).2.length ≤ n := by
          have hl := congrArg List.length hbytes
          have hpos := List.length_pos_of_ne_nil hkeys'
          rw [List.length_append] at hl
          omega
        obtain ⟨cmds, htexts, hall, hflat⟩ := ih
          (fun b hb => hlow b (by rw [hbytes]; simp [hb])) hrest hshort
        rw [if_neg hrest, htexts, htext]
        refine ⟨(_, keys) :: cmds, rfl, ?_, ?_⟩
        · simp only [List.forall_mem_cons]
          exact ⟨⟨hsends, hlast⟩, hall⟩
        · rw [List.map_cons, List.flatten_cons, hflat, ← hbytes]

end Intact

section Values

/-- A digit that is below 8 if it is one. -/
def LowDigit (d : Char) : Prop := ∀ v, digitValue 16 d.toNat = some v → v < 8

/-- Behind every `x` stands a low digit, or an `f` of a token that is there to its sixth
character at least.  Where the text is short enough for another token, it stays there:
characters are taken away only from a text of 20469. -/
def Guarded (text : List Char) : Prop :=
  ∀ j d, text[j]? = some 'x' → text[j + 1]? = some d →
    LowDigit d ∨ (text[j + 3]? = some 'f' ∧ j + 5 ≤ text.length ∧
      (text.length < wbufLen - 6 → j + 5 ≤ wbufLen - 12))

theorem guarded_sendKeysPrefix (paneid : Int) : Guarded (sendKeysPrefix paneid) := by
  have hmem : 'x' ∉ sendKeysPrefix paneid := by
    intro h
    rw [sendKeysPrefix, List.mem_append, List.mem_append] at h
    rcases h with h | h | h
    · exact absurd h (by decide)
    · obtain ⟨c, hc, hx⟩ := List.mem_map.mp h
      rcases mem_intNumeral hc with rfl | hc
      · exact absurd hx (by decide)
      · have hno : ∀ c < 58, Char.ofNat c ≠ 'x' := by decide
        exact hno c (by omega) hx
    · exact absurd h (by decide)
  intro j d hj
  exact absurd (List.mem_of_getElem? hj) hmem

theorem lowDigit_zero : LowDigit '0' := by
  intro v hv
  have h0 : digitValue 16 '0'.toNat = some 0 := by decide
  rw [h0, Option.some.injEq] at hv
  omega

/-- A token is added. -/
theorem Guarded.append {text : List Char} (h : Guarded text) (hlen : text.length < wbufLen - 6)
    {e : Char} {rest : List Char} (hx : 'x' ∉ e :: rest)
    (he : LowDigit e ∨ (rest[1]? = some 'f' ∧ rest.length = 8)) :
    Guarded (text ++ '0' :: 'x' :: e :: rest) := by
  intro j d hj hd
  rcases Nat.lt_or_ge (j + 1) text.length with hold | hnew
  · rw [List.getElem?_append_left (by omega)] at hj hd
    rcases h j d hj hd with hd | ⟨hf, hin, hkept⟩
    · exact .inl hd
    · have hkept' := hkept hlen
      refine .inr ⟨?_, ?_, fun _ => hkept'⟩
      · rw [List.getElem?_append_left (by omega)]
        exact hf
      · rw [List.length_append]
        omega
  · rw [List.getElem?_append_right hnew] at hd
    rcases Nat.lt_or_ge j text.length with hlast | hpast
    · -- the text ends with an `x`
      have hidx : j + 1 - text.length = 0 := by omega
      rw [hidx] at hd
      obtain rfl : '0' = d := by simpa using hd
      exact .inl lowDigit_zero
    · rw [List.getElem?_append_right hpast] at hj
      have hone : j - text.length = 1 := by
        rcases hi : j - text.length with _ | _ | i
        · rw [hi] at hj
          simp at hj
        · rfl
        · rw [hi, List.getElem?_cons_succ, List.getElem?_cons_succ] at hj
          exact absurd (List.mem_of_getElem? hj) hx
      have htwo : j + 1 - text.length = 2 := by omega
      rw [htwo] at hd
      obtain rfl : e = d := by simpa using hd
      rcases he with he | ⟨hf, hrest⟩
      · exact .inl he
      · have hfour : j + 3 - text.length = 4 := by omega
        refine .inr ⟨?_, ?_, ?_⟩
        · rw [List.getElem?_append_right (by omega), hfour]
          exact hf
        · simp only [List.length_append, List.length_cons, hrest]
          omega
        · simp only [List.length_append, List.length_cons, hrest, wbufLen]
          omega

/-- A character is taken away. -/
theorem Guarded.dropLast {text : List Char} (h : Guarded text) (hlen : text.length < wbufLen - 6)
    (hlong : wbufLen - 11 ≤ text.length) : Guarded text.dropLast := by
  intro j d hj hd
  rw [List.getElem?_dropLast] at hj hd ⊢
  split_ifs at hj hd with h₁ h₂
  rcases h j d hj hd with hd | ⟨hf, hin, hkept⟩
  · exact .inl hd
  · have hkept' := hkept hlen
    rw [wbufLen] at hkept' hlong
    refine .inr ⟨?_, ?_, fun _ => hkept'⟩
    · rw [if_pos (by omega)]
      exact hf
    · rw [List.length_dropLast]
      omega

variable {fmt : Formatter}

theorem Guarded.printKey {text : List Char} (h : Guarded text) (hlen : text.length < wbufLen - 6)
    (b : UInt8) : Guarded (printKey fmt text b) := by
  rw [Tmux.printKey]
  split_ifs with hfits
  · by_cases hb : b < 128
    · obtain ⟨dh, dl, htoken, -, hvalue, hlt, hdh, hdl⟩ := keyToken_low hb
      rw [htoken]
      refine h.append hlen (by simp [hdh.symm, hdl.symm]) (.inl fun v hv => ?_)
      rw [hvalue, Option.some.injEq] at hv
      omega
    · obtain ⟨dh, dl, htoken, hdh, hdl⟩ := keyToken_high (UInt8.not_lt.mp hb)
      rw [htoken]
      exact h.append hlen (by simp [hdh.symm, hdl.symm]) (.inr ⟨rfl, rfl⟩)
  · -- a token of at most eleven characters has not fit
    have htoken := length_keyToken_le b
    have hlong : wbufLen - 11 ≤ text.length := by
      rw [wbufLen] at hfits ⊢
      cases fmt with
      | swprintf =>
          rw [Formatter.fits, decide_eq_true_eq] at hfits
          omega
      | snwprintf =>
          rw [Formatter.fits, decide_eq_true_eq] at hfits
          omega
    exact h.dropLast hlen hlong

/-- The text of a command is guarded. -/
theorem Guarded.fillCommand {text : List Char} (h : Guarded text) (bytes : List UInt8) :
    Guarded (fillCommand fmt text bytes).1 := by
  induction bytes generalizing text with
  | nil => exact h
  | cons b bytes ih =>
      rw [Tmux.fillCommand]
      split_ifs with hlen
      · exact ih (h.printKey hlen b)
      · exact h

/-- A key of a command, and the token it has. -/
theorem exists_token {tokens : List (List Char)} {keys : List UInt8}
    (hall : List.Forall₂ IsKeyToken tokens keys) {b : UInt8} (hb : b ∈ keys) :
    ∃ u v token c, IsKeyToken token b ∧ c ≠ 'f' ∧
      [' '].intercalate tokens ++ ['\n'] = u ++ (token ++ c :: v) := by
  induction hall with
  | nil => simp at hb
  | @cons token key tokens keys hkey htail ih =>
      have hcons : tokens ≠ [] → [' '].intercalate (token :: tokens) ++ ['\n'] =
          token ++ ' ' :: ([' '].intercalate tokens ++ ['\n']) := by
        intro hne
        obtain ⟨token', tokens, rfl⟩ := List.exists_cons_of_ne_nil hne
        simp [List.intercalate]
      rcases List.mem_cons.mp hb with rfl | hb
      · by_cases hne : tokens = []
        · subst hne
          exact ⟨[], [], token, '\n', hkey, by decide, by simp [List.intercalate]⟩
        · exact ⟨[], _, token, ' ', hkey, by decide, hcons hne⟩
      · obtain ⟨u, v, token', c, his, hc, heq⟩ := ih hb
        have hne : tokens ≠ [] := by
          rintro rfl
          cases htail
          simp at hb
        refine ⟨token ++ ' ' :: u, v, token', c, his, hc, ?_⟩
        rw [hcons hne, heq]
        simp

/-- **What a command carries is below 128.** -/
theorem low_of_sendsKeys {paneid : Int} {text : List Char} {keys : List UInt8} (hg : Guarded text)
    (h : SendsKeys paneid (text.dropLast ++ ['\n']) keys) : ∀ b ∈ keys, b < 128 := by
  intro b hb
  obtain ⟨tokens, hall, htext⟩ := h
  obtain ⟨u, v, token, c, ⟨dh, dl, vh, vl, rfl, hvh, hvl, hvalue⟩, hc, heq⟩ := exists_token hall hb
  obtain ⟨w, hw⟩ : ∃ w, w = sendKeysPrefix paneid ++ u := ⟨_, rfl⟩
  have hline : text.dropLast ++ ['\n'] = w ++ '0' :: 'x' :: dh :: dl :: c :: v := by
    rw [htext, List.append_assoc, heq, hw]
    simp
  have hlen : w.length + 5 ≤ text.dropLast.length + 1 := by
    have hl := congrArg List.length hline
    simp only [List.length_append, List.length_cons, List.length_nil] at hl
    omega
  -- below its last character the text is the command
  have hget : ∀ i < 4, text[w.length + i]? = ['0', 'x', dh, dl][i]? := by
    intro i hi
    have hcmd : (text.dropLast ++ ['\n'])[w.length + i]? =
        ('0' :: 'x' :: dh :: dl :: c :: v)[i]? := by
      rw [hline, List.getElem?_append_right (by omega), Nat.add_sub_cancel_left]
    rw [List.getElem?_append_left (by omega), List.getElem?_dropLast] at hcmd
    rw [List.length_dropLast] at hlen
    rw [if_pos (by omega)] at hcmd
    rw [hcmd]
    match i, hi with
    | 0, _ | 1, _ | 2, _ | 3, _ => rfl
  rcases hg (w.length + 1) dh (hget 1 (by omega)) (hget 2 (by omega)) with hlow | ⟨hf, hin, -⟩
  · have hvh' := hlow vh hvh
    have hvl' := digitValue_lt hvl
    rw [UInt8.lt_iff_toNat_lt]
    have h128 : (128 : UInt8).toNat = 128 := rfl
    omega
  · have hcmd : (text.dropLast ++ ['\n'])[w.length + 4]? = some c := by
      rw [hline, List.getElem?_append_right (by omega), Nat.add_sub_cancel_left]
      rfl
    rw [List.length_dropLast] at hlen
    rw [List.getElem?_append_left (by rw [List.length_dropLast]; omega), List.getElem?_dropLast,
      if_pos (by omega), hf, Option.some.injEq] at hcmd
    exact absurd hcmd.symm hc

end Values

section Sending

theorem SendsKeys.length {paneid : Int} {text : List Char} {keys : List UInt8}
    (h : SendsKeys paneid text keys) :
    text.length = (sendKeysPrefix paneid).length + (if keys = [] then 1 else 5 * keys.length) := by
  obtain ⟨tokens, hall, rfl⟩ := h
  have htokens : ([' '].intercalate tokens ++ ['\n']).length =
      if keys = [] then 1 else 5 * keys.length := by
    induction hall with
    | nil => rfl
    | @cons token key tokens keys hkey htail ih =>
        obtain ⟨dh, dl, vh, vl, rfl, -⟩ := hkey
        cases htail with
        | nil => rfl
        | @cons token' key' tokens keys hkey' htail =>
            simp only [List.intercalate, List.intersperse_cons_cons, List.flatten_cons,
              List.length_append, List.length_cons, List.length_nil, reduceCtorEq, if_false] at ih ⊢
            omega
  rw [List.append_assoc, List.length_append, htokens]

/-- The same commands carry the same number of bytes. -/
theorem length_flatten_eq {paneid : Int} {cmds cmds' : List (List Char × List UInt8)}
    (h : ∀ c ∈ cmds, SendsKeys paneid c.1 c.2) (h' : ∀ c ∈ cmds', SendsKeys paneid c.1 c.2)
    (heq : cmds.map Prod.fst = cmds'.map Prod.fst) :
    (cmds.map Prod.snd).flatten.length = (cmds'.map Prod.snd).flatten.length := by
  induction cmds generalizing cmds' with
  | nil =>
      obtain rfl := List.map_eq_nil_iff.mp heq.symm
      rfl
  | cons c cmds ih =>
      cases cmds' with
      | nil => simp at heq
      | cons c' cmds' =>
          rw [List.map_cons, List.map_cons, List.cons.injEq] at heq
          have hrest := ih (fun x hx => h x (by simp [hx])) (fun x hx => h' x (by simp [hx])) heq.2
          have hlen := (h c (by simp)).length
          have hlen' := (h' c' (by simp)).length
          have hkeys : c.2.length = c'.2.length := by
            rw [heq.1, hlen'] at hlen
            by_cases hc : c.2 = [] <;> by_cases hc' : c'.2 = []
            · rw [hc, hc']
            · rw [if_pos hc, if_neg hc'] at hlen
              omega
            · rw [if_neg hc, if_pos hc'] at hlen
              omega
            · rw [if_neg hc, if_neg hc'] at hlen
              omega
          simp only [List.map_cons, List.flatten_cons, List.length_append]
          omega

variable {fmt : Formatter}

/-- The form of a command. -/
theorem mem_sendKeysTexts {paneid : Int} {n : Nat} {bytes : List UInt8} {text : List Char}
    (h : text ∈ sendKeysTexts fmt paneid n bytes) :
    ∃ filled, Guarded filled ∧ text = filled.dropLast ++ ['\n'] := by
  induction n generalizing bytes with
  | zero => simp [sendKeysTexts] at h
  | succ n ih =>
      rw [sendKeysTexts] at h
      rcases List.mem_cons.mp h with rfl | h
      · exact ⟨_, (guarded_sendKeysPrefix paneid).fillCommand bytes, rfl⟩
      · split_ifs at h
        · simp at h
        · exact ih h

variable {α σ : Type}

theorem toInt_lt (n : Nat) : toInt n < 2147483648 := by
  have h : Int.bmod n 4294967296 < (4294967296 + 1) / 2 := Int.bmod_lt (by norm_num)
  exact h

theorem toInt_eq {n : Nat} (h : n < 2147483648) : toInt n = n := by
  have hn : Int.bmod n 4294967296 = n := Int.bmod_eq_of_le (by omega) (by omega)
  exact hn

/-- **A buffer is sent exactly if** its bytes are below 128 and their number is an `int`. -/
theorem tmuxSend_keysSent_iff (fmt : Formatter) (tmuxpane : TmuxBackend α σ) (buf : List UInt8)
    (hid : -2 ^ 31 ≤ tmuxpane.paneid ∧ tmuxpane.paneid < 2 ^ 31) (hne : buf ≠ []) :
    KeysSent tmuxpane.paneid buf tmuxpane.gateway (tmuxSend fmt tmuxpane buf).gateway ↔
      (∀ b ∈ buf, b < 128) ∧ buf.length < 2 ^ 31 := by
  have hprefix := length_sendKeysPrefix hid
  obtain ⟨texts, htexts⟩ : ∃ texts, texts = sendKeysTexts fmt tmuxpane.paneid (buf.length + 1)
    (buf.take (toInt buf.length).toNat) := ⟨_, rfl⟩
  obtain ⟨f, hf⟩ : ∃ f : List Char → GatewayEvent α Receiver,
    f = fun text => .sent ⟨.gateway, .null, text⟩ := ⟨_, rfl⟩
  have htrace : (tmuxSend fmt tmuxpane buf).gateway.trace =
      tmuxpane.gateway.trace ++ texts.map f := by
    rw [tmuxSend, TmuxGateway.sendCommands_eq, htexts, hf]
    simp
  have hsmall : (toInt buf.length).toNat < 2 ^ 31 := by
    have hlt := toInt_lt buf.length
    omega
  constructor
  · rintro ⟨cmds, hall, rfl, hsent, -⟩
    have hfst : cmds.map Prod.fst = texts := by
      have hinj : Function.Injective f := by
        intro x y hxy
        simpa [hf] using hxy
      refine List.map_injective_iff.mpr hinj ?_
      rw [htrace] at hsent
      rw [List.append_cancel_left hsent, List.map_map, hf]
      rfl
    have hlow : ∀ b ∈ (cmds.map Prod.snd).flatten, b < 128 := by
      intro b hb
      obtain ⟨keys, hkeys, hb⟩ := List.mem_flatten.mp hb
      obtain ⟨c, hc, rfl⟩ := List.mem_map.mp hkeys
      have htext : c.1 ∈ texts := hfst ▸ List.mem_map_of_mem hc
      rw [htexts] at htext
      obtain ⟨filled, hguarded, hform⟩ := mem_sendKeysTexts htext
      exact low_of_sendsKeys hguarded (hform ▸ (hall c hc).1) b hb
    refine ⟨hlow, ?_⟩
    have hsends : ∀ c ∈ cmds, SendsKeys tmuxpane.paneid c.1 c.2 := fun c hc => (hall c hc).1
    by_cases hbytes : (cmds.map Prod.snd).flatten.take
        (toInt (cmds.map Prod.snd).flatten.length).toNat = []
    · -- a command without a token is too short
      rw [hbytes, sendKeysTexts, fillCommand] at htexts
      dsimp only at htexts
      rw [htexts, if_pos rfl] at hfst
      obtain ⟨c, rfl, hc⟩ := List.map_eq_singleton_iff.mp hfst
      have hlen := (hsends c (by simp)).length
      rw [hc, List.length_append, List.length_dropLast, List.length_singleton] at hlen
      split_ifs at hlen with hkeys
      · omega
      · have hpos := List.length_pos_of_ne_nil hkeys
        omega
    · have htake : ∀ b ∈ (cmds.map Prod.snd).flatten.take
          (toInt (cmds.map Prod.snd).flatten.length).toNat, b < 128 :=
        fun b hb => hlow b (List.mem_of_mem_take hb)
      obtain ⟨cmds', hcmds', hall', hflat⟩ := sendKeysTexts_low fmt hid htake hbytes
        ((List.length_take_le' _ _).trans (Nat.le_succ _))
      have hlen := length_flatten_eq hsends (fun c hc => (hall' c hc).1)
        (hfst.trans (htexts.trans hcmds'))
      rw [hflat, List.length_take] at hlen
      omega
  · rintro ⟨hlow, hlen⟩
    have hint : (toInt buf.length).toNat = buf.length := by
      rw [toInt_eq hlen, Int.toNat_natCast]
    rw [hint, List.take_length] at htexts
    obtain ⟨cmds, hcmds, hall, hflat⟩ := sendKeysTexts_low fmt hid hlow hne
      (Nat.le_succ buf.length)
    refine ⟨cmds, hall, hflat, ?_, ?_⟩
    · rw [htrace, htexts, hcmds, List.map_map, hf]
      rfl
    · rw [tmuxSend, hint, List.take_length, hcmds, TmuxGateway.sendCommands_eq]
      simp [Function.comp_def, Command.resp]

/-- A backend for the pane 5. -/
def paneBackend : TmuxBackend UInt8 Unit := ⟨.init (), 5, 0⟩

theorem tmuxSend_keysSent_paneBackend :
    KeysSent 5 [97] paneBackend.gateway (tmuxSend .swprintf paneBackend [97]).gateway :=
  (tmuxSend_keysSent_iff .swprintf paneBackend [97] (by decide) (by decide)).mpr
    ⟨by simp, by simp⟩

/-- A byte from 128 on is sent as four bytes. -/
theorem not_keysSent_high :
    ¬ KeysSent paneBackend.paneid [195] paneBackend.gateway
        (tmuxSend .swprintf paneBackend [195]).gateway := by
  rintro ⟨cmds, hall, hflat, htrace, -⟩
  have hsent : (tmuxSend .swprintf paneBackend [195]).gateway.trace =
      [.sent ⟨.gateway, .null, "send-keys -t %5 0xffffffc3\n".toList⟩] := by decide +kernel
  rw [hsent] at htrace
  obtain ⟨c, rfl, hc⟩ := List.map_eq_singleton_iff.mp htrace.symm
  have hlen := (hall c (by simp)).1.length
  rw [List.map_singleton, List.flatten_singleton] at hflat
  have htext : c.1 = "send-keys -t %5 0xffffffc3\n".toList := by simpa using hc
  rw [htext, hflat] at hlen
  exact absurd hlen (by decide +kernel)

end Sending

end Tmux
end Qutty
