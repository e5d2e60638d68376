import Qutty.Bufchain
import Qutty.Tmux.SendKeys

/-!
# Text for the line discipline

`ldisc_send` of `puttysrc/ldisc.c` takes a pointer and a number of bytes.
`TmuxGateway::sendCommand` and `GuiTextFilterWindow::on_text_completion_activated`
call it with wide characters and the number of characters.

A wide character has two bytes or four, the lowest first.  So of a text of ASCII
characters that are not NUL the line discipline gets the first character, then zeros
and every second or fourth character up to the middle or the first quarter, and that
is the text only if the text has no second character (`handsOver_iff`).
-/

namespace Qutty
namespace Terminal

open Tmux

/-- The layout of `wchar_t`: UTF-16 on Windows, UTF-32 elsewhere. -/
inductive WChar where
  | utf16
  | utf32
deriving DecidableEq, Repr

namespace WChar

/-- `sizeof(wchar_t)`. -/
def size : WChar → Nat
  | utf16 => 2
  | utf32 => 4

/-- The code units of a character. -/
def units (w : WChar) (c : Char) : List Nat :=
  match w with
  | utf16 =>
      if c.toNat < 65536 then [c.toNat]
      else [55296 + (c.toNat - 65536) / 1024, 56320 + (c.toNat - 65536) % 1024]
  | utf32 => [c.toNat]

/-- A text as wide characters. -/
def wide (w : WChar) (text : List Char) : List Nat := text.flatMap w.units

end WChar

/-- The bytes of a number in memory, the lowest first. -/
def littleEndian : Nat → Nat → List UInt8
  | 0, _ => []
  | n + 1, v => (v % 256).toUInt8 :: littleEndian n (v / 256)

/-- Wide characters in memory. -/
def memory (w : WChar) (text : List Nat) : List UInt8 := text.flatMap (littleEndian w.size)

/-- `InputType`. -/
inductive InputType where
  | normal
  | dedicated
  | nonInteractive
deriving DecidableEq, Repr

/-- The input of `struct Ldisc`: the bytes, and the chunks of one type. -/
structure Ldisc where
  inputQueue : Bufchain UInt8
  inchunks : List (InputType × Nat)

/-- Bytes of a type, behind the last chunk or as a new one. -/
def addChunk (type : InputType) (len : Nat) : List (InputType × Nat) → List (InputType × Nat)
  | [] => [(type, len)]
  | [chunk] => if chunk.1 = type then [(type, chunk.2 + len)] else [chunk, (type, len)]
  | chunk :: chunk' :: chunks => chunk :: addChunk type len (chunk' :: chunks)

/-- `ldisc_send` for the bytes `vbuf` in memory, up to the input queue. -/
def ldiscSend (ldisc : Ldisc) (vbuf : List UInt8) (len : Int) (interactive : Bool) : Ldisc :=
  if len = 0 then ldisc
  else
    let n := if len < 0 then (vbuf.takeWhile (fun b => b ≠ 0)).length else len.toNat
    let type := if len < 0 then .dedicated else if interactive then .normal else .nonInteractive
    ⟨ldisc.inputQueue.add (vbuf.take n), addChunk type n ldisc.inchunks⟩

section Callers

variable {α σ : Type}

/-- `TmuxGateway::sendCommand` with the number of characters; `following` is in memory
behind the command. -/
def sendCommand (w : WChar) (g : TmuxGateway α Receiver σ) (ldisc : Ldisc)
    (c : Command Receiver) (following : List UInt8) : TmuxGateway α Receiver σ × Ldisc :=
  (g.sendCommand c,
    ldiscSend ldisc (memory w (w.wide c.text) ++ following) (toInt (w.wide c.text).length) false)

/-- `TmuxGateway::sendCommand` for a terminated string: the number of characters is
`wcslen`. -/
def sendCommandString (w : WChar) (g : TmuxGateway α Receiver σ) (ldisc : Ldisc)
    (c : Command Receiver) (following : List UInt8) : TmuxGateway α Receiver σ × Ldisc :=
  let cmdStr := w.wide c.text ++ [0]
  (g.sendCommand c,
    ldiscSend ldisc (memory w cmdStr ++ following)
      (toInt (cmdStr.takeWhile (fun u => u ≠ 0)).length) false)

/-- `GuiTextFilterWindow::on_text_completion_activated`: `str.length()` is the number of
UTF-16 code units, and the last element of the buffer is not written. -/
def onTextCompletionActivated (w : WChar) (ldisc : Ldisc) (str : List Char)
    (following : List UInt8) : Ldisc :=
  ldiscSend ldisc (memory w (w.wide str) ++ following) (toInt (WChar.utf16.wide str).length) false

end Callers

/-- The line discipline gets the characters of a text, one byte for each. -/
def HandsOver (text : List Char) (ldisc ldisc' : Ldisc) : Prop :=
  ldisc'.inputQueue.content = ldisc.inputQueue.content ++ ascii text

/-- Behind its first character a text has only NULs. -/
def Narrow (text : List Char) : Prop :=
  text.length < 2 ^ 31 ∧ ∀ c ∈ text.tail, c = Char.ofNat 0

section Memory

variable {w : WChar} {text : List Char}

theorem wide_ascii (h : ∀ c ∈ text, c.toNat < 128) : w.wide text = text.map Char.toNat := by
  rw [WChar.wide, ← List.flatMap_singleton' (text.map Char.toNat), List.flatMap_map]
  refine List.flatMap_congr fun c hc => ?_
  have hlt : c.toNat < 65536 := (h c hc).trans (by omega)
  cases w with
  | utf16 => rw [WChar.units, if_pos hlt]
  | utf32 => rfl

/-- An ASCII character in memory. -/
theorem littleEndian_ascii (w : WChar) {v : Nat} (h : v < 128) :
    littleEndian w.size v = v.toUInt8 :: List.replicate (w.size - 1) 0 := by
  have hmod : v % 256 = v := Nat.mod_eq_of_lt (by omega)
  have hdiv : v / 256 = 0 := Nat.div_eq_of_lt (by omega)
  cases w with
  | utf16 => simp only [WChar.size, littleEndian, hmod, hdiv]; rfl
  | utf32 => simp only [WChar.size, littleEndian, hmod, hdiv]; rfl

/-- Bytes that are spread out. -/
def spread (p : Nat) (xs : List UInt8) : List UInt8 := xs.flatMap (fun b => b :: List.replicate p 0)

theorem memory_ascii (h : ∀ c ∈ text, c.toNat < 128) :
    memory w (text.map Char.toNat) = spread (w.size - 1) (ascii text) := by
  rw [memory, spread, ascii, List.flatMap_map, List.flatMap_map]
  exact List.flatMap_congr fun c hc => littleEndian_ascii w (h c hc)

/-- What stands among the first bytes when they are spread out. -/
theorem mem_take_spread {p k : Nat} {xs : List UInt8} {b : UInt8} (h : b ∈ (spread p xs).take k) :
    b = 0 ∨ b ∈ xs.take k := by
  induction xs generalizing k with
  | nil => simp [spread] at h
  | cons x xs ih =>
      cases k with
      | zero => simp at h
      | succ k =>
          rw [spread, List.flatMap_cons, List.cons_append, List.take_succ_cons, List.mem_cons,
            List.take_append, List.mem_append, ← spread] at h
          rcases h with rfl | h | h
          · exact .inr (by simp)
          · exact .inl (List.eq_of_mem_replicate (List.mem_of_mem_take h))
          · refine (ih h).imp id fun hb => ?_
            rw [List.take_succ_cons, List.mem_cons]
            exact .inr ((List.take_subset_take_left xs (Nat.sub_le _ _)) hb)

theorem length_le_spread (p : Nat) (xs : List UInt8) : xs.length ≤ (spread p xs).length := by
  induction xs with
  | nil => exact Nat.zero_le _
  | cons x xs ih =>
      rw [spread, List.flatMap_cons, List.length_append, List.length_cons, List.length_cons]
      rw [spread] at ih
      omega

/-- Bytes that are followed by themselves, spread out, are zero. -/
theorem eq_zero_of_take_spread {p : Nat} (hp : 1 ≤ p) {xs rest : List UInt8}
    (h : (List.replicate p 0 ++ (spread p xs ++ rest)).take xs.length = xs) (k : Nat)
    (hk : k ≤ xs.length) : ∀ b ∈ xs.take k, b = 0 := by
  induction k with
  | zero => simp
  | succ k ih =>
      intro b hb
      -- the byte is one of the zeros, or it stands further in front
      have hlen := length_le_spread p xs
      rw [← h, List.take_take, min_eq_left hk, List.take_append, List.mem_append,
        List.length_replicate, List.take_append_of_le_length (by omega)] at hb
      rcases hb with hb | hb
      · exact List.eq_of_mem_replicate (List.mem_of_mem_take hb)
      · rcases mem_take_spread hb with hb | hb
        · exact hb
        · exact ih (by omega) b (List.take_subset_take_left xs (by omega) hb)

/-- **Spread out, bytes begin with themselves only if** all but the first are zero. -/
theorem take_spread_eq_iff {p : Nat} (hp : 1 ≤ p) (xs rest : List UInt8) :
    (spread p xs ++ rest).take xs.length = xs ↔ ∀ b ∈ xs.tail, b = 0 := by
  cases xs with
  | nil => simp
  | cons x xs =>
      have hsplit : (spread p (x :: xs) ++ rest).take (x :: xs).length =
          x :: (List.replicate p 0 ++ (spread p xs ++ rest)).take xs.length := by
        rw [spread, List.flatMap_cons]
        simp [spread]
      rw [hsplit, List.tail_cons, List.cons.injEq, eq_self_iff_true, true_and]
      constructor
      · intro h b hb
        exact eq_zero_of_take_spread hp h xs.length le_rfl b (by rwa [List.take_length])
      · intro hzero
        have hall : ∀ b ∈ List.replicate p 0 ++ spread p xs, b = 0 := by
          intro b hb
          rcases List.mem_append.mp hb with hb | hb
          · exact List.eq_of_mem_replicate hb
          · rw [← List.take_length (l := spread p xs)] at hb
            rcases mem_take_spread hb with hb | hb
            · exact hb
            · exact hzero b (List.mem_of_mem_take hb)
        have hlen := length_le_spread p xs
        have hxs : xs = List.replicate xs.length 0 := List.eq_replicate_iff.mpr ⟨rfl, hzero⟩
        rw [← List.append_assoc, List.take_append_of_le_length
          (by rw [List.length_append]; omega), List.eq_replicate_iff.mpr ⟨rfl, hall⟩,
          List.take_replicate, min_eq_left (by rw [List.length_append]; omega)]
        exact hxs.symm

end Memory

section Handing

variable {w : WChar} {text : List Char} {ldisc : Ldisc}

/-- The bytes that are handed over. -/
theorem content_ldiscSend (ldisc : Ldisc) (vbuf : List UInt8) (len : Int) :
    (ldiscSend ldisc vbuf len false).inputQueue.content = ldisc.inputQueue.content ++
      (if len < 0 then vbuf.takeWhile (fun b => b ≠ 0) else vbuf.take len.toNat) := by
  rw [ldiscSend]
  by_cases h0 : len = 0
  · simp [h0]
  · rw [if_neg h0]
    dsimp only
    rw [Bufchain.content_add]
    split_ifs
    · rw [List.takeWhile_eq_take_findIdx_not]
      simp
    · rfl

/-- An ASCII character is NUL if its byte is. -/
theorem narrow_iff (h : ∀ c ∈ text, c.toNat < 128) :
    (∀ c ∈ text.tail, c = Char.ofNat 0) ↔ ∀ b ∈ (ascii text).tail, b = 0 := by
  have htail : (ascii text).tail = ascii text.tail := by rw [ascii, ascii, List.map_tail]
  have hbyte : ∀ c : Char, c.toNat < 128 → (c.toNat.toUInt8 = 0 ↔ c = Char.ofNat 0) := by
    intro c hc
    have hc0 : c = Char.ofNat 0 ↔ c.toNat = 0 := by
      constructor
      · rintro rfl
        rfl
      · intro h0
        rw [← Char.ofNat_toNat c, h0]
    have hmod : c.toNat.toUInt8.toNat = c.toNat :=
      (UInt8.toNat_ofNat_of_lt' (by omega : c.toNat < 256))
    rw [hc0, ← UInt8.toNat_inj, hmod]
    rfl
  rw [htail, ascii, List.forall_mem_map]
  exact forall₂_congr fun c hc => (hbyte c (h c (List.mem_of_mem_tail hc))).symm

/-- **The line discipline gets a text of ASCII characters** only if it has at most one
that is not NUL, the first. -/
theorem handsOver_iff (h : ∀ c ∈ text, c.toNat < 128) (following : List UInt8) :
    HandsOver text ldisc
        (ldiscSend ldisc (memory w (text.map Char.toNat) ++ following) (toInt text.length) false) ↔
      Narrow text := by
  have hlen : (ascii text).length = text.length := List.length_map _
  have hp : 1 ≤ w.size - 1 := by
    cases w <;> decide
  rw [HandsOver, content_ldiscSend, List.append_cancel_left_eq, Narrow, narrow_iff h,
    memory_ascii h]
  by_cases hshort : text.length < 2147483648
  · have hint := toInt_eq hshort
    rw [hint, if_neg (by omega), Int.toNat_natCast, ← hlen, take_spread_eq_iff hp, hlen]
    exact (and_iff_right hshort).symm
  · -- too many bytes for an `int`
    refine iff_of_false (fun heq => ?_) (fun hn => hshort hn.1)
    have hl := congrArg List.length heq
    rw [hlen] at hl
    have hlt := toInt_lt text.length
    split_ifs at hl with hneg
    · cases htext : ascii text with
      | nil =>
          rw [htext, List.length_nil] at hlen
          omega
      | cons b bs =>
          obtain ⟨p, hp'⟩ : ∃ p, w.size - 1 = p + 1 := ⟨w.size - 1 - 1, by omega⟩
          have hmem : spread (w.size - 1) (b :: bs) ++ following =
              b :: 0 :: (List.replicate p 0 ++ (spread (w.size - 1) bs ++ following)) := by
            rw [spread, List.flatMap_cons, ← spread, hp', List.replicate_succ]
            simp
          rw [htext, hmem, List.takeWhile_cons, List.takeWhile_cons_of_neg (by simp)] at hl
          split_ifs at hl <;> simp only [List.length_cons, List.length_nil] at hl <;> omega
    · have hle := List.length_take_le (toInt text.length).toNat
        (spread (w.size - 1) (ascii text) ++ following)
      omega

variable {α σ : Type}

/-- **What the line discipline gets of a text of ASCII characters** is the text exactly
if it is narrow, whichever way it is sent. -/
theorem handsOver_callers_iff (w : WChar) (text : List Char) (h : ∀ c ∈ text, c.toNat < 128)
    (g : TmuxGateway α Receiver σ) (ldisc : Ldisc) (receiver : Receiver) (cb : TmuxCbIndex)
    (following : List UInt8) :
    (HandsOver text ldisc (sendCommand w g ldisc ⟨receiver, cb, text⟩ following).2 ↔
        Narrow text) ∧
      ((∀ c ∈ text, c ≠ Char.ofNat 0) →
        (HandsOver text ldisc (sendCommandString w g ldisc ⟨receiver, cb, text⟩ following).2 ↔
          Narrow text)) ∧
      (HandsOver text ldisc (onTextCompletionActivated w ldisc text following) ↔ Narrow text) := by
  refine ⟨?_, fun hnul => ?_, ?_⟩
  · rw [sendCommand]
    dsimp only
    rw [wide_ascii h, List.length_map]
    exact handsOver_iff h following
  · have hwcslen : (text.map Char.toNat ++ [0]).takeWhile (fun u => u ≠ 0) =
        text.map Char.toNat := by
      rw [List.takeWhile_append_of_pos]
      · simp
      · intro u hu
        obtain ⟨c, hc, rfl⟩ := List.mem_map.mp hu
        have hne := hnul c hc
        have hc0 : c.toNat ≠ 0 := fun h0 => hne (by rw [← Char.ofNat_toNat c, h0])
        simpa using hc0
    have hmem : memory w (text.map Char.toNat ++ [0]) ++ following =
        memory w (text.map Char.toNat) ++ (memory w [0] ++ following) := by
      rw [memory, memory, memory, List.flatMap_append, List.append_assoc]
    rw [sendCommandString]
    dsimp only
    rw [wide_ascii h, hwcslen, hmem, List.length_map]
    exact handsOver_iff h _
  · rw [onTextCompletionActivated, wide_ascii h, wide_ascii h, List.length_map]
    exact handsOver_iff h following

/-- The line discipline without input. -/
def emptyLdisc : Ldisc := ⟨[], []⟩

theorem handsOver_callers_iff_enter :
    HandsOver ['\n'] emptyLdisc (onTextCompletionActivated .utf32 emptyLdisc ['\n'] []) :=
  (handsOver_callers_iff .utf32 ['\n'] (by simp) (.init () : TmuxGateway UInt8 Receiver Unit)
    emptyLdisc .gateway .null []).2.2.mpr ⟨by simp, by simp⟩

/-- Of the command to detach every second byte is a zero, and its end is missing. -/
theorem not_handsOver_detach :
    ¬ HandsOver "detach\n".toList emptyLdisc
      (sendCommandString .utf16 (.init () : TmuxGateway UInt8 Receiver Unit) emptyLdisc
        ⟨.gateway, .null, "detach\n".toList⟩ []).2 := by
  have hcontent : (sendCommandString .utf16 (.init () : TmuxGateway UInt8 Receiver Unit) emptyLdisc
      ⟨.gateway, .null, "detach\n".toList⟩ []).2.inputQueue.content =
      [100, 0, 101, 0, 116, 0, 97] := by decide +kernel
  rw [HandsOver, hcontent]
  decide +kernel

end Handing

end Terminal
end Qutty
