import Qutty.Terminal.Emulation
import Mathlib.Tactic.Cases

/-!
# The recogniser of the introducer

`ESC P`, a body of printable characters and `ESC \` as the loop reads them.  `After` says what
the terminal has got to after the first bytes; `After.step` is the step from one byte to the
next, and `After.feeds` takes it through any number of calls of `term_data`.
-/

namespace Qutty
namespace Terminal

variable {α δ : Type} {d : δ}

/-- `ESC P`, a body and `ESC \`. -/
def dcsSequence (body : List UInt8) : List UInt8 := 0x1b :: 0x50 :: (body ++ [0x1b, 0x5c])

/-- Printable ASCII. -/
def Printable (b : UInt8) : Prop := 0x20 ≤ b.toNat ∧ b.toNat ≤ 0x7e

section Steps

variable (R : Reactions δ) {t : Terminal α (Fields δ)}

theorem c1Control_ascii (E : Emulator (Fields δ)) (s : Screen (Fields δ)) {c : Nat}
    (hc : c < 0x80) : c1Control E s c = (s, c) := by
  rw [c1Control, if_neg]
  rintro ⟨hc1, -⟩
  omega

theorem passChar_ne_again (E : Emulator (Fields δ)) (t : Terminal α (Fields δ)) (c : Nat) :
    (passChar E t c .next).2 ≠ .again := by
  rw [passChar]
  split <;> simp

/-- A byte that is read in one pass. -/
theorem outByte_of_pass {E : Emulator (Fields δ)} {t t' : Terminal α (Fields δ)} {b : UInt8}
    {c : Nat} (hpass : outPass E t b = passChar E t' c .next) :
    outByte E t b = passChar E t' c .next := by
  have hagain := passChar_ne_again E t' c
  rw [← hpass] at hagain ⊢
  rw [outByte]
  split
  · rename_i heq
    rw [heq] at hagain
    exact absurd rfl hagain
  · rfl

/-- A pass without translation. -/
theorem outByte_of_state (h : Attends d t.screen.rest) (hstate : t.screen.termstate ≠ .toplevel)
    (b : UInt8) : ∃ f, Attends d f ∧
      outByte R.emulator t b =
        passChar R.emulator { t with screen := { t.screen with rest := f } } b.toNat .next := by
  obtain ⟨hprint, honly⟩ := h.print b
  refine ⟨(t.screen.rest.print b).1, hprint, ?_⟩
  have hpass : outPass R.emulator t b =
      passChar R.emulator { t with screen := { t.screen with rest := (t.screen.rest.print b).1 } }
        b.toNat .next := by
    have hemulator : R.emulator.print t.screen.rest b = t.screen.rest.print b := rfl
    rw [outPass, hemulator]
    generalize t.screen.rest.print b = out at honly
    obtain ⟨f, only⟩ := out
    dsimp only at honly ⊢
    rw [honly, if_neg (by simp), if_neg hstate]
  exact outByte_of_pass hpass

/-- `ESC` in front of everything that is translated first. -/
theorem outByte_esc_toplevel (h : Attends d t.screen.rest)
    (hstate : t.screen.termstate = .toplevel) (hesc : R.unitabCtrl 0x1b = 0x1b)
    (hutf : R.inUtf d = true → t.screen.rest.utf8.state = 0) : ∃ f, Attends d f ∧
      outByte R.emulator t 0x1b =
        passChar R.emulator { t with screen := { t.screen with rest := f } } 0x1b .next := by
  obtain ⟨hprint, honly⟩ := h.print 0x1b
  refine ⟨(t.screen.rest.print 0x1b).1, hprint, ?_⟩
  have htranslate := Attends.translate_esc (f := (t.screen.rest.print 0x1b).1) R hesc (by
    rw [hprint.shown, Attends.print_utf8]
    exact hutf)
  have hpass : outPass R.emulator t 0x1b =
      passChar R.emulator
        { t with screen := { t.screen with rest := (t.screen.rest.print 0x1b).1 } }
        0x1b .next := by
    have hemulator : R.emulator.print t.screen.rest 0x1b = t.screen.rest.print 0x1b := rfl
    have htranslate' : R.emulator.translate = Fields.translate R := rfl
    rw [outPass, hemulator, htranslate']
    generalize t.screen.rest.print 0x1b = out at honly htranslate
    obtain ⟨f, only⟩ := out
    dsimp only at honly htranslate ⊢
    rw [honly, if_neg (by simp), if_pos hstate, htranslate]
  exact outByte_of_pass hpass

/-- A pass that goes on to the next byte. -/
theorem passChar_next {E : Emulator (Fields δ)} {t t' : Terminal α (Fields δ)} {c : Nat}
    (h : outChar E t c = (t', .next)) : passChar E t c .next = (endPass E t', .next) := by
  rw [passChar, h]

theorem attends_endPass (h : Attends d t.screen.rest) :
    Attends d (endPass R.emulator t).screen.rest :=
  h.checkSelection R

/-- `ESC` is a control in these states, or ends an OSC string. -/
def ObeysEsc (s : Screen (Fields δ)) : Prop :=
  s.termstate.obeysControls = true ∨ s.termstate = .oscString

/-- After an `ESC`. -/
structure Escaped (d : δ) (t : Terminal α (Fields δ)) : Prop where
  attends : Attends d t.screen.rest
  state : t.screen.termstate = .seenEsc ∨ t.screen.termstate = .oscMaybeSt
  query : t.screen.escQuery = 0

/-- In the body. -/
structure Collecting (d : δ) (q : List UInt8) (t : Terminal α (Fields δ)) : Prop where
  attends : Attends d t.screen.rest
  state : t.screen.termstate = .seenDcs
  escBuf : t.escBuf = q.take escBufSize

theorem outChar_esc (h : Attends d t.screen.rest) (hobeys : ObeysEsc t.screen)
    (hquery : t.screen.termstate = .seenOsc ∨ t.screen.termstate = .seenOscW ∨
      t.screen.termstate = .oscString → t.screen.escQuery = 0) :
    ∃ s, outChar R.emulator t 0x1b = ({ t with screen := s }, .next) ∧ s.rest = t.screen.rest ∧
      s.escQuery = 0 ∧ (s.termstate = .oscMaybeSt ∨ s.termstate = .seenEsc) ∧
      (t.screen.termstate = .seenDcs → s.termstate = .seenEsc) := by
  have hc1 := c1Control_ascii R.emulator t.screen (c := 0x1b) (by norm_num)
  have hvt : R.emulator.vt52Mode t.screen.rest = false := h.notVt52
  have hcompat : R.emulator.hasCompat t.screen.rest .ansimin = true :=
    decide_eq_true h.ansimin
  rw [outChar, hc1]
  rcases hobeys with hobeys | hosc
  · have hctrl : (0x1b : Nat) < 32 ∧ t.screen.termstate.obeysControls = true := ⟨by norm_num, hobeys⟩
    simp only [if_pos hctrl, if_true]
    rw [if_neg (by rintro ⟨h, -⟩; cases h), escControl, hvt, if_neg (by simp)]
    by_cases hosc : t.screen.termstate = .seenOsc ∨ t.screen.termstate = .seenOscW
    · rw [if_pos hosc]
      refine ⟨_, rfl, rfl, hquery (by tauto), .inl rfl, fun hdcs => ?_⟩
      rw [hdcs] at hosc
      rcases hosc with hosc | hosc <;> cases hosc
    · rw [if_neg hosc, hcompat, if_pos rfl]
      exact ⟨_, rfl, rfl, rfl, .inr rfl, fun _ => rfl⟩
  · have hother : R.emulator.other t.screen 0x1b = { t.screen with termstate := .oscMaybeSt } := by
      change R.others t.screen 0x1b = _
      rw [Reactions.others, hosc]
      rfl
    simp only [hosc, hother]
    exact ⟨_, rfl, rfl, hquery (.inr (.inr hosc)), .inl rfl, fun hdcs => by cases hdcs⟩

theorem outChar_dcs (h : Escaped d t) :
    outChar R.emulator t 0x50 =
      ({ t with screen := { t.screen with termstate := .seenDcs }, escBuf := [] }, .next) := by
  have hc1 := c1Control_ascii R.emulator t.screen (c := 0x50) (by norm_num)
  have hdcs : isDcs t.screen 0x50 = true := by
    rw [isDcs, h.query]
    rfl
  rw [outChar, hc1]
  rcases h.state with hstate | hstate <;> simp [hstate, hdcs]

/-- A character of the body. -/
theorem outChar_body {q : List UInt8} (h : Collecting d q t) {b : UInt8} (hb : Printable b) :
    outChar R.emulator t b.toNat =
      ({ t with escBuf := (q ++ [b]).take escBufSize },
        if q ++ [b] = tmuxIntroducer then .introducer else .next) := by
  have hc1 := c1Control_ascii R.emulator t.screen (c := b.toNat) (by have := hb.2; omega)
  have hdelete : b.toNat ≠ 0x7f := by have := hb.2; omega
  have hcontrol : ¬ b.toNat < 32 := by have := hb.1; omega
  rw [outChar, hc1]
  simp only [hdelete, hcontrol, false_and, if_false, h.state, h.escBuf]
  have hbyte : b.toNat.toUInt8 = b := UInt8.ofNat_toNat
  have hintro : tmuxIntroducer.length = 5 := rfl
  by_cases hlen : q.length < escBufSize
  · have htake : (q ++ [b]).take escBufSize = q ++ [b] :=
      List.take_of_length_le (by rw [List.length_append, List.length_singleton]; omega)
    rw [List.take_of_length_le hlen.le, if_pos hlen, hbyte, htake]
  · have htake : (q ++ [b]).take escBufSize = q.take escBufSize :=
      List.take_append_of_le_length (by omega)
    have hne : q ++ [b] ≠ tmuxIntroducer := by
      intro heq
      have hlen' := congrArg List.length heq
      rw [List.length_append, hintro, List.length_singleton] at hlen'
      simp only [escBufSize] at hlen
      omega
    have hfull : ¬ (q.take escBufSize).length < escBufSize := by
      rw [List.length_take]
      omega
    rw [if_neg hfull, htake, if_neg hne, ← h.escBuf]

/-- The end of the sequence has no effect. -/
theorem outChar_backslash (hstate : t.screen.termstate = .seenEsc) (hquery : t.screen.escQuery = 0) :
    outChar R.emulator t 0x5c =
      ({ t with screen := { t.screen with termstate := .toplevel } }, .next) := by
  have hc1 := c1Control_ascii R.emulator t.screen (c := 0x5c) (by norm_num)
  have hdcs : isDcs t.screen 0x5c = false := by
    rw [isDcs, hquery]
    rfl
  have hfinal : ((0x5c : Nat) : Int) + 0 * 256 ∉ escFinals := by decide
  have hescape : R.emulator.escape t.screen 0x5c = { t.screen with termstate := .toplevel } := by
    change R.escape t.screen 0x5c = _
    rw [Reactions.escape, if_neg (by rw [hstate]; simp), if_neg (by norm_num), hquery]
    simp only [hfinal, if_false, hquery]
  rw [outChar, hc1]
  simp [hstate, hdcs, hescape]

end Steps

section Bound

variable {ε : Type} (E : Emulator ε)

theorem outChar_escBuf (t : Terminal α ε) (c : Nat) (h : t.escBuf.length ≤ escBufSize) :
    (outChar E t c).1.escBuf.length ≤ escBufSize := by
  unfold outChar
  dsimp only
  split
  · exact h
  · split
    · exact h
    · split
      · split
        · exact Nat.zero_le _
        · exact h
      · split
        · exact Nat.zero_le _
        · exact h
      · split
        · rename_i hlen
          rw [List.length_append, List.length_singleton]
          exact hlen
        · exact h
      · exact h

theorem passChar_escBuf (t : Terminal α ε) (c : Nat) (e : PassEnd)
    (h : t.escBuf.length ≤ escBufSize) : (passChar E t c e).1.escBuf.length ≤ escBufSize := by
  have hchar := outChar_escBuf E t c h
  unfold passChar
  split
  · rename_i heq
    rwa [heq] at hchar
  · rename_i heq
    rwa [heq] at hchar

theorem outPass_escBuf (t : Terminal α ε) (b : UInt8) (h : t.escBuf.length ≤ escBufSize) :
    (outPass E t b).1.escBuf.length ≤ escBufSize := by
  unfold outPass
  dsimp only
  split_ifs
  · exact h
  · split
    · exact h
    · exact passChar_escBuf E _ _ _ h
    · exact passChar_escBuf E _ _ _ h
    · exact passChar_escBuf E _ _ _ h
  · exact passChar_escBuf E _ _ _ h

theorem outByte_escBuf (t : Terminal α ε) (b : UInt8) (h : t.escBuf.length ≤ escBufSize) :
    (outByte E t b).1.escBuf.length ≤ escBufSize := by
  have hpass := outPass_escBuf E t b h
  unfold outByte
  split
  · rename_i heq
    rw [heq] at hpass
    exact outPass_escBuf E _ b hpass
  · exact hpass

/-- **`esc_buf_len` stays within `esc_buf`**, whatever is read. -/
theorem scan_escBuf [Octet α] (n : Nat) (t : Terminal α ε) (l : ReadAhead α)
    (h : t.escBuf.length ≤ escBufSize) : (scan E n t l).1.escBuf.length ≤ escBufSize := by
  induction n generalizing t l with
  | zero => exact h
  | succ n ih =>
      have hrefill : (refill t l).1.escBuf.length ≤ escBufSize := by
        unfold refill
        split_ifs <;> exact h
      rw [scan]
      split_ifs
      · exact h
      · dsimp only
        split
        · exact hrefill
        · rename_i b hb
          have hbyte := outByte_escBuf E (refill t l).1 (octet b) hrefill
          split
          · rename_i heq
            rwa [heq] at hbyte
          · rename_i heq
            rw [heq] at hbyte
            exact ih _ _ hbyte

end Bound

section Sequence

variable (R : Reactions δ) {t t' : Terminal α (Fields δ)} {body : List UInt8} {k : Nat} {b : UInt8}

/-- An `ESC` begins a sequence here. -/
structure Ready (R : Reactions δ) (d : δ) (t : Terminal α (Fields δ)) : Prop where
  attends : Attends d t.screen.rest
  obeys : ObeysEsc t.screen
  /-- these states are entered with `esc_query` 0, which they leave alone -/
  query : t.screen.termstate = .seenOsc ∨ t.screen.termstate = .seenOscW ∨
    t.screen.termstate = .oscString → t.screen.escQuery = 0
  /-- not in the middle of a UTF-8 character -/
  between : t.screen.termstate = .toplevel → R.inUtf d = true → t.screen.rest.utf8.state = 0

/-- The terminal after the first `k` bytes of a sequence. -/
def After (R : Reactions δ) (d : δ) (body : List UInt8) : Nat → Terminal α (Fields δ) → Prop
  | 0, t => Ready R d t
  | 1, t => Escaped d t
  | k + 2, t =>
      if k ≤ body.length then Collecting d (body.take k) t
      else if k = body.length + 1 then Escaped d t ∧ t.screen.termstate = .seenEsc
      else Attends d t.screen.rest ∧ t.screen.termstate = .toplevel

/-- `ESC`. -/
theorem outByte_esc (hesc : R.unitabCtrl 0x1b = 0x1b) (h : Ready R d t) :
    ∃ t', outByte R.emulator t 0x1b = (t', .next) ∧ Escaped d t' ∧
      (t.screen.termstate = .seenDcs → t'.screen.termstate = .seenEsc) := by
  have hpass : ∃ f, Attends d f ∧ outByte R.emulator t 0x1b =
      passChar R.emulator { t with screen := { t.screen with rest := f } } 0x1b .next := by
    by_cases hstate : t.screen.termstate = .toplevel
    · exact outByte_esc_toplevel R h.attends hstate hesc (h.between hstate)
    · exact outByte_of_state R h.attends hstate 0x1b
  obtain ⟨f, hf, hout⟩ := hpass
  obtain ⟨s, hs, hrest, hquery, hstate, hdcs⟩ := outChar_esc R
    (t := { t with screen := { t.screen with rest := f } }) hf h.obeys h.query
  refine ⟨_, hout.trans (passChar_next hs), ⟨attends_endPass R ?_, hstate.symm, hquery⟩, hdcs⟩
  have hscreen : ({ t with screen := s } : Terminal α (Fields δ)).screen.rest = f := hrest
  rw [hscreen]
  exact hf

/-- In the body an `ESC` is obeyed. -/
theorem Collecting.ready {q : List UInt8} (h : Collecting d q t) : Ready R d t where
  attends := h.attends
  obeys := .inl (by rw [h.state]; rfl)
  query hquery := by simp [h.state] at hquery
  between hstate := by simp [h.state] at hstate

/-- `ESC P`. -/
theorem outByte_dcs (h : Escaped d t) :
    ∃ t', outByte R.emulator t 0x50 = (t', .next) ∧ Collecting d [] t' := by
  obtain ⟨f, hf, hout⟩ := outByte_of_state R h.attends
    (by rcases h.state with hstate | hstate <;> simp [hstate]) 0x50
  have hchar := outChar_dcs R (t := { t with screen := { t.screen with rest := f } })
    ⟨hf, h.state, h.query⟩
  exact ⟨_, hout.trans (passChar_next hchar), attends_endPass R hf, rfl, rfl⟩

/-- A character of the body. -/
theorem outByte_body {q : List UInt8} (h : Collecting d q t) (hb : Printable b) :
    ∃ t' e, outByte R.emulator t b = (t', e) ∧
      (if q ++ [b] = tmuxIntroducer then e = .introducer
        else e = .next ∧ Collecting d (q ++ [b]) t') := by
  obtain ⟨f, hf, hout⟩ := outByte_of_state R h.attends (by simp [h.state]) b
  have hchar := outChar_body R (t := { t with screen := { t.screen with rest := f } })
    ⟨hf, h.state, h.escBuf⟩ hb
  rw [hout]
  by_cases hintro : q ++ [b] = tmuxIntroducer
  · rw [if_pos hintro] at hchar
    rw [passChar, hchar]
    exact ⟨_, _, rfl, by rw [if_pos hintro]⟩
  · rw [if_neg hintro] at hchar
    rw [passChar_next hchar]
    refine ⟨_, _, rfl, ?_⟩
    rw [if_neg hintro]
    exact ⟨rfl, attends_endPass R hf, h.state, rfl⟩

/-- `ESC \`. -/
theorem outByte_backslash (h : Escaped d t) (hstate : t.screen.termstate = .seenEsc) :
    ∃ t', outByte R.emulator t 0x5c = (t', .next) ∧ Attends d t'.screen.rest ∧
      t'.screen.termstate = .toplevel := by
  obtain ⟨f, hf, hout⟩ := outByte_of_state R h.attends (by simp [hstate]) 0x5c
  have hchar := outChar_backslash R (t := { t with screen := { t.screen with rest := f } })
    hstate h.query
  exact ⟨_, hout.trans (passChar_next hchar), attends_endPass R hf, rfl⟩

/-- The introducer is complete with the fifth byte of the body. -/
theorem take_succ_eq_tmuxIntroducer_iff :
    body.take (k + 1) = tmuxIntroducer ∧ k < body.length ↔ k = 4 ∧ tmuxIntroducer <+: body := by
  have hlength : tmuxIntroducer.length = 5 := rfl
  constructor
  · rintro ⟨htake, hk⟩
    have hlen := congrArg List.length htake
    rw [List.length_take, hlength] at hlen
    exact ⟨by omega, htake ▸ List.take_prefix _ _⟩
  · rintro ⟨rfl, hpre⟩
    have hle := hpre.length_le
    rw [hlength] at hle
    exact ⟨(List.prefix_iff_eq_take.mp hpre).symm, by omega⟩

/-- **One byte of the sequence**: control mode is entered with the fifth byte of the body if
that completes the introducer, and otherwise the terminal goes on. -/
theorem After.step (hesc : R.unitabCtrl 0x1b = 0x1b) (hbody : ∀ b ∈ body, Printable b)
    (h : After R d body k t) (hb : (dcsSequence body)[k]? = some b) :
    ∃ t' e, outByte R.emulator t b = (t', e) ∧
      (if k = 6 ∧ tmuxIntroducer <+: body then e = .introducer
        else e = .next ∧ After R d body (k + 1) t') := by
  match k with
  | 0 =>
      cases hb
      obtain ⟨t', hout, hnext, -⟩ := outByte_esc R hesc h
      exact ⟨t', _, hout, by rw [if_neg (by simp)]; exact ⟨rfl, hnext⟩⟩
  | 1 =>
      cases hb
      obtain ⟨t', hout, hnext⟩ := outByte_dcs R h
      refine ⟨t', _, hout, ?_⟩
      rw [if_neg (by simp)]
      refine ⟨rfl, ?_⟩
      rw [After, if_pos (Nat.zero_le _)]
      exact hnext
  | k + 2 =>
      have hbyte : (body ++ [0x1b, 0x5c])[k]? = some b := hb
      rcases Nat.lt_trichotomy k body.length with hk | hk | hk
      · -- in the body
        rw [List.getElem?_append_left hk] at hbyte
        have hcollect : Collecting d (body.take k) t := by
          rw [After, if_pos hk.le] at h
          exact h
        have htake : body.take k ++ [b] = body.take (k + 1) := by
          rw [List.take_add_one, hbyte]
          rfl
        obtain ⟨t', e, hout, hnext⟩ := outByte_body R hcollect (hbody b (List.mem_of_getElem? hbyte))
        rw [htake] at hnext
        refine ⟨t', e, hout, ?_⟩
        have hiff : body.take (k + 1) = tmuxIntroducer ↔ k + 2 = 6 ∧ tmuxIntroducer <+: body := by
          have h : body.take (k + 1) = tmuxIntroducer ∧ k < body.length ↔
              k = 4 ∧ tmuxIntroducer <+: body := take_succ_eq_tmuxIntroducer_iff
          rw [and_iff_left hk] at h
          rw [h]
          exact and_congr_left' (by omega)
        simp only [hiff] at hnext
        rw [After, if_pos (show k + 1 ≤ body.length from hk)]
        exact hnext
      · -- the `ESC` behind the body
        subst hk
        rw [List.getElem?_append_right le_rfl, Nat.sub_self] at hbyte
        cases hbyte
        have hcollect : Collecting d (body.take body.length) t := by
          rw [After, if_pos le_rfl] at h
          exact h
        obtain ⟨t', hout, hnext, hstate⟩ := outByte_esc R hesc (hcollect.ready R)
        refine ⟨t', _, hout, ?_⟩
        have hnot : ¬ (body.length + 2 = 6 ∧ tmuxIntroducer <+: body) := by
          rintro ⟨hlen, hpre⟩
          have hle : 5 ≤ body.length := hpre.length_le
          omega
        rw [if_neg hnot, After, if_neg (by omega), if_pos rfl]
        exact ⟨rfl, hnext, hstate hcollect.state⟩
      · -- the backslash
        have hlen : k - body.length < 2 := by
          rw [List.getElem?_append_right hk.le] at hbyte
          exact (List.getElem?_eq_some_iff.mp hbyte).1
        obtain rfl : k = body.length + 1 := by omega
        rw [List.getElem?_append_right (by omega), Nat.add_sub_cancel_left] at hbyte
        cases hbyte
        rw [After, if_neg (by omega), if_pos rfl] at h
        obtain ⟨t', hout, hnext⟩ := outByte_backslash R h.1 h.2
        refine ⟨t', _, hout, ?_⟩
        have hnot : ¬ (body.length + 1 + 2 = 6 ∧ tmuxIntroducer <+: body) := by
          rintro ⟨hlen, hpre⟩
          have hle : 5 ≤ body.length := hpre.length_le
          omega
        rw [if_neg hnot, After, if_neg (by omega), if_neg (by omega)]
        exact ⟨rfl, hnext⟩

theorem After.attends (h : After R d body k t) : Attends d t.screen.rest := by
  match k with
  | 0 => exact Ready.attends h
  | 1 => exact Escaped.attends h
  | k + 2 =>
      rw [After] at h
      split_ifs at h
      · exact h.attends
      · exact h.1.attends
      · exact h.1

/-- Only the screen and `esc_buf` matter. -/
theorem After.congr (h : After R d body k t) (hscreen : t'.screen.termstate = t.screen.termstate)
    (hquery : t'.screen.escQuery = t.screen.escQuery) (hbuf : t'.escBuf = t.escBuf)
    (hutf8 : t'.screen.rest.utf8 = t.screen.rest.utf8) (hrest : Attends d t'.screen.rest) :
    After R d body k t' := by
  match k with
  | 0 =>
      refine ⟨hrest, ?_, ?_, ?_⟩
      · rw [ObeysEsc, hscreen]
        exact Ready.obeys h
      · rw [hscreen, hquery]
        exact Ready.query h
      · rw [hscreen, hutf8]
        exact Ready.between h
  | 1 => exact ⟨hrest, hscreen ▸ Escaped.state h, hquery ▸ Escaped.query h⟩
  | k + 2 =>
      rw [After] at h ⊢
      split_ifs at h ⊢
      · exact ⟨hrest, hscreen ▸ h.state, hbuf ▸ h.escBuf⟩
      · exact ⟨⟨hrest, hscreen ▸ h.1.state, hquery ▸ h.1.query⟩, hscreen ▸ h.2⟩
      · exact ⟨hrest, hscreen ▸ h.2⟩

variable [Octet α]

/-- The bytes of `data` stand in the sequence from position `k` on. -/
def StandsAt (body : List UInt8) (k : Nat) (data : List α) : Prop :=
  ∀ j b, data[j]? = some b → (dcsSequence body)[k + j]? = some (octet b)

/-- The introducer is completed by one of the bytes from position `k` on. -/
def Completes (body : List UInt8) (k n : Nat) : Prop :=
  tmuxIntroducer <+: body ∧ k ≤ 6 ∧ 6 < k + n

theorem standsAt_append {xs ys : List α} (h : StandsAt body k (xs ++ ys)) :
    StandsAt body k xs ∧ StandsAt body (k + xs.length) ys := by
  constructor
  · intro j b hb
    refine h j b ?_
    rw [List.getElem?_append_left (List.getElem?_eq_some_iff.mp hb).1]
    exact hb
  · intro j b hb
    rw [Nat.add_assoc]
    refine h (xs.length + j) b ?_
    rw [List.getElem?_append_right (Nat.le_add_right _ _), Nat.add_sub_cancel_left]
    exact hb

omit [Octet α] in
theorem completes_add {m n : Nat} :
    Completes body k (m + n) ↔ Completes body k m ∨ Completes body (k + m) n := by
  rw [Completes, Completes, Completes, ← and_or_left]
  exact and_congr_right (fun _ => by omega)

/-- The loop, from the byte at position `used` of a granule on. -/
theorem After.scan {data : List α} (hesc : R.unitabCtrl 0x1b = 0x1b)
    (hbody : ∀ b ∈ body, Printable b) (hdata : StandsAt body k data) (n : Nat) {used : Nat}
    (hused : used + n = data.length) (h : After R d body (k + used) t) :
    (Completes body (k + used) n →
      ∃ t' b, Terminal.scan R.emulator n t ⟨data, used⟩ = (t', ⟨data, 6 - k + 1⟩, .introducer b)) ∧
    (¬ Completes body (k + used) n →
      ∃ t', Terminal.scan R.emulator n t ⟨data, used⟩ = (t', ⟨data, data.length⟩, .done) ∧
        After R d body (k + data.length) t' ∧ t'.inbuf = t.inbuf) := by
  induction n generalizing t used with
  | zero =>
      refine ⟨fun hc => absurd hc.2.2 (by have := hc.2.1; omega), fun _ => ⟨t, ?_, ?_, rfl⟩⟩
      · rw [Terminal.scan, ← hused, Nat.add_zero]
      · rwa [← hused]
  | succ n ih =>
      have hlt : used < data.length := by omega
      obtain ⟨b, hb⟩ : ∃ b, data[used]? = some b := ⟨_, List.getElem?_eq_getElem hlt⟩
      have hpending : R.emulator.resizePending t.screen.rest = false := h.attends.notResizing
      have hrefill : refill t (⟨data, used⟩ : ReadAhead α) = (t, ⟨data, used⟩) :=
        if_neg (by dsimp only; omega)
      obtain ⟨t₁, e, hout, hnext⟩ := h.step R hesc hbody (hdata used b hb)
      have hstop : e = .introducer → Terminal.scan R.emulator (n + 1) t ⟨data, used⟩ =
          (t₁, ⟨data, used + 1⟩, .introducer b) := by
        rintro rfl
        rw [Terminal.scan, hpending, if_neg (by simp), hrefill]
        simp only [hb, hout]
      have hgo : e = .next → Terminal.scan R.emulator (n + 1) t ⟨data, used⟩ =
          Terminal.scan R.emulator n t₁ ⟨data, used + 1⟩ := by
        rintro rfl
        rw [Terminal.scan, hpending, if_neg (by simp), hrefill]
        simp only [hb, hout]
      by_cases hintro : k + used = 6 ∧ tmuxIntroducer <+: body
      · -- the byte that completes the introducer
        rw [if_pos hintro] at hnext
        refine ⟨fun _ => ⟨t₁, b, ?_⟩, fun hnot => absurd ⟨hintro.2, by omega, by omega⟩ hnot⟩
        rw [hstop hnext]
        obtain rfl : used = 6 - k := by omega
        rfl
      · rw [if_neg hintro] at hnext
        obtain ⟨hnext, hafter⟩ := hnext
        rw [hgo hnext]
        have hiff : Completes body (k + used) (n + 1) ↔ Completes body (k + (used + 1)) n := by
          refine and_congr_right (fun hpre => ?_)
          have hne : k + used ≠ 6 := fun heq => hintro ⟨heq, hpre⟩
          omega
        have hinbuf : t₁.inbuf = t.inbuf := by
          have hframe := (outByte_frame R.emulator t (octet b)).1
          rwa [hout] at hframe
        rw [hiff, ← hinbuf]
        exact ih (by omega) hafter

/-- The terminal inside `term_data`, before the loop. -/
def begun (t : Terminal α (Fields δ)) (data : List α) : Terminal α (Fields δ) :=
  { t with inbuf := t.inbuf.add data, inTermOut := true }

/-- The loop in `term_data` on an empty `inbuf`. -/
theorem After.scan_begun {data : List α} (hesc : R.unitabCtrl 0x1b = 0x1b)
    (hbody : ∀ b ∈ body, Printable b) (hdata : StandsAt body k data) (h : After R d body k t)
    (hinbuf : t.inbuf = []) :
    (Completes body k data.length → ∃ t' b, Terminal.scan R.emulator (begun t data).inbuf.size
        (begun t data) ⟨[], 0⟩ = (t', ⟨data, 6 - k + 1⟩, .introducer b)) ∧
    (¬ Completes body k data.length → ∃ t', Terminal.scan R.emulator (begun t data).inbuf.size
        (begun t data) ⟨[], 0⟩ = (t', ⟨data, data.length⟩, .done) ∧
      After R d body (k + data.length) t' ∧ t'.inbuf = (begun t data).inbuf) := by
  have hbegun : After R d body (k + 0) (begun t data) := h.congr R rfl rfl rfl rfl h.attends
  have hloop := hbegun.scan R hesc hbody hdata data.length (Nat.zero_add _)
  rw [Nat.add_zero] at hloop
  have hsize : (begun t data).inbuf.size = data.length := by
    rw [Bufchain.size_eq, begun, Bufchain.content_add, hinbuf]
    rfl
  have hfirst : Terminal.scan R.emulator data.length (begun t data) ⟨[], 0⟩ =
      Terminal.scan R.emulator data.length (begun t data) ⟨data, 0⟩ := by
    cases data with
    | nil => rfl
    | cons b data =>
        have hchain : (begun t (b :: data)).inbuf = [Bufchain.newGranule (b :: data)] := by
          rw [begun, hinbuf]
          rfl
        have hconsume : (begun t (b :: data)).inbuf.consume 0 = (begun t (b :: data)).inbuf := by
          rw [hchain]
          rfl
        have hhead : (begun t (b :: data)).inbuf.headBytes = b :: data := by
          rw [hchain]
          rfl
        have hrefill : refill (begun t (b :: data)) ⟨[], 0⟩ =
            (begun t (b :: data), ⟨b :: data, 0⟩) := by
          simp only [refill, List.length_nil, if_true, hconsume, hhead]
        have hrefill' : refill (begun t (b :: data)) (⟨b :: data, 0⟩ : ReadAhead α) =
            (begun t (b :: data), ⟨b :: data, 0⟩) := if_neg (by simp)
        have hpending : R.emulator.resizePending (begun t (b :: data)).screen.rest = false :=
          h.attends.notResizing
        rw [List.length_cons, Terminal.scan, Terminal.scan, hrefill, hrefill', hpending,
          if_neg (by simp), if_neg (by simp)]
  rw [hsize, hfirst]
  exact hloop

/-- **A call of `term_data` without the end of the introducer.** -/
theorem After.feed {data : List α} (hesc : R.unitabCtrl 0x1b = 0x1b)
    (hbody : ∀ b ∈ body, Printable b) (hdata : StandsAt body k data) (h : After R d body k t)
    (hinbuf : t.inbuf = []) (hidle : t.inTermOut = false) (hnot : ¬ Completes body k data.length) :
    ∃ t', Terminal.feed R.emulator t data = some t' ∧ After R d body (k + data.length) t' ∧
      t'.inbuf = [] := by
  obtain ⟨t₁, hscan, hafter, hloop⟩ := (h.scan_begun R hesc hbody hdata hinbuf).2 hnot
  have hdrag : R.emulator.dragging t.screen.rest = false := by
    exact decide_eq_false h.attends.notDragging
  refine ⟨{ finish R.emulator t₁ ⟨data, data.length⟩ with inTermOut := false }, ?_, ?_, ?_⟩
  · rw [Terminal.feed]
    simp only [hidle, hdrag, Bool.false_eq_true, or_self, if_false]
    have hscan' : Terminal.scan R.emulator (t.inbuf.add data).size
        { t with inbuf := t.inbuf.add data, inTermOut := true } ⟨[], 0⟩ =
          (t₁, ⟨data, data.length⟩, .done) := hscan
    rw [hscan']
  · exact hafter.congr R rfl rfl rfl rfl hafter.attends.printFlush
  · -- the granule is used up
    have hfinish : (finish R.emulator t₁ ⟨data, data.length⟩).inbuf =
        t₁.inbuf.consume data.length := rfl
    rw [hfinish, hloop, begun, hinbuf]
    cases data with
    | nil => rfl
    | cons b data =>
        have hall : (Bufchain.newGranule (b :: data)).bytes.length ≤ (b :: data).length := le_rfl
        change Bufchain.consume [Bufchain.newGranule (b :: data)] (b :: data).length = []
        rw [Bufchain.consume, if_neg (by simp), if_pos hall, Bufchain.consume]

end Sequence

end Terminal
end Qutty
