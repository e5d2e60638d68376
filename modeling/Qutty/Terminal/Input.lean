import Qutty.Bufchain

/-!
# The input loop of the terminal

`term_out` of `puttysrc/terminal/terminal.c` reads `inbuf` granule by granule.
A granule stays in `inbuf` while its bytes are read, and is consumed when the
loop comes to the next one or ends.

The loop is modelled with the parts of the state machine that lead to tmux
control mode: the C1 and C0 controls, `ESC`, `ESC P` and the `SEEN_DCS` state,
which collects up to ten bytes and compares the first five with `1000p`.  The
rest of the emulation (character sets, printing, the display, the other escape
sequences) is the parameter `Emulator`.  It works on a state `ε` of its own, on
`termstate` and on `esc_query`, and never on `inbuf` or `esc_buf`.

`scan` runs the loop up to its end or up to the byte that completes an
introducer.  What happens then is not the terminal's business: see
`Qutty.Window.Backend`.
-/

namespace Qutty

/-- `termstate`, in the order of the source. -/
inductive TermState where
  | toplevel
  | seenEsc
  | seenCsi
  | seenOsc
  | seenOscW
  | seenDcs
  | doCtrls
  | seenOscP
  | oscString
  | oscMaybeSt
  | oscMaybeStUtf8
  | vt52Esc
  | vt52Y1
  | vt52Y2
  | vt52Fg
  | vt52Bg
deriving DecidableEq, Repr

/-- `termstate < DO_CTRLS`: control characters are obeyed. -/
def TermState.obeysControls : TermState → Bool
  | .toplevel | .seenEsc | .seenCsi | .seenOsc | .seenOscW | .seenDcs => true
  | _ => false

/-- The bits of `compatibility_level` that the loop asks for. -/
inductive Compat where
  | ansimin
  | vt220
  | other
deriving DecidableEq, Repr

/-- What `term_translate` makes of a byte. -/
inductive Translation where
  | incomplete
  | truncated
  | invalid
  | char (c : Nat)
deriving DecidableEq, Repr

/-- The state that escape sequences share with the rest of the emulation. -/
structure Screen (ε : Type) where
  termstate : TermState
  escQuery : Int
  rest : ε

/-- The emulation around the modelled part of the loop. -/
structure Emulator (ε : Type) where
  /-- `selstate == DRAGGING` -/
  dragging : ε → Bool
  /-- `win_resize_pending != WIN_RESIZE_NO` -/
  resizePending : ε → Bool
  /-- the printer; `true` in print-only mode, which swallows the byte -/
  print : ε → UInt8 → ε × Bool
  translate : ε → UInt8 → ε × Translation
  vt52Mode : ε → Bool
  hasCompat : ε → Compat → Bool
  /-- `\177` -/
  delete : ε → ε
  /-- C0 controls other than `ESC` -/
  control : Screen ε → Nat → Screen ε
  /-- `SEEN_ESC` and `OSC_MAYBE_ST` with a final byte other than that of `ESC P` -/
  escape : Screen ε → Nat → Screen ε
  /-- `TOPLEVEL` and the remaining states -/
  other : Screen ε → Nat → Screen ε
  /-- the selection check after each character -/
  checkSelection : ε → ε
  /-- `term_print_flush` -/
  printFlush : ε → ε

/-- The fields of `Terminal` that the loop works on. -/
structure Terminal (α ε : Type) where
  inbuf : Bufchain α
  inTermOut : Bool
  /-- `esc_buf` up to `esc_buf_len` -/
  escBuf : List UInt8
  screen : Screen ε

/-- `UCSERR`. -/
def ucsErr : Nat := 0xD961

/-- `sizeof(esc_buf)`. -/
def escBufSize : Nat := 10

/-- The introducer of control mode, after `ESC P`. -/
def tmuxIntroducer : List UInt8 := ascii ['1', '0', '0', '0', 'p']

/-- How a pass through the loop body ends. -/
inductive PassEnd where
  | next
  /-- `UCSTRUNCATED`: the byte is left in `unget` -/
  | again
  /-- `esc_buf` has become `1000p` -/
  | introducer
deriving DecidableEq, Repr

namespace Terminal

variable {α ε : Type}

/-- The C1 controls become `ESC` sequences. -/
def c1Control (E : Emulator ε) (s : Screen ε) (c : Nat) : Screen ε × Nat :=
  if c / 32 = 4 ∧ s.termstate.obeysControls ∧ E.vt52Mode s.rest = false ∧
      E.hasCompat s.rest .vt220 then
    if c = 0x9a then (s, 0)
    else ({ s with termstate := .seenEsc, escQuery := 0 }, 0x40 + c % 32)
  else (s, c)

/-- `ESC`. -/
def escControl (E : Emulator ε) (s : Screen ε) : Screen ε :=
  if E.vt52Mode s.rest then { s with termstate := .vt52Esc }
  else if s.termstate = .seenOsc ∨ s.termstate = .seenOscW then
    { s with termstate := .oscMaybeSt }
  else if E.hasCompat s.rest .ansimin then
    { s with termstate := .seenEsc, escQuery := 0 }
  else { s with termstate := .toplevel }

/-- `ANSI(c, esc_query) == 'P'`. -/
def isDcs (s : Screen ε) (c : Nat) : Bool :=
  decide ((c : Int) + s.escQuery * 256 = 0x50)

/-- The character `c` after translation: controls, or the state machine. -/
def outChar (E : Emulator ε) (t : Terminal α ε) (c : Nat) : Terminal α ε × PassEnd :=
  let (s, c) := c1Control E t.screen c
  if c = 0x7f ∧ s.termstate.obeysControls ∧ E.hasCompat s.rest .other then
    ({ t with screen := { s with rest := E.delete s.rest } }, .next)
  else if c < 32 ∧ s.termstate.obeysControls then
    ({ t with screen := if c = 0x1b then escControl E s else E.control s c }, .next)
  else
    match s.termstate with
    | .seenEsc | .oscMaybeSt =>
        if isDcs s c then
          ({ t with screen := { s with termstate := .seenDcs }, escBuf := [] }, .next)
        else ({ t with screen := E.escape s c }, .next)
    | .seenDcs =>
        if t.escBuf.length < escBufSize then
          let escBuf := t.escBuf ++ [c.toUInt8]
          ({ t with screen := s, escBuf := escBuf },
            if escBuf = tmuxIntroducer then .introducer else .next)
        else ({ t with screen := s }, .next)
    | _ => ({ t with screen := E.other s c }, .next)

/-- The selection check at the end of a pass. -/
def endPass (E : Emulator ε) (t : Terminal α ε) : Terminal α ε :=
  { t with screen := { t.screen with rest := E.checkSelection t.screen.rest } }

/-- The rest of a pass, for the character `c`. -/
def passChar (E : Emulator ε) (t : Terminal α ε) (c : Nat) (e : PassEnd) :
    Terminal α ε × PassEnd :=
  match outChar E t c with
  | (t, .introducer) => (t, .introducer)
  | (t, _) => (endPass E t, e)

/-- One pass through the loop body. -/
def outPass (E : Emulator ε) (t : Terminal α ε) (b : UInt8) : Terminal α ε × PassEnd :=
  let (rest, only) := E.print t.screen.rest b
  let t := { t with screen := { t.screen with rest := rest } }
  if only then (t, .next)
  else if t.screen.termstate = .toplevel then
    let (rest, tr) := E.translate t.screen.rest b
    let t := { t with screen := { t.screen with rest := rest } }
    match tr with
    | .incomplete => (t, .next)
    | .truncated => passChar E t ucsErr .again
    | .invalid => passChar E t ucsErr .next
    | .char c => passChar E t c .next
  else passChar E t b.toNat .next

/-- The passes for one byte.  `term_translate` leaves its multibyte state when
it reports `UCSTRUNCATED`, so that it does not report it twice in a row. -/
def outByte (E : Emulator ε) (t : Terminal α ε) (b : UInt8) : Terminal α ε × PassEnd :=
  match outPass E t b with
  | (t, .again) => outPass E t b
  | r => r

/-- `chars`, `nchars_got` (its length) and `nchars_used`. -/
structure ReadAhead (α : Type) where
  chars : List α
  used : Nat

/-- How the loop comes to a stop. -/
inductive ScanEnd (α : Type) where
  | done
  | introducer (b : α)

/-- The step to the next granule. -/
def refill (t : Terminal α ε) (l : ReadAhead α) : Terminal α ε × ReadAhead α :=
  if l.used = l.chars.length then
    let inbuf := t.inbuf.consume l.used
    ({ t with inbuf := inbuf }, ⟨inbuf.headBytes, 0⟩)
  else (t, l)

/-- The loop, with the number of bytes of `inbuf` that are still to be read. -/
def scan [Octet α] (E : Emulator ε) :
    Nat → Terminal α ε → ReadAhead α → Terminal α ε × ReadAhead α × ScanEnd α
  | 0, t, l => (t, l, .done)
  | n + 1, t, l =>
      if E.resizePending t.screen.rest then (t, l, .done)
      else
        let (t, l) := refill t l
        match l.chars[l.used]? with
        | none => (t, l, .done)
        | some b =>
            let l := ⟨l.chars, l.used + 1⟩
            match outByte E t (octet b) with
            | (t, .introducer) => (t, l, .introducer b)
            | (t, _) => scan E n t l

/-- The end of `term_out`. -/
def finish (E : Emulator ε) (t : Terminal α ε) (l : ReadAhead α) : Terminal α ε :=
  { t with inbuf := t.inbuf.consume l.used,
           screen := { t.screen with rest := E.printFlush t.screen.rest } }

/-- What `term_data` leaves behind if no introducer is completed in it. -/
def feed [Octet α] (E : Emulator ε) (t : Terminal α ε) (data : List α) :
    Option (Terminal α ε) :=
  let t := { t with inbuf := t.inbuf.add data }
  if t.inTermOut ∨ E.dragging t.screen.rest then some t
  else
    match scan E t.inbuf.size { t with inTermOut := true } ⟨[], 0⟩ with
    | (t, l, .done) => some { finish E t l with inTermOut := false }
    | (_, _, .introducer _) => none

/-- Successive `term_data` calls that complete no introducer. -/
def feeds [Octet α] (E : Emulator ε) : Terminal α ε → List (List α) → Option (Terminal α ε)
  | t, [] => some t
  | t, data :: rest => (feed E t data).bind (fun t => feeds E t rest)

section Lemmas

variable (E : Emulator ε) (t : Terminal α ε)

/-- Whatever a character does, it leaves `inbuf` and `in_term_out` alone. -/
theorem outChar_frame (c : Nat) :
    (outChar E t c).1.inbuf = t.inbuf ∧ (outChar E t c).1.inTermOut = t.inTermOut := by
  unfold outChar
  dsimp only
  split
  · exact ⟨rfl, rfl⟩
  · split
    · exact ⟨rfl, rfl⟩
    · split
      · split <;> exact ⟨rfl, rfl⟩
      · split <;> exact ⟨rfl, rfl⟩
      · split <;> exact ⟨rfl, rfl⟩
      · exact ⟨rfl, rfl⟩

theorem passChar_frame (c : Nat) (e : PassEnd) :
    (passChar E t c e).1.inbuf = t.inbuf ∧
      (passChar E t c e).1.inTermOut = t.inTermOut := by
  have h := outChar_frame E t c
  unfold passChar
  split
  · rename_i heq
    rw [heq] at h
    exact h
  · rename_i heq
    rw [heq] at h
    exact h

theorem outPass_frame (b : UInt8) :
    (outPass E t b).1.inbuf = t.inbuf ∧ (outPass E t b).1.inTermOut = t.inTermOut := by
  unfold outPass
  dsimp only
  split_ifs
  · exact ⟨rfl, rfl⟩
  · split
    · exact ⟨rfl, rfl⟩
    · exact passChar_frame E _ _ _
    · exact passChar_frame E _ _ _
    · exact passChar_frame E _ _ _
  · exact passChar_frame E _ _ _

theorem outByte_frame (b : UInt8) :
    (outByte E t b).1.inbuf = t.inbuf ∧ (outByte E t b).1.inTermOut = t.inTermOut := by
  have h := outPass_frame E t b
  unfold outByte
  split
  · rename_i t' heq
    rw [heq] at h
    have h' := outPass_frame E t' b
    exact ⟨h'.1.trans h.1, h'.2.trans h.2⟩
  · exact h

variable [Octet α]

/-- The granule that is being read is still in `inbuf`; so the byte that
completes an introducer is there too. -/
theorem scan_introducer {n : Nat} {t t' : Terminal α ε} {l l' : ReadAhead α} {b : α}
    (hl : l.used = l.chars.length ∨ l.chars <+: t.inbuf.content)
    (hs : scan E n t l = (t', l', .introducer b)) : b ∈ t'.inbuf.content := by
  induction n generalizing t l with
  | zero => simp [scan] at hs
  | succ n ih =>
      have hr : (refill t l).2.chars <+: (refill t l).1.inbuf.content := by
        unfold refill
        split_ifs with hu
        · obtain ⟨rest, hrest⟩ := Bufchain.content_eq_headBytes (t.inbuf.consume l.used)
          exact ⟨rest, hrest.symm⟩
        · exact hl.resolve_left hu
      simp only [scan] at hs
      split_ifs at hs
      · simp at hs
      · split at hs
        · simp at hs
        · rename_i c hc
          have hf := (outByte_frame E (refill t l).1 (octet c)).1
          split at hs
          · rename_i t₁ heq
            simp only [Prod.mk.injEq, ScanEnd.introducer.injEq] at hs
            obtain ⟨rfl, -, rfl⟩ := hs
            rw [heq] at hf
            rw [hf]
            exact hr.subset (List.mem_of_getElem? hc)
          · rename_i t₁ e hne heq
            rw [heq] at hf
            refine ih (.inr ?_) hs
            rw [hf]
            exact hr

theorem feeds_append (xs ys : List (List α)) :
    feeds E t (xs ++ ys) = (feeds E t xs).bind (fun t => feeds E t ys) := by
  induction xs generalizing t with
  | nil => rfl
  | cons data xs ih =>
      cases hf : feed E t data with
      | none => simp [feeds, hf]
      | some t' => simp [feeds, hf, ih]

end Lemmas

end Terminal

end Qutty
