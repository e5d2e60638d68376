import Qutty.Lib.Tokens
import Qutty.Tmux.LayoutDump
import Qutty.Tmux.Realisation

/-!
# Window lists

The records of `resp_hdlr_list_windows` and `resp_hdlr_open_listed_windows`.  tmux
separates the fields by tabs; the reader takes words, a character and numbers, so that a
blank in a name, or an empty name, moves all later fields.

`Spells` says that a text begins with the tokens of a record.  A record is read with the
values of its window exactly if its line spells them (`recordOutcome_iff`), and the line
of a window does so in two cases (`spells_line_iff`): the names are single words, or the
session is named like the whole record.
-/

namespace Qutty
namespace Tmux

open Lib Lib.Istream TmuxLayout

/-- A name of tmux: no NUL, tab or newline. -/
structure Name where
  bytes : List UInt8
  plain : ∀ b ∈ bytes, b ≠ 0 ∧ b ≠ 9 ∧ b ≠ 10

/-- A window as tmux lists it. -/
structure Window where
  session : Name
  id : UInt32
  name : Name
  width : UInt32
  height : UInt32
  checksum : UInt16
  tree : LayoutTree
  flags : Name
  active : Bool

/-- The arguments of `createNewWindow`. -/
structure WindowCall where
  id : Int
  name : List UInt8
  width : Int
  height : Int
  layout : List UInt8
deriving DecidableEq

namespace Window

/-- A lower case hexadecimal digit. -/
def hexDigit (n : Nat) : UInt8 := (if n < 10 then 48 + n else 87 + n).toUInt8

/-- `%04x,`. -/
def checksumText (n : UInt16) : List UInt8 :=
  [hexDigit (n.toNat / 4096 % 16), hexDigit (n.toNat / 256 % 16), hexDigit (n.toNat / 16 % 16),
    hexDigit (n.toNat % 16), octetOf ',']

/-- `#{window_layout}`. -/
def layout (w : Window) : List UInt8 := checksumText w.checksum ++ w.tree.text

/-- The fields of a record; `flags` is whether it has the field of flags. -/
def fields (flags : Bool) (w : Window) : List (List UInt8) :=
  [w.session.bytes, octetOf '@' :: numeralBytes w.id.toNat, w.name.bytes,
    numeralBytes w.width.toNat, numeralBytes w.height.toNat, w.layout] ++
    (if flags then [w.flags.bytes] else []) ++ [numeralBytes (if w.active then 1 else 0)]

/-- The line of a window. -/
def line (flags : Bool) (w : Window) : List UInt8 := List.intercalate [9] (w.fields flags)

/-- The call that opens a window. -/
def call (w : Window) : WindowCall :=
  ⟨w.id.toNat, w.name.bytes, w.width.toNat, w.height.toNat, w.layout⟩

/-- The response to a window list. -/
def response (flags : Bool) (windows : List Window) : List UInt8 :=
  (windows.map (fun w => w.line flags ++ [10])).flatten

end Window

section Calls

/-- The arguments that a record holds. -/
def WindowRecord.call (r : WindowRecord) : WindowCall :=
  ⟨r.wndid, cString r.wndname, r.width, r.height, r.layout⟩

/-- What a record makes of a line: a call, or nothing if there is no `@`. -/
def recordOutcome (flags : Bool) (line : List UInt8) (r : WindowRecord) : Option WindowCall :=
  if (readRecord flags line r).ch = octetOf '@' then some (readRecord flags line r).call
  else none

/-- The calls of the loop over the records. -/
def windowCalls (flags : Bool) : List (List UInt8) → WindowRecord → List WindowCall
  | [], _ => []
  | line :: lines, r =>
      match recordOutcome flags line r with
      | none => []
      | some call => call :: windowCalls flags lines (readRecord flags line r)

variable (plat : Platform)

/-- Calls of `createNewWindow`, until one ends the program. -/
def makeCalls : List WindowCall → Client → Handled
  | [], c => (c, [])
  | call :: calls, c =>
      let (c, cs) := createNewWindow plat call.id call.name call.layout c
      if c.stopped then (c, cs)
      else
        let (c, cs') := makeCalls calls c
        (c, cs ++ cs')

/-- The loop makes its calls. -/
theorem respWindows_eq (flags : Bool) (lines : List (List UInt8)) (r : WindowRecord)
    (c : Client) : respWindows plat flags lines r c = makeCalls plat (windowCalls flags lines r) c := by
  induction lines generalizing r c with
  | nil => rfl
  | cons line lines ih =>
      rw [respWindows, windowCalls, recordOutcome]
      by_cases hch : (readRecord flags line r).ch = octetOf '@'
      · simp only [hch, ne_eq, not_true_eq_false, if_false, if_true]
        rw [makeCalls]
        simp only [ih]
        rfl
      · simp only [hch, ne_eq, not_false_eq_true, if_true, if_false]
        rfl

end Calls

section Reading

/-- The tokens of a record up to its layout. -/
def recordKinds : List TokenKind := [.word, .char, .int, .word, .int, .int, .word]

/-- A text begins with the tokens of a record. -/
def Spells (call : WindowCall) (text : List UInt8) : Prop :=
  ∃ session rest, tokensAt recordKinds text =
    some ([.word session, .char (octetOf '@'), .int call.id, .word call.name, .int call.width,
      .int call.height, .word call.layout], rest)

/-- The part of `readRecord` behind the `@`. -/
def readFields (flags : Bool) (s : Istream) (r : WindowRecord) : WindowRecord :=
  let (wndid, s) := s.readIntInto r.wndid
  let (wndname, s) := s.readWordInto r.wndname
  let (width, s) := s.readIntInto r.width
  let (height, s) := s.readIntInto r.height
  let (layout, s) := s.readWordInto r.layout
  let (wndflags, s) := if flags then s.readWordInto r.wndflags else (r.wndflags, s)
  let (wndactive, _) := s.readIntInto r.wndactive
  { r with wndid := wndid, wndname := wndname, width := width, height := height,
           layout := layout, wndflags := wndflags, wndactive := wndactive }

theorem readRecord_eq (flags : Bool) (line : List UInt8) (r : WindowRecord) :
    readRecord flags line r =
      let (sessname, s) := (Istream.ofString line).readWordInto r.sessname
      let (ch, s) := s.readCharInto r.ch
      if ch ≠ octetOf '@' then { r with sessname := sessname, ch := ch }
      else readFields flags s { r with sessname := sessname, ch := ch } := rfl

section Fields

variable (flags : Bool) {s : Istream} {text rest : List UInt8} (r : WindowRecord)

theorem readFields_ch (s : Istream) : (readFields flags s r).ch = r.ch := rfl

theorem readFields_layout (s : Istream) : (readFields flags s r).layout =
    (((((s.readIntInto r.wndid).2.readWordInto r.wndname).2.readIntInto r.width).2.readIntInto
      r.height).2.readWordInto r.layout).1 := by
  rw [readFields]

/-- The tokens of the fields are the arguments of a call. -/
theorem fieldTokens {ts : List Token}
    (h : tokensAt [.int, .word, .int, .int, .word] text = some (ts, rest)) :
    ∃ call : WindowCall, ts = [.int call.id, .word call.name, .int call.width, .int call.height,
      .word call.layout] := by
  simp only [tokensAt, tokenAt, Option.bind_eq_some_iff, Option.map_eq_some_iff] at h
  obtain ⟨_, ⟨id, -, rfl⟩, _, ⟨_, ⟨name, -, rfl⟩, _, ⟨_, ⟨width, -, rfl⟩, _, ⟨_, ⟨height, -, rfl⟩,
    _, ⟨_, ⟨layout, -, rfl⟩, _, hend, rfl⟩, rfl⟩, rfl⟩, rfl⟩, hts⟩ := h
  cases hend
  cases hts
  exact ⟨⟨id.1, name.1, width.1, height.1, layout.1⟩, rfl⟩

/-- The fields that are there are read. -/
theorem readFields_some (hs : s.Ready text) {call : WindowCall}
    (h : tokensAt [.int, .word, .int, .int, .word] text =
      some ([.int call.id, .word call.name, .int call.width, .int call.height,
        .word call.layout], rest)) :
    (readFields flags s r).call = { call with name := cString call.name } := by
  simp only [tokensAt_cons, tokenAt_int, tokenAt_word] at h
  obtain ⟨t₁, hid, t₂, hname, t₃, hwidth, t₄, hheight, t₅, hlayout, -⟩ := h
  rw [readFields]
  simp only [hs.readIntInto_some hid, (ready_mk t₁).readWordInto_some hname,
    (ready_mk t₂).readIntInto_some hwidth, (ready_mk t₃).readIntInto_some hheight,
    (ready_mk t₄).readWordInto_some hlayout]
  rfl

/-- If one is missing, the layout stays as it was. -/
theorem readFields_none (hs : s.Ready text)
    (h : tokensAt [.int, .word, .int, .int, .word] text = none) :
    (readFields flags s r).layout = r.layout := by
  rw [readFields_layout]
  cases hid : intAt text with
  | none =>
      have hfail := hs.readIntInto_none hid r.wndid
      have hfail₁ := (readWordInto_of_fail hfail r.wndname).2
      have hfail₂ := (readIntInto_of_fail hfail₁ r.width).2
      exact (readWordInto_of_fail (readIntInto_of_fail hfail₂ r.height).2 r.layout).1
  | some p₁ =>
      obtain ⟨id, t₁⟩ := p₁
      rw [hs.readIntInto_some hid]
      cases hname : wordAt t₁ with
      | none =>
          have hfail₁ := ((ready_mk t₁).readWordInto_none hname r.wndname).2
          have hfail₂ := (readIntInto_of_fail hfail₁ r.width).2
          exact (readWordInto_of_fail (readIntInto_of_fail hfail₂ r.height).2 r.layout).1
      | some p₂ =>
          obtain ⟨name, t₂⟩ := p₂
          rw [(ready_mk t₁).readWordInto_some hname]
          cases hwidth : intAt t₂ with
          | none =>
              have hfail₂ := (ready_mk t₂).readIntInto_none hwidth r.width
              exact (readWordInto_of_fail (readIntInto_of_fail hfail₂ r.height).2 r.layout).1
          | some p₃ =>
              obtain ⟨width, t₃⟩ := p₃
              rw [(ready_mk t₂).readIntInto_some hwidth]
              cases hheight : intAt t₃ with
              | none =>
                  exact (readWordInto_of_fail ((ready_mk t₃).readIntInto_none hheight r.height)
                    r.layout).1
              | some p₄ =>
                  obtain ⟨height, t₄⟩ := p₄
                  rw [(ready_mk t₃).readIntInto_some hheight]
                  cases hlayout : wordAt t₄ with
                  | none => exact ((ready_mk t₄).readWordInto_none hlayout r.layout).1
                  | some p₅ =>
                      simp [tokensAt, tokenAt, hid, hname, hwidth, hheight, hlayout] at h

end Fields

section Lines

variable (flags : Bool) {line : List UInt8} (r : WindowRecord)

theorem readRecord_some {session t₁ t₂ : List UInt8} {c : UInt8}
    (hword : wordAt line = some (session, t₁)) (hchar : charAt t₁ = some (c, t₂)) :
    readRecord flags line r =
      if c ≠ octetOf '@' then { r with sessname := session, ch := c }
      else readFields flags ⟨t₂, false, false⟩ { r with sessname := session, ch := c } := by
  rw [readRecord_eq, (ready_ofString line).readWordInto_some hword]
  simp only [(ready_mk t₁).readCharInto_some hchar]

/-- Without the character the record keeps the one that it has. -/
theorem readRecord_none (h : ∀ session t₁ c t₂, wordAt line = some (session, t₁) →
    charAt t₁ ≠ some (c, t₂)) (hch : r.ch ≠ octetOf '@') : (readRecord flags line r).ch = r.ch := by
  have hold : (((ofString line).readWordInto r.sessname).2.readCharInto r.ch).1 = r.ch := by
    cases hword : wordAt line with
    | none =>
        exact readCharInto_of_fail
          ((ready_ofString line).readWordInto_none hword r.sessname).2 r.ch
    | some p =>
        rw [(ready_ofString line).readWordInto_some hword]
        refine (ready_mk p.2).readCharInto_none ?_ r.ch
        cases hchar : charAt p.2 with
        | none => rfl
        | some q => exact absurd hchar (h p.1 p.2 q.1 q.2 hword)
  rw [readRecord_eq]
  generalize (ofString line).readWordInto r.sessname = word at hold
  obtain ⟨session, s⟩ := word
  dsimp only at hold ⊢
  generalize s.readCharInto r.ch = char at hold
  obtain ⟨c, s⟩ := char
  dsimp only at hold ⊢
  subst hold
  rw [if_pos hch]

/-- A record is read from its tokens, or keeps the layout that it has. -/
theorem recordOutcome_cases {call : WindowCall} (hch : r.ch ≠ octetOf '@')
    (h : recordOutcome flags line r = some call) :
    call.layout = r.layout ∨
      ∃ call', Spells call' line ∧ call = { call' with name := cString call'.name } := by
  by_cases hchar : ∃ session t₁ c t₂, wordAt line = some (session, t₁) ∧ charAt t₁ = some (c, t₂)
  · obtain ⟨session, t₁, c, t₂, hword, hchar⟩ := hchar
    rw [recordOutcome, readRecord_some flags r hword hchar] at h
    by_cases hc : c = octetOf '@'
    · subst hc
      simp only [ne_eq, not_true_eq_false, if_false, readFields_ch, if_true,
        Option.some.injEq] at h
      rcases Option.eq_none_or_eq_some (tokensAt [.int, .word, .int, .int, .word] t₂) with
        hmore | ⟨⟨ts, rest⟩, hmore⟩
      · exact .inl (h ▸ readFields_none flags _ (ready_mk_false t₂) hmore)
      · obtain ⟨call', rfl⟩ := fieldTokens hmore
        refine .inr ⟨call', ⟨session, rest, ?_⟩, ?_⟩
        · rw [recordKinds, tokensAt_cons]
          refine ⟨t₁, tokenAt_word.mpr hword, tokensAt_cons.mpr ⟨t₂, tokenAt_char.mpr hchar, hmore⟩⟩
        · exact h ▸ readFields_some flags _ (ready_mk_false t₂) hmore
    · simp [hc] at h
  · push Not at hchar
    rw [recordOutcome, readRecord_none flags r hchar hch, if_neg hch] at h
    cases h

end Lines

/-- A name is not cut off if the text has no NUL. -/
theorem Spells.plain_name {call : WindowCall} {line : List UInt8} (h : Spells call line)
    (hline : ∀ b ∈ line, b ≠ 0) : cString call.name = call.name := by
  obtain ⟨session, rest, hts⟩ := h
  simp only [recordKinds, tokensAt_cons, tokenAt_int, tokenAt_word, tokenAt_char] at hts
  obtain ⟨t₁, hword, t₂, hchar, t₃, hid, t₄, hname, -⟩ := hts
  refine cString_eq_self (fun b hb => hline b ?_)
  have hmem := (wordAt_word hname).2.2.1 b hb
  exact (wordAt_suffix hword).subset ((charAt_suffix hchar).subset
    (List.mem_cons_of_mem _ ((intAt_suffix hid).subset hmem)))

/-- The record of a line is read with the values of a call, whatever the variables hold,
exactly if the line spells them. -/
theorem recordOutcome_iff (flags : Bool) {line : List UInt8} (hline : ∀ b ∈ line, b ≠ 0)
    (call : WindowCall) :
    (∀ r, recordOutcome flags line r = some call) ↔ Spells call line := by
  constructor
  · intro h
    -- variables that give the missing fields away
    have hch : (0 : UInt8) ≠ octetOf '@' := by decide
    rcases recordOutcome_cases flags ⟨[], 0, 0, [], 0, 0, 0 :: call.layout, [], 0⟩ hch (h _) with
      hold | ⟨call', hspells, rfl⟩
    · simp at hold
    · rw [hspells.plain_name hline]
      exact hspells
  · intro hspells r
    have hname := hspells.plain_name hline
    obtain ⟨session, rest, hts⟩ := hspells
    rw [recordKinds, tokensAt_cons] at hts
    obtain ⟨t₁, hword, hts⟩ := hts
    rw [tokensAt_cons] at hts
    obtain ⟨t₂, hchar, hmore⟩ := hts
    rw [tokenAt_word] at hword
    rw [tokenAt_char] at hchar
    rw [recordOutcome, readRecord_some flags r hword hchar]
    simp only [ne_eq, not_true_eq_false, if_false, readFields_ch, if_true, Option.some.injEq]
    rw [readFields_some flags _ (ready_mk_false t₂) hmore, hname]

end Reading

section Windows

theorem isBlank_tab : isBlank 9 = true := rfl

variable {ks : List TokenKind} {ts : List Token} {b rest : List UInt8}

/-- A text that begins with an `@` has no number in front. -/
theorem tokensAt_int_at (text : List UInt8) :
    tokensAt (.int :: ks) (octetOf '@' :: text) = none :=
  tokensAt_int_none (by decide) (by decide) (by decide) (by decide) text

theorem at_not_mem_numeralBytes (n : Nat) : octetOf '@' ∉ numeralBytes n := by
  intro h
  have hmem := List.mem_map_of_mem (f := UInt8.toNat) h
  rw [toNat_numeralBytes] at hmem
  rcases mem_intNumeral hmem with h | h
  · exact absurd h (by decide)
  · exact absurd h.2 (by decide)

theorem not_blank_numeralBytes (n : Nat) : ¬ Blank (numeralBytes n) := by
  intro hblank
  obtain ⟨c, cs, hcons, hspace⟩ := intNumeral_head n
  have hbytes := toNat_numeralBytes n
  cases hx : numeralBytes n with
  | nil => simp [hx, hcons] at hbytes
  | cons x xs =>
      rw [hx, hcons, List.map_cons, List.cons.injEq] at hbytes
      rw [hx] at hblank
      have hxblank := hblank x List.mem_cons_self
      rw [isBlank, hbytes.1, hspace] at hxblank
      cases hxblank

/-- A word in a numeral is no name with an `@`. -/
theorem not_word_of_numeral {n : Nat} {w : List UInt8} (hat : octetOf '@' ∈ w) :
    tokensAt (.word :: ks) (numeralBytes n ++ 9 :: b) ≠ some (.word w :: ts, rest) := by
  intro h
  rcases (tokensAt_cons_before isBlank_tab).mp h with ⟨hblank, -⟩ | ⟨a', hword, -⟩
  · exact not_blank_numeralBytes n hblank
  · exact at_not_mem_numeralBytes n ((wordAt_word (tokenAt_word.mp hword)).2.2.1 _ hat)

/-- Texts without white space, an `@` and NUL. -/
def Solid (text : List UInt8) : Prop :=
  ∀ b ∈ text, isBlank b = false ∧ b ≠ octetOf '@' ∧ b ≠ 0

theorem Solid.append {a b : List UInt8} (ha : Solid a) (hb : Solid b) : Solid (a ++ b) := by
  intro c hc
  rcases List.mem_append.mp hc with h | h
  · exact ha c h
  · exact hb c h

theorem Solid.cons {c : UInt8} {a : List UInt8} (hc : isBlank c = false ∧ c ≠ octetOf '@' ∧ c ≠ 0)
    (ha : Solid a) : Solid (c :: a) := by
  intro b hb
  rcases List.mem_cons.mp hb with rfl | h
  · exact hc
  · exact ha b h

theorem solid_numeralBytes (n : Nat) : Solid (numeralBytes n) := by
  intro b hb
  have hmem := List.mem_map_of_mem (f := UInt8.toNat) hb
  rw [toNat_numeralBytes] at hmem
  refine ⟨?_, fun h => at_not_mem_numeralBytes n (h ▸ hb), ?_⟩
  swap
  · rintro rfl
    rcases mem_intNumeral hmem with h | h
    · exact absurd h (by decide)
    · exact absurd h.1 (by decide)
  rw [isBlank]
  rcases mem_intNumeral hmem with h | h
  · rw [h]
    rfl
  · have hno : ¬ (b.toNat = 32 ∨ (9 ≤ b.toNat ∧ b.toNat ≤ 13)) := by omega
    simp [isSpace, hno]

theorem solid_dimsText (width height x y : Nat) {rest : List UInt8} (h : Solid rest) :
    Solid (dimsText width height x y rest) := by
  rw [dimsText]
  exact (solid_numeralBytes width).append (.cons (by decide) ((solid_numeralBytes height).append
    (.cons (by decide) ((solid_numeralBytes x).append (.cons (by decide)
      ((solid_numeralBytes y).append h))))))

mutual

theorem solid_text (t : LayoutTree) : Solid t.text := by
  cases t with
  | pane width height x y paneid =>
      rw [LayoutTree.text]
      exact solid_dimsText _ _ _ _ (.cons (by decide) (solid_numeralBytes _))
  | split width height x y vertical first others =>
      rw [LayoutTree.text]
      refine solid_dimsText _ _ _ _ (.cons ?_ ((solid_text first).append
        ((solid_textOthers others).append (.cons ?_ (fun _ h => absurd h (by simp))))))
      · cases vertical <;> decide
      · cases vertical <;> decide

theorem solid_textOthers (ts : List LayoutTree) : Solid (LayoutTree.textOthers ts) := by
  cases ts with
  | nil =>
      rw [LayoutTree.textOthers]
      exact fun _ h => absurd h (by simp)
  | cons t ts =>
      rw [LayoutTree.textOthers]
      exact .cons (by decide) ((solid_text t).append (solid_textOthers ts))

end

theorem solid_hexDigit : ∀ n < 16, isBlank (Window.hexDigit n) = false ∧
    Window.hexDigit n ≠ octetOf '@' ∧ Window.hexDigit n ≠ 0 := by
  decide

namespace Window

/-- The names are single words, and the numbers are small enough for an `int`. -/
structure Plain (w : Window) : Prop where
  session : ∃ word rest, wordAt w.session.bytes = some (word, rest) ∧ Blank rest
  name : w.name.bytes ≠ [] ∧ ∀ b ∈ w.name.bytes, isBlank b = false
  id : w.id.toNat < 2 ^ 31
  width : w.width.toNat < 2 ^ 31
  height : w.height.toNat < 2 ^ 31

/-- What follows the layout in a line. -/
def lineEnd (flags : Bool) (w : Window) : List UInt8 :=
  List.intercalate [9] ((if flags then [w.flags.bytes] else []) ++
    [numeralBytes (if w.active then 1 else 0)])

theorem line_eq (flags : Bool) (w : Window) : w.line flags =
    w.session.bytes ++ 9 :: (octetOf '@' :: numeralBytes w.id.toNat ++ 9 :: (w.name.bytes ++
      9 :: (numeralBytes w.width.toNat ++ 9 :: (numeralBytes w.height.toNat ++ 9 :: (w.layout ++
        9 :: w.lineEnd flags))))) := by
  cases flags <;> simp [line, fields, lineEnd, List.intercalate]

theorem solid_layout (w : Window) : Solid w.layout := by
  have hdigit : ∀ n, isBlank (hexDigit (n % 16)) = false ∧ hexDigit (n % 16) ≠ octetOf '@' ∧
      hexDigit (n % 16) ≠ 0 :=
    fun n => solid_hexDigit _ (Nat.mod_lt n (by norm_num))
  refine Solid.append ?_ (solid_text w.tree)
  rw [checksumText]
  exact .cons (hdigit _) (.cons (hdigit _) (.cons (hdigit _) (.cons (hdigit _)
    (.cons (by decide) (fun _ h => absurd h (by simp))))))

theorem layout_ne_nil (w : Window) : w.layout ≠ [] := by
  simp [layout, checksumText]

/-- The tokens of the fields of a record. -/
def fieldTokens (w : Window) : List Token :=
  [.int w.id.toNat, .word w.name.bytes, .int w.width.toNat, .int w.height.toNat, .word w.layout]

section Parts

variable (w : Window) {more rest : List UInt8}

theorem spells_iff {text : List UInt8} : Spells w.call text ↔ ∃ session rest,
    tokensAt recordKinds text =
      some (.word session :: .char (octetOf '@') :: w.fieldTokens, rest) := Iff.rfl

/-- The fields behind the `@`, in the line of a window. -/
theorem fieldTokens_iff :
    (∃ rest, tokensAt [.int, .word, .int, .int, .word] (numeralBytes w.id.toNat ++ 9 ::
      (w.name.bytes ++ 9 :: (numeralBytes w.width.toNat ++ 9 :: (numeralBytes w.height.toNat ++
        9 :: (w.layout ++ 9 :: more))))) = some (w.fieldTokens, rest)) ↔
      w.id.toNat < 2 ^ 31 ∧ (w.name.bytes ≠ [] ∧ ∀ b ∈ w.name.bytes, isBlank b = false) ∧
        w.width.toNat < 2 ^ 31 ∧ w.height.toNat < 2 ^ 31 := by
  have htab : ∀ (k : TokenKind) (ks : List TokenKind) (b : List UInt8),
      tokensAt (k :: ks) (9 :: b) = tokensAt (k :: ks) b :=
    fun k ks b => tokensAt_blank (a := [9]) (blank_singleton isBlank_tab)
  have hlayout : tokensAt [.word] (w.layout ++ 9 :: more) = some ([.word w.layout], 9 :: more) :=
    (tokensAt_word w.layout_ne_nil (fun b hb => (w.solid_layout b hb).1) isBlank_tab).mpr
      ⟨rfl, rfl⟩
  simp only [fieldTokens, tokensAt_numeral isBlank_tab, htab, true_and]
  constructor
  · rintro ⟨rest, hid, h⟩
    have hname : w.name.bytes ≠ [] ∧ ∀ b ∈ w.name.bytes, isBlank b = false := by
      obtain ⟨t, hword, -⟩ := tokensAt_cons.mp h
      have hfacts := wordAt_word (tokenAt_word.mp hword)
      exact ⟨hfacts.1, hfacts.2.2.2⟩
    simp only [tokensAt_word hname.1 hname.2 isBlank_tab, htab, tokensAt_numeral isBlank_tab,
      true_and] at h
    exact ⟨hid, hname, h.1, h.2.1⟩
  · rintro ⟨hid, hname, hwidth, hheight⟩
    refine ⟨9 :: more, hid, ?_⟩
    simp only [tokensAt_word hname.1 hname.2 isBlank_tab, htab, tokensAt_numeral isBlank_tab,
      true_and, hlayout, hwidth, hheight]

/-- Moved by one field, a name is never read as what it is. -/
theorem not_shifted (h : tokensAt [.char, .int, .word, .int, .int, .word] (w.name.bytes ++ 9 ::
    (numeralBytes w.width.toNat ++ 9 :: (numeralBytes w.height.toNat ++ 9 :: more))) =
      some (.char (octetOf '@') :: w.fieldTokens, rest)) : False := by
  obtain ⟨hne, hsolid⟩ : w.name.bytes ≠ [] ∧ ∀ b ∈ w.name.bytes, isBlank b = false := by
    obtain ⟨t₁, -, h₁⟩ := tokensAt_cons.mp h
    obtain ⟨t₂, -, h₂⟩ := tokensAt_cons.mp h₁
    obtain ⟨t₃, hword, -⟩ := tokensAt_cons.mp h₂
    have hfacts := wordAt_word (tokenAt_word.mp hword)
    exact ⟨hfacts.1, hfacts.2.2.2⟩
  obtain ⟨c, cs, hname⟩ := List.exists_cons_of_ne_nil hne
  rw [hname] at hsolid h
  obtain ⟨t₁, hchar, h⟩ := tokensAt_cons.mp h
  rw [tokenAt_char, List.cons_append, charAt_cons (hsolid c List.mem_cons_self)] at hchar
  cases hchar
  have hat : octetOf '@' ∈ w.name.bytes := hname ▸ List.mem_cons_self
  rcases (tokensAt_cons_before isBlank_tab).mp h with ⟨-, h⟩ | ⟨a₂, hint, h⟩
  · -- the number is the width
    rcases (tokensAt_cons_before isBlank_tab).mp h with ⟨hblank, -⟩ | ⟨a₃, hint, h⟩
    · exact not_blank_numeralBytes _ hblank
    · rcases (tokensAt_cons_before isBlank_tab).mp h with ⟨-, h⟩ | ⟨a₄, hword, -⟩
      · exact not_word_of_numeral hat h
      · have hmem := (wordAt_word (tokenAt_word.mp hword)).2.2.1 _ hat
        exact at_not_mem_numeralBytes _ ((intAt_suffix (tokenAt_int.mp hint)).subset hmem)
  · rcases (tokensAt_cons_before isBlank_tab).mp h with ⟨-, h⟩ | ⟨a₃, hword, -⟩
    · exact not_word_of_numeral hat h
    · -- the name would be shorter than itself
      have hlen := (wordAt_word (tokenAt_word.mp hword)).2.1
      have hlen' := (intAt_suffix (tokenAt_int.mp hint)).length_le
      rw [hname, List.length_cons] at hlen
      omega

end Parts

/-- **The line of a window spells its record** exactly if the names are single words and the
numbers small, or the session is named like the record. -/
theorem spells_line_iff (flags : Bool) (w : Window) :
    Spells w.call (w.line flags) ↔ w.Plain ∨ Spells w.call w.session.bytes := by
  have hat : ∀ b ∈ octetOf '@' :: numeralBytes w.id.toNat, isBlank b = false := by
    intro b hb
    rcases List.mem_cons.mp hb with rfl | hb
    · decide
    · exact (solid_numeralBytes _ b hb).1
  have hatne : octetOf '@' :: numeralBytes w.id.toNat ≠ [] := by simp
  have htab : ∀ (k : TokenKind) (ks : List TokenKind) (b : List UInt8),
      tokensAt (k :: ks) (9 :: b) = tokensAt (k :: ks) b :=
    fun k ks b => tokensAt_blank (a := [9]) (blank_singleton isBlank_tab)
  rw [spells_iff, line_eq]
  constructor
  · rintro ⟨session, rest, h⟩
    rw [recordKinds] at h
    rcases (tokensAt_cons_before isBlank_tab).mp h with ⟨-, h⟩ | ⟨a₁, hword, h⟩
    · -- the id is taken for the session
      rw [tokensAt_word hatne hat isBlank_tab, htab] at h
      exact (w.not_shifted h.2).elim
    rcases (tokensAt_cons_before isBlank_tab).mp h with ⟨hblank, h⟩ | ⟨a₂, hchar, h⟩
    · -- the session is a single word
      obtain ⟨t, hchar, h⟩ := tokensAt_cons.mp h
      rw [tokenAt_char, List.cons_append, charAt_cons (by decide)] at hchar
      cases hchar
      obtain ⟨hid, hname, hwidth, hheight⟩ := w.fieldTokens_iff.mp ⟨rest, h⟩
      exact .inl ⟨⟨session, a₁, tokenAt_word.mp hword, hblank⟩, hname, hid, hwidth, hheight⟩
    rcases (tokensAt_cons_before isBlank_tab).mp h with ⟨-, h⟩ | ⟨a₃, hid, h⟩
    · rw [List.cons_append, tokensAt_int_at] at h
      cases h
    rcases (tokensAt_cons_before isBlank_tab).mp h with ⟨-, h⟩ | ⟨a₄, hname, h⟩
    · -- the id is taken for the name, so that the name begins like it
      rw [tokensAt_word hatne hat isBlank_tab, htab] at h
      obtain ⟨hname, h⟩ := h
      rw [Token.word.injEq] at hname
      rw [hname, List.cons_append, tokensAt_int_at] at h
      cases h
    rcases (tokensAt_cons_before isBlank_tab).mp h with ⟨-, h⟩ | ⟨a₅, hwidth, h⟩
    · rw [List.cons_append, tokensAt_int_at] at h
      cases h
    rcases (tokensAt_cons_before isBlank_tab).mp h with ⟨-, h⟩ | ⟨a₆, hheight, h⟩
    · rw [List.cons_append, tokensAt_int_at] at h
      cases h
    rcases (tokensAt_cons_before isBlank_tab).mp h with ⟨-, h⟩ | ⟨a₇, hlayout, -⟩
    · -- the id is taken for the layout
      rw [tokensAt_word hatne hat isBlank_tab, Token.word.injEq] at h
      exact absurd rfl (w.solid_layout (octetOf '@') (h.1 ▸ List.mem_cons_self)).2.1
    · refine .inr (spells_iff w |>.mpr ⟨session, a₇, ?_⟩)
      rw [recordKinds]
      refine tokensAt_cons.mpr ⟨a₁, hword, tokensAt_cons.mpr ⟨a₂, hchar, ?_⟩⟩
      refine tokensAt_cons.mpr ⟨a₃, hid, tokensAt_cons.mpr ⟨a₄, hname, ?_⟩⟩
      refine tokensAt_cons.mpr ⟨a₅, hwidth, tokensAt_cons.mpr ⟨a₆, hheight, ?_⟩⟩
      exact tokensAt_cons.mpr ⟨a₇, hlayout, rfl⟩
  · rintro (⟨⟨session, rest, hword, hblank⟩, hname, hid, hwidth, hheight⟩ | hspells)
    · obtain ⟨rest', h⟩ := w.fieldTokens_iff.mpr ⟨hid, hname, hwidth, hheight⟩
      refine ⟨session, rest', ?_⟩
      rw [recordKinds]
      refine (tokensAt_cons_before isBlank_tab).mpr (.inr ⟨rest, tokenAt_word.mpr hword, ?_⟩)
      refine (tokensAt_cons_before isBlank_tab).mpr (.inl ⟨hblank, tokensAt_cons.mpr ⟨_, ?_, h⟩⟩)
      rw [tokenAt_char, List.cons_append, charAt_cons (by decide)]
    · obtain ⟨session, rest, h⟩ := (spells_iff w).mp hspells
      exact ⟨session, _, tokensAt_append isBlank_tab h⟩

end Window

end Windows

section Creating

variable (plat : Platform) (id : Int) (name : List UInt8)

theorem createLeaf_mapLayout (l : TmuxLayout) (splitter : Option Nat) (c : Client) :
    (createLeaf plat id name l splitter c).1.mapLayout = c.mapLayout := by
  rw [createLeaf]
  split
  · rfl
  · simp only [Client.updateTerm, Client.useTerminal, Client.usePane]
    split_ifs <;> rfl

mutual

/-- Creating panes leaves the layouts alone. -/
theorem createNewWindowPane_mapLayout (l : TmuxLayout) (splitter : Option Nat) (c : Client) :
    (createNewWindowPane plat id name l splitter c).1.mapLayout = c.mapLayout := by
  obtain ⟨width, height, x, y, paneid, layoutType, child⟩ := l
  cases layoutType with
  | none => rw [createNewWindowPane]
  | leaf =>
      rw [createNewWindowPane]
      exact createLeaf_mapLayout plat id name _ splitter c
  | horizontal =>
      rw [createNewWindowPane]
      exact createChildren_mapLayout child _ _
  | vertical =>
      rw [createNewWindowPane]
      exact createChildren_mapLayout child _ _

theorem createChildren_mapLayout (ls : List TmuxLayout) (s : Nat) (c : Client) :
    (createChildren plat id name ls s c).1.mapLayout = c.mapLayout := by
  cases ls with
  | nil => rw [createChildren]
  | cons l ls =>
      have hl := createNewWindowPane_mapLayout l (some s) c
      rw [createChildren]
      dsimp only
      split_ifs
      · exact hl
      · exact (createChildren_mapLayout ls s _).trans hl

end

mutual

theorem typed_object (t : LayoutTree) : t.object.typed = true := by
  cases t with
  | pane width height x y paneid => rfl
  | split width height x y vertical first others =>
      rw [LayoutTree.object, typed, typedAll, typed_object first, typedAll_objects others]
      cases vertical <;> rfl

theorem typedAll_objects (ts : List LayoutTree) : typedAll (LayoutTree.objects ts) = true := by
  cases ts with
  | nil => rfl
  | cons t ts =>
      rw [LayoutTree.objects, typedAll, typed_object t, typedAll_objects ts]
      rfl

end

/-- The children of every layout have types. -/
def LayoutsTyped (c : Client) : Prop :=
  ∀ id l, c.mapLayout.find id = some l → typedAll l.child = true

/-- A layout of tmux is accepted and leaves a tree with types. -/
theorem typed_initLayout (t : LayoutTree) {l : TmuxLayout} (hl : typedAll l.child = true) :
    (l.initLayout t.text).1 = true ∧ (l.initLayout t.text).2.typed = true := by
  have hread := (initLayout_text t).1
  have htyped := typed_object t
  have haccepted : (init.initLayout t.text).1 = true := by rw [hread]
  obtain ⟨width, height, x, y, c, rest, hdims, hc⟩ := initLayout_cases haccepted
  rcases hc with hc | rfl
  · rw [initLayout_open hdims hc] at hread ⊢
    rw [Prod.mk.injEq] at hread
    obtain ⟨hok, hobject⟩ := hread
    rw [← hobject, typed, Bool.and_eq_true] at htyped
    dsimp only at hok htyped ⊢
    rw [show init.child = [] from rfl, List.nil_append] at htyped
    refine ⟨hok, ?_⟩
    rw [typed, typedAll_append, hl, htyped.2, htyped.1]
    rfl
  · rw [initLayout_comma hdims]
    refine ⟨rfl, ?_⟩
    rw [typed, hl]
    rfl

/-- A window with a layout of tmux is created without the assertion. -/
theorem createNewWindow_window {c : Client} (hrun : c.stopped = false) (hc : LayoutsTyped c)
    (w : Window) (id : Int) (name : List UInt8) :
    (createNewWindow plat id name w.layout c).1.stopped = false ∧
      LayoutsTyped (createNewWindow plat id name w.layout c).1 := by
  have hlen : ¬ w.layout.length < 5 := by
    simp [Window.layout, Window.checksumText]
  have hdrop : w.layout.drop 5 = w.tree.text := rfl
  have hchild : typedAll ((c.mapLayout.find id).getD .init).child = true := by
    cases hfind : c.mapLayout.find id with
    | none => rfl
    | some l => exact hc id l hfind
  obtain ⟨hok, htyped⟩ := typed_initLayout w.tree hchild
  rw [createNewWindow, if_neg hlen, hdrop]
  simp only [hok, if_true]
  refine ⟨createNewWindowPane_stopped plat id name _ htyped none _ hrun, ?_⟩
  intro id' l hfind
  rw [createNewWindowPane_mapLayout, OrderedMap.find_insert] at hfind
  split_ifs at hfind
  · cases hfind
    generalize ((c.mapLayout.find id).getD .init).initLayout w.tree.text = out at htyped
    obtain ⟨ok, width, height, x, y, paneid, layoutType, child⟩ := out
    rw [typed, Bool.and_eq_true] at htyped
    exact htyped.2
  · exact hc id' l hfind

theorem makeCalls_stopped (windows : List Window) {c : Client} (hrun : c.stopped = false)
    (hc : LayoutsTyped c) : (makeCalls plat (windows.map Window.call) c).1.stopped = false := by
  induction windows generalizing c with
  | nil => exact hrun
  | cons w windows ih =>
      obtain ⟨hrun', hc'⟩ := createNewWindow_window plat hrun hc w w.call.id w.call.name
      have hmore := ih hrun' hc'
      rw [List.map_cons, makeCalls]
      dsimp only
      rw [show w.call.layout = w.layout from rfl, hrun']
      exact hmore

end Creating

section Lists

namespace Window

theorem plain_line (flags : Bool) (w : Window) : ∀ b ∈ w.line flags, b ≠ 0 ∧ b ≠ 10 := by
  have hname : ∀ n : Name, ∀ b ∈ n.bytes, b ≠ 0 ∧ b ≠ 10 :=
    fun n b hb => ⟨(n.plain b hb).1, (n.plain b hb).2.2⟩
  have hsolid : ∀ {a : List UInt8}, Solid a → ∀ b ∈ a, b ≠ 0 ∧ b ≠ 10 := by
    intro a ha b hb
    refine ⟨(ha b hb).2.2, fun h => ?_⟩
    have hblank := (ha b hb).1
    rw [h] at hblank
    cases hblank
  have hfields : ∀ field ∈ w.fields flags, ∀ b ∈ field, b ≠ 0 ∧ b ≠ 10 := by
    intro field hfield
    simp only [fields, List.mem_append, List.mem_cons, List.not_mem_nil, or_false] at hfield
    rcases hfield with ((rfl | rfl | rfl | rfl | rfl | rfl) | hflags) | rfl
    · exact hname w.session
    · intro b hb
      rcases List.mem_cons.mp hb with rfl | hb
      · decide
      · exact hsolid (solid_numeralBytes _) b hb
    · exact hname w.name
    · exact hsolid (solid_numeralBytes _)
    · exact hsolid (solid_numeralBytes _)
    · exact hsolid w.solid_layout
    · cases flags with
      | false => cases hflags
      | true =>
          rw [List.mem_singleton.mp hflags]
          exact hname w.flags
    · cases w.active with
      | false => exact hsolid (solid_numeralBytes 0)
      | true => exact hsolid (solid_numeralBytes 1)
  intro b hb
  rcases mem_of_mem_intercalate hb with hb | ⟨field, hfield, hb⟩
  · rw [List.mem_singleton.mp hb]
    decide
  · exact hfields field hfield b hb

/-- The lines of a response are those of its windows. -/
theorem linesOf_response (flags : Bool) (windows : List Window) :
    Istream.linesOf 10 (response flags windows) = windows.map (line flags) := by
  have hlines : response flags windows = ((windows.map (line flags)).map (· ++ [10])).flatten := by
    rw [response, List.map_map]
    rfl
  rw [hlines]
  refine linesOf_flatten (fun line hline => ?_)
  obtain ⟨w, -, rfl⟩ := List.mem_map.mp hline
  exact fun h => (w.plain_line flags 10 h).2 rfl

end Window

/-- The handlers of the two window lists. -/
def listHandler (plat : Platform) (flags : Bool) (response : List UInt8) (c : Client) : Handled :=
  if flags then respHdlrListWindows plat response c
  else respHdlrOpenListedWindows plat response c

/-- A window list is read exactly: the handler makes the calls of the windows and no others,
each of them comes about, and what becomes of a record does not depend on the lines before. -/
structure ListsExactly (flags : Bool) (windows : List Window) : Prop where
  calls : ∀ r, windowCalls flags (Istream.linesOf 10 (Window.response flags windows)) r =
    windows.map Window.call
  handled : ∀ plat c, listHandler plat flags (Window.response flags windows) c =
    makeCalls plat (windows.map Window.call) c
  completed : ∀ plat c, c.stopped = false → LayoutsTyped c →
    (listHandler plat flags (Window.response flags windows) c).1.stopped = false
  independent : ∀ w ∈ windows, ∀ r r',
    recordOutcome flags (w.line flags) r = recordOutcome flags (w.line flags) r'

/-- A window whose record is read as it is: its names are single words and its numbers fit an
`int`, or the name of the session begins like the whole record. -/
def Window.Readable (w : Window) : Prop := w.Plain ∨ Spells w.call w.session.bytes

/-- If the calls are those of the windows and no record depends on the lines before, then
each record is read as its window. -/
theorem outcome_of_calls {flags : Bool} {windows : List Window} {r : WindowRecord}
    (hcalls : windowCalls flags (windows.map (Window.line flags)) r = windows.map Window.call)
    (hind : ∀ w ∈ windows, ∀ r r',
      recordOutcome flags (w.line flags) r = recordOutcome flags (w.line flags) r') :
    ∀ w ∈ windows, ∀ r', recordOutcome flags (w.line flags) r' = some w.call := by
  induction windows generalizing r with
  | nil => exact fun w hw => absurd hw (by simp)
  | cons w windows ih =>
      rw [List.map_cons, List.map_cons, windowCalls] at hcalls
      cases hout : recordOutcome flags (w.line flags) r with
      | none => simp [hout] at hcalls
      | some call =>
          rw [hout] at hcalls
          dsimp only at hcalls
          rw [List.cons.injEq] at hcalls
          obtain ⟨rfl, hcalls⟩ := hcalls
          intro w' hw' r'
          rcases List.mem_cons.mp hw' with rfl | hw'
          · rw [hind w' List.mem_cons_self r' r, hout]
          · exact ih hcalls (fun w hw => hind w (List.mem_cons_of_mem _ hw)) w' hw' r'

theorem calls_of_outcome {flags : Bool} {windows : List Window}
    (h : ∀ w ∈ windows, ∀ r, recordOutcome flags (w.line flags) r = some w.call)
    (r : WindowRecord) :
    windowCalls flags (windows.map (Window.line flags)) r = windows.map Window.call := by
  induction windows generalizing r with
  | nil => rfl
  | cons w windows ih =>
      rw [List.map_cons, List.map_cons, windowCalls, h w List.mem_cons_self r]
      dsimp only
      rw [ih (fun w hw => h w (List.mem_cons_of_mem _ hw))]

theorem listHandler_eq (plat : Platform) (flags : Bool) (response : List UInt8) (c : Client) :
    listHandler plat flags response c =
      makeCalls plat (windowCalls flags (Istream.linesOf 10 response) (.init plat)) c := by
  rw [← respWindows_eq]
  cases flags <;> rfl

theorem listsExactly_iff_readable (flags : Bool) (windows : List Window) :
    ListsExactly flags windows ↔ ∀ w ∈ windows, w.Readable := by
  have hrecord : ∀ w : Window,
      (∀ r, recordOutcome flags (w.line flags) r = some w.call) ↔ w.Readable := by
    intro w
    rw [recordOutcome_iff flags (fun b hb => (w.plain_line flags b hb).1), w.spells_line_iff]
    rfl
  constructor
  · intro h w hw
    have hcalls := h.calls ⟨[], 0, 0, [], 0, 0, [], [], 0⟩
    rw [Window.linesOf_response] at hcalls
    exact (hrecord w).mp (outcome_of_calls hcalls h.independent w hw)
  · intro h
    have hout : ∀ w ∈ windows, ∀ r, recordOutcome flags (w.line flags) r = some w.call :=
      fun w hw => (hrecord w).mpr (h w hw)
    have hcalls : ∀ r, windowCalls flags (Istream.linesOf 10 (Window.response flags windows)) r =
        windows.map Window.call := by
      intro r
      rw [Window.linesOf_response]
      exact calls_of_outcome hout r
    refine ⟨hcalls, fun plat c => ?_, fun plat c hrun hc => ?_, fun w hw r r' => ?_⟩
    · rw [listHandler_eq, hcalls]
    · rw [listHandler_eq, hcalls]
      exact makeCalls_stopped plat windows hrun hc
    · rw [hout w hw, hout w hw]

/-- **A window list is read exactly if every record is readable**, by both handlers. -/
theorem listsExactly_iff (windows : List Window) :
    (ListsExactly true windows ↔ ∀ w ∈ windows, w.Readable) ∧
    (ListsExactly false windows ↔ ∀ w ∈ windows, w.Readable) :=
  ⟨listsExactly_iff_readable true windows, listsExactly_iff_readable false windows⟩

/-- A window without a name is read with the fields moved. -/
theorem not_listsExactly_unnamed :
    ¬ ∀ windows, ListsExactly true windows ∧ ListsExactly false windows := by
  intro h
  let unnamed : Window :=
    ⟨⟨[octetOf '0'], by simp [octetOf]⟩, 1, ⟨[], by simp⟩, 78, 28, 0, .pane 78 28 0 0 1,
      ⟨[], by simp⟩, true⟩
  have hreadable := (listsExactly_iff_readable true [unnamed]).mp (h [unnamed]).1 unnamed
    List.mem_cons_self
  rcases hreadable with hplain | ⟨session, rest, hspells⟩
  · exact hplain.name.1 rfl
  · -- the name of the session is a single character
    obtain ⟨t₁, hword, hspells⟩ := tokensAt_cons.mp hspells
    have hrest : wordAt [octetOf '0'] = some ([octetOf '0'], []) := by decide
    rw [tokenAt_word] at hword
    have hsame := hrest.symm.trans hword
    cases hsame
    obtain ⟨t₂, hchar, -⟩ := tokensAt_cons.mp hspells
    rw [tokenAt_char] at hchar
    cases hchar

end Lists

end Tmux
end Qutty
