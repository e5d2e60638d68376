import Qutty.Tmux.Layout

/-!
# The texts of layouts

What `TmuxLayout::parseLayout` reads in front of a layout (`dimsCase`) and by its
kind (`parseKind_open`, `parseKind_comma`, `parseKind_other`), and the textual
form of a layout tree.  The text of a tree is parsed to that tree, at any depth
and with any number of children (`initLayout_text`).
-/

namespace Qutty
namespace Tmux
namespace TmuxLayout

open Lib Lib.Istream

/-- The four numbers in front of a layout: they are there, or reading breaks off
behind a wrong character, or the stream fails. -/
inductive Dims where
  | read (width height x y : Nat) (rest : List UInt8)
  | broke (rest : List UInt8)
  | stuck

/-- A number and the character `c`. -/
def field (c : UInt8) (text : List UInt8) (k : Nat → List UInt8 → Dims) : Dims :=
  match unsignedAt text with
  | some (v, d :: rest) => if d = c then k v rest else .broke rest
  | _ => .stuck

def dims (text : List UInt8) : Dims :=
  field (octetOf 'x') text fun width text =>
    field (octetOf ',') text fun height text =>
      field (octetOf ',') text fun x text =>
        match unsignedAt text with
        | some (y, rest) => .read width height x y rest
        | none => .stuck

/-- `parseLayout` behind the four numbers. -/
def parseKind (n : Nat) (l : TmuxLayout) (s : Istream) : Bool × TmuxLayout × Istream :=
  let (c, s) := s.peek
  if c = some (octetOf '\x7b') ∨ c = some (octetOf '[') then
    let (c, s) := s.get
    let l := { l with layoutType := if c = some (octetOf '[') then .vertical else .horizontal }
    let (ok, child, s) := parseLayoutChildren n l.child s
    let l := { l with child := child }
    if ok then (true, l, s) else l.rejected s
  else
    let (c, s) := s.get
    if c ≠ some (octetOf ',') then l.rejected s
    else
      let (paneid, s) := s.readUnsignedInto l.paneid
      (true, { l with paneid := paneid, layoutType := .leaf }, s)

section Fields

variable {s : Istream} {text : List UInt8}

/-- What can be read where a number and the character `c` should be. -/
inductive FieldCase (c : UInt8) (text : List UInt8) (out : Nat × Option UInt8 × Istream) : Prop
  | found (v : Nat) (rest : List UInt8) (htext : unsignedAt text = some (v, c :: rest))
      (hout : out = (v, some c, ⟨rest, false, false⟩))
  | other (v : Nat) (d : UInt8) (rest : List UInt8) (hd : d ≠ c)
      (htext : unsignedAt text = some (v, d :: rest))
      (hout : out = (v, some d, ⟨rest, false, false⟩))
  | stuck (htext : ∀ v d rest, unsignedAt text ≠ some (v, d :: rest)) (hchar : out.2.1 = none)
      (hfail : out.2.2.fail = true)

theorem fieldCase (c : UInt8) (old : Nat) (h : s.Ready text) :
    FieldCase c text (readField old s) := by
  cases hnum : unsignedAt text with
  | none =>
      have hfail := h.readUnsignedInto_none hnum old
      have hget := get_of_fail hfail
      refine .stuck (by simp [hnum]) ?_ ?_
      · simp [readField, hget]
      · simp [readField, hget, failed]
  | some r =>
      obtain ⟨v, rest⟩ := r
      obtain ⟨hv, hready⟩ := h.readUnsignedInto_some hnum old
      cases rest with
      | nil =>
          obtain ⟨hchar, hfail⟩ := hready.get_nil
          exact .stuck (by simp [hnum]) hchar hfail
      | cons d rest =>
          have hget := hready.get_cons
          have hout : readField old s = (v, some d, ⟨rest, false, false⟩) := by
            simp [readField, hv, hget]
          by_cases hd : d = c
          · subst hd
            exact .found v rest hnum hout
          · exact .other v d rest hd hnum hout

theorem field_found {c : UInt8} {v : Nat} {rest : List UInt8} {k : Nat → List UInt8 → Dims}
    (h : unsignedAt text = some (v, c :: rest)) : field c text k = k v rest := by
  simp [field, h]

theorem field_other {c d : UInt8} {v : Nat} {rest : List UInt8} {k : Nat → List UInt8 → Dims}
    (h : unsignedAt text = some (v, d :: rest)) (hd : d ≠ c) : field c text k = .broke rest := by
  simp [field, h, hd]

theorem field_stuck {c : UInt8} {k : Nat → List UInt8 → Dims}
    (h : ∀ v d rest, unsignedAt text ≠ some (v, d :: rest)) : field c text k = .stuck := by
  rw [field]
  split
  · rename_i v d rest hnum
    exact absurd hnum (h v d rest)
  · rfl

/-- A stream that has failed has no kind of layout. -/
theorem parseKind_of_fail (n : Nat) (l : TmuxLayout) (h : s.fail = true) :
    (parseKind n l s).1 = false ∧ (parseKind n l s).2.2.fail = true := by
  have hfailed : s.failed.fail = true := rfl
  have hout : parseKind n l s = l.rejected s.failed.failed := by
    rw [parseKind, peek_of_fail h]
    simp [get_of_fail hfailed]
  rw [hout]
  exact ⟨rfl, rfl⟩

/-- What `parseLayout` does in front of the kind of a layout. -/
inductive DimsCase (n : Nat) (l : TmuxLayout) (text : List UInt8)
    (out : Bool × TmuxLayout × Istream) : Prop
  | read (width height x y : Nat) (rest : List UInt8) (s : Istream)
      (htext : dims text = .read width height x y rest) (hs : s.Ready rest)
      (hout : out = parseKind n { l with width := width, height := height, x := x, y := y } s)
  | broke (rest : List UInt8) (htext : dims text = .broke rest) (hok : out.1 = false)
      (htype : out.2.1.layoutType = .none) (hs : out.2.2.Ready rest)
  | stuck (htext : dims text = .stuck) (hok : out.1 = false) (hfail : out.2.2.fail = true)

theorem ready_mk_false (rest : List UInt8) : Ready ⟨rest, false, false⟩ rest :=
  ready_ofString rest

theorem dimsCase (n : Nat) (l : TmuxLayout) (h : s.Ready text) :
    DimsCase n l text (parseLayout (n + 1) l s) := by
  rw [parseLayout]
  rcases fieldCase (octetOf 'x') l.width h with
    ⟨width, t₁, hw, hout⟩ | ⟨width, d, t₁, hd, hw, hout⟩ | ⟨hw, hchar, hfail⟩
  · simp only [hout, ne_eq, not_true_eq_false, if_false]
    rcases fieldCase (octetOf ',') l.height (ready_mk_false t₁) with
      ⟨height, t₂, hh, hout⟩ | ⟨height, d, t₂, hd, hh, hout⟩ | ⟨hh, hchar, hfail⟩
    · simp only [hout, not_true_eq_false, if_false]
      rcases fieldCase (octetOf ',') l.x (ready_mk_false t₂) with
        ⟨x, t₃, hx, hout⟩ | ⟨x, d, t₃, hd, hx, hout⟩ | ⟨hx, hchar, hfail⟩
      · simp only [hout, not_true_eq_false, if_false]
        have hdims : dims text = match unsignedAt t₃ with
            | some (y, rest) => .read width height x y rest
            | none => .stuck := by
          rw [dims, field_found hw, field_found hh, field_found hx]
        cases hy : unsignedAt t₃ with
        | none =>
            have hfail := (ready_mk_false t₃).readUnsignedInto_none hy l.y
            rw [hy] at hdims
            exact .stuck hdims (parseKind_of_fail n _ hfail).1 (parseKind_of_fail n _ hfail).2
        | some r =>
            obtain ⟨y, rest⟩ := r
            obtain ⟨hv, hready⟩ := (ready_mk_false t₃).readUnsignedInto_some hy l.y
            rw [hy] at hdims
            refine .read width height x y rest _ hdims hready ?_
            simp only [← hv]
            rfl
      · refine .broke t₃ (by rw [dims, field_found hw, field_found hh, field_other hx hd]) ?_ ?_ ?_
        all_goals simp only [hout, Option.some.injEq, hd, not_false_eq_true, if_true, rejected]
        exact ready_mk_false t₃
      · refine .stuck (by rw [dims, field_found hw, field_found hh, field_stuck hx]) ?_ ?_
        all_goals simp [hchar, rejected, hfail]
    · refine .broke t₂ (by rw [dims, field_found hw, field_other hh hd]) ?_ ?_ ?_
      all_goals simp only [hout, Option.some.injEq, hd, not_false_eq_true, if_true, rejected]
      exact ready_mk_false t₂
    · refine .stuck (by rw [dims, field_found hw, field_stuck hh]) ?_ ?_
      all_goals simp [hchar, rejected, hfail]
  · refine .broke t₁ (by rw [dims, field_other hw hd]) ?_ ?_ ?_
    all_goals simp only [hout, ne_eq, Option.some.injEq, hd, not_false_eq_true, if_true, rejected]
    exact ready_mk_false t₁
  · refine .stuck (by rw [dims, field_stuck hw]) ?_ ?_
    all_goals simp [hchar, rejected, hfail]

end Fields

section Kinds

/-- An opening bracket. -/
def isOpen (c : UInt8) : Bool := c = octetOf '\x7b' ∨ c = octetOf '['

/-- A closing bracket. -/
def isClose (c : UInt8) : Bool := c = octetOf ']' ∨ c = octetOf '\x7d'

/-- The bracket that closes another one. -/
def closing (o : UInt8) : UInt8 := if o = octetOf '[' then octetOf ']' else octetOf '\x7d'

/-- The kind of split that a bracket opens. -/
def kindOf (o : UInt8) : TmuxLayoutType := if o = octetOf '[' then .vertical else .horizontal

variable {s : Istream} {text : List UInt8} (n : Nat) (l : TmuxLayout)

theorem parseKind_nil (h : s.Ready []) :
    (parseKind n l s).1 = false ∧ (parseKind n l s).2.2.fail = true := by
  have hpeek : s.peek.1 = none ∧ s.peek.2.get.1 = none ∧ s.peek.2.get.2.fail = true := by
    rw [peek]
    split_ifs
    · rw [h.rest]
      exact ⟨rfl, rfl, rfl⟩
    · exact ⟨rfl, by rw [get_of_fail rfl], by rw [get_of_fail rfl]; rfl⟩
  obtain ⟨hnone, hget, hfail⟩ := hpeek
  have hout : parseKind n l s = l.rejected s.peek.2.get.2 := by
    rw [parseKind]
    simp [hnone, hget]
  rw [hout]
  exact ⟨rfl, hfail⟩

/-- A split: the children decide. -/
theorem parseKind_open {o : UInt8} (ho : isOpen o = true) (h : s.Ready (o :: text)) :
    parseKind n l s =
      let out := parseLayoutChildren n l.child ⟨text, false, false⟩
      if out.1 then (true, { l with layoutType := kindOf o, child := out.2.1 }, out.2.2)
      else { l with child := out.2.1 }.rejected out.2.2 := by
  have hcond : o = octetOf '\x7b' ∨ o = octetOf '[' := by
    simpa [isOpen] using ho
  rw [parseKind, h.peek_cons]
  simp only [h.get_cons, Option.some.injEq, if_pos hcond, rejected, kindOf]

/-- A pane: its number is not checked. -/
theorem parseKind_comma (h : s.Ready (octetOf ',' :: text)) :
    parseKind n l s =
      let out := Istream.readUnsignedInto l.paneid ⟨text, false, false⟩
      (true, { l with paneid := out.1, layoutType := .leaf }, out.2) := by
  have hcond : ¬ (some (octetOf ',') = some (octetOf '\x7b') ∨
      some (octetOf ',') = some (octetOf '[')) := by decide
  rw [parseKind, h.peek_cons]
  simp only [h.get_cons, if_neg hcond, ne_eq, not_true_eq_false, if_false]

theorem parseKind_other {c : UInt8} (ho : isOpen c = false) (hc : c ≠ octetOf ',')
    (h : s.Ready (c :: text)) : parseKind n l s = l.rejected ⟨text, false, false⟩ := by
  have hcond : ¬ (c = octetOf '\x7b' ∨ c = octetOf '[') := by
    simpa [isOpen] using ho
  rw [parseKind, h.peek_cons]
  simp only [h.get_cons, Option.some.injEq, if_neg hcond, ne_eq, hc, not_false_eq_true, if_true]

end Kinds

section Texts

/-- A window layout of tmux: panes, and splits with one child or more. -/
inductive LayoutTree where
  | pane (width height x y paneid : UInt32)
  | split (width height x y : UInt32) (vertical : Bool) (first : LayoutTree)
      (others : List LayoutTree)

/-- The text of four numbers and what follows them. -/
def dimsText (width height x y : Nat) (rest : List UInt8) : List UInt8 :=
  numeralBytes width ++ octetOf 'x' :: (numeralBytes height ++ octetOf ',' ::
    (numeralBytes x ++ octetOf ',' :: (numeralBytes y ++ rest)))

/-- The brackets of a split. -/
def openBracket (vertical : Bool) : UInt8 := if vertical then octetOf '[' else octetOf '\x7b'

namespace LayoutTree

mutual

/-- The textual form of a layout. -/
def text : LayoutTree → List UInt8
  | .pane width height x y paneid =>
      dimsText width.toNat height.toNat x.toNat y.toNat
        (octetOf ',' :: numeralBytes paneid.toNat)
  | .split width height x y vertical first others =>
      dimsText width.toNat height.toNat x.toNat y.toNat
        (openBracket vertical ::
          (text first ++ (textOthers others ++ [closing (openBracket vertical)])))

/-- Each child after the first one has a comma in front of it. -/
def textOthers : List LayoutTree → List UInt8
  | [] => []
  | t :: ts => octetOf ',' :: (text t ++ textOthers ts)

end

mutual

/-- A layout as an object. -/
def object : LayoutTree → TmuxLayout
  | .pane width height x y paneid =>
      ⟨width.toNat, height.toNat, x.toNat, y.toNat, paneid.toNat, .leaf, []⟩
  | .split width height x y vertical first others =>
      ⟨width.toNat, height.toNat, x.toNat, y.toNat, 2 ^ 32 - 1,
        if vertical then .vertical else .horizontal, object first :: objects others⟩

def objects : List LayoutTree → List TmuxLayout
  | [] => []
  | t :: ts => object t :: objects ts

end

end LayoutTree

/-- What follows does not begin with a digit. -/
def EndsNumber (rest : List UInt8) : Prop :=
  ∀ c ∈ rest.head?, digitValue 10 c.toNat = none

theorem endsNumber_cons {c : UInt8} (h : digitValue 10 c.toNat = none) (rest : List UInt8) :
    EndsNumber (c :: rest) := by
  simpa [EndsNumber] using h

theorem unsignedAt_numeralBytes (n : UInt32) {rest : List UInt8} (h : EndsNumber rest) :
    unsignedAt (numeralBytes n.toNat ++ rest) = some (n.toNat, rest) :=
  unsignedAt_numeral (toNat_numeralBytes n.toNat) n.toNat_lt h

theorem dims_dimsText (width height x y : UInt32) {rest : List UInt8} (h : EndsNumber rest) :
    dims (dimsText width.toNat height.toNat x.toNat y.toNat rest) =
      .read width.toNat height.toNat x.toNat y.toNat rest := by
  have hx : digitValue 10 (octetOf 'x').toNat = none := by decide
  have hcomma : digitValue 10 (octetOf ',').toNat = none := by decide
  rw [dims, dimsText, field_found (unsignedAt_numeralBytes width (endsNumber_cons hx _)),
    field_found (unsignedAt_numeralBytes height (endsNumber_cons hcomma _)),
    field_found (unsignedAt_numeralBytes x (endsNumber_cons hcomma _)),
    unsignedAt_numeralBytes y h]

theorem length_dimsText (width height x y : Nat) (rest : List UInt8) :
    rest.length + 3 ≤ (dimsText width height x y rest).length := by
  simp only [dimsText, List.length_append, List.length_cons]
  omega

theorem dimsText_append (width height x y : Nat) (rest more : List UInt8) :
    dimsText width height x y rest ++ more = dimsText width height x y (rest ++ more) := by
  simp [dimsText]

/-- A text with the four numbers in front is parsed by its kind. -/
theorem parseLayout_dimsText {n : Nat} {l : TmuxLayout} {s : Istream} {width height x y : UInt32}
    {rest : List UInt8} (h : EndsNumber rest)
    (hs : s.Ready (dimsText width.toNat height.toNat x.toNat y.toNat rest)) :
    ∃ s', Ready s' rest ∧ parseLayout (n + 1) l s =
      parseKind n { l with
        width := width.toNat, height := height.toNat, x := x.toNat, y := y.toNat } s' := by
  have hdims := dims_dimsText width height x y h
  rcases dimsCase n l hs with
    ⟨width', height', x', y', rest', s', htext, hs', hout⟩ | ⟨rest', htext, -⟩ | ⟨htext, -⟩
  · rw [hdims] at htext
    cases htext
    exact ⟨s', hs', hout⟩
  · rw [hdims] at htext
    cases htext
  · rw [hdims] at htext
    cases htext

theorem isOpen_openBracket (vertical : Bool) : isOpen (openBracket vertical) = true := by
  cases vertical <;> decide

theorem isClose_closing (o : UInt8) : isClose (closing o) = true := by
  rw [closing]
  split_ifs <;> decide

theorem not_digit_of_isClose {c : UInt8} (h : isClose c = true) :
    digitValue 10 c.toNat = none := by
  have hc : c = octetOf ']' ∨ c = octetOf '\x7d' := by simpa [isClose] using h
  rcases hc with rfl | rfl <;> decide

theorem not_digit_of_isOpen {c : UInt8} (h : isOpen c = true) :
    digitValue 10 c.toNat = none := by
  have hc : c = octetOf '\x7b' ∨ c = octetOf '[' := by simpa [isOpen] using h
  rcases hc with rfl | rfl <;> decide

theorem kindOf_openBracket (vertical : Bool) :
    kindOf (openBracket vertical) = if vertical then .vertical else .horizontal := by
  cases vertical <;> decide

theorem not_digit_comma : digitValue 10 (octetOf ',').toNat = none := by decide

/-- One child, and the character behind it. -/
theorem parseLayoutChildren_succ (n : Nat) (child : List TmuxLayout) (s : Istream) :
    parseLayoutChildren (n + 1) child s =
      let out := parseLayout n init s
      let (c, s) := out.2.2.get
      if c = some (octetOf ']') ∨ c = some (octetOf '\x7d') then (true, child ++ [out.2.1], s)
      else if c = some (octetOf ',') then parseLayoutChildren n (child ++ [out.2.1]) s
      else (false, child, s) := by
  rw [parseLayoutChildren]

theorem parseLayoutChildren_close {n : Nat} {child : List TmuxLayout} {s s' : Istream}
    {c : UInt8} {rest : List UInt8} {ok : Bool} {l : TmuxLayout}
    (hout : parseLayout n init s = (ok, l, s')) (hs : s'.Ready (c :: rest))
    (hc : isClose c = true) :
    parseLayoutChildren (n + 1) child s = (true, child ++ [l], ⟨rest, false, false⟩) := by
  have hcond : c = octetOf ']' ∨ c = octetOf '\x7d' := by simpa [isClose] using hc
  rw [parseLayoutChildren_succ, hout]
  simp only [hs.get_cons, Option.some.injEq, if_pos hcond]

theorem parseLayoutChildren_comma {n : Nat} {child : List TmuxLayout} {s s' : Istream}
    {rest : List UInt8} {ok : Bool} {l : TmuxLayout}
    (hout : parseLayout n init s = (ok, l, s')) (hs : s'.Ready (octetOf ',' :: rest)) :
    parseLayoutChildren (n + 1) child s =
      parseLayoutChildren n (child ++ [l]) ⟨rest, false, false⟩ := by
  have hcond : ¬ (octetOf ',' = octetOf ']' ∨ octetOf ',' = octetOf '\x7d') := by decide
  rw [parseLayoutChildren_succ, hout]
  simp only [hs.get_cons, Option.some.injEq, if_neg hcond, if_true]

theorem parseLayoutChildren_other {n : Nat} {child : List TmuxLayout} {s s' : Istream}
    {c : UInt8} {rest : List UInt8} {ok : Bool} {l : TmuxLayout}
    (hout : parseLayout n init s = (ok, l, s')) (hs : s'.Ready (c :: rest))
    (hc : isClose c = false) (hcomma : c ≠ octetOf ',') :
    parseLayoutChildren (n + 1) child s = (false, child, ⟨rest, false, false⟩) := by
  have hcond : ¬ (c = octetOf ']' ∨ c = octetOf '\x7d') := by simpa [isClose] using hc
  rw [parseLayoutChildren_succ, hout]
  simp only [hs.get_cons, Option.some.injEq, if_neg hcond, if_neg hcomma]

namespace LayoutTree

mutual

/-- The text of a layout is parsed to the layout, and what follows is left. -/
theorem parseLayout_text (t : LayoutTree) (n : Nat) (s : Istream) (rest : List UInt8)
    (hn : 2 * (text t).length + 2 ≤ n) (hrest : EndsNumber rest)
    (hs : s.Ready (text t ++ rest)) :
    ∃ s', Ready s' rest ∧ parseLayout n init s = (true, object t, s') := by
  obtain ⟨n, rfl⟩ : ∃ m, n = m + 1 := ⟨n - 1, by omega⟩
  cases t with
  | pane width height x y paneid =>
      rw [text, dimsText_append, List.cons_append] at hs
      obtain ⟨s₁, hs₁, hout⟩ := parseLayout_dimsText (n := n) (l := init)
        (endsNumber_cons not_digit_comma _) hs
      have hid := unsignedAt_numeralBytes paneid hrest
      obtain ⟨hv, hready⟩ := (ready_mk_false _).readUnsignedInto_some hid (2 ^ 32 - 1)
      refine ⟨_, hready, ?_⟩
      rw [hout, parseKind_comma n _ hs₁]
      simp only [init, hv, object]
  | split width height x y vertical first others =>
      rw [text, dimsText_append] at hs
      have hlen := length_dimsText width.toNat height.toNat x.toNat y.toNat
        (openBracket vertical ::
          (text first ++ (textOthers others ++ [closing (openBracket vertical)])))
      rw [text] at hn
      simp only [List.length_cons, List.length_append] at hlen hn
      have hopen := isOpen_openBracket vertical
      rw [List.cons_append] at hs
      obtain ⟨s₁, hs₁, hout⟩ := parseLayout_dimsText (n := n) (l := init)
        (endsNumber_cons (not_digit_of_isOpen hopen) _) hs
      obtain ⟨s₂, hs₂, hchildren⟩ := parseLayoutChildren_text first others vertical n []
        ⟨text first ++ (textOthers others ++ [closing (openBracket vertical)]) ++ rest, false, false⟩
        rest (by omega) (by
          rw [List.append_assoc, List.append_assoc]
          exact ready_mk_false _)
      refine ⟨s₂, hs₂, ?_⟩
      rw [hout, parseKind_open n _ hopen hs₁]
      simp only [init, hchildren, if_true, kindOf_openBracket, object, List.nil_append]
termination_by sizeOf t

/-- The children of a split are parsed in their order. -/
theorem parseLayoutChildren_text (t : LayoutTree) (ts : List LayoutTree) (vertical : Bool)
    (n : Nat) (child : List TmuxLayout) (s : Istream) (rest : List UInt8)
    (hn : 2 * ((text t).length + (textOthers ts).length) + 3 ≤ n)
    (hs : s.Ready (text t ++ (textOthers ts ++ closing (openBracket vertical) :: rest))) :
    ∃ s', Ready s' rest ∧
      parseLayoutChildren n child s = (true, child ++ object t :: objects ts, s') := by
  obtain ⟨n, rfl⟩ : ∃ m, n = m + 1 := ⟨n - 1, by omega⟩
  cases ts with
  | nil =>
      have hclose := isClose_closing (openBracket vertical)
      rw [textOthers] at hn hs
      obtain ⟨s₁, hs₁, hout⟩ := parseLayout_text t n s
        (closing (openBracket vertical) :: rest) (by omega)
        (endsNumber_cons (not_digit_of_isClose hclose) rest) hs
      refine ⟨_, ready_mk_false rest, ?_⟩
      rw [parseLayoutChildren_close hout hs₁ hclose, objects]
  | cons t' ts =>
      rw [textOthers, List.cons_append, List.append_assoc] at hs
      rw [textOthers] at hn
      simp only [List.length_cons, List.length_append] at hn
      obtain ⟨s₁, hs₁, hout⟩ := parseLayout_text t n s _ (by omega)
        (endsNumber_cons not_digit_comma _) hs
      obtain ⟨s₂, hs₂, hchildren⟩ := parseLayoutChildren_text t' ts vertical n
        (child ++ [object t]) _ rest (by omega) (ready_mk_false _)
      refine ⟨s₂, hs₂, ?_⟩
      rw [parseLayoutChildren_comma hout hs₁, hchildren, objects]
      simp
termination_by sizeOf t + sizeOf ts

end

end LayoutTree

/-- **The text of a layout is accepted and yields the layout**, and the recursion
ends: more fuel changes nothing. -/
theorem initLayout_text (t : LayoutTree) :
    init.initLayout t.text = (true, t.object) ∧
      ∀ m, ∃ s, parseLayout (2 * t.text.length + 2 + m) init (.ofString t.text) =
        (true, t.object, s) := by
  have hparse : ∀ m, ∃ s, parseLayout (2 * t.text.length + 2 + m) init (.ofString t.text) =
      (true, t.object, s) := by
    intro m
    obtain ⟨s, -, hout⟩ := t.parseLayout_text (2 * t.text.length + 2 + m) (.ofString t.text) []
      (by omega) (by simp [EndsNumber]) (by simpa using ready_ofString t.text)
    exact ⟨s, hout⟩
  obtain ⟨s, hout⟩ := hparse 0
  refine ⟨?_, hparse⟩
  rw [initLayout]
  rw [Nat.add_zero] at hout
  rw [hout]

end Texts

end TmuxLayout
end Tmux
end Qutty
