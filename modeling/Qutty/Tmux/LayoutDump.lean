import Qutty.Tmux.LayoutSoundness

/-!
# Layouts printed and read again

`TmuxLayout::dumpLayout`, and what `initLayout` makes of its output and of a second
text.

The printer uses the brackets the other way round from the parser, so that reading
what has been printed turns every split (`initLayout_dumpLayout`).  A tree comes back
as it was exactly if it is a single pane (`dump_read_iff`).

An object that is read again keeps its children, and its pane id where the text has
none.  So a second text gives the tree that a fresh object would have exactly if
nothing of this is left (`reread_iff`).
-/

namespace Qutty
namespace Tmux
namespace TmuxLayout

open Lib Lib.Istream

section Printing

mutual

/-- `TmuxLayout::dumpLayout`. -/
def dumpLayout : TmuxLayout → List UInt8
  | ⟨width, height, x, y, paneid, layoutType, child⟩ =>
      numeralBytes width ++ octetOf 'x' :: (numeralBytes height ++ octetOf ',' ::
        (numeralBytes x ++ octetOf ',' :: (numeralBytes y ++
          match layoutType with
          | .leaf => octetOf ',' :: numeralBytes paneid
          | .horizontal => octetOf '[' :: (dumpChildren child ++ [octetOf ']'])
          | .vertical => octetOf '\x7b' :: (dumpChildren child ++ [octetOf '\x7d'])
          | .none => [])))

/-- The loop over the children, with commas between them. -/
def dumpChildren : List TmuxLayout → List UInt8
  | [] => []
  | [l] => dumpLayout l
  | l :: l' :: ls => dumpLayout l ++ octetOf ',' :: dumpChildren (l' :: ls)

end

/-- The tree that an object holds: a pane has no children, and a split no pane id. -/
inductive LayoutShape where
  | untyped (width height x y : Nat)
  | pane (width height x y paneid : Nat)
  | split (width height x y : Nat) (vertical : Bool) (children : List LayoutShape)

mutual

/-- The tree of an object. -/
def shape : TmuxLayout → LayoutShape
  | ⟨width, height, x, y, _, .none, _⟩ => .untyped width height x y
  | ⟨width, height, x, y, paneid, .leaf, _⟩ => .pane width height x y paneid
  | ⟨width, height, x, y, _, .horizontal, child⟩ => .split width height x y false (shapes child)
  | ⟨width, height, x, y, _, .vertical, child⟩ => .split width height x y true (shapes child)

def shapes : List TmuxLayout → List LayoutShape
  | [] => []
  | l :: ls => shape l :: shapes ls

end

/-- The fields are values of an `unsigned int`. -/
structure FieldsFit (l : TmuxLayout) : Prop where
  width : l.width < 2 ^ 32
  height : l.height < 2 ^ 32
  x : l.x < 2 ^ 32
  y : l.y < 2 ^ 32
  paneid : l.paneid < 2 ^ 32

namespace LayoutTree

/-- A single pane. -/
def isPane : LayoutTree → Bool
  | pane .. => true
  | split .. => false

mutual

/-- The layout with every split turned. -/
def turn : LayoutTree → LayoutTree
  | .pane width height x y paneid => .pane width height x y paneid
  | .split width height x y vertical first others =>
      .split width height x y (!vertical) (turn first) (turnAll others)

def turnAll : List LayoutTree → List LayoutTree
  | [] => []
  | t :: ts => turn t :: turnAll ts

end

theorem octetOf_brackets : octetOf '\x7b' ≠ octetOf '[' := by decide

mutual

/-- What is printed is the text of the turned layout. -/
theorem dumpLayout_object (t : LayoutTree) : t.object.dumpLayout = t.turn.text := by
  match t with
  | .pane width height x y paneid => rfl
  | .split width height x y true first others =>
      have hchildren := dumpChildren_objects (dumpLayout_object first) others
      simp [object, dumpLayout, hchildren, turn, text, dimsText, openBracket, closing,
        octetOf_brackets]
  | .split width height x y false first others =>
      have hchildren := dumpChildren_objects (dumpLayout_object first) others
      simp [object, dumpLayout, hchildren, turn, text, dimsText, openBracket, closing]

theorem dumpChildren_objects {l : TmuxLayout} {w : List UInt8} (hl : l.dumpLayout = w)
    (ts : List LayoutTree) : dumpChildren (l :: objects ts) = w ++ textOthers (turnAll ts) := by
  match ts with
  | [] => rw [objects, dumpChildren, hl, turnAll, textOthers, List.append_nil]
  | t :: ts =>
      rw [objects, dumpChildren, hl, dumpChildren_objects (dumpLayout_object t) ts, turnAll,
        textOthers]

end

theorem openBracket_not (vertical : Bool) : openBracket (!vertical) ≠ openBracket vertical := by
  cases vertical with
  | false => exact octetOf_brackets.symm
  | true => exact octetOf_brackets

/-- The text of a split changes when it is turned. -/
theorem text_turn_iff (t : LayoutTree) : t.turn.text = t.text ↔ t.isPane = true := by
  cases t with
  | pane width height x y paneid => exact iff_of_true rfl rfl
  | split width height x y vertical first others =>
      refine iff_of_false (fun h => ?_) (by simp [isPane])
      simp only [turn, text, dimsText, List.append_cancel_left_eq, List.cons.injEq, true_and] at h
      exact openBracket_not vertical h.1

end LayoutTree

/-- **A printed layout is read with every split turned.** -/
theorem initLayout_dumpLayout (t : LayoutTree) :
    init.initLayout t.object.dumpLayout = (true, t.turn.object) := by
  rw [t.dumpLayout_object]
  exact (initLayout_text t.turn).1

/-- Objects with the same tree have the same type. -/
theorem layoutType_of_shape {l l' : TmuxLayout} (h : l.shape = l'.shape) :
    l.layoutType = l'.layoutType := by
  obtain ⟨width, height, x, y, paneid, layoutType, child⟩ := l
  obtain ⟨width', height', x', y', paneid', layoutType', child'⟩ := l'
  cases layoutType <;> cases layoutType' <;> simp_all [shape]

theorem toNat_ofNat_of_lt {n : Nat} (h : n < 2 ^ 32) : (UInt32.ofNat n).toNat = n :=
  UInt32.toNat_ofNat_of_lt' h

/-- What is read behind an opening bracket is a split of its kind, or nothing. -/
theorem layoutType_ne_of_open (width height x y : UInt32) {o : UInt8} (ho : isOpen o = true)
    (rest : List UInt8) {type : TmuxLayoutType} (hkind : kindOf o ≠ type) (hnone : type ≠ .none) :
    (init.initLayout
      (dimsText width.toNat height.toNat x.toNat y.toNat (o :: rest))).2.layoutType ≠ type := by
  have hends := endsNumber_cons (not_digit_of_isOpen ho) rest
  generalize htext : dimsText width.toNat height.toNat x.toNat y.toNat (o :: rest) = text
  obtain ⟨s, hs, hout⟩ := parseLayout_dimsText (n := 2 * text.length + 1) (l := init) hends
    (htext ▸ ready_ofString text)
  have hinit : (init.initLayout text).2 =
      (parseLayout (2 * text.length + 1 + 1) init (.ofString text)).2.1 := rfl
  rw [htext] at hout
  rw [hinit, hout, parseKind_open _ _ ho hs]
  dsimp only
  split_ifs
  · exact hkind
  · exact hnone.symm

/-- A pane comes back as it was. -/
theorem initLayout_dumpLayout_pane (width height x y paneid : UInt32) (child : List TmuxLayout) :
    init.initLayout (dumpLayout ⟨width.toNat, height.toNat, x.toNat, y.toNat, paneid.toNat,
      .leaf, child⟩) =
      (true, ⟨width.toNat, height.toNat, x.toNat, y.toNat, paneid.toNat, .leaf, []⟩) :=
  initLayout_dumpLayout (.pane width height x y paneid)

/-- A split comes back as something else. -/
theorem initLayout_dumpLayout_split {l : TmuxLayout} (hfit : l.FieldsFit)
    (h : l.layoutType = .horizontal ∨ l.layoutType = .vertical) :
    (init.initLayout l.dumpLayout).2.layoutType ≠ l.layoutType := by
  obtain ⟨width, height, x, y, paneid, layoutType, child⟩ := l
  obtain ⟨hwidth, hheight, hx, hy, -⟩ := hfit
  obtain ⟨w, rfl⟩ : ∃ w : UInt32, w.toNat = width := ⟨_, toNat_ofNat_of_lt hwidth⟩
  obtain ⟨ht, rfl⟩ : ∃ ht : UInt32, ht.toNat = height := ⟨_, toNat_ofNat_of_lt hheight⟩
  obtain ⟨x, rfl⟩ : ∃ x' : UInt32, x'.toNat = x := ⟨_, toNat_ofNat_of_lt hx⟩
  obtain ⟨y, rfl⟩ : ∃ y' : UInt32, y'.toNat = y := ⟨_, toNat_ofNat_of_lt hy⟩
  rcases h with rfl | rfl
  · have hdump : dumpLayout ⟨w.toNat, ht.toNat, x.toNat, y.toNat, paneid, .horizontal, child⟩ =
        dimsText w.toNat ht.toNat x.toNat y.toNat
          (octetOf '[' :: (dumpChildren child ++ [octetOf ']'])) := rfl
    have hkind : kindOf (octetOf '[') ≠ .horizontal := by decide
    rw [hdump]
    exact layoutType_ne_of_open w ht x y (by decide) _ hkind (by simp)
  · have hdump : dumpLayout ⟨w.toNat, ht.toNat, x.toNat, y.toNat, paneid, .vertical, child⟩ =
        dimsText w.toNat ht.toNat x.toNat y.toNat
          (octetOf '\x7b' :: (dumpChildren child ++ [octetOf '\x7d'])) := rfl
    have hkind : kindOf (octetOf '\x7b') ≠ .vertical := by decide
    rw [hdump]
    exact layoutType_ne_of_open w ht x y (by decide) _ hkind (by simp)

/-- **Printing and reading undo each other exactly for a single pane**: for an object
whose nodes have types, and for the text of a layout. -/
theorem dump_read_iff (l : TmuxLayout) (htyped : l.typed = true) (hfit : l.FieldsFit)
    (t : LayoutTree) :
    ((init.initLayout l.dumpLayout).1 = true ∧
      (init.initLayout l.dumpLayout).2.shape = l.shape ↔ l.layoutType = .leaf) ∧
    ((init.initLayout t.text).1 = true ∧
      (init.initLayout t.text).2.dumpLayout = t.text ↔ t.isPane = true) := by
  refine ⟨⟨fun h => ?_, fun h => ?_⟩, ?_⟩
  · by_contra hleaf
    refine initLayout_dumpLayout_split hfit ?_ (layoutType_of_shape h.2)
    obtain ⟨width, height, x, y, paneid, layoutType, child⟩ := l
    cases layoutType with
    | none => exact absurd htyped (by simp [typed])
    | leaf => exact absurd rfl hleaf
    | horizontal => exact .inl rfl
    | vertical => exact .inr rfl
  · obtain ⟨width, height, x, y, paneid, layoutType, child⟩ := l
    obtain ⟨hwidth, hheight, hx, hy, hpaneid⟩ := hfit
    obtain rfl : layoutType = .leaf := h
    have hread := initLayout_dumpLayout_pane (.ofNat width) (.ofNat height) (.ofNat x) (.ofNat y)
      (.ofNat paneid) child
    rw [toNat_ofNat_of_lt hwidth, toNat_ofNat_of_lt hheight, toNat_ofNat_of_lt hx,
      toNat_ofNat_of_lt hy, toNat_ofNat_of_lt hpaneid] at hread
    rw [hread]
    exact ⟨rfl, rfl⟩
  · rw [(initLayout_text t).1, ← t.text_turn_iff, ← t.dumpLayout_object]
    simp

/-- A pane of 80 by 24, and its text. -/
theorem dump_read_iff_pane :
    ((init.initLayout (dumpLayout ⟨80, 24, 0, 0, 1, .leaf, []⟩)).1 = true ∧
      (init.initLayout (dumpLayout ⟨80, 24, 0, 0, 1, .leaf, []⟩)).2.shape =
        shape ⟨80, 24, 0, 0, 1, .leaf, []⟩ ↔ TmuxLayoutType.leaf = .leaf) ∧
    ((init.initLayout (LayoutTree.pane 80 24 0 0 1).text).1 = true ∧
      (init.initLayout (LayoutTree.pane 80 24 0 0 1).text).2.dumpLayout =
        (LayoutTree.pane 80 24 0 0 1).text ↔ (LayoutTree.pane 80 24 0 0 1).isPane = true) :=
  dump_read_iff ⟨80, 24, 0, 0, 1, .leaf, []⟩ rfl ⟨by norm_num, by norm_num, by norm_num,
    by norm_num, by norm_num⟩ (.pane 80 24 0 0 1)

/-- A window split from top to bottom is printed as one that is split from left to right. -/
theorem dump_turns_split :
    ¬ ((∀ l : TmuxLayout, l.typed = true → l.FieldsFit →
        (init.initLayout l.dumpLayout).1 = true ∧
          (init.initLayout l.dumpLayout).2.shape = l.shape) ∧
      ∀ t : LayoutTree, (init.initLayout t.text).1 = true →
        (init.initLayout t.text).2.dumpLayout = t.text) := by
  rintro ⟨-, htext⟩
  have hread := initLayout_text (.split 78 28 0 0 true (.pane 78 28 0 0 1) [])
  have hsame := htext _ (by rw [hread.1])
  rw [hread.1, LayoutTree.dumpLayout_object, LayoutTree.text_turn_iff] at hsame
  exact absurd hsame (by simp [LayoutTree.isPane])

end Printing

section Rereading

/-- What an object has read before. -/
def afterReading (texts : List (List UInt8)) : TmuxLayout :=
  texts.foldl (fun l text => (l.initLayout text).2) init

/-- Nothing is left of earlier texts that a text would not replace: no children where it
has a split, and no pane id where it has a pane without its number. -/
def FreshFor (l : TmuxLayout) (text : List UInt8) : Prop :=
  ∀ width height x y c t, dims text = .read width height x y (c :: t) →
    (isOpen c = true → l.child = []) ∧
      (c = octetOf ',' → (∀ b ∈ t, isBlank b = true) → l.paneid = init.paneid)

/-- Children are added behind those that are there. -/
theorem parseLayoutChildren_eq (n : Nat) (child : List TmuxLayout) (s : Istream) :
    parseLayoutChildren n child s =
      ((parseLayoutChildren n [] s).1, child ++ (parseLayoutChildren n [] s).2.1,
        (parseLayoutChildren n [] s).2.2) := by
  induction n generalizing child s with
  | zero => simp [parseLayoutChildren]
  | succ n ih =>
      rw [parseLayoutChildren_succ, parseLayoutChildren_succ]
      dsimp only
      split_ifs
      · simp
      · rw [ih (child ++ _), ih ([] ++ _)]
        simp
      · simp

theorem kindOf_cases (o : UInt8) : kindOf o = .vertical ∨ kindOf o = .horizontal := by
  rw [kindOf]
  split_ifs
  · exact .inl rfl
  · exact .inr rfl

theorem shapes_eq_map (ls : List TmuxLayout) : shapes ls = ls.map shape := by
  induction ls with
  | nil => rfl
  | cons l ls ih => rw [shapes, ih, List.map_cons]

theorem shapes_append_eq_iff (ls ls' : List TmuxLayout) :
    shapes (ls ++ ls') = shapes ls' ↔ ls = [] := by
  constructor
  · intro h
    have hlen := congrArg List.length h
    simp only [shapes_eq_map, List.length_map, List.length_append] at hlen
    exact List.eq_nil_of_length_eq_zero (by omega)
  · rintro rfl
    rfl

/-- The pane id is read over an old one unless there is nothing to read. -/
theorem readUnsignedInto_old {s : Istream} {text : List UInt8} (hs : s = ⟨text, false, false⟩)
    (old old' : Nat) :
    (s.readUnsignedInto old).1 = (s.readUnsignedInto old').1 ↔
      (∀ b ∈ text, isBlank b = true) → old = old' := by
  subst hs
  cases hdrop : text.dropWhile isBlank with
  | nil =>
      have hold : ∀ o, (readUnsignedInto o ⟨text, false, false⟩).1 = o := by
        intro o
        simp [readUnsignedInto, readNumber, skip, good, hdrop]
      rw [hold, hold]
      exact ⟨fun h _ => h, fun h => h (List.dropWhile_eq_nil_iff.mp hdrop)⟩
  | cons c cs =>
      have hnot : ¬ ∀ b ∈ text, isBlank b = true := by
        intro h
        rw [List.dropWhile_eq_nil_iff.mpr h] at hdrop
        cases hdrop
      simp only [readUnsignedInto, readNumber, skip, good, hdrop, hnot, false_implies, iff_true]
      rfl

/-- What an accepted text is: the four numbers, and a split or a pane. -/
theorem initLayout_cases {text : List UInt8} (h : (init.initLayout text).1 = true) :
    ∃ width height x y c t, dims text = .read width height x y (c :: t) ∧
      (isOpen c = true ∨ c = octetOf ',') := by
  have hfuel : 2 * text.length + 2 = (2 * text.length + 1) + 1 := rfl
  rw [initLayout, hfuel] at h
  rcases dimsCase (2 * text.length + 1) init (ready_ofString text) with
    ⟨width, height, x, y, rest, s, htext, hs, hout⟩ | ⟨rest, -, hok, -⟩ | ⟨-, hok, -⟩
  · cases rest with
    | nil => simp [hout, (parseKind_nil _ _ hs).1] at h
    | cons c t =>
        refine ⟨width, height, x, y, c, t, htext, ?_⟩
        by_contra hc
        rw [not_or, Bool.not_eq_true] at hc
        simp [hout, parseKind_other _ _ hc.1 hc.2 hs, rejected] at h
  · simp [hok] at h
  · simp [hok] at h

section Accepted

variable {text t : List UInt8} {width height x y : Nat} {c : UInt8}

/-- What an object holds after a text with a split. -/
theorem initLayout_open (hdims : dims text = .read width height x y (c :: t))
    (hc : isOpen c = true) (l : TmuxLayout) :
    l.initLayout text =
      let out := parseLayoutChildren (2 * text.length + 1) [] ⟨t, false, false⟩
      (out.1, ⟨width, height, x, y, l.paneid, if out.1 then kindOf c else .none,
        l.child ++ out.2.1⟩) := by
  have hfuel : 2 * text.length + 2 = (2 * text.length + 1) + 1 := rfl
  rw [initLayout, hfuel]
  rcases dimsCase (2 * text.length + 1) l (ready_ofString text) with
    ⟨width', height', x', y', rest, s, htext, hs, hout⟩ | ⟨rest, htext, -⟩ | ⟨htext, -⟩
  · rw [hdims] at htext
    cases htext
    rw [hout, parseKind_open _ _ hc hs, parseLayoutChildren_eq]
    dsimp only
    cases hok : (parseLayoutChildren (2 * text.length + 1) [] ⟨t, false, false⟩).1 <;>
      simp [rejected]
  · rw [hdims] at htext
    cases htext
  · rw [hdims] at htext
    cases htext

/-- What an object holds after a text with a pane. -/
theorem initLayout_comma (hdims : dims text = .read width height x y (octetOf ',' :: t))
    (l : TmuxLayout) :
    l.initLayout text =
      (true, ⟨width, height, x, y, (readUnsignedInto l.paneid ⟨t, false, false⟩).1, .leaf,
        l.child⟩) := by
  have hfuel : 2 * text.length + 2 = (2 * text.length + 1) + 1 := rfl
  rw [initLayout, hfuel]
  rcases dimsCase (2 * text.length + 1) l (ready_ofString text) with
    ⟨width', height', x', y', rest, s, htext, hs, hout⟩ | ⟨rest, htext, -⟩ | ⟨htext, -⟩
  · rw [hdims] at htext
    cases htext
    rw [hout, parseKind_comma _ _ hs]
  · rw [hdims] at htext
    cases htext
  · rw [hdims] at htext
    cases htext

end Accepted

/-- **A text gives an object the tree that it gives a fresh one exactly if nothing is
left** of what the object has read before. -/
theorem reread_iff (earlier : List (List UInt8)) (text : List UInt8)
    (haccepted : (init.initLayout text).1 = true) :
    ((afterReading earlier).initLayout text).1 = true ∧
      (((afterReading earlier).initLayout text).2.shape = (init.initLayout text).2.shape ↔
        (afterReading earlier).FreshFor text) := by
  generalize afterReading earlier = l
  obtain ⟨width, height, x, y, c, t, hdims, hc⟩ := initLayout_cases haccepted
  have hfresh : l.FreshFor text ↔ (isOpen c = true → l.child = []) ∧
      (c = octetOf ',' → (∀ b ∈ t, isBlank b = true) → l.paneid = init.paneid) := by
    constructor
    · exact fun h => h width height x y c t hdims
    · intro h width' height' x' y' c' t' hdims'
      rw [hdims] at hdims'
      cases hdims'
      exact h
  rw [hfresh]
  rcases hc with hc | rfl
  · have hcomma := isOpen_ne_comma hc
    have hok : (parseLayoutChildren (2 * text.length + 1) [] ⟨t, false, false⟩).1 = true := by
      rw [initLayout_open hdims hc] at haccepted
      exact haccepted
    rw [initLayout_open hdims hc, initLayout_open hdims hc]
    simp only [hok, if_true, hc, hcomma, true_implies, false_implies, and_true, true_and]
    generalize (parseLayoutChildren (2 * text.length + 1) [] ⟨t, false, false⟩).2.1 = new
    have hnew : init.child ++ new = new := rfl
    rw [hnew, ← shapes_append_eq_iff l.child new]
    rcases kindOf_cases c with hkind | hkind
    · rw [hkind, shape, shape, LayoutShape.split.injEq]
      simp only [true_and]
    · rw [hkind, shape, shape, LayoutShape.split.injEq]
      simp only [true_and]
  · have hopen : isOpen (octetOf ',') = false := by decide
    rw [initLayout_comma hdims, initLayout_comma hdims]
    simp only [hopen, Bool.false_eq_true, false_implies, true_and, true_implies, shape,
      LayoutShape.pane.injEq]
    exact readUnsignedInto_old rfl l.paneid init.paneid

/-- A pane after a split. -/
theorem reread_iff_pane :
    let earlier := [LayoutTree.text (.split 78 28 0 0 true (.pane 78 28 0 0 1) [])]
    let text := LayoutTree.text (.pane 78 28 0 0 1)
    ((afterReading earlier).initLayout text).1 = true ∧
      (((afterReading earlier).initLayout text).2.shape = (init.initLayout text).2.shape ↔
        (afterReading earlier).FreshFor text) :=
  reread_iff _ _ (by rw [(initLayout_text _).1])

/-- A split that is read twice has its children twice. -/
theorem reread_doubles_children :
    ¬ ∀ (earlier : List (List UInt8)) (text : List UInt8), (init.initLayout text).1 = true →
      ((afterReading earlier).initLayout text).2.shape = (init.initLayout text).2.shape := by
  intro h
  let t := LayoutTree.split 78 28 0 0 true (.pane 78 28 0 0 1) []
  have hends : EndsNumber
      (octetOf '[' :: (LayoutTree.text (.pane 78 28 0 0 1) ++ [octetOf ']'])) :=
    endsNumber_cons (not_digit_of_isOpen (isOpen_openBracket true)) _
  have hdims : dims t.text = .read 78 28 0 0
      (octetOf '[' :: (LayoutTree.text (.pane 78 28 0 0 1) ++ [octetOf ']'])) :=
    dims_dimsText 78 28 0 0 hends
  have hread := initLayout_text t
  have hsame := h [t.text] t.text (by rw [hread.1])
  have hafter : afterReading [t.text] = t.object := by
    rw [afterReading, List.foldl_cons, List.foldl_nil, hread.1]
  have hagain := initLayout_open hdims (isOpen_openBracket true)
  rw [hafter, hagain t.object, hagain init] at hsame
  have hok : (parseLayoutChildren (2 * t.text.length + 1) []
      ⟨LayoutTree.text (.pane 78 28 0 0 1) ++ [octetOf ']'], false, false⟩).1 = true := by
    have hfirst := hread.1
    rw [hagain init] at hfirst
    exact congrArg Prod.fst hfirst
  have hkind : kindOf (octetOf '[') = .vertical := by decide
  simp only [hok, if_true, hkind, shape, LayoutShape.split.injEq, true_and] at hsame
  rw [show init.child = [] from rfl, List.nil_append, shapes_append_eq_iff] at hsame
  exact absurd hsame (by simp [t, LayoutTree.object])

end Rereading

end TmuxLayout
end Tmux
end Qutty
