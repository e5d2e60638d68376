import Qutty.Config.WrittenValues

/-!
# Settings that are written and read

What an option has in a store is its slot.  The elements that are written for an option
change the slot of this option only, when they are read (`rereads_writeOption`), so a
session that is written and read has for every option what `Slot.reread` makes of the
slot that was written and of the default (`rereads_writeOptions`).
-/

namespace Qutty
namespace Config

open Lib Lib.ByteOrder Lib.PullParser Menu

section Slots

/-- What a store has for an option. -/
structure Slot where
  scalar : Option Value
  list : Int → Option CInt
  dict : OrderedMap CStr CStr

/-- The slot of an option. -/
def Conf.slot (conf : Conf) (k : ConfOption) : Slot := ⟨conf.scalar k, conf.list k, conf.dict k⟩

variable {conf : Conf} {k j : ConfOption}

theorem slot_set {v : Value} (h : k.subkey = .none ∧ v.Fits k.value) :
    (conf.set k v h).slot j = if j = k then { conf.slot k with scalar := some v } else conf.slot j := by
  rw [Conf.slot, Conf.scalar_set]
  split_ifs with hj
  · subst hj
    rfl
  · rfl

theorem slot_setListItem {i : Int} {v : CInt} :
    (conf.setListItem k i v).slot j =
      if j = k then { conf.slot k with list := Function.update (conf.slot k).list i (some v) }
      else conf.slot j := by
  by_cases hj : j = k
  · subst hj
    rw [if_pos rfl]
    exact congrArg (Slot.mk _ · _) (Function.update_self j _ _)
  · rw [if_neg hj]
    exact congrArg (Slot.mk _ · _) (Function.update_of_ne hj _ _)

theorem slot_setDictItem {subkey v : CStr} :
    (conf.setDictItem k subkey v).slot j =
      if j = k then { conf.slot k with dict := (conf.slot k).dict.insert subkey v }
      else conf.slot j := by
  rw [Conf.slot, Conf.dict_setDictItem]
  split_ifs with hj
  · subst hj
    rfl
  · rfl

end Slots

section Specification

variable {K : Type} (plat : Platform K)

/-- The items of a list that are written: components for the colours. -/
def itemCount (gssapi : Bool) (k : ConfOption) : Nat :=
  if k = confColours then 66 else (optionFor gssapi k).toNat

/-- A font that is written and read: the name may be another one. -/
def rereadFont (font : FontSpec) : FontSpec where
  name := cstr ((toLatin1 (fromUtf8 font.name.val)).take 63)
  isbold := font.isbold
  height := font.height
  charset := font.charset
  name_fits := by
    have hle := length_cstr_le ((toLatin1 (fromUtf8 font.name.val)).take 63)
    rw [List.length_take] at hle
    omega

/-- A value that is written and read. -/
def rereadValue : Value → Value
  | .bool b => .bool b
  | .int i => .int i
  | .string s utf8 =>
      .string (recode (if utf8 then fromUtf8 s.val else plat.fromLocal8Bit s.val)) false
  | .filename fn =>
      .filename (filenameFromUtf8 (recode (fromUtf8 (filenameToUtf8 fn).val)))
  | .font font => .font (rereadFont font)

/-- An entry of a dictionary that is written and read. -/
def rereadEntry (dict : OrderedMap CStr CStr) (e : CStr × CStr) : OrderedMap CStr CStr :=
  dict.insert (recode (fromUtf8 e.1.val)) (recode (fromUtf8 e.2.val))

/-- What a slot is after the slot `old` has been written and read into it. -/
def Slot.reread (k : ConfOption) (old new : Slot) : Slot where
  scalar := (old.scalar.map (rereadValue plat)).or new.scalar
  list i := if 0 ≤ i ∧ i < itemCount plat.gssapi k then old.list i else new.list i
  dict := if k.subkey = .str then old.dict.entries.foldl rereadEntry new.dict else new.dict

/-- Every item that is written is there, and the components of the colours are bytes. -/
structure Complete (gssapi : Bool) (conf : Conf) : Prop where
  items : ∀ k ∈ confOptions, ∀ i < itemCount gssapi k, (conf.list k i).isSome
  colours : ∀ i < 66, ∀ v, conf.list confColours (i : Nat) = some v → Component v

/-- Reading some elements changes the slot of one option, in a certain way. -/
def Rereads (k : ConfOption) (es : List (Element Tag)) (change : Slot → Slot → Prop) : Prop :=
  ∀ conf, ∃ conf', es.foldlM applySetting conf = some conf' ∧
    change (conf.slot k) (conf'.slot k) ∧ ∀ j ≠ k, conf'.slot j = conf.slot j

end Specification

section Dispatch

variable {conf : Conf} {e : Element Tag}

theorem applySetting_bool (h : e.tag.name = nameBool) :
    applySetting conf e = setBOOL e.tag conf := by
  rw [applySetting, if_pos h]

theorem applySetting_int (h : e.tag.name = nameInt) :
    applySetting conf e = setINT e.tag none none conf := by
  rw [applySetting, if_neg (by rw [h]; decide), if_pos h]

theorem applySetting_str (h : e.tag.name = nameStr) :
    applySetting conf e = setSTR e.tag conf := by
  rw [applySetting, if_neg (by rw [h]; decide), if_neg (by rw [h]; decide), if_pos h]

theorem applySetting_filename (h : e.tag.name = nameFilename) :
    applySetting conf e = setFILENAME e.tag conf := by
  rw [applySetting, if_neg (by rw [h]; decide), if_neg (by rw [h]; decide),
    if_neg (by rw [h]; decide), if_pos h]

theorem applySetting_font (h : e.tag.name = nameFontSpec) :
    applySetting conf e = setFONT e.tag conf := by
  rw [applySetting, if_neg (by rw [h]; decide), if_neg (by rw [h]; decide),
    if_neg (by rw [h]; decide), if_neg (by rw [h]; decide), if_pos h]

theorem applySetting_list (h : e.tag.name = nameList) :
    applySetting conf e = applyLIST conf e := by
  rw [applySetting, if_neg (by rw [h]; decide), if_neg (by rw [h]; decide),
    if_neg (by rw [h]; decide), if_neg (by rw [h]; decide), if_neg (by rw [h]; decide), if_pos h]

theorem applySetting_dict (h : e.tag.name = nameDict) :
    applySetting conf e = applyDictSTR conf e := by
  rw [applySetting, if_neg (by rw [h]; decide), if_neg (by rw [h]; decide),
    if_neg (by rw [h]; decide), if_neg (by rw [h]; decide), if_neg (by rw [h]; decide),
    if_neg (by rw [h]; decide), if_pos h]

end Dispatch

section Scalars

variable {K : Type} {plat : Platform K} {conf : Conf} {k : ConfOption}

/-- What a reader sees of an element of an option. -/
theorem read_writeValue (hk : k ∈ confOptions) (type value : Text) :
    Read.of (writeValue type (some (optionName k)) value).tag =
      ⟨k.bytes, toLatin1 value, some k⟩ := by
  have hkey : (Read.of (writeValue type (some (optionName k)) value).tag).key = some k :=
    key_of_name hk rfl
  exact congrArg₂ (fun keyName key => Read.mk keyName (toLatin1 value) key)
    (toLatin1_optionName hk) hkey

/-- What a reader sees of an element without a key. -/
theorem value_writeValue (type value : Text) :
    (Read.of (writeValue type none value).tag).value = toLatin1 value := rfl

/-- A value fits the option again. -/
theorem rereadValue_fits {v : Value} {t : ValueType} (h : v.Fits t) (ht : t ≠ .utf8) :
    (rereadValue plat v).Fits t := by
  cases v with
  | bool b => exact h
  | int i => exact h
  | string s utf8 =>
      rcases h with h | ⟨h, -⟩ | ⟨h, -⟩
      · exact .inl h
      · exact .inr (.inl ⟨h, rfl⟩)
      · exact absurd h ht
  | filename fn => exact h
  | font font => exact h

variable (plat k) in
/-- The element of a value. -/
def scalarElement : Value → Element Tag
  | .bool b => writeValue nameBool (some (optionName k)) (numberText (if b then 1 else 0))
  | .int v => writeValue nameInt (some (optionName k)) (numberText v.val)
  | .string s utf8 =>
      writeValue nameStr (some (optionName k))
        (if utf8 then fromUtf8 s.val else plat.fromLocal8Bit s.val)
  | .filename fn =>
      writeValue nameFilename (some (optionName k)) (fromUtf8 (filenameToUtf8 fn).val)
  | .font font =>
      .mk ⟨nameFontSpec, [(attrKey, optionName k), (attrName, fromUtf8 font.name.val),
        (attrHeight, numberText font.height.val),
        (attrBold, numberText (if font.isbold then 1 else 0)),
        (attrCharset, numberText font.charset.val)]⟩ []

/-- The element that is written for a value. -/
theorem writeOption_scalar (hsub : k.subkey = .none) (hutf8 : k.value ≠ .utf8) {v : Value}
    (hv : conf.scalar k = some v) : writeOption conf k plat = some [scalarElement plat k v] := by
  have hfits := (conf.scalar_fits k v hv).2
  cases v with
  | bool b =>
      have ht : k.value = .bool := hfits
      simp only [writeOption, hsub, ht, writeBOOL, hv, scalarElement]
  | int i =>
      have ht : k.value = .int := hfits
      simp only [writeOption, hsub, ht, writeINT, hv, scalarElement]
  | string s utf8 =>
      rcases hfits with ht | ⟨ht, rfl⟩ | ⟨ht, -⟩
      · simp only [writeOption, hsub, ht, writeSTRAMBI, hv, scalarElement]
      · simp only [writeOption, hsub, ht, writeSTR, hv, scalarElement, Bool.false_eq_true, if_false]
      · exact absurd ht hutf8
  | filename fn =>
      have ht : k.value = .filename := hfits
      simp only [writeOption, hsub, ht, writeFILENAME, hv, scalarElement]
  | font font =>
      have ht : k.value = .font := hfits
      simp only [writeOption, hsub, ht, writeFONT, hv, scalarElement]

theorem toInt_flag (b : Bool) :
    toInt 10 (toLatin1 (numberText (if b then 1 else 0))) =
      some (if b then ⟨1, by decide⟩ else ⟨0, by decide⟩) := by
  cases b
  · exact toInt_numberText ⟨0, by decide⟩
  · exact toInt_numberText ⟨1, by decide⟩

theorem viewToInt_flag (b : Bool) :
    viewToInt (numberText (if b then 1 else 0)) = if b then ⟨1, by decide⟩ else ⟨0, by decide⟩ := by
  cases b
  · exact viewToInt_numberText ⟨0, by decide⟩
  · exact viewToInt_numberText ⟨1, by decide⟩

/-- A font that is read from its element. -/
theorem fontOf_scalarElement (font : FontSpec) :
    fontOf (scalarElement plat k (.font font)).tag = rereadFont font := by
  have hheight : (scalarElement plat k (.font font)).tag.value attrHeight =
      numberText font.height.val := rfl
  have hbold : (scalarElement plat k (.font font)).tag.value attrBold =
      numberText (if font.isbold then 1 else 0) := rfl
  have hcharset : (scalarElement plat k (.font font)).tag.value attrCharset =
      numberText font.charset.val := rfl
  have hname : (scalarElement plat k (.font font)).tag.value attrName = fromUtf8 font.name.val :=
    rfl
  simp only [fontOf, rereadFont, hheight, hbold, hcharset, hname, viewToInt_numberText,
    viewToInt_flag]
  cases font.isbold <;> rfl

/-- **The element of a value sets the value that is read.** -/
theorem applySetting_scalarElement (hk : k ∈ confOptions) (v : Value) (conf : Conf) :
    applySetting conf (scalarElement plat k v) =
      confSet conf (some k) (rereadValue plat v) := by
  cases v with
  | bool b =>
      rw [applySetting_bool rfl]
      simp only [setBOOL, scalarElement, read_writeValue hk, toInt_flag]
      cases b <;> rfl
  | int i =>
      rw [applySetting_int rfl]
      simp only [setINT, scalarElement, read_writeValue hk, toInt_numberText]
      rfl
  | string s utf8 =>
      rw [applySetting_str rfl]
      simp only [setSTR, scalarElement, read_writeValue hk]
      rfl
  | filename fn =>
      rw [applySetting_filename rfl]
      simp only [setFILENAME, scalarElement, read_writeValue hk]
      rfl
  | font font =>
      have hkey : (Read.of (scalarElement plat k (.font font)).tag).key = some k :=
        key_of_name hk rfl
      rw [applySetting_font rfl, setFONT, hkey]
      simp only [fontOf_scalarElement]
      rfl

theorem itemCount_of_none (hsub : k.subkey ≠ .int) (gssapi : Bool) :
    itemCount gssapi k = 0 := by
  have hne : ∀ l : ConfOption, l.subkey = .int → k ≠ l := fun l hl heq => hsub (heq ▸ hl)
  rw [itemCount, if_neg (hne _ rfl), optionFor, if_neg (hne _ rfl), if_neg (hne _ rfl),
    if_neg (hne _ rfl), if_neg (hne _ rfl), if_neg (hne _ rfl), if_neg (fun h => hne _ rfl h.2)]
  rfl

/-- An option without subkeys is written and read. -/
theorem rereads_scalar (hk : k ∈ confOptions) (hsub : k.subkey = .none) (hutf8 : k.value ≠ .utf8) :
    ∃ es, writeOption conf k plat = some es ∧
      Rereads k es (fun new new' => new' = Slot.reread plat k (conf.slot k) new) := by
  have hcount := itemCount_of_none (by rw [hsub]; decide) plat.gssapi
  have hreread : ∀ old new : Slot, Slot.reread plat k old new =
      { new with scalar := (old.scalar.map (rereadValue plat)).or new.scalar } := by
    intro old new
    have hlist : (fun i => if 0 ≤ i ∧ i < ((0 : Nat) : Int) then old.list i else new.list i) =
        new.list := funext fun i => if_neg (by omega)
    simp only [Slot.reread, hcount, hlist, hsub]
    rfl
  cases hv : conf.scalar k with
  | none =>
      refine ⟨[], ?_, fun c => ⟨c, rfl, ?_, fun j _ => rfl⟩⟩
      · have htypes : k.value = .bool ∨ k.value = .int ∨ k.value = .str ∨ k.value = .strAmbi ∨
            k.value = .filename ∨ k.value = .font := by
          cases ht : k.value <;> simp [ht] at hutf8 ⊢
        rcases htypes with ht | ht | ht | ht | ht | ht <;>
          simp only [writeOption, hsub, ht, writeBOOL, writeINT, writeSTR, writeSTRAMBI,
            writeFILENAME, writeFONT, hv]
      · show c.slot k = Slot.reread plat k (conf.slot k) (c.slot k)
        rw [hreread]
        simp [Conf.slot, hv]
  | some v =>
      refine ⟨_, writeOption_scalar hsub hutf8 hv, fun c => ?_⟩
      have hfits : k.subkey = .none ∧ (rereadValue plat v).Fits k.value :=
        ⟨hsub, rereadValue_fits (conf.scalar_fits k v hv).2 hutf8⟩
      refine ⟨c.set k _ hfits, ?_, ?_, fun j hj => by rw [slot_set, if_neg hj]⟩
      · rw [List.foldlM_cons, applySetting_scalarElement hk, confSet_some hfits]
        rfl
      · show (c.set k _ hfits).slot k = Slot.reread plat k (conf.slot k) (c.slot k)
        rw [slot_set, if_pos rfl, hreread]
        simp [Conf.slot, hv]

end Scalars

section Lists

variable {K : Type} {plat : Platform K} {conf : Conf} {k : ConfOption}

theorem applyListItem_int {e : Element Tag} (h : e.tag.name = nameInt) (s : Conf × Int) :
    applyListItem k s e = (setINT e.tag (some k) (some s.2) s.1).map (·, s.2 + 1) := by
  rw [applyListItem, if_pos h]

theorem applyListItem_colour {e : Element Tag} (h : e.tag.name = nameColour) (s : Conf × Int) :
    applyListItem k s e = (setCOLOUR e.tag k s.2 s.1).map (·, s.2 + 1) := by
  rw [applyListItem, if_neg (by rw [h]; decide), if_pos h]

/-- The numbers of an item. -/
def itemWidth (k : ConfOption) : Nat := if k = confColours then 3 else 1

/-- A list with the items of another one in a range. -/
def fill (old new : Int → Option CInt) (low high : Nat) (i : Int) : Option CInt :=
  if low ≤ i ∧ i < high then old i else new i

/-- Ranges that are one behind the other. -/
theorem fill_fill (old new : Int → Option CInt) {low mid high : Nat} (hlow : low ≤ mid)
    (hhigh : mid ≤ high) : fill old (fill old new low mid) mid high = fill old new low high := by
  funext i
  unfold fill
  split_ifs
  · rfl
  · omega
  · rfl
  · omega
  · omega
  · rfl

/-- What is known after some items of a list have been read. -/
structure Filled (conf : Conf) (k : ConfOption) (low high : Nat) (c c' : Conf) : Prop where
  slot : c'.slot k = { c.slot k with list := fill (conf.list k) (c.slot k).list low high }
  other : ∀ j ≠ k, c'.slot j = c.slot j

theorem Filled.trans {low mid high : Nat} {c c' c'' : Conf} (h : Filled conf k low mid c c')
    (h' : Filled conf k mid high c' c'') (hlow : low ≤ mid) (hhigh : mid ≤ high) :
    Filled conf k low high c c'' where
  slot := by
    rw [h'.slot, h.slot]
    exact congrArg (Slot.mk _ · _) (fill_fill _ _ hlow hhigh)
  other j hj := (h'.other j hj).trans (h.other j hj)

/-- One number of a list. -/
theorem filled_setListItem {i : Nat} {v : CInt} (hv : conf.list k i = some v) (c : Conf) :
    Filled conf k i (i + 1) c (c.setListItem k i v) where
  slot := by
    rw [slot_setListItem, if_pos rfl]
    refine congrArg (Slot.mk _ · _) (funext fun j => ?_)
    unfold fill
    by_cases hj : j = i
    · subst hj
      rw [Function.update_self, if_pos (by omega), hv]
    · rw [Function.update_of_ne hj, if_neg (by omega)]
  other j hj := by rw [slot_setListItem, if_neg hj]

variable (hk : k ∈ confOptions) (hsub : k.subkey = .int)

include hk hsub in
theorem confSetIntInt_some (c : Conf) (i : Int) (v : CInt) :
    confSetIntInt c k i v = some (c.setListItem k i v) := by
  have hvalue : k.value = .int := by
    rcases confOptions_types k hk with ⟨h, -⟩ | ⟨-, h⟩ | ⟨h, -⟩
    · exact absurd (hsub.symm.trans h) (by decide)
    · exact h
    · exact absurd (hsub.symm.trans h) (by decide)
  exact if_pos ⟨hsub, hvalue⟩

/-- Nothing but the list of an option changes. -/
structure OnlyList (k : ConfOption) (c c' : Conf) : Prop where
  slot : ∃ l, c'.slot k = { c.slot k with list := l }
  other : ∀ j ≠ k, c'.slot j = c.slot j

theorem OnlyList.refl (c : Conf) : OnlyList k c c := ⟨⟨_, rfl⟩, fun _ _ => rfl⟩

theorem OnlyList.trans {c c' c'' : Conf} (h : OnlyList k c c') (h' : OnlyList k c' c'') :
    OnlyList k c c'' where
  slot := by
    obtain ⟨l, hl⟩ := h.slot
    obtain ⟨l', hl'⟩ := h'.slot
    exact ⟨l', by rw [hl', hl]⟩
  other j hj := (h'.other j hj).trans (h.other j hj)

theorem onlyList_setListItem (c : Conf) (i : Int) (v : CInt) :
    OnlyList k c (c.setListItem k i v) where
  slot := ⟨_, by rw [slot_setListItem, if_pos rfl]⟩
  other j hj := by rw [slot_setListItem, if_neg hj]

include hk hsub in
/-- **An item of a list is read without an abort**, whatever it is. -/
theorem applyListItem_onlyList (s : Conf × Int) (e : Element Tag) :
    ∃ s', applyListItem k s e = some s' ∧ OnlyList k s.1 s'.1 := by
  by_cases hint : e.tag.name = nameInt
  · rw [applyListItem_int hint]
    cases hv : toInt 10 (Read.of e.tag).value with
    | none =>
        refine ⟨(s.1, s.2 + 1), ?_, .refl _⟩
        simp only [setINT, hv, Option.map_some]
    | some v =>
        refine ⟨(s.1.setListItem k s.2 v, s.2 + 1), ?_, onlyList_setListItem _ _ _⟩
        simp only [setINT, hv, Option.some_or, confSetIntInt_some hk hsub, Option.map_some]
  · by_cases hcolour : e.tag.name = nameColour
    · rw [applyListItem_colour hcolour]
      cases hv : toInt 16 (Read.of e.tag).value with
      | none =>
          refine ⟨(s.1, s.2 + 1), ?_, .refl _⟩
          simp only [setCOLOUR, hv, Option.map_some]
      | some v =>
          refine ⟨(_, s.2 + 1), ?_, ((onlyList_setListItem s.1 (s.2 * 3 + 0) (colourByte v 16)).trans
            (onlyList_setListItem _ (s.2 * 3 + 1) (colourByte v 8))).trans
            (onlyList_setListItem _ (s.2 * 3 + 2) (colourByte v 0))⟩
          simp only [setCOLOUR, hv, confSetIntInt_some hk hsub, Option.bind_eq_bind,
            Option.bind_some, Option.map_some]
          rfl
    · exact ⟨s, by rw [applyListItem, if_neg hint, if_neg hcolour], .refl _⟩

include hk hsub in
theorem applyListItems_onlyList (items : List (Element Tag)) (s : Conf × Int) :
    ∃ s', items.foldlM (applyListItem k) s = some s' ∧ OnlyList k s.1 s'.1 := by
  induction items generalizing s with
  | nil => exact ⟨s, rfl, .refl _⟩
  | cons e items ih =>
      obtain ⟨s', hs', honly⟩ := applyListItem_onlyList hk hsub s e
      obtain ⟨s'', hs'', honly'⟩ := ih s'
      refine ⟨s'', ?_, honly.trans honly'⟩
      rw [List.foldlM_cons, hs']
      exact hs''

include hk hsub in
/-- An item that is a number. -/
theorem rereads_number (hne : k ≠ confColours) {i : Nat} {v : CInt}
    (hfirst : (conf.list k (0 : Nat)).isSome) (hv : conf.list k i = some v) :
    ∃ es, writeItem conf k i = some es ∧ ∀ c, ∃ c',
      es.foldlM (applyListItem k) (c, (i : Int)) = some (c', ((i + 1 : Nat) : Int)) ∧
        Filled conf k i (i + 1) c c' := by
  refine ⟨[writeValue nameInt none (numberText v.val)], ?_, fun c =>
    ⟨c.setListItem k i v, ?_, filled_setListItem hv c⟩⟩
  · obtain ⟨w, hw⟩ := Option.isSome_iff_exists.mp hfirst
    rw [Nat.cast_zero] at hw
    simp only [writeItem, if_neg hne, writeListINT, hw, hv, Option.map_some]
  · have hset : setINT (writeValue nameInt none (numberText v.val)).tag (some k) (some (i : Int)) c =
        some (c.setListItem k i v) := by
      simp only [setINT, value_writeValue, toInt_numberText]
      exact confSetIntInt_some hk hsub c i v
    rw [List.foldlM_cons, applyListItem_int rfl]
    simp only [hset]
    rfl

include hk hsub in
/-- An item that is a colour. -/
theorem rereads_colour (heq : k = confColours) {i : Nat} {r g b : CInt}
    (hr : conf.list k (i * 3 + 0 : Nat) = some r) (hg : conf.list k (i * 3 + 1 : Nat) = some g)
    (hb : conf.list k (i * 3 + 2 : Nat) = some b) (hr' : Component r) (hg' : Component g)
    (hb' : Component b) :
    ∃ es, writeItem conf k i = some es ∧ ∀ c, ∃ c',
      es.foldlM (applyListItem k) (c, (i : Int)) = some (c', ((i + 1 : Nat) : Int)) ∧
        Filled conf k (i * 3) ((i + 1) * 3) c c' := by
  refine ⟨[writeValue nameColour none (hexText r.val ++ (hexText g.val ++ hexText b.val))], ?_,
    fun c => ⟨((c.setListItem k (i * 3 + 0 : Nat) r).setListItem k (i * 3 + 1 : Nat) g).setListItem k
      (i * 3 + 2 : Nat) b, ?_, ?_⟩⟩
  · rw [writeItem, if_pos heq, writeCOLOUR, hr, hg, hb]
  · have hcolour := toInt_colour hr' hg' hb'
    obtain ⟨hred, hgreen, hblue⟩ := colourByte_colourValue hr' hg' hb'
    have hset : setCOLOUR
        (writeValue nameColour none (hexText r.val ++ (hexText g.val ++ hexText b.val))).tag k
        (i : Int) c = some (((c.setListItem k (i * 3 + 0 : Nat) r).setListItem k
          (i * 3 + 1 : Nat) g).setListItem k (i * 3 + 2 : Nat) b) := by
      simp only [setCOLOUR, value_writeValue, hcolour, hred, hgreen, hblue,
        confSetIntInt_some hk hsub, Option.bind_eq_bind, Option.bind_some]
      push_cast
      rfl
    rw [List.foldlM_cons, applyListItem_colour rfl]
    simp only [hset]
    rfl
  · have hred := filled_setListItem hr c
    have hgreen := filled_setListItem hg (c.setListItem k (i * 3 + 0 : Nat) r)
    have hblue := filled_setListItem hb
      ((c.setListItem k (i * 3 + 0 : Nat) r).setListItem k (i * 3 + 1 : Nat) g)
    have hend : (i + 1) * 3 = i * 3 + 2 + 1 := by omega
    rw [hend]
    exact (hred.trans hgreen (by omega) (by omega)).trans hblue (by omega) (by omega)

/-- The list of an option that is written is complete. -/
theorem Complete.item {gssapi : Bool} (h : Complete gssapi conf) (hk : k ∈ confOptions) {i : Nat}
    (hi : i < itemCount gssapi k) : ∃ v, conf.list k i = some v :=
  Option.isSome_iff_exists.mp (h.items k hk i hi)

theorem itemCount_eq (gssapi : Bool) (k : ConfOption) :
    itemCount gssapi k = (optionFor gssapi k).toNat * itemWidth k := by
  unfold itemCount itemWidth
  split_ifs with h
  · rw [optionFor, if_pos h]
    rfl
  · rw [Nat.mul_one]

include hk hsub in
/-- **An item is written and read.** -/
theorem rereads_item (h : Complete plat.gssapi conf) {i : Nat}
    (hi : i < (optionFor plat.gssapi k).toNat) :
    ∃ es, writeItem conf k i = some es ∧ ∀ c, ∃ c',
      es.foldlM (applyListItem k) (c, (i : Int)) = some (c', ((i + 1 : Nat) : Int)) ∧
        Filled conf k (i * itemWidth k) ((i + 1) * itemWidth k) c c' := by
  by_cases heq : k = confColours
  · have hcount : (optionFor plat.gssapi k).toNat = 22 := by
      rw [optionFor, if_pos heq]
      rfl
    have hwidth : itemWidth k = 3 := if_pos heq
    have htotal : itemCount plat.gssapi k = 66 := if_pos heq
    obtain ⟨r, hr⟩ := h.item hk (i := i * 3 + 0) (by omega)
    obtain ⟨g, hg⟩ := h.item hk (i := i * 3 + 1) (by omega)
    obtain ⟨b, hb⟩ := h.item hk (i := i * 3 + 2) (by omega)
    have hbytes : ∀ n < 66, ∀ v, conf.list k (n : Nat) = some v → Component v := heq ▸ h.colours
    rw [hwidth]
    exact rereads_colour hk hsub heq hr hg hb (hbytes _ (by omega) r hr)
      (hbytes _ (by omega) g hg) (hbytes _ (by omega) b hb)
  · have hwidth : itemWidth k = 1 := if_neg heq
    have htotal : itemCount plat.gssapi k = (optionFor plat.gssapi k).toNat := if_neg heq
    obtain ⟨v, hv⟩ := h.item hk (htotal ▸ hi)
    rw [hwidth, Nat.mul_one, Nat.mul_one]
    exact rereads_number hk hsub heq (h.items k hk 0 (by omega)) hv

include hk hsub in
/-- The items from one on. -/
theorem rereads_items (h : Complete plat.gssapi conf) (n i : Nat)
    (hi : i + n ≤ (optionFor plat.gssapi k).toNat) :
    ∃ es, writeItems conf k i n = some es ∧ ∀ c, ∃ c',
      es.foldlM (applyListItem k) (c, (i : Int)) = some (c', ((i + n : Nat) : Int)) ∧
        Filled conf k (i * itemWidth k) ((i + n) * itemWidth k) c c' := by
  induction n generalizing i with
  | zero =>
      refine ⟨[], rfl, fun c => ⟨c, rfl, ?_, fun _ _ => rfl⟩⟩
      refine congrArg (Slot.mk _ · _) (funext fun j => ?_)
      rw [fill, Nat.add_zero, if_neg (by omega)]
      rfl
  | succ n ih =>
      obtain ⟨first, hfirst, hread⟩ := rereads_item hk hsub h (i := i) (by omega)
      obtain ⟨rest, hrest, hreadRest⟩ := ih (i + 1) (by omega)
      refine ⟨first ++ rest, ?_, fun c => ?_⟩
      · rw [writeItems, hfirst, hrest]
        rfl
      · obtain ⟨c', hc', hfill'⟩ := hread c
        obtain ⟨c'', hc'', hfill''⟩ := hreadRest c'
        have hend : i + 1 + n = i + (n + 1) := by omega
        rw [hend] at hc'' hfill''
        refine ⟨c'', ?_, hfill'.trans hfill'' (Nat.mul_le_mul_right _ (by omega))
          (Nat.mul_le_mul_right _ (by omega))⟩
        rw [List.foldlM_append, hc']
        exact hc''

include hk hsub in
/-- **A list is written and read.** -/
theorem rereads_list (h : Complete plat.gssapi conf) :
    ∃ es, writeOption conf k plat = some es ∧
      Rereads k es (fun new new' => new' = Slot.reread plat k (conf.slot k) new) := by
  have hvalue : k.value = .int := by
    rcases confOptions_types k hk with ⟨h, -⟩ | ⟨-, h⟩ | ⟨h, -⟩
    · exact absurd (hsub.symm.trans h) (by decide)
    · exact h
    · exact absurd (hsub.symm.trans h) (by decide)
  have hnone : conf.scalar k = none := by
    cases hv : conf.scalar k with
    | none => rfl
    | some v => exact absurd (hsub.symm.trans (conf.scalar_fits k v hv).1) (by decide)
  obtain ⟨items, hitems, hread⟩ := rereads_items hk hsub h (optionFor plat.gssapi k).toNat 0
    (by omega)
  refine ⟨[.mk ⟨nameList, [(attrKey, optionName k)]⟩ items], ?_, fun c => ?_⟩
  · simp only [writeOption, hsub, hvalue, writeINTsINT, hitems, Option.map_some]
  · obtain ⟨c', hc', hfill⟩ := hread c
    have hkey : (Read.of (Element.mk ⟨nameList, [(attrKey, optionName k)]⟩ items).tag).key = some k :=
      key_of_name hk rfl
    refine ⟨c', ?_, ?_, hfill.other⟩
    · rw [List.foldlM_cons, applySetting_list rfl, applyLIST, hkey]
      show (((items.foldlM (applyListItem k) (c, ((0 : Nat) : Int))).map Prod.fst) >>= _) = _
      rw [hc']
      rfl
    · show c'.slot k = Slot.reread plat k (conf.slot k) (c.slot k)
      rw [hfill.slot, Slot.reread, itemCount_eq]
      simp only [Conf.slot, hnone, hsub, Nat.zero_mul, Nat.zero_add, Option.map_none,
        Option.none_or, reduceCtorEq, if_false]
      rfl

end Lists

end Config
end Qutty
