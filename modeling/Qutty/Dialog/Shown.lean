import Qutty.Config.Rereading
import Qutty.Dialog.SettingsDialog
import Qutty.Lib.Controls

/-!
# What the widgets show

Setting a widget changes the form at this widget only, but for the radio buttons of a group
and for the port (`Touches`).  So every widget shows the settings after the loop of
`setConfig` (`load_shows`), and a group of radio buttons of which none is clicked stays as
it was.  The settings stay the same too, but for the colour that was selected.
-/

namespace Qutty
namespace Dialog

open Config Lib Lib.ByteOrder Lib.Controls

section Specification

variable (cp : CodePage) (conf : Conf)

/-- A radio button that is clicked when the settings are shown. -/
structure Widget.ClicksIn (group : String) (w : Widget) : Prop where
  cls : w.cls = .radioButton group true
  type : w.kv.type = .int ∨ w.kv.type = .bool
  meets : ∃ cv, radioValue conf w.kv = some cv ∧ w.kv.meets cv = true

/-- The text of a line edit. -/
def lineText (kv : KeyValue) : Option Text :=
  if kv.isString then textFrom cp conf kv
  else if kv.type = .int then (confGetInt conf kv.key).map (fun v => numberText v.val)
  else if kv.type = .filename then (confGetFilename conf kv.key).map filenameToQString
  else none

/-- The index of a combo box. -/
def comboIndex (cb : ComboBox) (kv : KeyValue) : Option Int :=
  if kv.isString then (textFrom cp conf kv).map (fun text => (cb.indexOf text : Int))
  else if kv.type = .int then (confGetInt conf kv.key).map Subtype.val
  else none

/-- A widget shows the settings. -/
def Shows (before : Form) (w : Widget) (form : Form) : Prop :=
  match w.cls with
  | .checkBox => w.kv.type = .bool →
      ∀ v, confGetBool conf w.kv.key = some v → form.checked w.objectName = v
  | .radioButton group _ => w.ClicksIn conf group →
      ∃ w' ∈ uiMapping, w'.ClicksIn conf group ∧ form.button group = some w'.objectName
  | .lineEdit => ∀ text, lineText cp conf w.kv = some text → form.text w.objectName = text
  | .comboBox => ∀ i, comboIndex cp conf (before.combo w.objectName) w.kv = some i →
      form.combo w.objectName = (before.combo w.objectName).setCurrentIndex i
  | .listWidget => ∀ items, listItems conf w = some (some items) → form.list w.objectName = items
  | .tableWidget => w.kv.type = .strStr → .twoColumns ∈ w.kv.options →
      form.table w.objectName = tableRows cp conf w.kv

/-- Settings that have a value for whatever is shown. -/
structure Loaded : Prop where
  scalars : ∀ w ∈ uiMapping, w.kv.key.subkey = .none → .optional ∉ w.kv.options →
    (conf.scalar w.kv.key).isSome
  items : ∀ w ∈ uiMapping, ∀ items, w.kv.value = .dataList items → .userRole0 ∈ w.kv.options →
    ∀ i < items.length, (conf.list w.kv.key i).isSome
  wordness : ∀ ch < 256, (conf.list confWordness (ch : Nat)).isSome
  font : (conf.scalar confFont).isSome

/-- The settings after the list of colours has been cleared. -/
def clearedConf (form : Form) : Option Conf :=
  match form.colourRow with
  | none => some conf
  | some prev => onColourCleared conf form prev

end Specification

section Types

variable {conf : Conf} {key : ConfOption}

/-- The types of the subkeys and of the values. -/
def KeyType.types : KeyType → Option (SubkeyType × ValueType)
  | .none => Option.none
  | .str => some (.none, .str)
  | .strAmbi => some (.none, .strAmbi)
  | .utf8 => some (.none, .utf8)
  | .int => some (.none, .int)
  | .bool => some (.none, .bool)
  | .filename => some (.none, .filename)
  | .font => some (.none, .font)
  | .intInt => some (.int, .int)
  | .strStr => some (.str, .str)

theorem keyToType_types (h : keyToType key ≠ .none) :
    (keyToType key).types = some (key.subkey, key.value) := by
  obtain ⟨name, subkey, value⟩ := key
  cases subkey <;> cases value <;> first | rfl | exact absurd rfl h

/-- The types of a key whose type is known. -/
theorem types_of_type {t : KeyType} {s : SubkeyType} {v : ValueType} (h : keyToType key = t)
    (ht : t.types = some (s, v)) : key.subkey = s ∧ key.value = v := by
  have hne : keyToType key ≠ .none := by
    rintro hnone
    rw [← h, hnone] at ht
    exact absurd ht (by simp [KeyType.types])
  have htypes := keyToType_types hne
  rw [h, ht] at htypes
  obtain ⟨hsubkey, hvalue⟩ := Prod.mk.inj (Option.some.inj htypes)
  exact ⟨hsubkey.symm, hvalue.symm⟩

/-- What a getter finds. -/
theorem exists_fits {t : KeyType} {v : ValueType} (h : keyToType key = t)
    (ht : t.types = some (.none, v)) (hsome : (conf.scalar key).isSome) :
    ∃ value, conf.scalar key = some value ∧ value.Fits v := by
  obtain ⟨value, hvalue⟩ := Option.isSome_iff_exists.mp hsome
  exact ⟨value, hvalue, (types_of_type h ht).2 ▸ (conf.scalar_fits key value hvalue).2⟩

theorem confGetBool_isSome (h : keyToType key = .bool) (hsome : (conf.scalar key).isSome) :
    ∃ v, conf.scalar key = some (.bool v) := by
  obtain ⟨value, hvalue, hfits⟩ := exists_fits h rfl hsome
  cases value with
  | bool v => exact ⟨v, hvalue⟩
  | _ => simp [Value.Fits] at hfits

theorem confGetInt_isSome (h : keyToType key = .int) (hsome : (conf.scalar key).isSome) :
    ∃ v, conf.scalar key = some (.int v) := by
  obtain ⟨value, hvalue, hfits⟩ := exists_fits h rfl hsome
  cases value with
  | int v => exact ⟨v, hvalue⟩
  | _ => simp [Value.Fits] at hfits

theorem confGetFilename_isSome (h : keyToType key = .filename)
    (hsome : (conf.scalar key).isSome) : ∃ fn, conf.scalar key = some (.filename fn) := by
  obtain ⟨value, hvalue, hfits⟩ := exists_fits h rfl hsome
  cases value with
  | filename fn => exact ⟨fn, hvalue⟩
  | _ => simp [Value.Fits] at hfits

theorem isString_cases {kv : KeyValue} (h : kv.isString = true) :
    keyToType kv.key = .str ∨ keyToType kv.key = .strAmbi ∨ keyToType kv.key = .utf8 :=
  of_decide_eq_true h

theorem confGetStr_isSome {kv : KeyValue} (h : kv.isString = true)
    (hsome : (conf.scalar kv.key).isSome) :
    ∃ s utf8, conf.scalar kv.key = some (.string s utf8) := by
  rcases isString_cases h with h | h | h
  all_goals
    obtain ⟨value, hvalue, hfits⟩ := exists_fits h rfl hsome
    cases value with
    | string s utf8 => exact ⟨s, utf8, hvalue⟩
    | _ => simp [Value.Fits] at hfits

end Types

section Setting

variable (cp : CodePage) (conf : Conf) (w : Widget) (form : Form)

/-- What `setW` does to the form, but for the slot of the colours. -/
def setForm : Option Form :=
  match w.cls with
  | .checkBox => setCheckBox conf w form
  | .radioButton _ _ => setRadioButton conf w form
  | .lineEdit => setLineEdit cp conf w form
  | .comboBox => setComboBox cp conf w form
  | .listWidget => (listItems conf w).map (fun items =>
      match items with
      | none => form
      | some items => form.setItems w.objectName items)
  | .tableWidget => some (setTableWidget cp conf w form)

/-- What the body of the loop does to the form, but for the slot of the colours. -/
def loadForm : Option Form :=
  if .optional ∈ w.kv.options ∧ ¬ confKeyExists conf w.kv.key then some form
  else setForm cp conf w form

variable {cp conf w form}

theorem setW_of_ne (h : w.objectName ≠ "l_colour") :
    setW cp conf w form = (setForm cp conf w form).map (·, conf) := by
  cases hcls : w.cls with
  | listWidget =>
      simp only [setW, setForm, hcls, setListWidget]
      cases listItems conf w with
      | none => rfl
      | some items =>
          cases items with
          | none => rfl
          | some items => simp [clearList, h]
  | _ => simp [setW, setForm, hcls]

/-- The form depends only on what the settings have for the key. -/
theorem setForm_congr {c : Conf} (h : c.slot w.kv.key = conf.slot w.kv.key) :
    setForm cp c w form = setForm cp conf w form := by
  have hscalar : c.scalar w.kv.key = conf.scalar w.kv.key := congrArg Slot.scalar h
  have hlist : c.list w.kv.key = conf.list w.kv.key := congrArg Slot.list h
  have hdict : c.dict w.kv.key = conf.dict w.kv.key := congrArg Slot.dict h
  simp only [setForm, setCheckBox, setRadioButton, setLineEdit, setComboBox, listItems,
    setTableWidget, tableRows, textFrom, radioValue, confGetBool, confGetInt, confGetStr,
    confGetFilename, hscalar, hlist, hdict]

theorem loadWidget_of_ne {c : Conf} (hname : w.objectName ≠ "l_colour")
    (h : c.slot w.kv.key = conf.slot w.kv.key) :
    loadWidget cp (form, c) w = (loadForm cp conf w form).map (·, c) := by
  have hexists : confKeyExists c w.kv.key = confKeyExists conf w.kv.key :=
    congrArg (fun slot : Slot => slot.scalar.isSome) h
  rw [loadWidget, loadForm, hexists]
  split_ifs
  · rfl
  · rw [setW_of_ne hname, setForm_congr h]

/-- **What setting a widget changes.** -/
structure Touches (conf : Conf) (w : Widget) (form form' : Form) : Prop where
  checked : ∀ n ≠ w.objectName, form'.checked n = form.checked n
  button : ∀ group, form'.button group = form.button group ∨
    w.ClicksIn conf group ∧ form'.button group = some w.objectName
  text : ∀ n ≠ w.objectName, (n = "le_port" →
    w.objectName ≠ "rb_contype_telnet" ∧ w.objectName ≠ "rb_contype_ssh") →
    form'.text n = form.text n
  combo : ∀ n ≠ w.objectName, form'.combo n = form.combo n
  items : ∀ n, (form'.combo n).items = (form.combo n).items
  list : ∀ n ≠ w.objectName, form'.list n = form.list n
  table : ∀ n ≠ w.objectName, form'.table n = form.table n
  colourRow : form'.colourRow = form.colourRow

theorem Touches.refl (conf : Conf) (w : Widget) (form : Form) : Touches conf w form form where
  checked _ _ := rfl
  button _ := .inl rfl
  text _ _ _ := rfl
  combo _ _ := rfl
  items _ := rfl
  list _ _ := rfl
  table _ _ := rfl
  colourRow := rfl

theorem touches_setChecked (v : Bool) :
    Touches conf w form (form.setChecked w.objectName v) :=
  { Touches.refl conf w form with checked := fun _ hn => Function.update_of_ne hn _ _ }

theorem touches_setText (text : Text) : Touches conf w form (form.setText w.objectName text) :=
  { Touches.refl conf w form with text := fun _ hn _ => Function.update_of_ne hn _ _ }

theorem touches_setItems (items : List ListItem) :
    Touches conf w form (form.setItems w.objectName items) :=
  { Touches.refl conf w form with list := fun _ hn => Function.update_of_ne hn _ _ }

theorem touches_setRows (rows : List (Text × Text)) :
    Touches conf w form (form.setRows w.objectName rows) :=
  { Touches.refl conf w form with table := fun _ hn => Function.update_of_ne hn _ _ }

theorem touches_setCurrentIndex (i : Int) :
    Touches conf w form (form.setCurrentIndex w.objectName i) :=
  { Touches.refl conf w form with
    combo := fun _ hn => Function.update_of_ne hn _ _
    items := fun n => by
      by_cases hn : n = w.objectName
      · subst hn
        simp [Form.setCurrentIndex, ComboBox.setCurrentIndex]
      · exact congrArg ComboBox.items (Function.update_of_ne hn _ _) }

/-- The slots for the radio buttons of the protocol change the port only. -/
theorem onClicked_cases (form : Form) (name : String) :
    form.onClicked name = form ∨ (name = "rb_contype_telnet" ∨ name = "rb_contype_ssh") ∧
      ∃ text, form.onClicked name = form.setText "le_port" text := by
  rw [Form.onClicked]
  split_ifs with htelnet hssh
  · exact .inr ⟨.inl htelnet, _, rfl⟩
  · exact .inr ⟨.inr hssh, _, rfl⟩
  · exact .inl rfl

theorem touches_click {group : String} (h : w.ClicksIn conf group) :
    Touches conf w form (form.click w) := by
  simp only [Form.click, h.cls]
  set clicked : Form :=
    { form with button := Function.update form.button group (some w.objectName) }
  have hbutton : ∀ g, clicked.button g = form.button g ∨
      w.ClicksIn conf g ∧ clicked.button g = some w.objectName := by
    intro g
    by_cases hg : g = group
    · subst hg
      exact .inr ⟨h, Function.update_self _ _ _⟩
    · exact .inl (Function.update_of_ne hg _ _)
  rcases onClicked_cases clicked w.objectName with hslot | ⟨hname, text, hslot⟩
  · rw [hslot]
    exact { Touches.refl conf w form with button := hbutton }
  · rw [hslot]
    exact { Touches.refl conf w form with
      button := hbutton
      text := fun n _ hport => Function.update_of_ne (fun hn => by
        obtain ⟨htelnet, hssh⟩ := hport hn
        rcases hname with hname | hname
        · exact htelnet hname
        · exact hssh hname) _ _ }

theorem touches_map {α : Type} {o : Option α} {f : α → Form} {form' : Form}
    (hf : ∀ a, o = some a → Touches conf w form (f a)) (h : o.map f = some form') :
    Touches conf w form form' := by
  obtain ⟨a, ha, rfl⟩ := Option.map_eq_some_iff.mp h
  exact hf a ha

theorem touches_some {form' form'' : Form} (hf : Touches conf w form form'')
    (h : some form'' = some form') : Touches conf w form form' := Option.some.inj h ▸ hf

theorem touches_setForm {form' : Form} (h : setForm cp conf w form = some form') :
    Touches conf w form form' := by
  cases hcls : w.cls with
  | checkBox =>
      simp only [setForm, hcls, setCheckBox] at h
      split_ifs at h
      · exact touches_map (fun v _ => touches_setChecked v) h
      · exact touches_some (.refl _ _ _) h
  | radioButton group enabled =>
      simp only [setForm, hcls, setRadioButton] at h
      split_ifs at h with htype
      · refine touches_map (fun cv hcv => ?_) h
        cases hmeets : w.kv.meets cv with
        | false => exact .refl _ _ _
        | true =>
            cases enabled with
            | false =>
                simp only [Form.click, hcls, if_true]
                exact .refl _ _ _
            | true => exact touches_click ⟨hcls, htype, cv, hcv, hmeets⟩
      · exact touches_some (.refl _ _ _) h
  | lineEdit =>
      simp only [setForm, hcls, setLineEdit] at h
      split_ifs at h
      · exact touches_map (fun text _ => touches_setText text) h
      · exact touches_map (fun v _ => touches_setText (numberText v.val)) h
      · exact touches_map (fun fn _ => touches_setText (filenameToQString fn)) h
      · exact touches_some (.refl _ _ _) h
  | comboBox =>
      simp only [setForm, hcls, setComboBox] at h
      split_ifs at h
      · exact touches_map (fun text _ => touches_setCurrentIndex _) h
      · exact touches_map (fun v _ => touches_setCurrentIndex v.val) h
      · exact touches_some (.refl _ _ _) h
  | listWidget =>
      simp only [setForm, hcls] at h
      refine touches_map (fun items _ => ?_) h
      cases items with
      | none => exact .refl _ _ _
      | some items => exact touches_setItems items
  | tableWidget =>
      simp only [setForm, hcls, setTableWidget] at h
      split_ifs at h
      · exact touches_some (touches_setRows _) h
      · exact touches_some (.refl _ _ _) h

theorem touches_loadForm {form' : Form} (h : loadForm cp conf w form = some form') :
    Touches conf w form form' := by
  rw [loadForm] at h
  split_ifs at h
  · exact touches_some (.refl _ _ _) h
  · exact touches_setForm h

end Setting

section Showing

variable {cp : CodePage} {conf : Conf} {w : Widget} {form before : Form}

theorem setCurrentIndex_congr {cb cb' : ComboBox} (h : cb.items = cb'.items) (i : Int) :
    cb.setCurrentIndex i = cb'.setCurrentIndex i := by
  simp only [ComboBox.setCurrentIndex, h]

theorem comboIndex_congr {cb cb' : ComboBox} (h : cb.items = cb'.items) (kv : KeyValue) :
    comboIndex cp conf cb kv = comboIndex cp conf cb' kv := by
  simp only [comboIndex, ComboBox.indexOf, h]

/-- The getters find nothing without a value. -/
theorem radioValue_of_none {kv : KeyValue} (h : conf.scalar kv.key = none) :
    radioValue conf kv = none := by
  simp [radioValue, confGetInt, confGetBool, h]

theorem lineText_of_none {kv : KeyValue} (h : conf.scalar kv.key = none) :
    lineText cp conf kv = none := by
  simp [lineText, textFrom, confGetInt, confGetStr, confGetFilename, h]

/-- A widget whose key is not there shows nothing. -/
theorem shows_of_missing (hw : w ∈ uiMapping) (hoptional : .optional ∈ w.kv.options)
    (h : conf.scalar w.kv.key = none) : Shows cp conf before w form := by
  rcases uiMapping_optional w hw hoptional with ⟨hcls, -⟩ | ⟨hcls, -⟩
  · simp only [Shows, hcls]
    intro _ v hv
    simp [confGetBool, h] at hv
  · simp only [Shows, hcls]
    intro text htext
    rw [lineText_of_none h] at htext
    exact absurd htext (by simp)

theorem subkey_of_type {t : KeyType} {v : ValueType} (h : w.kv.type = t)
    (ht : t.types = some (.none, v)) : w.kv.key.subkey = .none := (types_of_type h ht).1

theorem setCheckBox_shows (hcls : w.cls = .checkBox)
    (hsome : w.kv.key.subkey = .none → (conf.scalar w.kv.key).isSome) :
    ∃ form', setCheckBox conf w form = some form' ∧ Shows cp conf before w form' := by
  simp only [Shows, hcls, setCheckBox]
  split_ifs with htype
  · obtain ⟨v, hv⟩ := confGetBool_isSome htype (hsome (subkey_of_type htype rfl))
    have hget : confGetBool conf w.kv.key = some v := by simp only [confGetBool, hv]
    refine ⟨form.setChecked w.objectName v, by rw [hget]; rfl, fun _ v' hv' => ?_⟩
    rw [hget, Option.some.injEq] at hv'
    exact hv' ▸ Function.update_self _ _ _
  · exact ⟨form, rfl, fun h => absurd h htype⟩

theorem radioValue_isSome (htype : w.kv.type = .int ∨ w.kv.type = .bool)
    (hsome : w.kv.key.subkey = .none → (conf.scalar w.kv.key).isSome) :
    ∃ cv, radioValue conf w.kv = some cv := by
  rw [radioValue]
  split_ifs with hint
  · obtain ⟨v, hv⟩ := confGetInt_isSome hint (hsome (subkey_of_type hint rfl))
    exact ⟨v.val, by simp only [confGetInt, hv, Option.map_some]⟩
  · have hbool := htype.resolve_left hint
    obtain ⟨v, hv⟩ := confGetBool_isSome hbool (hsome (subkey_of_type hbool rfl))
    exact ⟨intOfBool v, by simp only [confGetBool, hv, Option.map_some]⟩

theorem setRadioButton_shows {group : String} {enabled : Bool} (hw : w ∈ uiMapping)
    (hcls : w.cls = .radioButton group enabled)
    (hsome : w.kv.key.subkey = .none → (conf.scalar w.kv.key).isSome) :
    ∃ form', setRadioButton conf w form = some form' ∧ Shows cp conf before w form' := by
  simp only [Shows, hcls, setRadioButton]
  split_ifs with htype
  · obtain ⟨cv, hcv⟩ := radioValue_isSome htype hsome
    refine ⟨_, by rw [hcv]; rfl, fun hclick => ⟨w, hw, hclick, ?_⟩⟩
    obtain ⟨cv', hcv', hmeets⟩ := hclick.meets
    obtain rfl := Option.some.inj (hcv.symm.trans hcv')
    simp only [hmeets, if_true, Form.click, hclick.cls]
    rcases onClicked_cases _ w.objectName with hslot | ⟨-, text, hslot⟩
    · rw [hslot]
      exact Function.update_self _ _ _
    · rw [hslot]
      exact Function.update_self _ _ _
  · exact ⟨form, rfl, fun hclick => absurd hclick.type htype⟩

/-- A line edit is set to its text, if it has one. -/
theorem setLineEdit_eq {text : Text} (h : lineText cp conf w.kv = some text) :
    setLineEdit cp conf w form = some (form.setText w.objectName text) := by
  rw [lineText] at h
  rw [setLineEdit]
  split_ifs at h ⊢
  · rw [h]
    rfl
  · obtain ⟨v, hv, rfl⟩ := Option.map_eq_some_iff.mp h
    rw [hv]
    rfl
  · obtain ⟨fn, hfn, rfl⟩ := Option.map_eq_some_iff.mp h
    rw [hfn]
    rfl

/-- A line edit has a text, but for types that it does not show. -/
theorem lineText_isSome (cp : CodePage)
    (hsome : w.kv.key.subkey = .none → (conf.scalar w.kv.key).isSome) :
    (∃ text, lineText cp conf w.kv = some text) ∨
      ¬ w.kv.isString ∧ w.kv.type ≠ .int ∧ w.kv.type ≠ .filename := by
  rw [lineText]
  split_ifs with hstring hint hfilename
  · have hsubkey : w.kv.key.subkey = .none := by
      rcases isString_cases hstring with h | h | h
      all_goals exact (types_of_type h rfl).1
    obtain ⟨s, utf8, hs⟩ := confGetStr_isSome hstring (hsome hsubkey)
    exact .inl ⟨_, by simp only [textFrom, confGetStr, hs]; rfl⟩
  · obtain ⟨v, hv⟩ := confGetInt_isSome hint (hsome (subkey_of_type hint rfl))
    exact .inl ⟨numberText v.val, by simp only [confGetInt, hv, Option.map_some]⟩
  · obtain ⟨fn, hfn⟩ := confGetFilename_isSome hfilename (hsome (subkey_of_type hfilename rfl))
    exact .inl ⟨filenameToQString fn, by simp only [confGetFilename, hfn, Option.map_some]⟩
  · exact .inr ⟨hstring, hint, hfilename⟩

theorem setLineEdit_shows (hcls : w.cls = .lineEdit)
    (hsome : w.kv.key.subkey = .none → (conf.scalar w.kv.key).isSome) :
    ∃ form', setLineEdit cp conf w form = some form' ∧ Shows cp conf before w form' := by
  simp only [Shows, hcls]
  rcases lineText_isSome cp hsome with ⟨text, htext⟩ | ⟨hstring, hint, hfilename⟩
  · refine ⟨_, setLineEdit_eq htext, fun text' htext' => ?_⟩
    obtain rfl := Option.some.inj (htext.symm.trans htext')
    exact Function.update_self _ _ _
  · exact ⟨form, by simp [setLineEdit, hstring, hint, hfilename],
      by simp [lineText, hstring, hint, hfilename]⟩

/-- A combo box is set to its index, if it has one. -/
theorem setComboBox_eq {i : Int}
    (h : comboIndex cp conf (form.combo w.objectName) w.kv = some i) :
    setComboBox cp conf w form = some (form.setCurrentIndex w.objectName i) := by
  rw [comboIndex] at h
  rw [setComboBox]
  split_ifs at h ⊢
  · obtain ⟨text, htext, rfl⟩ := Option.map_eq_some_iff.mp h
    rw [htext]
    rfl
  · obtain ⟨v, hv, rfl⟩ := Option.map_eq_some_iff.mp h
    rw [hv]
    rfl

theorem comboIndex_isSome (cp : CodePage) (form : Form)
    (hsome : w.kv.key.subkey = .none → (conf.scalar w.kv.key).isSome) (cb : ComboBox) :
    (∃ i, comboIndex cp conf cb w.kv = some i) ∨
      comboIndex cp conf cb w.kv = none ∧ setComboBox cp conf w form = some form := by
  rw [comboIndex, setComboBox]
  split_ifs with hstring hint
  · have hsubkey : w.kv.key.subkey = .none := by
      rcases isString_cases hstring with h | h | h
      all_goals exact (types_of_type h rfl).1
    obtain ⟨s, utf8, hs⟩ := confGetStr_isSome hstring (hsome hsubkey)
    exact .inl ⟨_, by simp only [textFrom, confGetStr, hs]; rfl⟩
  · obtain ⟨v, hv⟩ := confGetInt_isSome hint (hsome (subkey_of_type hint rfl))
    exact .inl ⟨v.val, by simp only [confGetInt, hv, Option.map_some]⟩
  · exact .inr ⟨rfl, rfl⟩

theorem setComboBox_shows (hcls : w.cls = .comboBox)
    (hsome : w.kv.key.subkey = .none → (conf.scalar w.kv.key).isSome)
    (hitems : ∀ n, (form.combo n).items = (before.combo n).items) :
    ∃ form', setComboBox cp conf w form = some form' ∧ Shows cp conf before w form' := by
  simp only [Shows, hcls]
  rw [← comboIndex_congr (hitems w.objectName)]
  rcases comboIndex_isSome cp form hsome (form.combo w.objectName) with
    ⟨i, hi⟩ | ⟨hnone, hset⟩
  · refine ⟨_, setComboBox_eq hi, fun i' hi' => ?_⟩
    obtain rfl := Option.some.inj (hi.symm.trans hi')
    rw [← setCurrentIndex_congr (hitems w.objectName)]
    exact Function.update_self _ _ _
  · exact ⟨form, hset, fun i hi => absurd (hnone.symm.trans hi) (by simp)⟩

theorem mapM_isSome {α β : Type} {f : α → Option β} {xs : List α}
    (h : ∀ x ∈ xs, (f x).isSome) : (xs.mapM f).isSome := by
  induction xs with
  | nil => rfl
  | cons x xs ih =>
      obtain ⟨y, hy⟩ := Option.isSome_iff_exists.mp (h x (by simp))
      obtain ⟨ys, hys⟩ := Option.isSome_iff_exists.mp (ih fun z hz => h z (by simp [hz]))
      simp [List.mapM_cons, hy, hys]

theorem listItems_isSome (hw : w ∈ uiMapping) (hloaded : Loaded conf) :
    ∃ items, listItems conf w = some items := by
  rw [listItems]
  split
  · next items htype hvalue =>
      split_ifs with hrole
      · have hall : ((List.range items.length).mapM (fun i : Nat => conf.list w.kv.key i)).isSome :=
          mapM_isSome fun i hi => hloaded.items w hw items hvalue hrole i (List.mem_range.mp hi)
        obtain ⟨values, hvalues⟩ := Option.isSome_iff_exists.mp hall
        exact ⟨_, by rw [hvalues]; rfl⟩
      · exact ⟨_, rfl⟩
  · exact ⟨_, rfl⟩
  · exact ⟨_, rfl⟩

/-- **A widget that is set shows the settings.** -/
theorem setForm_shows (hw : w ∈ uiMapping) (hloaded : Loaded conf)
    (hsome : w.kv.key.subkey = .none → (conf.scalar w.kv.key).isSome)
    (hitems : ∀ n, (form.combo n).items = (before.combo n).items) :
    ∃ form', setForm cp conf w form = some form' ∧ Shows cp conf before w form' := by
  cases hcls : w.cls with
  | checkBox =>
      simp only [setForm, hcls]
      exact setCheckBox_shows hcls hsome
  | radioButton group enabled =>
      simp only [setForm, hcls]
      exact setRadioButton_shows hw hcls hsome
  | lineEdit =>
      simp only [setForm, hcls]
      exact setLineEdit_shows hcls hsome
  | comboBox =>
      simp only [setForm, hcls]
      exact setComboBox_shows hcls hsome hitems
  | listWidget =>
      obtain ⟨items, hitems⟩ := listItems_isSome hw hloaded
      simp only [setForm, Shows, hcls, hitems, Option.map_some]
      refine ⟨_, rfl, fun items' hitems' => ?_⟩
      obtain rfl := Option.some.inj hitems'
      exact Function.update_self _ _ _
  | tableWidget =>
      simp only [setForm, Shows, hcls, setTableWidget]
      refine ⟨_, rfl, fun htype hcolumns => ?_⟩
      rw [if_pos ⟨htype, hcolumns⟩]
      exact Function.update_self _ _ _

/-- A widget still shows the settings when another one has been set. -/
theorem Touches.shows {w' : Widget} {form' : Form} (h : Touches conf w' form form')
    (hw' : w' ∈ uiMapping) (hne : w.objectName ≠ w'.objectName)
    (hport : w.objectName = "le_port" →
      w'.objectName ≠ "rb_contype_telnet" ∧ w'.objectName ≠ "rb_contype_ssh")
    (hshows : Shows cp conf before w form) : Shows cp conf before w form' := by
  cases hcls : w.cls with
  | checkBox =>
      simp only [Shows, hcls] at hshows ⊢
      rwa [h.checked _ hne]
  | radioButton group enabled =>
      simp only [Shows, hcls] at hshows ⊢
      intro hclick
      obtain ⟨w'', hw'', hclick'', hbutton⟩ := hshows hclick
      rcases h.button group with hsame | ⟨hclick', hbutton'⟩
      · exact ⟨w'', hw'', hclick'', hsame.trans hbutton⟩
      · exact ⟨w', hw', hclick', hbutton'⟩
  | lineEdit =>
      simp only [Shows, hcls] at hshows ⊢
      rwa [h.text _ hne hport]
  | comboBox =>
      simp only [Shows, hcls] at hshows ⊢
      rwa [h.combo _ hne]
  | listWidget =>
      simp only [Shows, hcls] at hshows ⊢
      rwa [h.list _ hne]
  | tableWidget =>
      simp only [Shows, hcls] at hshows ⊢
      rwa [h.table _ hne]

end Showing

section Colours

variable {conf : Conf} {form before : Form}

/-- The line edits for the parts of a colour, and the list of colours. -/
def colourParts : List String := ["le_colour_r", "le_colour_g", "le_colour_b"]
def lColour : Widget :=
  ⟨"l_colour", .listWidget, ⟨listKey "colours", .dataList coloursDataList, []⟩⟩

theorem uiMapping_colourParts : ∀ w ∈ uiMapping, w.objectName ∉ colourParts := by
  decide +kernel

theorem uiMapping_lColour : ∀ w ∈ uiMapping, w.objectName = "l_colour" → w = lColour := by
  decide +kernel

theorem mem_uiMapping_lColour : lColour ∈ uiMapping := by
  decide +kernel

/-- Storing a colour changes the colours only. -/
theorem setColour_some (index : Nat) (r g b : CInt) :
    ∃ c, setColour conf index r g b = some c ∧ ∀ k ≠ confColours, c.slot k = conf.slot k := by
  have htypes : confColours.subkey = .int ∧ confColours.value = .int := ⟨rfl, rfl⟩
  simp only [setColour, confSetIntInt, if_pos htypes, Option.bind_eq_bind, Option.bind_some]
  refine ⟨_, rfl, fun k hk => ?_⟩
  rw [slot_setListItem, if_neg hk, slot_setListItem, if_neg hk, slot_setListItem, if_neg hk]

theorem onColourCleared_some (conf : Conf) (form : Form) (prev : Nat) :
    ∃ c, onColourCleared conf form prev = some c ∧ ∀ k ≠ confColours, c.slot k = conf.slot k := by
  rw [onColourCleared]
  split_ifs
  · exact setColour_some ..
  · exact ⟨conf, rfl, fun _ _ => rfl⟩

theorem onColourCleared_congr (h : ∀ n ∈ colourParts, form.text n = before.text n) (prev : Nat) :
    onColourCleared conf form prev = onColourCleared conf before prev := by
  simp only [onColourCleared, Form.colourPart, h "le_colour_r" (by decide),
    h "le_colour_g" (by decide), h "le_colour_b" (by decide)]

end Colours

section Loading

variable {cp : CodePage} {conf : Conf} {before : Form}

/-- What holds in the loop of `setConfig`: the settings are as they were, or the list of
colours has been cleared. -/
structure Loading (conf : Conf) (before : Form) (s : Form × Conf) : Prop where
  items : ∀ n, (s.1.combo n).items = (before.combo n).items
  button : ∀ group, (∀ w ∈ uiMapping, ¬ w.ClicksIn conf group) →
    s.1.button group = before.button group
  slot : ∀ k ≠ confColours, s.2.slot k = conf.slot k
  colours : s.2 = conf ∧ s.1.colourRow = before.colourRow ∧
      (∀ n ∈ colourParts, s.1.text n = before.text n) ∨
    s.1.colourRow = none ∧ clearedConf conf before = some s.2

theorem Loading.start (conf : Conf) (before : Form) : Loading conf before (before, conf) where
  items _ := rfl
  button _ _ := rfl
  slot _ _ := rfl
  colours := .inl ⟨rfl, rfl, fun _ _ => rfl⟩

/-- A widget that touches the form. -/
theorem Loading.touch {w : Widget} {s : Form × Conf} {form' : Form} (h : Loading conf before s)
    (hw : w ∈ uiMapping) (htouch : Touches conf w s.1 form') :
    Loading conf before (form', s.2) where
  items n := (htouch.items n).trans (h.items n)
  button group hnone := by
    rcases htouch.button group with hsame | ⟨hclick, -⟩
    · exact hsame.trans (h.button group hnone)
    · exact absurd hclick (hnone w hw)
  slot := h.slot
  colours := by
    rcases h.colours with ⟨hconf, hrow, htext⟩ | ⟨hrow, hcleared⟩
    · refine .inl ⟨hconf, htouch.colourRow.trans hrow, fun n hn => ?_⟩
      have hne : n ≠ w.objectName := fun heq => uiMapping_colourParts w hw (heq ▸ hn)
      have hport : n ≠ "le_port" := by
        rintro rfl
        exact absurd hn (by decide)
      exact (htouch.text n hne fun heq => absurd heq hport).trans (htext n hn)
    · exact .inr ⟨htouch.colourRow.trans hrow, hcleared⟩

theorem key_ne_colours {w : Widget} (hw : w ∈ uiMapping) (hne : w.objectName ≠ "l_colour") :
    w.kv.key ≠ confColours :=
  fun hkey => hne (congrArg Widget.objectName (uiMapping_colours w hw hkey))

/-- The items of the list of colours. -/
def colourItems : List ListItem :=
  coloursDataList.map (fun item => ⟨item.text.toList, none⟩)

/-- **The list of colours is set**: it is cleared, and the settings change. -/
theorem loadWidget_lColour (cp : CodePage) (s : Form × Conf) :
    ∃ c, clearedConf s.2 s.1 = some c ∧ loadWidget cp s lColour =
      some ({ s.1 with colourRow := none }.setItems "l_colour" colourItems, c) := by
  obtain ⟨form, conf⟩ := s
  have hload : loadWidget cp (form, conf) lColour =
      (clearList conf lColour form).map (fun s => (s.1.setItems "l_colour" colourItems, s.2)) :=
    rfl
  have hclear : clearList conf lColour form =
      match form.colourRow with
      | none => some (form, conf)
      | some prev => (onColourCleared conf form prev).map ({ form with colourRow := none }, ·) :=
    if_pos rfl
  rw [hload, hclear, clearedConf]
  cases hrow : form.colourRow with
  | none =>
      refine ⟨conf, rfl, ?_⟩
      have hsame : form = { form with colourRow := none } := by
        cases form
        simp_all
      rw [Option.map_some]
      exact congrArg (fun f : Form => some (f.setItems "l_colour" colourItems, conf)) hsame
  | some prev =>
      obtain ⟨c, hc, -⟩ := onColourCleared_some conf form prev
      exact ⟨c, hc, by simp only [hc, Option.map_some]⟩

/-- The body of the loop for another widget. -/
theorem loadWidget_other {w : Widget} {s : Form × Conf} (hw : w ∈ uiMapping)
    (hne : w.objectName ≠ "l_colour") (h : Loading conf before s) :
    loadWidget cp s w = (loadForm cp conf w s.1).map (·, s.2) :=
  loadWidget_of_ne hne (h.slot _ (key_ne_colours hw hne))

/-- A widget that shows the settings, and the list of colours has been cleared if it is this
widget. -/
structure Loads (cp : CodePage) (conf : Conf) (before : Form) (w : Widget) (s : Form × Conf) :
    Prop where
  shows : Shows cp conf before w s.1
  colours : w.objectName = "l_colour" →
    s.1.colourRow = none ∧ clearedConf conf before = some s.2

theorem loadForm_shows (cp : CodePage) {w : Widget} {form : Form} (hw : w ∈ uiMapping)
    (hloaded : Loaded conf)
    (hitems : ∀ n, (form.combo n).items = (before.combo n).items) :
    ∃ form', loadForm cp conf w form = some form' ∧ Shows cp conf before w form' := by
  rw [loadForm]
  split_ifs with hmissing
  · have hnone : conf.scalar w.kv.key = none := by
      have hnot := hmissing.2
      rw [confKeyExists, Option.not_isSome_iff_eq_none] at hnot
      exact hnot
    exact ⟨form, rfl, shows_of_missing hw hmissing.1 hnone⟩
  · refine setForm_shows hw hloaded (fun hsubkey => ?_) hitems
    by_cases hoptional : .optional ∈ w.kv.options
    · by_contra hnot
      exact hmissing ⟨hoptional, hnot⟩
    · exact hloaded.scalars w hw hsubkey hoptional

/-- **A step of the loop.** -/
theorem loadWidget_step (cp : CodePage) {w : Widget} {s : Form × Conf} (hw : w ∈ uiMapping)
    (hloaded : Loaded conf) (h : Loading conf before s) :
    ∃ s', loadWidget cp s w = some s' ∧ Loading conf before s' ∧ Loads cp conf before w s' := by
  by_cases hne : w.objectName = "l_colour"
  · obtain rfl := uiMapping_lColour w hw hne
    obtain ⟨c, hcleared, hload⟩ := loadWidget_lColour cp s
    -- what is stored is the colour of the form before the loop
    have hbefore : clearedConf conf before = some c := by
      rcases h.colours with ⟨hconf, hrow, htext⟩ | ⟨hrow, hdone⟩
      · rw [← hcleared, hconf, clearedConf, clearedConf, hrow]
        cases before.colourRow with
        | none => rfl
        | some prev => exact (onColourCleared_congr htext prev).symm
      · rw [hdone, ← hcleared, clearedConf, hrow]
    have hslot : ∀ k ≠ confColours, c.slot k = conf.slot k := by
      rw [clearedConf] at hbefore
      cases hrow : before.colourRow with
      | none =>
          rw [hrow] at hbefore
          obtain rfl := Option.some.inj hbefore
          exact fun _ _ => rfl
      | some prev =>
          rw [hrow] at hbefore
          obtain ⟨c', hc', hslot⟩ := onColourCleared_some conf before prev
          obtain rfl := Option.some.inj (hc'.symm.trans hbefore)
          exact hslot
    refine ⟨_, hload, ⟨h.items, h.button, hslot, .inr ⟨rfl, hbefore⟩⟩, ⟨?_, fun _ => ⟨rfl, hbefore⟩⟩⟩
    simp only [Shows, lColour]
    intro items hitems
    obtain rfl : colourItems = items := Option.some.inj (Option.some.inj hitems)
    simp [Form.setItems]
  · obtain ⟨form', hform, hshows⟩ := loadForm_shows cp hw hloaded h.items
    refine ⟨(form', s.2), ?_, h.touch hw (touches_loadForm hform), ⟨hshows, fun heq => absurd heq hne⟩⟩
    rw [loadWidget_other hw hne h, hform]
    rfl

/-- What a widget shows stays. -/
theorem Loads.keep {w w' : Widget} {s s' : Form × Conf} (hw' : w' ∈ uiMapping)
    (hne : w.objectName ≠ w'.objectName)
    (hport : w.objectName = "le_port" →
      w'.objectName ≠ "rb_contype_telnet" ∧ w'.objectName ≠ "rb_contype_ssh")
    (h : Loading conf before s) (hload : loadWidget cp s w' = some s')
    (hloads : Loads cp conf before w s) : Loads cp conf before w s' := by
  by_cases hcolour : w'.objectName = "l_colour"
  · obtain rfl := uiMapping_lColour w' hw' hcolour
    obtain ⟨c, -, hset⟩ := loadWidget_lColour cp s
    obtain rfl := Option.some.inj (hset.symm.trans hload)
    refine ⟨?_, fun heq => absurd heq hne⟩
    have hcleared : Shows cp conf before w { s.1 with colourRow := none } := hloads.shows
    exact (touches_setItems (w := lColour) colourItems).shows hw' hne hport hcleared
  · rw [loadWidget_other hw' hcolour h] at hload
    obtain ⟨form', hform, rfl⟩ := Option.map_eq_some_iff.mp hload
    have htouch := touches_loadForm hform
    exact ⟨htouch.shows hw' hne hport hloads.shows, fun heq =>
      ⟨htouch.colourRow.trans (hloads.colours heq).1, (hloads.colours heq).2⟩⟩

/-- **After the loop every widget shows the settings.** -/
theorem loadWidgets_shows (cp : CodePage) (hloaded : Loaded conf) (before : Form)
    {children : List Widget} (hperm : children.Perm uiMapping)
    (hport : children.Pairwise (fun w w' => w.objectName = "le_port" →
      w'.objectName ≠ "rb_contype_telnet" ∧ w'.objectName ≠ "rb_contype_ssh")) :
    ∃ s, children.foldlM (loadWidget cp) (before, conf) = some s ∧ Loading conf before s ∧
      ∀ w ∈ uiMapping, Loads cp conf before w s := by
  have hmem : ∀ w ∈ children, w ∈ uiMapping := fun w hw => hperm.subset hw
  have hnames : children.Pairwise (fun w w' => w.objectName ≠ w'.objectName) := by
    have hnodup := (hperm.map Widget.objectName).nodup_iff.mpr objectName_nodup
    exact List.pairwise_map.mp hnodup
  have hkeep : children.Pairwise (fun w w' => ∀ s s', Loading conf before s →
      loadWidget cp s w' = some s' → Loads cp conf before w s → Loads cp conf before w s') := by
    refine List.Pairwise.imp_of_mem (fun {w w'} _ hw' hboth => ?_) (hnames.and hport)
    exact fun s s' h hload hloads => hloads.keep (hmem w' hw') hboth.1 hboth.2 h hload
  have hset : ∀ w ∈ children, ∀ s, Loading conf before s →
      ∃ s', loadWidget cp s w = some s' ∧ Loading conf before s' ∧ Loads cp conf before w s' :=
    fun w hw s h => loadWidget_step cp (hmem w hw) hloaded h
  obtain ⟨s, hfold, hinv, hshows⟩ := foldlM_shows hset hkeep (Loading.start conf before)
  exact ⟨s, hfold, hinv, fun w hw => hshows w (hperm.symm.subset hw)⟩

end Loading

end Dialog
end Qutty
