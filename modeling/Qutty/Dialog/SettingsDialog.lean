import Mathlib.Data.List.Sort
import Qutty.Config.Sessions
import Qutty.Config.Writing
import Qutty.Dialog.Widgets
import Qutty.Lib.PathTree

/-!
# The settings dialog

`setConfig` and `getConfig` of `GuiSettingsWindow.cpp`, with `setW` and `getW` for every
class of widgets.  A widget holds what was last set.  Two slots run in between: the radio
buttons of SSH and Telnet set the port when they are clicked, and a list of colours that
is cleared stores the colour that was selected in it.

`setConfig` selects the session of its name at the top of the tree, which calls `setConfig`
for the session that is stored there.  None is an assertion that fails.
-/

namespace Qutty
namespace Dialog

open Config Lib Lib.ByteOrder Lib.PathTree

section Form

/-- The local 8-bit code page. -/
structure CodePage where
  fromLocal8Bit : List UInt8 → Text
  toLocal8Bit : Text → List UInt8

/-- `QListWidgetItem`, with the data of `Qt::UserRole`. -/
structure ListItem where
  text : Text
  data : Option CInt

/-- `QComboBox`; an index of -1 is no item. -/
structure ComboBox where
  items : List Text
  currentIndex : Int

/-- What the widgets hold, by their names.  Of a group of radio buttons one is checked.
`colourRow` is the current row of `l_colour`. -/
structure Form where
  checked : String → Bool
  button : String → Option String
  text : String → Text
  combo : String → ComboBox
  list : String → List ListItem
  table : String → List (Text × Text)
  colourRow : Option Nat

variable (form : Form) (name : String)

/-- `setChecked`. -/
def Form.setChecked (b : Bool) : Form :=
  { form with checked := Function.update form.checked name b }

/-- `setText`. -/
def Form.setText (text : Text) : Form := { form with text := Function.update form.text name text }

/-- `clear` and `addItem`. -/
def Form.setItems (items : List ListItem) : Form :=
  { form with list := Function.update form.list name items }

/-- `setRowCount` and `setTableRow`. -/
def Form.setRows (rows : List (Text × Text)) : Form :=
  { form with table := Function.update form.table name rows }

/-- `QComboBox::setCurrentIndex`. -/
def ComboBox.setCurrentIndex (cb : ComboBox) (i : Int) : ComboBox :=
  { cb with currentIndex := if 0 ≤ i ∧ i < cb.items.length then i else -1 }

/-- `currentText`. -/
def ComboBox.currentText (cb : ComboBox) : Text :=
  if 0 ≤ cb.currentIndex then cb.items.getD cb.currentIndex.toNat [] else []

/-- `findText`; the first item if there is none. -/
def ComboBox.indexOf (cb : ComboBox) (text : Text) : Nat := (cb.items.findIdx? (· = text)).getD 0

/-- `setCurrentIndex` of a combo box of the form. -/
def Form.setCurrentIndex (i : Int) : Form :=
  { form with combo := Function.update form.combo name ((form.combo name).setCurrentIndex i) }

/-- The slots for the radio buttons of the protocol. -/
def Form.onClicked : Form :=
  if name = "rb_contype_telnet" then form.setText "le_port" ['2', '3']
  else if name = "rb_contype_ssh" then form.setText "le_port" ['2', '2']
  else form

/-- `click` of a radio button, which does nothing if it is disabled. -/
def Form.click (w : Widget) : Form :=
  match w.cls with
  | .radioButton group true =>
      { form with button := Function.update form.button group (some w.objectName) }.onClicked
        w.objectName
  | _ => form

end Form

section Getters

variable (conf : Conf) (key : ConfOption)

/-- `conf_get_bool`. -/
def confGetBool : Option Bool :=
  match conf.scalar key with
  | some (.bool v) => some v
  | _ => none

/-- `conf_get_int`. -/
def confGetInt : Option CInt :=
  match conf.scalar key with
  | some (.int v) => some v
  | _ => none

/-- `conf_get_str`, `conf_get_utf8` and `conf_get_str_ambi`. -/
def confGetStr : Option (CStr × Bool) :=
  match conf.scalar key with
  | some (.string s utf8) => some (s, utf8)
  | _ => none

/-- `conf_get_filename`. -/
def confGetFilename : Option Filename :=
  match conf.scalar key with
  | some (.filename fn) => some fn
  | _ => none

/-- `conf_get_fontspec`. -/
def confGetFontspec : Option FontSpec :=
  match conf.scalar key with
  | some (.font font) => some font
  | _ => none

/-- `confKeyExists` of an option without subkeys. -/
def confKeyExists : Bool := (conf.scalar key).isSome

/-- `conf_set_utf8`. -/
def confSetUtf8 (key : Option ConfOption) (value : CStr) : Option Conf :=
  confSet conf key (.string value true)

end Getters

section Setting

variable (cp : CodePage) (conf : Conf) (w : Widget) (form : Form)

/-- `textFrom`. -/
def textFrom (kv : KeyValue) : Option Text :=
  (confGetStr conf kv.key).map (fun v =>
    match kv.type with
    | .str => cp.fromLocal8Bit v.1.val
    | .utf8 => fromUtf8 v.1.val
    | _ => if v.2 then fromUtf8 v.1.val else cp.fromLocal8Bit v.1.val)

/-- `filename_to_qstring`, for wide paths. -/
def filenameToQString (fn : Filename) : Text := fn

/-- `filename_from_qstring`, for wide paths. -/
def filenameFromQString (str : Text) : Filename := str

/-- `setW(QCheckBox *)`. -/
def setCheckBox : Option Form :=
  if w.kv.type = .bool then (confGetBool conf w.kv.key).map (form.setChecked w.objectName)
  else some form

/-- The value that `setW(QRadioButton *)` looks at. -/
def radioValue (kv : KeyValue) : Option Int :=
  if kv.type = .int then (confGetInt conf kv.key).map Subtype.val
  else (confGetBool conf kv.key).map intOfBool

/-- The value of an entry is the one of the button. -/
def KeyValue.meets (kv : KeyValue) (cv : Int) : Bool :=
  match kv.value with
  | .bool val => decide (cv ≠ 0) = val
  | .int val => cv = val.val
  | _ => false

/-- `setW(QRadioButton *)`. -/
def setRadioButton : Option Form :=
  if w.kv.type = .int ∨ w.kv.type = .bool then
    (radioValue conf w.kv).map (fun cv => if w.kv.meets cv then form.click w else form)
  else some form

/-- `setW(QLineEdit *)`. -/
def setLineEdit : Option Form :=
  if w.kv.isString then (textFrom cp conf w.kv).map (form.setText w.objectName)
  else if w.kv.type = .int then
    (confGetInt conf w.kv.key).map (fun v => form.setText w.objectName (numberText v.val))
  else if w.kv.type = .filename then
    (confGetFilename conf w.kv.key).map (fun fn =>
      form.setText w.objectName (filenameToQString fn))
  else some form

/-- `setW(QComboBox *)`. -/
def setComboBox : Option Form :=
  if w.kv.isString then
    (textFrom cp conf w.kv).map (fun text =>
      form.setCurrentIndex w.objectName ((form.combo w.objectName).indexOf text))
  else if w.kv.type = .int then
    (confGetInt conf w.kv.key).map (fun v => form.setCurrentIndex w.objectName v.val)
  else some form

/-- The items of a list in the order of preference.  The data of `items` are different; an
item that is in the list already is not added again. -/
def addItems (items : List DataItem) : List CInt → List ListItem :=
  List.foldl (fun list value =>
    match items.find? (fun item => item.data = value) with
    | none => list
    | some item =>
        if list.any (fun i => i.data = some value) then list
        else list ++ [⟨item.text.toList, some value⟩]) []

/-- A part of a colour in the form. -/
def Form.colourPart (name : String) : CInt := colourByte (viewToInt (form.text name)) 0

/-- `setColour`. -/
def setColour (index : Nat) (r g b : CInt) : Option Conf := do
  let conf ← confSetIntInt conf confColours (index * 3 + 0 : Nat) r
  let conf ← confSetIntInt conf confColours (index * 3 + 1 : Nat) g
  confSetIntInt conf confColours (index * 3 + 2 : Nat) b

/-- `on_l_colour_currentItemChanged` without a current item, for the row of the previous
one. -/
def onColourCleared (prev : Nat) : Option Conf :=
  if prev < 22 then
    setColour conf prev (form.colourPart "le_colour_r") (form.colourPart "le_colour_g")
      (form.colourPart "le_colour_b")
  else some conf

/-- `QListWidget::clear`. -/
def clearList : Option (Form × Conf) :=
  if w.objectName = "l_colour" then
    match form.colourRow with
    | none => some (form, conf)
    | some prev => (onColourCleared conf form prev).map ({ form with colourRow := none }, ·)
  else some (form, conf)

/-- The items that `setW(QListWidget *)` adds; none where they do not fit the widget. -/
def listItems : Option (Option (List ListItem)) :=
  match w.kv.type, w.kv.value with
  | .intInt, .dataList items =>
      if .userRole0 ∈ w.kv.options then
        ((List.range items.length).mapM (fun i : Nat => conf.list w.kv.key i)).map (fun values =>
          some (addItems items values))
      else some (some (items.map (fun item => ⟨item.text.toList, none⟩)))
  | .strStr, _ =>
      some (some ((conf.dict w.kv.key).keys.map (fun subkey => ⟨fromUtf8 subkey.val, none⟩)))
  | _, _ => some none

/-- `setW(QListWidget *)`. -/
def setListWidget : Option (Form × Conf) := do
  let items ← listItems conf w
  match items with
  | none => some (form, conf)
  | some items =>
      (clearList conf w form).map (fun s => (s.1.setItems w.objectName items, s.2))

/-- `formatTTYMode`. -/
def formatTTYMode (value : Text) : Text :=
  match value with
  | ['A'] => ['(', 'a', 'u', 't', 'o', ')']
  | 'V' :: rest => rest
  | 'N' :: _ => ['(', 'd', 'o', 'n', Char.ofNat 39, 't', ' ', 's', 'e', 'n', 'd', ')']
  | _ => ['(', '-', '-', '-', ')']

/-- The row of an entry of a dictionary. -/
def tableRow (kv : KeyValue) (e : CStr × CStr) : Text × Text :=
  let text := cp.fromLocal8Bit e.2.val
  (fromUtf8 e.1.val, if .col1IsFormatted ∈ kv.options then formatTTYMode text else text)

/-- The rows of a dictionary. -/
def tableRows (kv : KeyValue) : List (Text × Text) :=
  let rows := (conf.dict kv.key).entries.map (tableRow cp kv)
  if .col0IsSorted ∈ kv.options then rows.insertionSort (fun r r' => r.1 ≤ r'.1) else rows

/-- `setW(QTableWidget *)`. -/
def setTableWidget : Form :=
  if w.kv.type = .strStr ∧ .twoColumns ∈ w.kv.options then
    form.setRows w.objectName (tableRows cp conf w.kv)
  else form

/-- `setW`, by the class of the widget. -/
def setW : Option (Form × Conf) :=
  match w.cls with
  | .checkBox => (setCheckBox conf w form).map (·, conf)
  | .radioButton _ _ => (setRadioButton conf w form).map (·, conf)
  | .lineEdit => (setLineEdit cp conf w form).map (·, conf)
  | .comboBox => (setComboBox cp conf w form).map (·, conf)
  | .listWidget => setListWidget conf w form
  | .tableWidget => some (setTableWidget cp conf w form, conf)

/-- The body of the loop of `setConfig`. -/
def loadWidget (s : Form × Conf) (w : Widget) : Option (Form × Conf) :=
  if .optional ∈ w.kv.options ∧ ¬ confKeyExists s.2 w.kv.key then some s
  else setW cp s.2 w s.1

end Setting

section Getting

variable (cp : CodePage) (form : Form) (w : Widget) (conf : Conf)

/-- `get` of a text. -/
def storeText (text : Text) (kv : KeyValue) : Option Conf :=
  if kv.type = .str then confSetStr conf (some kv.key) (cstr (cp.toLocal8Bit text))
  else if kv.type = .strAmbi ∨ kv.type = .utf8 then
    confSetUtf8 conf (some kv.key) (cstr (toUtf8 text))
  else some conf

/-- `getW(QCheckBox *)`. -/
def getCheckBox : Option Conf :=
  if w.kv.type = .bool then confSetBool conf (some w.kv.key) (form.checked w.objectName)
  else some conf

/-- `getW(QRadioButton *)`. -/
def getRadioButton (group : String) : Option Conf :=
  match w.kv.type, w.kv.value with
  | .int, .int v =>
      if form.button group = some w.objectName then confSetInt conf (some w.kv.key) v
      else some conf
  | .bool, .bool v =>
      if form.button group = some w.objectName then confSetBool conf (some w.kv.key) v
      else some conf
  | _, _ => some conf

/-- `QString::toInt(&ok)`: none where `ok` is false. -/
def textToInt (text : Text) : Option CInt :=
  let trimmed := ((text.dropWhile isSpaceChar).reverse.dropWhile isSpaceChar).reverse
  match readInt Char.toNat 10 trimmed with
  | some (v, []) => fitsInt v
  | _ => none

/-- `getW(QLineEdit *)`. -/
def getLineEdit : Option Conf :=
  if w.kv.isString then storeText cp conf (form.text w.objectName) w.kv
  else if w.kv.type = .int then
    match textToInt (form.text w.objectName) with
    | some i => confSetInt conf (some w.kv.key) i
    | none => some conf
  else if w.kv.type = .filename then
    confSetFilename conf (some w.kv.key) (filenameFromQString (form.text w.objectName))
  else some conf

/-- `getW(QComboBox *)`. -/
def getComboBox : Option Conf :=
  let cb := form.combo w.objectName
  if w.kv.isString then
    if .currentText ∈ w.kv.options then storeText cp conf cb.currentText w.kv else some conf
  else if w.kv.type = .int then
    match fitsInt cb.currentIndex with
    | some i => if 0 ≤ i.val then confSetInt conf (some w.kv.key) i else some conf
    | none => some conf
  else some conf

/-- The body of the loop of `getW(QListWidget *)`. -/
def storeItem (key : ConfOption) (conf : Conf) (item : ListItem × Nat) : Option Conf :=
  match item.1.data with
  | some value => confSetIntInt conf key item.2 value
  | none => some conf

/-- `getW(QListWidget *)`. -/
def getListWidget : Option Conf :=
  if w.kv.type = .intInt ∧ .userRole0 ∈ w.kv.options then
    (form.list w.objectName).zipIdx.foldlM (storeItem w.kv.key) conf
  else some conf

/-- The bytes of a cell. -/
def CodePage.cell (text : Text) : CStr := cstr (cp.toLocal8Bit text)

/-- The body of the loop over the rows in `getW(QTableWidget *)`, with `confVars`. -/
def storeRow (key : ConfOption) (s : Conf × List Text) (row : Text × Text) :
    Option (Conf × List Text) :=
  (confSetStrStr s.1 key (cp.cell row.1) (cp.cell row.2)).map (fun conf =>
    (conf, s.2.filter (· ≠ fromUtf8 (cp.cell row.1).val)))

/-- `getW(QTableWidget *)`. -/
def getTableWidget : Option Conf :=
  if w.kv.type = .strStr ∧ .twoColumns ∈ w.kv.options then
    if .dontWrite ∈ w.kv.options then some conf
    else do
      let confVars := (conf.dict w.kv.key).keys.map (fun varName => fromUtf8 varName.val)
      let s ← (form.table w.objectName).foldlM (storeRow cp w.kv.key) (conf, confVars)
      s.2.foldlM (fun conf varName => confDelStrStr conf w.kv.key (cstr (toLatin1 varName))) s.1
  else some conf

/-- `getW`, by the class of the widget. -/
def getW : Option Conf :=
  match w.cls with
  | .checkBox => getCheckBox form w conf
  | .radioButton group _ => getRadioButton form w conf group
  | .lineEdit => getLineEdit cp form w conf
  | .comboBox => getComboBox cp form w conf
  | .listWidget => getListWidget form w conf
  | .tableWidget => getTableWidget cp form w conf

end Getting

section Window

/-- `config_list` and the items of `l_saved_sess`.  A session is stored under its name; an
item at the top that has one shows the last part of its name, unless there is a slash in
its text. -/
structure SavedSessions extends SettingsWindow where
  named : ∀ name cfg, configList.find name = some cfg → cfg.name = name
  shown : ∀ item ∈ tree, '/' ∉ item.text → (configList.find item.fullSessname).isSome →
    baseOf '/' item.fullSessname = item.text

/-- `GuiSettingsWindow`.  `children` are the widgets of `UI_MAPPING` in the order of
`findChildren`: a page that is shown is raised, but on the first page the radio buttons of
the protocol come before the port. -/
structure GuiSettingsWindow where
  form : Form
  cfg : PuttyConfig
  isChangeSettingsMode : Bool
  sessions : SavedSessions
  currentItem : Option (List Nat)
  children : List Widget
  children_perm : children.Perm uiMapping
  port_behind : children.Pairwise (fun w w' => w.objectName = "le_port" →
    w'.objectName ≠ "rb_contype_telnet" ∧ w'.objectName ≠ "rb_contype_ssh")

/-- `CONF_wordness`. -/
def confWordness : ConfOption := ⟨"wordness", .int, .int⟩

/-- `CONF_font`. -/
def confFont : ConfOption := ⟨"font", .none, .font⟩

variable (cp : CodePage) (reload : GuiSettingsWindow → PuttyConfig → Option GuiSettingsWindow)
  (d : GuiSettingsWindow) (cfg : PuttyConfig)

/-- The start of `setConfig`: the loop over the widgets, and `setWordness`. -/
def GuiSettingsWindow.load : Option GuiSettingsWindow := do
  let conf ← cfg.ptr
  let s ← d.children.foldlM (loadWidget cp) (d.form, conf)
  if (List.range 256).all (fun ch => (s.2.list confWordness ch).isSome) then
    some { d with
      form := s.1
      cfg := ⟨cfg.name, some s.2⟩ }
  else none

/-- The first item at the top with a text, and its index. -/
def GuiSettingsWindow.findItem (text : Text) : Option (SessionItem × Nat) :=
  d.sessions.tree.zipIdx.find? (fun item => item.1.text = text)

/-- `on_l_saved_sess_currentItemChanged`, with the call of `setConfig`. -/
def GuiSettingsWindow.onCurrentItemChanged (item : SessionItem) : Option GuiSettingsWindow :=
  if d.isChangeSettingsMode then some d
  else
    match d.sessions.configList.find item.fullSessname with
    | none => some d
    | some cfg => cfg.copy.bind (reload d)

/-- `setCurrentItem` of an item at the top. -/
def GuiSettingsWindow.setCurrentItem (item : SessionItem × Nat) : Option GuiSettingsWindow :=
  if d.currentItem = some [item.2] then some d
  else { d with currentItem := some [item.2] }.onCurrentItemChanged reload item.1

/-- The end of `setConfig`. -/
def GuiSettingsWindow.finish : Option GuiSettingsWindow := do
  let conf ← d.cfg.ptr
  let _ ← confGetFontspec conf confFont
  some { d with form := d.form.setChecked "chb_sessionlog_flush" true }

/-- `setConfig`, with the call of itself as a parameter. -/
def setConfigWith : Option GuiSettingsWindow := do
  let d ← d.load cp cfg
  let d ← match d.findItem (baseOf '/' cfg.name) with
    | none => some d
    | some item => d.setCurrentItem reload item
  d.finish

/-- `setConfig` within a number of calls. -/
def setConfigWithin : Nat → GuiSettingsWindow → PuttyConfig → Option GuiSettingsWindow
  | 0 => fun _ _ => none
  | n + 1 => setConfigWith cp (setConfigWithin n)

/-- `setConfig`: the call in it selects an item that is selected, so two calls are enough
(`setConfig_eq`). -/
def setConfig : Option GuiSettingsWindow := setConfigWithin cp 2 d cfg

/-- `getConfig`. -/
def getConfig : Option GuiSettingsWindow := do
  let conf ← d.cfg.ptr
  let conf ← d.children.foldlM (fun conf w => getW cp d.form w conf) conf
  some { d with cfg := ⟨d.cfg.name, some conf⟩ }

end Window

section Calls

variable {cp : CodePage} {d : GuiSettingsWindow} {cfg : PuttyConfig}

/-- What loading keeps. -/
theorem load_keeps {d' : GuiSettingsWindow} (h : d.load cp cfg = some d') :
    d'.sessions = d.sessions ∧ d'.currentItem = d.currentItem ∧
      d'.isChangeSettingsMode = d.isChangeSettingsMode ∧ d'.children = d.children := by
  simp only [GuiSettingsWindow.load, Option.bind_eq_bind, Option.bind_eq_some_iff] at h
  obtain ⟨conf, -, s, -, hlast⟩ := h
  split_ifs at hlast
  obtain rfl := Option.some.inj hlast
  exact ⟨rfl, rfl, rfl, rfl⟩

/-- The item that is found shows a text without slashes. -/
theorem findItem_spec {text : Text} {item : SessionItem × Nat} (h : d.findItem text = some item) :
    item.1 ∈ d.sessions.tree ∧ item.1.text = text := by
  rw [GuiSettingsWindow.findItem] at h
  have hmem := List.mem_zipIdx' (List.mem_of_find?_eq_some h)
  exact ⟨hmem.2 ▸ List.getElem_mem _, by simpa using List.find?_some h⟩

/-- In the call of `setConfig` for the item that is current, nothing is called. -/
theorem setConfigWith_current {item : SessionItem × Nat} (hcurrent : d.currentItem = some [item.2])
    (hitem : d.findItem (baseOf '/' cfg.name) = some item)
    (reload reload' : GuiSettingsWindow → PuttyConfig → Option GuiSettingsWindow) :
    setConfigWith cp reload d cfg = setConfigWith cp reload' d cfg := by
  simp only [setConfigWith]
  refine Option.bind_congr fun d' hd' => ?_
  obtain ⟨hsessions, hd'current, -, -⟩ := load_keeps hd'
  have hfind : d'.findItem (baseOf '/' cfg.name) = some item := by
    rw [← hitem, GuiSettingsWindow.findItem, hsessions]
    rfl
  simp only [hfind, GuiSettingsWindow.setCurrentItem, hd'current, hcurrent, if_true]

/-- **`setConfig` calls itself.** -/
theorem setConfig_eq : setConfig cp d cfg = setConfigWith cp (setConfig cp) d cfg := by
  show setConfigWith cp (setConfigWithin cp 1) d cfg = setConfigWith cp (setConfigWithin cp 2) d cfg
  rw [setConfigWith, setConfigWith]
  refine Option.bind_congr fun d' hd' => ?_
  cases hitem : d'.findItem (baseOf '/' cfg.name) with
  | none => rfl
  | some item =>
      obtain ⟨hmem, htext⟩ := findItem_spec hitem
      simp only [GuiSettingsWindow.setCurrentItem, GuiSettingsWindow.onCurrentItemChanged]
      split_ifs
      · rfl
      · rfl
      · cases hstored : d'.sessions.configList.find item.1.fullSessname with
        | none => rfl
        | some stored =>
            -- the stored session has the name of the item, whose last part is found again
            have hbase : baseOf '/' stored.name = baseOf '/' cfg.name := by
              have hslash : '/' ∉ item.1.text := htext ▸ baseOf_notMem '/' cfg.name
              have hshown := d'.sessions.shown item.1 hmem hslash (by rw [hstored]; rfl)
              rw [d'.sessions.named _ _ hstored, hshown, htext]
            have hreload : ∀ copied, stored.copy = some copied →
                setConfigWithin cp 1 { d' with currentItem := some [item.2] } copied =
                  setConfigWithin cp 2 { d' with currentItem := some [item.2] } copied := by
              intro copied hcopy
              obtain ⟨conf, -, rfl⟩ := Option.map_eq_some_iff.mp hcopy
              refine setConfigWith_current rfl ?_ _ _
              exact (congrArg d'.findItem hbase).trans hitem
            have hsame := Option.bind_congr hreload
            exact congrArg (Option.bind · GuiSettingsWindow.finish) hsame

end Calls

end Dialog
end Qutty
