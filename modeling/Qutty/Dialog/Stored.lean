import Qutty.Config.WrittenValues
import Qutty.Dialog.Shown

/-!
# What the widgets store

Storing a widget changes the slot of its key only (`getW_changes`).  A check box, a radio
button, a line edit or a combo box replaces the value (`Widget.value`), a list some of the
numbers, and a table the dictionary: every row is written, and what had no row is erased.

After the loop of `getConfig` the settings are the same exactly if no widget changes the
slot of its key (`getWidgets_spec`), for the widgets of a key agree.
-/

namespace Qutty
namespace Dialog

open Config Lib Lib.ByteOrder Lib.Controls

section Values

/-- The value of a radio button, where it is stored. -/
def KeyValue.buttonValue (kv : KeyValue) : Option Value :=
  match kv.type, kv.value with
  | .int, .int v => some (.int v)
  | .bool, .bool v => some (.bool v)
  | _, _ => none

/-- The current index as it is stored. -/
def ComboBox.stored (cb : ComboBox) : Option CInt :=
  (fitsInt cb.currentIndex).filter (fun i => 0 ≤ i.val)

variable (cp : CodePage) (form : Form) (w : Widget)

/-- The value that a text is stored as. -/
def textValue (text : Text) (kv : KeyValue) : Option Value :=
  if kv.type = .str then some (.string (cp.cell text) false)
  else if kv.type = .strAmbi ∨ kv.type = .utf8 then some (.string (cstr (toUtf8 text)) true)
  else none

/-- The value that a widget is stored as; none where nothing is stored, or something with
subkeys. -/
def Widget.value : Option Value :=
  match w.cls with
  | .checkBox => if w.kv.type = .bool then some (.bool (form.checked w.objectName)) else none
  | .radioButton group _ =>
      if form.button group = some w.objectName then w.kv.buttonValue else none
  | .lineEdit =>
      if w.kv.isString then textValue cp (form.text w.objectName) w.kv
      else if w.kv.type = .int then (textToInt (form.text w.objectName)).map .int
      else if w.kv.type = .filename then
        some (.filename (filenameFromQString (form.text w.objectName)))
      else none
  | .comboBox =>
      if w.kv.isString then
        if .currentText ∈ w.kv.options then
          textValue cp (form.combo w.objectName).currentText w.kv
        else none
      else if w.kv.type = .int then (form.combo w.objectName).stored.map .int
      else none
  | _ => none

/-- The numbers of a list after its items have been stored. -/
def listAfter (items : List ListItem) (list : Int → Option CInt) : Int → Option CInt :=
  items.zipIdx.foldl (fun list item =>
    match item.1.data with
    | some value => Function.update list item.2 (some value)
    | none => list) list

/-- A dictionary after the rows have been written. -/
def writeRows (rows : List (Text × Text)) (dict : OrderedMap CStr CStr) : OrderedMap CStr CStr :=
  (rows.map (fun row => (cp.cell row.1, cp.cell row.2))).foldl (fun m e => m.insert e.1 e.2) dict

/-- The names that no row has written. -/
def leftNames (rows : List (Text × Text)) (names : List Text) : List Text :=
  rows.foldl (fun names row => names.filter (· ≠ fromUtf8 (cp.cell row.1).val)) names

/-- A dictionary after names have been erased. -/
def eraseNames (names : List Text) (dict : OrderedMap CStr CStr) : OrderedMap CStr CStr :=
  names.foldl (fun m name => m.erase (cstr (toLatin1 name))) dict

/-- A dictionary after its table has been stored. -/
def dictAfter (rows : List (Text × Text)) (dict : OrderedMap CStr CStr) : OrderedMap CStr CStr :=
  eraseNames (leftNames cp rows (dict.keys.map (fun name => fromUtf8 name.val)))
    (writeRows cp rows dict)

/-- What storing a widget does to the slot of its key. -/
def change (slot : Slot) : Slot :=
  match w.cls with
  | .listWidget =>
      if w.kv.type = .intInt ∧ .userRole0 ∈ w.kv.options then
        { slot with list := listAfter (form.list w.objectName) slot.list }
      else slot
  | .tableWidget =>
      if w.kv.type = .strStr ∧ .twoColumns ∈ w.kv.options ∧ .dontWrite ∉ w.kv.options then
        { slot with dict := dictAfter cp (form.table w.objectName) slot.dict }
      else slot
  | _ => { slot with scalar := (w.value cp form).or slot.scalar }

end Values

section Scalars

variable {cp : CodePage} {form : Form} {w : Widget}

/-- A value that a key takes. -/
def Takes (key : ConfOption) (v : Value) : Prop := key.subkey = .none ∧ v.Fits key.value

theorem takes_of_type {key : ConfOption} {v : Value} {t : KeyType} {type : ValueType}
    (h : keyToType key = t) (ht : t.types = some (.none, type)) (hv : v.Fits type) :
    Takes key v := by
  obtain ⟨hsubkey, hvalue⟩ := types_of_type h ht
  exact ⟨hsubkey, hvalue ▸ hv⟩

theorem textValue_takes {text : Text} {kv : KeyValue} {v : Value}
    (h : textValue cp text kv = some v) : Takes kv.key v := by
  rw [textValue] at h
  split_ifs at h with hstr hutf8
  · obtain rfl := Option.some.inj h
    exact takes_of_type hstr rfl (.inr (.inl ⟨rfl, rfl⟩))
  · obtain rfl := Option.some.inj h
    rcases hutf8 with hambi | hutf8
    · exact takes_of_type hambi rfl (.inl rfl)
    · exact takes_of_type hutf8 rfl (.inr (.inr ⟨rfl, rfl⟩))

theorem buttonValue_takes {kv : KeyValue} {v : Value} (h : kv.buttonValue = some v) :
    Takes kv.key v := by
  rw [KeyValue.buttonValue] at h
  split at h
  · next htype _ =>
      obtain rfl := Option.some.inj h
      exact takes_of_type htype rfl rfl
  · next htype _ =>
      obtain rfl := Option.some.inj h
      exact takes_of_type htype rfl rfl
  · exact absurd h (by simp)

/-- What is stored is a value of the key. -/
theorem value_takes {v : Value} (h : w.value cp form = some v) : Takes w.kv.key v := by
  rw [Widget.value] at h
  split at h
  · split_ifs at h with htype
    obtain rfl := Option.some.inj h
    exact takes_of_type htype rfl rfl
  · split_ifs at h
    exact buttonValue_takes h
  · split_ifs at h with _ hint hfilename
    · exact textValue_takes h
    · obtain ⟨i, -, rfl⟩ := Option.map_eq_some_iff.mp h
      exact takes_of_type hint rfl rfl
    · obtain rfl := Option.some.inj h
      exact takes_of_type hfilename rfl rfl
  · split_ifs at h with _ _ hint
    · exact textValue_takes h
    · obtain ⟨i, -, rfl⟩ := Option.map_eq_some_iff.mp h
      exact takes_of_type hint rfl rfl
  · exact absurd h (by simp)

/-- A value is set, if there is one. -/
def storeValue (conf : Conf) (key : ConfOption) (v : Option Value) : Option Conf :=
  match v with
  | some v => confSet conf (some key) v
  | none => some conf

theorem storeText_eq (conf : Conf) (text : Text) (kv : KeyValue) :
    storeText cp conf text kv = storeValue conf kv.key (textValue cp text kv) := by
  rw [storeText, textValue]
  split_ifs <;> rfl

/-- Widgets without subkeys. -/
theorem getW_eq (conf : Conf) (hlist : w.cls ≠ .listWidget) (htable : w.cls ≠ .tableWidget) :
    getW cp form w conf = storeValue conf w.kv.key (w.value cp form) := by
  cases hcls : w.cls with
  | checkBox =>
      simp only [getW, Widget.value, hcls, getCheckBox]
      split_ifs <;> rfl
  | radioButton group enabled =>
      simp only [getW, Widget.value, hcls, getRadioButton]
      by_cases hchecked : form.button group = some w.objectName
      · simp only [hchecked, if_true, KeyValue.buttonValue]
        split <;> simp_all only [storeValue] <;> rfl
      · simp only [hchecked, if_false]
        split <;> rfl
  | lineEdit =>
      simp only [getW, Widget.value, hcls, getLineEdit]
      split_ifs
      · exact storeText_eq ..
      · cases textToInt (form.text w.objectName) <;> rfl
      · rfl
      · rfl
  | comboBox =>
      simp only [getW, Widget.value, hcls, getComboBox, ComboBox.stored]
      split_ifs
      · exact storeText_eq ..
      · rfl
      · cases fitsInt (form.combo w.objectName).currentIndex with
        | none => rfl
        | some i =>
            by_cases hi : 0 ≤ i.val
            · simp only [Option.filter, hi, if_true, decide_true]
              rfl
            · simp only [Option.filter, hi, if_false, decide_false]
              rfl
      · rfl
  | listWidget => exact absurd hcls hlist
  | tableWidget => exact absurd hcls htable

theorem storeValue_changes (conf : Conf) {key : ConfOption} {v : Option Value}
    (h : ∀ value, v = some value → Takes key value) :
    ∃ conf', storeValue conf key v = some conf' ∧
      Changes Conf.slot key (fun slot => { slot with scalar := v.or slot.scalar }) conf conf' := by
  cases v with
  | none => exact ⟨conf, rfl, rfl, fun _ _ => rfl⟩
  | some value =>
      have htakes : key.subkey = .none ∧ value.Fits key.value := h value rfl
      refine ⟨conf.set key value htakes, confSet_some htakes, ?_, fun j hj => ?_⟩
      · rw [slot_set, if_pos rfl]
        rfl
      · rw [slot_set, if_neg hj]

end Scalars

section Lists

variable {key : ConfOption}

/-- The items of a list are stored one after the other. -/
theorem storeItems_changes (hkey : key.subkey = .int ∧ key.value = .int)
    (items : List (ListItem × Nat)) (conf : Conf) :
    ∃ conf', items.foldlM (storeItem key) conf = some conf' ∧
      Changes Conf.slot key (fun slot => { slot with
        list := items.foldl (fun list item =>
          match item.1.data with
          | some value => Function.update list item.2 (some value)
          | none => list) slot.list }) conf conf' := by
  induction items generalizing conf with
  | nil => exact ⟨conf, rfl, rfl, fun _ _ => rfl⟩
  | cons item items ih =>
      cases hdata : item.1.data with
      | none =>
          obtain ⟨conf', hfold, hself, hother⟩ := ih conf
          refine ⟨conf', ?_, ?_, hother⟩
          · rw [List.foldlM_cons, storeItem, hdata]
            exact hfold
          · simpa only [List.foldl_cons, hdata] using hself
      | some value =>
          obtain ⟨conf', hfold, hself, hother⟩ := ih (conf.setListItem key item.2 value)
          refine ⟨conf', ?_, ?_, fun j hj => ?_⟩
          · rw [List.foldlM_cons, storeItem, hdata]
            simp only [confSetIntInt, if_pos hkey]
            exact hfold
          · rw [hself, slot_setListItem, if_pos rfl]
            simp only [List.foldl_cons, hdata]
          · rw [hother j hj, slot_setListItem, if_neg hj]

theorem listAfter_append (items : List ListItem) (item : ListItem) (list : Int → Option CInt) :
    listAfter (items ++ [item]) list =
      match item.data with
      | some value => Function.update (listAfter items list) items.length (some value)
      | none => listAfter items list := by
  rw [listAfter, List.zipIdx_append, List.foldl_append, ← listAfter]
  simp

/-- The number of a row. -/
def itemData (items : List ListItem) (i : Int) : Option CInt :=
  if 0 ≤ i then (items[i.toNat]?).bind ListItem.data else none

theorem listAfter_apply (items : List ListItem) (list : Int → Option CInt) (i : Int) :
    listAfter items list i = (itemData items i).or (list i) := by
  induction items using List.reverseRecOn with
  | nil => simp [listAfter, itemData]
  | append_singleton items item ih =>
      rw [listAfter_append]
      rcases lt_or_ge i 0 with hneg | hi
      · have hne : i ≠ (items.length : Int) := by omega
        have hnot : ¬ 0 ≤ i := by omega
        rw [itemData, if_neg hnot] at ih ⊢
        cases item.data with
        | none => exact ih
        | some value => exact (Function.update_of_ne hne _ _).trans ih
      · obtain ⟨n, rfl⟩ := Int.eq_ofNat_of_zero_le hi
        rw [itemData, if_pos hi, Int.toNat_natCast] at ih ⊢
        rcases lt_trichotomy n items.length with hlt | heq | hgt
        · have hne : (n : Int) ≠ (items.length : Int) := by omega
          rw [List.getElem?_append_left hlt]
          cases item.data with
          | none => exact ih
          | some value => exact (Function.update_of_ne hne _ _).trans ih
        · subst heq
          rw [List.getElem?_concat_length]
          rw [List.getElem?_eq_none le_rfl] at ih
          cases hdata : item.data with
          | none => simpa [hdata] using ih
          | some value => simp [hdata]
        · have hne : (n : Int) ≠ (items.length : Int) := by omega
          rw [List.getElem?_eq_none (by simp; omega)]
          rw [List.getElem?_eq_none hgt.le] at ih
          cases item.data with
          | none => exact ih
          | some value => exact (Function.update_of_ne hne _ _).trans ih

/-- **The numbers of a list are the same** exactly if every item has the number of its row. -/
theorem listAfter_eq_iff {items : List ListItem} {list : Int → Option CInt} :
    listAfter items list = list ↔ ∀ i value, itemData items i = some value → list i = some value := by
  constructor
  · intro h i value hdata
    rw [← h, listAfter_apply, hdata]
    rfl
  · intro h
    funext i
    rw [listAfter_apply]
    cases hdata : itemData items i with
    | none => rfl
    | some value => exact (h i value hdata).symm

end Lists

section Tables

variable (cp : CodePage) {key : ConfOption}

/-- The rows of a table are stored one after the other. -/
theorem storeRows_changes (hkey : key.subkey = .str ∧ key.value = .str)
    (rows : List (Text × Text)) (conf : Conf) (names : List Text) :
    ∃ conf', rows.foldlM (storeRow cp key) (conf, names) = some (conf', leftNames cp rows names) ∧
      Changes Conf.slot key (fun slot => { slot with dict := writeRows cp rows slot.dict })
        conf conf' := by
  induction rows generalizing conf names with
  | nil => exact ⟨conf, rfl, rfl, fun _ _ => rfl⟩
  | cons row rows ih =>
      obtain ⟨conf', hfold, hself, hother⟩ :=
        ih (conf.setDictItem key (cp.cell row.1) (cp.cell row.2))
          (names.filter (· ≠ fromUtf8 (cp.cell row.1).val))
      refine ⟨conf', ?_, ?_, fun j hj => ?_⟩
      · rw [List.foldlM_cons, storeRow]
        simp only [confSetStrStr, if_pos hkey]
        exact hfold
      · rw [hself, slot_setDictItem, if_pos rfl]
        rfl
      · rw [hother j hj, slot_setDictItem, if_neg hj]

theorem slot_delDictItem {conf : Conf} {j : ConfOption} {subkey : CStr} :
    (conf.delDictItem key subkey).slot j =
      if j = key then { conf.slot key with dict := (conf.slot key).dict.erase subkey }
      else conf.slot j := by
  have hdict : (conf.delDictItem key subkey).dict j =
      if j = key then (conf.dict key).erase subkey else conf.dict j :=
    Function.update_apply _ _ _ _
  rw [Conf.slot, hdict]
  split_ifs with h
  · subst h
    rfl
  · rfl

/-- The names that are left are erased one after the other. -/
theorem delNames_changes (hkey : key.subkey = .str ∧ key.value = .str) (names : List Text)
    (conf : Conf) :
    ∃ conf', names.foldlM (fun conf name => confDelStrStr conf key (cstr (toLatin1 name))) conf =
        some conf' ∧
      Changes Conf.slot key (fun slot => { slot with dict := eraseNames names slot.dict })
        conf conf' := by
  induction names generalizing conf with
  | nil => exact ⟨conf, rfl, rfl, fun _ _ => rfl⟩
  | cons name names ih =>
      obtain ⟨conf', hfold, hself, hother⟩ := ih (conf.delDictItem key (cstr (toLatin1 name)))
      refine ⟨conf', ?_, ?_, fun j hj => ?_⟩
      · have hdel : confDelStrStr conf key (cstr (toLatin1 name)) =
            some (conf.delDictItem key (cstr (toLatin1 name))) := if_pos hkey
        rw [List.foldlM_cons, hdel]
        exact hfold
      · rw [hself, slot_delDictItem, if_pos rfl]
        rfl
      · rw [hother j hj, slot_delDictItem, if_neg hj]

variable {cp} in
theorem mem_leftNames {rows : List (Text × Text)} {names : List Text} {name : Text} :
    name ∈ leftNames cp rows names ↔
      name ∈ names ∧ ∀ row ∈ rows, name ≠ fromUtf8 (cp.cell row.1).val := by
  induction rows generalizing names with
  | nil => simp [leftNames]
  | cons row rows ih =>
      rw [leftNames, List.foldl_cons, ← leftNames, ih, List.mem_filter, List.forall_mem_cons,
        decide_eq_true_eq, and_assoc]

theorem find_eraseNames {names : List Text} {dict : OrderedMap CStr CStr} {k : CStr} :
    (eraseNames names dict).find k =
      if ∃ name ∈ names, cstr (toLatin1 name) = k then none else dict.find k := by
  induction names generalizing dict with
  | nil => simp [eraseNames]
  | cons name names ih =>
      rw [eraseNames, List.foldl_cons, ← eraseNames, ih, OrderedMap.find_erase]
      by_cases hname : cstr (toLatin1 name) = k
      · simp [hname]
      · simp [hname]

/-- The entry of a dictionary is erased: its name is left, or it is the Latin-1 form of one. -/
def Erased (rows : List (Text × Text)) (dict : OrderedMap CStr CStr) (k : CStr) :
    Prop :=
  ∃ name ∈ dict.keys, cstr (toLatin1 (fromUtf8 name.val)) = k ∧
    ∀ row ∈ rows, fromUtf8 name.val ≠ fromUtf8 (cp.cell row.1).val

/-- What is written for a key, by the last row. -/
def rowValue (rows : List (Text × Text)) (k : CStr) : Option CStr :=
  lastWrite k (rows.map (fun row => (cp.cell row.1, cp.cell row.2)))

open Classical in
theorem find_dictAfter (rows : List (Text × Text)) (dict : OrderedMap CStr CStr) (k : CStr) :
    (dictAfter cp rows dict).find k =
      if Erased cp rows dict k then none else (rowValue cp rows k).or (dict.find k) := by
  have herased : (∃ name ∈ leftNames cp rows (dict.keys.map (fun name => fromUtf8 name.val)),
      cstr (toLatin1 name) = k) ↔ Erased cp rows dict k := by
    constructor
    · rintro ⟨name, hname, hk⟩
      obtain ⟨hmem, hleft⟩ := mem_leftNames.mp hname
      obtain ⟨key, hkey, rfl⟩ := List.mem_map.mp hmem
      exact ⟨key, hkey, hk, hleft⟩
    · rintro ⟨key, hkey, hk, hleft⟩
      exact ⟨_, mem_leftNames.mpr ⟨List.mem_map_of_mem hkey, hleft⟩, hk⟩
  rw [dictAfter, find_eraseNames]
  simp only [herased]
  rw [writeRows, OrderedMap.find_foldl_insert]
  rfl

variable {cp} in
/-- **A dictionary is the same** exactly if nothing of it is erased, and what is written and
not erased is there. -/
theorem dictAfter_eq_iff {rows : List (Text × Text)} {dict : OrderedMap CStr CStr} :
    dictAfter cp rows dict = dict ↔
      ∀ k, (Erased cp rows dict k → dict.find k = none) ∧
        ∀ v, ¬ Erased cp rows dict k → rowValue cp rows k = some v → dict.find k = some v := by
  constructor
  · intro h k
    have hfind := find_dictAfter cp rows dict k
    rw [h] at hfind
    refine ⟨fun herased => ?_, fun v hkept hv => ?_⟩
    · rw [hfind, if_pos herased]
    · rw [hfind, if_neg hkept, hv]
      rfl
  · intro h
    refine OrderedMap.ext_find fun k => ?_
    rw [find_dictAfter cp]
    split_ifs with herased
    · exact ((h k).1 herased).symm
    · cases hv : rowValue cp rows k with
      | none => rfl
      | some v => exact ((h k).2 v herased hv).symm

end Tables

section Storing

variable (cp : CodePage) (form : Form) (w : Widget) (conf : Conf)

/-- **Storing a widget** changes the slot of its key. -/
theorem getW_changes : ∃ conf', getW cp form w conf = some conf' ∧
    Changes Conf.slot w.kv.key (change cp form w) conf conf' := by
  by_cases hlist : w.cls = .listWidget
  · simp only [getW, hlist, getListWidget]
    have hchange : ∀ slot, change cp form w slot =
        if w.kv.type = .intInt ∧ .userRole0 ∈ w.kv.options then
          { slot with list := listAfter (form.list w.objectName) slot.list }
        else slot := fun slot => by simp only [change, hlist]
    split_ifs at hchange ⊢ with hrole
    · obtain ⟨conf', hfold, hself, hother⟩ :=
        storeItems_changes (types_of_type hrole.1 rfl) (form.list w.objectName).zipIdx conf
      exact ⟨conf', hfold, hself.trans (hchange _).symm, hother⟩
    · exact ⟨conf, rfl, (hchange _).symm, fun _ _ => rfl⟩
  · by_cases htable : w.cls = .tableWidget
    · simp only [getW, htable, getTableWidget]
      have hchange : ∀ slot, change cp form w slot =
          if w.kv.type = .strStr ∧ .twoColumns ∈ w.kv.options ∧ .dontWrite ∉ w.kv.options then
            { slot with dict := dictAfter cp (form.table w.objectName) slot.dict }
          else slot := fun slot => by simp only [change, htable]
      by_cases htype : w.kv.type = .strStr ∧ .twoColumns ∈ w.kv.options
      · rw [if_pos htype]
        by_cases hdont : .dontWrite ∈ w.kv.options
        · rw [if_pos hdont]
          refine ⟨conf, rfl, ?_, fun _ _ => rfl⟩
          rw [hchange, if_neg fun h => h.2.2 hdont]
        · rw [if_neg hdont]
          have hkey : w.kv.key.subkey = .str ∧ w.kv.key.value = .str := types_of_type htype.1 rfl
          obtain ⟨conf₁, hrows, hself₁, hother₁⟩ := storeRows_changes cp hkey
            (form.table w.objectName) conf
            ((conf.dict w.kv.key).keys.map (fun varName => fromUtf8 varName.val))
          obtain ⟨conf₂, hnames, hself₂, hother₂⟩ := delNames_changes hkey
            (leftNames cp (form.table w.objectName)
              ((conf.dict w.kv.key).keys.map (fun varName => fromUtf8 varName.val))) conf₁
          refine ⟨conf₂, ?_, ?_, fun j hj => (hother₂ j hj).trans (hother₁ j hj)⟩
          · simp only [Option.bind_eq_bind, hrows, Option.bind_some]
            exact hnames
          · rw [hself₂, hself₁, hchange, if_pos ⟨htype.1, htype.2, hdont⟩]
            rfl
      · rw [if_neg htype]
        refine ⟨conf, rfl, ?_, fun _ _ => rfl⟩
        rw [hchange, if_neg fun h => htype ⟨h.1, h.2.1⟩]
    · rw [getW_eq conf hlist htable]
      have hchange : change cp form w =
          fun slot => { slot with scalar := (w.value cp form).or slot.scalar } := by
        funext slot
        cases hcls : w.cls with
        | listWidget => exact absurd hcls hlist
        | tableWidget => exact absurd hcls htable
        | _ => simp only [change, hcls]
      rw [hchange]
      exact storeValue_changes conf fun value hvalue => value_takes hvalue

end Storing

end Dialog
end Qutty
