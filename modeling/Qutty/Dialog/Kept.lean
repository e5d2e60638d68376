import Qutty.Dialog.Stored

/-!
# What is kept

A widget that shows the settings leaves them as they are exactly if they are kept by it
(`change_eq_iff`).  That is a condition on the value of its key and on the form before it
is loaded (`Kept`): a text has to survive its conversions, a radio button has to be there for
the value if the wrong one is checked, a list in the order of preference has to start with
known numbers that are different.
-/

namespace Qutty
namespace Dialog

open Config Lib Lib.ByteOrder Lib.Controls

section Conditions

variable (cp : CodePage) (before : Form) (conf : Conf) (w : Widget)

/-- A text that survives its conversions. -/
def KeptText (kv : KeyValue) : Prop :=
  ∀ s utf8, conf.scalar kv.key = some (.string s utf8) →
    if kv.type = .str then cp.cell (cp.fromLocal8Bit s.val) = s
    else utf8 = true ∧ cstr (toUtf8 (fromUtf8 s.val)) = s

/-- The item that is shown for a text: the one that has it, or the first. -/
def ComboBox.shown (cb : ComboBox) (text : Text) : Text := cb.items.getD (cb.indexOf text) []

/-- The numbers of a list that it has items for, each once, come first. -/
def KeptOrder (items : List DataItem) (values : List CInt) : Prop :=
  (values.filter (fun value => value ∈ items.map DataItem.data)).eraseDups <+: values

/-- A dictionary of which nothing is erased, and whose rows are written as they were. -/
def KeptRows (rows : List (Text × Text)) (dict : OrderedMap CStr CStr) : Prop :=
  ∀ k, (Erased cp rows dict k → dict.find k = none) ∧
    ∀ v, ¬ Erased cp rows dict k → rowValue cp rows k = some v → dict.find k = some v

/-- **The settings are kept by a widget.** -/
def Kept : Prop :=
  match w.cls with
  | .checkBox => w.kv.type = .bool →
      if w.objectName = "chb_sessionlog_flush" then conf.scalar w.kv.key = some (.bool true)
      else (conf.scalar w.kv.key).isSome
  | .radioButton group _ => before.button group = some w.objectName →
      (∀ w' ∈ uiMapping, ¬ w'.ClicksIn conf group) →
      ∀ v, w.kv.buttonValue = some v → conf.scalar w.kv.key = some v
  | .lineEdit =>
      (w.kv.isString → KeptText cp conf w.kv) ∧
        (w.kv.type = .filename → (conf.scalar w.kv.key).isSome)
  | .comboBox => w.kv.isString → .currentText ∈ w.kv.options →
      ∀ text, textFrom cp conf w.kv = some text →
        conf.scalar w.kv.key = textValue cp ((before.combo w.objectName).shown text) w.kv
  | .listWidget => w.kv.type = .intInt → .userRole0 ∈ w.kv.options →
      ∀ items values, w.kv.value = .dataList items →
        (List.range items.length).mapM (fun i : Nat => conf.list w.kv.key i) = some values →
        KeptOrder items values
  | .tableWidget => w.kv.type = .strStr → .twoColumns ∈ w.kv.options →
      .dontWrite ∉ w.kv.options → KeptRows cp (tableRows cp conf w.kv) (conf.dict w.kv.key)

end Conditions

section Mapping

/-- A list of items. -/
def KVValue.items : KVValue → Option (List DataItem)
  | .dataList items => some items
  | _ => Option.none

/-- A list in the order of preference has its items. -/
theorem uiMapping_lists : ∀ w ∈ uiMapping, w.cls = .listWidget → .userRole0 ∈ w.kv.options →
    ∃ items, w.kv.value = .dataList items := by
  have hlists : uiMapping.all (fun w => w.kv.value.items.isSome ||
      !decide (w.cls = .listWidget ∧ .userRole0 ∈ w.kv.options)) = true := by
    decide +kernel
  intro w hw hcls hrole
  have hlist := List.all_eq_true.mp hlists w hw
  cases hvalue : w.kv.value with
  | dataList items => exact ⟨items, rfl⟩
  | _ => simp [hvalue, KVValue.items, hcls, hrole] at hlist

/-- Widgets of one name are the same. -/
theorem eq_of_objectName {w w' : Widget} (hw : w ∈ uiMapping) (hw' : w' ∈ uiMapping)
    (h : w.objectName = w'.objectName) : w = w' :=
  List.inj_on_of_nodup_map objectName_nodup hw hw' h

end Mapping

section Shown

/-- The form shows the settings. -/
structure Shown (cp : CodePage) (conf : Conf) (before form : Form) : Prop where
  items : ∀ n, (form.combo n).items = (before.combo n).items
  button : ∀ group, (∀ w ∈ uiMapping, ¬ w.ClicksIn conf group) →
    form.button group = before.button group
  shows : ∀ w ∈ uiMapping, Shows cp conf before w form

/-- The form when `setConfig` is left. -/
def Form.finished (form : Form) : Form := form.setChecked "chb_sessionlog_flush" true

variable {cp : CodePage} {conf : Conf} {before form : Form} {w : Widget}

/-- Where nothing is replaced by another value. -/
theorem scalarChange_eq_iff {slot : Slot} {v : Option Value} :
    { slot with scalar := v.or slot.scalar } = slot ↔
      ∀ value, v = some value → slot.scalar = some value := by
  cases v with
  | none => simp
  | some value =>
      constructor
      · rintro h _ ⟨⟩
        exact (congrArg Slot.scalar h).symm
      · intro h
        obtain ⟨scalar, list, dict⟩ := slot
        have hscalar : scalar = some value := h value rfl
        rw [hscalar]
        rfl

theorem change_scalar (hlist : w.cls ≠ .listWidget) (htable : w.cls ≠ .tableWidget) (slot : Slot) :
    change cp form w slot = { slot with scalar := (w.value cp form).or slot.scalar } := by
  cases hcls : w.cls with
  | listWidget => exact absurd hcls hlist
  | tableWidget => exact absurd hcls htable
  | _ => simp only [change, hcls]

/-- The value of a key without options, or that is no file name and no check box. -/
theorem isSome_of_loaded (hw : w ∈ uiMapping) (hloaded : Loaded conf) {t : KeyType}
    {v : ValueType} (h : w.kv.type = t) (ht : t.types = some (.none, v))
    (hplain : w.kv.options = [] ∨ w.cls ≠ .checkBox ∧ t ≠ .filename) :
    (conf.scalar w.kv.key).isSome := by
  refine hloaded.scalars w hw (types_of_type h ht).1 fun hoptional => ?_
  rcases hplain with hnil | ⟨hcheck, hfile⟩
  · exact absurd (hnil ▸ hoptional) List.not_mem_nil
  · rcases uiMapping_optional w hw hoptional with ⟨hbox, -⟩ | ⟨-, hfilename⟩
    · exact hcheck hbox
    · exact hfile (h.symm.trans hfilename)

theorem isSome_of_string (hw : w ∈ uiMapping) (hloaded : Loaded conf) (hstring : w.kv.isString = true)
    (hcheck : w.cls ≠ .checkBox) : (conf.scalar w.kv.key).isSome := by
  rcases isString_cases hstring with h | h | h
  all_goals exact isSome_of_loaded hw hloaded h rfl (.inr ⟨hcheck, by simp⟩)

end Shown

section Classes

variable {cp : CodePage} {conf : Conf} {before form : Form} {w : Widget}

theorem value_checkBox (hcls : w.cls = .checkBox) (htype : w.kv.type = .bool) :
    w.value cp form.finished =
      some (.bool (if w.objectName = "chb_sessionlog_flush" then true
        else form.checked w.objectName)) := by
  simp only [Widget.value, hcls, htype, if_true, Form.finished, Form.setChecked,
    Function.update_apply]

theorem kept_checkBox (hshown : Shown cp conf before form) (hw : w ∈ uiMapping)
    (hcls : w.cls = .checkBox) :
    (∀ v, w.value cp form.finished = some v → conf.scalar w.kv.key = some v) ↔
      Kept cp before conf w := by
  have hshows := hshown.shows w hw
  simp only [Shows, hcls] at hshows
  simp only [Kept, hcls]
  by_cases htype : w.kv.type = .bool
  · rw [value_checkBox hcls htype]
    split_ifs with hflush
    · exact ⟨fun h _ => h _ rfl, fun h v hv => Option.some.inj hv ▸ h htype⟩
    · constructor
      · intro h _
        rw [h _ rfl]
        rfl
      · intro h v hv
        obtain rfl := Option.some.inj hv
        obtain ⟨b, hb⟩ := confGetBool_isSome htype (h htype)
        rw [hshows htype b (by simp only [confGetBool, hb])]
        exact hb
  · have hvalue : w.value cp form.finished = none := by
      simp only [Widget.value, hcls, if_neg htype]
    simp [hvalue, htype]

/-- A button that is clicked has the value of its key. -/
theorem Widget.ClicksIn.scalar {group : String} {v : Value} (h : w.ClicksIn conf group)
    (hv : w.kv.buttonValue = some v) : conf.scalar w.kv.key = some v := by
  obtain ⟨cv, hcv, hmeets⟩ := h.meets
  rw [KeyValue.buttonValue] at hv
  split at hv
  · next i htype hvalue =>
      obtain rfl := Option.some.inj hv
      rw [radioValue, if_pos htype] at hcv
      obtain ⟨i', hi', rfl⟩ := Option.map_eq_some_iff.mp hcv
      simp only [KeyValue.meets, hvalue, decide_eq_true_eq] at hmeets
      rw [confGetInt] at hi'
      split at hi'
      · next j hj =>
          obtain rfl := Option.some.inj hi'
          rw [hj, Subtype.ext hmeets]
      · exact absurd hi' (by simp)
  · next b htype hvalue =>
      obtain rfl := Option.some.inj hv
      rw [radioValue, if_neg (by simp [htype])] at hcv
      obtain ⟨b', hb', rfl⟩ := Option.map_eq_some_iff.mp hcv
      simp only [KeyValue.meets, hvalue, decide_eq_true_eq] at hmeets
      rw [confGetBool] at hb'
      split at hb'
      · next j hj =>
          obtain rfl := Option.some.inj hb'
          rw [hj]
          cases j <;> cases b <;> simp_all [intOfBool]
      · exact absurd hb' (by simp)
  · exact absurd hv (by simp)

theorem kept_radioButton {group : String} {enabled : Bool} (hshown : Shown cp conf before form)
    (hw : w ∈ uiMapping) (hcls : w.cls = .radioButton group enabled) :
    (∀ v, w.value cp form.finished = some v → conf.scalar w.kv.key = some v) ↔
      Kept cp before conf w := by
  have hvalue : w.value cp form.finished =
      if form.button group = some w.objectName then w.kv.buttonValue else none := by
    simp only [Widget.value, hcls]
    rfl
  simp only [Kept, hcls, hvalue]
  by_cases hnone : ∀ w' ∈ uiMapping, ¬ w'.ClicksIn conf group
  · rw [hshown.button group hnone]
    by_cases hchecked : before.button group = some w.objectName
    · simp only [hchecked, if_true]
      exact ⟨fun h _ _ => h, fun h => h trivial hnone⟩
    · simp [hchecked]
  · -- the button that is clicked last is checked
    push Not at hnone
    obtain ⟨w₀, hw₀, hclicks₀⟩ := hnone
    have hshows := hshown.shows w₀ hw₀
    simp only [Shows, hclicks₀.cls] at hshows
    obtain ⟨w', hw', hclicks, hbutton⟩ := hshows hclicks₀
    refine iff_of_true (fun v hv => ?_) (fun _ hnone => absurd hclicks₀ (hnone w₀ hw₀))
    split_ifs at hv with hchecked
    obtain rfl : w = w' :=
      eq_of_objectName hw hw' (Option.some.inj (hchecked.symm.trans hbutton))
    exact hclicks.scalar hv

/-- What is stored for a text that is shown. -/
theorem textValue_textFrom {kv : KeyValue} {s : CStr} {utf8 : Bool} {text : Text}
    (hstring : kv.isString = true) (hs : conf.scalar kv.key = some (.string s utf8))
    (htext : textFrom cp conf kv = some text) :
    (∀ v, textValue cp text kv = some v → conf.scalar kv.key = some v) ↔ KeptText cp conf kv := by
  have hfits := conf.scalar_fits kv.key _ hs
  simp only [textFrom, confGetStr, hs, Option.map_some, Option.some.injEq] at htext
  have hkept : KeptText cp conf kv ↔
      if kv.type = .str then cp.cell (cp.fromLocal8Bit s.val) = s
      else utf8 = true ∧ cstr (toUtf8 (fromUtf8 s.val)) = s := by
    constructor
    · exact fun h => h s utf8 hs
    · intro h s' utf8' hs'
      rw [hs, Option.some.injEq, Value.string.injEq] at hs'
      obtain ⟨rfl, rfl⟩ := hs'
      exact h
  rw [hkept, hs]
  rcases isString_cases hstring with htype | htype | htype
  · have htype' : kv.type = .str := htype
    have hutf8 : utf8 = false := by
      have hvalue := (types_of_type htype rfl).2
      have hfit := hfits.2
      rw [hvalue] at hfit
      simpa [Value.Fits] using hfit
    rw [htype'] at htext
    simp only [textValue, htype', if_true, Option.some.injEq, forall_eq', Value.string.injEq,
      hutf8, and_true, ← htext]
    exact eq_comm
  · have htype' : kv.type = .strAmbi := htype
    rw [htype'] at htext
    simp only [textValue, htype', ← htext]
    cases utf8 with
    | false => simp
    | true => simp [eq_comm]
  · have htype' : kv.type = .utf8 := htype
    have hutf8 : utf8 = true := by
      have hvalue := (types_of_type htype rfl).2
      have hfit := hfits.2
      rw [hvalue] at hfit
      simpa [Value.Fits] using hfit
    rw [htype'] at htext
    simp [textValue, htype', ← htext, hutf8, eq_comm]

theorem textToInt_numberText (v : CInt) : textToInt (numberText v.val) = some v := by
  simp only [textToInt, trim_numberText, readInt_numberText, fitsInt_val]

theorem kept_lineEdit (hloaded : Loaded conf) (hshown : Shown cp conf before form)
    (hw : w ∈ uiMapping) (hcls : w.cls = .lineEdit) :
    (∀ v, w.value cp form.finished = some v → conf.scalar w.kv.key = some v) ↔
      Kept cp before conf w := by
  have hshows := hshown.shows w hw
  simp only [Shows, hcls, lineText] at hshows
  simp only [Kept, hcls, Widget.value, Form.finished, Form.setChecked]
  by_cases hstring : w.kv.isString = true
  · have hnotfile : w.kv.type ≠ .filename := by
      intro h
      simp [KeyValue.isString, h] at hstring
    obtain ⟨s, utf8, hs⟩ :=
      confGetStr_isSome hstring (isSome_of_string hw hloaded hstring (by simp [hcls]))
    obtain ⟨text, htext⟩ : ∃ text, textFrom cp conf w.kv = some text :=
      ⟨_, by simp only [textFrom, confGetStr, hs]; rfl⟩
    rw [if_pos hstring] at hshows
    rw [if_pos hstring, hshows text htext, textValue_textFrom hstring hs htext]
    exact ⟨fun h => ⟨fun _ => h, fun hfile => absurd hfile hnotfile⟩, fun h => h.1 hstring⟩
  · simp only [if_neg hstring] at hshows ⊢
    by_cases hint : w.kv.type = .int
    · obtain ⟨i, hi⟩ := confGetInt_isSome hint
        (isSome_of_loaded hw hloaded hint rfl (.inr ⟨by simp [hcls], by simp⟩))
      have hget : confGetInt conf w.kv.key = some i := by simp only [confGetInt, hi]
      rw [if_pos hint, hget] at hshows
      rw [if_pos hint, hshows _ rfl, textToInt_numberText, hi]
      simp [hstring, hint]
    · simp only [if_neg hint] at hshows ⊢
      by_cases hfile : w.kv.type = .filename
      · simp only [if_pos hfile] at hshows ⊢
        constructor
        · intro h
          rw [h _ rfl]
          simp [hstring]
        · rintro ⟨-, h⟩ v hv
          obtain rfl := Option.some.inj hv
          obtain ⟨fn, hfn⟩ := confGetFilename_isSome hfile (h hfile)
          rw [hshows fn (by simp only [confGetFilename, hfn]; rfl), hfn]
          rfl
      · simp [hstring, hfile]

theorem currentText_setCurrentIndex (cb : ComboBox) (n : Nat) :
    (cb.setCurrentIndex n).currentText = cb.items.getD n [] := by
  rw [ComboBox.currentText, ComboBox.setCurrentIndex]
  by_cases hn : n < cb.items.length
  · have hindex : 0 ≤ (n : Int) ∧ (n : Int) < cb.items.length := by omega
    simp [hindex]
  · have hindex : ¬ (0 ≤ (n : Int) ∧ (n : Int) < cb.items.length) := by omega
    simp only [if_neg hindex, Int.reduceNeg, Int.reduceLE, if_false]
    rw [List.getD_eq_getElem?_getD, List.getElem?_eq_none (by omega)]
    rfl

/-- A number that has an item is stored; without one nothing is. -/
theorem stored_setCurrentIndex {cb : ComboBox} {i v : CInt}
    (h : (cb.setCurrentIndex i.val).stored = some v) : v = i := by
  rw [ComboBox.stored, ComboBox.setCurrentIndex] at h
  obtain ⟨hfits, hpos⟩ := Option.filter_eq_some_iff.mp h
  by_cases hindex : 0 ≤ i.val ∧ i.val < cb.items.length
  · simp only [if_pos hindex, fitsInt_val] at hfits
    exact (Option.some.inj hfits).symm
  · simp only [if_neg hindex] at hfits
    rw [fitsInt, dif_pos (by omega)] at hfits
    rw [← Option.some.inj hfits] at hpos
    exact absurd hpos (by simp)

theorem kept_comboBox (hloaded : Loaded conf) (hshown : Shown cp conf before form)
    (hw : w ∈ uiMapping) (hcls : w.cls = .comboBox) :
    (∀ v, w.value cp form.finished = some v → conf.scalar w.kv.key = some v) ↔
      Kept cp before conf w := by
  have hshows := hshown.shows w hw
  simp only [Shows, hcls, comboIndex] at hshows
  simp only [Kept, hcls, Widget.value, Form.finished, Form.setChecked]
  by_cases hstring : w.kv.isString = true
  · rw [if_pos hstring] at hshows ⊢
    by_cases hcurrent : .currentText ∈ w.kv.options
    · obtain ⟨s, utf8, hs⟩ :=
        confGetStr_isSome hstring (isSome_of_string hw hloaded hstring (by simp [hcls]))
      obtain ⟨text, htext⟩ : ∃ text, textFrom cp conf w.kv = some text :=
        ⟨_, by simp only [textFrom, confGetStr, hs]; rfl⟩
      rw [if_pos hcurrent, hshows _ (by rw [htext]; rfl), currentText_setCurrentIndex]
      have hvalue : ∀ shown, ∃ v, textValue cp shown w.kv = some v := by
        intro shown
        rcases isString_cases hstring with h | h | h
        all_goals
          have htype : w.kv.type = _ := h
          simp [textValue, htype]
      obtain ⟨v, hv⟩ := hvalue ((before.combo w.objectName).shown text)
      have hkept : (∀ v', textValue cp ((before.combo w.objectName).shown text) w.kv = some v' →
          conf.scalar w.kv.key = some v') ↔
            conf.scalar w.kv.key =
              textValue cp ((before.combo w.objectName).shown text) w.kv := by
        rw [hv]
        exact ⟨fun h => h v rfl, fun h v' hv' => h.trans hv'⟩
      exact hkept.trans ⟨fun h _ _ text' htext' => Option.some.inj (htext.symm.trans htext') ▸ h,
        fun h => h hstring hcurrent text htext⟩
    · simp [hcurrent]
  · simp only [if_neg hstring] at hshows ⊢
    by_cases hint : w.kv.type = .int
    · obtain ⟨i, hi⟩ := confGetInt_isSome hint
        (isSome_of_loaded hw hloaded hint rfl (.inr ⟨by simp [hcls], by simp⟩))
      have hget : confGetInt conf w.kv.key = some i := by simp only [confGetInt, hi]
      rw [if_pos hint, hget] at hshows
      rw [if_pos hint, hshows i.val rfl]
      refine iff_of_true (fun v hv => ?_) (fun h => absurd h hstring)
      obtain ⟨j, hj, rfl⟩ := Option.map_eq_some_iff.mp hv
      rw [hi, stored_setCurrentIndex hj]
    · simp [hint, hstring]

end Classes

section Orders

variable {items : List DataItem} {values : List CInt} {value : CInt}

theorem find_dataItem_isSome (h : value ∈ items.map DataItem.data) :
    ∃ item, items.find? (fun item => item.data = value) = some item := by
  obtain ⟨item, hmem, hdata⟩ := List.mem_map.mp h
  exact Option.isSome_iff_exists.mp (List.find?_isSome.mpr ⟨item, hmem, by simpa using hdata⟩)

/-- One more number: its item is added if there is one, and it is not there yet. -/
theorem addItems_concat (items : List DataItem) (values : List CInt) (value : CInt) :
    (addItems items (values ++ [value])).map ListItem.data =
      if value ∈ items.map DataItem.data ∧ some value ∉ (addItems items values).map ListItem.data
      then (addItems items values).map ListItem.data ++ [some value]
      else (addItems items values).map ListItem.data := by
  have hthere : (addItems items values).any (fun i => i.data = some value) = true ↔
      some value ∈ (addItems items values).map ListItem.data := by
    simp
  rw [addItems, List.foldl_append, ← addItems, List.foldl_cons, List.foldl_nil]
  by_cases hknown : value ∈ items.map DataItem.data
  · obtain ⟨item, hitem⟩ := find_dataItem_isSome hknown
    by_cases hmem : some value ∈ (addItems items values).map ListItem.data
    · simp only [hitem, if_pos (hthere.mpr hmem), hmem, not_true_eq_false, and_false, if_false]
    · simp only [hitem, if_neg (fun h => hmem (hthere.mp h)), hknown, hmem, not_false_eq_true,
        and_self, if_true, List.map_append, List.map_cons, List.map_nil]
  · have hnone : items.find? (fun item => item.data = value) = none := by
      refine List.find?_eq_none.mpr fun item hitem hdata => hknown ?_
      exact List.mem_map.mpr ⟨item, hitem, by simpa using hdata⟩
    simp only [hnone, hknown, false_and, if_false]

theorem eraseDups_concat (values : List CInt) (value : CInt) :
    (values ++ [value]).eraseDups =
      if value ∈ values then values.eraseDups else values.eraseDups ++ [value] := by
  rw [List.eraseDups_append, List.removeAll]
  by_cases hmem : value ∈ values
  · simp [hmem]
  · simp [hmem, List.eraseDups_cons]

/-- The items that are added have the known numbers, each once. -/
theorem addItems_data (items : List DataItem) (values : List CInt) :
    (addItems items values).map ListItem.data =
      ((values.filter (fun value => value ∈ items.map DataItem.data)).eraseDups).map some := by
  induction values using List.reverseRecOn with
  | nil => rfl
  | append_singleton values value ih =>
      rw [addItems_concat, ih, List.filter_append]
      by_cases hknown : value ∈ items.map DataItem.data
      · have hlast : [value].filter (fun value => value ∈ items.map DataItem.data) = [value] :=
          List.filter_eq_self.mpr (by simpa using hknown)
        have hmem : some value ∈
            ((values.filter (fun value => value ∈ items.map DataItem.data)).eraseDups).map some ↔
              value ∈ values.filter (fun value => value ∈ items.map DataItem.data) := by
          rw [List.mem_map_of_injective (Option.some_injective _), List.mem_eraseDups]
        rw [hlast, eraseDups_concat]
        by_cases hthere : value ∈ values.filter (fun value => value ∈ items.map DataItem.data)
        · rw [if_neg fun h => h.2 (hmem.mpr hthere), if_pos hthere]
        · rw [if_pos ⟨hknown, fun h => hthere (hmem.mp h)⟩, if_neg hthere, List.map_append]
          rfl
      · have hlast : [value].filter (fun value => value ∈ items.map DataItem.data) = [] :=
          List.filter_eq_nil_iff.mpr (by simpa using hknown)
        rw [hlast, List.append_nil, if_neg fun h => hknown h.1]

theorem length_addItems_le (items : List DataItem) (values : List CInt) :
    (addItems items values).length ≤ values.length := by
  induction values using List.reverseRecOn with
  | nil => exact le_rfl
  | append_singleton values value ih =>
      have hlength := congrArg List.length (addItems_concat items values value)
      rw [List.length_map] at hlength
      rw [hlength, List.length_append, List.length_singleton]
      split_ifs
      · simpa using ih
      · simpa using ih.trans (Nat.le_succ _)

/-- The numbers that are read one by one. -/
theorem getElem_of_mapM {α β : Type} {f : α → Option β} {xs : List α} {ys : List β}
    (h : xs.mapM f = some ys) :
    xs.length = ys.length ∧ ∀ (i : Nat) (x : α), xs[i]? = some x → f x = ys[i]? := by
  induction xs generalizing ys with
  | nil =>
      obtain rfl := Option.some.inj h
      simp
  | cons x xs ih =>
      rw [List.mapM_cons] at h
      simp only [Option.bind_eq_bind, Option.bind_eq_some_iff] at h
      obtain ⟨y, hy, ys', hys', hcons⟩ := h
      obtain rfl := Option.some.inj hcons
      obtain ⟨hlength, hget⟩ := ih hys'
      refine ⟨by simp [hlength], fun i x' hx' => ?_⟩
      cases i with
      | zero =>
          obtain rfl := Option.some.inj hx'
          simpa using hy
      | succ i => simpa using hget i x' (by simpa using hx')

/-- **A list that shows the settings** keeps them if the known numbers come first. -/
theorem listAfter_addItems {list : Int → Option CInt}
    (h : (List.range items.length).mapM (fun i : Nat => list i) = some values) :
    listAfter (addItems items values) list = list ↔ KeptOrder items values := by
  obtain ⟨hlength, hget⟩ := getElem_of_mapM h
  rw [List.length_range] at hlength
  have hdata : ∀ n : Nat, itemData (addItems items values) n =
      ((values.filter (fun value => value ∈ items.map DataItem.data)).eraseDups)[n]? := by
    intro n
    have hmap := congrArg (fun data : List (Option CInt) => (data[n]?).join)
      (addItems_data items values)
    simp only [List.getElem?_map] at hmap
    have hbind : ∀ o : Option ListItem, o.bind ListItem.data = (o.map ListItem.data).join := by
      rintro (_ | _) <;> rfl
    have hjoin : ∀ o : Option CInt, (o.map some).join = o := by
      rintro (_ | _) <;> rfl
    rw [itemData, if_pos (Int.natCast_nonneg n), Int.toNat_natCast, hbind, hmap, hjoin]
  have hshort : ∀ n, n < ((values.filter
      (fun value => value ∈ items.map DataItem.data)).eraseDups).length → n < values.length := by
    intro n hn
    have hlen := congrArg List.length (addItems_data items values)
    rw [List.length_map, List.length_map] at hlen
    exact (hlen ▸ hn).trans_le (length_addItems_le items values)
  have hlist : ∀ n < values.length, list (n : Nat) = values[n]? := fun n hn =>
    hget n n (List.getElem?_range (hlength ▸ hn))
  rw [listAfter_eq_iff, KeptOrder, List.prefix_iff_getElem?]
  constructor
  · intro hkept n hn
    rw [← hlist n (hshort n hn)]
    exact hkept n _ ((hdata n).trans (List.getElem?_eq_getElem hn))
  · intro hkept i value hvalue
    have hi : 0 ≤ i := by
      by_contra hneg
      rw [itemData, if_neg hneg] at hvalue
      exact absurd hvalue (by simp)
    obtain ⟨n, rfl⟩ := Int.eq_ofNat_of_zero_le hi
    rw [hdata] at hvalue
    obtain ⟨hn, hget'⟩ := List.getElem?_eq_some_iff.mp hvalue
    rw [hlist n (hshort n hn), hkept n hn, hget']

end Orders

section Widgets

variable {cp : CodePage} {conf : Conf} {before form : Form} {w : Widget}

theorem slot_list_eq_iff {slot : Slot} {list : Int → Option CInt} :
    { slot with list := list } = slot ↔ list = slot.list :=
  ⟨fun h => congrArg Slot.list h, fun h => by rw [h]⟩

theorem slot_dict_eq_iff {slot : Slot} {dict : OrderedMap CStr CStr} :
    { slot with dict := dict } = slot ↔ dict = slot.dict :=
  ⟨fun h => congrArg Slot.dict h, fun h => by rw [h]⟩

theorem kept_listWidget (hloaded : Loaded conf) (hshown : Shown cp conf before form)
    (hw : w ∈ uiMapping) (hcls : w.cls = .listWidget) :
    change cp form.finished w (conf.slot w.kv.key) = conf.slot w.kv.key ↔ Kept cp before conf w := by
  have hshows := hshown.shows w hw
  simp only [Shows, hcls] at hshows
  simp only [Kept, change, hcls]
  by_cases hrole : w.kv.type = .intInt ∧ .userRole0 ∈ w.kv.options
  · obtain ⟨items, hitems⟩ := uiMapping_lists w hw hcls hrole.2
    obtain ⟨values, hvalues⟩ : ∃ values,
        (List.range items.length).mapM (fun i : Nat => conf.list w.kv.key i) = some values :=
      Option.isSome_iff_exists.mp (mapM_isSome fun i hi =>
        hloaded.items w hw items hitems hrole.2 i (List.mem_range.mp hi))
    have hshown : form.finished.list w.objectName = addItems items values := by
      refine hshows _ ?_
      rw [listItems]
      simp only [hrole.1, hitems, if_pos hrole.2, hvalues, Option.map_some]
    have hlist : (conf.slot w.kv.key).list = conf.list w.kv.key := rfl
    rw [if_pos hrole, hshown, slot_list_eq_iff, hlist, listAfter_addItems hvalues]
    constructor
    · intro h _ _ items' values' hitems' hvalues'
      obtain rfl := KVValue.dataList.inj (hitems.symm.trans hitems')
      obtain rfl := Option.some.inj (hvalues.symm.trans hvalues')
      exact h
    · exact fun h => h hrole.1 hrole.2 items values hitems hvalues
  · rw [if_neg hrole]
    exact iff_of_true rfl fun htype hoption => absurd ⟨htype, hoption⟩ hrole

theorem kept_tableWidget (hshown : Shown cp conf before form) (hw : w ∈ uiMapping)
    (hcls : w.cls = .tableWidget) :
    change cp form.finished w (conf.slot w.kv.key) = conf.slot w.kv.key ↔ Kept cp before conf w := by
  have hshows := hshown.shows w hw
  simp only [Shows, hcls] at hshows
  simp only [Kept, change, hcls]
  by_cases hwrite : w.kv.type = .strStr ∧ .twoColumns ∈ w.kv.options ∧ .dontWrite ∉ w.kv.options
  · have hrows : form.finished.table w.objectName = tableRows cp conf w.kv :=
      hshows hwrite.1 hwrite.2.1
    have hdict : (conf.slot w.kv.key).dict = conf.dict w.kv.key := rfl
    rw [if_pos hwrite, hrows, slot_dict_eq_iff, hdict, dictAfter_eq_iff]
    exact ⟨fun h _ _ _ => h, fun h => h hwrite.1 hwrite.2.1 hwrite.2.2⟩
  · rw [if_neg hwrite]
    exact iff_of_true rfl fun htype hcolumns hdont => absurd ⟨htype, hcolumns, hdont⟩ hwrite

/-- **Storing a widget that shows the settings** changes nothing exactly if they are kept. -/
theorem change_eq_iff (hloaded : Loaded conf) (hshown : Shown cp conf before form)
    (hw : w ∈ uiMapping) :
    change cp form.finished w (conf.slot w.kv.key) = conf.slot w.kv.key ↔ Kept cp before conf w := by
  by_cases hlist : w.cls = .listWidget
  · exact kept_listWidget hloaded hshown hw hlist
  · by_cases htable : w.cls = .tableWidget
    · exact kept_tableWidget hshown hw htable
    · have hscalar : (conf.slot w.kv.key).scalar = conf.scalar w.kv.key := rfl
      rw [change_scalar hlist htable, scalarChange_eq_iff, hscalar]
      cases hcls : w.cls with
      | checkBox => exact kept_checkBox hshown hw hcls
      | radioButton group enabled => exact kept_radioButton hshown hw hcls
      | lineEdit => exact kept_lineEdit hloaded hshown hw hcls
      | comboBox => exact kept_comboBox hloaded hshown hw hcls
      | listWidget => exact absurd hcls hlist
      | tableWidget => exact absurd hcls htable

end Widgets

section Agreement

variable {cp : CodePage} {conf : Conf} {before form : Form} {w w' : Widget}

/-- Widgets that store the same value, or of which one stores none. -/
theorem agrees_of_value (hlist : w.cls ≠ .listWidget) (htable : w.cls ≠ .tableWidget)
    (hlist' : w'.cls ≠ .listWidget) (htable' : w'.cls ≠ .tableWidget)
    (h : w.value cp form = none ∨ w'.value cp form = none ∨ w.value cp form = w'.value cp form) :
    Agrees (fun w => w.kv.key) (change cp form) w w' := by
  intro _ slot
  rw [change_scalar hlist htable, change_scalar hlist' htable']
  rcases h with hnone | hnone | hsame
  · exact .inl (by rw [hnone]; rfl)
  · exact .inr (by rw [hnone]; rfl)
  · refine .inr ?_
    rw [hsame]
    cases w'.value cp form <;> rfl

/-- The widgets of a family are radio buttons of one group, or plain check boxes and line
edits. -/
theorem family_cases (h : w.family ≠ none) :
    w.kv.options = [] ∧ w.objectName ≠ "chb_sessionlog_flush" ∧
      ((∃ group enabled, w.cls = .radioButton group enabled ∧ w.family = some (some group)) ∨
        w.family = some none ∧ (w.cls = .checkBox ∨ w.cls = .lineEdit)) := by
  have hplain : ¬ (w.kv.options ≠ [] ∨ w.objectName = "chb_sessionlog_flush") := by
    intro hnot
    exact h (if_pos hnot)
  refine ⟨not_not.mp fun hne => hplain (.inl hne), fun hname => hplain (.inr hname), ?_⟩
  cases hcls : w.cls with
  | radioButton group enabled =>
      exact .inl ⟨group, enabled, rfl, by simp only [Widget.family, if_neg hplain, hcls]⟩
  | checkBox => exact .inr ⟨by simp only [Widget.family, if_neg hplain, hcls], .inl rfl⟩
  | lineEdit => exact .inr ⟨by simp only [Widget.family, if_neg hplain, hcls], .inr rfl⟩
  | comboBox => exact absurd (by simp only [Widget.family, if_neg hplain, hcls]) h
  | listWidget => exact absurd (by simp only [Widget.family, if_neg hplain, hcls]) h
  | tableWidget => exact absurd (by simp only [Widget.family, if_neg hplain, hcls]) h

/-- What a plain check box stores is the value of its key. -/
theorem value_plainCheckBox (hloaded : Loaded conf) (hshown : Shown cp conf before form)
    (hw : w ∈ uiMapping) (hcls : w.cls = .checkBox) (hoptions : w.kv.options = [])
    (hflush : w.objectName ≠ "chb_sessionlog_flush") {v : Value}
    (hv : w.value cp form.finished = some v) : conf.scalar w.kv.key = some v := by
  refine (kept_checkBox hshown hw hcls).mpr ?_ v hv
  simp only [Kept, hcls, if_neg hflush]
  exact fun htype => isSome_of_loaded hw hloaded htype rfl (.inl hoptions)

/-- What a plain line edit stores, if it stores anything. -/
theorem value_plainLineEdit (hloaded : Loaded conf) (hshown : Shown cp conf before form)
    (hw : w ∈ uiMapping) (hcls : w.cls = .lineEdit) (hoptions : w.kv.options = []) :
    (∃ text, lineText cp conf w.kv = some text ∧ form.finished.text w.objectName = text) ∨
      w.value cp form.finished = none := by
  have hsome : w.kv.key.subkey = .none → (conf.scalar w.kv.key).isSome := fun hsubkey =>
    hloaded.scalars w hw hsubkey (by simp [hoptions])
  have hshows := hshown.shows w hw
  simp only [Shows, hcls] at hshows
  rcases lineText_isSome cp hsome with ⟨text, htext⟩ | ⟨hstring, hint, hfilename⟩
  · exact .inl ⟨text, htext, hshows text htext⟩
  · refine .inr ?_
    simp [Widget.value, hcls, hstring, hint, hfilename]

/-- A check box and a line edit of one key do not both store something. -/
theorem value_checkBox_lineEdit (hcls : w.cls = .checkBox) (hcls' : w'.cls = .lineEdit)
    (hkey : w.kv.key = w'.kv.key) : w.value cp form = none ∨ w'.value cp form = none := by
  by_cases htype : w.kv.type = .bool
  · have htype' : w'.kv.type = .bool := (congrArg keyToType hkey).symm.trans htype
    refine .inr ?_
    simp [Widget.value, hcls', KeyValue.isString, htype']
  · exact .inl (by simp only [Widget.value, hcls, if_neg htype])

/-- Line edits of one key with the same text store the same value. -/
theorem value_lineEdit_congr (hcls : w.cls = .lineEdit) (hcls' : w'.cls = .lineEdit)
    (hkey : w.kv.key = w'.kv.key) (htext : form.text w.objectName = form.text w'.objectName) :
    w.value cp form = w'.value cp form := by
  obtain ⟨name, cls, key, value, options⟩ := w
  obtain ⟨name', cls', key', value', options'⟩ := w'
  obtain rfl : cls = .lineEdit := hcls
  obtain rfl : cls' = .lineEdit := hcls'
  obtain rfl : key = key' := hkey
  simp only [Widget.value, htext]
  rfl

theorem lineText_congr {kv kv' : KeyValue} (hkey : kv.key = kv'.key) :
    lineText cp conf kv = lineText cp conf kv' := by
  obtain ⟨key, value, options⟩ := kv
  obtain ⟨key', value', options'⟩ := kv'
  obtain rfl : key = key' := hkey
  rfl

/-- Plain check boxes and line edits of one key store the same value. -/
theorem value_plain (hloaded : Loaded conf) (hshown : Shown cp conf before form)
    (hw : w ∈ uiMapping) (hw' : w' ∈ uiMapping) (hkey : w.kv.key = w'.kv.key)
    (hcls : w.cls = .checkBox ∨ w.cls = .lineEdit)
    (hcls' : w'.cls = .checkBox ∨ w'.cls = .lineEdit) (hoptions : w.kv.options = [])
    (hoptions' : w'.kv.options = []) (hflush : w.objectName ≠ "chb_sessionlog_flush")
    (hflush' : w'.objectName ≠ "chb_sessionlog_flush") :
    w.value cp form.finished = none ∨ w'.value cp form.finished = none ∨
      w.value cp form.finished = w'.value cp form.finished := by
  rcases hcls with hbox | hedit <;> rcases hcls' with hbox' | hedit'
  · cases hv : w.value cp form.finished with
    | none => exact .inl rfl
    | some v =>
        cases hv' : w'.value cp form.finished with
        | none => exact .inr (.inl rfl)
        | some v' =>
            have hscalar := value_plainCheckBox hloaded hshown hw hbox hoptions hflush hv
            have hscalar' := value_plainCheckBox hloaded hshown hw' hbox' hoptions' hflush' hv'
            rw [← hkey] at hscalar'
            exact .inr (.inr (hscalar.symm.trans hscalar'))
  · exact (value_checkBox_lineEdit hbox hedit' hkey).imp id .inl
  · exact (value_checkBox_lineEdit hbox' hedit hkey.symm).elim (fun h => .inr (.inl h)) .inl
  · rcases value_plainLineEdit hloaded hshown hw hedit hoptions with ⟨text, htext, hform⟩ | hnone
    · rcases value_plainLineEdit hloaded hshown hw' hedit' hoptions' with
        ⟨text', htext', hform'⟩ | hnone'
      · rw [lineText_congr hkey, htext', Option.some.injEq] at htext
        exact .inr (.inr (value_lineEdit_congr hedit hedit' hkey
          (hform.trans (htext.symm.trans hform'.symm))))
      · exact .inr (.inl hnone')
    · exact .inl hnone

/-- **The widgets of a key agree.** -/
theorem agrees_of_family (hloaded : Loaded conf) (hshown : Shown cp conf before form)
    (hw : w ∈ uiMapping) (hw' : w' ∈ uiMapping) (hne : w.objectName ≠ w'.objectName)
    (hfamily : w.kv.key = w'.kv.key → w.family ≠ none ∧ w.family = w'.family) :
    Agrees (fun w => w.kv.key) (change cp form.finished) w w' := by
  intro hkey
  obtain ⟨hsome, hsame⟩ := hfamily hkey
  obtain ⟨hoptions, hflush, hcases⟩ := family_cases hsome
  obtain ⟨hoptions', hflush', hcases'⟩ := family_cases (hsame ▸ hsome)
  rcases hcases with ⟨group, enabled, hcls, hgroup⟩ | ⟨hplain, hcls⟩
  · rcases hcases' with ⟨group', enabled', hcls', hgroup'⟩ | ⟨hplain', -⟩
    · -- only one button of the group is checked
      obtain rfl : group = group' :=
        Option.some.inj (Option.some.inj (hgroup.symm.trans (hsame.trans hgroup')))
      refine agrees_of_value (by simp [hcls]) (by simp [hcls]) (by simp [hcls']) (by simp [hcls'])
        ?_ hkey
      by_cases hchecked : form.finished.button group = some w.objectName
      · refine .inr (.inl ?_)
        have hother : ¬ form.finished.button group = some w'.objectName := fun h =>
          hne (Option.some.inj (hchecked.symm.trans h))
        simp only [Widget.value, hcls', if_neg hother]
      · exact .inl (by simp only [Widget.value, hcls, if_neg hchecked])
    · exact absurd (hgroup.symm.trans (hsame.trans hplain')) (by simp)
  · rcases hcases' with ⟨group', enabled', -, hgroup'⟩ | ⟨-, hcls'⟩
    · exact absurd (hplain.symm.trans (hsame.trans hgroup')) (by simp)
    · have hvalue : w.value cp form.finished = none ∨ w'.value cp form.finished = none ∨
          w.value cp form.finished = w'.value cp form.finished :=
        value_plain hloaded hshown hw hw' hkey hcls hcls' hoptions hoptions' hflush hflush'
      rcases hcls with hcls | hcls <;> rcases hcls' with hcls' | hcls'
      all_goals
        exact agrees_of_value (by simp [hcls]) (by simp [hcls]) (by simp [hcls'])
          (by simp [hcls']) hvalue hkey

end Agreement

section Storing

theorem conf_ext_slot {conf conf' : Conf} (h : ∀ k, conf.slot k = conf'.slot k) : conf = conf' :=
  Conf.ext' (funext fun k => congrArg Slot.scalar (h k)) (funext fun k => congrArg Slot.list (h k))
    (funext fun k => congrArg Slot.dict (h k))

theorem change_lColour (cp : CodePage) (form : Form) (slot : Slot) :
    change cp form lColour slot = slot := rfl

variable {cp : CodePage} {conf : Conf} {before form : Form}

/-- **The loop of `getConfig`**, on settings that are those that were loaded, but for the
colours: the same is stored exactly if everything is kept and the colours are the same. -/
theorem getWidgets_spec (hloaded : Loaded conf) (hshown : Shown cp conf before form)
    {children : List Widget} (hperm : children.Perm uiMapping) {loaded : Conf}
    (hslot : ∀ k ≠ confColours, loaded.slot k = conf.slot k) :
    ∃ stored, children.foldlM (fun conf w => getW cp form.finished w conf) loaded = some stored ∧
      (stored = conf ↔ (∀ w ∈ uiMapping, Kept cp before conf w) ∧ loaded = conf) := by
  have hagree : children.Pairwise
      (Agrees (fun w : Widget => w.kv.key) (change cp form.finished)) := by
    have hboth : uiMapping.Pairwise (fun w w' => w.objectName ≠ w'.objectName ∧
        (w.kv.key = w'.kv.key → w.family ≠ none ∧ w.family = w'.family)) :=
      (List.pairwise_map.mp objectName_nodup).and uiMapping_shared
    have hchildren := (hperm.pairwise_iff fun {w w'} h =>
      ⟨h.1.symm, fun hkey => ⟨(h.2 hkey.symm).2 ▸ (h.2 hkey.symm).1, (h.2 hkey.symm).2.symm⟩⟩).mpr
        hboth
    refine hchildren.imp_of_mem fun {w w'} hw hw' h => ?_
    exact agrees_of_family hloaded hshown (hperm.subset hw) (hperm.subset hw') h.1 h.2
  obtain ⟨stored, hfold, hsame⟩ := foldlM_changes
    (fun w _ c => getW_changes cp form.finished w c) hagree loaded
  refine ⟨stored, hfold, ?_⟩
  -- the list of colours stores nothing
  have hcolours : stored.slot confColours = loaded.slot confColours := by
    refine (hsame confColours).mpr fun w hw hkey => ?_
    rw [uiMapping_colours w (hperm.subset hw) hkey]
    exact change_lColour cp form.finished _
  constructor
  · rintro rfl
    have hloaded' : loaded = stored := by
      refine conf_ext_slot fun k => ?_
      by_cases hk : k = confColours
      · rw [hk, hcolours]
      · exact hslot k hk
    refine ⟨fun w hw => (change_eq_iff hloaded hshown hw).mp ?_, hloaded'⟩
    rw [hloaded'] at hsame
    exact (hsame w.kv.key).mp rfl w (hperm.symm.subset hw) rfl
  · rintro ⟨hkept, rfl⟩
    refine conf_ext_slot fun k => (hsame k).mpr fun w hw hkey => ?_
    subst hkey
    exact (change_eq_iff hloaded hshown (hperm.subset hw)).mpr (hkept w (hperm.subset hw))

end Storing

end Dialog
end Qutty
