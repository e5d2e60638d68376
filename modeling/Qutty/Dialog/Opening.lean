import Qutty.Dialog.Kept

/-!
# Opening the settings dialog

`setConfig` followed by `getConfig` gives the session back exactly if every widget keeps
its settings, the colour that was selected in the dialog is the one of its line edits, and
no other stored session is selected on the way (`opensHarmlessly_iff`).

A session that is selected on the way is loaded a second time.  The form it is loaded into is
as good as the first one: no colour is selected any more, the combo boxes have their items,
and the groups of radio buttons without the value are as they were (`kept_of_shown`).
-/

namespace Qutty
namespace Dialog

open Config Lib Lib.ByteOrder Lib.PathTree

section Conditions

variable (cp : CodePage) (conf : Conf) (d : GuiSettingsWindow) (cfg : PuttyConfig)

/-- The colour that is selected is the one that is shown. -/
def ColourShown (form : Form) : Prop :=
  ∀ prev, form.colourRow = some prev → prev < 22 →
    conf.list confColours (prev * 3 + 0 : Nat) = some (form.colourPart "le_colour_r") ∧
      conf.list confColours (prev * 3 + 1 : Nat) = some (form.colourPart "le_colour_g") ∧
      conf.list confColours (prev * 3 + 2 : Nat) = some (form.colourPart "le_colour_b")

/-- The stored session that is loaded because its item is selected. -/
def GuiSettingsWindow.reselected : Option PuttyConfig :=
  if d.isChangeSettingsMode then none
  else
    match d.findItem (baseOf '/' cfg.name) with
    | none => none
    | some item =>
        if d.currentItem = some [item.2] then none
        else d.sessions.configList.find item.1.fullSessname

/-- The dialog shows what it is opened with: the selected session is this one, or the
colours are. -/
def GuiSettingsWindow.Selects : Prop :=
  match d.reselected cfg with
  | none => ColourShown conf d.form
  | some stored => stored.name = cfg.name

/-- **Opening the dialog is harmless**: without an edit it gives the session back. -/
def OpensHarmlessly : Prop :=
  ∃ d' d'', setConfig cp d cfg = some d' ∧ getConfig cp d' = some d'' ∧ d''.cfg = cfg

end Conditions

section Colours

variable {conf : Conf} {form : Form}

theorem setListItem_eq_self {k : ConfOption} {i : Int} {v : CInt} (h : conf.list k i = some v) :
    conf.setListItem k i v = conf := by
  refine Conf.ext' rfl (funext fun j => funext fun i' => ?_) rfl
  rw [Conf.list_setListItem]
  split_ifs with hj
  · rw [hj.1, hj.2, h]
  · rfl

/-- Storing a colour changes nothing exactly if it is there. -/
theorem setColour_eq_iff {index : Nat} {r g b : CInt} :
    setColour conf index r g b = some conf ↔
      conf.list confColours (index * 3 + 0 : Nat) = some r ∧
        conf.list confColours (index * 3 + 1 : Nat) = some g ∧
        conf.list confColours (index * 3 + 2 : Nat) = some b := by
  have htypes : confColours.subkey = .int ∧ confColours.value = .int := ⟨rfl, rfl⟩
  simp only [setColour, confSetIntInt, if_pos htypes, Option.bind_eq_bind, Option.bind_some,
    Option.some.injEq]
  constructor
  · intro h
    have hlist : ∀ i, conf.list confColours i = _ := fun i =>
      congrFun (congrFun (congrArg Conf.list h.symm) confColours) i
    simp only [Conf.list_setListItem, true_and] at hlist
    refine ⟨?_, ?_, ?_⟩
    · rw [hlist, if_neg (by omega), if_neg (by omega), if_pos rfl]
    · rw [hlist, if_neg (by omega), if_pos rfl]
    · rw [hlist, if_pos rfl]
  · rintro ⟨hr, hg, hb⟩
    rw [setListItem_eq_self hr, setListItem_eq_self hg, setListItem_eq_self hb]

theorem clearedConf_eq_iff : clearedConf conf form = some conf ↔ ColourShown conf form := by
  rw [clearedConf, ColourShown]
  cases form.colourRow with
  | none => simp
  | some prev =>
      simp only [Option.some.injEq, forall_eq', onColourCleared]
      split_ifs with hprev
      · rw [setColour_eq_iff]
        exact ⟨fun h _ => h, fun h => h hprev⟩
      · exact iff_of_true rfl fun h => absurd h hprev

end Colours

section Loading

variable {cp : CodePage} {conf : Conf} {d : GuiSettingsWindow} {cfg : PuttyConfig}

/-- **Loading a session** shows its settings. -/
theorem load_spec (cp : CodePage) (d : GuiSettingsWindow) (hptr : cfg.ptr = some conf)
    (hloaded : Loaded conf) :
    ∃ form c, d.load cp cfg = some { d with
        form := form
        cfg := ⟨cfg.name, some c⟩ } ∧
      Shown cp conf d.form form ∧ form.colourRow = none ∧ clearedConf conf d.form = some c ∧
      ∀ k ≠ confColours, c.slot k = conf.slot k := by
  obtain ⟨s, hfold, hloading, hloads⟩ :=
    loadWidgets_shows cp hloaded d.form d.children_perm d.port_behind
  obtain ⟨hrow, hcleared⟩ := (hloads lColour mem_uiMapping_lColour).colours rfl
  have hwordness : (List.range 256).all
      (fun ch : Nat => (s.2.list confWordness ch).isSome) = true := by
    have hsame : s.2.list confWordness = conf.list confWordness :=
      congrArg Slot.list (hloading.slot confWordness (by decide))
    refine List.all_eq_true.mpr fun ch hch => ?_
    rw [hsame]
    exact hloaded.wordness ch (List.mem_range.mp hch)
  refine ⟨s.1, s.2, ?_, ⟨hloading.items, hloading.button, fun w hw => (hloads w hw).shows⟩, hrow,
    hcleared, hloading.slot⟩
  simp only [GuiSettingsWindow.load, hptr, Option.bind_eq_bind, Option.bind_some, hfold,
    if_pos hwordness]

/-- The end of `setConfig`, on settings that have a font. -/
theorem finish_spec {c : Conf} (hptr : d.cfg.ptr = some c) (hloaded : Loaded conf)
    (hslot : ∀ k ≠ confColours, c.slot k = conf.slot k) :
    d.finish = some { d with form := d.form.finished } := by
  have hsome : (c.scalar confFont).isSome := by
    have hsame : c.scalar confFont = conf.scalar confFont :=
      congrArg Slot.scalar (hslot confFont (by decide))
    rw [hsame]
    exact hloaded.font
  obtain ⟨font, hfont⟩ : ∃ font, c.scalar confFont = some (.font font) := by
    obtain ⟨v, hv⟩ := Option.isSome_iff_exists.mp hsome
    have hfits := (c.scalar_fits confFont v hv).2
    cases v with
    | font font => exact ⟨font, hv⟩
    | _ => simp [Value.Fits, confFont] at hfits
  have hget : confGetFontspec c confFont = some font := by simp only [confGetFontspec, hfont]
  simp only [GuiSettingsWindow.finish, hptr, Option.bind_eq_bind, Option.bind_some, hget]
  rfl

theorem finished_finished (form : Form) : form.finished.finished = form.finished := by
  simp only [Form.finished, Form.setChecked, Function.update_idem]

/-- **Storing what is shown.** -/
theorem getConfig_spec {before form : Form} {name : Text} {c : Conf} (hloaded : Loaded conf)
    (hshown : Shown cp conf before form) (hform : d.form = form.finished)
    (hcfg : d.cfg = ⟨name, some c⟩) (hslot : ∀ k ≠ confColours, c.slot k = conf.slot k) :
    ∃ stored, getConfig cp d = some { d with cfg := ⟨name, some stored⟩ } ∧
      (stored = conf ↔ (∀ w ∈ uiMapping, Kept cp before conf w) ∧ c = conf) := by
  obtain ⟨stored, hfold, hsame⟩ := getWidgets_spec hloaded hshown d.children_perm hslot
  refine ⟨stored, ?_, hsame⟩
  simp only [getConfig, hcfg, hform, Option.bind_eq_bind, Option.bind_some, hfold]

/-- What is kept, for the form that the same settings have been loaded into. -/
theorem kept_of_shown {before form : Form} (hshown : Shown cp conf before form) (w : Widget) :
    Kept cp form conf w ↔ Kept cp before conf w := by
  cases hcls : w.cls with
  | radioButton group enabled =>
      simp only [Kept, hcls]
      constructor
      · intro h hchecked hnone
        exact h ((hshown.button group hnone).trans hchecked) hnone
      · intro h hchecked hnone
        exact h ((hshown.button group hnone).symm.trans hchecked) hnone
  | comboBox =>
      simp only [Kept, hcls, ComboBox.shown, ComboBox.indexOf, hshown.items]
  | _ => simp only [Kept, hcls]

end Loading

section Selecting

variable {cp : CodePage} {d d₁ : GuiSettingsWindow} {cfg : PuttyConfig}

/-- The name of the session that is loaded, to the end. -/
theorem load_name (h : d.load cp cfg = some d₁) : d₁.cfg.name = cfg.name := by
  simp only [GuiSettingsWindow.load, Option.bind_eq_bind, Option.bind_eq_some_iff] at h
  obtain ⟨conf, -, s, -, hlast⟩ := h
  split_ifs at hlast
  obtain rfl := Option.some.inj hlast
  rfl

theorem finish_name (h : d.finish = some d₁) : d₁.cfg.name = d.cfg.name := by
  simp only [GuiSettingsWindow.finish, Option.bind_eq_bind, Option.bind_eq_some_iff] at h
  obtain ⟨conf, -, font, -, hlast⟩ := h
  obtain rfl := Option.some.inj hlast
  rfl

theorem getConfig_name (h : getConfig cp d = some d₁) : d₁.cfg.name = d.cfg.name := by
  simp only [getConfig, Option.bind_eq_bind, Option.bind_eq_some_iff] at h
  obtain ⟨conf, -, stored, -, hlast⟩ := h
  obtain rfl := Option.some.inj hlast
  rfl

/-- Loading does not change what is selected. -/
theorem load_findItem (h : d.load cp cfg = some d₁) (text : Text) :
    d₁.findItem text = d.findItem text := by
  obtain ⟨hsessions, -, -, -⟩ := load_keeps h
  rw [GuiSettingsWindow.findItem, GuiSettingsWindow.findItem, hsessions]

/-- Without another session `setConfig` loads the one it is called with. -/
theorem setConfig_of_not_reselected (hnone : d.reselected cfg = none)
    (h : d.load cp cfg = some d₁) :
    ∃ d₂ : GuiSettingsWindow, setConfig cp d cfg = d₂.finish ∧ d₂.form = d₁.form ∧ d₂.cfg = d₁.cfg := by
  obtain ⟨hsessions, hcurrent, hmode, -⟩ := load_keeps h
  have hfind := load_findItem h (baseOf '/' cfg.name)
  rw [setConfig_eq, setConfigWith]
  simp only [h, Option.bind_eq_bind, Option.bind_some, hfind]
  rw [GuiSettingsWindow.reselected] at hnone
  cases hitem : d.findItem (baseOf '/' cfg.name) with
  | none => exact ⟨d₁, rfl, rfl, rfl⟩
  | some item =>
      simp only [hitem] at hnone
      simp only [GuiSettingsWindow.setCurrentItem, GuiSettingsWindow.onCurrentItemChanged, hcurrent,
        hmode, hsessions]
      split_ifs at hnone ⊢ with hchange hselected
      · exact ⟨_, rfl, rfl, rfl⟩
      · exact ⟨_, rfl, rfl, rfl⟩
      · exact ⟨_, rfl, rfl, rfl⟩
      · rw [hnone]
        exact ⟨_, rfl, rfl, rfl⟩

/-- With another session `setConfig` calls itself for the session that is stored. -/
theorem setConfig_of_reselected {stored : PuttyConfig} (hstored : d.reselected cfg = some stored)
    (h : d.load cp cfg = some d₁) :
    ∃ item, d.isChangeSettingsMode = false ∧ d.findItem (baseOf '/' cfg.name) = some item ∧
      d.sessions.configList.find item.1.fullSessname = some stored ∧
      setConfig cp d cfg = (stored.copy.bind
        (setConfig cp { d₁ with currentItem := some [item.2] })).bind GuiSettingsWindow.finish := by
  obtain ⟨hsessions, hcurrent, hmode, -⟩ := load_keeps h
  have hfind := load_findItem h (baseOf '/' cfg.name)
  rw [GuiSettingsWindow.reselected] at hstored
  split_ifs at hstored with hchange
  cases hitem : d.findItem (baseOf '/' cfg.name) with
  | none =>
      rw [hitem] at hstored
      exact absurd hstored (by simp)
  | some item =>
      simp only [hitem] at hstored
      split_ifs at hstored with hselected
      refine ⟨item, Bool.eq_false_iff.mpr hchange, rfl, hstored, ?_⟩
      rw [setConfig_eq, setConfigWith]
      simp only [h, Option.bind_eq_bind, Option.bind_some, hfind, hitem,
        GuiSettingsWindow.setCurrentItem, GuiSettingsWindow.onCurrentItemChanged, hcurrent, hmode,
        hsessions, if_neg hselected, if_neg hchange, hstored]

/-- The item of a session that is selected shows the last part of its name. -/
theorem base_of_stored {stored : PuttyConfig} {item : SessionItem × Nat}
    (hitem : d.findItem (baseOf '/' cfg.name) = some item)
    (hfound : d.sessions.configList.find item.1.fullSessname = some stored) :
    baseOf '/' stored.name = baseOf '/' cfg.name := by
  obtain ⟨hmem, htext⟩ := findItem_spec hitem
  have hslash : '/' ∉ item.1.text := htext ▸ baseOf_notMem '/' cfg.name
  have hshown := d.sessions.shown item.1 hmem hslash (by rw [hfound]; rfl)
  rw [d.sessions.named _ _ hfound, hshown, htext]

/-- In the call for it no other session is selected. -/
theorem not_reselected_again {stored : PuttyConfig} {item : SessionItem × Nat}
    (h : d.load cp cfg = some d₁) (hitem : d.findItem (baseOf '/' cfg.name) = some item)
    (hfound : d.sessions.configList.find item.1.fullSessname = some stored) :
    GuiSettingsWindow.reselected { d₁ with currentItem := some [item.2] } stored = none := by
  have hfind : d₁.findItem (baseOf '/' stored.name) = some item := by
    rw [load_findItem h, base_of_stored hitem hfound, hitem]
  have hfind' : GuiSettingsWindow.findItem { d₁ with currentItem := some [item.2] }
      (baseOf '/' stored.name) = some item := hfind
  rw [GuiSettingsWindow.reselected]
  simp only [hfind', if_true, ite_self]

/-- The session that is loaded keeps its name. -/
theorem setConfig_name (cfg : PuttyConfig) {d' : GuiSettingsWindow} (hnone : d.reselected cfg = none)
    (h : setConfig cp d cfg = some d') : d'.cfg.name = cfg.name := by
  cases hload : d.load cp cfg with
  | none =>
      rw [setConfig_eq, setConfigWith] at h
      simp only [hload, Option.bind_eq_bind, Option.bind_none] at h
      exact absurd h (by simp)
  | some d₁ =>
      obtain ⟨d₂, hset, -, hcfg⟩ := setConfig_of_not_reselected hnone hload
      rw [hset] at h
      rw [finish_name h, hcfg]
      exact load_name hload

end Selecting

section Opening

variable {cp : CodePage} {conf : Conf} {d : GuiSettingsWindow} {cfg : PuttyConfig}

/-- The settings that are opened where no other session is selected. -/
theorem setConfig_spec (cp : CodePage) (d : GuiSettingsWindow) (hptr : cfg.ptr = some conf)
    (hloaded : Loaded conf) (hnone : d.reselected cfg = none) :
    ∃ d' form c, setConfig cp d cfg = some d' ∧ Shown cp conf d.form form ∧
      d'.form = form.finished ∧ d'.cfg = ⟨cfg.name, some c⟩ ∧ clearedConf conf d.form = some c ∧
      ∀ k ≠ confColours, c.slot k = conf.slot k := by
  obtain ⟨form, c, hload, hshown, -, hcleared, hslot⟩ := load_spec cp d hptr hloaded
  obtain ⟨d₂, hset, hform, hcfg⟩ := setConfig_of_not_reselected hnone hload
  have hfinish := finish_spec (congrArg PuttyConfig.ptr hcfg) hloaded hslot
  exact ⟨_, form, c, hset.trans hfinish, hshown, congrArg Form.finished hform, hcfg, hcleared,
    hslot⟩

/-- Opening the dialog where no other session is selected. -/
theorem opens_of_not_reselected (cp : CodePage) (hptr : cfg.ptr = some conf) (hloaded : Loaded conf)
    (hnone : d.reselected cfg = none) :
    OpensHarmlessly cp d cfg ↔
      (∀ w ∈ uiMapping, Kept cp d.form conf w) ∧ ColourShown conf d.form := by
  obtain ⟨d', form, c, hset, hshown, hform, hcfg, hcleared, hslot⟩ :=
    setConfig_spec cp d hptr hloaded hnone
  obtain ⟨stored, hget, hsame⟩ := getConfig_spec hloaded hshown hform hcfg hslot
  have hcolour : c = conf ↔ ColourShown conf d.form := by
    rw [← clearedConf_eq_iff, hcleared, Option.some.injEq]
  rw [← hcolour, ← hsame]
  have heq : cfg = ⟨cfg.name, some conf⟩ := by
    cases cfg
    exact congrArg _ hptr
  constructor
  · rintro ⟨d₁, d₂, hset', hget', hd₂⟩
    obtain rfl := Option.some.inj (hset.symm.trans hset')
    obtain rfl := Option.some.inj (hget.symm.trans hget')
    exact Option.some.inj (congrArg PuttyConfig.ptr (hd₂.trans heq))
  · rintro rfl
    exact ⟨d', _, hset, hget, heq.symm⟩

/-- Opening the dialog where the session itself is selected. -/
theorem opens_of_reselected (hptr : cfg.ptr = some conf) (hloaded : Loaded conf)
    (hself : d.reselected cfg = some cfg) :
    OpensHarmlessly cp d cfg ↔ ∀ w ∈ uiMapping, Kept cp d.form conf w := by
  obtain ⟨form, c, hload, hshown, hrow, -, -⟩ := load_spec cp d hptr hloaded
  obtain ⟨item, -, hitem, hfound, hset⟩ := setConfig_of_reselected hself hload
  have hagain := not_reselected_again hload hitem hfound
  have hcopy : cfg.copy = some cfg := by
    obtain ⟨name, ptr⟩ := cfg
    obtain rfl : ptr = some conf := hptr
    rfl
  rw [hcopy, Option.bind_some] at hset
  -- the form of the second call has no selected colour
  have hcolour : ColourShown conf form := by
    intro prev hprev
    rw [hrow] at hprev
    exact absurd hprev (by simp)
  have hkept : (∀ w ∈ uiMapping, Kept cp form conf w) ↔ ∀ w ∈ uiMapping, Kept cp d.form conf w :=
    forall₂_congr fun w _ => kept_of_shown hshown w
  have hsecond := opens_of_not_reselected cp hptr hloaded hagain
  rw [← hkept, ← and_iff_left hcolour (a := ∀ w ∈ uiMapping, Kept cp form conf w)]
  refine Iff.trans ?_ hsecond
  obtain ⟨d', form', c', hset', -, hform', hcfg', -, hslot'⟩ :=
    setConfig_spec cp _ hptr hloaded hagain
  have hfinish := finish_spec (congrArg PuttyConfig.ptr hcfg') hloaded hslot'
  have hsame : ({ d' with form := d'.form.finished } : GuiSettingsWindow) = d' := by
    rw [hform', finished_finished, ← hform']
  rw [hset', Option.bind_some, hfinish, hsame, ← hset'] at hset
  simp only [OpensHarmlessly, hset]

/-- Opening the dialog where a session of another name is selected. -/
theorem not_opens_of_reselected {stored : PuttyConfig} (hptr : cfg.ptr = some conf)
    (hloaded : Loaded conf) (hstored : d.reselected cfg = some stored)
    (hname : stored.name ≠ cfg.name) : ¬ OpensHarmlessly cp d cfg := by
  obtain ⟨form, c, hload, -, -, -, -⟩ := load_spec cp d hptr hloaded
  obtain ⟨item, -, hitem, hfound, hset⟩ := setConfig_of_reselected hstored hload
  rintro ⟨d', d'', hset', hget, hcfg⟩
  rw [hset] at hset'
  simp only [Option.bind_eq_some_iff] at hset'
  obtain ⟨d₂, ⟨copied, hcopy, hcall⟩, hfinish⟩ := hset'
  obtain ⟨conf', -, rfl⟩ := Option.map_eq_some_iff.mp hcopy
  -- what is selected depends on the name only
  have hagain := not_reselected_again hload hitem hfound
  have hlast := setConfig_name ⟨stored.name, some conf'⟩ hagain hcall
  refine hname ?_
  rw [← hcfg, getConfig_name hget, finish_name hfinish, hlast]

/-- **Opening the settings dialog is harmless** exactly if every widget keeps its settings and
the dialog shows what it is opened with.  Unless the settings of a terminal are changed, the
session is one that is stored. -/
theorem opensHarmlessly_iff (cp : CodePage) (d : GuiSettingsWindow) (cfg : PuttyConfig)
    (conf : Conf) (hptr : cfg.ptr = some conf) (hloaded : Loaded conf)
    (hstored : d.isChangeSettingsMode = false →
      d.sessions.configList.find cfg.name = some cfg) :
    OpensHarmlessly cp d cfg ↔
      (∀ w ∈ uiMapping, Kept cp d.form conf w) ∧ d.Selects conf cfg := by
  rw [GuiSettingsWindow.Selects]
  cases hselected : d.reselected cfg with
  | none => exact opens_of_not_reselected cp hptr hloaded hselected
  | some stored =>
      by_cases hname : stored.name = cfg.name
      · -- the session of the name is the one that is stored
        have hself : stored = cfg := by
          obtain ⟨form, c, hload, -, -, -, -⟩ := load_spec cp d hptr hloaded
          obtain ⟨item, hmode, -, hfound, -⟩ := setConfig_of_reselected hselected hload
          have hfull := d.sessions.named _ _ hfound
          rw [← hfull, hname, hstored hmode] at hfound
          exact (Option.some.inj hfound).symm
        rw [hself] at hselected
        rw [opens_of_reselected hptr hloaded hselected]
        exact ⟨fun h => ⟨h, hname⟩, fun h => h.1⟩
      · exact iff_of_false (not_opens_of_reselected hptr hloaded hselected hname) fun h =>
          hname h.2

end Opening

section Samples

theorem length_cstr_nil : (cstr []).val.length < 64 := by decide

/-- A value of every type. -/
def sampleValue : ValueType → Value
  | .bool => .bool true
  | .int => .int (toCInt 0)
  | .str => .string (cstr []) false
  | .utf8 => .string (cstr []) true
  | .strAmbi => .string (cstr []) true
  | .filename => .filename []
  | .font => .font ⟨cstr [], false, toCInt 0, toCInt 0, length_cstr_nil⟩

theorem sampleValue_fits (t : ValueType) : (sampleValue t).Fits t := by
  cases t with
  | str => exact .inr (.inl ⟨rfl, rfl⟩)
  | utf8 => exact .inr (.inr ⟨rfl, rfl⟩)
  | strAmbi => exact .inl rfl
  | _ => rfl

/-- Settings with a value for every option. -/
def sampleConf : Conf where
  scalar k := if k.subkey = .none then some (sampleValue k.value) else none
  list _ _ := some (toCInt 0)
  dict _ := OrderedMap.empty
  scalar_fits k v h := by
    split_ifs at h with hk
    exact ⟨hk, Option.some.inj h ▸ sampleValue_fits k.value⟩

/-- The same settings, but the log is not flushed. -/
def unflushedConf : Conf := sampleConf.set (boolKey "logflush") (.bool false) ⟨rfl, rfl⟩

/-- A form with nothing in it. -/
def emptyForm : Form where
  checked _ := false
  button _ := none
  text _ := []
  combo _ := ⟨[], -1⟩
  list _ := []
  table _ := []
  colourRow := none

/-- Behind the port none of the radio buttons of the protocol comes. -/
def portBehind : List Widget → Bool
  | [] => true
  | w :: ws =>
      (decide (w.objectName ≠ "le_port") || ws.all (fun w' =>
        decide (w'.objectName ≠ "rb_contype_telnet" ∧ w'.objectName ≠ "rb_contype_ssh"))) &&
        portBehind ws

theorem pairwise_of_portBehind {ws : List Widget} (h : portBehind ws = true) :
    ws.Pairwise (fun w w' => w.objectName = "le_port" →
      w'.objectName ≠ "rb_contype_telnet" ∧ w'.objectName ≠ "rb_contype_ssh") := by
  induction ws with
  | nil => exact .nil
  | cons w ws ih =>
      rw [portBehind, Bool.and_eq_true, Bool.or_eq_true] at h
      refine .cons (fun w' hw' hport => ?_) (ih h.2)
      rcases h.1 with hne | hall
      · exact absurd hport (of_decide_eq_true hne)
      · exact of_decide_eq_true (List.all_eq_true.mp hall w' hw')

theorem uiMapping_portBehind : portBehind uiMapping = true := by decide +kernel

/-- A window for the settings of a terminal, without stored sessions. -/
def sampleWindow : GuiSettingsWindow where
  form := emptyForm
  cfg := PuttyConfig.default
  isChangeSettingsMode := true
  sessions := ⟨⟨OrderedMap.empty, []⟩, fun _ _ h => absurd h (by simp), fun _ h =>
    absurd h List.not_mem_nil⟩
  currentItem := none
  children := uiMapping
  children_perm := .refl _
  port_behind := pairwise_of_portBehind uiMapping_portBehind

/-- Latin-1 as the code page. -/
def latin1Page : CodePage := ⟨asciiText, toLatin1⟩

theorem sampleConf_loaded : Loaded sampleConf where
  scalars w _ hsubkey _ := by simp only [sampleConf, if_pos hsubkey, Option.isSome_some]
  items _ _ _ _ _ _ _ := rfl
  wordness _ _ := rfl
  font := rfl

theorem sampleConf_scalar {key : ConfOption} (h : key.subkey = .none) :
    sampleConf.scalar key = some (sampleValue key.value) := by
  simp only [sampleConf, if_pos h]

/-- A list with one number only. -/
theorem keptOrder_replicate (items : List DataItem) (n : Nat) (value : CInt) :
    KeptOrder items (List.replicate n value) := by
  rw [KeptOrder, List.filter_replicate]
  split_ifs with hknown
  · cases n with
    | zero => exact List.nil_prefix
    | succ n =>
        have hrest : (List.replicate n value).filter (fun b => !b == value) = [] := by
          simp
        rw [List.replicate_succ, List.eraseDups_cons, hrest]
        exact ⟨List.replicate n value, rfl⟩
  · exact List.nil_prefix

/-- The sample is kept. -/
theorem sampleConf_kept (w : Widget) : Kept latin1Page emptyForm sampleConf w := by
  cases hcls : w.cls with
  | checkBox =>
      simp only [Kept, hcls]
      intro htype
      obtain ⟨hsubkey, hvalue⟩ : w.kv.key.subkey = .none ∧ w.kv.key.value = .bool :=
        types_of_type htype rfl
      rw [sampleConf_scalar hsubkey, hvalue]
      split_ifs <;> rfl
  | radioButton group enabled =>
      simp only [Kept, hcls]
      exact fun hchecked => absurd hchecked (by simp [emptyForm])
  | lineEdit =>
      simp only [Kept, hcls]
      refine ⟨fun hstring s utf8 hs => ?_, fun htype => ?_⟩
      · rcases isString_cases hstring with htype | htype | htype
        all_goals
          have htype' : w.kv.type = _ := htype
          obtain ⟨hsubkey, hvalue⟩ := types_of_type htype rfl
          rw [sampleConf_scalar hsubkey, hvalue, Option.some.injEq] at hs
          obtain ⟨rfl, rfl⟩ := Value.string.inj hs
          simp only [htype', reduceCtorEq, if_true, if_false]
          first | rfl | exact ⟨trivial, rfl⟩
      · obtain ⟨hsubkey, -⟩ := types_of_type (v := .filename) htype rfl
        rw [sampleConf_scalar hsubkey]
        rfl
  | comboBox =>
      simp only [Kept, hcls]
      intro hstring _ text _
      have hshown : (emptyForm.combo w.objectName).shown text = [] := rfl
      rw [hshown]
      rcases isString_cases hstring with htype | htype | htype
      all_goals
        have htype' : w.kv.type = _ := htype
        obtain ⟨hsubkey, hvalue⟩ := types_of_type htype rfl
        rw [sampleConf_scalar hsubkey, hvalue, textValue, htype']
        rfl
  | listWidget =>
      simp only [Kept, hcls]
      intro _ _ items values _ hvalues
      obtain ⟨hlength, hget⟩ := getElem_of_mapM hvalues
      have hzero : ∀ v ∈ values, v = toCInt 0 := by
        intro v hv
        obtain ⟨i, hi, rfl⟩ := List.getElem_of_mem hv
        have hrange : (List.range items.length)[i]? = some i :=
          List.getElem?_range (by rwa [← hlength, List.length_range] at hi)
        have hvalue := hget i i hrange
        rw [List.getElem?_eq_getElem hi] at hvalue
        exact (Option.some.inj hvalue).symm
      rw [List.eq_replicate_iff.mpr ⟨rfl, hzero⟩]
      exact keptOrder_replicate ..
  | tableWidget =>
      simp only [Kept, hcls]
      intro _ _ _ k
      refine ⟨fun _ => rfl, fun v _ hv => ?_⟩
      have hrows : tableRows latin1Page sampleConf w.kv = [] := by
        have hempty : (sampleConf.dict w.kv.key).entries = [] := rfl
        rw [tableRows, hempty]
        split_ifs <;> rfl
      rw [hrows] at hv
      exact absurd hv (by simp [rowValue, lastWrite])

/-- Opening a window for the settings of a terminal. -/
theorem opensHarmlessly_sample :
    OpensHarmlessly latin1Page sampleWindow ⟨[], some sampleConf⟩ :=
  (opensHarmlessly_iff latin1Page sampleWindow ⟨[], some sampleConf⟩ sampleConf rfl
    sampleConf_loaded (fun h => absurd h (by decide))).mpr
      ⟨fun w _ => sampleConf_kept w, fun _ h => absurd h (by simp [sampleWindow, emptyForm])⟩

theorem unflushedConf_loaded : Loaded unflushedConf where
  scalars w _ hsubkey _ := by
    rw [unflushedConf, Conf.scalar_set]
    split_ifs
    · rfl
    · rw [sampleConf_scalar hsubkey]
      rfl
  items _ _ _ _ _ _ _ := rfl
  wordness _ _ := rfl
  font := rfl

/-- **The log is flushed** after the dialog has been open. -/
theorem not_opensHarmlessly_unflushed :
    Loaded unflushedConf ∧
      ¬ OpensHarmlessly latin1Page sampleWindow ⟨[], some unflushedConf⟩ := by
  refine ⟨unflushedConf_loaded, fun hopens => ?_⟩
  have hmem : checkBox "chb_sessionlog_flush" (boolKey "logflush") ∈ uiMapping := by decide +kernel
  obtain ⟨hall, -⟩ :=
    (opens_of_not_reselected latin1Page rfl unflushedConf_loaded rfl).mp
      hopens
  have hkept : unflushedConf.scalar (boolKey "logflush") = some (.bool true) := hall _ hmem rfl
  exact absurd hkept (by decide)

end Samples

end Dialog
end Qutty
