import Qutty.Config.RereadingSessions

/-!
# The configuration that is written and read

`writeToXML` and then `readFromXML` into an empty configuration give `rereadConfig` of
the configuration (`readFromXML_writeToXML`): sessions option by option, actions and host
keys one by one.  The actions and plain host keys are the same again (`addActions_reread`,
`rereadHostKeys_eq`).
-/

namespace Qutty
namespace Config

open Lib Lib.ByteOrder Lib.PullParser Menu

section Specification

variable {K : Type} (plat : Platform K)

/-- A session of the list that is written and read. -/
def rereadSession (name : Text) (e : PuttyConfig) : PuttyConfig :=
  ⟨name, e.ptr.bind (rereadConf plat)⟩

/-- An action that is written and read. -/
def rereadAction (mac : QtMenuActionConfig K) : QtMenuActionConfig K :=
  menuActionOf plat (writeMENUACTION plat mac).tag

/-- Host keys that are written and read. -/
def rereadHostKeys (keys : SshHostKeys) : SshHostKeys :=
  keys.entries.foldl (fun result e =>
    result.insert (recode (fromUtf8 (cstr e.1).val)).val (recode (fromUtf8 e.2.val)))
    OrderedMap.empty

/-- A configuration that is written and read. -/
def rereadConfig (cfg : QtConfig K) : QtConfig K where
  configList := cfg.configList.mapValues (rereadSession plat)
  sshHostKeys := rereadHostKeys cfg.sshHostKeys
  menuActionList :=
    addActions OrderedMap.empty (cfg.menuActionList.entries.map (fun e => rereadAction plat e.2))

end Specification

section Dispatch

variable {K : Type} {plat : Platform K} {cfg : QtConfig K} {e : Element Tag}

theorem applyHostKeys_dict (h : e.tag.name = nameDict) :
    applyHostKeys cfg e = (e.children.foldlM applyHostKey OrderedMap.empty).map
      (fun keys => { cfg with sshHostKeys := keys }) := if_pos h

theorem applyShortcuts_dict (h : e.tag.name = nameDict) :
    applyShortcuts plat cfg e = (e.children.foldlM (applyMenuAction plat) []).map
      (fun actions => { cfg with menuActionList := addActions cfg.menuActionList actions }) :=
  if_pos h

variable (hversion : e.tag.value attrVersion = version20)

include hversion

theorem applySection_config (h : e.tag.name = nameConfig) :
    applySection plat cfg e = (e.children.foldlM applySetting plat.openSettings).map
      (fun conf => { cfg with
        configList := cfg.configList.insert (e.tag.value attrName)
          ⟨e.tag.value attrName, some conf⟩ }) := if_pos ⟨h, hversion⟩

theorem applySection_sshhostkeys (h : e.tag.name = nameSshhostkeys) :
    applySection plat cfg e = e.children.foldlM applyHostKeys cfg := by
  rw [applySection, if_neg (by rw [h]; exact fun hc => absurd hc.1 (by decide)),
    if_pos ⟨h, hversion⟩]

theorem applySection_keyboardshortcuts (h : e.tag.name = nameKeyboardshortcuts) :
    applySection plat cfg e = e.children.foldlM (applyShortcuts plat) cfg := by
  rw [applySection, if_neg (by rw [h]; exact fun hc => absurd hc.1 (by decide)),
    if_neg (by rw [h]; exact fun hc => absurd hc.1 (by decide)), if_pos ⟨h, hversion⟩]

end Dispatch

section Documents

variable {K : Type} {plat : Platform K}

/-- The actions of the menus are written if they stand under their ids. -/
theorem writeShortcuts_isSome_iff {list : MenuActionList K} :
    (∃ es, writeShortcuts plat list = some es) ↔ ∀ e ∈ list.entries, e.1 = e.2.id := by
  rw [writeShortcuts]
  split_ifs with hempty hids
  · simp [hempty]
  · simpa using hids
  · simpa using hids

/-- The actions of the menus are read. -/
theorem applySection_writeShortcuts {list : MenuActionList K} {shortcuts : List (Element Tag)}
    (h : writeShortcuts plat list = some shortcuts) (cfg : QtConfig K) :
    shortcuts.foldlM (applySection plat) cfg = some { cfg with
      menuActionList :=
        addActions cfg.menuActionList (list.entries.map (fun e => rereadAction plat e.2)) } := by
  have hactions : ∀ (es : List (Nat × QtMenuActionConfig K)) (done : List (QtMenuActionConfig K)),
      (es.map (fun e => writeMENUACTION plat e.2)).foldlM (applyMenuAction plat) done =
        some (done ++ es.map (fun e => rereadAction plat e.2)) := by
    intro es
    induction es with
    | nil => intro done; simp
    | cons e es ih =>
        intro done
        have hfirst : applyMenuAction plat done (writeMENUACTION plat e.2) =
            some (done ++ [rereadAction plat e.2]) := if_pos ⟨rfl, rfl, rfl⟩
        rw [List.map_cons, List.foldlM_cons, hfirst]
        rw [Option.bind_eq_bind, Option.bind_some, ih, List.append_assoc]
        rfl
  rw [writeShortcuts] at h
  split_ifs at h with hempty
  · obtain rfl := Option.some.inj h
    rw [hempty]
    rfl
  · obtain rfl := Option.some.inj h
    have hdict : applyShortcuts plat cfg
        (.mk ⟨nameDict, []⟩ (list.entries.map (fun e => writeMENUACTION plat e.2))) =
        some { cfg with
          menuActionList :=
            addActions cfg.menuActionList (list.entries.map (fun e => rereadAction plat e.2)) } := by
      rw [applyShortcuts_dict rfl, Element.children, hactions]
      rfl
    rw [List.foldlM_cons, applySection_keyboardshortcuts rfl rfl, Element.children,
      List.foldlM_cons, hdict]
    rfl

/-- A session is read. -/
theorem applySection_writeConfig {e : Text × PuttyConfig} {element : Element Tag}
    (h : writeConfig plat e = some element) (cfg : QtConfig K) :
    applySection plat cfg element =
      some { cfg with configList := cfg.configList.insert e.1 (rereadSession plat e.1 e.2) } := by
  rw [writeConfig, Option.bind_eq_bind, Option.bind_eq_some_iff] at h
  obtain ⟨conf, hptr, h⟩ := h
  obtain ⟨settings, hwrite, hsettings⟩ := Option.bind_eq_some_iff.mp h
  obtain rfl := Option.some.inj hsettings
  obtain ⟨conf', hconf', -⟩ := rereadConf_of_written hwrite
  have hread : settings.foldlM applySetting plat.openSettings = some conf' := by
    rw [rereadConf, hwrite] at hconf'
    exact hconf'
  rw [applySection_config rfl rfl, Element.children, hread, rereadSession, hptr, Option.bind_some,
    hconf']
  rfl

/-- The sessions are read. -/
theorem applySection_writeConfigs {es : List (Text × PuttyConfig)} {elements : List (Element Tag)}
    (h : es.mapM (writeConfig plat) = some elements) (cfg : QtConfig K) :
    elements.foldlM (applySection plat) cfg = some { cfg with
      configList := es.foldl (fun list e => list.insert e.1 (rereadSession plat e.1 e.2))
        cfg.configList } := by
  induction es generalizing cfg elements with
  | nil =>
      obtain rfl := Option.some.inj h
      rfl
  | cons e es ih =>
      rw [List.mapM_cons, Option.bind_eq_bind, Option.bind_eq_some_iff] at h
      obtain ⟨element, hfirst, h⟩ := h
      obtain ⟨rest, hrest, helements⟩ := Option.bind_eq_some_iff.mp h
      obtain rfl := Option.some.inj helements
      rw [List.foldlM_cons, applySection_writeConfig hfirst]
      exact ih hrest _

/-- The host keys are read. -/
theorem applySection_writeHostKeys (keys : SshHostKeys) (cfg : QtConfig K) :
    applySection plat cfg (writeHostKeys keys) =
      some { cfg with sshHostKeys := rereadHostKeys keys } := by
  have hkeys : ∀ (es : List (List UInt8 × CStr)) (done : SshHostKeys),
      (es.map (fun e => writeEntry ((cstr e.1).val, e.2))).foldlM applyHostKey done =
        some (es.foldl (fun result e =>
          result.insert (recode (fromUtf8 (cstr e.1).val)).val (recode (fromUtf8 e.2.val)))
          done) := by
    intro es
    induction es with
    | nil => intro done; rfl
    | cons e es ih =>
        intro done
        have hfirst : applyHostKey done (writeEntry ((cstr e.1).val, e.2)) = some
            (done.insert (recode (fromUtf8 (cstr e.1).val)).val (recode (fromUtf8 e.2.val))) :=
          if_pos rfl
        rw [List.map_cons, List.foldlM_cons, hfirst]
        exact ih _
  have hdict : applyHostKeys cfg (.mk ⟨nameDict, []⟩
      (keys.entries.map (fun e => writeEntry ((cstr e.1).val, e.2)))) =
        some { cfg with sshHostKeys := rereadHostKeys keys } := by
    rw [applyHostKeys_dict rfl, Element.children, hkeys]
    rfl
  rw [writeHostKeys, applySection_sshhostkeys rfl rfl, Element.children, List.foldlM_cons, hdict]
  rfl

/-- **What is written is read, as `rereadConfig`.** -/
theorem readFromXML_writeToXML {cfg : QtConfig K} {doc : Element Tag}
    (h : writeToXML plat cfg = some doc) :
    readFromXML plat (QtConfig.empty K) doc.events = some (0, rereadConfig plat cfg) := by
  rw [writeToXML, Option.bind_eq_bind, Option.bind_eq_some_iff] at h
  obtain ⟨shortcuts, hshortcuts, h⟩ := h
  obtain ⟨configs, hconfigs, hdoc⟩ := Option.bind_eq_some_iff.mp h
  obtain rfl := Option.some.inj hdoc
  have hcontent := content_eventsOf (shortcuts ++ (configs ++ [writeHostKeys cfg.sshHostKeys]))
    (Content.stop [])
  have hsections : (shortcuts ++ (configs ++ [writeHostKeys cfg.sshHostKeys])).foldlM
      (applySection plat) (QtConfig.empty K) = some (rereadConfig plat cfg) := by
    rw [List.foldlM_append, applySection_writeShortcuts hshortcuts, Option.bind_eq_bind,
      Option.bind_some, List.foldlM_append, applySection_writeConfigs hconfigs,
      Option.bind_eq_bind, Option.bind_some, List.foldlM_cons, applySection_writeHostKeys,
      rereadConfig, ← OrderedMap.foldl_insert]
    rfl
  rw [List.append_nil] at hcontent
  rw [Element.events, readFromXML_eq plat _ ⟨rfl, rfl⟩ hcontent, hsections]
  rfl

/-- What is written of a session of the configuration. -/
theorem settings_of_writeToXML {cfg : QtConfig K} {doc : Element Tag}
    (h : writeToXML plat cfg = some doc) {e : Text × PuttyConfig}
    (he : e ∈ cfg.configList.entries) {conf : Conf} (hptr : e.2.ptr = some conf) :
    ∃ settings, writeOptions plat conf confOptions = some settings := by
  rw [writeToXML, Option.bind_eq_bind, Option.bind_eq_some_iff] at h
  obtain ⟨_, _, h⟩ := h
  obtain ⟨configs, hconfigs, -⟩ := Option.bind_eq_some_iff.mp h
  have hconfig : ∀ (es : List (Text × PuttyConfig)) (elements : List (Element Tag)),
      es.mapM (writeConfig plat) = some elements → e ∈ es → (writeConfig plat e).isSome := by
    intro es
    induction es with
    | nil => intro _ _ hmem; exact absurd hmem (List.not_mem_nil)
    | cons d es ih =>
        intro elements hmap hmem
        rw [List.mapM_cons, Option.bind_eq_bind, Option.bind_eq_some_iff] at hmap
        obtain ⟨first, hfirst, hmap⟩ := hmap
        obtain ⟨rest, hrest, -⟩ := Option.bind_eq_some_iff.mp hmap
        rcases List.mem_cons.mp hmem with rfl | hmem
        · rw [hfirst]
          rfl
        · exact ih rest hrest hmem
  obtain ⟨element, helement⟩ := Option.isSome_iff_exists.mp (hconfig _ _ hconfigs he)
  rw [writeConfig, hptr, Option.bind_eq_bind, Option.bind_some] at helement
  obtain ⟨settings, hsettings, -⟩ := Option.bind_eq_some_iff.mp helement
  exact ⟨settings, hsettings⟩

/-- Sessions that can be written, and actions under their ids, can be written together. -/
theorem writeToXML_of_parts {cfg : QtConfig K}
    (hsessions : ∀ e ∈ cfg.configList.entries, ∃ conf settings,
      e.2.ptr = some conf ∧ writeOptions plat conf confOptions = some settings)
    (hactions : ∀ e ∈ cfg.menuActionList.entries, e.1 = e.2.id) :
    ∃ doc, writeToXML plat cfg = some doc := by
  have hconfigs : ∀ es : List (Text × PuttyConfig), (∀ e ∈ es, e ∈ cfg.configList.entries) →
      ∃ configs, es.mapM (writeConfig plat) = some configs := by
    intro es
    induction es with
    | nil => exact fun _ => ⟨[], rfl⟩
    | cons e es ih =>
        intro hmem
        obtain ⟨conf, settings, hptr, hwrite⟩ := hsessions e (hmem e (by simp))
        obtain ⟨configs, hconfigs⟩ := ih (fun d hd => hmem d (by simp [hd]))
        have hconfig : writeConfig plat e = some
            (.mk ⟨nameConfig, [(attrVersion, version20), (attrName, e.1)]⟩ settings) := by
          rw [writeConfig, hptr, Option.bind_eq_bind, Option.bind_some, hwrite]
          rfl
        exact ⟨_, by rw [List.mapM_cons, hconfig, hconfigs]; rfl⟩
  obtain ⟨shortcuts, hshortcuts⟩ := writeShortcuts_isSome_iff.mpr hactions
  obtain ⟨configs, hconfigs⟩ := hconfigs _ (fun _ he => he)
  exact ⟨_, by rw [writeToXML, hshortcuts, hconfigs]; rfl⟩

end Documents

section Actions

variable {K : Type} {plat : Platform K}

variable (plat) in
/-- The attributes of an action; three of them may be left out. -/
theorem attributes_writeMENUACTION (mac : QtMenuActionConfig K) :
    (writeMENUACTION plat mac).tag.value attrKey = numberText mac.id ∧
      (writeMENUACTION plat mac).tag.value attrKeysequence = plat.keys.toString mac.shortcut ∧
      (writeMENUACTION plat mac).tag.value attrName = mac.name ∧
      (writeMENUACTION plat mac).tag.value attrStrData = mac.strData ∧
      (writeMENUACTION plat mac).tag.hasAttribute attrIntData = decide (mac.intData ≠ 0) ∧
      (mac.intData ≠ 0 →
        (writeMENUACTION plat mac).tag.value attrIntData = numberText mac.intData) := by
  have hnodup : [attrKey, attrKeysequence, attrName, attrStrData, attrIntData].Nodup := by decide
  simp only [List.nodup_cons, List.mem_cons, List.not_mem_nil, or_false, not_or,
    List.nodup_nil, and_true] at hnodup
  obtain ⟨⟨h₁, h₂, h₃, h₄⟩, ⟨h₅, h₆, h₇⟩, ⟨h₈, h₉⟩, h₁₀, -⟩ := hnodup
  by_cases hname : mac.name = [] <;> by_cases hstr : mac.strData = [] <;>
    by_cases hint : mac.intData = 0 <;>
    simp [writeMENUACTION, Element.tag, Tag.value, Tag.hasAttribute, hname, hstr, hint, h₁, h₂,
      h₃, h₄, h₅, h₆, h₇, h₈, h₉, h₁₀, Ne.symm h₈, Ne.symm h₉, Ne.symm h₁₀]

theorem toUint32_natCast {n : Nat} (h : n < 2 ^ 31) : toUint32 (n : Int) = n := by
  rw [toUint32]
  omega

/-- **An action comes back**, with numbers that are not negative as `int`. -/
theorem rereadAction_eq {mac : QtMenuActionConfig K}
    (hkeys : plat.keys.ofString (plat.keys.toString mac.shortcut) = mac.shortcut)
    (hid : mac.id < 2 ^ 31) (hint : mac.intData < 2 ^ 31) : rereadAction plat mac = mac := by
  obtain ⟨hkey, hsequence, hname, hstr, hhas, hdata⟩ := attributes_writeMENUACTION plat mac
  have hid' : ((toInt 10 (Read.of (writeMENUACTION plat mac).tag).keyName).map Subtype.val).getD 0 =
      (mac.id : Int) := by
    have hread := toInt_numberText ⟨(mac.id : Int), by omega⟩
    simp only [Read.of, hkey, hread, Option.map_some, Option.getD_some]
  have hint' : (if (writeMENUACTION plat mac).tag.hasAttribute attrIntData then
      toUint32 (viewToInt ((writeMENUACTION plat mac).tag.value attrIntData)).val else 0) =
        mac.intData := by
    rw [hhas]
    by_cases hzero : mac.intData = 0
    · rw [if_neg (by simpa using hzero), hzero]
    · have hread := viewToInt_numberText ⟨(mac.intData : Int), by omega⟩
      rw [if_pos (by simpa using hzero), hdata hzero, hread]
      exact toUint32_natCast hint
  rw [rereadAction, menuActionOf, hid', hint', hsequence, hname, hstr, hkeys, fromUtf8_toUtf8,
    fromUtf8_toUtf8, toUint32_natCast hid]

/-- Actions under their ids come back as the map that they were. -/
theorem addActions_reread {list : MenuActionList K} (hids : ∀ e ∈ list.entries, e.1 = e.2.id)
    (h : ∀ e ∈ list.entries, rereadAction plat e.2 = e.2) :
    addActions OrderedMap.empty (list.entries.map (fun e => rereadAction plat e.2)) = list := by
  have hfold : ∀ (es : List (Nat × QtMenuActionConfig K)) (m : MenuActionList K),
      (∀ e ∈ es, e ∈ list.entries) → addActions m (es.map (fun e => rereadAction plat e.2)) =
        es.foldl (fun acc e => acc.insertNew e.1 e.2) m := by
    intro es
    induction es with
    | nil => intro m _; rfl
    | cons e es ih =>
        intro m hmem
        have he := hmem e (by simp)
        rw [List.foldl_cons, ← ih _ (fun d hd => hmem d (by simp [hd])), List.map_cons, h e he,
          hids e he]
        rfl
  rw [hfold _ _ (fun _ he => he), OrderedMap.foldl_insertNew (fun _ v => v), OrderedMap.mapValues_snd]

/-- Plain host keys come back. -/
theorem rereadHostKeys_eq {keys : SshHostKeys}
    (h : ∀ e ∈ keys.entries, (∀ b ∈ e.1, PlainByte b) ∧ ∀ b ∈ e.2.val, PlainByte b) :
    rereadHostKeys keys = keys := by
  have hfold : ∀ (es : List (List UInt8 × CStr)) (m : SshHostKeys), (∀ e ∈ es, e ∈ keys.entries) →
      es.foldl (fun result e =>
        result.insert (recode (fromUtf8 (cstr e.1).val)).val (recode (fromUtf8 e.2.val))) m =
        es.foldl (fun acc e => acc.insert e.1 e.2) m := by
    intro es
    induction es with
    | nil => intro m _; rfl
    | cons e es ih =>
        intro m hmem
        obtain ⟨hkey, hvalue⟩ := h e (hmem e (by simp))
        have hname : (cstr e.1).val = e.1 :=
          cstr_val_of_notMem (fun h0 => absurd (hkey 0 h0).1 (by decide))
        rw [List.foldl_cons, List.foldl_cons, ih _ (fun d hd => hmem d (by simp [hd])),
          recode_fromUtf8 hvalue, recode_fromUtf8 (by rw [hname]; exact hkey), hname]
  rw [rereadHostKeys, hfold _ _ (fun _ he => he), OrderedMap.foldl_insert (fun _ v => v),
    OrderedMap.mapValues_snd]

end Actions

end Config
end Qutty
