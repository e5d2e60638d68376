import Qutty.Config.DamagedFiles
import Qutty.Config.RoundTrip

/-!
# Elements that do not fit

The elements of a session come with the name of an option, which may be no option or one
of another type than the element.  Some readers look whether there is an option, none
looks at its type, and the setters assert both.

So an element that does not fit is harmless exactly if the reader does not get to a setter
(`applySetting_of_not_sets`, `applySetting_of_sets`), and a file is read safely exactly if
it has no other ones (`readsSafely_iff`).
-/

namespace Qutty
namespace Config

open Lib Lib.ByteOrder Lib.PullParser Menu

section Specification

/-- The elements of a session that have an option. -/
def settingNames : List Text :=
  [nameBool, nameInt, nameStr, nameFilename, nameFontSpec, nameList, nameDict]

/-- An option has the types that the setter of an element asserts. -/
def Accepts (name : Text) (k : ConfOption) : Prop :=
  if name = nameBool then k.subkey = .none ∧ k.value = .bool
  else if name = nameInt then k.subkey = .none ∧ k.value = .int
  else if name = nameStr then k.subkey = .none ∧ (k.value = .str ∨ k.value = .strAmbi)
  else if name = nameFilename then k.subkey = .none ∧ k.value = .filename
  else if name = nameFontSpec then k.subkey = .none ∧ k.value = .font
  else if name = nameList then k.subkey = .int ∧ k.value = .int
  else k.subkey = .str ∧ k.value = .str

instance (name : Text) (k : ConfOption) : Decidable (Accepts name k) := by
  unfold Accepts
  infer_instance

/-- An element with an unknown name of an option, or with an option of another type. -/
def BadSetting (e : Element Tag) : Prop :=
  e.tag.name ∈ settingNames ∧ ∀ k ∈ (Read.of e.tag).key, ¬ Accepts e.tag.name k

instance : DecidablePred BadSetting := fun _ => inferInstanceAs (Decidable (_ ∧ _))

/-- A number in a list. -/
def NumberItem (item : Element Tag) : Prop :=
  (item.tag.name = nameInt ∧ (toInt 10 (Read.of item.tag).value).isSome) ∨
    (item.tag.name = nameColour ∧ (toInt 16 (Read.of item.tag).value).isSome)

/-- The element has a value, and where the reader asks for an option there is one. -/
def Sets (e : Element Tag) : Prop :=
  if e.tag.name = nameBool then (toInt 10 (Read.of e.tag).value).isSome = true
  else (Read.of e.tag).key.isSome = true ∧
    if e.tag.name = nameInt then (toInt 10 (Read.of e.tag).value).isSome = true
    else if e.tag.name = nameList then ∃ item ∈ e.children, NumberItem item
    else if e.tag.name = nameDict then ∃ item ∈ e.children, item.tag.name = nameStr
    else True

/-- A section with a session. -/
def IsConfig (tag : Tag) : Prop := tag.name = nameConfig ∧ tag.value attrVersion = version20

instance : DecidablePred IsConfig := fun _ => inferInstanceAs (Decidable (_ ∧ _))

/-- A section without its bad elements. -/
def withoutBad (e : Element Tag) : Element Tag :=
  if IsConfig e.tag then .mk e.tag (e.children.filter (fun e => ¬ BadSetting e)) else e

variable {K : Type} (plat : Platform K)

/-- A document is read without an abort, and as if its bad elements were absent. -/
def ReadsSafely (cfg : QtConfig K) (root : Tag) (sections : List (Element Tag)) : Prop :=
  ∃ cfg', readFromXML plat cfg (Element.mk root sections).events = some (0, cfg') ∧
    readFromXML plat cfg (Element.mk root (sections.map withoutBad)).events = some (0, cfg')

end Specification

section Settings

variable {conf : Conf} {e : Element Tag} {k : ConfOption}

/-- The option that an element should have. -/
theorem not_badSetting (hname : e.tag.name ∈ settingNames) (h : ¬ BadSetting e) :
    ∃ k, (Read.of e.tag).key = some k ∧ k ∈ confOptions ∧ Accepts e.tag.name k := by
  rw [BadSetting, not_and] at h
  have hsome := h hname
  push Not at hsome
  obtain ⟨k, hk, haccepts⟩ := hsome
  exact ⟨k, hk, mem_of_keyFor hk, haccepts⟩

/-- Without an option that has the asserted types a setter aborts. -/
theorem confSet_eq_none {key : Option ConfOption} {name : Text} {v : Value}
    (haccepts : ∀ k, Accepts name k ↔ k.subkey = .none ∧ v.Fits k.value)
    (h : ∀ k ∈ key, ¬ Accepts name k) : confSet conf key v = none :=
  confSet_eq_none_iff.mpr fun k hk hfits => h k hk ((haccepts k).mpr hfits)

theorem confSet_isSome {name : Text} {v : Value}
    (haccepts : ∀ k, Accepts name k ↔ k.subkey = .none ∧ v.Fits k.value) (h : Accepts name k) :
    (confSet conf (some k) v).isSome := by
  rw [confSet_some ((haccepts k).mp h)]
  rfl

theorem accepts_str (s : CStr) (k : ConfOption) :
    Accepts nameStr k ↔ k.subkey = .none ∧ (Value.string s false).Fits k.value := by
  have hdef : Accepts nameStr k ↔ k.subkey = .none ∧ (k.value = .str ∨ k.value = .strAmbi) := Iff.rfl
  rw [hdef, Value.Fits]
  simp only [and_true, Bool.false_eq_true, and_false, or_false]
  rw [or_comm]

/-- A number aborts in a list of another type. -/
theorem applyListItem_number (hk : ¬ (k.subkey = .int ∧ k.value = .int)) {item : Element Tag}
    (h : NumberItem item) (s : Conf × Int) : applyListItem k s item = none := by
  have hset : ∀ (c : Conf) (i : Int) (v : CInt), confSetIntInt c k i v = none :=
    fun _ _ _ => if_neg hk
  rcases h with ⟨hname, hnumber⟩ | ⟨hname, hnumber⟩
  · obtain ⟨v, hv⟩ := Option.isSome_iff_exists.mp hnumber
    rw [applyListItem_int hname]
    simp only [setINT, hv, Option.some_or, hset, Option.map_none]
  · obtain ⟨v, hv⟩ := Option.isSome_iff_exists.mp hnumber
    rw [applyListItem_colour hname]
    simp only [setCOLOUR, hv, hset, Option.bind_eq_bind, Option.bind_none, Option.map_none]

/-- What is no number sets nothing. -/
theorem applyListItem_other {item : Element Tag} (h : ¬ NumberItem item) (s : Conf × Int) :
    ∃ i, applyListItem k s item = some (s.1, i) := by
  rw [NumberItem, not_or, not_and, not_and] at h
  by_cases hint : item.tag.name = nameInt
  · have hnone : toInt 10 (Read.of item.tag).value = none :=
      Option.not_isSome_iff_eq_none.mp (h.1 hint)
    refine ⟨s.2 + 1, ?_⟩
    rw [applyListItem_int hint]
    simp only [setINT, hnone, Option.map_some]
  · by_cases hcolour : item.tag.name = nameColour
    · have hnone : toInt 16 (Read.of item.tag).value = none :=
        Option.not_isSome_iff_eq_none.mp (h.2 hcolour)
      refine ⟨s.2 + 1, ?_⟩
      rw [applyListItem_colour hcolour]
      simp only [setCOLOUR, hnone, Option.map_some]
    · exact ⟨s.2, by rw [applyListItem, if_neg hint, if_neg hcolour]⟩

/-- A list without numbers sets nothing. -/
theorem applyListItems_other {items : List (Element Tag)}
    (h : ∀ item ∈ items, ¬ NumberItem item) (s : Conf × Int) :
    (items.foldlM (applyListItem k) s).map Prod.fst = some s.1 := by
  induction items generalizing s with
  | nil => rfl
  | cons item items ih =>
      obtain ⟨i, hi⟩ := applyListItem_other (k := k) (h item (by simp)) s
      rw [List.foldlM_cons, hi]
      exact ih (fun d hd => h d (by simp [hd])) (s.1, i)

/-- **An element that fits does not abort.** -/
theorem applySetting_isSome (h : ¬ BadSetting e) : (applySetting conf e).isSome := by
  by_cases hname : e.tag.name ∈ settingNames
  · obtain ⟨k, hkey, hk, haccepts⟩ := not_badSetting hname h
    simp only [settingNames, List.mem_cons, List.not_mem_nil, or_false] at hname
    rcases hname with hname | hname | hname | hname | hname | hname | hname
    · rw [hname] at haccepts
      rw [applySetting_bool hname, setBOOL]
      cases toInt 10 (Read.of e.tag).value with
      | none => rfl
      | some v =>
          simp only [hkey]
          exact confSet_isSome (fun _ => Iff.rfl) haccepts
    · rw [hname] at haccepts
      rw [applySetting_int hname, setINT]
      cases toInt 10 (Read.of e.tag).value with
      | none => rfl
      | some v =>
          simp only [hkey, Option.none_or]
          exact confSet_isSome (fun _ => Iff.rfl) haccepts
    · rw [hname] at haccepts
      rw [applySetting_str hname, setSTR]
      simp only [hkey]
      exact confSet_isSome (accepts_str _) haccepts
    · rw [hname] at haccepts
      rw [applySetting_filename hname, setFILENAME]
      simp only [hkey]
      exact confSet_isSome (fun _ => Iff.rfl) haccepts
    · rw [hname] at haccepts
      rw [applySetting_font hname, setFONT]
      simp only [hkey]
      exact confSet_isSome (fun _ => Iff.rfl) haccepts
    · have hint : k.subkey = .int ∧ k.value = .int := by
        rw [hname] at haccepts
        exact haccepts
      rw [applySetting_list hname, applyLIST]
      simp only [hkey]
      obtain ⟨s', hs', -⟩ := applyListItems_onlyList hk hint.1 e.children (conf, 0)
      rw [hs']
      rfl
    · have hstr : k.subkey = .str ∧ k.value = .str := by
        rw [hname] at haccepts
        exact haccepts
      rw [applySetting_dict hname, applyDictSTR]
      simp only [hkey]
      refine foldlM_isSome (fun c item _ => ?_) conf
      rw [applyDictItem]
      split_ifs
      · rw [confSetStrStr, if_pos hstr]
        rfl
      · rfl
  · simp only [settingNames, List.mem_cons, List.not_mem_nil, or_false, not_or] at hname
    obtain ⟨h₁, h₂, h₃, h₄, h₅, h₆, h₇⟩ := hname
    rw [applySetting, if_neg h₁, if_neg h₂, if_neg h₃, if_neg h₄, if_neg h₅, if_neg h₆, if_neg h₇]
    rfl

/-- `Sets` for each of the elements. -/
theorem sets_bool (h : e.tag.name = nameBool) :
    Sets e ↔ (toInt 10 (Read.of e.tag).value).isSome = true := by
  rw [Sets, if_pos h]

theorem sets_int (h : e.tag.name = nameInt) :
    Sets e ↔ (Read.of e.tag).key.isSome = true ∧ (toInt 10 (Read.of e.tag).value).isSome = true := by
  rw [Sets, if_neg (by rw [h]; decide), if_pos h]

theorem sets_list (h : e.tag.name = nameList) :
    Sets e ↔ (Read.of e.tag).key.isSome = true ∧ ∃ item ∈ e.children, NumberItem item := by
  rw [Sets, if_neg (by rw [h]; decide), if_neg (by rw [h]; decide), if_pos h]

theorem sets_dict (h : e.tag.name = nameDict) :
    Sets e ↔ (Read.of e.tag).key.isSome = true ∧ ∃ item ∈ e.children, item.tag.name = nameStr := by
  rw [Sets, if_neg (by rw [h]; decide), if_neg (by rw [h]; decide), if_neg (by rw [h]; decide),
    if_pos h]

theorem sets_scalar (h : e.tag.name = nameStr ∨ e.tag.name = nameFilename ∨
    e.tag.name = nameFontSpec) : Sets e ↔ (Read.of e.tag).key.isSome = true := by
  rcases h with h | h | h <;>
    rw [Sets, if_neg (by rw [h]; decide), if_neg (by rw [h]; decide), if_neg (by rw [h]; decide),
      if_neg (by rw [h]; decide), and_true]

/-- **An element that does not fit aborts if it gets to a setter**, and changes nothing
otherwise. -/
theorem applySetting_bad (h : BadSetting e) :
    (Sets e → applySetting conf e = none) ∧ (¬ Sets e → applySetting conf e = some conf) := by
  obtain ⟨hname, hbad⟩ := h
  simp only [settingNames, List.mem_cons, List.not_mem_nil, or_false] at hname
  rcases hname with hname | hname | hname | hname | hname | hname | hname
  · rw [hname] at hbad
    rw [sets_bool hname, applySetting_bool hname, setBOOL]
    cases toInt 10 (Read.of e.tag).value with
    | none => simp
    | some v => exact ⟨fun _ => confSet_eq_none (fun _ => Iff.rfl) hbad, fun hnot => absurd rfl hnot⟩
  · rw [hname] at hbad
    rw [sets_int hname, applySetting_int hname, setINT]
    cases toInt 10 (Read.of e.tag).value with
    | none => simp
    | some v =>
        cases hkey : (Read.of e.tag).key with
        | none => simp
        | some k =>
            rw [hkey] at hbad
            simp only [Option.none_or]
            exact ⟨fun _ => confSet_eq_none (fun _ => Iff.rfl) hbad,
              fun hnot => absurd ⟨rfl, rfl⟩ hnot⟩
  · rw [hname] at hbad
    rw [sets_scalar (.inl hname), applySetting_str hname, setSTR]
    cases hkey : (Read.of e.tag).key with
    | none => simp
    | some k =>
        rw [hkey] at hbad
        exact ⟨fun _ => confSet_eq_none (accepts_str _) hbad, fun hnot => absurd rfl hnot⟩
  · rw [hname] at hbad
    rw [sets_scalar (.inr (.inl hname)), applySetting_filename hname, setFILENAME]
    cases hkey : (Read.of e.tag).key with
    | none => simp
    | some k =>
        rw [hkey] at hbad
        exact ⟨fun _ => confSet_eq_none (fun _ => Iff.rfl) hbad, fun hnot => absurd rfl hnot⟩
  · rw [hname] at hbad
    rw [sets_scalar (.inr (.inr hname)), applySetting_font hname, setFONT]
    cases hkey : (Read.of e.tag).key with
    | none => simp
    | some k =>
        rw [hkey] at hbad
        exact ⟨fun _ => confSet_eq_none (fun _ => Iff.rfl) hbad, fun hnot => absurd rfl hnot⟩
  · rw [hname] at hbad
    rw [sets_list hname, applySetting_list hname, applyLIST]
    cases hkey : (Read.of e.tag).key with
    | none => simp
    | some k =>
        rw [hkey] at hbad
        have htype : ¬ (k.subkey = .int ∧ k.value = .int) := hbad k rfl
        constructor
        · rintro ⟨-, item, hmem, hnumber⟩
          simp only [foldlM_eq_none hmem (applyListItem_number htype hnumber), Option.map_none]
        · intro hnot
          have hother : ∀ item ∈ e.children, ¬ NumberItem item :=
            fun item hmem hnumber => hnot ⟨rfl, item, hmem, hnumber⟩
          exact applyListItems_other hother (conf, 0)
  · rw [hname] at hbad
    rw [sets_dict hname, applySetting_dict hname, applyDictSTR]
    cases hkey : (Read.of e.tag).key with
    | none => simp
    | some k =>
        rw [hkey] at hbad
        have htype : ¬ (k.subkey = .str ∧ k.value = .str) := hbad k rfl
        constructor
        · rintro ⟨-, item, hmem, hstr⟩
          refine foldlM_eq_none hmem (fun c => ?_) conf
          rw [applyDictItem, if_pos hstr, confSetStrStr, if_neg htype]
        · intro hnot
          have hother : ∀ c, ∀ item ∈ e.children, ¬ False → applyDictItem k c item = some c := by
            intro c item hmem _
            have hstr : item.tag.name ≠ nameStr := fun hstr => hnot ⟨rfl, item, hmem, hstr⟩
            rw [applyDictItem, if_neg hstr]
          have hfilter := foldlM_filter (fun _ => False) hother conf
          rw [List.filter_eq_nil_iff.mpr (by simp)] at hfilter
          exact hfilter.symm

end Settings

section Documents

variable {K : Type} {plat : Platform K}

/-- Host keys and shortcuts are read without an abort. -/
theorem applySection_isSome {e : Element Tag} (h : ¬ IsConfig e.tag) (cfg : QtConfig K) :
    (applySection plat cfg e).isSome := by
  have hhostKeys : ∀ (cfg : QtConfig K), ∀ d ∈ e.children, (applyHostKeys cfg d).isSome := by
    intro cfg d _
    rw [applyHostKeys]
    split_ifs
    · rw [Option.isSome_map]
      refine foldlM_isSome (fun keys item _ => ?_) _
      rw [applyHostKey]
      split_ifs <;> rfl
    · rfl
  have hshortcuts : ∀ (cfg : QtConfig K), ∀ d ∈ e.children, (applyShortcuts plat cfg d).isSome := by
    intro cfg d _
    rw [applyShortcuts]
    split_ifs
    · rw [Option.isSome_map]
      refine foldlM_isSome (fun actions item _ => ?_) _
      rw [applyMenuAction]
      split_ifs <;> rfl
    · rfl
  have hname : ¬ (e.tag.name = nameConfig ∧ e.tag.value attrVersion = version20) := h
  rw [applySection, if_neg hname]
  split_ifs
  · exact foldlM_isSome hhostKeys cfg
  · exact foldlM_isSome hshortcuts cfg
  · rfl

/-- A session with a bad element that gets to a setter is not read. -/
theorem applySection_eq_none {e bad : Element Tag} (h : IsConfig e.tag) (hmem : bad ∈ e.children)
    (hbad : BadSetting bad) (hsets : Sets bad) (cfg : QtConfig K) :
    applySection plat cfg e = none := by
  have hnone : ∀ conf, applySetting conf bad = none := fun conf => (applySetting_bad hbad).1 hsets
  rw [applySection_config h.2 h.1, foldlM_eq_none hmem hnone]
  rfl

/-- A section where no bad element gets to a setter is read, as if they were absent. -/
theorem applySection_withoutBad {e : Element Tag}
    (h : IsConfig e.tag → ∀ d ∈ e.children, BadSetting d → ¬ Sets d) (cfg : QtConfig K) :
    (applySection plat cfg e).isSome ∧
      applySection plat cfg (withoutBad e) = applySection plat cfg e := by
  by_cases hconfig : IsConfig e.tag
  · have hbad : ∀ conf, ∀ d ∈ e.children, ¬ ¬ BadSetting d → applySetting conf d = some conf := by
      intro conf d hd hbad
      exact (applySetting_bad (not_not.mp hbad)).2 (h hconfig d hd (not_not.mp hbad))
    constructor
    · rw [applySection_config hconfig.2 hconfig.1, Option.isSome_map]
      refine foldlM_isSome (fun conf d hd => ?_) _
      by_cases hd' : BadSetting d
      · rw [hbad conf d hd (not_not.mpr hd')]
        rfl
      · exact applySetting_isSome hd'
    · have hclean : IsConfig (Element.mk e.tag (e.children.filter (fun d => ¬ BadSetting d))).tag :=
        hconfig
      rw [withoutBad, if_pos hconfig, applySection_config hclean.2 hclean.1,
        applySection_config hconfig.2 hconfig.1]
      exact congrArg (Option.map _) (foldlM_filter (fun d => ¬ BadSetting d) hbad _)
  · exact ⟨applySection_isSome hconfig cfg, by rw [withoutBad, if_neg hconfig]⟩

/-- **A document is read safely exactly if in its sessions no element that does not fit gets
to a setter.** -/
theorem readsSafely_iff (plat : Platform K) (cfg : QtConfig K) (root : Tag)
    (sections : List (Element Tag)) (hroot : QuttyRoot root) :
    ReadsSafely plat cfg root sections ↔
      ∀ e ∈ sections, IsConfig e.tag → ∀ d ∈ e.children, BadSetting d → ¬ Sets d := by
  have hread : ∀ es : List (Element Tag), readFromXML plat cfg (Element.mk root es).events =
      (es.foldlM (applySection plat) cfg).map (fun cfg => (0, cfg)) := by
    intro es
    have hcontent := content_eventsOf es (Content.stop [])
    rw [List.append_nil] at hcontent
    exact readFromXML_eq plat cfg hroot hcontent
  constructor
  · rintro ⟨cfg', hcfg', -⟩ e he hconfig d hd hbad hsets
    rw [hread, foldlM_eq_none he (applySection_eq_none hconfig hd hbad hsets)] at hcfg'
    exact absurd hcfg' (by simp)
  · intro h
    obtain ⟨cfg', hcfg'⟩ := Option.isSome_iff_exists.mp
      (foldlM_isSome (f := applySection plat)
        (fun cfg e he => (applySection_withoutBad (h e he) cfg).1) cfg)
    refine ⟨cfg', by rw [hread, hcfg']; rfl, ?_⟩
    rw [hread, foldlM_map_congr (fun cfg e he => (applySection_withoutBad (h e he) cfg).2), hcfg']
    rfl

/-- The root of a document. -/
def quttyRoot : Tag := ⟨nameQutty, [(attrVersion, version20)]⟩

/-- A session `a` with one element for a boolean option of a certain name. -/
def boolSession (keyName : Text) : Element Tag :=
  .mk ⟨nameConfig, [(attrVersion, version20), (attrName, ['a'])]⟩
    [.mk ⟨nameBool, [(attrKey, keyName), (attrValue, ['1'])]⟩ []]

theorem readsSafely_iff_nopty :
    ReadsSafely (plainPlatform Conf.new) (QtConfig.empty Text) quttyRoot
        [boolSession ['n', 'o', 'p', 't', 'y']] ↔
      ∀ e ∈ [boolSession ['n', 'o', 'p', 't', 'y']], IsConfig e.tag →
        ∀ d ∈ e.children, BadSetting d → ¬ Sets d :=
  readsSafely_iff (plainPlatform Conf.new) (QtConfig.empty Text) quttyRoot _ ⟨rfl, rfl⟩

/-- The unknown boolean option `x` aborts the program. -/
theorem not_readsSafely_unknownBool :
    QuttyRoot quttyRoot ∧
      ¬ ReadsSafely (plainPlatform Conf.new) (QtConfig.empty Text) quttyRoot
        [boolSession ['x']] := by
  refine ⟨⟨rfl, rfl⟩, ?_⟩
  rintro ⟨cfg', hcfg', -⟩
  have hnone : (readFromXML (plainPlatform Conf.new) (QtConfig.empty Text)
      (Element.mk quttyRoot [boolSession ['x']]).events).isNone = true := by
    decide +kernel
  rw [hcfg'] at hnone
  exact absurd hnone (by simp)

end Documents

end Config
end Qutty
