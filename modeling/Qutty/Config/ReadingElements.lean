import Qutty.Config.Reading

/-!
# What a configuration file means

`readFromXML` reads tags; here is what it makes of elements.  A section, a setting and
an item of a list are steps of folds over the elements inside their element, and the
readers compute these folds (`readFromXML_eq`), for any tags that are left to read.
-/

namespace Qutty
namespace Config

open Lib Lib.ByteOrder Lib.PullParser Menu

section Meaning

variable {K : Type} (plat : Platform K)

/-- An item of a list, with the index. -/
def applyListItem (key : ConfOption) (s : Conf × Int) (e : Element Tag) : Option (Conf × Int) :=
  if e.tag.name = nameInt then (setINT e.tag (some key) (some s.2) s.1).map (·, s.2 + 1)
  else if e.tag.name = nameColour then (setCOLOUR e.tag key s.2 s.1).map (·, s.2 + 1)
  else some s

/-- A list. -/
def applyLIST (conf : Conf) (e : Element Tag) : Option Conf :=
  match (Read.of e.tag).key with
  | some key => (e.children.foldlM (applyListItem key) (conf, 0)).map Prod.fst
  | none => some conf

/-- An item of a dictionary. -/
def applyDictItem (key : ConfOption) (conf : Conf) (e : Element Tag) : Option Conf :=
  if e.tag.name = nameStr then
    confSetStrStr conf key (cstr (Read.of e.tag).keyName) (cstr (Read.of e.tag).value)
  else some conf

/-- A dictionary of a session. -/
def applyDictSTR (conf : Conf) (e : Element Tag) : Option Conf :=
  match (Read.of e.tag).key with
  | some key => e.children.foldlM (applyDictItem key) conf
  | none => some conf

/-- An element of a session. -/
def applySetting (conf : Conf) (e : Element Tag) : Option Conf :=
  if e.tag.name = nameBool then setBOOL e.tag conf
  else if e.tag.name = nameInt then setINT e.tag none none conf
  else if e.tag.name = nameStr then setSTR e.tag conf
  else if e.tag.name = nameFilename then setFILENAME e.tag conf
  else if e.tag.name = nameFontSpec then setFONT e.tag conf
  else if e.tag.name = nameList then applyLIST conf e
  else if e.tag.name = nameDict then applyDictSTR conf e
  else some conf

/-- A host key. -/
def applyHostKey (keys : SshHostKeys) (e : Element Tag) : Option SshHostKeys :=
  if e.tag.name = nameStr then
    some (keys.insert (cstr (Read.of e.tag).keyName).val (cstr (Read.of e.tag).value))
  else some keys

/-- An element with host keys, which replace the ones before. -/
def applyHostKeys (cfg : QtConfig K) (e : Element Tag) : Option (QtConfig K) :=
  if e.tag.name = nameDict then
    (e.children.foldlM applyHostKey OrderedMap.empty).map
      (fun keys => { cfg with sshHostKeys := keys })
  else some cfg

/-- An action of a menu. -/
def applyMenuAction (actions : List (QtMenuActionConfig K)) (e : Element Tag) :
    Option (List (QtMenuActionConfig K)) :=
  if e.tag.name = nameMenuAction ∧ e.tag.hasAttribute attrKey ∧ e.tag.hasAttribute attrKeysequence
  then some (actions ++ [menuActionOf plat e.tag])
  else some actions

/-- An element with actions. -/
def applyShortcuts (cfg : QtConfig K) (e : Element Tag) : Option (QtConfig K) :=
  if e.tag.name = nameDict then
    (e.children.foldlM (applyMenuAction plat) []).map
      (fun actions => { cfg with menuActionList := addActions cfg.menuActionList actions })
  else some cfg

/-- A section of the document. -/
def applySection (cfg : QtConfig K) (e : Element Tag) : Option (QtConfig K) :=
  if e.tag.name = nameConfig ∧ e.tag.value attrVersion = version20 then
    (e.children.foldlM applySetting plat.openSettings).map (fun conf =>
      { cfg with
        configList := cfg.configList.insert (e.tag.value attrName)
          ⟨e.tag.value attrName, some conf⟩ })
  else if e.tag.name = nameSshhostkeys ∧ e.tag.value attrVersion = version20 then
    e.children.foldlM applyHostKeys cfg
  else if e.tag.name = nameKeyboardshortcuts ∧ e.tag.value attrVersion = version20 then
    e.children.foldlM (applyShortcuts plat) cfg
  else some cfg

/-- The root that a document must have. -/
def QuttyRoot (tag : Tag) : Prop := tag.name = nameQutty ∧ tag.value attrVersion = version20

instance (tag : Tag) : Decidable (QuttyRoot tag) := inferInstanceAs (Decidable (_ ∧ _))

end Meaning

section Readers

variable {K : Type} (plat : Platform K)

theorem reads_readListItem (key : ConfOption) :
    Reads (readListItem key) (applyListItem key) :=
  (reads_skip _).ite _ ((reads_skip _).ite _ reads_ignore)

theorem reads_readLIST : Reads readLIST applyLIST := by
  intro tag es children rest conf hc
  rw [readLIST, applyLIST, Element.tag]
  cases (Read.of tag).key with
  | some key =>
      exact (reads_readListItem key).inner (fun _ conf => (conf, 0)) (fun _ _ s => s.1)
        tag es children rest conf hc
  | none => exact reads_ignore tag es children rest conf hc

theorem reads_readDictItem (key : ConfOption) :
    Reads (readDictItem key) (applyDictItem key) :=
  (reads_skip _).ite _ reads_ignore

theorem reads_readDictSTR : Reads readDictSTR applyDictSTR := by
  intro tag es children rest conf hc
  rw [readDictSTR, applyDictSTR, Element.tag]
  cases (Read.of tag).key with
  | some key => exact (reads_readDictItem key).loop hc conf
  | none => exact reads_ignore tag es children rest conf hc

theorem reads_readSetting : Reads readSetting applySetting :=
  (reads_skip _).ite _ ((reads_skip _).ite _ ((reads_skip _).ite _ ((reads_skip _).ite _
    ((reads_skip _).ite _ (reads_readLIST.ite _ (reads_readDictSTR.ite _ reads_ignore))))))

theorem reads_readHostKey : Reads readHostKey applyHostKey :=
  (reads_skip _).ite _ reads_ignore

theorem reads_readHostKeys : Reads (readHostKeys (K := K)) applyHostKeys :=
  (reads_readHostKey.inner (fun _ _ => OrderedMap.empty)
    (fun _ (cfg : QtConfig K) keys => { cfg with sshHostKeys := keys })).ite _ reads_ignore

theorem reads_readMenuAction : Reads (readMenuAction plat) (applyMenuAction plat) :=
  (reads_skip _).ite _ reads_ignore

theorem reads_readShortcuts : Reads (readShortcuts plat) (applyShortcuts plat) :=
  ((reads_readMenuAction plat).inner (fun _ _ => []) (fun _ (cfg : QtConfig K) actions =>
    { cfg with menuActionList := addActions cfg.menuActionList actions })).ite _ reads_ignore

theorem reads_readSection : Reads (readSection plat) (applySection plat) := by
  refine Reads.ite _ (reads_readSetting.inner (fun _ _ => plat.openSettings)
    (fun tag (cfg : QtConfig K) conf => { cfg with
      configList := cfg.configList.insert (tag.value attrName)
        ⟨tag.value attrName, some conf⟩ })) (Reads.ite _ ?_ (Reads.ite _ ?_ reads_ignore))
  · intro tag es children rest cfg hc
    exact reads_readHostKeys.loop hc cfg
  · intro tag es children rest cfg hc
    exact (reads_readShortcuts plat).loop hc cfg

/-- **A document is read section by section**, where the last ones may be cut off. -/
theorem readFromXML_eq (cfg : QtConfig K) {root : Tag} (hroot : QuttyRoot root) {es rest : Xml}
    {sections : List (Element Tag)} (hc : Content es sections rest) :
    readFromXML plat cfg (.start root :: es) =
      (sections.foldlM (applySection plat) cfg).map (fun cfg => (0, cfg)) := by
  have hok : ¬ (root.name ≠ nameQutty ∨ root.value attrVersion ≠ version20) := by
    rintro (h | h)
    · exact h hroot.1
    · exact h hroot.2
  simp only [readFromXML, readNextStartElement]
  rw [if_neg hok, (reads_readSection plat).loop hc, Option.map_map]
  rfl

/-- Without the root nothing is read. -/
theorem readFromXML_of_not_root (cfg : QtConfig K) {es : Xml}
    (h : ∀ root ∈ (readNextStartElement es).1, ¬ QuttyRoot root) :
    readFromXML plat cfg es = some (0, cfg) := by
  match es with
  | [] => rfl
  | .stop :: es => rfl
  | .start root :: es =>
      have hroot : root.name ≠ nameQutty ∨ root.value attrVersion ≠ version20 := by
        have hnot := h root rfl
        rw [QuttyRoot, not_and_or] at hnot
        exact hnot
      simp only [readFromXML, readNextStartElement]
      rw [if_pos hroot]
      rfl

end Readers

end Config
end Qutty
