import Qutty.Lib.PullParser
import Qutty.Config.HostKeys
import Qutty.Config.Sessions
import Qutty.Config.Setters
import Qutty.Menu.Actions

/-!
# Reading the configuration file

`QtConfig::readFromXML` of `QtConfig.cpp` and the readers below it, on the tags that
`QXmlStreamReader` reports.  An attribute is a text; names of options and values are
its Latin-1 form.  The settings of a session start from what `load_open_settings` makes
of nothing.

A reader gives none where a setter aborts.
-/

namespace Qutty
namespace Config

open Lib Lib.ByteOrder Lib.PullParser Menu

section Tags

/-- A start tag: its name, and its attributes. -/
structure Tag where
  name : Text
  attributes : List (Text × Text)
deriving DecidableEq

/-- `attributes().value(attrName)`: empty if there is none. -/
def Tag.value (tag : Tag) (attrName : Text) : Text :=
  ((tag.attributes.find? (fun a => a.1 = attrName)).map Prod.snd).getD []

/-- `attributes().hasAttribute(attrName)`. -/
def Tag.hasAttribute (tag : Tag) (attrName : Text) : Bool :=
  tag.attributes.any (fun a => a.1 = attrName)

/-- The names that are read and written. -/
def nameBool : Text := ['b', 'o', 'o', 'l']
def nameInt : Text := ['i', 'n', 't']
def nameStr : Text := ['s', 't', 'r']
def nameFilename : Text := ['F', 'i', 'l', 'e', 'n', 'a', 'm', 'e']
def nameFontSpec : Text := ['F', 'o', 'n', 't', 'S', 'p', 'e', 'c']
def nameList : Text := ['l', 'i', 's', 't']
def nameDict : Text := ['d', 'i', 'c', 't']
def nameColour : Text := ['c', 'o', 'l', 'o', 'u', 'r']
def nameMenuAction : Text := ['M', 'e', 'n', 'u', 'A', 'c', 't', 'i', 'o', 'n']
def nameConfig : Text := ['c', 'o', 'n', 'f', 'i', 'g']
def nameSshhostkeys : Text := ['s', 's', 'h', 'h', 'o', 's', 't', 'k', 'e', 'y', 's']
def nameKeyboardshortcuts : Text :=
  ['k', 'e', 'y', 'b', 'o', 'a', 'r', 'd', 's', 'h', 'o', 'r', 't', 'c', 'u', 't', 's']
def nameQutty : Text := ['q', 'u', 't', 't', 'y']
def attrKey : Text := ['k', 'e', 'y']
def attrValue : Text := ['v', 'a', 'l', 'u', 'e']
def attrName : Text := ['n', 'a', 'm', 'e']
def attrVersion : Text := ['v', 'e', 'r', 's', 'i', 'o', 'n']
def attrHeight : Text := ['h', 'e', 'i', 'g', 'h', 't']
def attrBold : Text := ['b', 'o', 'l', 'd']
def attrCharset : Text := ['c', 'h', 'a', 'r', 's', 'e', 't']
def attrKeysequence : Text := ['k', 'e', 'y', 's', 'e', 'q', 'u', 'e', 'n', 'c', 'e']
def attrStrData : Text := ['s', 't', 'r', '_', 'd', 'a', 't', 'a']
def attrIntData : Text := ['i', 'n', 't', '_', 'd', 'a', 't', 'a']
def version20 : Text := ['2', '.', '0']

end Tags

section Numbers

/-- `int` of a number; `ok` is false where it is none. -/
def fitsInt (i : Int) : Option CInt :=
  if h : -2 ^ 31 ≤ i ∧ i < 2 ^ 31 then some ⟨i, h⟩ else none

/-- What stands behind the `0x` that is taken for a prefix in base 16. -/
def skipPrefix (base : Nat) (cs : List UInt8) : List UInt8 :=
  match cs with
  | 48 :: x :: d :: ds =>
      if base = 16 ∧ (x = 120 ∨ x = 88) ∧ (digitValue 16 d.toNat).isSome then d :: ds else cs
  | _ => cs

/-- `QByteArray::toInt(&ok, base)`: none where `ok` is false. -/
def toInt (base : Nat) (bytes : List UInt8) : Option CInt :=
  let (neg, ds) := readSign UInt8.toNat (bytes.dropWhile (fun b => isSpace b.toNat))
  match readMagnitude UInt8.toNat base (skipPrefix base ds) with
  | some (v, []) => fitsInt (if neg then -(v : Int) else v)
  | _ => none

/-- `QChar::isSpace`. -/
def isSpaceChar (c : Char) : Bool :=
  isSpace c.toNat ∨ c.toNat ∈ [0x85, 0xA0, 0x1680, 0x2028, 0x2029, 0x202F, 0x205F, 0x3000] ∨
    (0x2000 ≤ c.toNat ∧ c.toNat ≤ 0x200A)

/-- `QStringView::toInt()`: 0 for what is no number; blanks at both ends are ignored. -/
def viewToInt (text : Text) : CInt :=
  let trimmed := ((text.dropWhile isSpaceChar).reverse.dropWhile isSpaceChar).reverse
  match readInt Char.toNat 10 trimmed with
  | some (v, []) => (fitsInt v).getD ⟨0, by decide⟩
  | _ => ⟨0, by decide⟩

/-- `uint32_t` of a number. -/
def toUint32 (i : Int) : Nat := (i % 2 ^ 32).toNat

end Numbers

/-- What the program takes from its platform: key sequences, the settings that
`load_open_settings(nullptr, conf)` makes, and conversions of text. -/
structure Platform (K : Type) where
  keys : KeySequences K
  openSettings : Conf
  fromLocal8Bit : List UInt8 → Text
  gssapi : Bool

/-- `QtConfig`. -/
structure QtConfig (K : Type) where
  configList : ConfigList
  sshHostKeys : SshHostKeys
  menuActionList : MenuActionList K

/-- `QtConfig` when the program starts. -/
def QtConfig.empty (K : Type) : QtConfig K :=
  ⟨OrderedMap.empty, OrderedMap.empty, OrderedMap.empty⟩

section Settings

/-- `Read`; `key` is none for -1. -/
structure Read where
  keyName : List UInt8
  value : List UInt8
  key : Option ConfOption

/-- The constructor of `Read`. -/
def Read.of (tag : Tag) : Read :=
  ⟨toLatin1 (tag.value attrKey), toLatin1 (tag.value attrValue),
    keyFor (cstr (toLatin1 (tag.value attrKey)))⟩

/-- What `read_BOOL` sets. -/
def setBOOL (tag : Tag) (conf : Conf) : Option Conf :=
  let r := Read.of tag
  match toInt 10 r.value with
  | some v => confSetBool conf r.key (v.val ≠ 0)
  | none => some conf

/-- What `read_INT` sets, for a key that is given or in the tag, and for an index if there is
one. -/
def setINT (tag : Tag) (pri : Option ConfOption) (sec : Option Int) (conf : Conf) :
    Option Conf :=
  let r := Read.of tag
  match toInt 10 r.value, pri.or r.key with
  | some v, some pri =>
      match sec with
      | none => confSetInt conf pri v
      | some sec => confSetIntInt conf pri sec v
  | _, _ => some conf

/-- A byte of `v`. -/
def colourByte (v : CInt) (shift : Nat) : CInt :=
  ⟨v.val / 2 ^ shift % 256, by omega⟩

/-- What `read_COLOUR` sets. -/
def setCOLOUR (tag : Tag) (pri : ConfOption) (sec : Int) (conf : Conf) : Option Conf :=
  match toInt 16 (Read.of tag).value with
  | some v => do
      let conf ← confSetIntInt conf pri (sec * 3 + 0) (colourByte v 16)
      let conf ← confSetIntInt conf pri (sec * 3 + 1) (colourByte v 8)
      confSetIntInt conf pri (sec * 3 + 2) (colourByte v 0)
  | none => some conf

/-- What `read_STR` sets. -/
def setSTR (tag : Tag) (conf : Conf) : Option Conf :=
  let r := Read.of tag
  match r.key with
  | some key => confSetStr conf key (cstr r.value)
  | none => some conf

/-- `filename_from_utf8`, for wide paths. -/
def filenameFromUtf8 (utf8 : CStr) : Filename := fromUtf8 utf8.val

/-- `filename_to_utf8`, for wide paths. -/
def filenameToUtf8 (fn : Filename) : CStr := cstr (toUtf8 fn)

/-- What `read_FILENAME` sets. -/
def setFILENAME (tag : Tag) (conf : Conf) : Option Conf :=
  let r := Read.of tag
  match r.key with
  | some key => confSetFilename conf key (filenameFromUtf8 (cstr r.value))
  | none => some conf

/-- The `FontSpec` of `read_FONT`; the name is copied into 64 characters. -/
def fontOf (tag : Tag) : FontSpec where
  name := cstr ((toLatin1 (tag.value attrName)).take 63)
  height := viewToInt (tag.value attrHeight)
  isbold := (viewToInt (tag.value attrBold)).val ≠ 0
  charset := viewToInt (tag.value attrCharset)
  name_fits := by
    have hle := length_cstr_le ((toLatin1 (tag.value attrName)).take 63)
    rw [List.length_take] at hle
    omega

/-- What `read_FONT` sets. -/
def setFONT (tag : Tag) (conf : Conf) : Option Conf :=
  match (Read.of tag).key with
  | some key => confSetFontspec conf key (fontOf tag)
  | none => some conf

end Settings

section Readers

/-- What is left to read. -/
abbrev Xml := List (Event Tag)

/-- A reader that looks at its start tag and skips the element. -/
def readTag {σ : Type} (set : Tag → σ → Option σ) (tag : Tag) (es : Xml) (s : σ) :
    Option (Xml × σ) :=
  (set tag s).map (fun s => (skipCurrentElement es, s))

/-- The loop of `read_LIST`, with its counter. -/
def readListItem (key : ConfOption) (tag : Tag) (es : Xml) (s : Conf × Int) :
    Option (Xml × (Conf × Int)) :=
  if tag.name = nameInt then
    readTag (fun tag s => (setINT tag (some key) (some s.2) s.1).map (·, s.2 + 1)) tag es s
  else if tag.name = nameColour then
    readTag (fun tag s => (setCOLOUR tag key s.2 s.1).map (·, s.2 + 1)) tag es s
  else some (skipCurrentElement es, s)

/-- `read_LIST`. -/
def readLIST (tag : Tag) (es : Xml) (conf : Conf) : Option (Xml × Conf) :=
  match (Read.of tag).key with
  | some key => (loop (readListItem key) es (conf, 0)).map (fun r => (r.1, r.2.1))
  | none => some (skipCurrentElement es, conf)

/-- The loop of `read_DICT_STR`. -/
def readDictItem (key : ConfOption) (tag : Tag) (es : Xml) (conf : Conf) : Option (Xml × Conf) :=
  if tag.name = nameStr then
    readTag (fun tag conf =>
      confSetStrStr conf key (cstr (Read.of tag).keyName) (cstr (Read.of tag).value)) tag es conf
  else some (skipCurrentElement es, conf)

/-- `read_DICT_STR` for a session. -/
def readDictSTR (tag : Tag) (es : Xml) (conf : Conf) : Option (Xml × Conf) :=
  match (Read.of tag).key with
  | some key => loop (readDictItem key) es conf
  | none => some (skipCurrentElement es, conf)

/-- The loop of `read_DICT_STR` for the host keys. -/
def readHostKey (tag : Tag) (es : Xml) (result : SshHostKeys) : Option (Xml × SshHostKeys) :=
  if tag.name = nameStr then
    readTag (fun tag result => some
      (result.insert (cstr (Read.of tag).keyName).val (cstr (Read.of tag).value))) tag es result
  else some (skipCurrentElement es, result)

/-- An element of a `config`. -/
def readSetting (tag : Tag) (es : Xml) (conf : Conf) : Option (Xml × Conf) :=
  if tag.name = nameBool then readTag setBOOL tag es conf
  else if tag.name = nameInt then readTag (fun tag => setINT tag none none) tag es conf
  else if tag.name = nameStr then readTag setSTR tag es conf
  else if tag.name = nameFilename then readTag setFILENAME tag es conf
  else if tag.name = nameFontSpec then readTag setFONT tag es conf
  else if tag.name = nameList then readLIST tag es conf
  else if tag.name = nameDict then readDictSTR tag es conf
  else some (skipCurrentElement es, conf)

variable {K : Type} (plat : Platform K)

/-- The action of `read_MENUACTION`. -/
def menuActionOf (tag : Tag) : QtMenuActionConfig K where
  id := toUint32 (((toInt 10 (Read.of tag).keyName).map Subtype.val).getD 0)
  shortcut := plat.keys.ofString (tag.value attrKeysequence)
  name := fromUtf8 (toUtf8 (tag.value attrName))
  strData := fromUtf8 (toUtf8 (tag.value attrStrData))
  intData := if tag.hasAttribute attrIntData then toUint32 (viewToInt (tag.value attrIntData)).val
    else 0

/-- The loop of `read_DICT_MENUACTION`. -/
def readMenuAction (tag : Tag) (es : Xml) (result : List (QtMenuActionConfig K)) :
    Option (Xml × List (QtMenuActionConfig K)) :=
  if tag.name = nameMenuAction ∧ tag.hasAttribute attrKey ∧ tag.hasAttribute attrKeysequence then
    readTag (fun tag result => some (result ++ [menuActionOf plat tag])) tag es result
  else some (skipCurrentElement es, result)

/-- An element of `sshhostkeys`. -/
def readHostKeys (tag : Tag) (es : Xml) (cfg : QtConfig K) : Option (Xml × QtConfig K) :=
  if tag.name = nameDict then
    (loop readHostKey es OrderedMap.empty).map (fun r => (r.1, { cfg with sshHostKeys := r.2 }))
  else some (skipCurrentElement es, cfg)

/-- `menu_action_list.insert`, which does not replace an action. -/
def addActions (list : MenuActionList K) (actions : List (QtMenuActionConfig K)) :
    MenuActionList K :=
  actions.foldl (fun list action => list.insertNew action.id action) list

/-- An element of `keyboardshortcuts`. -/
def readShortcuts (tag : Tag) (es : Xml) (cfg : QtConfig K) : Option (Xml × QtConfig K) :=
  if tag.name = nameDict then
    (loop (readMenuAction plat) es []).map (fun r =>
      (r.1, { cfg with menuActionList := addActions cfg.menuActionList r.2 }))
  else some (skipCurrentElement es, cfg)

/-- An element of the document. -/
def readSection (tag : Tag) (es : Xml) (cfg : QtConfig K) : Option (Xml × QtConfig K) :=
  if tag.name = nameConfig ∧ tag.value attrVersion = version20 then
    let configName := tag.value attrName
    (loop readSetting es plat.openSettings).map (fun r =>
      (r.1, { cfg with
        configList := cfg.configList.insert configName ⟨configName, some r.2⟩ }))
  else if tag.name = nameSshhostkeys ∧ tag.value attrVersion = version20 then
    loop readHostKeys es cfg
  else if tag.name = nameKeyboardshortcuts ∧ tag.value attrVersion = version20 then
    loop (readShortcuts plat) es cfg
  else some (skipCurrentElement es, cfg)

/-- `int` of a `bool`. -/
def intOfBool (b : Bool) : Int := if b then 1 else 0

/-- `QtConfig::readFromXML`: what it returns, and the configuration afterwards. -/
def readFromXML (cfg : QtConfig K) (es : Xml) : Option (Int × QtConfig K) :=
  match readNextStartElement es with
  | (none, _) => some (intOfBool false, cfg)
  | (some root, es) =>
      if root.name ≠ nameQutty ∨ root.value attrVersion ≠ version20 then
        some (intOfBool false, cfg)
      else (loop (readSection plat) es cfg).map (fun r => (0, r.2))

end Readers

end Config
end Qutty
