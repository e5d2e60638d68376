import Qutty.Config.ReadingElements

/-!
# Writing the configuration file

`QtConfig::writeToXML` of `QtConfig.cpp` and the writers below it, which make the
elements of the document.  An option is written by the types of its subkeys and values;
one that is not set is left out.  A writer gives none where an assertion fails.
-/

namespace Qutty
namespace Config

open Lib Lib.ByteOrder Lib.PullParser Menu

section Values

/-- `QString::number`. -/
def numberText (i : Int) : Text := (intNumeral i).map Char.ofNat

/-- `%02X` of an `int`. -/
def hexText (i : Int) : Text :=
  let digits := numeral 16 (toUint32 i)
  (List.replicate (2 - digits.length) 48 ++ digits).map Char.ofNat

/-- `write`. -/
def writeValue (type : Text) (keyName : Option Text) (value : Text) : Element Tag :=
  .mk ⟨type, (keyName.map (fun k => (attrKey, k))).toList ++ [(attrValue, value)]⟩ []

/-- `#key` of an option. -/
def optionName (k : ConfOption) : Text := asciiText k.bytes

variable (conf : Conf) (k : ConfOption)

/-- `write_INT` of an option without subkeys. -/
def writeINT : Option (List (Element Tag)) :=
  match conf.scalar k with
  | none => some []
  | some (.int v) => some [writeValue nameInt (some (optionName k)) (numberText v.val)]
  | some _ => none

/-- `write_INT` of an item of a list: the item at 0 is the one that is looked for. -/
def writeListINT (i : Nat) : Option (List (Element Tag)) :=
  match conf.list k 0 with
  | none => some []
  | some _ => (conf.list k i).map (fun v => [writeValue nameInt none (numberText v.val)])

/-- `write_BOOL`. -/
def writeBOOL : Option (List (Element Tag)) :=
  match conf.scalar k with
  | none => some []
  | some (.bool v) =>
      some [writeValue nameBool (some (optionName k)) (numberText (if v then 1 else 0))]
  | some _ => none

/-- `write_COLOUR`. -/
def writeCOLOUR (sec : Nat) : List (Element Tag) :=
  match conf.list k (sec * 3 + 0 : Nat), conf.list k (sec * 3 + 1 : Nat),
      conf.list k (sec * 3 + 2 : Nat) with
  | some r, some g, some b =>
      [writeValue nameColour none (hexText r.val ++ (hexText g.val ++ hexText b.val))]
  | _, _, _ => []

variable {K : Type} (plat : Platform K)

/-- `write_STR`. -/
def writeSTR : Option (List (Element Tag)) :=
  match conf.scalar k with
  | none => some []
  | some (.string s _) =>
      some [writeValue nameStr (some (optionName k)) (plat.fromLocal8Bit s.val)]
  | some _ => none

/-- `write_STR_AMBI`. -/
def writeSTRAMBI : Option (List (Element Tag)) :=
  match conf.scalar k with
  | none => some []
  | some (.string s utf8) =>
      some [writeValue nameStr (some (optionName k))
        (if utf8 then fromUtf8 s.val else plat.fromLocal8Bit s.val)]
  | some _ => none

/-- `write_UTF8`. -/
def writeUTF8 : Option (List (Element Tag)) :=
  match conf.scalar k with
  | none => some []
  | some (.string s _) => some [writeValue nameStr (some (optionName k)) (fromUtf8 s.val)]
  | some _ => none

/-- `write_FILENAME`. -/
def writeFILENAME : Option (List (Element Tag)) :=
  match conf.scalar k with
  | none => some []
  | some (.filename fn) =>
      some [writeValue nameFilename (some (optionName k)) (fromUtf8 (filenameToUtf8 fn).val)]
  | some _ => none

/-- `write_FONT`. -/
def writeFONT : Option (List (Element Tag)) :=
  match conf.scalar k with
  | none => some []
  | some (.font font) =>
      some [.mk ⟨nameFontSpec, [(attrKey, optionName k), (attrName, fromUtf8 font.name.val),
        (attrHeight, numberText font.height.val),
        (attrBold, numberText (if font.isbold then 1 else 0)),
        (attrCharset, numberText font.charset.val)]⟩ []]
  | some _ => none

/-- The body of the loop of `write_INT_sINT`. -/
def writeItem (i : Nat) : Option (List (Element Tag)) :=
  if k = confColours then some (writeCOLOUR conf k i) else writeListINT conf k i

/-- The items of `write_INT_sINT` from index `i` on. -/
def writeItems (i : Nat) : Nat → Option (List (Element Tag))
  | 0 => some []
  | n + 1 => do
      let first ← writeItem conf k i
      let rest ← writeItems (i + 1) n
      some (first ++ rest)

/-- `write_INT_sINT`. -/
def writeINTsINT : Option (List (Element Tag)) :=
  (writeItems conf k 0 (optionFor plat.gssapi k).toNat).map
    (fun items => [.mk ⟨nameList, [(attrKey, optionName k)]⟩ items])

/-- An entry of a dictionary. -/
def writeEntry (e : List UInt8 × CStr) : Element Tag :=
  writeValue nameStr (some (fromUtf8 e.1)) (fromUtf8 e.2.val)

/-- `write_STR_sSTR` for a session. -/
def writeSTRsSTR : List (Element Tag) :=
  [.mk ⟨nameDict, [(attrKey, optionName k)]⟩
    ((conf.dict k).entries.map (fun e => writeEntry (e.1.val, e.2)))]

/-- The writer of an option: the types make its name. -/
def writeOption : Option (List (Element Tag)) :=
  match k.subkey, k.value with
  | .none, .bool => writeBOOL conf k
  | .none, .int => writeINT conf k
  | .none, .str => writeSTR conf k plat
  | .none, .utf8 => writeUTF8 conf k
  | .none, .strAmbi => writeSTRAMBI conf k plat
  | .none, .filename => writeFILENAME conf k
  | .none, .font => writeFONT conf k
  | .int, .int => writeINTsINT conf k plat
  | .str, .str => some (writeSTRsSTR conf k)
  | _, _ => none

end Values

section Document

variable {K : Type} (plat : Platform K)

/-- The options of a session, one after the other. -/
def writeOptions (conf : Conf) : List ConfOption → Option (List (Element Tag))
  | [] => some []
  | k :: ks => do
      let first ← writeOption conf k plat
      let rest ← writeOptions conf ks
      some (first ++ rest)

/-- A `config` element; none for a null pointer. -/
def writeConfig (e : Text × PuttyConfig) : Option (Element Tag) := do
  let conf ← e.2.ptr
  let settings ← writeOptions plat conf confOptions
  some (.mk ⟨nameConfig, [(attrVersion, version20), (attrName, e.1)]⟩ settings)

/-- `write_MENUACTION`. -/
def writeMENUACTION (mac : QtMenuActionConfig K) : Element Tag :=
  .mk ⟨nameMenuAction,
    [(attrKey, numberText mac.id), (attrKeysequence, plat.keys.toString mac.shortcut)] ++
      (if mac.name = [] then [] else [(attrName, mac.name)]) ++
      (if mac.strData = [] then [] else [(attrStrData, mac.strData)]) ++
      (if mac.intData = 0 then [] else [(attrIntData, numberText mac.intData)])⟩ []

/-- The `keyboardshortcuts` element, with the assertion on the ids. -/
def writeShortcuts (list : MenuActionList K) : Option (List (Element Tag)) :=
  if list.entries = [] then some []
  else if ∀ e ∈ list.entries, e.1 = e.2.id then
    some [.mk ⟨nameKeyboardshortcuts, [(attrVersion, version20)]⟩
      [.mk ⟨nameDict, []⟩ (list.entries.map (fun e => writeMENUACTION plat e.2))]]
  else none

/-- The `sshhostkeys` element; a key is written up to its first NUL. -/
def writeHostKeys (keys : SshHostKeys) : Element Tag :=
  .mk ⟨nameSshhostkeys, [(attrVersion, version20)]⟩
    [.mk ⟨nameDict, []⟩ (keys.entries.map (fun e => writeEntry ((cstr e.1).val, e.2)))]

/-- `QtConfig::writeToXML`: the root of the document. -/
def writeToXML (cfg : QtConfig K) : Option (Element Tag) :=
  do
  let shortcuts ← writeShortcuts plat cfg.menuActionList
  let configs ← cfg.configList.entries.mapM (writeConfig plat)
  some (.mk ⟨nameQutty, [(attrVersion, version20)]⟩
    (shortcuts ++ (configs ++ [writeHostKeys cfg.sshHostKeys])))

end Document

end Config
end Qutty
