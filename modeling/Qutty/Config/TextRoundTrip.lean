import Qutty.Config.DamagedFiles
import Qutty.Config.RoundTrip

/-!
# Texts that are written and read

A text is written as it is, decoded from the local code page or from UTF-8, and its
Latin-1 form is read, which then counts as local bytes or as UTF-8.  So a string comes back
if the code page reads its Latin-1 form (`ReadsLatin1`); paths and dictionaries come back
if they are plain.  And a dictionary is read into the defaults: an entry of these that has
been removed is there again (`textsRoundTrip_iff`).

The documents are those of `QXmlStreamWriter`, for characters that are legal in XML.
-/

namespace Qutty
namespace Config

open Lib Lib.ByteOrder Lib.PullParser Menu

section Specification

variable {K : Type} (plat : Platform K)

/-- The text of a string. -/
def Platform.textOf (s : CStr) (utf8 : Bool) : Text :=
  if utf8 then fromUtf8 s.val else plat.fromLocal8Bit s.val

/-- The code page has the text in the bytes that Latin-1 has for it. -/
def Platform.ReadsLatin1 (text : Text) : Prop := plat.fromLocal8Bit (recode text).val = text

/-- Another session has the same texts under the same keys, as values of the same types;
the strings of a dictionary have no encoding of their own. -/
structure SameTexts (conf conf' : Conf) : Prop where
  strings : ∀ k ∈ confOptions, ∀ s utf8, conf.scalar k = some (.string s utf8) →
    ∃ s' utf8', conf'.scalar k = some (.string s' utf8') ∧
      plat.textOf s' utf8' = plat.textOf s utf8
  filenames : ∀ k ∈ confOptions, ∀ fn, conf.scalar k = some (.filename fn) →
    conf'.scalar k = some (.filename fn)
  dicts : ∀ k ∈ confOptions, k.subkey = .str → conf'.dict k = conf.dict k

/-- The sessions have the same texts after they have been written and read. -/
def TextsRoundTrip (cfg : QtConfig K) : Prop :=
  ∃ doc cfg', writeToXML plat cfg = some doc ∧
    readFromXML plat (QtConfig.empty K) doc.events = some (0, cfg') ∧
    ∀ name conf, cfg.configList.session name = some conf →
      ∃ conf', cfg'.configList.session name = some conf' ∧ SameTexts plat conf conf'

/-- A dictionary that comes back when it is read into some defaults. -/
structure Survives (defaults dict : OrderedMap CStr CStr) : Prop where
  plain : ∀ e ∈ dict.entries, (∀ b ∈ e.1.val, PlainByte b) ∧ ∀ b ∈ e.2.val, PlainByte b
  complete : ∀ key ∈ defaults.keys, key ∈ dict.keys

/-- Texts that come back. -/
structure TextsSurvive (conf : Conf) : Prop where
  strings : ∀ k ∈ confOptions, ∀ s utf8, conf.scalar k = some (.string s utf8) →
    plat.ReadsLatin1 (plat.textOf s utf8)
  filenames : ∀ k ∈ confOptions, ∀ fn, conf.scalar k = some (.filename fn) → ∀ c ∈ fn, Plain c
  dicts : ∀ k ∈ confOptions, k.subkey = .str →
    Survives (plat.openSettings.dict k) (conf.dict k)

end Specification

section CodePages

variable {K : Type} {plat : Platform K} {text : Text}

/-- Where the code page is UTF-8, the texts that it reads are the plain ones. -/
theorem readsLatin1_of_utf8 (h : plat.fromLocal8Bit = fromUtf8) :
    plat.ReadsLatin1 text ↔ ∀ c ∈ text, Plain c := by
  rw [Platform.ReadsLatin1, h, recode]
  exact fromUtf8_cstr_toLatin1

/-- Where it is Latin-1, they are the ones of its characters. -/
theorem readsLatin1_of_latin1 (h : plat.fromLocal8Bit = asciiText) :
    plat.ReadsLatin1 text ↔ ∀ c ∈ text, 0 < c.toNat ∧ c.toNat < 256 := by
  rw [Platform.ReadsLatin1, h]
  constructor
  · intro hread c hc
    rw [← hread] at hc
    obtain ⟨b, hb, rfl⟩ := List.mem_map.mp hc
    have hlt := b.toNat_lt
    have hne : b ≠ 0 := fun h0 => (recode text).property (h0 ▸ hb)
    have hpos : b.toNat ≠ 0 := fun h0 => hne (UInt8.toNat_inj.mp h0)
    have hvalid : b.toNat.isValidChar := Or.inl (by omega)
    have hval : (Char.ofNat b.toNat).toNat = b.toNat := by
      rw [Char.ofNat, dif_pos hvalid]
      rfl
    rw [hval]
    omega
  · intro hrange
    have hlatin : ∀ c ∈ text, latin1 c = [c.toNat.toUInt8] := fun c hc =>
      latin1_of_lt (hrange c hc).2
    have hbytes : toLatin1 text = text.map (fun c => c.toNat.toUInt8) := by
      rw [toLatin1, List.flatMap_congr hlatin, ← List.map_eq_flatMap]
    have hbyte : ∀ c ∈ text, c.toNat.toUInt8.toNat = c.toNat := by
      intro c hc
      have hlt := (hrange c hc).2
      simp
      omega
    have h0 : 0 ∉ toLatin1 text := by
      rw [hbytes]
      intro hmem
      obtain ⟨c, hc, hzero⟩ := List.mem_map.mp hmem
      have hnat := congrArg UInt8.toNat hzero
      rw [hbyte c hc] at hnat
      exact absurd hnat (hrange c hc).1.ne'
    rw [recode, cstr_val_of_notMem h0, hbytes, asciiText, List.map_map]
    conv_rhs => rw [← List.map_id text]
    refine List.map_congr_left fun c hc => ?_
    rw [Function.comp_apply, hbyte c hc]
    exact Char.ofNat_toNat c

end CodePages

section Dictionaries

/-- The entry that is inserted for an entry. -/
def recodeEntry (e : CStr × CStr) : CStr × CStr :=
  (recode (fromUtf8 e.1.val), recode (fromUtf8 e.2.val))

variable {defaults dict : OrderedMap CStr CStr}

theorem find_reread (es : List (CStr × CStr)) (key : CStr) :
    (es.foldl rereadEntry defaults).find key =
      (lastWrite key (es.map recodeEntry)).or (defaults.find key) := by
  have hwrites := OrderedMap.find_foldl_insert (es.map recodeEntry) defaults key
  rw [List.foldl_map] at hwrites
  exact hwrites

theorem mem_keys_reread {es : List (CStr × CStr)} {key : CStr} :
    key ∈ (es.foldl rereadEntry defaults).keys ↔
      (∃ e ∈ es, recode (fromUtf8 e.1.val) = key) ∨ key ∈ defaults.keys := by
  rw [OrderedMap.mem_keys, OrderedMap.mem_keys, find_reread, Option.isSome_or, Bool.or_eq_true,
    lastWrite_isSome, List.map_map, List.mem_map]
  rfl

theorem recodeEntry_of_plain {e : CStr × CStr}
    (h : (∀ b ∈ e.1.val, PlainByte b) ∧ ∀ b ∈ e.2.val, PlainByte b) : recodeEntry e = e :=
  Prod.ext (recode_fromUtf8 h.1) (recode_fromUtf8 h.2)

/-- Keys that come back are plain: a key that is not comes from a longer one. -/
theorem plain_of_reread (hdefaults : ∀ key ∈ defaults.keys, ∀ b ∈ key.val, PlainByte b)
    (h : dict.entries.foldl rereadEntry defaults = dict) :
    ∀ key ∈ dict.keys, ∀ b ∈ key.val, PlainByte b := by
  have hlonger : ∀ key ∈ dict.keys, (¬ ∀ b ∈ key.val, PlainByte b) →
      ∃ key' ∈ dict.keys, (¬ ∀ b ∈ key'.val, PlainByte b) ∧ key.val.length < key'.val.length := by
    intro key hkey hnot
    rw [← h, mem_keys_reread] at hkey
    rcases hkey with ⟨e, he, rfl⟩ | hkey
    · have hmem : e.1 ∈ dict.keys := List.mem_map_of_mem he
      obtain ⟨hle, hplain⟩ := length_cstr_toLatin1_fromUtf8 e.1
      refine ⟨e.1, hmem, fun hall => hnot ?_, ?_⟩
      · rw [recode_fromUtf8 hall]
        exact hall
      · rcases Nat.lt_or_ge (recode (fromUtf8 e.1.val)).val.length e.1.val.length with hlt | hge
        · exact hlt
        · exact absurd (hplain hge) hnot
    · exact absurd (hdefaults key hkey) hnot
  by_contra hsome
  push Not at hsome
  obtain ⟨key, hkey, hnot⟩ := hsome
  have hmem : ∀ key, key ∈ dict.keys.toFinset.filter (fun key => ¬ ∀ b ∈ key.val, PlainByte b) ↔
      key ∈ dict.keys ∧ ¬ ∀ b ∈ key.val, PlainByte b := by
    intro key
    rw [Finset.mem_filter, List.mem_toFinset]
  have hnonempty := (hmem key).mpr ⟨hkey, by push Not; exact hnot⟩
  obtain ⟨longest, hlongest, hmax⟩ := Finset.exists_max_image _ (fun key => key.val.length)
    ⟨key, hnonempty⟩
  obtain ⟨hin, hbad⟩ := (hmem longest).mp hlongest
  obtain ⟨key', hin', hbad', hlt⟩ := hlonger longest hin hbad
  have hle := hmax key' ((hmem key').mpr ⟨hin', hbad'⟩)
  omega

/-- **A dictionary comes back if it survives, and only then**, where the default keys are plain. -/
theorem reread_eq_iff (hdefaults : ∀ key ∈ defaults.keys, ∀ b ∈ key.val, PlainByte b) :
    dict.entries.foldl rereadEntry defaults = dict ↔ Survives defaults dict := by
  constructor
  · intro h
    have hkeys := plain_of_reread hdefaults h
    have hcomplete : ∀ key ∈ defaults.keys, key ∈ dict.keys := by
      intro key hkey
      rw [← h]
      exact mem_keys_reread.mpr (.inr hkey)
    refine ⟨fun e he => ⟨hkeys e.1 (List.mem_map_of_mem he), ?_⟩, hcomplete⟩
    -- with the keys as they were, the value of a key is the one that was written for it
    have hrecoded : ∀ es : List (CStr × CStr), (∀ e ∈ es, e ∈ dict.entries) →
        lastWrite e.1 (es.map recodeEntry) =
          (lastWrite e.1 es).map (fun v => recode (fromUtf8 v.val)) := by
      intro es
      induction es with
      | nil => intro _; rfl
      | cons d es ih =>
          intro hmem
          have hd : recode (fromUtf8 d.1.val) = d.1 :=
            recode_fromUtf8 (hkeys d.1 (List.mem_map_of_mem (hmem d (by simp))))
          rw [List.map_cons, recodeEntry, lastWrite, ih (fun c hc => hmem c (by simp [hc])), hd,
            lastWrite]
          cases lastWrite e.1 es <;> split_ifs <;> rfl
    have hfind : dict.find e.1 = some e.2 := OrderedMap.mem_entries.mp he
    have hsame := hfind
    rw [← h, find_reread, hrecoded _ (fun _ hd => hd), OrderedMap.lastWrite_entries, hfind] at hsame
    exact cstr_toLatin1_fromUtf8.mp (Option.some.inj hsame)
  · intro h
    have hentries : dict.entries.map recodeEntry = dict.entries := by
      conv_rhs => rw [← List.map_id dict.entries]
      exact List.map_congr_left fun e he => recodeEntry_of_plain (h.plain e he)
    refine OrderedMap.ext_find fun key => ?_
    rw [find_reread, hentries, OrderedMap.lastWrite_entries]
    cases hfind : dict.find key with
    | some v => rfl
    | none =>
        rw [Option.none_or]
        cases hdefault : defaults.find key with
        | none => rfl
        | some w =>
            have hmem := h.complete key (OrderedMap.mem_keys.mpr (by rw [hdefault]; rfl))
            rw [OrderedMap.mem_keys, hfind] at hmem
            exact absurd hmem (by simp)

end Dictionaries

section Results

variable {K : Type} {plat : Platform K} {conf conf' : Conf}

/-- **The texts of a session are the same if they survive, and only then.** -/
theorem sameTexts_iff
    (hdefaults : ∀ k, ∀ key ∈ (plat.openSettings.dict k).keys, ∀ b ∈ key.val, PlainByte b)
    (h : ∀ k ∈ confOptions, ∃ l, conf'.slot k =
      { Slot.reread plat k (conf.slot k) (plat.openSettings.slot k) with list := l }) :
    SameTexts plat conf conf' ↔ TextsSurvive plat conf := by
  have hscalar : ∀ k ∈ confOptions, ∀ v, conf.scalar k = some v →
      conf'.scalar k = some (rereadValue plat v) := by
    intro k hk v hv
    obtain ⟨l, hslot⟩ := h k hk
    refine (congrArg Slot.scalar hslot).trans ?_
    simp only [Slot.reread, Conf.slot, hv]
    rfl
  have hdict : ∀ k ∈ confOptions, k.subkey = .str →
      conf'.dict k = (conf.dict k).entries.foldl rereadEntry (plat.openSettings.dict k) := by
    intro k hk hsub
    obtain ⟨l, hslot⟩ := h k hk
    exact (congrArg Slot.dict hslot).trans (if_pos hsub)
  constructor
  · intro hsame
    refine ⟨fun k hk s utf8 hs => ?_, fun k hk fn hfn => ?_, fun k hk hsub => ?_⟩
    · obtain ⟨s', utf8', hs', htext⟩ := hsame.strings k hk s utf8 hs
      rw [hscalar k hk _ hs, Option.some.injEq] at hs'
      obtain ⟨rfl, rfl⟩ := Value.string.inj hs'
      exact htext
    · have hfn' := hsame.filenames k hk fn hfn
      rw [hscalar k hk _ hfn, Option.some.injEq] at hfn'
      exact fromUtf8_cstr_toLatin1_fromUtf8_cstr_toUtf8.mp (Value.filename.inj hfn')
    · rw [← reread_eq_iff (hdefaults k), ← hdict k hk hsub]
      exact hsame.dicts k hk hsub
  · intro hsurvive
    refine ⟨fun k hk s utf8 hs => ?_, fun k hk fn hfn => ?_, fun k hk hsub => ?_⟩
    · exact ⟨_, false, hscalar k hk _ hs, hsurvive.strings k hk s utf8 hs⟩
    · have hfn' : filenameFromUtf8 (recode (fromUtf8 (filenameToUtf8 fn).val)) = fn :=
        fromUtf8_cstr_toLatin1_fromUtf8_cstr_toUtf8.mpr (hsurvive.filenames k hk fn hfn)
      rw [hscalar k hk _ hfn, rereadValue, hfn']
    · rw [hdict k hk hsub]
      exact (reread_eq_iff (hdefaults k)).mpr (hsurvive.dicts k hk hsub)

/-- The sessions of a configuration that can be written. -/
theorem session_reread {cfg : QtConfig K} {doc : Element Tag}
    (hdoc : writeToXML plat cfg = some doc) {name : Text}
    (hsession : cfg.configList.session name = some conf) :
    ∃ conf', (rereadConfig plat cfg).configList.session name = some conf' ∧
      ∀ k ∈ confOptions, ∃ l, conf'.slot k =
        { Slot.reread plat k (conf.slot k) (plat.openSettings.slot k) with list := l } := by
  obtain ⟨e, hfind, hptr⟩ := Option.bind_eq_some_iff.mp hsession
  obtain ⟨settings, hsettings⟩ := settings_of_writeToXML hdoc (OrderedMap.mem_entries.mpr hfind) hptr
  obtain ⟨conf', hconf', hslots⟩ := rereadConf_of_written hsettings
  refine ⟨conf', ?_, hslots⟩
  rw [ConfigList.session, rereadConfig, OrderedMap.find_mapValues, hfind]
  exact (congrArg (Option.bind · (rereadConf plat)) hptr).trans hconf'

/-- Texts that come back survive. -/
theorem TextsRoundTrip.survive {cfg : QtConfig K} (h : TextsRoundTrip plat cfg)
    (hdefaults : ∀ k, ∀ key ∈ (plat.openSettings.dict k).keys, ∀ b ∈ key.val, PlainByte b)
    {name : Text} (hsession : cfg.configList.session name = some conf) : TextsSurvive plat conf := by
  obtain ⟨doc, cfg', hdoc, hread, hsame⟩ := h
  rw [readFromXML_writeToXML hdoc, Option.some.injEq, Prod.mk.injEq] at hread
  obtain ⟨-, rfl⟩ := hread
  obtain ⟨conf', hconf', hslots⟩ := session_reread hdoc hsession
  obtain ⟨again, hagain, htexts⟩ := hsame name conf hsession
  obtain rfl := Option.some.inj (hconf'.symm.trans hagain)
  exact (sameTexts_iff hdefaults hslots).mp htexts

/-- **The texts come back exactly if in every session the code page reads the Latin-1 form
of every string, paths and dictionaries are plain, and no default entry of a dictionary is
missing.** -/
theorem textsRoundTrip_iff (plat : Platform K) (cfg : QtConfig K)
    (hdefaults : ∀ k, ∀ key ∈ (plat.openSettings.dict k).keys, ∀ b ∈ key.val, PlainByte b)
    (hdoc : (writeToXML plat cfg).isSome) :
    TextsRoundTrip plat cfg ↔
      ∀ name conf, cfg.configList.session name = some conf → TextsSurvive plat conf := by
  obtain ⟨doc, hdoc⟩ := Option.isSome_iff_exists.mp hdoc
  constructor
  · intro h name conf hsession
    exact h.survive hdefaults hsession
  · intro hsurvive
    refine ⟨doc, _, hdoc, readFromXML_writeToXML hdoc, fun name conf hsession => ?_⟩
    obtain ⟨conf', hconf', hslots⟩ := session_reread hdoc hsession
    exact ⟨conf', hconf', (sameTexts_iff hdefaults hslots).mpr (hsurvive name conf hsession)⟩

/-- `CONF_keyfile`. -/
def confKeyfile : ConfOption := ⟨"keyfile", .none, .filename⟩

/-- One session `a` with a key file. -/
def keyfileSession (fn : Filename) : QtConfig Text :=
  { QtConfig.empty Text with
    configList := OrderedMap.empty.insert ['a']
      ⟨['a'], some (Conf.new.set confKeyfile (.filename fn) ⟨rfl, rfl⟩)⟩ }

theorem textsRoundTrip_iff_plainKeyfile :
    TextsRoundTrip (plainPlatform Conf.new) (keyfileSession ['k']) ↔
      ∀ name conf, (keyfileSession ['k']).configList.session name = some conf →
        TextsSurvive (plainPlatform Conf.new) conf :=
  textsRoundTrip_iff (plainPlatform Conf.new) (keyfileSession ['k'])
    (fun _ _ hkey => absurd hkey List.not_mem_nil) (by decide +kernel)

/-- The path `é` does not come back. -/
theorem not_textsRoundTrip_eAcute :
    ¬ TextsRoundTrip (plainPlatform Conf.new) (keyfileSession [Char.ofNat 233]) := by
  intro h
  have hsurvive := h.survive (fun _ _ hkey => absurd hkey List.not_mem_nil)
    (rfl : (keyfileSession [Char.ofNat 233]).configList.session ['a'] = some _)
  have hplain := hsurvive.filenames confKeyfile (by decide +kernel) [Char.ofNat 233] rfl
    (Char.ofNat 233) (List.mem_singleton_self _)
  exact absurd hplain (by decide)

end Results

end Config
end Qutty
