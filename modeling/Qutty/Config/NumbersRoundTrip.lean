import Qutty.Config.DamagedFiles
import Qutty.Config.RoundTrip

/-!
# Numbers that are written and read

The stores that the program builds are `Produced`: `load_open_settings` makes one, and the
setters change it.  No setter removes a scalar, so an option that has no element in the
file has no value before it is read either.  With this the numbers of every session are
the same afterwards (`settings_round_trip`).
-/

namespace Qutty
namespace Config

open Lib Lib.ByteOrder Lib.PullParser Menu

section Stores

/-- The stores that come from `load_open_settings` by updates. -/
inductive Produced (loads : Conf → Prop) : Conf → Prop where
  | load {conf : Conf} (h : loads conf) : Produced loads conf
  | set {conf conf' : Conf} {key : Option ConfOption} {v : Value} (h : Produced loads conf)
      (hset : confSet conf key v = some conf') : Produced loads conf'
  | setIntInt {conf conf' : Conf} {k : ConfOption} {i : Int} {v : CInt} (h : Produced loads conf)
      (hset : confSetIntInt conf k i v = some conf') : Produced loads conf'
  | setStrStr {conf conf' : Conf} {k : ConfOption} {subkey v : CStr} (h : Produced loads conf)
      (hset : confSetStrStr conf k subkey v = some conf') : Produced loads conf'
  | delStrStr {conf conf' : Conf} {k : ConfOption} {subkey : CStr} (h : Produced loads conf)
      (hdel : confDelStrStr conf k subkey = some conf') : Produced loads conf'

variable {loads : Conf → Prop} {conf : Conf}

/-- **A scalar that every load sets is set in every store.** -/
theorem Produced.scalar_isSome (h : Produced loads conf) {k : ConfOption}
    (hloads : ∀ c, loads c → (c.scalar k).isSome) : (conf.scalar k).isSome := by
  induction h with
  | load h => exact hloads _ h
  | @set conf conf' key v _ hset ih =>
      cases key with
      | none => exact absurd hset (by simp [confSet])
      | some j =>
          rw [confSet] at hset
          split_ifs at hset with hfits
          obtain rfl := Option.some.inj hset
          rw [Conf.scalar_set]
          split_ifs
          · rfl
          · exact ih
  | setIntInt _ hset ih =>
      rw [confSetIntInt] at hset
      split_ifs at hset
      obtain rfl := Option.some.inj hset
      exact ih
  | setStrStr _ hset ih =>
      rw [confSetStrStr] at hset
      split_ifs at hset
      obtain rfl := Option.some.inj hset
      exact ih
  | delStrStr _ hdel ih =>
      rw [confDelStrStr] at hdel
      split_ifs at hdel
      obtain rfl := Option.some.inj hdel
      exact ih

/-- The settings of two stores that are no text are the same. -/
structure SameNumbers (gssapi : Bool) (conf conf' : Conf) : Prop where
  numbers : ∀ k ∈ confOptions, k.subkey = .none → k.value = .int ∨ k.value = .bool →
    conf'.scalar k = conf.scalar k
  items : ∀ k ∈ confOptions, k.subkey = .int → ∀ i < itemCount gssapi k,
    conf'.list k (i : Nat) = conf.list k i
  fonts : ∀ k ∈ confOptions, ∀ font, conf.scalar k = some (.font font) →
    ∃ font', conf'.scalar k = some (.font font') ∧ font'.height = font.height ∧
      font'.isbold = font.isbold ∧ font'.charset = font.charset

variable {K : Type} {plat : Platform K} {conf' : Conf}

/-- **The numbers of a session come back.** -/
theorem sameNumbers_of_reread
    (hset : ∀ k, (plat.openSettings.scalar k).isSome → (conf.scalar k).isSome)
    (h : ∀ k ∈ confOptions,
      conf'.slot k = Slot.reread plat k (conf.slot k) (plat.openSettings.slot k)) :
    SameNumbers plat.gssapi conf conf' where
  numbers k hk _ htype := by
    have hscalar : conf'.scalar k =
        ((conf.scalar k).map (rereadValue plat)).or (plat.openSettings.scalar k) :=
      congrArg Slot.scalar (h k hk)
    cases hv : conf.scalar k with
    | none =>
        have hopen : plat.openSettings.scalar k = none := by
          cases hopen : plat.openSettings.scalar k with
          | none => rfl
          | some w =>
              have hsome := hset k (by rw [hopen]; rfl)
              rw [hv] at hsome
              exact absurd hsome (by simp)
        rw [hscalar, hv, hopen]
        rfl
    | some v =>
        rw [hscalar, hv]
        have hfits := (conf.scalar_fits k v hv).2
        cases v with
        | bool b => rfl
        | int i => rfl
        | string s utf8 => rcases htype with ht | ht <;> simp [Value.Fits, ht] at hfits
        | filename fn => rcases htype with ht | ht <;> simp [Value.Fits, ht] at hfits
        | font font => rcases htype with ht | ht <;> simp [Value.Fits, ht] at hfits
  items k hk _ i hi := by
    have hlist := congrArg (fun s : Slot => s.list i) (h k hk)
    exact hlist.trans (if_pos ⟨by omega, by exact_mod_cast hi⟩)
  fonts k hk font hfont := by
    have hscalar : conf'.scalar k =
        ((conf.scalar k).map (rereadValue plat)).or (plat.openSettings.scalar k) :=
      congrArg Slot.scalar (h k hk)
    rw [hfont] at hscalar
    exact ⟨rereadFont font, hscalar, rfl, rfl, rfl⟩

end Stores

section Results

variable {K : Type} {plat : Platform K} {loads : Conf → Prop}

/-- What the program guarantees of a configuration that it writes: its sessions are
produced, with complete lists, and its actions stand under their ids. -/
structure ProducedConfig (gssapi : Bool) (loads : Conf → Prop) (cfg : QtConfig K) : Prop where
  sessions : ∀ e ∈ cfg.configList.entries,
    ∃ conf, e.2.ptr = some conf ∧ Produced loads conf ∧ Complete gssapi conf
  actions : ∀ e ∈ cfg.menuActionList.entries, e.1 = e.2.id

/-- Such a configuration can be written. -/
theorem ProducedConfig.written {cfg : QtConfig K}
    (h : ProducedConfig plat.gssapi loads cfg) : ∃ doc, writeToXML plat cfg = some doc := by
  refine writeToXML_of_parts (fun e he => ?_) h.actions
  obtain ⟨conf, hptr, -, hcomplete⟩ := h.sessions e he
  obtain ⟨settings, hwrite, -⟩ :=
    rereads_writeOptions (fun k hk => rereads_writeOption hk hcomplete) confOptions_nodup
  exact ⟨conf, settings, hptr, hwrite⟩

/-- **Everything but text comes back**: the names of the sessions, their numbers, colours
and fonts, the actions of the menus and plain host keys. -/
theorem settings_round_trip (plat : Platform K) (loads : Conf → Prop)
    (hloads : ∀ conf, loads conf → ∀ k, (conf.scalar k).isSome = (plat.openSettings.scalar k).isSome)
    (hkeys : ∀ key, plat.keys.ofString (plat.keys.toString key) = key)
    (cfg : QtConfig K) (hcfg : ProducedConfig plat.gssapi loads cfg)
    (hactions : ∀ e ∈ cfg.menuActionList.entries, e.2.id < 2 ^ 31 ∧ e.2.intData < 2 ^ 31)
    (hascii : ∀ e ∈ cfg.sshHostKeys.entries,
      (∀ b ∈ e.1, PlainByte b) ∧ ∀ b ∈ e.2.val, PlainByte b) :
    ∃ doc cfg', writeToXML plat cfg = some doc ∧
      readFromXML plat (QtConfig.empty K) doc.events = some (0, cfg') ∧
      cfg'.configList.keys = cfg.configList.keys ∧
      (∀ name conf, cfg.configList.session name = some conf →
        ∃ conf', cfg'.configList.session name = some conf' ∧ SameNumbers plat.gssapi conf conf') ∧
      cfg'.menuActionList = cfg.menuActionList ∧ cfg'.sshHostKeys = cfg.sshHostKeys := by
  obtain ⟨doc, hwrite⟩ := hcfg.written
  refine ⟨doc, rereadConfig plat cfg, hwrite, readFromXML_writeToXML hwrite,
    OrderedMap.keys_mapValues _ _, ?_, ?_, ?_⟩
  · intro name conf hsession
    obtain ⟨e, hfind, hptr⟩ := Option.bind_eq_some_iff.mp hsession
    obtain ⟨conf', hptr', hproduced, hcomplete⟩ :=
      hcfg.sessions (name, e) (OrderedMap.mem_entries.mpr hfind)
    obtain rfl : conf' = conf := Option.some.inj (hptr'.symm.trans hptr)
    obtain ⟨again, hagain, hslots⟩ := rereadConf_of_complete hcomplete
    refine ⟨again, ?_, sameNumbers_of_reread (fun k hk => ?_) hslots⟩
    · rw [ConfigList.session, rereadConfig, OrderedMap.find_mapValues, hfind]
      exact (congrArg (Option.bind · (rereadConf plat)) hptr).trans hagain
    · exact hproduced.scalar_isSome (fun c hc => (hloads c hc k).trans hk)
  · exact addActions_reread hcfg.actions fun e he =>
      rereadAction_eq (hkeys _) (hactions e he).1 (hactions e he).2
  · exact rereadHostKeys_eq hascii

theorem fits_zero : -2 ^ 31 ≤ (0 : Int) ∧ (0 : Int) < 2 ^ 31 := by decide

theorem fits_port : -2 ^ 31 ≤ (22 : Int) ∧ (22 : Int) < 2 ^ 31 := by decide

/-- Settings with zeros in all lists. -/
def zeroLists : Conf := { Conf.new with list := fun _ _ => some ⟨0, fits_zero⟩ }

/-- `CONF_port`. -/
def confPort : ConfOption := ⟨"port", .none, .int⟩

/-- The settings that are loaded, here with port 23. -/
def sampleSettings : Conf := zeroLists.set confPort (.int ⟨23, by decide⟩) ⟨rfl, rfl⟩

/-- One session, with another port, one action and one host key. -/
def oneSession : QtConfig Text where
  configList := OrderedMap.empty.insert ['a']
    ⟨['a'], some (sampleSettings.set confPort (.int ⟨22, fits_port⟩) ⟨rfl, rfl⟩)⟩
  sshHostKeys := OrderedMap.empty.insert [104] (cstr [107])
  menuActionList := OrderedMap.empty.insert 7 ⟨7, ['F', '1'], [], ['a'], 3⟩

theorem settings_round_trip_oneSession :
    ∃ doc cfg', writeToXML (plainPlatform sampleSettings) oneSession = some doc ∧
      readFromXML (plainPlatform sampleSettings) (QtConfig.empty Text) doc.events = some (0, cfg') ∧
      cfg'.configList.keys = oneSession.configList.keys ∧
      (∀ name conf, oneSession.configList.session name = some conf →
        ∃ conf', cfg'.configList.session name = some conf' ∧ SameNumbers false conf conf') ∧
      cfg'.menuActionList = oneSession.menuActionList ∧
      cfg'.sshHostKeys = oneSession.sshHostKeys := by
  have hport : Produced (· = sampleSettings)
      (sampleSettings.set confPort (.int ⟨22, fits_port⟩) ⟨rfl, rfl⟩) :=
    Produced.set (Produced.load rfl : Produced (· = sampleSettings) sampleSettings)
      (confSet_some (k := confPort) (v := .int ⟨22, fits_port⟩) ⟨rfl, rfl⟩)
  have hzero : ∀ i < 66, ∀ v, zeroLists.list confColours (i : Nat) = some v → Component v := by
    intro i _ v hv
    obtain rfl := Option.some.inj hv
    exact ⟨by decide, by decide⟩
  have hcfg : ProducedConfig false (· = sampleSettings) oneSession := by
    refine ⟨fun e he => ?_, fun e he => ?_⟩
    · obtain rfl := List.mem_singleton.mp he
      exact ⟨_, rfl, hport, fun _ _ _ _ => rfl, hzero⟩
    · obtain rfl := List.mem_singleton.mp he
      rfl
  refine settings_round_trip (plainPlatform sampleSettings) (· = sampleSettings) ?_ (fun _ => rfl)
    oneSession hcfg (fun e he => ?_) (fun e he => ?_)
  · rintro conf rfl k
    rfl
  · obtain rfl := List.mem_singleton.mp he
    decide
  · obtain rfl := List.mem_singleton.mp he
    exact ⟨List.forall_mem_singleton.mpr (by decide), List.forall_mem_singleton.mpr (by decide)⟩

end Results

end Config
end Qutty
