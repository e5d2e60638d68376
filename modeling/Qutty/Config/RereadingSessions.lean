import Qutty.Config.Rereading

/-!
# Sessions that are written and read

The dictionaries of a session, and from there on the whole: every option is written as
elements that change its slot only (`rereads_writeOption`), so a session with complete
lists comes back slot by slot (`rereadConf_of_complete`), and any session that can be
written comes back up to its lists (`rereadConf_of_written`).
-/

namespace Qutty
namespace Config

open Lib Lib.ByteOrder Lib.PullParser Menu

section Dictionaries

variable {K : Type} {plat : Platform K} {conf : Conf} {k : ConfOption}

/-- One entry of a dictionary. -/
theorem applyDictItem_writeEntry (hvalue : k.value = .str) (hsub : k.subkey = .str) (c : Conf)
    (e : CStr × CStr) :
    applyDictItem k c (writeEntry (e.1.val, e.2)) =
      some (c.setDictItem k (recode (fromUtf8 e.1.val)) (recode (fromUtf8 e.2.val))) :=
  (if_pos rfl).trans (if_pos ⟨hsub, hvalue⟩)

/-- The entries one after the other. -/
theorem rereads_entries (hvalue : k.value = .str) (hsub : k.subkey = .str)
    (es : List (CStr × CStr)) (c : Conf) :
    ∃ c', (es.map (fun e => writeEntry (e.1.val, e.2))).foldlM (applyDictItem k) c = some c' ∧
      c'.slot k = { c.slot k with dict := es.foldl rereadEntry (c.slot k).dict } ∧
      ∀ j ≠ k, c'.slot j = c.slot j := by
  induction es generalizing c with
  | nil => exact ⟨c, rfl, rfl, fun _ _ => rfl⟩
  | cons e es ih =>
      obtain ⟨c', hc', hslot, hother⟩ :=
        ih (c.setDictItem k (recode (fromUtf8 e.1.val)) (recode (fromUtf8 e.2.val)))
      refine ⟨c', ?_, ?_, fun j hj => ?_⟩
      · rw [List.map_cons, List.foldlM_cons, applyDictItem_writeEntry hvalue hsub]
        exact hc'
      · rw [hslot, slot_setDictItem, if_pos rfl]
        rfl
      · rw [hother j hj, slot_setDictItem, if_neg hj]

/-- **A dictionary is written and read.** -/
theorem rereads_dict (hk : k ∈ confOptions) (hsub : k.subkey = .str) :
    ∃ es, writeOption conf k plat = some es ∧
      Rereads k es (fun new new' => new' = Slot.reread plat k (conf.slot k) new) := by
  have hvalue : k.value = .str := by
    rcases confOptions_types k hk with ⟨h, -⟩ | ⟨h, -⟩ | ⟨-, h⟩
    · exact absurd (hsub.symm.trans h) (by decide)
    · exact absurd (hsub.symm.trans h) (by decide)
    · exact h
  have hnone : conf.scalar k = none := by
    cases hv : conf.scalar k with
    | none => rfl
    | some v => exact absurd (hsub.symm.trans (conf.scalar_fits k v hv).1) (by decide)
  refine ⟨writeSTRsSTR conf k, by simp only [writeOption, hsub, hvalue], fun c => ?_⟩
  obtain ⟨c', hc', hslot, hother⟩ := rereads_entries hvalue hsub (conf.dict k).entries c
  have hkey : (Read.of (Element.mk ⟨nameDict, [(attrKey, optionName k)]⟩
      ((conf.dict k).entries.map (fun e => writeEntry (e.1.val, e.2)))).tag).key = some k :=
    key_of_name hk rfl
  refine ⟨c', ?_, ?_, hother⟩
  · rw [writeSTRsSTR, List.foldlM_cons, applySetting_dict rfl, applyDictSTR, hkey]
    show ((((conf.dict k).entries.map (fun e => writeEntry (e.1.val, e.2))).foldlM
      (applyDictItem k) c) >>= _) = _
    rw [hc']
    rfl
  · have hlist : (fun i => if 0 ≤ i ∧ i < ((0 : Nat) : Int) then conf.list k i else c.list k i) =
        c.list k := funext fun i => if_neg (by omega)
    show c'.slot k = Slot.reread plat k (conf.slot k) (c.slot k)
    rw [hslot, Slot.reread, itemCount_of_none (by rw [hsub]; decide)]
    simp only [Conf.slot, hnone, Option.map_none, Option.none_or, hlist, hsub, if_true]

end Dictionaries

section Sessions

variable {K : Type} {plat : Platform K} {conf : Conf} {k : ConfOption}

/-- **An option is written and read.** -/
theorem rereads_writeOption (hk : k ∈ confOptions) (h : Complete plat.gssapi conf) :
    ∃ es, writeOption conf k plat = some es ∧
      Rereads k es (fun new new' => new' = Slot.reread plat k (conf.slot k) new) := by
  rcases confOptions_types k hk with ⟨hsub, hutf8⟩ | ⟨hsub, -⟩ | ⟨hsub, -⟩
  · exact rereads_scalar hk hsub hutf8
  · exact rereads_list hk hsub h
  · exact rereads_dict hk hsub

/-- The same for any list that is written, up to its items. -/
theorem rereads_of_writeOption (hk : k ∈ confOptions) {es : List (Element Tag)}
    (hwrite : writeOption conf k plat = some es) :
    Rereads k es (fun new new' =>
      ∃ l, new' = { Slot.reread plat k (conf.slot k) new with list := l }) := by
  rcases confOptions_types k hk with ⟨hsub, hutf8⟩ | ⟨hsub, hvalue⟩ | ⟨hsub, -⟩
  · obtain ⟨es', hwrite', hread⟩ := rereads_scalar hk hsub hutf8
    obtain rfl := Option.some.inj (hwrite.symm.trans hwrite')
    intro c
    obtain ⟨c', hc', hslot, hother⟩ := hread c
    exact ⟨c', hc', ⟨_, hslot⟩, hother⟩
  · have hnone : conf.scalar k = none := by
      cases hv : conf.scalar k with
      | none => rfl
      | some v => exact absurd (hsub.symm.trans (conf.scalar_fits k v hv).1) (by decide)
    simp only [writeOption, hsub, hvalue, writeINTsINT] at hwrite
    obtain ⟨items, -, rfl⟩ := Option.map_eq_some_iff.mp hwrite
    intro c
    obtain ⟨s', hs', honly⟩ := applyListItems_onlyList hk hsub items (c, 0)
    obtain ⟨l, hl⟩ := honly.slot
    have hkey : (Read.of (Element.mk ⟨nameList, [(attrKey, optionName k)]⟩ items).tag).key = some k :=
      key_of_name hk rfl
    refine ⟨s'.1, ?_, ⟨l, ?_⟩, honly.other⟩
    · rw [List.foldlM_cons, applySetting_list rfl, applyLIST, hkey]
      show ((items.foldlM (applyListItem k) (c, 0)).map Prod.fst) >>= _ = _
      rw [hs']
      rfl
    · rw [hl, Slot.reread]
      simp only [Conf.slot, hnone, hsub, Option.map_none, Option.none_or, reduceCtorEq, if_false]
  · obtain ⟨es', hwrite', hread⟩ := rereads_dict hk hsub
    obtain rfl := Option.some.inj (hwrite.symm.trans hwrite')
    intro c
    obtain ⟨c', hc', hslot, hother⟩ := hread c
    exact ⟨c', hc', ⟨_, hslot⟩, hother⟩

/-- **Options one after the other**: each one changes its own slot. -/
theorem rereads_writeOptions {change : ConfOption → Slot → Slot → Prop} {ks : List ConfOption}
    (h : ∀ k ∈ ks, ∃ es, writeOption conf k plat = some es ∧ Rereads k es (change k))
    (hnodup : ks.Nodup) :
    ∃ es, writeOptions plat conf ks = some es ∧ ∀ c, ∃ c', es.foldlM applySetting c = some c' ∧
      (∀ k ∈ ks, change k (c.slot k) (c'.slot k)) ∧ ∀ k ∉ ks, c'.slot k = c.slot k := by
  induction ks with
  | nil => exact ⟨[], rfl, fun c => ⟨c, rfl, by simp, fun _ _ => rfl⟩⟩
  | cons k ks ih =>
      rw [List.nodup_cons] at hnodup
      obtain ⟨first, hfirst, hread⟩ := h k (by simp)
      obtain ⟨rest, hrest, hreadRest⟩ := ih (fun j hj => h j (by simp [hj])) hnodup.2
      refine ⟨first ++ rest, ?_, fun c => ?_⟩
      · rw [writeOptions, hfirst, hrest]
        rfl
      · obtain ⟨c', hc', hslot, hother⟩ := hread c
        obtain ⟨c'', hc'', hin, hout⟩ := hreadRest c'
        refine ⟨c'', ?_, fun j hj => ?_, fun j hj => ?_⟩
        · rw [List.foldlM_append, hc']
          exact hc''
        · rcases List.mem_cons.mp hj with rfl | hj
          · rw [hout j hnodup.1]
            exact hslot
          · have hne : j ≠ k := fun heq => hnodup.1 (heq ▸ hj)
            rw [← hother j hne]
            exact hin j hj
        · rw [List.mem_cons, not_or] at hj
          rw [hout j hj.2, hother j hj.1]

/-- Options that are written were written one by one. -/
theorem writeOption_of_writeOptions {ks : List ConfOption} {settings : List (Element Tag)}
    (h : writeOptions plat conf ks = some settings) :
    ∀ k ∈ ks, ∃ es, writeOption conf k plat = some es := by
  induction ks generalizing settings with
  | nil => simp
  | cons k ks ih =>
      rw [writeOptions, Option.bind_eq_bind, Option.bind_eq_some_iff] at h
      obtain ⟨first, hfirst, h⟩ := h
      obtain ⟨rest, hrest, -⟩ := Option.bind_eq_some_iff.mp h
      intro j hj
      rcases List.mem_cons.mp hj with rfl | hj
      · exact ⟨first, hfirst⟩
      · exact ih hrest j hj

variable (plat conf) in
/-- A session that is written and read; none where the writer or the reader aborts. -/
def rereadConf : Option Conf :=
  (writeOptions plat conf confOptions).bind
    (fun settings => settings.foldlM applySetting plat.openSettings)

/-- **A session with complete lists is written and read.** -/
theorem rereadConf_of_complete (h : Complete plat.gssapi conf) :
    ∃ conf', rereadConf plat conf = some conf' ∧ ∀ k ∈ confOptions,
      conf'.slot k = Slot.reread plat k (conf.slot k) (plat.openSettings.slot k) := by
  obtain ⟨settings, hwrite, hread⟩ :=
    rereads_writeOptions (fun k hk => rereads_writeOption hk h) confOptions_nodup
  obtain ⟨conf', hconf', hin, -⟩ := hread plat.openSettings
  exact ⟨conf', by rw [rereadConf, hwrite]; exact hconf', hin⟩

/-- **Whatever session is written, it is read**, with its lists aside. -/
theorem rereadConf_of_written {settings : List (Element Tag)}
    (h : writeOptions plat conf confOptions = some settings) :
    ∃ conf', rereadConf plat conf = some conf' ∧ ∀ k ∈ confOptions, ∃ l, conf'.slot k =
      { Slot.reread plat k (conf.slot k) (plat.openSettings.slot k) with list := l } := by
  obtain ⟨settings', hwrite, hread⟩ := rereads_writeOptions (fun k hk => by
    obtain ⟨es, hes⟩ := writeOption_of_writeOptions h k hk
    exact ⟨es, hes, rereads_of_writeOption hk hes⟩) confOptions_nodup
  obtain ⟨conf', hconf', hin, -⟩ := hread plat.openSettings
  exact ⟨conf', by rw [rereadConf, hwrite]; exact hconf', hin⟩

end Sessions

end Config
end Qutty
