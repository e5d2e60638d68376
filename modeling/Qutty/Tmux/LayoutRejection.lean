import Qutty.Tmux.LayoutDump
import Qutty.Tmux.Realisation

/-!
# Layouts that are rejected

`createNewWindow` and `%layout-change` on a layout of any form.  The parser works on the
entry of `_mapLayout` in place, which `operator[]` has made if it was not there, and
`substr(5)` throws for a text that is too short.

`Accepted` are the texts that `initLayout` accepts (`initLayout_iff`).  A text that it
rejects leaves an object as it was only if the object is of type NONE and already has
what the text puts into it (`Settled`).  So a layout that is not well formed is dealt
with cleanly exactly if it is rejected by an entry that an earlier rejection has
left in this state (`cleanly_iff`).
-/

namespace Qutty
namespace Tmux

open Lib Lib.Istream

namespace TmuxLayout

section Acceptance

/-- A text is accepted: a pane without its number, or what the parser takes. -/
def Accepted (text : List UInt8) : Prop :=
  Cut text ∨ ∃ sound rest, Takes .layout true sound text rest

theorem initLayout_iff (text : List UInt8) :
    (init.initLayout text).1 = true ↔ Accepted text := by
  constructor
  · intro h
    cases initLayout_outcome text with
    | took sound rest hs htakes _ =>
        rw [h] at htakes
        exact .inr ⟨sound, rest, htakes⟩
    | stuck _ _ hcut => exact .inl (hcut h).2
  · rintro (⟨width, height, x, y, t, hdims, -⟩ | ⟨sound, rest, htakes⟩)
    · exact (initLayout_of_cut hdims).1
    · cases initLayout_outcome text with
      | took sound' rest' hs htakes' _ => exact (htakes.unique htakes').1.symm
      | stuck _ hnone _ => exact absurd htakes (hnone _ _ _)

/-- What an object holds does not matter for the verdict. -/
theorem initLayout_verdict (l : TmuxLayout) (text : List UInt8) :
    (l.initLayout text).1 = (init.initLayout text).1 := by
  have hfuel : 2 * text.length + 2 = (2 * text.length + 1) + 1 := rfl
  have hverdict : ∀ l : TmuxLayout, (l.initLayout text).1 =
      (parseLayout (2 * text.length + 1 + 1) l (.ofString text)).1 := fun _ => rfl
  rcases dimsCase (2 * text.length + 1) l (ready_ofString text) with
    ⟨width, height, x, y, rest, s, htext, hs, hout⟩ | ⟨rest, htext, hok, -⟩ | ⟨htext, hok, -⟩
  · rcases dimsCase (2 * text.length + 1) init (ready_ofString text) with
      ⟨width', height', x', y', rest', s', htext', hs', hout'⟩ | ⟨rest', htext', -⟩ | ⟨htext', -⟩
    · rw [htext] at htext'
      cases htext'
      rw [hverdict, hverdict, hout, hout']
      cases rest with
      | nil => rw [(parseKind_nil _ _ hs).1, (parseKind_nil _ _ hs').1]
      | cons c t =>
          by_cases hc : c = octetOf ','
          · subst hc
            rw [parseKind_comma _ _ hs, parseKind_comma _ _ hs']
          · cases ho : isOpen c with
            | false =>
                rw [parseKind_other _ _ ho hc hs, parseKind_other _ _ ho hc hs']
                rfl
            | true =>
                rw [parseKind_open _ _ ho hs, parseKind_open _ _ ho hs', parseLayoutChildren_eq]
                dsimp only
                rw [show init.child = [] from rfl]
                split_ifs <;> rfl
    · rw [htext] at htext'
      cases htext'
    · rw [htext] at htext'
      cases htext'
  · rcases dimsCase (2 * text.length + 1) init (ready_ofString text) with
      ⟨width', height', x', y', rest', s', htext', -⟩ | ⟨rest', htext', hok', -⟩ | ⟨htext', -⟩
    · rw [htext] at htext'
      cases htext'
    · rw [hverdict, hverdict, hok, hok']
    · rw [htext] at htext'
      cases htext'
  · rcases dimsCase (2 * text.length + 1) init (ready_ofString text) with
      ⟨width', height', x', y', rest', s', htext', -⟩ | ⟨rest', htext', -⟩ | ⟨-, hok', -⟩
    · rw [htext] at htext'
      cases htext'
    · rw [htext] at htext'
      cases htext'
    · rw [hverdict, hverdict, hok, hok']

end Acceptance

section Rejection

/-- Reading the number at the start of a text gives the old value. -/
def Holds (old : Nat) (text : List UInt8) : Prop :=
  (readUnsignedInto old (ofString text)).1 = old

/-- The first child that is read is not followed by a separator. -/
def Lost (text : List UInt8) : Prop :=
  ∀ ok sound c rest, Takes .layout ok sound text (c :: rest) →
    isClose c = false ∧ c ≠ octetOf ','

/-- An object of type NONE has the numbers that a text begins with, as far as they are
there, and the text adds no child. -/
def Settled (l : TmuxLayout) (text : List UInt8) : Prop :=
  l.layoutType = .none ∧ Holds l.width text ∧
    ∀ width t₁, unsignedAt text = some (width, octetOf 'x' :: t₁) → Holds l.height t₁ ∧
      ∀ height t₂, unsignedAt t₁ = some (height, octetOf ',' :: t₂) → Holds l.x t₂ ∧
        ∀ x t₃, unsignedAt t₂ = some (x, octetOf ',' :: t₃) → Holds l.y t₃ ∧
          ∀ y o t, unsignedAt t₃ = some (y, o :: t) → isOpen o = true → Lost t

/-- The children that a failing loop has added. -/
theorem children_eq_nil_iff {n : Nat} {t : List UInt8} (hn : 2 * t.length + 3 ≤ n)
    (hfail : (parseLayoutChildren n [] ⟨t, false, false⟩).1 = false) :
    (parseLayoutChildren n [] ⟨t, false, false⟩).2.1 = [] ↔ Lost t := by
  obtain ⟨n, rfl⟩ : ∃ m, n = m + 1 := ⟨n - 1, by omega⟩
  have hout := (parse_outcome n).1 init _ t rfl (ready_mk_false t) (by omega)
  generalize hchild : parseLayout n init ⟨t, false, false⟩ = child at hout
  obtain ⟨ok, l, s⟩ := child
  cases hout with
  | took sound rest hs htakes _ =>
      cases rest with
      | nil =>
          have hget := hs.get_nil.1
          refine iff_of_true ?_ (fun ok' sound' c rest' h => ?_)
          · rw [parseLayoutChildren_succ, hchild]
            simp [hget]
          · have hrest := (htakes.unique h).2.2
            cases hrest
      | cons c rest =>
          cases hc : isClose c with
          | true =>
              rw [parseLayoutChildren_close hchild hs hc] at hfail
              cases hfail
          | false =>
              by_cases hcomma : c = octetOf ','
              · subst hcomma
                rw [parseLayoutChildren_comma hchild hs, parseLayoutChildren_eq]
                refine iff_of_false (by simp) (fun h => ?_)
                exact (h _ _ _ _ htakes).2 rfl
              · rw [parseLayoutChildren_other hchild hs hc hcomma]
                refine iff_of_true rfl (fun ok' sound' c' rest' h => ?_)
                have hrest := (htakes.unique h).2.2
                cases hrest
                exact ⟨hc, hcomma⟩
  | stuck hsfail hnone _ =>
      have hget : s.get.1 = none := by rw [get_of_fail hsfail]
      refine iff_of_true ?_ (fun ok' sound' c rest' h => absurd h (hnone _ _ _))
      rw [parseLayoutChildren_succ, hchild]
      simp [hget]

/-- What is not a split is rejected as it is. -/
theorem parseKind_rejected (n : Nat) (l : TmuxLayout) (s : Istream)
    (hpeek : ∀ o, s.peek.1 = some o → isOpen o = false) (hno : (parseKind n l s).1 = false) :
    (parseKind n l s).2.1 = { l with layoutType := .none } := by
  have hcond : ¬ (s.peek.1 = some (octetOf '\x7b') ∨ s.peek.1 = some (octetOf '[')) := by
    rintro (h | h)
    · exact absurd (hpeek _ h) (by decide)
    · exact absurd (hpeek _ h) (by decide)
  rw [parseKind] at hno ⊢
  simp only [if_neg hcond] at hno ⊢
  split_ifs at hno ⊢
  rfl

theorem peek_nil {s : Istream} (h : s.Ready []) : s.peek.1 = none := by
  rw [peek]
  split_ifs
  · rw [h.rest]
  · rfl

/-- Whether a field is followed by its character, and whether it then is as before. -/
inductive FieldStep (c : UInt8) (old : Nat) (text : List UInt8) : Prop
  | found (v : Nat) (rest : List UInt8) (htext : unsignedAt text = some (v, c :: rest))
      (hout : readField old (ofString text) = (v, some c, ofString rest))
      (hold : v = old ↔ Holds old text)
  | stopped (v : Nat) (d : Option UInt8) (s : Istream)
      (htext : ∀ v rest, unsignedAt text ≠ some (v, c :: rest)) (hd : d ≠ some c)
      (hout : readField old (ofString text) = (v, d, s)) (hold : v = old ↔ Holds old text)

theorem fieldStep (c : UInt8) (old : Nat) (text : List UInt8) : FieldStep c old text := by
  have hold : ∀ {v : Nat} {d : Option UInt8} {s : Istream},
      readField old (ofString text) = (v, d, s) → (v = old ↔ Holds old text) := by
    intro v d s hout
    have hv : (readField old (ofString text)).1 = v := by rw [hout]
    rw [← hv]
    rfl
  rcases fieldCase c old (ready_ofString text) with
    ⟨v, rest, htext, hout⟩ | ⟨v, d, rest, hd, htext, hout⟩ | ⟨htext, hchar, -⟩
  · exact .found v rest htext hout (hold hout)
  · refine .stopped v (some d) _ (fun v' rest' h => ?_) (by simpa using hd) hout (hold hout)
    rw [htext] at h
    cases h
    exact hd rfl
  · generalize hout : readField old (ofString text) = out at hchar
    obtain ⟨v, d, s⟩ := out
    refine .stopped v d s (fun v' rest' => htext v' c rest') ?_ hout (hold hout)
    rw [show d = none from hchar]
    simp

/-- What is rejected behind the four numbers: the children that were read are added. -/
theorem parseKind_adds {n : Nat} (l : TmuxLayout) (old : Nat) (text : List UInt8)
    (hn : 2 * text.length + 1 ≤ n)
    (hno : (parseKind n l ((ofString text).readUnsignedInto old).2).1 = false) :
    ∃ new, (parseKind n l ((ofString text).readUnsignedInto old).2).2.1 =
        { l with layoutType := .none, child := l.child ++ new } ∧
      (new = [] ↔ ∀ y o t, unsignedAt text = some (y, o :: t) → isOpen o = true → Lost t) := by
  have hplain : (∀ o, ((ofString text).readUnsignedInto old).2.peek.1 = some o → isOpen o = false) →
      (∀ y o t, unsignedAt text = some (y, o :: t) → isOpen o = false) →
      ∃ new, (parseKind n l ((ofString text).readUnsignedInto old).2).2.1 =
          { l with layoutType := .none, child := l.child ++ new } ∧
        (new = [] ↔ ∀ y o t, unsignedAt text = some (y, o :: t) → isOpen o = true → Lost t) := by
    intro hpeek hkind
    refine ⟨[], ?_, iff_of_true rfl (fun y o t h ho => ?_)⟩
    · rw [parseKind_rejected n l _ hpeek hno, List.append_nil]
    · rw [hkind y o t h] at ho
      cases ho
  rcases Option.eq_none_or_eq_some (unsignedAt text) with htext | ⟨⟨y, rest⟩, htext⟩
  · have hfail := (ready_ofString text).readUnsignedInto_none htext old
    refine hplain (fun o h => ?_) (fun y o t h => ?_)
    · rw [peek_of_fail hfail] at h
      cases h
    · rw [htext] at h
      cases h
  · obtain ⟨-, hs⟩ := (ready_ofString text).readUnsignedInto_some htext old
    cases rest with
    | nil =>
        refine hplain (fun o h => ?_) (fun y o t h => ?_)
        · rw [peek_nil hs] at h
          cases h
        · rw [htext] at h
          cases h
    | cons c t =>
        cases hc : isOpen c with
        | false =>
            refine hplain (fun o h => ?_) (fun y o t h => ?_)
            · rw [hs.peek_cons] at h
              cases h
              exact hc
            · rw [htext] at h
              cases h
              exact hc
        | true =>
            have hlen := length_unsignedAt htext
            rw [List.length_cons] at hlen
            rw [parseKind_open n l hc hs, parseLayoutChildren_eq] at hno ⊢
            dsimp only at hno ⊢
            cases hok : (parseLayoutChildren n [] ⟨t, false, false⟩).1 with
            | true => simp [hok] at hno
            | false =>
                refine ⟨(parseLayoutChildren n [] ⟨t, false, false⟩).2.1, ?_, ?_⟩
                · simp [rejected]
                · rw [children_eq_nil_iff (by omega) hok]
                  constructor
                  · intro h y' o' t' h' _
                    rw [htext] at h'
                    cases h'
                    exact h
                  · exact fun h => h y c t htext hc

section Found

variable {c : UInt8} {v : Nat} {text rest : List UInt8} {P : Nat → List UInt8 → Prop}

theorem forall_found (h : unsignedAt text = some (v, c :: rest)) :
    (∀ v' rest', unsignedAt text = some (v', c :: rest') → P v' rest') ↔ P v rest := by
  constructor
  · exact fun hall => hall v rest h
  · intro hp v' rest' h'
    rw [h] at h'
    cases h'
    exact hp

theorem forall_stopped (h : ∀ v rest, unsignedAt text ≠ some (v, c :: rest)) :
    (∀ v' rest', unsignedAt text = some (v', c :: rest') → P v' rest') ↔ True :=
  iff_true_intro (fun v' rest' h' => absurd h' (h v' rest'))

end Found

/-- **A text that is rejected leaves an object as it was** exactly if it is settled. -/
theorem initLayout_eq_self_iff (l : TmuxLayout) (text : List UInt8)
    (hno : (l.initLayout text).1 = false) : (l.initLayout text).2 = l ↔ Settled l text := by
  have hinit : l.initLayout text =
      ((parseLayout (2 * text.length + 1 + 1) l (.ofString text)).1,
        (parseLayout (2 * text.length + 1 + 1) l (.ofString text)).2.1) := rfl
  obtain ⟨width, height, x, y, paneid, type, child⟩ := l
  rw [hinit] at hno ⊢
  rw [parseLayout] at hno ⊢
  rw [Settled]
  dsimp only
  rcases fieldStep (octetOf 'x') width text with
    ⟨width', t₁, hw, hout, hold⟩ | ⟨width', d, s, hw, hd, hout, hold⟩
  · rw [forall_found hw, ← hold]
    simp only [hout, ne_eq, not_true_eq_false, if_false] at hno ⊢
    rcases fieldStep (octetOf ',') height t₁ with
      ⟨height', t₂, hh, hout', hold'⟩ | ⟨height', d, s, hh, hd, hout', hold'⟩
    · rw [forall_found hh, ← hold']
      simp only [hout', not_true_eq_false, if_false] at hno ⊢
      rcases fieldStep (octetOf ',') x t₂ with
        ⟨x', t₃, hx, hout', hold'⟩ | ⟨x', d, s, hx, hd, hout', hold'⟩
      · rw [forall_found hx, ← hold']
        simp only [hout', not_true_eq_false, if_false] at hno ⊢
        have hlen₁ := length_unsignedAt hw
        have hlen₂ := length_unsignedAt hh
        have hlen₃ := length_unsignedAt hx
        rw [List.length_cons] at hlen₁ hlen₂ hlen₃
        obtain ⟨new, hobject, hnew⟩ := parseKind_adds
          ⟨width', height', x', ((ofString t₃).readUnsignedInto y).1, paneid, type, child⟩ y t₃
          (n := 2 * text.length + 1) (by omega) hno
        rw [← hnew]
        refine (iff_of_eq (congrArg (· = _) hobject)).trans ?_
        simp only [TmuxLayout.mk.injEq, List.append_right_eq_self, true_and]
        have hy : Holds y t₃ ↔ ((ofString t₃).readUnsignedInto y).1 = y := Iff.rfl
        rw [hy]
        constructor
        · rintro ⟨hw, hh, hx, hy, ht, hc⟩
          exact ⟨ht.symm, hw, hh, hx, hy, hc⟩
        · rintro ⟨ht, hw, hh, hx, hy, hc⟩
          exact ⟨hw, hh, hx, hy, ht.symm, hc⟩
      · rw [forall_stopped hx, ← hold']
        simp only [hout', hd, not_false_eq_true, if_true, rejected, TmuxLayout.mk.injEq,
          true_and, and_true]
        constructor
        · rintro ⟨hw, hh, hx, ht⟩
          exact ⟨ht.symm, hw, hh, hx⟩
        · rintro ⟨ht, hw, hh, hx⟩
          exact ⟨hw, hh, hx, ht.symm⟩
    · rw [forall_stopped hh, ← hold']
      simp only [hout', hd, not_false_eq_true, if_true, rejected, TmuxLayout.mk.injEq,
        true_and, and_true]
      constructor
      · rintro ⟨hw, hh, ht⟩
        exact ⟨ht.symm, hw, hh⟩
      · rintro ⟨ht, hw, hh⟩
        exact ⟨hw, hh, ht.symm⟩
  · rw [forall_stopped hw, ← hold]
    simp only [hout, ne_eq, hd, not_false_eq_true, if_true, rejected, TmuxLayout.mk.injEq,
      true_and, and_true]
    constructor
    · rintro ⟨hw, ht⟩
      exact ⟨ht.symm, hw⟩
    · rintro ⟨ht, hw⟩
      exact ⟨hw, ht.symm⟩

end Rejection

end TmuxLayout

section Windows

open TmuxLayout

/-- A layout of tmux: a checksum, a comma and a sentence of the grammar.  The first five
characters are not looked at. -/
def WellFormed (layout : List UInt8) : Prop :=
  5 ≤ layout.length ∧ Grammar .layout (layout.drop 5)

/-- The entry of `_mapLayout` that `operator[]` gives. -/
def layoutEntry (id : Int) (c : Client) : TmuxLayout := (c.mapLayout.find id).getD .init

/-- The value that `createNewWindow` returns; `none` is the exception of `substr`. -/
def createNewWindowReturns (id : Int) (layout : List UInt8) (c : Client) : Option Int :=
  if layout.length < 5 then none
  else if ((layoutEntry id c).initLayout (layout.drop 5)).1 then some 0
  else some (-1)

variable (plat : Platform) (id : Int) (name : List UInt8)

/-- `createNewWindow` does not throw, and returns `-1` with everything as before if the
layout is not well formed. -/
structure RejectsCleanly (layout : List UInt8) (c : Client) : Prop where
  returned : createNewWindowReturns id layout c ≠ none
  rejected : ¬ WellFormed layout → createNewWindowReturns id layout c = some (-1)
  mapLayout : ¬ WellFormed layout →
    (createNewWindow plat id name layout c).1.mapLayout = c.mapLayout
  mapPanes : ¬ WellFormed layout →
    (createNewWindow plat id name layout c).1.mapPanes = c.mapPanes
  main : ¬ WellFormed layout → (createNewWindow plat id name layout c).1.main = c.main
  commands : ¬ WellFormed layout → (createNewWindow plat id name layout c).2 = []

/-- `cmd_hdlr_layout_change` does not throw, and changes nothing. -/
structure IgnoresLayout (line : List UInt8) (c : Client) : Prop where
  returned : (cmdHdlrLayoutChange plat line c).stopped = false
  mapLayout : (cmdHdlrLayoutChange plat line c).mapLayout = c.mapLayout
  mapPanes : (cmdHdlrLayoutChange plat line c).mapPanes = c.mapPanes
  main : (cmdHdlrLayoutChange plat line c).main = c.main

/-- An earlier rejection has left what this one leaves. -/
def LeftBefore (layout : List UInt8) (c : Client) : Prop :=
  5 ≤ layout.length ∧ ¬ Accepted (layout.drop 5) ∧
    ∃ l, c.mapLayout.find id = some l ∧ Settled l (layout.drop 5)

/-- Behind an `@` there are a number and a word that is long enough. -/
def LayoutGiven (line : List UInt8) (c : Client) : Prop :=
  ∀ t, commandText line 15 c = octetOf '@' :: t →
    ∃ v t' w rest, intAt t = some (v, t') ∧ wordAt t' = some (w, rest) ∧ 5 ≤ w.length

/-- A layout that the parser rejects: the entry is left as the parser has changed it. -/
theorem createNewWindow_rejected {layout : List UInt8} {c : Client} (hlen : 5 ≤ layout.length)
    (hno : ((layoutEntry id c).initLayout (layout.drop 5)).1 = false) :
    createNewWindow plat id name layout c =
      ({ c with
        mapLayout := c.mapLayout.insert id ((layoutEntry id c).initLayout (layout.drop 5)).2 },
        []) ∧
    createNewWindowReturns id layout c = some (-1) := by
  have hshort : ¬ layout.length < 5 := by omega
  rw [layoutEntry] at hno ⊢
  rw [createNewWindow, createNewWindowReturns, if_neg hshort, if_neg hshort, layoutEntry]
  simp [hno]

/-- Rejecting a layout keeps the layouts exactly if the entry is there, and settled. -/
theorem insert_initLayout_iff {layout : List UInt8} {c : Client}
    (hno : ((layoutEntry id c).initLayout (layout.drop 5)).1 = false) :
    c.mapLayout.insert id ((layoutEntry id c).initLayout (layout.drop 5)).2 =
      c.mapLayout ↔ ∃ l, c.mapLayout.find id = some l ∧ Settled l (layout.drop 5) := by
  rw [OrderedMap.insert_eq_self_iff]
  rw [layoutEntry] at hno ⊢
  cases hfind : c.mapLayout.find id with
  | none => simp
  | some l =>
      rw [hfind, Option.getD_some] at hno
      rw [Option.getD_some, Option.some.injEq, eq_comm, initLayout_eq_self_iff l _ hno]
      simp

theorem rejectsCleanly_iff (layout : List UInt8) (c : Client) :
    RejectsCleanly plat id name layout c ↔ WellFormed layout ∨ LeftBefore id layout c := by
  have haccepted : ((layoutEntry id c).initLayout (layout.drop 5)).1 = true ↔
      Accepted (layout.drop 5) := by
    rw [initLayout_verdict, initLayout_iff]
  constructor
  · intro h
    by_cases hwell : WellFormed layout
    · exact .inl hwell
    · have hreturn := h.rejected hwell
      have hmap := h.mapLayout hwell
      rw [createNewWindowReturns] at hreturn
      split_ifs at hreturn with hlen hok
      · exact absurd hreturn (by simp)
      · have hno := Bool.eq_false_iff.mpr hok
        rw [(createNewWindow_rejected plat id name (not_lt.mp hlen) hno).1] at hmap
        exact .inr ⟨not_lt.mp hlen, fun h => hok (haccepted.mpr h),
          (insert_initLayout_iff id hno).mp hmap⟩
  · rintro (hwell | ⟨hlen, hno, hleft⟩)
    · have hlen : ¬ layout.length < 5 := not_lt.mpr hwell.1
      have hreturned : createNewWindowReturns id layout c ≠ none := by
        rw [createNewWindowReturns, if_neg hlen]
        split_ifs <;> simp
      exact ⟨hreturned, (absurd hwell ·), (absurd hwell ·), (absurd hwell ·), (absurd hwell ·),
        (absurd hwell ·)⟩
    · have hreject := Bool.eq_false_iff.mpr (fun h => hno (haccepted.mp h))
      obtain ⟨hout, hreturn⟩ := createNewWindow_rejected plat id name hlen hreject
      have hmap := (insert_initLayout_iff id hreject).mpr hleft
      rw [hmap] at hout
      refine ⟨by rw [hreturn]; simp, fun _ => hreturn, ?_, ?_, ?_, ?_⟩ <;>
        exact fun _ => by rw [hout]

theorem ignoresLayout_iff (line : List UInt8) (c : Client) (hrun : c.stopped = false) :
    IgnoresLayout plat line c ↔ LayoutGiven line c := by
  have hout : cmdHdlrLayoutChange plat line c = c ∨
      cmdHdlrLayoutChange plat line c = { c with stopped := true } := by
    rw [cmdHdlrLayoutChange]
    dsimp only
    split_ifs
    · exact .inl rfl
    · exact .inr rfl
    · exact .inl rfl
  have hiff : IgnoresLayout plat line c ↔ (cmdHdlrLayoutChange plat line c).stopped = false := by
    refine ⟨fun h => h.returned, fun h => ?_⟩
    rcases hout with hout | hout
    · rw [hout] at h
      exact ⟨by rw [hout, h], by rw [hout], by rw [hout], by rw [hout]⟩
    · rw [hout] at h
      cases h
  rw [hiff, cmdHdlrLayoutChange, LayoutGiven]
  cases htext : commandText line 15 c with
  | nil =>
      obtain ⟨hchar, -⟩ := (ready_ofString []).get_nil
      simp [hchar, hrun]
  | cons d t =>
      rw [(ready_ofString (d :: t)).get_cons]
      dsimp only
      by_cases hd : d = octetOf '@'
      · subst hd
        have hready := ready_mk_false t
        simp only [ne_eq, not_true_eq_false, if_false, List.cons.injEq, true_and, forall_eq']
        cases hint : intAt t with
        | none =>
            have hfail := hready.readIntInto_none hint plat.anyInt
            rw [(readWordInto_of_fail hfail []).1]
            simp
        | some r =>
            obtain ⟨v, t'⟩ := r
            rw [hready.readIntInto_some hint]
            cases hword : wordAt t' with
            | none =>
                rw [((ready_mk t').readWordInto_none hword []).1]
                simp [hword]
            | some r =>
                obtain ⟨w, rest⟩ := r
                rw [(ready_mk t').readWordInto_some hword]
                by_cases hlen : w.length < 5
                · simp [hword, hlen]
                · simp [hword, hrun, hlen, not_lt.mp hlen]
      · simp [hd, hrun]

/-- **Which malformed layouts are dealt with cleanly**: those that an earlier rejection has
left its traces of, and of the lines those with a number and a long enough word. -/
theorem cleanly_iff (layout line : List UInt8) (c : Client) (hrun : c.stopped = false) :
    (RejectsCleanly plat id name layout c ↔ WellFormed layout ∨ LeftBefore id layout c) ∧
    (IgnoresLayout plat line c ↔ LayoutGiven line c) :=
  ⟨rejectsCleanly_iff plat id name layout c, ignoresLayout_iff plat line c hrun⟩

/-- A layout and a line for a new gateway. -/
theorem cleanly_iff_new :
    let layout := ascii "0000,78x28,0,0".toList
    let line := ascii "%layout-change @1 0000,78x28,0,0\n".toList
    let c := Client.init plainPlatform .init
    (RejectsCleanly plainPlatform 1 [] layout c ↔ WellFormed layout ∨ LeftBefore 1 layout c) ∧
    (IgnoresLayout plainPlatform line c ↔ LayoutGiven line c) :=
  cleanly_iff plainPlatform 1 [] _ _ _ rfl

/-- The empty layout makes `substr` throw, and a line without a layout does so as well. -/
theorem empty_layout_throws :
    (¬ ∀ (plat : Platform) (id : Int) (name layout : List UInt8) (c : Client),
      c.stopped = false → RejectsCleanly plat id name layout c) ∧
    ¬ ∀ (plat : Platform) (line : List UInt8) (c : Client),
      c.stopped = false → IgnoresLayout plat line c := by
  constructor
  · intro h
    have hclean := h plainPlatform 1 [] [] (Client.init plainPlatform .init) rfl
    exact hclean.returned rfl
  · intro h
    have hline := h plainPlatform (ascii "%layout-change @1\n".toList)
      (Client.init plainPlatform .init) rfl
    have hstopped : (cmdHdlrLayoutChange plainPlatform (ascii "%layout-change @1\n".toList)
        (Client.init plainPlatform .init)).stopped = true := by decide +kernel
    rw [hline.returned] at hstopped
    cases hstopped

end Windows

end Tmux
end Qutty
