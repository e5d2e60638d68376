import Qutty.Tmux.Client
import Qutty.Tmux.LayoutGrammar

/-!
# What the layout parser accepts

`Takes` describes the layout parser on texts: which part of a text it uses up, with
which verdict, and whether that part is sound.  A child that breaks off at a wrong
character leaves the stream readable; the loop over the children does not ask for
its verdict and goes on behind it, and it takes either closing bracket.  The
number of a pane is not checked either, which matters only at the end of a text.

* `parse_outcome`: the parser does what `Takes` says, or its stream has failed;
* `Takes.unique`: there is only one way to take a text;
* `takes_of_grammar`, `grammar_of_takes`: what is taken soundly is the grammar.

So a text is accepted although it is not a layout exactly if it is `Misread`.
-/

namespace Qutty
namespace Tmux
namespace TmuxLayout

open Lib Lib.Istream

/-- A layout, or the children of a split behind their opening bracket. -/
inductive Mode where
  | layout
  | children (o : UInt8)

/-- How the parser takes the text in front of `rest`: its verdict, and whether the
text is sound, with whole children and matching brackets. -/
inductive Takes : Mode → (ok sound : Bool) → List UInt8 → List UInt8 → Prop
  | pane {width height x y p : Nat} {text t rest : List UInt8}
      (hdims : dims text = .read width height x y (octetOf ',' :: t))
      (hid : unsignedAt t = some (p, rest)) : Takes .layout true true text rest
  | split {width height x y : Nat} {o : UInt8} {text t rest : List UInt8} {ok sound : Bool}
      (hdims : dims text = .read width height x y (o :: t)) (ho : isOpen o = true)
      (hchildren : Takes (.children o) ok sound t rest) : Takes .layout ok sound text rest
  | brokenDims {text rest : List UInt8} (hdims : dims text = .broke rest) :
      Takes .layout false false text rest
  | brokenKind {width height x y : Nat} {c : UInt8} {text rest : List UInt8}
      (hdims : dims text = .read width height x y (c :: rest)) (ho : isOpen c = false)
      (hc : c ≠ octetOf ',') : Takes .layout false false text rest
  | last {o c : UInt8} {text rest : List UInt8} {ok sound : Bool}
      (hchild : Takes .layout ok sound text (c :: rest)) (hc : isClose c = true) :
      Takes (.children o) true (ok && sound && c == closing o) text rest
  | more {o : UInt8} {text t rest : List UInt8} {ok sound ok' sound' : Bool}
      (hchild : Takes .layout ok sound text (octetOf ',' :: t))
      (hmore : Takes (.children o) ok' sound' t rest) :
      Takes (.children o) ok' (ok && sound && sound') text rest
  | stop {o c : UInt8} {text rest : List UInt8} {ok sound : Bool}
      (hchild : Takes .layout ok sound text (c :: rest)) (hc : isClose c = false)
      (hcomma : c ≠ octetOf ',') : Takes (.children o) false false text rest

/-- The number of a pane is missing, or too large. -/
def Cut (text : List UInt8) : Prop :=
  ∃ width height x y t, dims text = .read width height x y (octetOf ',' :: t) ∧
    unsignedAt t = none

/-- The text begins with something that the parser accepts and that is no layout:
a pane without its number, or a split in which a bracket is closed by the other
one or a child breaks off. -/
def Misread (text : List UInt8) : Prop :=
  Cut text ∨ ∃ rest, Takes .layout true false text rest

/-- A number, as a stream reads it: blanks, a sign, and digits of a value that fits. -/
def IsNumber (w : List UInt8) : Prop := ∃ v, unsignedAt w = some (v, [])

/-- Four numbers in front of something. -/
def withDims (a b c d rest : List UInt8) : List UInt8 :=
  a ++ octetOf 'x' :: (b ++ octetOf ',' :: (c ++ octetOf ',' :: (d ++ rest)))

/-- **The grammar of layouts**: every bracket is closed by its own, and every child is
a whole layout. -/
inductive Grammar : Mode → List UInt8 → Prop
  | pane {a b c d e : List UInt8} (ha : IsNumber a) (hb : IsNumber b) (hc : IsNumber c)
      (hd : IsNumber d) (he : IsNumber e) : Grammar .layout (withDims a b c d (octetOf ',' :: e))
  | split {a b c d t : List UInt8} {o : UInt8} (ha : IsNumber a) (hb : IsNumber b)
      (hc : IsNumber c) (hd : IsNumber d) (ho : isOpen o = true)
      (ht : Grammar (.children o) t) : Grammar .layout (withDims a b c d (o :: t))
  | last {o : UInt8} {w : List UInt8} (hw : Grammar .layout w) :
      Grammar (.children o) (w ++ [closing o])
  | more {o : UInt8} {w t : List UInt8} (hw : Grammar .layout w)
      (ht : Grammar (.children o) t) : Grammar (.children o) (w ++ octetOf ',' :: t)

mutual

/-- No node has the type NONE. -/
def typed : TmuxLayout → Bool
  | ⟨_, _, _, _, _, layoutType, child⟩ => layoutType ≠ .none && typedAll child

def typedAll : List TmuxLayout → Bool
  | [] => true
  | l :: ls => typed l && typedAll ls

end

section Unique

theorem isClose_ne_comma {c : UInt8} (h : isClose c = true) : c ≠ octetOf ',' := by
  rintro rfl
  exact absurd h (by decide)

theorem isOpen_ne_comma {c : UInt8} (h : isOpen c = true) : c ≠ octetOf ',' := by
  rintro rfl
  exact absurd h (by decide)

/-- **There is only one way to take a text.** -/
theorem Takes.unique {m : Mode} {ok sound ok' sound' : Bool} {text rest rest' : List UInt8}
    (h : Takes m ok sound text rest) (h' : Takes m ok' sound' text rest') :
    ok = ok' ∧ sound = sound' ∧ rest = rest' := by
  induction h generalizing ok' sound' rest' with
  | pane hdims hid =>
      cases h' with
      | pane hdims' hid' =>
          rw [hdims] at hdims'
          cases hdims'
          rw [hid] at hid'
          cases hid'
          exact ⟨rfl, rfl, rfl⟩
      | split hdims' ho _ =>
          rw [hdims] at hdims'
          cases hdims'
          exact absurd rfl (isOpen_ne_comma ho)
      | brokenDims hdims' =>
          rw [hdims] at hdims'
          cases hdims'
      | brokenKind hdims' _ hc =>
          rw [hdims] at hdims'
          cases hdims'
          exact absurd rfl hc
  | split hdims ho _ ih =>
      cases h' with
      | pane hdims' _ =>
          rw [hdims] at hdims'
          cases hdims'
          exact absurd rfl (isOpen_ne_comma ho)
      | split hdims' _ hchildren' =>
          rw [hdims] at hdims'
          cases hdims'
          exact ih hchildren'
      | brokenDims hdims' =>
          rw [hdims] at hdims'
          cases hdims'
      | brokenKind hdims' ho' _ =>
          rw [hdims] at hdims'
          cases hdims'
          rw [ho] at ho'
          cases ho'
  | brokenDims hdims =>
      cases h' with
      | pane hdims' _ =>
          rw [hdims] at hdims'
          cases hdims'
      | split hdims' _ _ =>
          rw [hdims] at hdims'
          cases hdims'
      | brokenDims hdims' =>
          rw [hdims] at hdims'
          cases hdims'
          exact ⟨rfl, rfl, rfl⟩
      | brokenKind hdims' _ _ =>
          rw [hdims] at hdims'
          cases hdims'
  | brokenKind hdims ho hc =>
      cases h' with
      | pane hdims' _ =>
          rw [hdims] at hdims'
          cases hdims'
          exact absurd rfl hc
      | split hdims' ho' _ =>
          rw [hdims] at hdims'
          cases hdims'
          rw [ho] at ho'
          cases ho'
      | brokenDims hdims' =>
          rw [hdims] at hdims'
          cases hdims'
      | brokenKind hdims' _ _ =>
          rw [hdims] at hdims'
          cases hdims'
          exact ⟨rfl, rfl, rfl⟩
  | last _ hc ih =>
      cases h' with
      | last hchild' _ =>
          obtain ⟨rfl, rfl, hrest⟩ := ih hchild'
          cases hrest
          exact ⟨rfl, rfl, rfl⟩
      | more hchild' _ =>
          obtain ⟨-, -, hrest⟩ := ih hchild'
          cases hrest
          exact absurd rfl (isClose_ne_comma hc)
      | stop hchild' hc' _ =>
          obtain ⟨-, -, hrest⟩ := ih hchild'
          cases hrest
          rw [hc] at hc'
          cases hc'
  | more _ _ ih ihmore =>
      cases h' with
      | last hchild' hc' =>
          obtain ⟨-, -, hrest⟩ := ih hchild'
          cases hrest
          exact absurd rfl (isClose_ne_comma hc')
      | more hchild' hmore' =>
          obtain ⟨rfl, rfl, hrest⟩ := ih hchild'
          cases hrest
          obtain ⟨rfl, rfl, rfl⟩ := ihmore hmore'
          exact ⟨rfl, rfl, rfl⟩
      | stop hchild' _ hcomma' =>
          obtain ⟨-, -, hrest⟩ := ih hchild'
          cases hrest
          exact absurd rfl hcomma'
  | stop _ hc hcomma ih =>
      cases h' with
      | last hchild' hc' =>
          obtain ⟨-, -, hrest⟩ := ih hchild'
          cases hrest
          rw [hc] at hc'
          cases hc'
      | more hchild' _ =>
          obtain ⟨-, -, hrest⟩ := ih hchild'
          cases hrest
          exact absurd rfl hcomma
      | stop hchild' _ _ =>
          obtain ⟨-, -, hrest⟩ := ih hchild'
          cases hrest
          exact ⟨rfl, rfl, rfl⟩

end Unique

section Lengths

theorem length_unsignedAt {text rest : List UInt8} {v : Nat}
    (h : unsignedAt text = some (v, rest)) : rest.length < text.length := by
  obtain ⟨w, rfl, hne, -⟩ := unsignedAt_split h
  have hpos := List.length_pos_of_ne_nil hne
  rw [List.length_append]
  omega

/-- What is left behind a field. -/
theorem field_cases {c : UInt8} {text : List UInt8} {k : Nat → List UInt8 → Dims} {d : Dims}
    (h : field c text k = d) :
    (∃ v rest, unsignedAt text = some (v, c :: rest) ∧ k v rest = d) ∨
      (∃ v e rest, unsignedAt text = some (v, e :: rest) ∧ d = .broke rest) ∨ d = .stuck := by
  rw [field] at h
  split at h
  · rename_i v e rest hnum
    split_ifs at h with he
    · subst he
      exact .inl ⟨v, rest, hnum, h⟩
    · exact .inr (.inl ⟨v, e, rest, hnum, h.symm⟩)
  · exact .inr (.inr h.symm)

/-- The numbers of a text that has them. -/
theorem dims_read {text rest : List UInt8} {width height x y : Nat}
    (h : dims text = .read width height x y rest) :
    ∃ t₁ t₂ t₃, unsignedAt text = some (width, octetOf 'x' :: t₁) ∧
      unsignedAt t₁ = some (height, octetOf ',' :: t₂) ∧
      unsignedAt t₂ = some (x, octetOf ',' :: t₃) ∧ unsignedAt t₃ = some (y, rest) := by
  rcases field_cases h with ⟨w, t₁, hw, h₁⟩ | ⟨_, _, _, _, hd⟩ | hd
  · rcases field_cases h₁ with ⟨ht, t₂, hh, h₂⟩ | ⟨_, _, _, _, hd⟩ | hd
    · rcases field_cases h₂ with ⟨x', t₃, hx, h₃⟩ | ⟨_, _, _, _, hd⟩ | hd
      · cases hy : unsignedAt t₃ with
        | none =>
            rw [hy] at h₃
            cases h₃
        | some r =>
            rw [hy] at h₃
            cases h₃
            exact ⟨t₁, t₂, t₃, hw, hh, hx, hy⟩
      · cases hd
      · cases hd
    · cases hd
    · cases hd
  · cases hd
  · cases hd

theorem length_dims_read {text rest : List UInt8} {width height x y : Nat}
    (h : dims text = .read width height x y rest) : rest.length < text.length := by
  obtain ⟨t₁, t₂, t₃, hw, hh, hx, hy⟩ := dims_read h
  have h₁ := length_unsignedAt hw
  have h₂ := length_unsignedAt hh
  have h₃ := length_unsignedAt hx
  have h₄ := length_unsignedAt hy
  simp only [List.length_cons] at h₁ h₂ h₃
  omega

theorem length_dims_broke {text rest : List UInt8} (h : dims text = .broke rest) :
    rest.length < text.length := by
  rcases field_cases h with ⟨w, t₁, hw, h₁⟩ | ⟨_, _, _, hw, hd⟩ | hd
  · have hlw := length_unsignedAt hw
    rw [List.length_cons] at hlw
    rcases field_cases h₁ with ⟨ht, t₂, hh, h₂⟩ | ⟨_, _, _, hh, hd⟩ | hd
    · have hlh := length_unsignedAt hh
      rw [List.length_cons] at hlh
      rcases field_cases h₂ with ⟨x', t₃, hx, h₃⟩ | ⟨_, _, _, hx, hd⟩ | hd
      · split at h₃ <;> cases h₃
      · have hlx := length_unsignedAt hx
        rw [List.length_cons] at hlx
        cases hd
        omega
      · cases hd
    · have hlh := length_unsignedAt hh
      rw [List.length_cons] at hlh
      cases hd
      omega
    · cases hd
  · have hlw := length_unsignedAt hw
    rw [List.length_cons] at hlw
    cases hd
    omega
  · cases hd

/-- The parser uses up at least one character. -/
theorem Takes.length_lt {m : Mode} {ok sound : Bool} {text rest : List UInt8}
    (h : Takes m ok sound text rest) : rest.length < text.length := by
  induction h with
  | pane hdims hid =>
      have h₁ := length_dims_read hdims
      have h₂ := length_unsignedAt hid
      rw [List.length_cons] at h₁
      omega
  | split hdims _ _ ih =>
      have h₁ := length_dims_read hdims
      rw [List.length_cons] at h₁
      omega
  | brokenDims hdims => exact length_dims_broke hdims
  | brokenKind hdims _ _ =>
      have h₁ := length_dims_read hdims
      rw [List.length_cons] at h₁
      omega
  | last _ _ ih =>
      rw [List.length_cons] at ih
      omega
  | more _ _ ih ihmore =>
      rw [List.length_cons] at ih
      omega
  | stop _ _ _ ih =>
      rw [List.length_cons] at ih
      omega

/-- What is sound is accepted. -/
theorem Takes.ok_of_sound {m : Mode} {ok sound : Bool} {text rest : List UInt8}
    (h : Takes m ok sound text rest) (hsound : sound = true) : ok = true := by
  induction h with
  | pane _ _ => rfl
  | split _ _ _ ih => exact ih hsound
  | brokenDims _ => exact hsound
  | brokenKind _ _ _ => exact hsound
  | last _ _ _ => rfl
  | more _ _ _ ihmore =>
      rw [Bool.and_eq_true] at hsound
      exact ihmore hsound.2
  | stop _ _ _ _ => exact hsound

end Lengths

section Outcomes

/-- What has become of a text: it was taken in front of what is left, or the stream
has failed and there is no way to take it. -/
inductive Outcome (m : Mode) (text : List UInt8) (ok : Bool) (typed : Prop) (s : Istream) : Prop
  | took (sound : Bool) (rest : List UInt8) (hs : s.Ready rest)
      (htakes : Takes m ok sound text rest) (htyped : sound = true → typed)
  | stuck (hfail : s.fail = true) (hnone : ∀ ok' sound rest, ¬ Takes m ok' sound text rest)
      (hcut : ok = true → m = .layout ∧ Cut text)

theorem typedAll_append (ls ls' : List TmuxLayout) :
    typedAll (ls ++ ls') = (typedAll ls && typedAll ls') := by
  induction ls with
  | nil => simp [typedAll]
  | cons l ls ih => simp [typedAll, ih, Bool.and_assoc]

theorem kindOf_ne_none (o : UInt8) : kindOf o ≠ .none := by
  rw [kindOf]
  split_ifs <;> decide

/-- Texts that are not taken because of their numbers. -/
theorem not_takes_of_dims {text : List UInt8} (h : dims text = .stuck) (ok sound : Bool)
    (rest : List UInt8) : ¬ Takes .layout ok sound text rest := by
  intro ht
  cases ht with
  | pane hdims _ => rw [h] at hdims; cases hdims
  | split hdims _ _ => rw [h] at hdims; cases hdims
  | brokenDims hdims => rw [h] at hdims; cases hdims
  | brokenKind hdims _ _ => rw [h] at hdims; cases hdims

/-- A layout is parsed as its kind is. -/
theorem parseKind_outcome {n : Nat} {l : TmuxLayout} {s : Istream} {text rest : List UInt8}
    {width height x y : Nat} (hdims : dims text = .read width height x y rest)
    (hs : s.Ready rest) (hchild : l.child = [])
    (ih : ∀ o t, rest = o :: t → isOpen o = true →
      Outcome (.children o) t (parseLayoutChildren n [] ⟨t, false, false⟩).1
        (typedAll [] = true → typedAll (parseLayoutChildren n [] ⟨t, false, false⟩).2.1 = true)
        (parseLayoutChildren n [] ⟨t, false, false⟩).2.2) :
    Outcome .layout text (parseKind n l s).1 ((parseKind n l s).2.1.typed = true)
      (parseKind n l s).2.2 := by
  cases rest with
  | nil =>
      obtain ⟨hok, hfail⟩ := parseKind_nil n l hs
      refine .stuck hfail (fun ok' sound rest' ht => ?_) (by simp [hok])
      cases ht with
      | pane hdims' _ => rw [hdims] at hdims'; cases hdims'
      | split hdims' _ _ => rw [hdims] at hdims'; cases hdims'
      | brokenDims hdims' => rw [hdims] at hdims'; cases hdims'
      | brokenKind hdims' _ _ => rw [hdims] at hdims'; cases hdims'
  | cons c t =>
      by_cases hc : c = octetOf ','
      · subst hc
        rw [parseKind_comma n l hs]
        cases hid : unsignedAt t with
        | none =>
            have hfail := (ready_mk_false t).readUnsignedInto_none hid l.paneid
            refine .stuck hfail (fun ok' sound rest' ht => ?_)
              (fun _ => ⟨rfl, width, height, x, y, t, hdims, hid⟩)
            cases ht with
            | pane hdims' hid' =>
                rw [hdims] at hdims'
                cases hdims'
                rw [hid] at hid'
                cases hid'
            | split hdims' ho _ =>
                rw [hdims] at hdims'
                cases hdims'
                exact isOpen_ne_comma ho rfl
            | brokenDims hdims' => rw [hdims] at hdims'; cases hdims'
            | brokenKind hdims' _ hne =>
                rw [hdims] at hdims'
                cases hdims'
                exact hne rfl
        | some r =>
            obtain ⟨-, hready⟩ := (ready_mk_false t).readUnsignedInto_some hid l.paneid
            exact .took true r.2 hready (.pane hdims hid) (by simp [typed, hchild, typedAll])
      · cases ho : isOpen c with
        | false =>
            rw [parseKind_other n l ho hc hs]
            exact .took false t (ready_mk_false t) (.brokenKind hdims ho hc) (by simp)
        | true =>
            rw [parseKind_open n l ho hs, hchild]
            have hout := ih c t rfl ho
            generalize parseLayoutChildren n [] ⟨t, false, false⟩ = out at hout
            obtain ⟨ok, child, s'⟩ := out
            cases hout with
            | took sound rest' hs' htakes htyped =>
                cases ok with
                | false =>
                    refine .took sound rest' hs' (.split hdims ho htakes) (fun hsound => ?_)
                    exact absurd (htakes.ok_of_sound hsound) (by simp)
                | true =>
                    refine .took sound rest' hs' (.split hdims ho htakes) (fun hsound => ?_)
                    have htypes := htyped hsound rfl
                    simp only [if_true, typed, Bool.and_eq_true]
                    exact ⟨by simpa using kindOf_ne_none c, htypes⟩
            | stuck hfail hnone hcut =>
                cases ok with
                | true => exact absurd (hcut rfl).1 (by simp)
                | false =>
                    refine .stuck hfail (fun ok' sound rest' ht => ?_) (by simp [rejected])
                    cases ht with
                    | pane hdims' _ =>
                        rw [hdims] at hdims'
                        cases hdims'
                        exact hc rfl
                    | split hdims' _ hchildren =>
                        rw [hdims] at hdims'
                        cases hdims'
                        exact hnone _ _ _ hchildren
                    | brokenDims hdims' => rw [hdims] at hdims'; cases hdims'
                    | brokenKind hdims' ho' _ =>
                        rw [hdims] at hdims'
                        cases hdims'
                        rw [ho] at ho'
                        cases ho'

/-- The loop over the children, after one of them. -/
theorem parseLayoutChildren_outcome {n : Nat} {o : UInt8} {child : List TmuxLayout}
    {s : Istream} {text : List UInt8}
    (hchild : Outcome .layout text (parseLayout n init s).1
      ((parseLayout n init s).2.1.typed = true) (parseLayout n init s).2.2)
    (ih : ∀ child' t, t.length + 1 < text.length →
      Outcome (.children o) t (parseLayoutChildren n child' ⟨t, false, false⟩).1
        (typedAll child' = true →
          typedAll (parseLayoutChildren n child' ⟨t, false, false⟩).2.1 = true)
        (parseLayoutChildren n child' ⟨t, false, false⟩).2.2) :
    Outcome (.children o) text (parseLayoutChildren (n + 1) child s).1
      (typedAll child = true → typedAll (parseLayoutChildren (n + 1) child s).2.1 = true)
      (parseLayoutChildren (n + 1) child s).2.2 := by
  have hout : parseLayout n init s = ((parseLayout n init s).1, (parseLayout n init s).2.1,
      (parseLayout n init s).2.2) := rfl
  generalize (parseLayout n init s).1 = ok at hchild hout
  generalize (parseLayout n init s).2.1 = l at hchild hout
  generalize (parseLayout n init s).2.2 = s' at hchild hout
  have htypes : typedAll child = true → l.typed = true → typedAll (child ++ [l]) = true := by
    intro h hl
    rw [typedAll_append, h]
    simp [typedAll, hl]
  -- nothing is read from a stream that cannot give a character
  have hstuck : s'.get.1 = none → s'.get.2.fail = true →
      (∀ ok' sound rest, ¬ Takes (.children o) ok' sound text rest) →
      Outcome (.children o) text (parseLayoutChildren (n + 1) child s).1
        (typedAll child = true → typedAll (parseLayoutChildren (n + 1) child s).2.1 = true)
        (parseLayoutChildren (n + 1) child s).2.2 := by
    intro hnone hfail hno
    have hres : parseLayoutChildren (n + 1) child s = (false, child, s'.get.2) := by
      rw [parseLayoutChildren_succ, hout]
      simp [hnone]
    rw [hres]
    exact .stuck hfail hno (by simp)
  cases hchild with
  | stuck hfail hnone _ =>
      have hget := get_of_fail hfail
      refine hstuck (by rw [hget]) (by rw [hget]; rfl) (fun ok' sound rest ht => ?_)
      cases ht with
      | last hc _ => exact hnone _ _ _ hc
      | more hc _ => exact hnone _ _ _ hc
      | stop hc _ _ => exact hnone _ _ _ hc
  | took sound rest hs htakes htyped =>
      cases rest with
      | nil =>
          obtain ⟨hnone, hfail⟩ := hs.get_nil
          refine hstuck hnone hfail (fun ok' sound' rest' ht => ?_)
          cases ht with
          | last hc _ => exact absurd (htakes.unique hc).2.2 (by simp)
          | more hc _ => exact absurd (htakes.unique hc).2.2 (by simp)
          | stop hc _ _ => exact absurd (htakes.unique hc).2.2 (by simp)
      | cons c t =>
          cases hclose : isClose c with
          | true =>
              rw [parseLayoutChildren_close hout hs hclose]
              refine .took _ t (ready_mk_false t) (.last htakes hclose) (fun hsound h => ?_)
              simp only [Bool.and_eq_true] at hsound
              exact htypes h (htyped hsound.1.2)
          | false =>
              by_cases hcomma : c = octetOf ','
              · subst hcomma
                have hlen := htakes.length_lt
                rw [List.length_cons] at hlen
                rw [parseLayoutChildren_comma hout hs]
                cases ih (child ++ [l]) t hlen with
                | took sound' rest' hs' htakes' htyped' =>
                    refine .took _ rest' hs' (.more htakes htakes') (fun hsound h => ?_)
                    simp only [Bool.and_eq_true] at hsound
                    exact htyped' hsound.2 (htypes h (htyped hsound.1.2))
                | stuck hfail hnone hcut =>
                    refine .stuck hfail (fun ok' sound' rest' ht => ?_)
                      (fun h => absurd (hcut h).1 (by simp))
                    cases ht with
                    | last hc hclose' =>
                        cases (htakes.unique hc).2.2
                        rw [hclose] at hclose'
                        cases hclose'
                    | more hc hmore =>
                        cases (htakes.unique hc).2.2
                        exact hnone _ _ _ hmore
                    | stop hc _ hne =>
                        cases (htakes.unique hc).2.2
                        exact hne rfl
              · rw [parseLayoutChildren_other hout hs hclose hcomma]
                exact .took false t (ready_mk_false t) (.stop htakes hclose hcomma) (by simp)

/-- **What the parser does to a text**, with enough fuel. -/
theorem parse_outcome (n : Nat) :
    (∀ l s text, l.child = [] → Ready s text → 2 * text.length + 2 ≤ n →
      Outcome .layout text (parseLayout n l s).1 ((parseLayout n l s).2.1.typed = true)
        (parseLayout n l s).2.2) ∧
    (∀ o child s text, Ready s text → 2 * text.length + 3 ≤ n →
      Outcome (.children o) text (parseLayoutChildren n child s).1
        (typedAll child = true → typedAll (parseLayoutChildren n child s).2.1 = true)
        (parseLayoutChildren n child s).2.2) := by
  induction n with
  | zero => exact ⟨fun _ _ _ _ _ h => by omega, fun _ _ _ _ _ h => by omega⟩
  | succ n ih =>
      refine ⟨fun l s text hchild hs hn => ?_, fun o child s text hs hn => ?_⟩
      · rcases dimsCase n l hs with
          ⟨width, height, x, y, rest, s', hdims, hs', hout⟩ | ⟨rest, hdims, hok, htype, hs'⟩ |
          ⟨hdims, hok, hfail⟩
        · have hlen := length_dims_read hdims
          rw [hout]
          refine parseKind_outcome hdims hs' hchild (fun o t hrest ho => ?_)
          rw [hrest, List.length_cons] at hlen
          exact ih.2 o [] _ t (ready_mk_false t) (by omega)
        · rw [hok]
          exact .took false rest hs' (.brokenDims hdims) (by simp)
        · rw [hok]
          exact .stuck hfail (not_takes_of_dims hdims) (by simp)
      · refine parseLayoutChildren_outcome (ih.1 init s text rfl hs (by omega))
          (fun child' t ht => ?_)
        exact ih.2 o child' _ t (ready_mk_false t) (by omega)

end Outcomes

section Termination

variable {s : Istream}

theorem length_readField_le (old : Nat) (s : Istream) :
    (readField old s).2.2.rest.length ≤ s.rest.length :=
  (length_get_le _).trans (length_readUnsignedInto_le old s)

/-- `parseLayout` with another function for the children. -/
def layoutBody (children : List TmuxLayout → Istream → Bool × List TmuxLayout × Istream)
    (l : TmuxLayout) (s : Istream) : Bool × TmuxLayout × Istream :=
  let (width, c, s) := readField l.width s
  let l := { l with width := width }
  if c ≠ some (octetOf 'x') then l.rejected s
  else
    let (height, c, s) := readField l.height s
    let l := { l with height := height }
    if c ≠ some (octetOf ',') then l.rejected s
    else
      let (x, c, s) := readField l.x s
      let l := { l with x := x }
      if c ≠ some (octetOf ',') then l.rejected s
      else
        let (y, s) := s.readUnsignedInto l.y
        let l := { l with y := y }
        let (c, s) := s.peek
        if c = some (octetOf '\x7b') ∨ c = some (octetOf '[') then
          let (c, s) := s.get
          let l := { l with
            layoutType := if c = some (octetOf '[') then .vertical else .horizontal }
          let (ok, child, s) := children l.child s
          let l := { l with child := child }
          if ok then (true, l, s) else l.rejected s
        else
          let (c, s) := s.get
          if c ≠ some (octetOf ',') then l.rejected s
          else
            let (paneid, s) := s.readUnsignedInto l.paneid
            (true, { l with paneid := paneid, layoutType := .leaf }, s)

theorem parseLayout_eq_body (n : Nat) (l : TmuxLayout) (s : Istream) :
    parseLayout (n + 1) l s = layoutBody (parseLayoutChildren n) l s := by
  rw [parseLayout, layoutBody]

variable {k k' : List TmuxLayout → Istream → Bool × List TmuxLayout × Istream}

/-- The children are read from a stream that has become shorter. -/
theorem layoutBody_congr (l : TmuxLayout)
    (h : ∀ child s', s'.rest.length < s.rest.length → k child s' = k' child s') :
    layoutBody k l s = layoutBody k' l s := by
  have h₁ := length_readField_le l.width s
  simp only [layoutBody]
  generalize readField l.width s = r₁ at h₁ ⊢
  have h₂ := length_readField_le l.height r₁.2.2
  generalize readField l.height r₁.2.2 = r₂ at h₂ ⊢
  have h₃ := length_readField_le l.x r₂.2.2
  generalize readField l.x r₂.2.2 = r₃ at h₃ ⊢
  have h₄ := length_readUnsignedInto_le l.y r₃.2.2
  generalize Istream.readUnsignedInto l.y r₃.2.2 = r₄ at h₄ ⊢
  by_cases hopen : r₄.2.peek.1 = some (octetOf '\x7b') ∨ r₄.2.peek.1 = some (octetOf '[')
  · have hlt : r₄.2.peek.2.get.2.rest.length < r₄.2.rest.length := by
      rcases hopen with ho | ho
      · exact length_get_peek ho
      · exact length_get_peek ho
    rw [h l.child r₄.2.peek.2.get.2 (by omega)]
  · simp only [if_neg hopen]

theorem length_layoutBody_le (l : TmuxLayout)
    (h : ∀ child s', (k child s').2.2.rest.length ≤ s'.rest.length) :
    (layoutBody k l s).2.2.rest.length ≤ s.rest.length := by
  have h₁ := length_readField_le l.width s
  simp only [layoutBody]
  generalize readField l.width s = r₁ at h₁ ⊢
  have h₂ := length_readField_le l.height r₁.2.2
  generalize readField l.height r₁.2.2 = r₂ at h₂ ⊢
  have h₃ := length_readField_le l.x r₂.2.2
  generalize readField l.x r₂.2.2 = r₃ at h₃ ⊢
  have h₄ := length_readUnsignedInto_le l.y r₃.2.2
  generalize Istream.readUnsignedInto l.y r₃.2.2 = r₄ at h₄ ⊢
  have h₅ := length_peek_le r₄.2
  have h₆ := length_get_le r₄.2.peek.2
  have h₇ := h l.child r₄.2.peek.2.get.2
  have h₈ := length_readUnsignedInto_le l.paneid r₄.2.peek.2.get.2
  have h₂₁ := h₂.trans h₁
  have h₃₁ := h₃.trans h₂₁
  have h₆₁ := h₆.trans (h₅.trans (h₄.trans h₃₁))
  split_ifs
  · exact h₁
  · exact h₂₁
  · exact h₃₁
  · exact h₇.trans h₆₁
  · exact h₇.trans h₆₁
  · exact h₇.trans h₆₁
  · exact h₇.trans h₆₁
  · exact h₆₁
  · exact h₈.trans h₆₁

/-- Parsing never lengthens what is left. -/
theorem length_parse_le (n : Nat) :
    (∀ l s, (parseLayout n l s).2.2.rest.length ≤ s.rest.length) ∧
      ∀ child s, (parseLayoutChildren n child s).2.2.rest.length ≤ s.rest.length := by
  induction n with
  | zero =>
      refine ⟨fun l s => ?_, fun child s => ?_⟩
      · rw [parseLayout]
        exact le_rfl
      · rw [parseLayoutChildren]
  | succ n ih =>
      refine ⟨fun l s => ?_, fun child s => ?_⟩
      · rw [parseLayout_eq_body]
        exact length_layoutBody_le l ih.2
      · have h₁ := ih.1 init s
        have h₂ := length_get_le (parseLayout n init s).2.2
        have h₃ := ih.2 (child ++ [(parseLayout n init s).2.1]) (parseLayout n init s).2.2.get.2
        rw [parseLayoutChildren_succ]
        dsimp only
        split_ifs
        · exact h₂.trans h₁
        · exact h₃.trans (h₂.trans h₁)
        · exact h₂.trans h₁

/-- **The recursion ends**: with fuel for every character, more of it changes nothing. -/
theorem parse_succ_fuel (n : Nat) :
    (∀ l s, 2 * s.rest.length + 2 ≤ n → parseLayout (n + 1) l s = parseLayout n l s) ∧
      ∀ child s, 2 * s.rest.length + 3 ≤ n →
        parseLayoutChildren (n + 1) child s = parseLayoutChildren n child s := by
  induction n with
  | zero => exact ⟨fun _ _ h => by omega, fun _ _ h => by omega⟩
  | succ n ih =>
      refine ⟨fun l s hn => ?_, fun child s hn => ?_⟩
      · rw [parseLayout_eq_body, parseLayout_eq_body]
        exact layoutBody_congr l (fun child s' hlt => ih.2 child s' (by omega))
      · rw [parseLayoutChildren_succ, parseLayoutChildren_succ, ih.1 init s (by omega)]
        dsimp only
        by_cases hcomma : (parseLayout n init s).2.2.get.1 = some (octetOf ',')
        · have h₁ := (length_parse_le n).1 init s
          have h₂ := length_get_lt hcomma
          rw [ih.2 _ _ (by omega)]
        · simp only [if_neg hcomma]

theorem parseLayout_add_fuel (n m : Nat) (l : TmuxLayout) (s : Istream)
    (hn : 2 * s.rest.length + 2 ≤ n) : parseLayout (n + m) l s = parseLayout n l s := by
  induction m with
  | zero => rfl
  | succ m ih =>
      rw [← Nat.add_assoc, (parse_succ_fuel (n + m)).1 l s (by omega), ih]

end Termination

section Sentences

/-- A number takes up a text of its own. -/
theorem number_split {text rest : List UInt8} {v : Nat}
    (h : unsignedAt text = some (v, rest)) :
    ∃ w, text = w ++ rest ∧ IsNumber w ∧ EndsNumber rest := by
  obtain ⟨w, hw, -, hstop, happ⟩ := unsignedAt_split h
  have hself := happ [] (by simp)
  rw [List.append_nil] at hself
  exact ⟨w, hw, ⟨v, hself⟩, hstop⟩

theorem number_append {w rest : List UInt8} (hw : IsNumber w) (h : EndsNumber rest) :
    ∃ v, unsignedAt (w ++ rest) = some (v, rest) := by
  obtain ⟨v, hv⟩ := hw
  obtain ⟨w', hw', -, -, happ⟩ := unsignedAt_split hv
  rw [List.append_nil] at hw'
  subst hw'
  exact ⟨v, happ rest h⟩

theorem dims_split {text rest : List UInt8} {width height x y : Nat}
    (h : dims text = .read width height x y rest) :
    ∃ a b c d, text = withDims a b c d rest ∧ IsNumber a ∧ IsNumber b ∧ IsNumber c ∧
      IsNumber d ∧ EndsNumber rest := by
  obtain ⟨t₁, t₂, t₃, hw, hh, hx, hy⟩ := dims_read h
  obtain ⟨a, rfl, ha, -⟩ := number_split hw
  obtain ⟨b, rfl, hb, -⟩ := number_split hh
  obtain ⟨c, rfl, hc, -⟩ := number_split hx
  obtain ⟨d, rfl, hd, hrest⟩ := number_split hy
  exact ⟨a, b, c, d, rfl, ha, hb, hc, hd, hrest⟩

theorem dims_withDims {a b c d rest : List UInt8} (ha : IsNumber a) (hb : IsNumber b)
    (hc : IsNumber c) (hd : IsNumber d) (hrest : EndsNumber rest) :
    ∃ width height x y, dims (withDims a b c d rest) = .read width height x y rest := by
  have hx : digitValue 10 (octetOf 'x').toNat = none := by decide
  obtain ⟨width, hwidth⟩ := number_append ha (endsNumber_cons hx
    (b ++ octetOf ',' :: (c ++ octetOf ',' :: (d ++ rest))))
  obtain ⟨height, hheight⟩ := number_append hb (endsNumber_cons not_digit_comma
    (c ++ octetOf ',' :: (d ++ rest)))
  obtain ⟨x, hx'⟩ := number_append hc (endsNumber_cons not_digit_comma (d ++ rest))
  obtain ⟨y, hy⟩ := number_append hd hrest
  refine ⟨width, height, x, y, ?_⟩
  rw [dims, withDims, field_found hwidth, field_found hheight, field_found hx', hy]

theorem withDims_append (a b c d rest more : List UInt8) :
    withDims a b c d rest ++ more = withDims a b c d (rest ++ more) := by
  simp [withDims]

/-- What is taken soundly is a sentence. -/
theorem grammar_of_takes {m : Mode} {ok sound : Bool} {text rest : List UInt8}
    (h : Takes m ok sound text rest) (hsound : sound = true) :
    ∃ w, text = w ++ rest ∧ Grammar m w := by
  induction h with
  | pane hdims hid =>
      obtain ⟨a, b, c, d, rfl, ha, hb, hc, hd, -⟩ := dims_split hdims
      obtain ⟨e, rfl, he, -⟩ := number_split hid
      exact ⟨_, by rw [withDims_append, List.cons_append], .pane ha hb hc hd he⟩
  | split hdims ho _ ih =>
      obtain ⟨a, b, c, d, rfl, ha, hb, hc, hd, -⟩ := dims_split hdims
      obtain ⟨w, rfl, hw⟩ := ih hsound
      exact ⟨_, by rw [withDims_append, List.cons_append], .split ha hb hc hd ho hw⟩
  | brokenDims _ => cases hsound
  | brokenKind _ _ _ => cases hsound
  | last _ _ ih =>
      simp only [Bool.and_eq_true, beq_iff_eq] at hsound
      obtain ⟨⟨-, hs⟩, rfl⟩ := hsound
      obtain ⟨w, rfl, hw⟩ := ih hs
      exact ⟨w ++ [closing _], by simp, .last hw⟩
  | more _ _ ih ihmore =>
      simp only [Bool.and_eq_true] at hsound
      obtain ⟨w, rfl, hw⟩ := ih hsound.1.2
      obtain ⟨t, rfl, ht⟩ := ihmore hsound.2
      exact ⟨w ++ octetOf ',' :: t, by simp, .more hw ht⟩
  | stop _ _ _ _ => cases hsound

/-- A sentence is taken soundly; what follows a pane must not begin with a digit. -/
theorem takes_of_grammar {m : Mode} {w : List UInt8} (h : Grammar m w) (rest : List UInt8)
    (hrest : m = .layout → EndsNumber rest) : Takes m true true (w ++ rest) rest := by
  induction h generalizing rest with
  | pane ha hb hc hd he =>
      obtain ⟨p, hid⟩ := number_append he (hrest rfl)
      obtain ⟨width, height, x, y, hdims⟩ := dims_withDims ha hb hc hd
        (endsNumber_cons not_digit_comma (_ ++ rest))
      rw [withDims_append, List.cons_append]
      exact .pane hdims hid
  | split ha hb hc hd ho _ ih =>
      obtain ⟨width, height, x, y, hdims⟩ := dims_withDims ha hb hc hd
        (endsNumber_cons (not_digit_of_isOpen ho) (_ ++ rest))
      rw [withDims_append, List.cons_append]
      exact .split hdims ho (ih rest (by simp))
  | @last o w _ ih =>
      have hclose := isClose_closing o
      have htakes := Takes.last (o := o) (ih (closing o :: rest)
        (fun _ => endsNumber_cons (not_digit_of_isClose hclose) rest)) hclose
      simpa using htakes
  | more _ _ ih ihmore =>
      rw [List.append_assoc, List.cons_append]
      exact .more (ih _ (fun _ => endsNumber_cons not_digit_comma _)) (ihmore rest (by simp))

/-- What is accepted without being sound is not a sentence. -/
theorem not_grammar_of_unsound {w rest : List UInt8}
    (h : Takes .layout true false (w ++ rest) rest) : ¬ Grammar .layout w := by
  intro hw
  cases hw with
  | pane ha hb hc hd he =>
      obtain ⟨width, height, x, y, hdims⟩ := dims_withDims ha hb hc hd
        (endsNumber_cons not_digit_comma (_ ++ rest))
      rw [withDims_append, List.cons_append] at h
      cases h with
      | split hdims' ho _ =>
          rw [hdims] at hdims'
          cases hdims'
          exact isOpen_ne_comma ho rfl
  | split ha hb hc hd ho ht =>
      obtain ⟨width, height, x, y, hdims⟩ := dims_withDims ha hb hc hd
        (endsNumber_cons (not_digit_of_isOpen ho) (_ ++ rest))
      have htakes := takes_of_grammar ht rest (by simp)
      rw [withDims_append, List.cons_append] at h
      exact absurd (h.unique (.split hdims ho htakes)).2.1 (by simp)

/-- Reading a number stops in front of something that is no digit. -/
theorem endsNumber_after_read (t : List UInt8) (old : Nat) :
    EndsNumber (Istream.readUnsignedInto old (ofString t)).2.rest := by
  cases hskip : (ofString t).skip with
  | none =>
      rw [readUnsignedInto_of_empty old hskip]
      simp [exhausted, ofString, good, EndsNumber]
  | some cs =>
      cases hread : readInt UInt8.toNat 10 cs with
      | none =>
          rw [readUnsignedInto_of_other old hskip hread]
          intro c hc
          by_contra hdigit
          obtain ⟨d, hd⟩ := Option.ne_none_iff_exists'.mp hdigit
          cases cs with
          | nil => cases hc
          | cons e cs =>
              obtain rfl : e = c := by simpa using hc
              obtain ⟨hdrop, -⟩ := skip_eq_some hskip
              have hblank : isBlank e = false := by
                have hhead := List.head_dropWhile_not isBlank (l := t) (by simp [hdrop])
                simpa [hdrop] using hhead
              have hcode : 48 ≤ e.toNat ∧ e.toNat ≤ 57 := by
                revert hd
                rw [digitValue]
                split_ifs <;> simp <;> omega
              have hspace : isSpace e.toNat = false := hblank
              have hminus : e.toNat ≠ 45 := by omega
              have hplus : e.toNat ≠ 43 := by omega
              simp [readInt, hspace, readSign, hminus, hplus, readMagnitude, hd] at hread
      | some r =>
          rw [readUnsignedInto_of_number old hskip hread]
          obtain ⟨-, -, -, hstop, -⟩ := readInt_split hread
          exact hstop

end Sentences

section Assertion

variable (plat : Platform) (id : Int) (name : List UInt8)

theorem usePane_stopped (c : Client) (p : Nat) : (c.usePane p).stopped = c.stopped := by
  rw [Client.usePane]
  split_ifs <;> rfl

theorem useTerminal_stopped (c : Client) (t : Nat) : (c.useTerminal t).stopped = c.stopped := by
  rw [Client.useTerminal]
  split_ifs <;> rfl

theorem createLeaf_stopped (l : TmuxLayout) (splitter : Option Nat) (c : Client) :
    (createLeaf plat id name l splitter c).1.stopped = c.stopped := by
  rw [createLeaf]
  split
  · rfl
  · exact (useTerminal_stopped _ _).trans (usePane_stopped c _)

mutual

/-- Panes of a tree with types are created without the assertion. -/
theorem createNewWindowPane_stopped (l : TmuxLayout) (h : l.typed = true)
    (splitter : Option Nat) (c : Client) (hc : c.stopped = false) :
    (createNewWindowPane plat id name l splitter c).1.stopped = false := by
  obtain ⟨width, height, x, y, paneid, layoutType, child⟩ := l
  rw [typed, Bool.and_eq_true] at h
  cases layoutType with
  | none => exact absurd h.1 (by decide)
  | leaf =>
      rw [createNewWindowPane, createLeaf_stopped]
      exact hc
  | horizontal =>
      rw [createNewWindowPane]
      exact createChildren_stopped child h.2 _ _ hc
  | vertical =>
      rw [createNewWindowPane]
      exact createChildren_stopped child h.2 _ _ hc

theorem createChildren_stopped (ls : List TmuxLayout) (h : typedAll ls = true) (s : Nat)
    (c : Client) (hc : c.stopped = false) :
    (createChildren plat id name ls s c).1.stopped = false := by
  cases ls with
  | nil =>
      rw [createChildren]
      exact hc
  | cons l ls =>
      rw [typedAll, Bool.and_eq_true] at h
      have hl := createNewWindowPane_stopped l h.1 (some s) c hc
      rw [createChildren]
      simp only [hl, Bool.false_eq_true, if_false]
      exact createChildren_stopped ls h.2 s _ hl

end

end Assertion

section Acceptance

/-- The stream after `initLayout`. -/
def streamAfter (text : List UInt8) : Istream :=
  (parseLayout (2 * text.length + 2) init (.ofString text)).2.2

/-- `initLayout` ends; and if it accepts, what it has used up is a layout, no node of the
tree has the type NONE, and creating its panes does not reach the assertion. -/
structure ParsedSoundly (text : List UInt8) : Prop where
  ends : ∀ m, parseLayout (2 * text.length + 2 + m) init (.ofString text) =
    parseLayout (2 * text.length + 2) init (.ofString text)
  sentence : (init.initLayout text).1 = true →
    ∃ w, text = w ++ (streamAfter text).rest ∧ Grammar .layout w
  typed : (init.initLayout text).1 = true → (init.initLayout text).2.typed = true
  created : (init.initLayout text).1 = true →
    ∀ (plat : Platform) (id : Int) (name : List UInt8) (c : Client), c.stopped = false →
      (createNewWindowPane plat id name (init.initLayout text).2 none c).1.stopped = false

theorem initLayout_ends (text : List UInt8) (m : Nat) :
    parseLayout (2 * text.length + 2 + m) init (.ofString text) =
      parseLayout (2 * text.length + 2) init (.ofString text) :=
  parseLayout_add_fuel _ m init _ le_rfl

theorem initLayout_outcome (text : List UInt8) :
    Outcome .layout text (init.initLayout text).1 ((init.initLayout text).2.typed = true)
      (streamAfter text) :=
  (parse_outcome (2 * text.length + 2)).1 init _ text rfl (ready_ofString text) le_rfl

/-- A pane is accepted with or without its number. -/
theorem initLayout_of_cut {text t : List UInt8} {width height x y : Nat}
    (hdims : dims text = .read width height x y (octetOf ',' :: t)) :
    (init.initLayout text).1 = true ∧ EndsNumber (streamAfter text).rest := by
  have hfuel : 2 * text.length + 2 = (2 * text.length + 1) + 1 := rfl
  rcases dimsCase (2 * text.length + 1) init (ready_ofString text) with
    ⟨_, _, _, _, rest, s', htext, hs', hout⟩ | ⟨rest, htext, -⟩ | ⟨htext, -⟩
  · rw [hdims] at htext
    cases htext
    rw [parseKind_comma _ _ hs'] at hout
    have haccepted : (init.initLayout text).1 = true := by
      rw [initLayout, hfuel, hout]
    refine ⟨haccepted, ?_⟩
    rw [streamAfter, hfuel, hout]
    exact endsNumber_after_read t _
  · rw [hdims] at htext
    cases htext
  · rw [hdims] at htext
    cases htext

/-- **A text is parsed soundly exactly if it is not misread.** -/
theorem parsedSoundly_iff (text : List UInt8) : ParsedSoundly text ↔ ¬ Misread text := by
  have hout := initLayout_outcome text
  constructor
  · rintro ⟨-, hsentence, -, -⟩ (⟨width, height, x, y, t, hdims, hid⟩ | ⟨rest, htakes⟩)
    · -- a pane cannot be a sentence without its number
      obtain ⟨haccepted, hends⟩ := initLayout_of_cut hdims
      obtain ⟨w, hw, hgrammar⟩ := hsentence haccepted
      have htakes := takes_of_grammar hgrammar _ (fun _ => hends)
      rw [← hw] at htakes
      cases htakes with
      | pane hdims' hid' =>
          rw [hdims] at hdims'
          cases hdims'
          rw [hid] at hid'
          cases hid'
      | split hdims' ho _ =>
          rw [hdims] at hdims'
          cases hdims'
          exact isOpen_ne_comma ho rfl
    · cases hout with
      | stuck _ hnone _ => exact hnone _ _ _ htakes
      | took sound rest' hs htakes' _ =>
          obtain ⟨hok, rfl, rfl⟩ := htakes.unique htakes'
          obtain ⟨w, hw, hgrammar⟩ := hsentence hok.symm
          rw [hs.rest] at hw
          rw [hw] at htakes
          exact not_grammar_of_unsound htakes hgrammar
  · intro hmis
    have hsound : (init.initLayout text).1 = true → ∃ rest, (streamAfter text).Ready rest ∧
        Takes .layout true true text rest ∧ (init.initLayout text).2.typed = true := by
      intro hok
      cases hout with
      | stuck _ _ hcut => exact absurd (.inl (hcut hok).2) hmis
      | took sound rest hs htakes htyped =>
          rw [hok] at htakes
          cases sound with
          | false => exact absurd (.inr ⟨rest, htakes⟩) hmis
          | true => exact ⟨rest, hs, htakes, htyped rfl⟩
    refine ⟨initLayout_ends text, fun hok => ?_, fun hok => ?_, fun hok plat id name c hc => ?_⟩
    · obtain ⟨rest, hs, htakes, -⟩ := hsound hok
      rw [hs.rest]
      exact grammar_of_takes htakes rfl
    · obtain ⟨rest, -, -, htyped⟩ := hsound hok
      exact htyped
    · obtain ⟨rest, -, -, htyped⟩ := hsound hok
      exact createNewWindowPane_stopped plat id name _ htyped none c hc

/-- A child that breaks off: `1x1,0,0{1}}` is accepted, with a child of type NONE. -/
theorem not_parsedSoundly_broken :
    ¬ ParsedSoundly ("1x1,0,0\x7b1\x7d\x7d".toList.map octetOf) := by
  intro h
  have htyped := h.typed (by decide +kernel)
  revert htyped
  decide +kernel

end Acceptance

end TmuxLayout
end Tmux
end Qutty
