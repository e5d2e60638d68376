import Qutty.Config.Conf
import Qutty.Lib.Istream

/-!
# The cache of host keys

`store_host_key`, `verify_host_key` and `qt_confirm_ssh_host_key` of `QtDlg.cpp`.  A
key is stored under the name `keytype@port:host`, written to a buffer of 200
characters.

A name that does not fit is cut on Linux; on Windows it is not terminated, and what
stands behind the buffer belongs to it.  So the cache is right about a host, a port and
a key type exactly if their name is short enough and is not the name of others
(`answers_iff`).  Names of key types without `@` are different for different hosts,
ports and key types (`HostKeyId.name_injective`).
-/

namespace Qutty
namespace Config

open Lib Lib.Istream Lib.ByteOrder

/-- `snprintf`, which is a macro for `_snprintf` on Windows. -/
inductive Snprintf where
  | c99
  | msvc
deriving DecidableEq, Repr

/-- The C string in a buffer of a size, with `junk` behind the buffer. -/
def Snprintf.print : Snprintf → Nat → List UInt8 → List UInt8 → List UInt8
  | .c99, size, text, _ => text.take (size - 1)
  | .msvc, size, text, junk => if text.length < size then text else text.take size ++ junk

/-- The host, the port and the key type that a key is for. -/
structure HostKeyId where
  host : CStr
  port : CInt
  keytype : CStr
deriving DecidableEq

/-- `%s@%d:%s`. -/
def HostKeyId.name (x : HostKeyId) : List UInt8 :=
  x.keytype.val ++ 64 :: (numeralBytes x.port ++ 58 :: x.host.val)

/-- `hostkey_regname` with a buffer of 200. -/
def hostkeyRegname (s : Snprintf) (x : HostKeyId) (junk : CStr) : List UInt8 :=
  s.print 200 x.name junk.val

/-- `ssh_host_keys`. -/
abbrev SshHostKeys := OrderedMap (List UInt8) CStr

/-- `store_host_key`. -/
def storeHostKey (s : Snprintf) (keys : SshHostKeys) (x : HostKeyId) (key junk : CStr) :
    SshHostKeys :=
  keys.insert (hostkeyRegname s x junk) key

/-- `verify_host_key`. -/
def verifyHostKey (s : Snprintf) (keys : SshHostKeys) (x : HostKeyId) (key junk : CStr) : Nat :=
  match keys.find (hostkeyRegname s x junk) with
  | none => 1
  | some stored => if key ≠ stored then 2 else 0

/-- The answer to a dialog. -/
inductive Button where
  | yes
  | no
  | cancel
deriving DecidableEq, Repr

/-- `SeatPromptResult`. -/
inductive SeatPromptResult where
  | ok
  | userAbort
deriving DecidableEq, Repr

/-- A call of `qt_confirm_ssh_host_key`: the key that the server has presented, what the
user answers if asked, and what stands behind the buffers of the two functions. -/
structure Confirmation where
  id : HostKeyId
  keystr : CStr
  mbret : Button
  junk : CStr
  junk' : CStr

/-- The user is asked. -/
def Confirmation.asked (s : Snprintf) (keys : SshHostKeys) (e : Confirmation) : Bool :=
  verifyHostKey s keys e.id e.keystr e.junk ≠ 0

/-- `qt_confirm_ssh_host_key`. -/
def qtConfirmSshHostKey (s : Snprintf) (keys : SshHostKeys) (e : Confirmation) :
    SshHostKeys × SeatPromptResult :=
  if e.asked s keys then
    match e.mbret with
    | .yes => (storeHostKey s keys e.id e.keystr e.junk', .ok)
    | .no => (keys, .ok)
    | .cancel => (keys, .userAbort)
  else (keys, .ok)

/-- The cache, with the keys that the user has accepted for storage. -/
structure HostKeyCache where
  keys : SshHostKeys
  accepted : HostKeyId → Option CStr

namespace HostKeyCache

/-- The cache without keys. -/
def empty : HostKeyCache := ⟨.empty, fun _ => none⟩

/-- One confirmation. -/
def step (s : Snprintf) (c : HostKeyCache) (e : Confirmation) : HostKeyCache where
  keys := (qtConfirmSshHostKey s c.keys e).1
  accepted :=
    if e.asked s c.keys && e.mbret = .yes then Function.update c.accepted e.id (some e.keystr)
    else c.accepted

/-- Confirmations, one after the other. -/
def run (s : Snprintf) (es : List Confirmation) : HostKeyCache := es.foldl (step s) empty

/-- The right answer about a key. -/
def answer (c : HostKeyCache) (x : HostKeyId) (key : CStr) : Nat :=
  match c.accepted x with
  | none => 1
  | some stored => if key ≠ stored then 2 else 0

/-- The cache is right about all keys. -/
def Answers (s : Snprintf) (c : HostKeyCache) (x : HostKeyId) : Prop :=
  ∀ key junk, verifyHostKey s c.keys x key junk = c.answer x key

end HostKeyCache

/-- The length from which on names are cut or not terminated. -/
def Snprintf.limit : Snprintf → Nat
  | .c99 => 199
  | .msvc => 200

/-- The name fits, and it is the name of nothing else. -/
def HostKeyId.Own (s : Snprintf) (x : HostKeyId) : Prop :=
  x.name.length < s.limit ∧ ∀ y : HostKeyId, y.name = x.name → y = x

section Names

theorem numeralBytes_injective {i j : Int} (h : numeralBytes i = numeralBytes j) : i = j := by
  have hread : ∀ i, readInt UInt8.toNat 10 (numeralBytes i ++ []) = some (i, []) :=
    fun i => readInt_intNumeral (toNat_numeralBytes i) (by simp)
  have hi := hread i
  have hj := hread j
  rw [h, hj, Option.some.injEq, Prod.mk.injEq] at hi
  exact hi.1.symm

theorem colon_notMem_numeralBytes (i : Int) : 58 ∉ numeralBytes i := by
  intro h
  have hmem : (58 : UInt8).toNat ∈ intNumeral i := toNat_numeralBytes i ▸ List.mem_map_of_mem h
  rcases mem_intNumeral hmem with h | h
  · exact absurd h (by decide)
  · exact absurd h.2 (by decide)

/-- What stands in front of a byte that occurs in neither text. -/
theorem append_cons_inj {xs ys xs' ys' : List UInt8} {b : UInt8} (hx : b ∉ xs) (hy : b ∉ ys)
    (h : xs ++ b :: xs' = ys ++ b :: ys') : xs = ys ∧ xs' = ys' := by
  induction xs generalizing ys with
  | nil =>
      cases ys with
      | nil => simpa using h
      | cons y ys =>
          rw [List.nil_append, List.cons_append, List.cons.injEq] at h
          exact absurd (by simp [h.1]) hy
  | cons x xs ih =>
      cases ys with
      | nil =>
          rw [List.nil_append, List.cons_append, List.cons.injEq] at h
          exact absurd (by simp [h.1]) hx
      | cons y ys =>
          rw [List.cons_append, List.cons_append, List.cons.injEq] at h
          obtain ⟨hxs, hrest⟩ := ih (fun hb => hx (by simp [hb])) (fun hb => hy (by simp [hb])) h.2
          exact ⟨by rw [h.1, hxs], hrest⟩

/-- **Names are different** where the key types have no `@`. -/
theorem HostKeyId.name_injective {x y : HostKeyId} (hx : 64 ∉ x.keytype.val)
    (hy : 64 ∉ y.keytype.val) (h : x.name = y.name) : x = y := by
  obtain ⟨htype, hrest⟩ := append_cons_inj hx hy h
  obtain ⟨hport, hhost⟩ := append_cons_inj (colon_notMem_numeralBytes _)
    (colon_notMem_numeralBytes _) hrest
  obtain ⟨host, port, keytype⟩ := x
  obtain ⟨host', port', keytype'⟩ := y
  obtain rfl := Subtype.ext htype
  obtain rfl := Subtype.ext hhost
  obtain rfl := Subtype.ext (numeralBytes_injective hport)
  rfl

variable {s : Snprintf} {x y : HostKeyId}

/-- A name that fits is printed. -/
theorem hostkeyRegname_of_short (h : x.name.length < s.limit) (junk : CStr) :
    hostkeyRegname s x junk = x.name := by
  rw [hostkeyRegname]
  cases s with
  | c99 =>
      rw [Snprintf.limit] at h
      exact List.take_of_length_le (by omega)
  | msvc => exact if_pos h

/-- What is printed as a name that fits. -/
theorem name_eq_of_hostkeyRegname {junk : CStr} (hx : x.name.length < s.limit)
    (h : hostkeyRegname s y junk = x.name) : y.name = x.name := by
  rw [hostkeyRegname] at h
  cases s with
  | c99 =>
      rw [Snprintf.print] at h
      rw [Snprintf.limit] at hx
      have hlen := congrArg List.length h
      rw [List.length_take] at hlen
      rwa [List.take_of_length_le (by omega)] at h
  | msvc =>
      rw [Snprintf.print] at h
      rw [Snprintf.limit] at hx
      split_ifs at h with hy
      · exact h
      · have hlen := congrArg List.length h
        rw [List.length_append, List.length_take] at hlen
        omega

end Names

section Runs

variable {s : Snprintf} {x : HostKeyId} {c : HostKeyCache}

/-- The accepted key is under the name. -/
def HostKeyCache.Holds (c : HostKeyCache) (x : HostKeyId) : Prop :=
  c.keys.find x.name = c.accepted x

theorem HostKeyCache.Holds.answers (h : c.Holds x) (hx : x.name.length < s.limit) :
    c.Answers s x := by
  intro key junk
  rw [verifyHostKey, hostkeyRegname_of_short hx, h, HostKeyCache.answer]

/-- **One confirmation** leaves what is under the name of another alone. -/
theorem HostKeyCache.Holds.step (h : c.Holds x) (hx : x.Own s) (e : Confirmation) :
    (c.step s e).Holds x := by
  rw [HostKeyCache.Holds] at h ⊢
  rw [HostKeyCache.step, qtConfirmSshHostKey]
  dsimp only
  cases hasked : e.asked s c.keys with
  | false => simpa using h
  | true =>
      rw [if_pos rfl]
      cases hret : e.mbret with
      | no => simpa using h
      | cancel => simpa using h
      | yes =>
          simp only [Bool.true_and, decide_true, if_true, storeHostKey, OrderedMap.find_insert]
          by_cases hid : e.id = x
          · rw [hid, hostkeyRegname_of_short hx.1, if_pos rfl, Function.update_self]
          · have hname : hostkeyRegname s e.id e.junk' ≠ x.name :=
              fun heq => hid (hx.2 e.id (name_eq_of_hostkeyRegname hx.1 heq))
            rw [if_neg hname, Function.update_of_ne (Ne.symm hid)]
            exact h

theorem holds_run (hx : x.Own s) (es : List Confirmation) : (HostKeyCache.run s es).Holds x := by
  suffices h : ∀ c : HostKeyCache, c.Holds x → (es.foldl (HostKeyCache.step s) c).Holds x from
    h .empty rfl
  intro c hc
  induction es generalizing c with
  | nil => exact hc
  | cons e es ih => exact ih _ (hc.step hx e)

/-- The user stores a key in the empty cache. -/
theorem run_singleton (x : HostKeyId) (key junk junk' : CStr) :
    (HostKeyCache.run s [⟨x, key, .yes, junk, junk'⟩]).keys =
        OrderedMap.insert .empty (hostkeyRegname s x junk') key ∧
      (HostKeyCache.run s [⟨x, key, .yes, junk, junk'⟩]).accepted =
        Function.update (fun _ => none) x (some key) := by
  have hasked : Confirmation.asked s .empty ⟨x, key, .yes, junk, junk'⟩ = true := by
    simp [Confirmation.asked, verifyHostKey]
  constructor
  · rw [HostKeyCache.run, List.foldl_cons, List.foldl_nil, HostKeyCache.step, HostKeyCache.empty,
      qtConfirmSshHostKey, if_pos hasked]
    rfl
  · rw [HostKeyCache.run, List.foldl_cons, List.foldl_nil, HostKeyCache.step, HostKeyCache.empty]
    dsimp only
    rw [hasked]
    simp

/-- A key that is stored for another answers. -/
theorem not_answers_of_shared {y : HostKeyId} (hne : y ≠ x) (junk junk' : CStr)
    (h : hostkeyRegname s y junk' = hostkeyRegname s x junk) :
    ∃ es, ¬ (HostKeyCache.run s es).Answers s x := by
  refine ⟨[⟨y, cstr [], .yes, cstr [], junk'⟩], fun hanswers => ?_⟩
  obtain ⟨hkeys, haccepted⟩ := run_singleton (s := s) y (cstr []) (cstr []) junk'
  have heq := hanswers (cstr []) junk
  rw [verifyHostKey, HostKeyCache.answer, hkeys, haccepted, h, OrderedMap.find_insert_self,
    Function.update_of_ne hne.symm] at heq
  simp at heq

/-- **The cache is right about a host, a port and a key type** in every run exactly if
their name fits and is the name of nothing else. -/
theorem answers_iff (s : Snprintf) (x : HostKeyId) :
    (∀ es, (HostKeyCache.run s es).Answers s x) ↔ x.Own s := by
  refine ⟨fun hall => ?_, fun hx es => (holds_run hx es).answers hx.1⟩
  by_contra hown
  by_cases hshort : x.name.length < s.limit
  · -- the name is the name of something else
    have hother : ∃ y : HostKeyId, y.name = x.name ∧ y ≠ x := by
      by_contra hnone
      push Not at hnone
      exact hown ⟨hshort, hnone⟩
    obtain ⟨y, hname, hne⟩ := hother
    obtain ⟨es, hes⟩ := not_answers_of_shared (s := s) hne (cstr []) (cstr [])
      (by rw [hostkeyRegname_of_short hshort, hostkeyRegname_of_short (by rwa [hname]), hname])
    exact hes (hall es)
  · cases s with
    | c99 =>
        -- a longer host has the same name
        rw [Snprintf.limit] at hshort
        have hhost : 0 ∉ x.host.val ++ [97] := by simpa using x.host.property
        have hne : (⟨⟨x.host.val ++ [97], hhost⟩, x.port, x.keytype⟩ : HostKeyId) ≠ x := by
          intro heq
          have hlen := congrArg (fun y : HostKeyId => y.host.val.length) heq
          simp at hlen
        obtain ⟨es, hes⟩ := not_answers_of_shared (s := .c99) hne (cstr []) (cstr []) (by
            have hname : (⟨⟨x.host.val ++ [97], hhost⟩, x.port, x.keytype⟩ : HostKeyId).name =
                x.name ++ [97] := by simp [HostKeyId.name]
            rw [hostkeyRegname, hostkeyRegname, hname, Snprintf.print, Snprintf.print,
              List.take_append_of_le_length (by omega)])
        exact hes (hall es)
    | msvc =>
        -- the name is another one at each call
        rw [Snprintf.limit] at hshort
        have heq := hall [⟨x, cstr [], .yes, cstr [], cstr []⟩] (cstr []) (cstr [97])
        obtain ⟨hkeys, haccepted⟩ := run_singleton (s := .msvc) x (cstr []) (cstr []) (cstr [])
        have hdiff : hostkeyRegname .msvc x (cstr []) ≠ hostkeyRegname .msvc x (cstr [97]) := by
          rw [hostkeyRegname, hostkeyRegname, Snprintf.print, if_neg hshort, Snprintf.print,
            if_neg hshort]
          simp [cstr]
        rw [verifyHostKey, HostKeyCache.answer, hkeys, haccepted, OrderedMap.find_insert,
          if_neg hdiff, Function.update_self] at heq
        simp at heq

/-- The host with `191 + n` characters. -/
def longHost (n : Nat) : HostKeyId where
  host := ⟨List.replicate (191 + n) 97, by simp⟩
  port := ⟨22, by decide⟩
  keytype := ⟨[114, 115, 97], by decide⟩

/-- A key that has been stored for one host answers for another. -/
theorem not_answers_longHost :
    longHost 1 ≠ longHost 2 ∧
      ∃ es, (HostKeyCache.run .c99 es).accepted (longHost 2) = none ∧
        verifyHostKey .c99 (HostKeyCache.run .c99 es).keys (longHost 2) (cstr [107]) (cstr []) = 0 := by
  refine ⟨by decide +kernel, [⟨longHost 1, cstr [107], .yes, cstr [], cstr []⟩], ?_, ?_⟩
  · decide +kernel
  · decide +kernel

end Runs

end Config
end Qutty
