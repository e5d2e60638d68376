import Qutty.Config.Conf

/-!
# The setters of a session's settings

The `conf_set_*` functions of `puttysrc/utils/conf.c`.  Each asserts the types of its
option; a key of -1 is no option at all.  A setter that is called wrongly gives none.
-/

namespace Qutty
namespace Config

open Lib Lib.ByteOrder

/-- An entry without a subkey. -/
def Conf.set (conf : Conf) (k : ConfOption) (v : Value) (h : k.subkey = .none ∧ v.Fits k.value) :
    Conf :=
  { conf with
    scalar := Function.update conf.scalar k (some v)
    scalar_fits := fun j w hw => by
      by_cases hj : j = k
      · subst hj
        rw [Function.update_self, Option.some.injEq] at hw
        exact hw ▸ h
      · rw [Function.update_of_ne hj] at hw
        exact conf.scalar_fits j w hw }

/-- The common part of the setters of options without subkeys. -/
def confSet (conf : Conf) (key : Option ConfOption) (v : Value) : Option Conf :=
  match key with
  | none => none
  | some k => if h : k.subkey = .none ∧ v.Fits k.value then some (conf.set k v h) else none

/-- `conf_set_bool`. -/
def confSetBool (conf : Conf) (key : Option ConfOption) (value : Bool) : Option Conf :=
  confSet conf key (.bool value)

/-- `conf_set_int`. -/
def confSetInt (conf : Conf) (key : Option ConfOption) (value : CInt) : Option Conf :=
  confSet conf key (.int value)

/-- `conf_set_str`. -/
def confSetStr (conf : Conf) (key : Option ConfOption) (value : CStr) : Option Conf :=
  confSet conf key (.string value false)

/-- `conf_set_filename`. -/
def confSetFilename (conf : Conf) (key : Option ConfOption) (value : Filename) : Option Conf :=
  confSet conf key (.filename value)

/-- `conf_set_fontspec`. -/
def confSetFontspec (conf : Conf) (key : Option ConfOption) (value : FontSpec) : Option Conf :=
  confSet conf key (.font value)

/-- An entry with a number as subkey. -/
def Conf.setListItem (conf : Conf) (k : ConfOption) (i : Int) (v : CInt) : Conf :=
  { conf with list := Function.update conf.list k (Function.update (conf.list k) i (some v)) }

/-- `conf_set_int_int`. -/
def confSetIntInt (conf : Conf) (k : ConfOption) (i : Int) (v : CInt) : Option Conf :=
  if k.subkey = .int ∧ k.value = .int then some (conf.setListItem k i v) else none

/-- An entry with a text as subkey. -/
def Conf.setDictItem (conf : Conf) (k : ConfOption) (subkey v : CStr) : Conf :=
  { conf with dict := Function.update conf.dict k ((conf.dict k).insert subkey v) }

/-- `conf_set_str_str`. -/
def confSetStrStr (conf : Conf) (k : ConfOption) (subkey v : CStr) : Option Conf :=
  if k.subkey = .str ∧ k.value = .str then some (conf.setDictItem k subkey v) else none

/-- Without the entry with a text as subkey. -/
def Conf.delDictItem (conf : Conf) (k : ConfOption) (subkey : CStr) : Conf :=
  { conf with dict := Function.update conf.dict k ((conf.dict k).erase subkey) }

/-- `conf_del_str_str`. -/
def confDelStrStr (conf : Conf) (k : ConfOption) (subkey : CStr) : Option Conf :=
  if k.subkey = .str ∧ k.value = .str then some (conf.delDictItem k subkey) else none

section Lemmas

variable {conf conf' : Conf} {k j : ConfOption}

@[ext] theorem Conf.ext' (hscalar : conf.scalar = conf'.scalar) (hlist : conf.list = conf'.list)
    (hdict : conf.dict = conf'.dict) : conf = conf' := by
  cases conf
  cases conf'
  simp_all

variable {v : Value} (h : k.subkey = .none ∧ v.Fits k.value)

theorem Conf.scalar_set : (conf.set k v h).scalar j = if j = k then some v else conf.scalar j :=
  Function.update_apply _ _ _ _

@[simp] theorem Conf.list_set : (conf.set k v h).list = conf.list := rfl

@[simp] theorem Conf.dict_set : (conf.set k v h).dict = conf.dict := rfl

variable {i i' : Int} {n : CInt} {subkey value : CStr}

@[simp] theorem Conf.scalar_setListItem : (conf.setListItem k i n).scalar = conf.scalar := rfl

@[simp] theorem Conf.dict_setListItem : (conf.setListItem k i n).dict = conf.dict := rfl

theorem Conf.list_setListItem :
    (conf.setListItem k i n).list j i' = if j = k ∧ i' = i then some n else conf.list j i' := by
  rw [Conf.setListItem]
  by_cases hj : j = k
  · subst hj
    by_cases hi : i' = i
    · simp [hi]
    · simp [hi]
  · simp [hj]

@[simp] theorem Conf.scalar_setDictItem :
    (conf.setDictItem k subkey value).scalar = conf.scalar := rfl

@[simp] theorem Conf.list_setDictItem : (conf.setDictItem k subkey value).list = conf.list := rfl

theorem Conf.dict_setDictItem :
    (conf.setDictItem k subkey value).dict j =
      if j = k then (conf.dict k).insert subkey value else conf.dict j :=
  Function.update_apply _ _ _ _

/-- A setter is called rightly. -/
theorem confSet_some : confSet conf (some k) v = some (conf.set k v h) := dif_pos h

/-- A setter aborts exactly if its option is none or of another type. -/
theorem confSet_eq_none_iff {key : Option ConfOption} :
    confSet conf key v = none ↔ ∀ k, key = some k → ¬ (k.subkey = .none ∧ v.Fits k.value) := by
  cases key with
  | none => simp [confSet]
  | some k =>
      rw [confSet]
      split_ifs with h
      · simp [h.1, h.2]
      · simpa using h

end Lemmas

end Config
end Qutty
