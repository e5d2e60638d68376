import Mathlib.Tactic
import Mathlib.Order.Basic

/-!
# Maps with ordered keys

A finite map as the list of its entries in the order of the keys, the way
`std::map` is iterated.  The order of the keys is a field, so that every map that
can be built has each key once.

`find_insert` and `find_erase` say what the updates do to lookups, and
`mem_entries` that iteration and lookup agree.
-/

namespace Qutty
namespace Lib

/-- A finite map in the order of its keys. -/
structure OrderedMap (κ ν : Type) [LinearOrder κ] where
  entries : List (κ × ν)
  sorted : entries.Pairwise (fun a b => a.1 < b.1)

namespace OrderedMap

variable {κ ν : Type} [LinearOrder κ]

section Entries

/-- The value at a key. -/
def findIn (k : κ) : List (κ × ν) → Option ν
  | [] => none
  | e :: es => if e.1 = k then some e.2 else findIn k es

/-- An entry is put where it belongs; one with the same key gives way. -/
def insertIn (k : κ) (v : ν) : List (κ × ν) → List (κ × ν)
  | [] => [(k, v)]
  | e :: es =>
      if k < e.1 then (k, v) :: e :: es
      else if k = e.1 then (k, v) :: es
      else e :: insertIn k v es

theorem mem_insertIn {k : κ} {v : ν} {e : κ × ν} {es : List (κ × ν)}
    (h : e ∈ insertIn k v es) : e = (k, v) ∨ e ∈ es := by
  induction es with
  | nil => simpa [insertIn] using h
  | cons d es ih =>
      rw [insertIn] at h
      split_ifs at h
      · simpa using h
      · rcases List.mem_cons.mp h with h | h
        · exact .inl h
        · exact .inr (by simp [h])
      · rcases List.mem_cons.mp h with h | h
        · exact .inr (by simp [h])
        · exact (ih h).imp id (fun h => by simp [h])

theorem sorted_insertIn {k : κ} {v : ν} {es : List (κ × ν)}
    (h : es.Pairwise (fun a b => a.1 < b.1)) :
    (insertIn k v es).Pairwise (fun a b => a.1 < b.1) := by
  induction es with
  | nil => simp [insertIn]
  | cons e es ih =>
      rw [List.pairwise_cons] at h
      rw [insertIn]
      split_ifs with hlt heq
      · rw [List.pairwise_cons, List.pairwise_cons]
        refine ⟨fun d hd => ?_, h⟩
        rcases List.mem_cons.mp hd with rfl | hd
        · exact hlt
        · exact hlt.trans (h.1 d hd)
      · rw [List.pairwise_cons]
        exact ⟨fun d hd => heq ▸ h.1 d hd, h.2⟩
      · rw [List.pairwise_cons]
        refine ⟨fun d hd => ?_, ih h.2⟩
        rcases mem_insertIn hd with rfl | hd
        · exact lt_of_le_of_ne (not_lt.mp hlt) (Ne.symm heq)
        · exact h.1 d hd

theorem findIn_insertIn (k j : κ) (v : ν) (es : List (κ × ν)) :
    findIn j (insertIn k v es) = if k = j then some v else findIn j es := by
  induction es with
  | nil => simp [insertIn, findIn]
  | cons e es ih =>
      rw [insertIn]
      by_cases hkj : k = j
      · subst hkj
        rw [if_pos rfl] at ih ⊢
        split_ifs with hlt heq
        · simp [findIn]
        · simp [findIn]
        · simp [findIn, Ne.symm heq, ih]
      · rw [if_neg hkj] at ih ⊢
        split_ifs with hlt heq
        · simp [findIn, hkj]
        · have hej : e.1 ≠ j := heq ▸ hkj
          simp [findIn, hkj, hej]
        · simp [findIn, ih]

theorem findIn_filter (k j : κ) (es : List (κ × ν)) :
    findIn j (es.filter (fun e => e.1 ≠ k)) = if k = j then none else findIn j es := by
  induction es with
  | nil => simp [findIn]
  | cons e es ih =>
      by_cases hek : e.1 = k
      · simp only [List.filter_cons, hek, ne_eq, not_true_eq_false, decide_false,
          Bool.false_eq_true, if_false, ih, findIn]
        split_ifs <;> rfl
      · by_cases hej : e.1 = j
        · have hkj : k ≠ j := fun h => hek (hej.trans h.symm)
          rw [List.filter_cons_of_pos (by simpa using hek), findIn, findIn, if_pos hej, if_pos hej,
            if_neg hkj]
        · rw [List.filter_cons_of_pos (by simpa using hek), findIn, findIn, if_neg hej,
            if_neg hej, ih]

theorem mem_iff_findIn {es : List (κ × ν)} (h : es.Pairwise (fun a b => a.1 < b.1))
    {k : κ} {v : ν} : (k, v) ∈ es ↔ findIn k es = some v := by
  induction es with
  | nil => simp [findIn]
  | cons e es ih =>
      rw [List.pairwise_cons] at h
      rw [List.mem_cons, ih h.2, findIn]
      split_ifs with hk
      · constructor
        · rintro (he | hv)
          · rw [← he]
          · exact absurd hk (h.1 (k, v) ((ih h.2).mpr hv)).ne
        · intro hv
          exact .inl (Prod.ext hk.symm (Option.some.inj hv).symm)
      · constructor
        · rintro (he | hv)
          · exact absurd (congrArg Prod.fst he).symm hk
          · exact hv
        · exact .inr

theorem insertIn_eq_self {k : κ} {v : ν} {es : List (κ × ν)}
    (hsorted : es.Pairwise (fun a b => a.1 < b.1)) (h : findIn k es = some v) :
    insertIn k v es = es := by
  induction es with
  | nil => simp [findIn] at h
  | cons e es ih =>
      rw [List.pairwise_cons] at hsorted
      rw [findIn] at h
      rw [insertIn]
      split_ifs at h with hk
      · obtain rfl := Option.some.inj h
        rw [if_neg (by simp [hk]), if_pos hk.symm, ← hk]
      · have hlt := hsorted.1 (k, v) ((mem_iff_findIn hsorted.2).mpr h)
        rw [if_neg hlt.not_gt, if_neg (Ne.symm hk), ih hsorted.2 h]

theorem insertIn_of_lt {k : κ} {v : ν} {es : List (κ × ν)} (h : ∀ e ∈ es, e.1 < k) :
    insertIn k v es = es ++ [(k, v)] := by
  induction es with
  | nil => rfl
  | cons e es ih =>
      have hlt := h e (by simp)
      rw [insertIn, if_neg hlt.not_gt, if_neg hlt.ne', ih (fun d hd => h d (by simp [hd]))]
      rfl

theorem findIn_of_lt {k : κ} {es : List (κ × ν)} (h : ∀ e ∈ es, e.1 < k) : findIn k es = none := by
  induction es with
  | nil => rfl
  | cons e es ih =>
      rw [findIn, if_neg (h e (by simp)).ne, ih (fun d hd => h d (by simp [hd]))]

end Entries

/-- The empty map. -/
def empty : OrderedMap κ ν := ⟨[], .nil⟩

/-- `find`. -/
def find (m : OrderedMap κ ν) (k : κ) : Option ν := findIn k m.entries

/-- `m[k] = v`. -/
def insert (m : OrderedMap κ ν) (k : κ) (v : ν) : OrderedMap κ ν :=
  ⟨insertIn k v m.entries, sorted_insertIn m.sorted⟩

/-- `insert`: a key that is there keeps its value. -/
def insertNew (m : OrderedMap κ ν) (k : κ) (v : ν) : OrderedMap κ ν :=
  match m.find k with
  | none => m.insert k v
  | some _ => m

/-- `erase`. -/
def erase (m : OrderedMap κ ν) (k : κ) : OrderedMap κ ν :=
  ⟨m.entries.filter (fun e => e.1 ≠ k), m.sorted.filter _⟩

/-- The keys, in order. -/
def keys (m : OrderedMap κ ν) : List κ := m.entries.map Prod.fst

/-- The values, in the order of the keys. -/
def values (m : OrderedMap κ ν) : List ν := m.entries.map Prod.snd

variable (m : OrderedMap κ ν) (k j : κ) (v : ν)

@[simp] theorem find_empty : (empty : OrderedMap κ ν).find k = none := rfl

theorem find_insert : (m.insert k v).find j = if k = j then some v else m.find j :=
  findIn_insertIn k j v m.entries

@[simp] theorem find_insert_self : (m.insert k v).find k = some v := by
  simp [find_insert]

theorem find_insertNew :
    (m.insertNew k v).find j = if k = j then (m.find k).or (some v) else m.find j := by
  unfold insertNew
  split
  · rename_i hk
    rw [find_insert, hk]
    rfl
  · rename_i u hk
    split_ifs with hkj
    · rw [← hkj, hk]
      rfl
    · rfl

theorem find_erase : (m.erase k).find j = if k = j then none else m.find j :=
  findIn_filter k j m.entries

variable {m k v} in
theorem mem_entries : (k, v) ∈ m.entries ↔ m.find k = some v :=
  mem_iff_findIn m.sorted

variable {m k} in
theorem mem_keys : k ∈ m.keys ↔ (m.find k).isSome := by
  rw [keys, List.mem_map, Option.isSome_iff_exists]
  constructor
  · rintro ⟨⟨k', v⟩, he, rfl⟩
    exact ⟨v, mem_entries.mp he⟩
  · rintro ⟨v, hv⟩
    exact ⟨(k, v), mem_entries.mpr hv, rfl⟩

variable {m v} in
theorem mem_values : v ∈ m.values ↔ ∃ k, m.find k = some v := by
  rw [values, List.mem_map]
  constructor
  · rintro ⟨⟨k, v'⟩, he, rfl⟩
    exact ⟨k, mem_entries.mp he⟩
  · rintro ⟨k, hk⟩
    exact ⟨(k, v), mem_entries.mpr hk, rfl⟩

/-- Nothing changes exactly if the value is there. -/
theorem insert_eq_self_iff : m.insert k v = m ↔ m.find k = some v := by
  constructor
  · intro h
    rw [← h, find_insert_self]
  · intro h
    obtain ⟨entries, sorted⟩ := m
    rw [insert]
    congr 1
    exact insertIn_eq_self sorted h

/-- Every key occurs once. -/
theorem keys_nodup : m.keys.Nodup :=
  (List.pairwise_map.mpr (m.sorted.imp fun h => h)).imp (fun h => ne_of_lt h)

variable {m} in
/-- A map that is injective has each value once. -/
theorem values_nodup (h : ∀ j k v, m.find j = some v → m.find k = some v → j = k) :
    m.values.Nodup := by
  have hentries : m.entries.Nodup := List.Nodup.of_map Prod.fst m.keys_nodup
  refine hentries.map_on ?_
  rintro ⟨j, v⟩ hj ⟨k, w⟩ hk heq
  have hv : v = w := heq
  subst hv
  rw [h j k v (mem_entries.mp hj) (mem_entries.mp hk)]

section Rebuilding

variable {μ : Type}

theorem ext_entries {m m' : OrderedMap κ ν} (h : m.entries = m'.entries) : m = m' := by
  cases m
  cases m'
  simp_all

/-- **Maps with the same lookups are the same.** -/
theorem ext_find {m m' : OrderedMap κ ν} (h : ∀ k, m.find k = m'.find k) : m = m' := by
  have hnodup : ∀ m : OrderedMap κ ν, m.entries.Nodup := fun m =>
    List.Nodup.of_map Prod.fst m.keys_nodup
  have hperm : m.entries.Perm m'.entries :=
    (List.perm_ext_iff_of_nodup (hnodup m) (hnodup m')).mpr fun e => by
      rw [mem_entries, mem_entries, h]
  refine ext_entries (hperm.eq_of_pairwise (fun a b _ _ hab hba => ?_) m.sorted m'.sorted)
  exact absurd hab hba.not_gt

/-- The same keys with other values. -/
def mapValues (f : κ → ν → μ) (m : OrderedMap κ ν) : OrderedMap κ μ :=
  ⟨m.entries.map (fun e => (e.1, f e.1 e.2)), List.pairwise_map.mpr m.sorted⟩

@[simp] theorem keys_mapValues (f : κ → ν → μ) (m : OrderedMap κ ν) :
    (m.mapValues f).keys = m.keys := by
  rw [keys, keys, mapValues, List.map_map]
  rfl

@[simp] theorem find_mapValues (f : κ → ν → μ) (m : OrderedMap κ ν) (k : κ) :
    (m.mapValues f).find k = (m.find k).map (f k) := by
  obtain ⟨es, hes⟩ := m
  show findIn k (es.map (fun e => (e.1, f e.1 e.2))) = (findIn k es).map (f k)
  clear hes
  induction es with
  | nil => rfl
  | cons e es ih =>
      rw [List.map_cons, findIn, findIn]
      split_ifs with h
      · subst h
        rfl
      · exact ih

/-- Entries in the order of their keys are appended one by one. -/
theorem foldl_add_entries {add : OrderedMap κ μ → κ → μ → OrderedMap κ μ}
    (hadd : ∀ m k v, (∀ e ∈ m.entries, e.1 < k) → (add m k v).entries = m.entries ++ [(k, v)])
    (f : κ → ν → μ) {es : List (κ × ν)} (hes : es.Pairwise (fun a b => a.1 < b.1))
    (m : OrderedMap κ μ) (hm : ∀ e ∈ m.entries, ∀ d ∈ es, e.1 < d.1) :
    (es.foldl (fun m e => add m e.1 (f e.1 e.2)) m).entries =
      m.entries ++ es.map (fun e => (e.1, f e.1 e.2)) := by
  induction es generalizing m with
  | nil => simp
  | cons d es ih =>
      rw [List.pairwise_cons] at hes
      have hfirst := hadd m d.1 (f d.1 d.2) (fun e he => hm e he d (by simp))
      rw [List.foldl_cons, ih hes.2, hfirst, List.map_cons, List.append_assoc]
      · rfl
      · intro e he c hc
        rw [hfirst] at he
        rcases List.mem_append.mp he with he | he
        · exact hm e he c (by simp [hc])
        · obtain rfl := List.mem_singleton.mp he
          exact hes.1 c hc

/-- A map is built from its entries. -/
theorem foldl_insert (f : κ → ν → μ) (m : OrderedMap κ ν) :
    m.entries.foldl (fun acc e => acc.insert e.1 (f e.1 e.2)) empty = m.mapValues f :=
  ext_entries (foldl_add_entries (fun _ _ _ h => insertIn_of_lt h) f m.sorted empty (by
    intro e he
    exact absurd he (List.not_mem_nil)))

/-- The same with `insert` of values that are new. -/
theorem foldl_insertNew (f : κ → ν → μ) (m : OrderedMap κ ν) :
    m.entries.foldl (fun acc e => acc.insertNew e.1 (f e.1 e.2)) empty = m.mapValues f := by
  refine ext_entries (foldl_add_entries (fun m k v h => ?_) f m.sorted empty (by
    intro e he
    exact absurd he (List.not_mem_nil)))
  have hfind : m.find k = none := findIn_of_lt h
  rw [insertNew, hfind]
  exact insertIn_of_lt h

theorem mapValues_snd (m : OrderedMap κ ν) : m.mapValues (fun _ v => v) = m :=
  ext_entries (List.map_id m.entries)

end Rebuilding

end OrderedMap

section Multimap

variable {κ ν : Type} [LinearOrder κ]

/-- `insert` of a `std::multimap`: behind the entries with the same key. -/
def multiInsert (k : κ) (v : ν) : List (κ × ν) → List (κ × ν)
  | [] => [(k, v)]
  | e :: es => if k < e.1 then (k, v) :: e :: es else e :: multiInsert k v es

theorem perm_multiInsert (k : κ) (v : ν) (es : List (κ × ν)) :
    (multiInsert k v es).Perm ((k, v) :: es) := by
  induction es with
  | nil => exact .refl _
  | cons e es ih =>
      rw [multiInsert]
      split_ifs
      · exact .refl _
      · exact (ih.cons e).trans (.swap (k, v) e es)

theorem sorted_multiInsert {k : κ} {v : ν} {es : List (κ × ν)}
    (h : es.Pairwise (fun a b => a.1 ≤ b.1)) :
    (multiInsert k v es).Pairwise (fun a b => a.1 ≤ b.1) := by
  induction es with
  | nil => simp [multiInsert]
  | cons e es ih =>
      rw [List.pairwise_cons] at h
      rw [multiInsert]
      split_ifs with hlt
      · rw [List.pairwise_cons, List.pairwise_cons]
        refine ⟨fun d hd => ?_, h⟩
        rcases List.mem_cons.mp hd with rfl | hd
        · exact hlt.le
        · exact hlt.le.trans (h.1 d hd)
      · rw [List.pairwise_cons]
        refine ⟨fun d hd => ?_, ih h.2⟩
        rcases List.mem_cons.mp ((perm_multiInsert k v es).mem_iff.mp hd) with rfl | hd
        · exact not_lt.mp hlt
        · exact h.1 d hd

end Multimap

section Writes

variable {κ ν : Type} [DecidableEq κ] (k : κ)

/-- The last value that is written to a key. -/
def lastWrite : List (κ × ν) → Option ν
  | [] => none
  | (j, v) :: ws => (lastWrite ws).or (if j = k then some v else none)

theorem lastWrite_append (ws ws' : List (κ × ν)) :
    lastWrite k (ws ++ ws') = (lastWrite k ws').or (lastWrite k ws) := by
  induction ws with
  | nil => simp [lastWrite]
  | cons w ws ih => rw [List.cons_append, lastWrite, lastWrite, ih, Option.or_assoc]

theorem lastWrite_isSome {ws : List (κ × ν)} :
    (lastWrite k ws).isSome ↔ k ∈ ws.map Prod.fst := by
  induction ws with
  | nil => simp [lastWrite]
  | cons w ws ih =>
      obtain ⟨j, v⟩ := w
      rw [lastWrite, Option.isSome_or, Bool.or_eq_true, ih, List.map_cons, List.mem_cons]
      split_ifs with h
      · simp [h]
      · simp [Ne.symm h]

end Writes

section Building

-- keys may be compared in another way than by their order
variable {κ ν : Type} [LinearOrder κ] [DecidableEq κ]

/-- A map after several writes. -/
theorem OrderedMap.find_foldl_insert (ws : List (κ × ν)) (m : OrderedMap κ ν) (k : κ) :
    (ws.foldl (fun m w => m.insert w.1 w.2) m).find k = (lastWrite k ws).or (m.find k) := by
  induction ws generalizing m with
  | nil => rfl
  | cons w ws ih =>
      rw [List.foldl_cons, ih, OrderedMap.find_insert, lastWrite, Option.or_assoc]
      by_cases h : w.1 = k
      · rw [if_pos h, if_pos h]
        rfl
      · rw [if_neg h, if_neg h]
        rfl

/-- The entries of a map are writes to different keys. -/
theorem OrderedMap.lastWrite_entries (m : OrderedMap κ ν) (k : κ) :
    lastWrite k m.entries = m.find k := by
  have hbuilt := OrderedMap.find_foldl_insert m.entries OrderedMap.empty k
  rw [OrderedMap.find_empty, Option.or_none] at hbuilt
  rw [← hbuilt, OrderedMap.foldl_insert (fun _ v => v), OrderedMap.mapValues_snd]

end Building

end Lib
end Qutty
