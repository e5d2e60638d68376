import Mathlib.Tactic

/-!
# Paths, and the tree of some paths

A path is a text with separators.  `dirOf` is the part before the last separator, and empty if
there is none; `baseOf` is the part behind it.  `prefixesFrom` lists what comes about when the
parts of a path are put together one after the other.

`pathsOf` lists the paths of a tree in the order of their creation, when some paths are added
one after the other, each with the directories that are still missing.  The empty path is the
root.  What is below a directory are its `childrenOf`.
-/

namespace Qutty
namespace Lib

section Paths

variable {α : Type} [DecidableEq α] (sep : α)

/-- The part before the last separator. -/
def dirOf (path : List α) : List α := [sep].intercalate (path.splitOn sep).dropLast

/-- The part behind the last separator. -/
def baseOf (path : List α) : List α := (path.splitOn sep).getLastD []

/-- The paths from the first parts on, behind a text. -/
def prefixesFrom : List α → List (List α) → List (List α)
  | _, [] => []
  | tmp, part :: parts => (tmp ++ part) :: prefixesFrom (tmp ++ part ++ [sep]) parts

/-- The paths of the directories above a path, and the path itself. -/
def prefixesOf (path : List α) : List (List α) := prefixesFrom sep [] (path.splitOn sep)

variable {sep} {d c q p n tmp : List α} {parts : List (List α)}

theorem dirOf_of_notMem (h : sep ∉ c) : dirOf sep c = [] := by
  rw [dirOf, List.splitOn_eq_singleton h]
  rfl

theorem baseOf_of_notMem (h : sep ∉ c) : baseOf sep c = c := by
  rw [baseOf, List.splitOn_eq_singleton h]
  rfl

theorem splitOn_append_cons (h : sep ∉ c) (d : List α) :
    (d ++ sep :: c).splitOn sep = d.splitOn sep ++ [c] := by
  rw [List.splitOn_append_cons_self, List.splitOn_eq_singleton h]

theorem dirOf_append_cons (h : sep ∉ c) (d : List α) : dirOf sep (d ++ sep :: c) = d := by
  rw [dirOf, splitOn_append_cons h, List.dropLast_concat, List.intercalate_splitOn]

theorem baseOf_append_cons (h : sep ∉ c) (d : List α) : baseOf sep (d ++ sep :: c) = c := by
  rw [baseOf, splitOn_append_cons h]
  simp

variable (sep) in
/-- A path has no separator, or a last one. -/
theorem path_cases (q : List α) : sep ∉ q ∨ ∃ d c, sep ∉ c ∧ q = d ++ sep :: c := by
  induction q with
  | nil => exact .inl List.not_mem_nil
  | cons a q ih =>
      rcases ih with h | ⟨d, c, hc, rfl⟩
      · by_cases ha : a = sep
        · exact .inr ⟨[], q, h, by rw [ha]; rfl⟩
        · refine .inl fun hm => ?_
          rcases List.mem_cons.mp hm with heq | hm
          · exact ha heq.symm
          · exact h hm
      · exact .inr ⟨a :: d, c, hc, rfl⟩

variable (sep) in
theorem baseOf_notMem (q : List α) : sep ∉ baseOf sep q := by
  rcases path_cases sep q with h | ⟨d, c, hc, rfl⟩
  · rwa [baseOf_of_notMem h]
  · rwa [baseOf_append_cons hc]

omit [DecidableEq α] in
theorem prefixesFrom_append (tmp : List α) (parts parts' : List (List α)) :
    prefixesFrom sep tmp (parts ++ parts') = prefixesFrom sep tmp parts ++
      prefixesFrom sep (tmp ++ parts.flatMap (· ++ [sep])) parts' := by
  induction parts generalizing tmp with
  | nil => simp [prefixesFrom]
  | cons part parts ih => simp [prefixesFrom, ih, List.append_assoc]

/-- A text with separators behind its parts is the path with one more separator. -/
theorem flatMap_splitOn (d : List α) :
    (d.splitOn sep).flatMap (· ++ [sep]) = d ++ [sep] := by
  have hjoin : ∀ parts : List (List α), parts ≠ [] →
      parts.flatMap (· ++ [sep]) = [sep].intercalate parts ++ [sep] := by
    intro parts hne
    induction parts with
    | nil => exact absurd rfl hne
    | cons part parts ih =>
        cases parts with
        | nil => simp
        | cons next parts =>
            rw [List.flatMap_cons, ih (List.cons_ne_nil _ _), List.intercalate_cons_cons]
            simp
  rw [hjoin _ (List.splitOn_ne_nil sep d), List.intercalate_splitOn]

@[simp] theorem prefixesOf_of_notMem (h : sep ∉ c) : prefixesOf sep c = [c] := by
  rw [prefixesOf, List.splitOn_eq_singleton h]
  rfl

theorem prefixesOf_append_cons (h : sep ∉ c) (d : List α) :
    prefixesOf sep (d ++ sep :: c) = prefixesOf sep d ++ [d ++ sep :: c] := by
  rw [prefixesOf, splitOn_append_cons h, prefixesFrom_append, flatMap_splitOn]
  simp [prefixesOf, prefixesFrom]

variable (sep) in
/-- Induction along the directories of a path. -/
theorem path_induction {P : List α → Prop} (base : ∀ c, sep ∉ c → P c)
    (step : ∀ d c, sep ∉ c → P d → P (d ++ sep :: c)) (q : List α) : P q := by
  induction hn : q.length using Nat.strong_induction_on generalizing q with
  | _ m ih =>
      rcases path_cases sep q with h | ⟨d, c, hc, rfl⟩
      · exact base q h
      · refine step d c hc (ih d.length ?_ d rfl)
        rw [← hn, List.length_append, List.length_cons]
        omega

variable (sep) in
theorem length_dirOf_lt (hq : q ≠ []) : (dirOf sep q).length < q.length := by
  rcases path_cases sep q with h | ⟨d, c, hc, rfl⟩
  · rw [dirOf_of_notMem h]
    exact List.length_pos_of_ne_nil hq
  · rw [dirOf_append_cons hc, List.length_append, List.length_cons]
    omega

/-- The parts of a path with a directory are those of the directory and one more. -/
theorem dropLast_splitOn (h : dirOf sep q ≠ []) :
    (q.splitOn sep).dropLast = (dirOf sep q).splitOn sep := by
  rcases path_cases sep q with hq | ⟨d, c, hc, rfl⟩
  · exact absurd (dirOf_of_notMem hq) h
  · rw [dirOf_append_cons hc, splitOn_append_cons hc, List.dropLast_concat]

/-- The parts of a path have no separator. -/
theorem notMem_of_mem_splitOn (h : c ∈ q.splitOn sep) : sep ∉ c := by
  induction q using path_induction sep with
  | base q hq =>
      rw [List.splitOn_eq_singleton hq, List.mem_singleton] at h
      rwa [h]
  | step d b hb ih =>
      rw [splitOn_append_cons hb, List.mem_append, List.mem_singleton] at h
      rcases h with h | rfl
      · exact ih h
      · exact hb

theorem self_mem_prefixesOf (q : List α) : q ∈ prefixesOf sep q := by
  rcases path_cases sep q with h | ⟨d, c, hc, rfl⟩
  · simp [h]
  · simp [prefixesOf_append_cons hc]

theorem prefix_of_mem_prefixesOf (h : p ∈ prefixesOf sep q) : p <+: q := by
  induction q using path_induction sep with
  | base c hc =>
      rw [prefixesOf_of_notMem hc, List.mem_singleton] at h
      rw [h]
  | step d c hc ih =>
      rw [prefixesOf_append_cons hc, List.mem_append, List.mem_singleton] at h
      rcases h with h | rfl
      · exact (ih h).trans (List.prefix_append _ _)
      · exact List.prefix_rfl

theorem getLastD_prefixesOf (q : List α) : (prefixesOf sep q).getLastD [] = q := by
  rcases path_cases sep q with h | ⟨d, c, hc, rfl⟩
  · rw [prefixesOf_of_notMem h]
    rfl
  · rw [prefixesOf_append_cons hc, List.getLastD_concat]

/-- A path that begins with a part that is not empty has no empty directory. -/
theorem nil_notMem_prefixesOf (hq : q ≠ []) (hhead : q.head? ≠ some sep) :
    [] ∉ prefixesOf sep q := by
  induction q using path_induction sep with
  | base c hc =>
      rw [prefixesOf_of_notMem hc, List.mem_singleton]
      exact Ne.symm hq
  | step d c hc ih =>
      have hd : d ≠ [] := by
        rintro rfl
        exact hhead rfl
      have hdhead : d.head? ≠ some sep := by
        intro h
        refine hhead ?_
        rw [List.head?_append, h]
        rfl
      rw [prefixesOf_append_cons hc, List.mem_append, List.mem_singleton]
      exact fun h => h.elim (ih hd hdhead) (by simp)

theorem nodup_prefixesOf (q : List α) : (prefixesOf sep q).Nodup := by
  induction q using path_induction sep with
  | base c hc =>
      rw [prefixesOf_of_notMem hc]
      exact List.nodup_singleton c
  | step d c hc ih =>
      rw [prefixesOf_append_cons hc]
      refine List.nodup_append.mpr ⟨ih, List.nodup_singleton _, ?_⟩
      rintro x hx y hy rfl
      have hle := (prefix_of_mem_prefixesOf hx).length_le
      rw [List.mem_singleton.mp hy, List.length_append, List.length_cons] at hle
      omega

end Paths

section Tree

variable {α : Type} [DecidableEq α] {sep : α} {K K' : List (List α)} {d c q p n tmp : List α}
  {parts names : List (List α)}

/-- A path is added to those of a tree, if it is missing. -/
def insertPath (K : List (List α)) (q : List α) : List (List α) :=
  if q = [] ∨ q ∈ K then K else K ++ [q]

variable (sep) in
/-- A path is added, with its directories. -/
def addPath (K : List (List α)) (n : List α) : List (List α) :=
  (prefixesOf sep n).foldl insertPath K

variable (sep) in
/-- The paths of the tree of some paths. -/
def pathsOf (names : List (List α)) : List (List α) := names.foldl (addPath sep) []

variable (sep) in
/-- What is directly below a directory. -/
def childrenOf (K : List (List α)) (d : List α) : List (List α) :=
  K.filter (fun q => dirOf sep q = d)

variable (sep) in
/-- Every path stands once in the list, and its directory is there too. -/
structure PathTree (K : List (List α)) : Prop where
  nodup : K.Nodup
  nil_notMem : [] ∉ K
  closed : ∀ q ∈ K, dirOf sep q = [] ∨ dirOf sep q ∈ K

theorem PathTree.nil : PathTree sep ([] : List (List α)) :=
  ⟨.nil, List.not_mem_nil, fun _ hq => absurd hq List.not_mem_nil⟩

theorem prefix_insertPath (K : List (List α)) (q : List α) : K <+: insertPath K q := by
  rw [insertPath]
  split_ifs
  · exact List.prefix_rfl
  · exact List.prefix_append _ _

theorem mem_insertPath : p ∈ insertPath K q ↔ p ∈ K ∨ p = q ∧ q ≠ [] := by
  rw [insertPath]
  split_ifs with h
  · refine ⟨.inl, fun hp => hp.elim id ?_⟩
    rintro ⟨rfl, hne⟩
    exact h.resolve_left hne
  · rw [List.mem_append, List.mem_singleton]
    have hne : q ≠ [] := fun hq => h (.inl hq)
    simp [hne]

theorem mem_foldl_insertPath {ps : List (List α)} :
    p ∈ ps.foldl insertPath K ↔ p ∈ K ∨ p ∈ ps ∧ p ≠ [] := by
  induction ps generalizing K with
  | nil => simp
  | cons q ps ih =>
      rw [List.foldl_cons, ih, mem_insertPath, List.mem_cons]
      constructor
      · rintro ((hp | ⟨rfl, hne⟩) | ⟨hp, hne⟩)
        · exact .inl hp
        · exact .inr ⟨.inl rfl, hne⟩
        · exact .inr ⟨.inr hp, hne⟩
      · rintro (hp | ⟨rfl | hp, hne⟩)
        · exact .inl (.inl hp)
        · exact .inl (.inr ⟨rfl, hne⟩)
        · exact .inr ⟨hp, hne⟩

theorem prefix_foldl_insertPath (K ps : List (List α)) : K <+: ps.foldl insertPath K := by
  induction ps generalizing K with
  | nil => exact List.prefix_rfl
  | cons q ps ih => exact (prefix_insertPath K q).trans (ih _)

/-- Nothing happens if all of the paths are there. -/
theorem foldl_insertPath_eq_self {ps : List (List α)} (h : ∀ p ∈ ps, p = [] ∨ p ∈ K) :
    ps.foldl insertPath K = K := by
  induction ps with
  | nil => rfl
  | cons q ps ih =>
      have hq : insertPath K q = K := if_pos (h q List.mem_cons_self)
      rw [List.foldl_cons, hq]
      exact ih fun p hp => h p (List.mem_cons_of_mem _ hp)

theorem PathTree.insertPath (hK : PathTree sep K) (hd : dirOf sep q = [] ∨ dirOf sep q ∈ K) :
    PathTree sep (insertPath K q) := by
  rw [Lib.insertPath]
  split_ifs with h
  · exact hK
  · rw [not_or] at h
    refine ⟨List.nodup_append.mpr ⟨hK.nodup, List.nodup_singleton q, ?_⟩, ?_, ?_⟩
    · rintro x hx y hy rfl
      rw [List.mem_singleton.mp hy] at hx
      exact h.2 hx
    · rw [List.mem_append, List.mem_singleton, not_or]
      exact ⟨hK.nil_notMem, Ne.symm h.1⟩
    · intro p hp
      rcases List.mem_append.mp hp with hp | hp
      · exact (hK.closed p hp).imp_right (List.mem_append_left _)
      · rw [List.mem_singleton.mp hp]
        exact hd.imp_right (List.mem_append_left _)

theorem addPath_of_notMem (h : sep ∉ c) (K : List (List α)) :
    addPath sep K c = insertPath K c := by
  rw [addPath, prefixesOf_of_notMem h]
  rfl

theorem addPath_append_cons (h : sep ∉ c) (K : List (List α)) (d : List α) :
    addPath sep K (d ++ sep :: c) = insertPath (addPath sep K d) (d ++ sep :: c) := by
  rw [addPath, prefixesOf_append_cons h, List.foldl_append]
  rfl

/-- A path is added after its directory. -/
theorem addPath_eq_insertPath (K : List (List α)) (n : List α) :
    addPath sep K n = insertPath (addPath sep K (dirOf sep n)) n := by
  rcases path_cases sep n with h | ⟨d, c, hc, rfl⟩
  · rw [dirOf_of_notMem h, addPath_of_notMem h, addPath_of_notMem List.not_mem_nil]
    rfl
  · rw [dirOf_append_cons hc, addPath_append_cons hc]

theorem mem_addPath : p ∈ addPath sep K n ↔ p ∈ K ∨ p ∈ prefixesOf sep n ∧ p ≠ [] :=
  mem_foldl_insertPath

theorem PathTree.addPath (hK : PathTree sep K) (n : List α) : PathTree sep (addPath sep K n) := by
  induction n using path_induction sep with
  | base c hc =>
      rw [addPath_of_notMem hc]
      exact hK.insertPath (.inl (dirOf_of_notMem hc))
  | step d c hc ih =>
      rw [addPath_append_cons hc]
      refine ih.insertPath ?_
      rw [dirOf_append_cons hc]
      by_cases hd : d = []
      · exact .inl hd
      · exact .inr (mem_addPath.mpr (.inr ⟨self_mem_prefixesOf d, hd⟩))

/-- With a path the directories above it are there. -/
theorem PathTree.prefixesOf (hK : PathTree sep K) (hq : q = [] ∨ q ∈ K) :
    ∀ p ∈ prefixesOf sep q, p = [] ∨ p ∈ K := by
  induction q using path_induction sep with
  | base c hc =>
      intro p hp
      rw [prefixesOf_of_notMem hc, List.mem_singleton] at hp
      rwa [hp]
  | step d c hc ih =>
      have hmem := hq.resolve_left (by simp)
      have hd := hK.closed _ hmem
      rw [dirOf_append_cons hc] at hd
      intro p hp
      rw [prefixesOf_append_cons hc, List.mem_append, List.mem_singleton] at hp
      rcases hp with hp | rfl
      · exact ih hd p hp
      · exact .inr hmem

theorem PathTree.addPath_eq_self (hK : PathTree sep K) (hq : q = [] ∨ q ∈ K) :
    Lib.addPath sep K q = K :=
  foldl_insertPath_eq_self (hK.prefixesOf hq)

variable (sep) in
/-- The directory of a path that is to be added is there before. -/
theorem dirOf_mem_addPath (K : List (List α)) (n : List α) :
    dirOf sep n = [] ∨ dirOf sep n ∈ Lib.addPath sep K (dirOf sep n) := by
  by_cases hd : dirOf sep n = []
  · exact .inl hd
  · exact .inr (mem_addPath.mpr (.inr ⟨self_mem_prefixesOf _, hd⟩))

variable (sep) in
theorem notMem_addPath_dirOf (hne : n ≠ []) (hn : n ∉ K) :
    n ∉ Lib.addPath sep K (dirOf sep n) := by
  intro h
  rcases mem_addPath.mp h with h | ⟨h, -⟩
  · exact hn h
  · have hle := (prefix_of_mem_prefixesOf h).length_le
    have hlt := length_dirOf_lt sep hne
    omega

variable (sep) in
/-- A path that is not there yet comes at the end. -/
theorem addPath_eq_append (hne : n ≠ []) (hn : n ∉ K) :
    Lib.addPath sep K n = Lib.addPath sep K (dirOf sep n) ++ [n] := by
  rw [addPath_eq_insertPath, Lib.insertPath, if_neg]
  rw [not_or]
  exact ⟨hne, notMem_addPath_dirOf sep hne hn⟩

theorem mem_foldl_addPath : p ∈ names.foldl (addPath sep) K ↔
    p ∈ K ∨ p ≠ [] ∧ ∃ n ∈ names, p ∈ prefixesOf sep n := by
  induction names generalizing K with
  | nil => simp
  | cons n names ih =>
      rw [List.foldl_cons, ih, mem_addPath]
      constructor
      · rintro ((hp | ⟨hp, hne⟩) | ⟨hne, m, hm, hp⟩)
        · exact .inl hp
        · exact .inr ⟨hne, n, List.mem_cons_self, hp⟩
        · exact .inr ⟨hne, m, List.mem_cons_of_mem _ hm, hp⟩
      · rintro (hp | ⟨hne, m, hm, hp⟩)
        · exact .inl (.inl hp)
        · rcases List.mem_cons.mp hm with rfl | hm
          · exact .inl (.inr ⟨hp, hne⟩)
          · exact .inr ⟨hne, m, hm, hp⟩

theorem prefix_foldl_addPath (K names : List (List α)) : K <+: names.foldl (addPath sep) K := by
  induction names generalizing K with
  | nil => exact List.prefix_rfl
  | cons n names ih => exact (prefix_foldl_insertPath K _).trans (ih _)

/-- **What is in the tree**: the given paths and the directories above them. -/
theorem mem_pathsOf : p ∈ pathsOf sep names ↔ p ≠ [] ∧ ∃ n ∈ names, p ∈ prefixesOf sep n := by
  rw [pathsOf, mem_foldl_addPath]
  simp

theorem pathTree_foldl (hK : PathTree sep K) (names : List (List α)) :
    PathTree sep (names.foldl (addPath sep) K) := by
  induction names generalizing K with
  | nil => exact hK
  | cons n names ih => exact ih (hK.addPath n)

variable (sep) in
theorem pathTree_pathsOf (names : List (List α)) : PathTree sep (pathsOf sep names) :=
  pathTree_foldl .nil names

theorem mem_childrenOf : q ∈ childrenOf sep K d ↔ q ∈ K ∧ dirOf sep q = d := by
  rw [childrenOf, List.mem_filter, decide_eq_true_eq]

theorem childrenOf_append (K K' : List (List α)) (d : List α) :
    childrenOf sep (K ++ K') d = childrenOf sep K d ++ childrenOf sep K' d :=
  List.filter_append ..

theorem nodup_childrenOf (hK : PathTree sep K) (d : List α) : (childrenOf sep K d).Nodup :=
  hK.nodup.filter _

variable (sep) in
/-- A path is put together from its directory and its last part. -/
theorem path_eq (q : List α) :
    q = dirOf sep q ++ sep :: baseOf sep q ∨ dirOf sep q = [] ∧ q = baseOf sep q := by
  rcases path_cases sep q with h | ⟨d, c, hc, rfl⟩
  · exact .inr ⟨dirOf_of_notMem h, (baseOf_of_notMem h).symm⟩
  · rw [dirOf_append_cons hc, baseOf_append_cons hc]
    exact .inl rfl

/-- A path behind a directory, or with no part before it. -/
theorem split_tmp (htmp : tmp = d ++ [sep] ∨ d = [] ∧ tmp = []) (hc : sep ∉ c) :
    dirOf sep (tmp ++ c) = d ∧ baseOf sep (tmp ++ c) = c := by
  rcases htmp with rfl | ⟨rfl, rfl⟩
  · rw [List.append_assoc, List.singleton_append]
    exact ⟨dirOf_append_cons hc d, baseOf_append_cons hc d⟩
  · rw [List.nil_append]
    exact ⟨dirOf_of_notMem hc, baseOf_of_notMem hc⟩

end Tree

section Below

variable {α : Type} [DecidableEq α] {sep : α} {d e x y : List α}

variable (sep) in
/-- A path is a directory or lies below it. -/
def Below (d e : List α) : Prop := d ++ [sep] <+: e ++ [sep]

omit [DecidableEq α] in
theorem Below.refl (d : List α) : Below sep d d := List.prefix_rfl

omit [DecidableEq α] in
theorem Below.trans (hxy : Below sep d x) (hye : Below sep x e) : Below sep d e :=
  List.IsPrefix.trans hxy hye

/-- What lies in a directory lies below it. -/
theorem below_of_dirOf (h : dirOf sep x = d) (hd : d ≠ []) : Below sep d x := by
  have heq := (path_eq sep x).resolve_right fun hroot => hd (h ▸ hroot.1)
  rw [h] at heq
  refine ⟨baseOf sep x ++ [sep], ?_⟩
  conv_rhs => rw [heq]
  simp

/-- The paths of one directory have nothing below them in common. -/
theorem eq_of_below (hd : dirOf sep x = dirOf sep y) (hx : x ≠ []) (hy : y ≠ [])
    (hxe : Below sep x e) (hye : Below sep y e) : x = y := by
  -- the shorter one would lie above the directory
  have hle : ∀ x y : List α, dirOf sep x = dirOf sep y → x ≠ [] → x ++ [sep] <+: e ++ [sep] →
      y ++ [sep] <+: e ++ [sep] → y.length ≤ x.length := by
    intro x y hd hx hxe hye
    by_contra hlt
    rw [not_le] at hlt
    have hpre : x ++ [sep] <+: y := by
      have hxy : x ++ [sep] <+: y ++ [sep] := by
        refine List.prefix_of_prefix_length_le hxe hye ?_
        simp only [List.length_append, List.length_singleton]
        omega
      refine List.prefix_of_prefix_length_le hxy (List.prefix_append y [sep]) ?_
      simp only [List.length_append, List.length_singleton]
      omega
    obtain ⟨rest, hrest⟩ := hpre
    rw [List.append_assoc, List.singleton_append] at hrest
    have hlen := length_dirOf_lt sep hx
    have hlong : x.length ≤ (dirOf sep y).length := by
      rcases path_cases sep rest with hr | ⟨d, c, hc, rfl⟩
      · rw [← hrest, dirOf_append_cons hr]
      · have heq : y = (x ++ sep :: d) ++ sep :: c := by rw [← hrest]; simp
        rw [heq, dirOf_append_cons hc]
        simp
    rw [← hd] at hlong
    omega
  have hlen : x.length = y.length :=
    le_antisymm (hle y x hd.symm hy hye hxe) (hle x y hd hx hxe hye)
  have hxy : x ++ [sep] <+: y ++ [sep] :=
    List.prefix_of_prefix_length_le hxe hye (by simp [hlen])
  have heq := hxy.eq_of_length (by simp [hlen])
  exact List.append_cancel_right heq

end Below

end Lib
end Qutty
