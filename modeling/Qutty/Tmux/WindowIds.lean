import Qutty.Tmux.Lifetime
import Qutty.Pane.Operations

/-!
# Notifications about windows

`%window-close`, `%window-add` and `%window-renamed` name a window, and the
handlers look the number up in `_mapPanes`, which is keyed by pane.  In a client
that has opened windows in any way, the handlers do what they are for, for the
window `w`, exactly when the numbers happen to agree (`NumberedAlike`): the pane
`w` is the one pane of the window `w`, and it exists if the window is known.
-/

namespace Qutty
namespace Pane
namespace GuiMainWindow

/-- A terminal is on a page of its own or in a splitter. -/
def Shown (w : GuiMainWindow) (t : Nat) : Prop :=
  .term t ∈ w.tabs ∨ ∃ s < w.nextSplitter, .term t ∈ w.widgets s

section Pages

variable {w : GuiMainWindow} {b : GuiBase}

theorem nodup_insertAt {l : List GuiBase} (hl : l.Nodup) (hb : b ∉ l) (i : Int) :
    (insertAt i b l).Nodup := by
  have hcons : (b :: l).Nodup := List.nodup_cons.mpr ⟨hb, hl⟩
  rw [insertAt]
  split_ifs with hi
  · exact (List.perm_append_singleton b l).nodup_iff.mpr hcons
  · exact (List.perm_insertIdx b l (by omega)).nodup_iff.mpr hcons

theorem nodup_tabs_tabInsert (h : w.tabs.Nodup) (i : Int) : (w.tabInsert i b).tabs.Nodup := by
  change (insertAt i b (w.leaveParent b).tabs).Nodup
  rw [tabs_leaveParent]
  exact nodup_insertAt (h.erase b) h.not_mem_erase i

theorem nodup_tabs_tabRemove (h : w.tabs.Nodup) (i : Int) : (w.tabRemove i).tabs.Nodup := by
  unfold tabRemove
  split_ifs
  · exact h.sublist (List.eraseIdx_sublist w.tabs i.toNat)
  · exact h

theorem nodup_tabs_addBaseWidget (h : w.tabs.Nodup) (s : Nat) (i : Int) :
    (w.addBaseWidget s i b).tabs.Nodup := by
  change (leaveParent { w with
    child := Function.update w.child s (w.child s ++ [b])
    parentSplit := Function.update w.parentSplit b (some s) } b).tabs.Nodup
  rw [tabs_leaveParent]
  exact h.erase b

/-- Removing the page of a pane. -/
theorem mem_tabs_removePage (h : w.tabs.Nodup) {b' : GuiBase} :
    b' ∈ (w.tabRemove (indexOf w.tabs b)).tabs ↔ b' ∈ w.tabs ∧ b' ≠ b := by
  unfold indexOf tabRemove
  by_cases hb : b ∈ w.tabs
  · have hlt : w.tabs.idxOf b < w.tabs.length := List.idxOf_lt_length_iff.mpr hb
    rw [if_pos hb, if_pos (by omega)]
    change b' ∈ w.tabs.eraseIdx (w.tabs.idxOf b) ↔ _
    rw [List.eraseIdx_idxOf_eq_erase, h.mem_erase_iff, and_comm]
  · rw [if_neg hb, if_neg (by omega)]
    constructor
    · exact fun hb' => ⟨hb', fun heq => hb (heq ▸ hb')⟩
    · exact fun hb' => hb'.1

end Pages

end GuiMainWindow
end Pane

namespace Tmux

open Lib Pane Pane.GuiMainWindow

/-- A window that the server has listed. -/
structure NewWindow where
  id : Int
  name : List UInt8
  layout : List UInt8

/-- Calls of `createNewWindow`, as long as the program runs. -/
def createWindows (plat : Platform) (ws : List NewWindow) (c : Client) : Client :=
  ws.foldl
    (fun c w => if c.stopped then c else (createNewWindow plat w.id w.name w.layout c).1) c

/-- A line outside a reply. -/
def handleLine (plat : Platform) (line : List UInt8) (c : Client) : Handled :=
  match notificationOf line with
  | some n => notify plat n line c
  | none => (c, [])

section Lines

/-- `%window-close @w`. -/
def windowCloseLine (w : Int) : List UInt8 :=
  ascii ['%', 'w', 'i', 'n', 'd', 'o', 'w', '-', 'c', 'l', 'o', 's', 'e', ' ', '@'] ++
    (ascii (decimal w) ++ [10])

/-- `%window-add @w`. -/
def windowAddLine (w : Int) : List UInt8 :=
  ascii ['%', 'w', 'i', 'n', 'd', 'o', 'w', '-', 'a', 'd', 'd', ' ', '@'] ++
    (ascii (decimal w) ++ [10])

/-- `%window-renamed @w name`. -/
def windowRenamedLine (w : Int) (name : List UInt8) : List UInt8 :=
  ascii ['%', 'w', 'i', 'n', 'd', 'o', 'w', '-', 'r', 'e', 'n', 'a', 'm', 'e', 'd', ' ', '@'] ++
    (ascii (decimal w) ++ 32 :: (name ++ [10]))

end Lines

/-- The handlers act on the panes of the window `w`, and on no others. -/
structure ActsOnWindow (plat : Platform) (c : Client) (w : Int) (name : List UInt8) :
    Prop where
  close : ∀ k p, (handleLine plat (windowCloseLine w) c).1.mapPanes.find k = some p ↔
    c.mapPanes.find k = some p ∧ (c.pane p).window ≠ w
  closeShown : ∀ k p, c.mapPanes.find k = some p →
    ((handleLine plat (windowCloseLine w) c).1.main.Shown (c.pane p).termWnd ↔
      c.main.Shown (c.pane p).termWnd ∧ (c.pane p).window ≠ w)
  add : (handleLine plat (windowAddLine w) c).2 =
    if (c.mapLayout.find w).isSome then []
    else [⟨.gateway, .openListedWindows, cmdDisplayPane w⟩]
  renamed : ∀ k p, c.mapPanes.find k = some p →
    (handleLine plat (windowRenamedLine w name) c).1.title (c.pane p).termWnd =
      if (c.pane p).window = w then fromLatin1 name else c.title (c.pane p).termWnd

/-- A name that is read as one word; behind an empty one nothing follows. -/
def OneWord (name following : List UInt8) : Prop :=
  (name ≠ [] ∧ ∀ b ∈ name, Istream.isBlank b = false) ∨
    (name = [] ∧ ∀ b ∈ cString following, Istream.isBlank b = true)

/-- The numbers of windows and panes agree at `w`. -/
structure NumberedAlike (c : Client) (w : Int) (name : List UInt8) : Prop where
  panes : ∀ k p, c.mapPanes.find k = some p → ((c.pane p).window = w ↔ k = w)
  known : (c.mapPanes.find w).isSome = (c.mapLayout.find w).isSome
  page : ∀ p, c.mapPanes.find w = some p →
    ∀ s < c.main.nextSplitter, .term (c.pane p).termWnd ∉ c.main.widgets s
  title : (c.mapPanes.find w).isSome → OneWord name c.following

section Reading

variable {plat : Platform} {c : Client} {w : Int} {name : List UInt8}

theorem notificationOf_windowCloseLine :
    notificationOf (windowCloseLine w) = some .windowClose := rfl

theorem notificationOf_windowAddLine : notificationOf (windowAddLine w) = some .windowAdd := rfl

theorem notificationOf_windowRenamedLine :
    notificationOf (windowRenamedLine w name) = some .windowRenamed := rfl

theorem toNat_ascii_decimal (i : Int) : (ascii (decimal i)).map UInt8.toNat = intNumeral i := by
  have hsmall : ∀ n < 58, ((Char.ofNat n).toNat.toUInt8).toNat = n := by decide
  rw [ascii, decimal, List.map_map, List.map_map]
  refine (List.map_congr_left fun n hn => ?_).trans (List.map_id _)
  have hn58 : n < 58 := by
    rcases mem_intNumeral hn with rfl | hn <;> omega
  exact hsmall n hn58

theorem ne_zero_of_mem_decimal {i : Int} {b : UInt8} (h : b ∈ ascii (decimal i)) : b ≠ 0 := by
  have hmem : b.toNat ∈ intNumeral i := toNat_ascii_decimal i ▸ List.mem_map_of_mem h
  rintro rfl
  rcases mem_intNumeral hmem with h | h
  · exact absurd h (by decide)
  · exact absurd h.1 (by decide)

theorem cString_append {xs : List UInt8} (ys : List UInt8) (h : ∀ b ∈ xs, b ≠ 0) :
    cString (xs ++ ys) = xs ++ cString ys :=
  List.takeWhile_append_of_pos (by simpa using h)

/-- The number in a line. -/
theorem readIntInto_decimal (old : Int) (hw : -2 ^ 31 ≤ w ∧ w < 2 ^ 31) (b : UInt8)
    (rest : List UInt8) (hb : digitValue 10 b.toNat = none) (hb0 : b ≠ 0) :
    (Istream.ofString (cString (ascii (decimal w) ++ b :: rest))).readIntInto old =
      (w, ⟨b :: cString rest, false, false⟩) := by
  have hcut : cString (b :: rest) = b :: cString rest := by
    simp [cString, hb0]
  rw [cString_append _ (fun _ => ne_zero_of_mem_decimal), hcut]
  exact Istream.readIntInto_intNumeral old (toNat_ascii_decimal w) hw (by simpa using hb)

end Reading

section Handlers

variable {plat : Platform} {c : Client} {A : Set Nat} {w : Int} {name : List UInt8}

theorem commandText_windowCloseLine :
    commandText (windowCloseLine w) 15 c =
      cString (ascii (decimal w) ++ 10 :: c.following) := by
  change cString (ascii (decimal w) ++ [10] ++ c.following) = _
  rw [List.append_assoc, List.singleton_append]

theorem commandText_windowAddLine :
    commandText (windowAddLine w) 13 c = cString (ascii (decimal w) ++ 10 :: c.following) := by
  change cString (ascii (decimal w) ++ [10] ++ c.following) = _
  rw [List.append_assoc, List.singleton_append]

theorem commandText_windowRenamedLine :
    commandText (windowRenamedLine w name) 17 c =
      cString (ascii (decimal w) ++ 32 :: (name ++ 10 :: c.following)) := by
  change cString (ascii (decimal w) ++ 32 :: (name ++ [10]) ++ c.following) = _
  simp

/-- What `%window-close` does. -/
theorem handle_windowClose (h : Sound c A) (hw : -2 ^ 31 ≤ w ∧ w < 2 ^ 31) :
    (handleLine plat (windowCloseLine w) c).1 =
      match c.mapPanes.find w with
      | none => c
      | some p => { c with
          main := c.main.tabRemove (indexOf c.main.tabs (.term (c.pane p).termWnd))
          mapPanes := c.mapPanes.erase w } := by
  have hread := readIntInto_decimal plat.anyInt hw 10 c.following rfl (by decide)
  cases hf : c.mapPanes.find w with
  | none =>
      simp only [handleLine, notificationOf_windowCloseLine, notify, cmdHdlrWindowClose,
        commandText_windowCloseLine, hread, hf]
  | some p =>
      simp only [handleLine, notificationOf_windowCloseLine, notify, cmdHdlrWindowClose,
        commandText_windowCloseLine, hread, hf, h.usePane]

/-- What `%window-add` sends. -/
theorem handle_windowAdd (hw : -2 ^ 31 ≤ w ∧ w < 2 ^ 31) :
    (handleLine plat (windowAddLine w) c).2 =
      if (c.mapPanes.find w).isSome then []
      else [⟨.gateway, .openListedWindows, cmdDisplayPane w⟩] := by
  have hread := readIntInto_decimal plat.anyInt hw 10 c.following rfl (by decide)
  simp only [handleLine, notificationOf_windowAddLine, notify, cmdHdlrWindowAdd,
    commandText_windowAddLine, hread]
  cases c.mapPanes.find w with
  | none => rfl
  | some p => rfl

/-- The word that `%window-renamed` takes for the name. -/
def readName (name following : List UInt8) : List UInt8 :=
  (Istream.readWordInto [] ⟨32 :: cString (name ++ 10 :: following), false, false⟩).1

/-- What `%window-renamed` does to the titles. -/
theorem handle_windowRenamed (h : Sound c A) (hw : -2 ^ 31 ≤ w ∧ w < 2 ^ 31) :
    (handleLine plat (windowRenamedLine w name) c).1.title =
      match c.mapPanes.find w with
      | none => c.title
      | some p => Function.update c.title (c.pane p).termWnd
          (fromLatin1 (readName name c.following)) := by
  have hread := readIntInto_decimal plat.anyInt hw 32
    (name ++ 10 :: c.following) rfl (by decide)
  simp only [handleLine, notificationOf_windowRenamedLine, notify, cmdHdlrWindowRenamed,
    commandText_windowRenamedLine, hread, h.usePane]
  cases hp : c.mapPanes.find w with
  | none => rfl
  | some p =>
      have hopen : (c.pane p).termWnd ∉ c.main.closed := h.mapOpen w p hp
      simp only [Client.setSessionTitle, Client.useTerminal_of_open hopen]
      rfl

/-- **The name is read back exactly if it is one word.** -/
theorem readName_eq_iff {following : List UInt8} (h0 : ∀ b ∈ name, b ≠ 0) :
    readName name following = name ↔ OneWord name following := by
  have hcut : cString (name ++ 10 :: following) = name ++ 10 :: cString following := by
    rw [cString_append _ h0]
    rfl
  have hname : readName name following =
      (Istream.readWordInto [] (.ofString (name ++ 10 :: cString following))).1 := by
    rw [readName, hcut]
    rfl
  rw [hname]
  by_cases hne : name = []
  · subst hne
    rw [List.nil_append, Istream.readWordInto_eq_nil_iff, List.forall_mem_cons]
    constructor
    · exact fun h => .inr ⟨rfl, h.2⟩
    · rintro (⟨hne, -⟩ | ⟨-, hblank⟩)
      · exact absurd rfl hne
      · exact ⟨rfl, hblank⟩
  · constructor
    · intro heq
      refine .inl ⟨hne, fun b hb => ?_⟩
      rw [← heq] at hb
      exact Istream.isBlank_of_mem_word hb
    · rintro (⟨-, hword⟩ | ⟨hnil, -⟩)
      · rw [Istream.readWordInto_word [] hne hword rfl]
      · exact absurd hnil hne

end Handlers

section Windows

variable {plat : Platform} {c : Client} {A : Set Nat} {w : Int} {name : List UInt8}

theorem fromLatin1_inj {xs ys : List UInt8} (hx : ∀ b ∈ xs, b ≠ 0) (hy : ∀ b ∈ ys, b ≠ 0) :
    fromLatin1 xs = fromLatin1 ys ↔ xs = ys := by
  have hcut : ∀ zs : List UInt8, (∀ b ∈ zs, b ≠ 0) → cString zs = zs := by
    intro zs hz
    simpa [cString] using cString_append [] hz
  rw [fromLatin1, fromLatin1, hcut xs hx, hcut ys hy]
  exact (List.map_injective_iff.mpr fun a b => UInt8.toNat_inj.mp).eq_iff

/-- The name that is read holds no terminator. -/
theorem ne_zero_of_mem_readName {following : List UInt8} {b : UInt8}
    (hb : b ∈ readName name following) : b ≠ 0 := by
  rcases List.mem_cons.mp (Istream.mem_of_mem_word hb) with rfl | hb
  · decide
  · simpa using List.mem_takeWhile_imp hb

/-- Different panes have different terminals. -/
theorem Sound.terminal_ne (h : Sound c A) {j k : Int} {p q : Nat}
    (hj : c.mapPanes.find j = some p) (hk : c.mapPanes.find k = some q) (hne : j ≠ k) :
    (c.pane p).termWnd ≠ (c.pane q).termWnd := by
  intro heq
  have hpq := h.fresh.terminalInj p (h.fresh.mapLt j p hj) q (h.fresh.mapLt k q hk) heq
  subst hpq
  exact hne (h.fresh.mapInj j k p hj hk)

/-- The panes are removed as they should be, exactly if the pane `w` is the one pane
of the window `w`. -/
theorem close_iff (h : Sound c A) (hw : -2 ^ 31 ≤ w ∧ w < 2 ^ 31) :
    (∀ k p, (handleLine plat (windowCloseLine w) c).1.mapPanes.find k = some p ↔
        c.mapPanes.find k = some p ∧ (c.pane p).window ≠ w) ↔
      ∀ k p, c.mapPanes.find k = some p → ((c.pane p).window = w ↔ k = w) := by
  have hfind : ∀ k p, (handleLine plat (windowCloseLine w) c).1.mapPanes.find k = some p ↔
      c.mapPanes.find k = some p ∧ k ≠ w := by
    intro k p
    rw [handle_windowClose h hw]
    cases hf : c.mapPanes.find w with
    | none =>
        constructor
        · intro hk
          refine ⟨hk, ?_⟩
          rintro rfl
          rw [hf] at hk
          cases hk
        · exact fun hk => hk.1
    | some q =>
        simp only [OrderedMap.find_erase]
        by_cases hkw : w = k
        · simp [hkw]
        · simp [hkw, Ne.symm hkw]
  simp only [hfind]
  constructor
  · intro hall k p hk
    have := hall k p
    tauto
  · intro hall k p
    constructor
    · rintro ⟨hk, hne⟩
      exact ⟨hk, fun heq => hne ((hall k p hk).mp heq)⟩
    · rintro ⟨hk, hne⟩
      exact ⟨hk, fun heq => hne ((hall k p hk).mpr heq)⟩

/-- They are also gone from the main window, exactly if the pane `w` is on a page of
its own. -/
theorem closeShown_iff (h : Sound c A) (htabs : c.main.tabs.Nodup)
    (hw : -2 ^ 31 ≤ w ∧ w < 2 ^ 31)
    (hpanes : ∀ k p, c.mapPanes.find k = some p → ((c.pane p).window = w ↔ k = w)) :
    (∀ k p, c.mapPanes.find k = some p →
        ((handleLine plat (windowCloseLine w) c).1.main.Shown (c.pane p).termWnd ↔
          c.main.Shown (c.pane p).termWnd ∧ (c.pane p).window ≠ w)) ↔
      ∀ p, c.mapPanes.find w = some p →
        ∀ s < c.main.nextSplitter, .term (c.pane p).termWnd ∉ c.main.widgets s := by
  rw [handle_windowClose h hw]
  cases hf : c.mapPanes.find w with
  | none =>
      have hother : ∀ k p, c.mapPanes.find k = some p → (c.pane p).window ≠ w := by
        intro k p hk heq
        rw [(hpanes k p hk).mp heq, hf] at hk
        cases hk
      constructor
      · intro _ p hp
        cases hp
      · exact fun _ k p hk => ⟨fun hs => ⟨hs, hother k p hk⟩, fun hs => hs.1⟩
  | some q =>
      have hshown : ∀ t, (c.main.tabRemove (indexOf c.main.tabs
          (.term (c.pane q).termWnd))).Shown t ↔
          (.term t ∈ c.main.tabs ∧ t ≠ (c.pane q).termWnd) ∨
            ∃ s < c.main.nextSplitter, .term t ∈ c.main.widgets s := by
        intro t
        rw [Shown, mem_tabs_removePage htabs, widgets_tabRemove, ne_eq, GuiBase.term.injEq,
          nextSplitter_eq (objects_tabRemove _ _)]
      simp only [hshown]
      constructor
      · intro hall p hp s hs hmem
        cases hp
        exact ((hall w q hf).mp (.inr ⟨s, hs, hmem⟩)).2 ((hpanes w q hf).mpr rfl)
      · intro hpage k p hk
        by_cases hkw : k = w
        · subst hkw
          obtain rfl : q = p := Option.some.inj (hf.symm.trans hk)
          have hwin := (hpanes k q hk).mpr rfl
          have hno : ¬ ∃ s < c.main.nextSplitter,
              .term (c.pane q).termWnd ∈ c.main.widgets s :=
            fun ⟨s, hs, hmem⟩ => hpage q rfl s hs hmem
          simp [hwin, hno]
        · have hne := h.terminal_ne hk hf hkw
          have hwin : (c.pane p).window ≠ w := fun heq => hkw ((hpanes k p hk).mp heq)
          simp [Shown, hne, hwin]

theorem renamed_iff (h : Sound c A) (hw : -2 ^ 31 ≤ w ∧ w < 2 ^ 31)
    (hname : ∀ b ∈ name, b ≠ 0)
    (hpanes : ∀ k p, c.mapPanes.find k = some p → ((c.pane p).window = w ↔ k = w)) :
    (∀ k p, c.mapPanes.find k = some p →
        (handleLine plat (windowRenamedLine w name) c).1.title (c.pane p).termWnd =
          if (c.pane p).window = w then fromLatin1 name else c.title (c.pane p).termWnd) ↔
      ((c.mapPanes.find w).isSome → OneWord name c.following) := by
  rw [handle_windowRenamed h hw]
  cases hf : c.mapPanes.find w with
  | none =>
      constructor
      · intro _ hsome
        cases hsome
      intro _ k p hk
      have hwin : (c.pane p).window ≠ w := by
        intro heq
        rw [(hpanes k p hk).mp heq, hf] at hk
        cases hk
      rw [if_neg hwin]
  | some q =>
      have hwin := (hpanes w q hf).mpr rfl
      dsimp only
      rw [← readName_eq_iff hname]
      constructor
      · intro hall _
        have hq := hall w q hf
        rw [Function.update_self, if_pos hwin] at hq
        exact (fromLatin1_inj (fun _ => ne_zero_of_mem_readName) hname).mp hq
      · intro hread k p hk
        by_cases hkw : k = w
        · subst hkw
          obtain rfl : q = p := Option.some.inj (hf.symm.trans hk)
          rw [Function.update_self, if_pos hwin, hread rfl]
        · have hne := h.terminal_ne hk hf hkw
          have hwin : (c.pane p).window ≠ w := fun heq => hkw ((hpanes k p hk).mp heq)
          rw [Function.update_of_ne hne, if_neg hwin]

/-- The display command is sent for a window that is not known, exactly if the panes
have a pane `w` when the window is known. -/
theorem add_iff (hw : -2 ^ 31 ≤ w ∧ w < 2 ^ 31) :
    (handleLine plat (windowAddLine w) c).2 =
        (if (c.mapLayout.find w).isSome then []
          else [⟨.gateway, .openListedWindows, cmdDisplayPane w⟩]) ↔
      (c.mapPanes.find w).isSome = (c.mapLayout.find w).isSome := by
  rw [handle_windowAdd hw]
  cases (c.mapPanes.find w).isSome <;> cases (c.mapLayout.find w).isSome <;> simp

/-- **In a client with good references.** -/
theorem actsOnWindow_iff (h : Sound c A) (htabs : c.main.tabs.Nodup)
    (hw : -2 ^ 31 ≤ w ∧ w < 2 ^ 31) (hname : ∀ b ∈ name, b ≠ 0) :
    ActsOnWindow plat c w name ↔ NumberedAlike c w name := by
  constructor
  · intro hacts
    have hpanes := (close_iff h hw).mp hacts.close
    exact ⟨hpanes, (add_iff hw).mp hacts.add,
      (closeShown_iff h htabs hw hpanes).mp hacts.closeShown,
      (renamed_iff h hw hname hpanes).mp hacts.renamed⟩
  · intro halike
    exact ⟨(close_iff h hw).mpr halike.panes,
      (closeShown_iff h htabs hw halike.panes).mpr halike.page, (add_iff hw).mpr halike.known,
      (renamed_iff h hw hname halike.panes).mpr halike.title⟩

end Windows

section Built

variable {plat : Platform} {id : Int} {name : List UInt8} {c : Client}

mutual

/-- Opening a layout keeps what opening a leaf and a splitter keep. -/
theorem createNewWindowPane_keeps (plat : Platform) (id : Int) (name : List UInt8)
    {P : Client → Prop} (hstop : ∀ c, P c → P { c with stopped := true })
    (hleaf : ∀ l splitter c, P c → P (createLeaf plat id name l splitter c).1)
    (hsplit : ∀ orient splitter c, P c → P (addSplitter orient splitter c))
    (l : TmuxLayout) (splitter : Option Nat) (c : Client) (h : P c) :
    P (createNewWindowPane plat id name l splitter c).1 := by
  match l with
  | ⟨_, _, _, _, _, .none, _⟩ =>
      rw [createNewWindowPane]
      exact hstop c h
  | ⟨_, _, _, _, _, .leaf, _⟩ =>
      rw [createNewWindowPane]
      exact hleaf _ splitter c h
  | ⟨_, _, _, _, _, .horizontal, child⟩ =>
      rw [createNewWindowPane]
      exact createChildren_keeps plat id name hstop hleaf hsplit child _ _
        (hsplit .horizontal splitter c h)
  | ⟨_, _, _, _, _, .vertical, child⟩ =>
      rw [createNewWindowPane]
      exact createChildren_keeps plat id name hstop hleaf hsplit child _ _
        (hsplit .vertical splitter c h)

theorem createChildren_keeps (plat : Platform) (id : Int) (name : List UInt8)
    {P : Client → Prop} (hstop : ∀ c, P c → P { c with stopped := true })
    (hleaf : ∀ l splitter c, P c → P (createLeaf plat id name l splitter c).1)
    (hsplit : ∀ orient splitter c, P c → P (addSplitter orient splitter c))
    (ls : List TmuxLayout) (s : Nat) (c : Client) (h : P c) :
    P (createChildren plat id name ls s c).1 := by
  match ls with
  | [] =>
      rw [createChildren]
      exact h
  | l :: ls =>
      have hhead := createNewWindowPane_keeps plat id name hstop hleaf hsplit l (some s) c h
      rw [createChildren]
      dsimp only
      split_ifs
      · exact hhead
      · exact createChildren_keeps plat id name hstop hleaf hsplit ls s _ hhead

end

theorem createLeaf_nodup (l : TmuxLayout) (splitter : Option Nat) (c : Client)
    (h : c.main.tabs.Nodup) : (createLeaf plat id name l splitter c).1.main.tabs.Nodup := by
  unfold createLeaf
  split
  · cases splitter with
    | none =>
        refine nodup_tabs_tabInsert (w := c.main.newTerminal.leaveParent _) ?_ (-1)
        rw [tabs_leaveParent]
        exact h.erase _
    | some s => exact nodup_tabs_addBaseWidget (w := c.main.newTerminal) h s (-1)
  · simpa [Client.updateTerm] using h

theorem addSplitter_nodup (orient : Orientation) (splitter : Option Nat) (c : Client)
    (h : c.main.tabs.Nodup) : (addSplitter orient splitter c).main.tabs.Nodup := by
  refine nodup_tabs_tabInsert ?_ (-1)
  cases splitter with
  | none => exact h
  | some s => exact nodup_tabs_addBaseWidget (w := c.main.newSplitter orient) h s (-1)

theorem createNewWindow_nodup (layout : List UInt8) (h : c.main.tabs.Nodup) :
    (createNewWindow plat id name layout c).1.main.tabs.Nodup := by
  unfold createNewWindow
  dsimp only
  split_ifs
  · exact h
  · exact createNewWindowPane_keeps plat id name (fun _ hc => hc) createLeaf_nodup
      addSplitter_nodup _ none _ h
  · exact h

variable (plat) in
/-- **Opening windows keeps references good, and pages different.** -/
theorem createWindows_sound (ws : List NewWindow) (h : Sound c ∅) (htabs : c.main.tabs.Nodup) :
    Sound (createWindows plat ws c) ∅ ∧ (createWindows plat ws c).main.tabs.Nodup := by
  induction ws generalizing c with
  | nil => exact ⟨h, htabs⟩
  | cons w ws ih =>
      rw [createWindows, List.foldl_cons]
      split_ifs
      · exact ih h htabs
      · exact ih ((createNewWindow_sound w.layout h).mono (Set.empty_subset _))
          (createNewWindow_nodup w.layout htabs)

/-- **The handlers act on the named window exactly if the numbers agree there**, in
every client that has opened windows, in any main window. -/
theorem createWindows_actsOnWindow_iff (plat : Platform) (ops : List PaneOp)
    (main : GuiMainWindow) (t : Nat) (ws : List NewWindow) (following : List UInt8) (w : Int)
    (name : List UInt8) (hmain : GuiMainWindow.init.run ops = some main)
    (hw : -2 ^ 31 ≤ w ∧ w < 2 ^ 31) (hname : ∀ b ∈ name, b ≠ 0) :
    let c := { createWindows plat ws (Session.start plat main t).client with
      following := following }
    ActsOnWindow plat c w name ↔ NumberedAlike c w name := by
  obtain ⟨main', hrun, hpanes⟩ := panes_init.run ops
  obtain rfl : main = main' := Option.some.inj (hmain.symm.trans hrun)
  have hproper := Session.proper_run ops proper_init hmain
  have hstart : Sound (Session.start plat main t).client ∅ := by
    refine sound_init plat ?_
    rw [ledger_tabRemove]
    exact hproper
  have hbuilt := createWindows_sound plat ws hstart
    (nodup_tabs_tabRemove hpanes.tabsNodup _)
  exact actsOnWindow_iff (hbuilt.1.of_references rfl) hbuilt.2 hw hname

/-- A window with one pane. -/
def singleWindow (id : Int) (pane : String) : NewWindow :=
  ⟨id, ascii ['x'], ascii ("b25d,80x24,0,0,".toList ++ pane.toList)⟩

/-- A client that has opened windows. -/
def clientWith (ws : List NewWindow) : Client :=
  { createWindows plainPlatform ws (Session.start plainPlatform Session.oneTab 0).client with
    following := [] }

/-- The first window and its pane both have the number 0. -/
theorem createWindows_actsOnWindow_singleWindow :
    ActsOnWindow plainPlatform (clientWith [singleWindow 0 "0"]) 0 (ascii ['v', 'i']) := by
  have hentries : (clientWith [singleWindow 0 "0"]).mapPanes.entries = [(0, 0)] := by
    decide +kernel
  refine (createWindows_actsOnWindow_iff plainPlatform [.openTab] Session.oneTab 0
    [singleWindow 0 "0"] [] 0 (ascii ['v', 'i']) rfl (by decide) (by decide +kernel)).mpr
    ⟨fun k p hk => ?_, by decide +kernel, fun p hp s hs => ?_,
      fun _ => .inl ⟨by decide, by decide +kernel⟩⟩
  · have hmem : (k, p) ∈ (clientWith [singleWindow 0 "0"]).mapPanes.entries :=
      OrderedMap.mem_entries.mpr hk
    rw [hentries, List.mem_singleton, Prod.mk.injEq] at hmem
    obtain ⟨rfl, rfl⟩ := hmem
    exact iff_of_true (by decide +kernel) rfl
  · have hsplitters : (clientWith [singleWindow 0 "0"]).main.nextSplitter = 0 := by
      decide +kernel
    exact absurd (hsplitters ▸ hs) (Nat.not_lt_zero s)

/-- The panes of two windows have each other's numbers. -/
theorem not_actsOnWindow_crossed :
    ¬ ActsOnWindow plainPlatform (clientWith [singleWindow 0 "1", singleWindow 1 "0"]) 0
      (ascii ['v', 'i']) := by
  intro h
  have hkept : (handleLine plainPlatform (windowCloseLine 0)
      (clientWith [singleWindow 0 "1", singleWindow 1 "0"])).1.mapPanes.find 1 = some 0 := by
    decide +kernel
  exact ((h.close 1 0).mp hkept).2 (by decide +kernel)

end Built

end Tmux
end Qutty
