import Qutty.Tmux.Client
import Qutty.Tmux.Realisation
import Qutty.Lib.Tokens

/-!
# The terminal state of a pane

`resp_hdlr_dump_term_state`.  The keys are named by `StateKey`; what the loops over panes
and keys do is `scanLines`: the writes in their order, the variable `n`, which a key
without a number hands on to the next one, and how the loops are left
(`readTermState_eq`).  The fields afterwards are those of the last writes
(`applyWrites_eq`).

Two rows of writes have the same effect exactly if the last values of each key have
(`applyWrites_eq_iff`).
-/

namespace Qutty
namespace Tmux

open Lib Lib.Istream TmuxLayout

/-- The keys that hold a number. -/
inductive StateKey where
  | alternateOn
  | alternateSavedX
  | alternateSavedY
  | savedCursorX
  | savedCursorY
  | cursorX
  | cursorY
  | scrollRegionUpper
  | scrollRegionLower
  | cursorFlag
  | insertFlag
  | keypadCursorFlag
  | keypadFlag
  | wrapFlag
  | mouseStandardFlag
  | mouseButtonFlag
  | mouseAnyFlag
  | mouseUtf8Flag
deriving DecidableEq, Repr

/-- A number as a flag. -/
def isSet (n : Int) : Bool := n ≠ 0

namespace StateKey

/-- The keys in the order of the source. -/
def all : List StateKey :=
  [alternateOn, alternateSavedX, alternateSavedY, savedCursorX, savedCursorY, cursorX, cursorY,
   scrollRegionUpper, scrollRegionLower, cursorFlag, insertFlag, keypadCursorFlag, keypadFlag,
   wrapFlag, mouseStandardFlag, mouseButtonFlag, mouseAnyFlag, mouseUtf8Flag]

def name : StateKey → String
  | alternateOn => "alternate_on"
  | alternateSavedX => "alternate_saved_x"
  | alternateSavedY => "alternate_saved_y"
  | savedCursorX => "saved_cursor_x"
  | savedCursorY => "saved_cursor_y"
  | cursorX => "cursor_x"
  | cursorY => "cursor_y"
  | scrollRegionUpper => "scroll_region_upper"
  | scrollRegionLower => "scroll_region_lower"
  | cursorFlag => "cursor_flag"
  | insertFlag => "insert_flag"
  | keypadCursorFlag => "keypad_cursor_flag"
  | keypadFlag => "keypad_flag"
  | wrapFlag => "wrap_flag"
  | mouseStandardFlag => "mouse_standard_flag"
  | mouseButtonFlag => "mouse_button_flag"
  | mouseAnyFlag => "mouse_any_flag"
  | mouseUtf8Flag => "mouse_utf8_flag"

/-- What is done with the number. -/
def set (f : TermFields) (n : Int) : StateKey → TermFields
  | alternateOn => { f with altWhich := n }
  | alternateSavedX => { f with altX := n, altSavecursX := n }
  | alternateSavedY => { f with altY := n, altSavecursY := n }
  | savedCursorX => { f with savecursX := n }
  | savedCursorY => { f with savecursY := n }
  | cursorX => { f with cursX := n }
  | cursorY => { f with cursY := n }
  | scrollRegionUpper => { f with margT := n }
  | scrollRegionLower => { f with margB := n }
  | insertFlag => { f with insert := isSet n }
  | keypadCursorFlag => { f with appCursorKeys := isSet n }
  | keypadFlag => { f with appKeypadKeys := isSet n }
  | wrapFlag => { f with wrap := isSet n }
  | cursorFlag | mouseStandardFlag | mouseButtonFlag | mouseAnyFlag | mouseUtf8Flag => f

/-- The fields of a key, taken over from other fields. -/
def copy (f g : TermFields) : StateKey → TermFields
  | alternateOn => { f with altWhich := g.altWhich }
  | alternateSavedX => { f with altX := g.altX, altSavecursX := g.altSavecursX }
  | alternateSavedY => { f with altY := g.altY, altSavecursY := g.altSavecursY }
  | savedCursorX => { f with savecursX := g.savecursX }
  | savedCursorY => { f with savecursY := g.savecursY }
  | cursorX => { f with cursX := g.cursX }
  | cursorY => { f with cursY := g.cursY }
  | scrollRegionUpper => { f with margT := g.margT }
  | scrollRegionLower => { f with margB := g.margB }
  | insertFlag => { f with insert := g.insert }
  | keypadCursorFlag => { f with appCursorKeys := g.appCursorKeys }
  | keypadFlag => { f with appKeypadKeys := g.appKeypadKeys }
  | wrapFlag => { f with wrap := g.wrap }
  | cursorFlag | mouseStandardFlag | mouseButtonFlag | mouseAnyFlag | mouseUtf8Flag => f

/-- The table of the reader. -/
theorem stateSetters_eq : stateSetters = all.map (fun k => (k.name, fun f n => k.set f n)) := rfl

/-- The key with a name. -/
def named (name : List UInt8) : Option StateKey :=
  all.find? (fun k => ascii k.name.toList = name)

theorem find_stateSetters (name : List UInt8) :
    stateSetters.find? (fun e => ascii e.1.toList = name) =
      (named name).map (fun k => (k.name, fun f n => k.set f n)) := by
  rw [stateSetters_eq, List.find?_map]
  rfl

end StateKey

section Writes

/-- Writes to the fields, in their order. -/
def applyWrites : List (StateKey × Int) → TermFields → TermFields
  | [], f => f
  | (k, n) :: ws, f => applyWrites ws (k.set f n)

theorem applyWrites_append (ws ws' : List (StateKey × Int)) (f : TermFields) :
    applyWrites (ws ++ ws') f = applyWrites ws' (applyWrites ws f) := by
  induction ws generalizing f with
  | nil => rfl
  | cons w ws ih => exact ih _

/-- The fields after writes: the last value of each key. -/
theorem applyWrites_eq (ws : List (StateKey × Int)) (f : TermFields) : applyWrites ws f =
    { f with
      altWhich := (lastWrite .alternateOn ws).getD f.altWhich
      altX := (lastWrite .alternateSavedX ws).getD f.altX
      altSavecursX := (lastWrite .alternateSavedX ws).getD f.altSavecursX
      altY := (lastWrite .alternateSavedY ws).getD f.altY
      altSavecursY := (lastWrite .alternateSavedY ws).getD f.altSavecursY
      savecursX := (lastWrite .savedCursorX ws).getD f.savecursX
      savecursY := (lastWrite .savedCursorY ws).getD f.savecursY
      cursX := (lastWrite .cursorX ws).getD f.cursX
      cursY := (lastWrite .cursorY ws).getD f.cursY
      margT := (lastWrite .scrollRegionUpper ws).getD f.margT
      margB := (lastWrite .scrollRegionLower ws).getD f.margB
      insert := ((lastWrite .insertFlag ws).map isSet).getD f.insert
      appCursorKeys := ((lastWrite .keypadCursorFlag ws).map isSet).getD f.appCursorKeys
      appKeypadKeys := ((lastWrite .keypadFlag ws).map isSet).getD f.appKeypadKeys
      wrap := ((lastWrite .wrapFlag ws).map isSet).getD f.wrap } := by
  have hsome : ∀ (o : Option Int) (n d : Int), (o.or (some n)).getD d = o.getD n := by
    intro o n d
    cases o <;> rfl
  have hflag : ∀ (o : Option Int) (n : Int) (d : Bool),
      ((o.or (some n)).map isSet).getD d = (o.map isSet).getD (isSet n) := by
    intro o n d
    cases o <;> rfl
  induction ws generalizing f with
  | nil => rfl
  | cons w ws ih =>
      obtain ⟨k, n⟩ := w
      rw [applyWrites, ih]
      cases k <;> simp only [StateKey.set, lastWrite, reduceCtorEq, if_true, if_false,
        Option.or_none, hsome, hflag]

/-- A value for a key, if there is one. -/
def put (k : StateKey) (o : Option Int) (f : TermFields) : TermFields := o.elim f (k.set f)

end Writes

section Entries

/-- What a key with its value asks for; `none` is a number that is not there. -/
inductive StateEntry where
  | pane (number : Option Int)
  | tabs
  | value (k : StateKey) (number : Option Int)
  | invalid

/-- The number that is read from a text, if there is anything to read. -/
def numberIn (text : List UInt8) : Option Int :=
  if text.dropWhile isBlank = [] then none else some (readIntInto 0 (ofString text)).1

/-- A key that is not `pane_id`. -/
def keyEntry (key value : List UInt8) : StateEntry :=
  if key = ascii "pane_tabs".toList then .tabs
  else
    match StateKey.named key with
    | some k => .value k (numberIn value)
    | none => .invalid

variable (plat : Platform)

def paneEntry (value : List UInt8) : StateEntry :=
  match charAt value with
  | some (c, rest) => if c = octetOf '%' then .pane (numberIn rest) else .invalid
  | none => if plat.anyChar = octetOf '%' then .pane none else .invalid

def keyText (keyval : List UInt8) : List UInt8 := keyval.takeWhile (fun c => c ≠ octetOf '=')

def valueText (keyval : List UInt8) : List UInt8 :=
  (keyval.dropWhile (fun c => c ≠ octetOf '=')).tail

def stateEntry (keyval : List UInt8) : StateEntry :=
  if keyText keyval = ascii "pane_id".toList then paneEntry plat (valueText keyval)
  else keyEntry (keyText keyval) (valueText keyval)

/-- What the reader does for an entry. -/
def stepEntry (id : Int) : StateEntry → StateReader → StateReader × StateExit
  | .pane number, r =>
      let n := number.getD r.n
      if n = id then ({ r with n := n, found := true }, .next) else ({ r with n := n }, .other)
  | .tabs, r => (r, .next)
  | .value k number, r =>
      let n := number.getD r.n
      ({ r with n := n, fields := k.set r.fields n }, .next)
  | .invalid, r => (r, .invalid)

theorem getlineInto_key (keyval old : List UInt8) :
    ((ofString keyval).getlineInto (octetOf '=') old).1 = keyText keyval ∧
      ((ofString keyval).getlineInto (octetOf '=') old).2.skip =
        (ofString (valueText keyval)).skip := by
  rw [getlineInto, if_pos (show (ofString keyval).good = true from rfl), keyText, valueText]
  have hrest : (ofString keyval).rest = keyval := rfl
  rw [hrest]
  cases hdrop : keyval.dropWhile (fun c => c ≠ octetOf '=') with
  | nil =>
      have hall : keyval.takeWhile (fun c => c ≠ octetOf '=') = keyval :=
        List.takeWhile_eq_self_iff.mpr (List.dropWhile_eq_nil_iff.mp hdrop)
      rw [hall]
      exact ⟨rfl, rfl⟩
  | cons c rest => exact ⟨rfl, rfl⟩

/-- Reading a number, or leaving the variable alone. -/
theorem readIntInto_numberIn {s : Istream} {text : List UInt8}
    (h : s.skip = (ofString text).skip) (old : Int) :
    (s.readIntInto old).1 = (numberIn text).getD old := by
  rw [skip_ofString] at h
  rw [numberIn]
  split_ifs at h ⊢ with hdrop
  · simp [readIntInto, readNumber, h]
  · have hskip := skip_ofString text
    rw [if_neg hdrop] at hskip
    simp only [readIntInto, readNumber, h, hskip, Option.getD_some]

theorem readPaneId (id : Int) {s : Istream} {text : List UInt8}
    (h : s.skip = (ofString text).skip) (r : StateReader) :
    (let (ch, s) := s.readCharInto plat.anyChar
      if ch ≠ octetOf '%' then (r, StateExit.invalid)
      else
        let (n, _) := s.readIntInto r.n
        if n = id then ({ r with n := n, found := true }, .next)
        else ({ r with n := n }, .other)) = stepEntry id (paneEntry plat text) r := by
  rw [skip_ofString] at h
  rw [paneEntry, charAt]
  cases hdrop : text.dropWhile isBlank with
  | nil =>
      rw [hdrop, if_pos rfl] at h
      have hchar : s.readCharInto plat.anyChar = (plat.anyChar, s.exhausted) := by
        rw [readCharInto, h]
      have hold := (readIntInto_of_fail (exhausted_fail s) r.n).1
      rw [hchar]
      dsimp only
      by_cases hc : plat.anyChar = octetOf '%'
      · simp only [hc, ne_eq, not_true_eq_false, if_false, if_true, stepEntry, Option.getD_none]
        rw [hold]
      · simp [hc, stepEntry]
  | cons c rest =>
      rw [hdrop, if_neg (by simp)] at h
      have hchar : s.readCharInto plat.anyChar = (c, ⟨rest, false, false⟩) := by
        rw [readCharInto, h]
      rw [hchar]
      dsimp only
      by_cases hc : c = octetOf '%'
      · have hskip : Istream.skip ⟨rest, false, false⟩ = (ofString rest).skip := rfl
        have hnumber := readIntInto_numberIn hskip r.n
        simp only [hc, ne_eq, not_true_eq_false, if_false, if_true, stepEntry, hnumber]
      · simp [hc, stepEntry]

theorem readKeyval_eq (id : Int) (keyval : List UInt8) (r : StateReader) :
    readKeyval plat id keyval r =
      stepEntry id (stateEntry plat keyval) { r with key := keyText keyval } := by
  obtain ⟨hkey, hskip⟩ := getlineInto_key keyval r.key
  rw [readKeyval]
  generalize (ofString keyval).getlineInto (octetOf '=') r.key = line at hkey hskip
  obtain ⟨key, s⟩ := line
  dsimp only at hkey hskip ⊢
  subst hkey
  rw [stateEntry]
  by_cases hpane : keyText keyval = ascii "pane_id".toList
  · rw [if_pos hpane, if_pos hpane]
    exact readPaneId plat id hskip _
  · rw [if_neg hpane, if_neg hpane, keyEntry]
    by_cases htabs : keyText keyval = ascii "pane_tabs".toList
    · rw [if_pos htabs, if_pos htabs]
      rfl
    · rw [if_neg htabs, if_neg htabs, StateKey.find_stateSetters]
      cases StateKey.named (keyText keyval) with
      | none => rfl
      | some k =>
          have hnumber := readIntInto_numberIn hskip r.n
          simp only [Option.map_some, stepEntry, hnumber]

/-- What the loops leave behind: the variable `n`, whether the pane was found, whether all
keys were valid, and the writes. -/
structure Scan where
  n : Int
  found : Bool
  ok : Bool
  writes : List (StateKey × Int)

/-- The loop over the keys of a line. -/
def scanEntries (id : Int) : List StateEntry → Int → Scan
  | [], n => ⟨n, false, true, []⟩
  | .pane number :: es, n =>
      let n := number.getD n
      if n = id then { scanEntries id es n with found := true } else ⟨n, false, true, []⟩
  | .tabs :: es, n => scanEntries id es n
  | .value k number :: es, n =>
      let n := number.getD n
      let s := scanEntries id es n
      { s with writes := (k, n) :: s.writes }
  | .invalid :: _, n => ⟨n, false, false, []⟩

/-- The loop over the lines. -/
def scanLines (id : Int) : List (List StateEntry) → Int → Scan
  | [], n => ⟨n, false, true, []⟩
  | es :: lines, n =>
      let s := scanEntries id es n
      if s.ok then
        let s' := scanLines id lines s.n
        { s' with found := s.found || s'.found, writes := s.writes ++ s'.writes }
      else s

/-- A reader after the loops. -/
def StateReader.after (r : StateReader) (key : List UInt8) (s : Scan) : StateReader :=
  ⟨key, s.n, r.found || s.found, applyWrites s.writes r.fields⟩

theorem readKeyvals_eq (id : Int) (keyvals : List (List UInt8)) (r : StateReader) :
    ∃ key, readKeyvals plat id keyvals r =
      (r.after key (scanEntries id (keyvals.map (stateEntry plat)) r.n),
        (scanEntries id (keyvals.map (stateEntry plat)) r.n).ok) := by
  induction keyvals generalizing r with
  | nil => exact ⟨r.key, by simp [readKeyvals, StateReader.after, scanEntries, applyWrites]⟩
  | cons keyval keyvals ih =>
      rw [readKeyvals, readKeyval_eq, List.map_cons]
      cases stateEntry plat keyval with
      | pane number =>
          rw [stepEntry, scanEntries]
          dsimp only
          split_ifs with hid
          · obtain ⟨key, hout⟩ := ih ⟨keyText keyval, number.getD r.n, true, r.fields⟩
            refine ⟨key, hout.trans ?_⟩
            simp [StateReader.after]
          · exact ⟨keyText keyval, by simp [StateReader.after, applyWrites]⟩
      | tabs => exact ih ⟨keyText keyval, r.n, r.found, r.fields⟩
      | value k number =>
          exact ih ⟨keyText keyval, number.getD r.n, r.found, k.set r.fields (number.getD r.n)⟩
      | invalid =>
          exact ⟨keyText keyval, by simp [stepEntry, scanEntries, StateReader.after, applyWrites]⟩

theorem readPanes_eq (id : Int) (lines : List (List UInt8)) (r : StateReader) :
    ∃ key, readPanes plat id lines r =
      (r.after key (scanLines id (lines.map (fun l => (Istream.linesOf 9 l).map (stateEntry plat))) r.n),
        (scanLines id (lines.map (fun l => (Istream.linesOf 9 l).map (stateEntry plat))) r.n).ok) := by
  induction lines generalizing r with
  | nil => exact ⟨r.key, by simp [readPanes, StateReader.after, scanLines, applyWrites]⟩
  | cons line lines ih =>
      obtain ⟨key, hout⟩ := readKeyvals_eq plat id (Istream.linesOf 9 line) r
      rw [readPanes, hout, List.map_cons, scanLines]
      generalize scanEntries id ((Istream.linesOf 9 line).map (stateEntry plat)) r.n = s
      dsimp only
      cases hok : s.ok with
      | true =>
          obtain ⟨key', hmore⟩ := ih (r.after key s)
          refine ⟨key', hmore.trans ?_⟩
          simp [StateReader.after, applyWrites_append, Bool.or_assoc]
      | false =>
          refine ⟨key, ?_⟩
          simp [hok]

/-- The entries of a response. -/
def responseEntries (response : List UInt8) : List (List StateEntry) :=
  (Istream.linesOf 10 response).map (fun l => (Istream.linesOf 9 l).map (stateEntry plat))

/-- **The fields and the verdict of the handler**: the writes that take place, and whether all
keys are valid and the pane is there. -/
theorem readTermState_eq (id : Int) (response : List UInt8) (f : TermFields) :
    readTermState plat id response f =
      let s := scanLines id (responseEntries plat response) plat.anyInt
      (applyWrites s.writes f, s.ok && s.found) := by
  obtain ⟨key, hout⟩ := readPanes_eq plat id (Istream.linesOf 10 response) ⟨[], plat.anyInt, false, f⟩
  rw [readTermState, hout]
  simp [StateReader.after, responseEntries]

end Entries

end Tmux
end Qutty
