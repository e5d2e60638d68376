import Qutty.Tmux.Layout
import Qutty.Tmux.Commands
import Qutty.Lib.OrderedMap
import Qutty.Pane.Layout

/-!
# The tmux client: windows, panes and their terminals

The notification handlers and callbacks of `tmux/TmuxGateway.cpp` and
`tmux/TmuxWindowPane.cpp`, over the main window that they work on.  A pane
(`TmuxWindowPane`) is an object with a terminal; `_mapPanes` holds the panes by
pane id and `_mapLayout` the layouts by window id.

What the handlers rely on and is not modelled further is in `Platform`: settings,
decoding of text, `term_size` of the terminal emulation, and the values of
variables that are read before they are set.  A line is followed in memory by
whatever the receive buffer holds behind it (`following`).

Ghost fields record what the objects are used for: the terminals' input (`fed`),
the panes deleted, and uses of terminals that are closed or panes that are
deleted (`misuses`).  `stopped` is set by an assertion that fails and by an
exception, which nobody catches.
-/

namespace Qutty
namespace Tmux

open Lib

/-- The fields of a terminal that the handlers work on. -/
structure TermFields where
  rows : Int
  cols : Int
  altWhich : Int
  altX : Int
  altY : Int
  altSavecursX : Int
  altSavecursY : Int
  savecursX : Int
  savecursY : Int
  cursX : Int
  cursY : Int
  margT : Int
  margB : Int
  insert : Bool
  appCursorKeys : Bool
  appKeypadKeys : Bool
  wrap : Bool
deriving DecidableEq, Repr

/-- What the handlers find around them. -/
structure Platform where
  /-- `CONF_savelines` -/
  savelines : Int
  /-- the size of the gateway's terminal -/
  cols : Int
  rows : Int
  /-- `QString` of a C string -/
  fromUtf8 : List UInt8 → List Nat
  /-- `term_init` -/
  termInit : TermFields
  termSize : TermFields → Int → Int → Int → TermFields
  /-- variables that have not been set -/
  anyInt : Int
  anyChar : UInt8

/-- `TmuxWindowPane`; `window` is a ghost field with the id of its window. -/
structure TmuxWindowPane where
  termWnd : Nat
  id : Int
  name : List UInt8
  width : Nat
  height : Nat
  ready : Bool
  window : Int
deriving DecidableEq, Repr

/-- `TmuxCmdRespReceiver`. -/
inductive Receiver where
  | gateway
  | pane (p : Nat)
deriving DecidableEq, Repr

/-- Why a terminal gets data. -/
inductive FeedSource where
  | output
  | history
  | historyAlt
deriving DecidableEq, Repr

/-- A `from_backend` call on the terminal of a pane. -/
structure Feed where
  terminal : Nat
  source : FeedSource
  bytes : List UInt8
deriving DecidableEq, Repr

/-- Uses of objects that are gone. -/
inductive Misuse where
  | closedTerminal (t : Nat)
  | deletedPane (p : Nat)
deriving DecidableEq, Repr

/-- The gateway's windows and panes, and the main window around them. -/
structure Client where
  main : Pane.GuiMainWindow
  following : List UInt8
  nextPane : Nat
  pane : Nat → TmuxWindowPane
  mapPanes : OrderedMap Int Nat
  mapLayout : OrderedMap Int TmuxLayout
  sessionID : Int
  sessionName : Option (List UInt8)
  /-- `runtime_title` of a terminal -/
  title : Nat → List Nat
  /-- `term` of a terminal -/
  term : Nat → TermFields
  fed : List Feed
  deleted : List Nat
  misuses : List Misuse
  stopped : Bool

/-- An `unsigned int` as an `int`. -/
def toInt (n : Nat) : Int := Int.bmod n (2 ^ 32)

/-- `%d`. -/
def decimal (i : Int) : List Char := (intNumeral i).map Char.ofNat

/-- `QString::fromLatin1` of a C string. -/
def fromLatin1 (s : List UInt8) : List Nat := (cString s).map UInt8.toNat

namespace Client

/-- The client of a new gateway in a main window. -/
def init (plat : Platform) (main : Pane.GuiMainWindow) : Client where
  main := main
  following := []
  nextPane := 0
  pane _ := ⟨0, 0, [], 0, 0, false, 0⟩
  mapPanes := .empty
  mapLayout := .empty
  sessionID := 0
  sessionName := none
  title _ := []
  term _ := plat.termInit
  fed := []
  deleted := []
  misuses := []
  stopped := false

/-- Ghost step: a pane is used. -/
def usePane (c : Client) (p : Nat) : Client :=
  if p ∈ c.deleted then { c with misuses := c.misuses ++ [.deletedPane p] } else c

/-- Ghost step: a terminal is used. -/
def useTerminal (c : Client) (t : Nat) : Client :=
  if t ∈ c.main.closed then { c with misuses := c.misuses ++ [.closedTerminal t] } else c

/-- `setSessionTitle`. -/
def setSessionTitle (c : Client) (t : Nat) (text : List Nat) : Client :=
  let c := c.useTerminal t
  { c with title := Function.update c.title t text }

/-- `from_backend` of a terminal. -/
def fromBackend (c : Client) (t : Nat) (source : FeedSource) (bytes : List UInt8) : Client :=
  let c := c.useTerminal t
  { c with fed := c.fed ++ [⟨t, source, bytes⟩] }

/-- Writes to the fields of a terminal. -/
def updateTerm (c : Client) (t : Nat) (f : TermFields → TermFields) : Client :=
  let c := c.useTerminal t
  { c with term := Function.update c.term t (f (c.term t)) }

end Client

/-- `GuiMainWindow::setupLayout` with a splitter. -/
def setupLayout (w : Pane.GuiMainWindow) (newTerm : Nat) : Option Nat → Pane.GuiMainWindow
  | none => w.setupLayoutLeaf newTerm (-1)
  | some s =>
      let w := w.addBaseWidget s (-1) (.term newTerm)
      ({ w with terminalList := w.terminalList ++ [newTerm] }).onTabLayoutChanged

/-- `new GuiSplitter(orientation, splitter)`; the splitter is the old
`nextSplitter`. -/
def newGuiSplitter (w : Pane.GuiMainWindow) (orient : Pane.Orientation) :
    Option Nat → Pane.GuiMainWindow
  | none => w.newSplitter orient
  | some s => w.newSplitterIn orient s (-1)

section Texts

def cmdHist (paneid savelines : Int) : List Char :=
  "capture-pane -peqJ -t %".toList ++ decimal paneid ++ " -S -".toList ++ decimal savelines ++
    ['\n']

def cmdHistAlt (paneid savelines : Int) : List Char :=
  "capture-pane -peqJ -a -t %".toList ++ decimal paneid ++ " -S -".toList ++
    decimal savelines ++ ['\n']

def stateKeys : List String :=
  ["pane_id", "alternate_on", "alternate_saved_x", "alternate_saved_y", "saved_cursor_x",
   "saved_cursor_y", "cursor_x", "cursor_y", "scroll_region_upper", "scroll_region_lower",
   "pane_tabs", "cursor_flag", "insert_flag", "keypad_cursor_flag", "keypad_flag", "wrap_flag",
   "mouse_standard_flag", "mouse_button_flag", "mouse_any_flag", "mouse_utf8_flag"]

def cmdState (paneid : Int) : List Char :=
  "list-panes -t %".toList ++ decimal paneid ++ " -F \"".toList ++
    List.intercalate ['\t']
      (stateKeys.map (fun k => k.toList ++ "=#\x7b".toList ++ k.toList ++ ['\x7d'])) ++
    "\"\n".toList

def cmdDisplayPane (wndid : Int) : List Char :=
  ("display -p -F " ++
    "\"#\x7bsession_name\x7d\t#\x7bwindow_id\x7d\t#\x7bwindow_name\x7d\t" ++
    "#\x7bwindow_width\x7d\t#\x7bwindow_height\x7d\t#\x7bwindow_layout\x7d\t" ++
    "#\x7b?window_active,1,0\x7d\" -t @").toList ++ decimal wndid ++ ['\n']

def cmdRefreshClient (cols rows : Int) : List Char :=
  "refresh-client -C ".toList ++ decimal cols ++ [','] ++ decimal rows ++ ['\n']

def cmdListSessions : List Char := "list-sessions -F \"#\x7bsession_name\x7d\"\n".toList

def cmdListWindows : List Char :=
  ("list-windows -F \"#\x7bsession_name\x7d\t#\x7bwindow_id\x7d\t#\x7bwindow_name\x7d\t" ++
    "#\x7bwindow_width\x7d\t#\x7bwindow_height\x7d\t#\x7bwindow_layout\x7d\t" ++
    "#\x7bwindow_flags\x7d\t#\x7b?window_active,1,0\x7d\"\n").toList

end Texts

/-- What a handler leaves behind: the client, and the commands that it sent. -/
abbrev Handled := Client × List (Command Receiver)

section Windows

variable (plat : Platform) (id : Int) (name : List UInt8)

/-- The branch of `createNewWindowPane` for a pane that is not known. -/
def createPane (layout : TmuxLayout) (splitter : Option Nat) (c : Client) : Handled :=
  let paneid := toInt layout.paneid
  let t := c.main.nextTerminal
  let p := c.nextPane
  let c := { c with
    main := setupLayout c.main.newTerminal t splitter
    nextPane := p + 1
    pane := Function.update c.pane p
      ⟨t, paneid, cString name, layout.width, layout.height, false, id⟩
    term := Function.update c.term t
      (plat.termSize plat.termInit layout.height layout.width plat.savelines)
    title := Function.update c.title t (plat.fromUtf8 (cString name))
    mapPanes := c.mapPanes.insert paneid p }
  (c, [⟨.pane p, .dumpHistory, cmdHist paneid plat.savelines⟩,
       ⟨.pane p, .dumpHistoryAlt, cmdHistAlt paneid plat.savelines⟩,
       ⟨.pane p, .dumpTermState, cmdState paneid⟩])

/-- The branch of `createNewWindowPane` for a leaf. -/
def createLeaf (layout : TmuxLayout) (splitter : Option Nat) (c : Client) : Handled :=
  match c.mapPanes.find (toInt layout.paneid) with
  | none => createPane plat id name layout splitter c
  | some p =>
      let c := c.usePane p
      (c.updateTerm (c.pane p).termWnd
        (fun f => plat.termSize f layout.height layout.width plat.savelines), [])

/-- The new splitter of `createNewWindowPane`, which also becomes a tab. -/
def addSplitter (orient : Pane.Orientation) (splitter : Option Nat) (c : Client) : Client :=
  { c with main :=
      (newGuiSplitter c.main orient splitter).tabInsert (-1) (.split c.main.nextSplitter) }

mutual

/-- `TmuxGateway::createNewWindowPane`. -/
def createNewWindowPane : TmuxLayout → Option Nat → Client → Handled
  | ⟨_, _, _, _, _, .none, _⟩, _, c => ({ c with stopped := true }, [])
  | ⟨width, height, x, y, paneid, .leaf, child⟩, splitter, c =>
      createLeaf plat id name ⟨width, height, x, y, paneid, .leaf, child⟩ splitter c
  | ⟨_, _, _, _, _, .horizontal, child⟩, splitter, c =>
      createChildren child c.main.nextSplitter (addSplitter .horizontal splitter c)
  | ⟨_, _, _, _, _, .vertical, child⟩, splitter, c =>
      createChildren child c.main.nextSplitter (addSplitter .vertical splitter c)

/-- The loop over the children. -/
def createChildren : List TmuxLayout → Nat → Client → Handled
  | [], _, c => (c, [])
  | l :: ls, s, c =>
      let (c, cs) := createNewWindowPane l (some s) c
      if c.stopped then (c, cs)
      else
        let (c, cs') := createChildren ls s c
        (c, cs ++ cs')

end

/-- `TmuxGateway::createNewWindow`.  `operator[]` makes an entry for the window;
`substr(5)` throws for a text that is too short. -/
def createNewWindow (layout : List UInt8) (c : Client) : Handled :=
  let old := (c.mapLayout.find id).getD .init
  if layout.length < 5 then
    ({ c with mapLayout := c.mapLayout.insert id old, stopped := true }, [])
  else
    let (ok, l) := old.initLayout (layout.drop 5)
    let c := { c with mapLayout := c.mapLayout.insert id l }
    if ok then createNewWindowPane plat id name l none c else (c, [])

end Windows

/-- The variables of `resp_hdlr_list_windows`. -/
structure WindowRecord where
  sessname : List UInt8
  ch : UInt8
  wndid : Int
  wndname : List UInt8
  width : Int
  height : Int
  layout : List UInt8
  wndflags : List UInt8
  wndactive : Int

section Replies

variable (plat : Platform)

/-- One record of a window list; `flags` is whether it has the field of flags. -/
def readRecord (flags : Bool) (line : List UInt8) (r : WindowRecord) : WindowRecord :=
  let (sessname, s) := (Istream.ofString line).readWordInto r.sessname
  let (ch, s) := s.readCharInto r.ch
  let r := { r with sessname := sessname, ch := ch }
  if ch ≠ TmuxLayout.octetOf '@' then r
  else
    let (wndid, s) := s.readIntInto r.wndid
    let (wndname, s) := s.readWordInto r.wndname
    let (width, s) := s.readIntInto r.width
    let (height, s) := s.readIntInto r.height
    let (layout, s) := s.readWordInto r.layout
    let (wndflags, s) := if flags then s.readWordInto r.wndflags else (r.wndflags, s)
    let (wndactive, _) := s.readIntInto r.wndactive
    { r with wndid := wndid, wndname := wndname, width := width, height := height,
             layout := layout, wndflags := wndflags, wndactive := wndactive }

/-- The loop over the records. -/
def respWindows (flags : Bool) : List (List UInt8) → WindowRecord → Client → Handled
  | [], _, c => (c, [])
  | line :: lines, r, c =>
      let r := readRecord flags line r
      if r.ch ≠ TmuxLayout.octetOf '@' then (c, [])
      else
        let (c, cs) := createNewWindow plat r.wndid (cString r.wndname) r.layout c
        if c.stopped then (c, cs)
        else
          let (c, cs') := respWindows flags lines r c
          (c, cs ++ cs')

/-- The variables before the loop. -/
def WindowRecord.init : WindowRecord :=
  ⟨[], plat.anyChar, plat.anyInt, [], plat.anyInt, plat.anyInt, [], [], plat.anyInt⟩

/-- `resp_hdlr_list_windows`. -/
def respHdlrListWindows (response : List UInt8) (c : Client) : Handled :=
  respWindows plat true (Istream.linesOf 10 response) (.init plat) c

/-- `resp_hdlr_open_listed_windows`. -/
def respHdlrOpenListedWindows (response : List UInt8) (c : Client) : Handled :=
  respWindows plat false (Istream.linesOf 10 response) (.init plat) c

/-- `TmuxGateway::performCallback`. -/
def gatewayCallback : TmuxCbIndex → List UInt8 → Client → Handled
  | .listWindows, response, c => respHdlrListWindows plat response c
  | .openListedWindows, response, c => respHdlrOpenListedWindows plat response c
  | _, _, c => (c, [])

/-- The keys of the terminal state that hold a number, with what is done with it. -/
def stateSetters : List (String × (TermFields → Int → TermFields)) :=
  [("alternate_on", fun f n => { f with altWhich := n }),
   ("alternate_saved_x", fun f n => { f with altX := n, altSavecursX := n }),
   ("alternate_saved_y", fun f n => { f with altY := n, altSavecursY := n }),
   ("saved_cursor_x", fun f n => { f with savecursX := n }),
   ("saved_cursor_y", fun f n => { f with savecursY := n }),
   ("cursor_x", fun f n => { f with cursX := n }),
   ("cursor_y", fun f n => { f with cursY := n }),
   ("scroll_region_upper", fun f n => { f with margT := n }),
   ("scroll_region_lower", fun f n => { f with margB := n }),
   ("cursor_flag", fun f _ => f),
   ("insert_flag", fun f n => { f with insert := n ≠ 0 }),
   ("keypad_cursor_flag", fun f n => { f with appCursorKeys := n ≠ 0 }),
   ("keypad_flag", fun f n => { f with appKeypadKeys := n ≠ 0 }),
   ("wrap_flag", fun f n => { f with wrap := n ≠ 0 }),
   ("mouse_standard_flag", fun f _ => f),
   ("mouse_button_flag", fun f _ => f),
   ("mouse_any_flag", fun f _ => f),
   ("mouse_utf8_flag", fun f _ => f)]

/-- The variables of `resp_hdlr_dump_term_state`, and the fields that it writes. -/
structure StateReader where
  key : List UInt8
  n : Int
  found : Bool
  fields : TermFields

/-- How the loop over the keys of a pane is left. -/
inductive StateExit where
  | next
  /-- `break`: the line of another pane -/
  | other
  /-- `goto cu0` -/
  | invalid
deriving DecidableEq, Repr

/-- One key with its value. -/
def readKeyval (id : Int) (keyval : List UInt8) (r : StateReader) : StateReader × StateExit :=
  let (key, s) := (Istream.ofString keyval).getlineInto (TmuxLayout.octetOf '=') r.key
  let r := { r with key := key }
  if key = ascii "pane_id".toList then
    let (ch, s) := s.readCharInto plat.anyChar
    if ch ≠ TmuxLayout.octetOf '%' then (r, .invalid)
    else
      let (n, _) := s.readIntInto r.n
      if n = id then ({ r with n := n, found := true }, .next)
      else ({ r with n := n }, .other)
  else if key = ascii "pane_tabs".toList then (r, .next)
  else
    match stateSetters.find? (fun e => ascii e.1.toList = key) with
    | some e =>
        let (n, _) := s.readIntInto r.n
        ({ r with n := n, fields := e.2 r.fields n }, .next)
    | none => (r, .invalid)

/-- The keys of one pane. -/
def readKeyvals (id : Int) : List (List UInt8) → StateReader → StateReader × Bool
  | [], r => (r, true)
  | keyval :: rest, r =>
      match readKeyval plat id keyval r with
      | (r, .next) => readKeyvals id rest r
      | (r, .other) => (r, true)
      | (r, .invalid) => (r, false)

/-- The lines of all panes; `false` for `goto cu0`. -/
def readPanes (id : Int) : List (List UInt8) → StateReader → StateReader × Bool
  | [], r => (r, true)
  | line :: rest, r =>
      match readKeyvals plat id (Istream.linesOf 9 line) r with
      | (r, true) => readPanes id rest r
      | (r, false) => (r, false)

/-- The fields and the verdict of `resp_hdlr_dump_term_state`. -/
def readTermState (id : Int) (response : List UInt8) (fields : TermFields) :
    TermFields × Bool :=
  let (r, ok) := readPanes plat id (Istream.linesOf 10 response) ⟨[], plat.anyInt, false, fields⟩
  (r.fields, ok && r.found)

/-- `resp_hdlr_dump_term_state`. -/
def respHdlrDumpTermState (p : Nat) (response : List UInt8) (c : Client) : Client :=
  let t := (c.pane p).termWnd
  let c := c.useTerminal t
  let (fields, ok) := readTermState plat (c.pane p).id response (c.term t)
  let c := { c with term := Function.update c.term t fields }
  if ok then { c with pane := Function.update c.pane p { c.pane p with ready := true } } else c

/-- `resp_hdlr_dump_history`.  The assertions about the number of lines in the
terminal are left out, and so is the swap of the two screens around the call. -/
def respHdlrDumpHistory (alt : Bool) (p : Nat) (response : List UInt8) (c : Client) : Client :=
  let t := (c.pane p).termWnd
  let c := c.useTerminal t
  if 1 < response.length then
    let c := if alt then c.updateTerm t (fun f => { f with cursX := 0, cursY := 0 }) else c
    c.fromBackend t (if alt then .historyAlt else .history) response.dropLast
  else c

/-- `TmuxWindowPane::performCallback`. -/
def paneCallback (p : Nat) (callback : TmuxCbIndex) (response : List UInt8) (c : Client) :
    Client :=
  let c := c.usePane p
  match callback with
  | .dumpTermState => respHdlrDumpTermState plat p response c
  | .dumpHistory => respHdlrDumpHistory false p response c
  | .dumpHistoryAlt => respHdlrDumpHistory true p response c
  | _ => c

end Replies

section Notifications

/-- The text of a line from a position on, as a C string. -/
def commandText (line : List UInt8) (start : Nat) (c : Client) : List UInt8 :=
  cString ((line ++ c.following).drop start)

/-- `c < ' '` for a signed `char`. -/
def isControl (b : UInt8) : Bool := b < 32 ∨ 128 ≤ b

/-- The digits of an escape in an `%output` line; `i` is the index of the last
character read. -/
def readEscape (bytes : List UInt8) : Nat → Nat → UInt8 → UInt8 × Nat
  | 0, i, c => (c, i)
  | j + 1, i, c =>
      let b := bytes.getD (i + 1) 0
      -- a `\r` counts as one of the three digits
      if b = 13 then readEscape bytes j (i + 1) c
      else if b < 48 ∨ 55 < b then (63, i)
      else readEscape bytes j (i + 1) (c * 8 + (b - 48))

/-- The loop of `cmd_hdlr_output` over `byteslen` bytes. -/
def decodeFrom (bytes : List UInt8) (byteslen : Nat) : Nat → Nat → List UInt8
  | 0, _ => []
  | n + 1, i =>
      if i < byteslen then
        let b := bytes.getD i 0
        if isControl b then decodeFrom bytes byteslen n (i + 1)
        else if b = 92 then
          let (c, i) := readEscape bytes 3 i b
          c :: decodeFrom bytes byteslen n (i + 1)
        else b :: decodeFrom bytes byteslen n (i + 1)
      else []

/-- The data of an `%output` line. -/
def decodeOutput (bytes : List UInt8) (byteslen : Nat) : List UInt8 :=
  decodeFrom bytes byteslen byteslen 0

/-- `sizeof(data)` in `cmd_hdlr_output`. -/
def outputBufferSize : Nat := 128

/-- `cmd_hdlr_output`. -/
def cmdHdlrOutput (line : List UInt8) (c : Client) : Client :=
  let mem := line ++ c.following
  let cmd := mem.drop 8
  if cmd.head? ≠ some (TmuxLayout.octetOf '%') then c
  else
    match strtol (cmd.drop 1) with
    | none => c
    | some (paneid, bytes) =>
        match c.mapPanes.find paneid with
        | none => c
        | some p =>
            let c := c.usePane p
            if (c.pane p).ready = false then c
            else
              let start := mem.length - bytes.length + 1
              let data := decodeOutput (mem.drop start) (line.length - start - 1)
              (data.toChunks outputBufferSize).foldl
                (fun c piece => c.fromBackend (c.pane p).termWnd .output piece) c

/-- `openWindowsInitial`. -/
def openWindowsInitial (plat : Platform) : List (Command Receiver) :=
  [⟨.gateway, .null, cmdRefreshClient plat.cols plat.rows⟩,
   ⟨.gateway, .null, cmdListSessions⟩,
   ⟨.gateway, .listWindows, cmdListWindows⟩]

/-- `cmd_hdlr_session_changed`. -/
def cmdHdlrSessionChanged (plat : Platform) (line : List UInt8) (c : Client) : Handled :=
  match strtol ((line ++ c.following).drop 18) with
  | none => (c, [])
  | some (sessid, rest) =>
      ({ c with sessionID := sessid, sessionName := some (cString (rest.drop 1)) },
        openWindowsInitial plat)

/-- `cmd_hdlr_window_renamed`. -/
def cmdHdlrWindowRenamed (plat : Platform) (line : List UInt8) (c : Client) : Client :=
  let (paneid, s) := (Istream.ofString (commandText line 17 c)).readIntInto plat.anyInt
  match c.mapPanes.find paneid with
  | none => c
  | some p =>
      let (wndtitle, _) := s.readWordInto []
      let c := c.usePane p
      c.setSessionTitle (c.pane p).termWnd (fromLatin1 wndtitle)

/-- `cmd_hdlr_window_add`. -/
def cmdHdlrWindowAdd (plat : Platform) (line : List UInt8) (c : Client) : Handled :=
  let (paneid, _) := (Istream.ofString (commandText line 13 c)).readIntInto plat.anyInt
  match c.mapPanes.find paneid with
  | some _ => (c, [])
  | none => (c, [⟨.gateway, .openListedWindows, cmdDisplayPane paneid⟩])

/-- `cmd_hdlr_window_close`. -/
def cmdHdlrWindowClose (plat : Platform) (line : List UInt8) (c : Client) : Client :=
  let (paneid, _) := (Istream.ofString (commandText line 15 c)).readIntInto plat.anyInt
  match c.mapPanes.find paneid with
  | none => c
  | some p =>
      let c := c.usePane p
      { c with
        main := c.main.tabRemove (Pane.indexOf c.main.tabs (.term (c.pane p).termWnd))
        mapPanes := c.mapPanes.erase paneid }

/-- `cmd_hdlr_layout_change`; the layout is read and dropped. -/
def cmdHdlrLayoutChange (plat : Platform) (line : List UInt8) (c : Client) : Client :=
  let (at?, s) := (Istream.ofString (commandText line 15 c)).get
  if at? ≠ some (TmuxLayout.octetOf '@') then c
  else
    let (_, s) := s.readIntInto plat.anyInt
    let (strlayout, _) := s.readWordInto []
    if strlayout.length < 5 then { c with stopped := true } else c

/-- The dispatch of `parseCommand`. -/
def notify (plat : Platform) (n : Notification) (line : List UInt8) (c : Client) : Handled :=
  match n with
  | .output => (cmdHdlrOutput line c, [])
  | .sessionChanged => cmdHdlrSessionChanged plat line c
  | .windowRenamed => (cmdHdlrWindowRenamed plat line c, [])
  | .windowAdd => cmdHdlrWindowAdd plat line c
  | .windowClose => (cmdHdlrWindowClose plat line c, [])
  | .layoutChange => (cmdHdlrLayoutChange plat line c, [])
  | .noop | .sessionsChanged | .exit => (c, [])

/-- `performCallback` of the gateway and of the panes. -/
def performCallback (plat : Platform) :
    Receiver → TmuxCbIndex → List UInt8 → Client → Handled
  | .gateway, callback, response, c => gatewayCallback plat callback response c
  | .pane p, callback, response, c => (paneCallback plat p callback response c, [])

/-- The handlers and callbacks of the client. -/
def clientHandlers (plat : Platform) : GatewayHandlers UInt8 Receiver Client where
  notify := notify plat
  performCallback := performCallback plat

end Notifications

section Closing

/-- One turn of the loop of `closeAllPanes`. -/
def closePaneTerminal (c : Client) (p : Nat) : Client :=
  if c.stopped then c
  else
    let c := c.usePane p
    let t := (c.pane p).termWnd
    let c := c.useTerminal t
    match c.main.closeTerminal t with
    | some main => { c with main := main, deleted := c.deleted ++ [p] }
    | none => { c with stopped := true }

/-- `closeAllPanes`. -/
def closeAllPanes (c : Client) : Client :=
  let c := c.mapPanes.values.foldl closePaneTerminal c
  { c with mapPanes := .empty }

end Closing

end Tmux
end Qutty
