import Qutty.Lib.OrderedMap
import Qutty.Lib.Runs
import Qutty.Lib.Text

/-!
# The Telnet backend

`puttysrc/otherbackends/telnet.c`: what is read of the connection, byte by byte, with the
negotiation of options, and what is written to it.

The backend writes whole packets: a command, a subnegotiation, a piece of data.  `sent` are
these packets in order (`Packet.bytes` are the bytes that `sk_write` gets), `log` is the event
log of `log_option`, and `shown` is what `c_write` has passed to the terminal.
-/

namespace Qutty
namespace Net

open Lib Lib.ByteOrder

section Options

/-- The commands of a negotiation. -/
inductive Cmd where
  | WILL
  | WONT
  | DO
  | DONT
deriving DecidableEq, Repr

def Cmd.byte : Cmd → UInt8
  | .WILL => 251
  | .WONT => 252
  | .DO => 253
  | .DONT => 254

/-- The states of an option. -/
inductive OptState where
  | requested
  | active
  | inactive
  | reallyInactive
deriving DecidableEq, Repr

/-- `OPTINDEX_*`. -/
inductive OptIndex where
  | naws
  | tspeed
  | ttype
  | oenv
  | nenv
  | echo
  | weSga
  | theySga
  | weBin
  | theyBin
deriving DecidableEq, Repr

/-- `struct Opt`. -/
structure Opt where
  send : Cmd
  nsend : Cmd
  ack : Cmd
  nak : Cmd
  option : UInt8
  index : OptIndex
  initialState : OptState
deriving DecidableEq, Repr

def oNaws : Opt := ⟨.WILL, .WONT, .DO, .DONT, 31, .naws, .requested⟩
def oTspeed : Opt := ⟨.WILL, .WONT, .DO, .DONT, 32, .tspeed, .requested⟩
def oTtype : Opt := ⟨.WILL, .WONT, .DO, .DONT, 24, .ttype, .requested⟩
def oOenv : Opt := ⟨.WILL, .WONT, .DO, .DONT, 36, .oenv, .inactive⟩
def oNenv : Opt := ⟨.WILL, .WONT, .DO, .DONT, 39, .nenv, .requested⟩
def oEcho : Opt := ⟨.DO, .DONT, .WILL, .WONT, 1, .echo, .requested⟩
def oWeSga : Opt := ⟨.WILL, .WONT, .DO, .DONT, 3, .weSga, .requested⟩
def oTheySga : Opt := ⟨.DO, .DONT, .WILL, .WONT, 3, .theySga, .requested⟩
def oWeBin : Opt := ⟨.WILL, .WONT, .DO, .DONT, 0, .weBin, .inactive⟩
def oTheyBin : Opt := ⟨.DO, .DONT, .WILL, .WONT, 0, .theyBin, .inactive⟩

/-- `opts`. -/
def opts : List Opt :=
  [oNaws, oTspeed, oTtype, oOenv, oNenv, oEcho, oWeSga, oTheySga, oWeBin, oTheyBin]

end Options

section Packets

/-- The high and the low byte of an `int`. -/
def highByte (i : Int) : UInt8 := UInt8.ofNat (i / 256 % 256).toNat
def lowByte (i : Int) : UInt8 := UInt8.ofNat (i % 256).toNat

/-- A byte of data; IAC is doubled. -/
def stuffed (c : UInt8) : List UInt8 := if c = 255 then [255, 255] else [c]

/-- What is written with one call, or two in a row. -/
inductive Packet where
  /-- `send_opt` -/
  | opt (cmd : Cmd) (option : UInt8)
  /-- a reply of `process_subneg` -/
  | subneg (option : UInt8) (text : List UInt8)
  /-- `telnet_size` -/
  | naws (width height : Int)
  /-- bytes of `telnet_send` that need no escape -/
  | plain (bytes : List UInt8)
  /-- IAC IAC, and CR NUL -/
  | iac
  | cr
  /-- IAC and a code -/
  | special (code : UInt8)
  /-- the end of a line -/
  | eol (binary : Bool)
deriving DecidableEq, Repr

/-- The bytes. -/
def Packet.bytes : Packet → List UInt8
  | .opt cmd option => [255, cmd.byte, option]
  | .subneg option text => [255, 250, option] ++ text ++ [255, 240]
  | .naws width height =>
      [255, 250, 31] ++ stuffed (highByte width) ++ stuffed (lowByte width) ++
        stuffed (highByte height) ++ stuffed (lowByte height) ++ [255, 240]
  | .plain bytes => bytes
  | .iac => [255, 255]
  | .cr => [13, 0]
  | .special code => [255, code]
  | .eol binary => if binary then [13] else [13, 10]

end Packets

/-- What the backend uses of its `Conf`; `user` is the result of `get_remote_username`. -/
structure TelnetConf where
  passiveTelnet : Bool
  termspeed : CStr
  termtype : CStr
  rfcEnviron : Bool
  environmt : OrderedMap CStr CStr
  user : Option CStr

/-- The states of the reader. -/
inductive ReadState where
  | topLevel
  | seenIac
  | seenWill
  | seenWont
  | seenDo
  | seenDont
  | seenSb
  | subnegot
  | subnegIac
  | seenCr
deriving DecidableEq, Repr

/-- Who has sent a command. -/
inductive Sender where
  | client
  | server
deriving DecidableEq, Repr

/-- `Telnet`.  `connected` is whether there is a socket. -/
structure Telnet where
  connected : Bool
  conf : TelnetConf
  termWidth : Int
  termHeight : Int
  optStates : OptIndex → OptState
  echoing : Bool
  editing : Bool
  activated : Bool
  inSynch : Bool
  sbOpt : UInt8
  sbBuf : List UInt8
  state : ReadState
  sent : List Packet
  log : List (Sender × Cmd × UInt8)
  shown : List UInt8

namespace Telnet

variable (t : Telnet)

section Negotiation

/-- `sk_write`. -/
def write (p : Packet) : Telnet := { t with sent := t.sent ++ [p] }

/-- `log_option`. -/
def logOption (sender : Sender) (cmd : Cmd) (option : UInt8) : Telnet :=
  { t with log := t.log ++ [(sender, cmd, option)] }

/-- `send_opt`. -/
def sendOpt (cmd : Cmd) (option : UInt8) : Telnet :=
  (t.write (.opt cmd option)).logOption .client cmd option

/-- `opt_states[index] = state`. -/
def setOpt (index : OptIndex) (state : OptState) : Telnet :=
  { t with optStates := Function.update t.optStates index state }

/-- `deactivate_option`. -/
def deactivateOption (o : Opt) : Telnet :=
  (if t.optStates o.index = .requested ∨ t.optStates o.index = .active then
    t.sendOpt o.nsend o.option
  else t).setOpt o.index .reallyInactive

/-- One of the options that are wanted at least. -/
def ensureOption (o : Opt) : Telnet :=
  if t.optStates o.index = .inactive then
    (t.setOpt o.index .requested).sendOpt o.send o.option
  else t

/-- The part of `option_side_effects` for the line discipline. -/
def echoEdit (o : Opt) (enabled : Bool) : Telnet :=
  if o.option = 1 ∧ o.send = .DO then { t with echoing := !enabled }
  else if o.option = 3 ∧ o.send = .DO then { t with editing := !enabled }
  else t

/-- `option_side_effects`. -/
def optionSideEffects (o : Opt) (enabled : Bool) : Telnet :=
  let t := t.echoEdit o enabled
  if t.activated then t
  else
    { ((t.ensureOption oEcho).ensureOption oWeSga).ensureOption oTheySga with activated := true }

/-- `telnet_size`. -/
def size (width height : Int) : Telnet :=
  let t := { t with termWidth := width, termHeight := height }
  if t.connected = false ∨ t.optStates .naws ≠ .active then t
  else t.write (.naws width height)

/-- `activate_option`. -/
def activateOption (o : Opt) : Telnet :=
  let t := if o.send = .WILL ∧ o.option = 31 then t.size t.termWidth t.termHeight else t
  let t :=
    if o.send = .WILL ∧ (o.option = 39 ∨ o.option = 36) then
      t.deactivateOption (if o.option = 39 then oOenv else oNenv)
    else t
  t.optionSideEffects o true

/-- `refused_option`. -/
def refusedOption (o : Opt) : Telnet :=
  let t :=
    if o.send = .WILL ∧ o.option = 39 ∧ t.optStates .oenv = .inactive then
      (t.sendOpt .WILL 36).setOpt .oenv .requested
    else t
  t.optionSideEffects o false

/-- A positive command for an option. -/
def acknowledged (o : Opt) : Telnet :=
  match t.optStates o.index with
  | .requested => (t.setOpt o.index .active).activateOption o
  | .active => t
  | .inactive => ((t.setOpt o.index .active).sendOpt o.send o.option).activateOption o
  | .reallyInactive => t.sendOpt o.nsend o.option

/-- A negative command for an option. -/
def refused (o : Opt) : Telnet :=
  match t.optStates o.index with
  | .requested => (t.setOpt o.index .inactive).refusedOption o
  | .active =>
      ((t.setOpt o.index .inactive).sendOpt o.nsend o.option).optionSideEffects o false
  | .inactive => t
  | .reallyInactive => t

/-- The option that a command of the server is for. -/
def optFor (cmd : Cmd) (option : UInt8) : Option Opt :=
  opts.find? (fun o => o.option = option ∧ (o.ack = cmd ∨ o.nak = cmd))

/-- `proc_rec_opt`. -/
def procRecOpt (cmd : Cmd) (option : UInt8) : Telnet :=
  let t := t.logOption .server cmd option
  match optFor cmd option with
  | some o => if o.ack = cmd then t.acknowledged o else t.refused o
  | none =>
      match cmd with
      | .WILL => t.sendOpt .DONT option
      | .DO => t.sendOpt .WONT option
      | _ => t

end Negotiation

section Subnegotiation

/-- A letter of a terminal type. -/
def toUpper (c : UInt8) : UInt8 := if 97 ≤ c ∧ c ≤ 122 then c - 32 else c

/-- VAR and VALUE for `TELOPT_OLD_ENVIRON`, guessed from the request. -/
def guessVars (rfcEnviron : Bool) (request : List UInt8) : UInt8 × UInt8 :=
  request.foldl (fun guess c => if c = 0 then (0, 1) else if c = 1 then (1, 0) else guess)
    (if rfcEnviron then (0, 1) else (1, 0))

/-- The variables of the environment. -/
def environText (conf : TelnetConf) (var value : UInt8) : List UInt8 :=
  conf.environmt.entries.flatMap (fun e => var :: e.1.val ++ value :: e.2.val) ++
    match conf.user with
    | some user => var :: [85, 83, 69, 82] ++ value :: user.val
    | none => []

/-- `process_subneg`. -/
def processSubneg : Telnet :=
  if t.sbOpt = 32 then
    if t.sbBuf = [1] then t.write (.subneg 32 (0 :: t.conf.termspeed.val)) else t
  else if t.sbOpt = 24 then
    if t.sbBuf = [1] then t.write (.subneg 24 (0 :: t.conf.termtype.val.map toUpper)) else t
  else if t.sbOpt = 36 ∨ t.sbOpt = 39 then
    match t.sbBuf with
    | 1 :: request =>
        let vars := if t.sbOpt = 36 then guessVars t.conf.rfcEnviron request else (0, 1)
        t.write (.subneg t.sbOpt (0 :: environText t.conf vars.1 vars.2))
    | _ => t
  else t

end Subnegotiation

section Reading

/-- The body of the loop of `do_telnet_read`, and what it puts into `outbuf`. -/
def readByte (c : UInt8) : Telnet × List UInt8 :=
  match t.state with
  | .topLevel | .seenCr =>
      if c = 0 ∧ t.state = .seenCr then ({ t with state := .topLevel }, [])
      else if c = 255 then ({ t with state := .seenIac }, [])
      else
        ({ t with
            inSynch := if t.inSynch ∧ c = 242 then false else t.inSynch
            state := if c = 13 ∧ t.optStates .theyBin ≠ .active then .seenCr else .topLevel },
          if t.inSynch then [] else [c])
  | .seenIac =>
      if c = 253 then ({ t with state := .seenDo }, [])
      else if c = 254 then ({ t with state := .seenDont }, [])
      else if c = 251 then ({ t with state := .seenWill }, [])
      else if c = 252 then ({ t with state := .seenWont }, [])
      else if c = 250 then ({ t with state := .seenSb }, [])
      else if c = 242 then ({ t with inSynch := false, state := .topLevel }, [])
      else ({ t with state := .topLevel }, if c = 255 then [c] else [])
  | .seenWill => ({ t.procRecOpt .WILL c with state := .topLevel }, [])
  | .seenWont => ({ t.procRecOpt .WONT c with state := .topLevel }, [])
  | .seenDo => ({ t.procRecOpt .DO c with state := .topLevel }, [])
  | .seenDont => ({ t.procRecOpt .DONT c with state := .topLevel }, [])
  | .seenSb => ({ t with sbOpt := c, sbBuf := [], state := .subnegot }, [])
  | .subnegot =>
      if c = 255 then ({ t with state := .subnegIac }, [])
      else ({ t with sbBuf := t.sbBuf ++ [c], state := .subnegot }, [])
  | .subnegIac =>
      if c ≠ 240 then ({ t with sbBuf := t.sbBuf ++ [c], state := .subnegot }, [])
      else ({ t.processSubneg with state := .topLevel }, [])

/-- `c_write`. -/
def cWrite (buf : List UInt8) : Telnet := { t with shown := t.shown ++ buf }

/-- A round of the loop, with the writing of a full `outbuf`. -/
def readRound (s : Telnet × List UInt8) (c : UInt8) : Telnet × List UInt8 :=
  let r := s.1.readByte c
  let outbuf := s.2 ++ r.2
  if 4096 ≤ outbuf.length then (r.1.cWrite outbuf, []) else (r.1, outbuf)

/-- `do_telnet_read`. -/
def doTelnetRead (buf : List UInt8) : Telnet :=
  let s := buf.foldl readRound (t, [])
  if s.2.length = 0 then s.1 else s.1.cWrite s.2

end Reading

section Writing

/-- `iswritable`. -/
def isWritable (c : UInt8) : Bool := c ≠ 255 && (t.optStates .weBin = .active || c ≠ 13)

/-- What is written for a byte that is not writable. -/
def escape (c : UInt8) : Packet := if c = 255 then .iac else .cr

/-- The loop of `telnet_send`. -/
def sendPackets (buf : List UInt8) : List Packet :=
  match buf with
  | [] => []
  | c :: cs =>
      let plain := (c :: cs).takeWhile t.isWritable
      let rest := (c :: cs).dropWhile t.isWritable
      let escaped := rest.takeWhile (fun b => !t.isWritable b)
      .plain plain :: escaped.map escape ++
        sendPackets (rest.dropWhile (fun b => !t.isWritable b))
termination_by buf.length
decreasing_by
  by_cases h : t.isWritable c = true
  · have hshort := List.length_dropWhile_le t.isWritable cs
    have hshort' := List.length_dropWhile_le (fun b => !t.isWritable b) (cs.dropWhile t.isWritable)
    simp [h]
    omega
  · have hshort := List.length_dropWhile_le (fun b => !t.isWritable b) cs
    simp [h]
    omega

/-- `telnet_send`. -/
def send (buf : List UInt8) : Telnet :=
  if t.connected then { t with sent := t.sent ++ t.sendPackets buf } else t

/-- `SessionSpecialCode`. -/
inductive SpecialCode where
  | ayt
  | brk
  | ec
  | el
  | ga
  | nop
  | abort
  | ao
  | ip
  | susp
  | eor
  | eof
  | eol
  | synch
  | ping
  | other
deriving DecidableEq, Repr

/-- `telnet_special`. -/
def special (code : SpecialCode) : Telnet :=
  if t.connected then
    match code with
    | .ayt => t.write (.special 246)
    | .brk => t.write (.special 243)
    | .ec => t.write (.special 247)
    | .el => t.write (.special 248)
    | .ga => t.write (.special 249)
    | .nop => t.write (.special 241)
    | .abort => t.write (.special 238)
    | .ao => t.write (.special 245)
    | .ip => t.write (.special 244)
    | .susp => t.write (.special 237)
    | .eor => t.write (.special 239)
    | .eof => t.write (.special 236)
    | .eol => t.write (.eol (t.optStates .weBin = .active))
    | .synch => t.write (.special 242)
    | .ping => if t.optStates .theySga = .active then t.write (.special 241) else t
    | .other => t
  else t

end Writing

section Running

/-- An option at the start. -/
def initOption (t : Telnet) (o : Opt) : Telnet :=
  let t := t.setOpt o.index o.initialState
  if t.optStates o.index = .requested then t.sendOpt o.send o.option else t

/-- The backend before any option. -/
def idle (conf : TelnetConf) (width height : Int) : Telnet where
  connected := true
  conf := conf
  termWidth := width
  termHeight := height
  optStates := fun _ => .inactive
  echoing := true
  editing := true
  activated := false
  inSynch := false
  sbOpt := 0
  sbBuf := []
  state := .topLevel
  sent := []
  log := []
  shown := []

/-- `telnet_init`, with a socket. -/
def init (conf : TelnetConf) (width height : Int) : Telnet :=
  if conf.passiveTelnet then idle conf width height
  else { opts.foldl initOption (idle conf width height) with activated := true }

/-- What happens to the backend. -/
inductive Input where
  | receive (urgent : Bool) (data : List UInt8)
  | send (buf : List UInt8)
  | size (width height : Int)
  | special (code : SpecialCode)
  | reconfig (conf : TelnetConf)
  | closing

/-- `telnet_receive`. -/
def receive (urgent : Bool) (data : List UInt8) : Telnet :=
  (if urgent then { t with inSynch := true } else t).doTelnetRead data

/-- One call of the backend.  Without a socket nothing is received any more. -/
def step (t : Telnet) : Input → Option Telnet
  | .receive urgent data => if t.connected then some (t.receive urgent data) else none
  | .send buf => some (t.send buf)
  | .size width height => some (t.size width height)
  | .special code => some (t.special code)
  | .reconfig conf => some { t with conf := conf }
  | .closing => some { t with connected := false }

/-- A connection that waits for the server to begin. -/
def passiveConf : TelnetConf where
  passiveTelnet := true
  termspeed := cstr [51]
  termtype := cstr [120]
  rfcEnviron := false
  environmt := .empty
  user := none

end Running

end Telnet
end Net
end Qutty
