import Qutty.Net.TelnetData

/-!
# The messages on a Telnet connection

The commands and subnegotiations that a reader recognises in the bytes are those of the
packets that were written, in every run (`run_recognised`): no data, no window size and no
text of the configuration is taken for a command.
-/

namespace Qutty
namespace Net
namespace Telnet

open Lib Lib.ByteOrder Lib.Transducer

section Recognised

variable (t : Telnet)

/-- What a reader takes from the connection besides data. -/
inductive Message where
  | command (cmd : Cmd) (option : UInt8)
  | subneg (option : UInt8) (text : List UInt8)
deriving DecidableEq, Repr

/-- The message that ends with this byte. -/
def recognised (c : UInt8) : List Message :=
  match t.state with
  | .seenWill => [.command .WILL c]
  | .seenWont => [.command .WONT c]
  | .seenDo => [.command .DO c]
  | .seenDont => [.command .DONT c]
  | .subnegIac => if c = 240 then [.subneg t.sbOpt t.sbBuf] else []
  | _ => []

def recognise (c : UInt8) : Telnet × List Message := ((t.readByte c).1, t.recognised c)

/-- The reader is outside of any command. -/
def Resting : Prop := t.state = .topLevel ∨ t.state = .seenCr

/-- The messages of a packet. -/
def messages : Packet → List Message
  | .opt cmd option => [.command cmd option]
  | .subneg option text => [.subneg option text]
  | .naws width height =>
      [.subneg 31 [highByte width, lowByte width, highByte height, lowByte height]]
  | _ => []

/-- A packet that only has an IAC where it means one. -/
def Proper : Packet → Prop
  | .subneg _ text => 255 ∉ text
  | .plain bytes => 255 ∉ bytes
  | .special code => code < 250
  | _ => True

variable {t}

/-- The text of a subnegotiation, IAC doubled. -/
theorem recognise_stuffed (text : List UInt8) (h : t.state = .subnegot) :
    run recognise t (text.flatMap stuffed) = ({ t with sbBuf := t.sbBuf ++ text }, []) := by
  have hself : { t with state := .subnegot } = t := by rw [← h]
  induction text generalizing t with
  | nil => simp
  | cons c text ih =>
      have hchar : run recognise t (stuffed c) = ({ t with sbBuf := t.sbBuf ++ [c] }, []) := by
        by_cases hiac : c = 255
        · subst hiac
          simp [stuffed, recognise, recognised, readByte, h]
        · simp [stuffed, recognise, recognised, readByte, h, hiac]
      rw [List.flatMap_cons, run_append, hchar, ih (t := { t with sbBuf := t.sbBuf ++ [c] }) h]
      · simp
      · rw [← h]

theorem stuffed_of_not_mem {text : List UInt8} (h : 255 ∉ text) : text.flatMap stuffed = text := by
  induction text with
  | nil => rfl
  | cons c text ih =>
      simp only [List.mem_cons, not_or] at h
      simp [stuffed, Ne.symm h.1, ih h.2]

/-- IAC, outside of any command. -/
theorem recognise_iac (h : Resting t) : recognise t 255 = ({ t with state := .seenIac }, []) := by
  rcases h with h | h <;> simp [recognise, recognised, readByte, h]

/-- A byte of data. -/
theorem recognise_data {c : UInt8} (h : Resting t) (hiac : c ≠ 255) :
    Resting (recognise t c).1 ∧ (recognise t c).2 = [] := by
  rcases h with h | h
  · simp only [recognise, recognised, readByte, h, hiac, reduceCtorEq, and_false, ↓reduceIte]
    split_ifs <;> simp [Resting]
  · simp only [recognise, recognised, readByte, h, hiac, and_true, ↓reduceIte]
    split_ifs <;> simp [Resting]

theorem reads_data {bytes : List UInt8} (h : 255 ∉ bytes) :
    Reads recognise Resting bytes [] := by
  induction bytes with
  | nil => exact fun t ht => ⟨ht, rfl⟩
  | cons c bytes ih =>
      simp only [List.mem_cons, not_or] at h
      intro t ht
      obtain ⟨hrest, hout⟩ := recognise_data ht (Ne.symm h.1)
      obtain ⟨hrest', hout'⟩ := ih h.2 _ hrest
      exact ⟨hrest', by simp [hout, hout']⟩

theorem reads_command (cmd : Cmd) (option : UInt8) :
    Reads recognise Resting [255, cmd.byte, option] [.command cmd option] := by
  intro t h
  rw [run_cons, recognise_iac h]
  cases cmd <;> simp [recognise, recognised, readByte, Cmd.byte, Resting]

theorem reads_code {code : UInt8} (h : code < 250 ∨ code = 255) :
    Reads recognise Resting [255, code] [] := by
  intro t ht
  rw [run_cons, recognise_iac ht]
  have hdo : code ≠ 253 := by rintro rfl; revert h; decide
  have hdont : code ≠ 254 := by rintro rfl; revert h; decide
  have hwill : code ≠ 251 := by rintro rfl; revert h; decide
  have hwont : code ≠ 252 := by rintro rfl; revert h; decide
  have hsb : code ≠ 250 := by rintro rfl; revert h; decide
  simp only [recognise, recognised, readByte, hdo, hdont, hwill, hwont, hsb, ↓reduceIte, run_cons,
    run_nil]
  split_ifs <;> simp [Resting]

/-- A whole subnegotiation. -/
theorem reads_subneg (option : UInt8) (text : List UInt8) :
    Reads recognise Resting ([255, 250, option] ++ text.flatMap stuffed ++ [255, 240])
      [.subneg option text] := by
  intro t h
  have hstart : run recognise t [255, 250, option] =
      ({ t with state := .subnegot, sbOpt := option, sbBuf := [] }, []) := by
    rw [run_cons, recognise_iac h]
    simp [recognise, recognised, readByte]
  have htext := recognise_stuffed (t := { t with state := .subnegot, sbOpt := option, sbBuf := [] })
    text rfl
  rw [run_append, run_append, hstart, htext]
  simp [recognise, recognised, readByte, Resting]

/-- **Every proper packet is recognised as what it is.** -/
theorem reads_packet {p : Packet} (h : Proper p) :
    Reads recognise Resting p.bytes (messages p) := by
  cases p with
  | opt cmd option => exact reads_command cmd option
  | subneg option text =>
      have hreads := reads_subneg option text
      rwa [stuffed_of_not_mem h] at hreads
  | naws width height =>
      have hreads := reads_subneg 31
        [highByte width, lowByte width, highByte height, lowByte height]
      simpa [Packet.bytes, messages] using hreads
  | plain bytes => exact reads_data h
  | iac => exact reads_code (.inr rfl)
  | cr => exact reads_data (by decide)
  | special code => exact reads_code (.inl h)
  | eol binary =>
      cases binary
      · exact reads_data (by decide)
      · exact reads_data (by decide)

/-- Texts that a subnegotiation can hold as they are. -/
structure PlainConf (conf : TelnetConf) : Prop where
  termspeed : 255 ∉ conf.termspeed.val
  termtype : 255 ∉ conf.termtype.val
  environmt : ∀ e ∈ conf.environmt.entries, 255 ∉ e.1.val ∧ 255 ∉ e.2.val
  user : ∀ user, conf.user = some user → 255 ∉ user.val

theorem toUpper_ne {c : UInt8} (h : c ≠ 255) : toUpper c ≠ 255 := by
  simp only [toUpper]
  split_ifs with hlower
  · intro heq
    have hc : c = 31 := by
      have hadd := congrArg (· + 32) heq
      simpa using hadd
    subst hc
    exact absurd hlower.1 (by decide)
  · exact h

theorem PlainConf.environText {conf : TelnetConf} (h : PlainConf conf) {var value : UInt8}
    (hvars : (var, value) ∈ [((0 : UInt8), (1 : UInt8)), (1, 0)]) :
    255 ∉ environText conf var value := by
  have hvar : 255 ≠ var ∧ 255 ≠ value := by
    simp only [List.mem_cons, Prod.mk.injEq, List.not_mem_nil, or_false] at hvars
    rcases hvars with ⟨rfl, rfl⟩ | ⟨rfl, rfl⟩ <;> decide
  simp only [Telnet.environText, List.mem_append, List.mem_flatMap, not_or, not_exists, not_and]
  refine ⟨fun e he => ?_, ?_⟩
  · obtain ⟨hname, hval⟩ := h.environmt e he
    simp [hvar.1, hvar.2, hname, hval]
  · cases huser : conf.user with
    | none => simp
    | some user =>
        have hplain := h.user user huser
        simp [hvar.1, hvar.2, hplain]

/-- A reply is proper. -/
theorem PlainConf.processSubneg (h : PlainConf t.conf) :
    t.processSubneg = t ∨
      ∃ text, 255 ∉ text ∧ t.processSubneg = t.write (.subneg t.sbOpt text) := by
  rcases processSubneg_cases t with heq | ⟨text, heq, hspeed | htype | ⟨var, value, hvars, henv⟩⟩
  · exact .inl heq
  · refine .inr ⟨text, ?_, heq⟩
    subst hspeed
    simpa using h.termspeed
  · refine .inr ⟨text, ?_, heq⟩
    subst htype
    have hupper : ∀ c ∈ t.conf.termtype.val, toUpper c ≠ 255 := by
      intro c hc
      refine toUpper_ne ?_
      rintro rfl
      exact h.termtype hc
    simpa using hupper
  · refine .inr ⟨text, ?_, heq⟩
    subst henv
    simpa using h.environText hvars

def commandOf : Message → Option (Cmd × UInt8)
  | .command cmd option => some (cmd, option)
  | .subneg _ _ => none

def clientCommand : Sender × Cmd × UInt8 → Option (Cmd × UInt8)
  | (.client, command) => some command
  | (.server, _) => none

/-- Everything that has been sent is proper, and the event log knows its commands. -/
structure Accounted (t : Telnet) : Prop where
  conf : PlainConf t.conf
  proper : ∀ p ∈ t.sent, Proper p
  commands : (t.sent.flatMap messages).filterMap commandOf = t.log.filterMap clientCommand

/-- Packets that are not commands. -/
theorem Accounted.sent {t' : Telnet} (h : Accounted t) (ps : List Packet)
    (hconf : t'.conf = t.conf) (hlog : t'.log = t.log) (hsent : t'.sent = t.sent ++ ps)
    (hproper : ∀ p ∈ ps, Proper p)
    (hcommands : (ps.flatMap messages).filterMap commandOf = []) : Accounted t' where
  conf := hconf ▸ h.conf
  proper p hp := by
    rw [hsent, List.mem_append] at hp
    exact hp.elim (h.proper p) (hproper p)
  commands := by
    rw [hsent, hlog, List.flatMap_append, List.filterMap_append, hcommands, List.append_nil,
      h.commands]

theorem Accounted.same {t' : Telnet} (h : Accounted t) (hconf : t'.conf = t.conf)
    (hlog : t'.log = t.log) (hsent : t'.sent = t.sent) : Accounted t' :=
  h.sent [] hconf hlog (by simpa using hsent) (by simp) rfl

theorem Accounted.sendOpt (h : Accounted t) (cmd : Cmd) (option : UInt8) :
    Accounted (t.sendOpt cmd option) where
  conf := h.conf
  proper p hp := by
    rcases List.mem_append.mp hp with hp | hp
    · exact h.proper p hp
    · obtain rfl := List.mem_singleton.mp hp
      trivial
  commands := by
    have hcommands := h.commands
    simp [Telnet.sendOpt, write, logOption, messages, commandOf, clientCommand, hcommands]

theorem preserved_accounted : Preserved Accounted where
  sendOpt _ cmd option h := h.sendOpt cmd option
  setOpt _ _ _ h := h.same rfl rfl rfl
  naws _ _ _ h := h.sent [.naws _ _] rfl rfl rfl (by simp [Proper]) rfl
  flags _ _ _ _ h := h.same rfl rfl rfl

theorem Accounted.readByte (h : Accounted t) (c : UInt8) : Accounted (t.readByte c).1 := by
  rcases readByte_cases t c with ⟨cmd, heq⟩ | heq | ⟨st, synch, opt, buf, heq⟩
  · have hlog : Accounted (t.logOption .server cmd c) :=
      ⟨h.conf, h.proper, by
        rw [logOption, List.filterMap_append]
        exact h.commands.trans (List.append_nil _).symm⟩
    have hproc := preserved_accounted.procRecOpt cmd c hlog
    rw [heq]
    exact hproc.same rfl rfl rfl
  · rw [heq]
    rcases h.conf.processSubneg with hreply | ⟨text, htext, hreply⟩
    · rw [hreply]
      exact h.same rfl rfl rfl
    · rw [hreply]
      refine h.sent [.subneg t.sbOpt text] rfl rfl rfl ?_ rfl
      simpa [Proper] using htext
  · rw [heq]
    exact h.same rfl rfl rfl

theorem Accounted.receive (h : Accounted t) (urgent : Bool) (data : List UInt8) :
    Accounted (t.receive urgent data) := by
  have hrun : ∀ (buf : List UInt8) {t : Telnet}, Accounted t →
      Accounted (run Telnet.readByte t buf).1 := by
    intro buf
    induction buf with
    | nil => exact fun h => h
    | cons c buf ih => exact fun h => ih (h.readByte c)
  have hstart : Accounted (if urgent then { t with inSynch := true } else t) := by
    split_ifs
    · exact h.same rfl rfl rfl
    · exact h
  rw [Telnet.receive, doTelnetRead_eq]
  exact (hrun data hstart).same rfl rfl rfl

/-- What `telnet_send` writes is proper, and no command. -/
theorem sendPackets_proper (buf : List UInt8) :
    (∀ p ∈ t.sendPackets buf, Proper p) ∧ (t.sendPackets buf).flatMap messages = [] := by
  fun_induction sendPackets t buf with
  | case1 => simp
  | case2 c cs plain rest escaped ih =>
      have hplain : 255 ∉ plain := by
        intro hmem
        have hwritable := List.mem_takeWhile_imp hmem
        simp [isWritable] at hwritable
      have hescape : ∀ b, Proper (escape b) ∧ messages (escape b) = [] := by
        intro b
        simp only [escape]
        split_ifs <;> exact ⟨trivial, rfl⟩
      constructor
      · intro p hp
        simp only [List.cons_append, List.mem_cons, List.mem_append, List.mem_map] at hp
        rcases hp with rfl | ⟨b, -, rfl⟩ | hp
        · exact hplain
        · exact (hescape b).1
        · exact ih.1 p hp
      · have hnone : (escaped.map escape).flatMap messages = [] := by
          simp only [List.flatMap_eq_nil_iff, List.mem_map]
          rintro p ⟨b, -, rfl⟩
          exact (hescape b).2
        simp only [List.cons_append, List.flatMap_cons, List.flatMap_append, hnone, ih.2,
          List.append_nil]
        rfl

theorem Accounted.send (h : Accounted t) (buf : List UInt8) : Accounted (t.send buf) := by
  obtain ⟨hproper, hnone⟩ := sendPackets_proper (t := t) buf
  simp only [Telnet.send]
  split_ifs
  · exact h.sent (t.sendPackets buf) rfl rfl rfl hproper (by rw [hnone]; rfl)
  · exact h

theorem Accounted.special (h : Accounted t) (code : SpecialCode) : Accounted (t.special code) := by
  have hcode : ∀ b : UInt8, b < 250 → Accounted (t.write (.special b)) := fun b hb =>
    h.sent [.special b] rfl rfl rfl (by simpa [Proper] using hb) rfl
  by_cases hconn : t.connected = true
  · simp only [Telnet.special, hconn, ↓reduceIte]
    cases code with
    | eol => exact h.sent [.eol _] rfl rfl rfl (by simp [Proper]) rfl
    | ping =>
        dsimp only
        split_ifs
        · exact hcode 241 (by decide)
        · exact h
    | other => exact h
    | _ => exact hcode _ (by decide)
  · simp only [Telnet.special, hconn]
    exact h

theorem Accounted.size (h : Accounted t) (width height : Int) :
    Accounted (t.size width height) := by
  simp only [Telnet.size]
  split_ifs
  · exact h.same rfl rfl rfl
  · exact h.sent [.naws width height] rfl rfl rfl (by simp [Proper]) rfl

theorem accounted_init {conf : TelnetConf} (hconf : PlainConf conf) (width height : Int) :
    Accounted (init conf width height) := by
  have hopt : ∀ (o : Opt) {t : Telnet}, Accounted t → Accounted (initOption t o) := by
    intro o t h
    have hset : Accounted (t.setOpt o.index o.initialState) := h.same rfl rfl rfl
    simp only [initOption]
    split_ifs
    · exact hset.sendOpt o.send o.option
    · exact hset
  have hfold : ∀ (os : List Opt) {t : Telnet}, Accounted t → Accounted (os.foldl initOption t) := by
    intro os
    induction os with
    | nil => exact fun h => h
    | cons o os ih => exact fun h => ih (hopt o h)
  have hidle : Accounted (idle conf width height) := ⟨hconf, by simp [idle], rfl⟩
  rw [init]
  split_ifs
  · exact hidle
  · have hopts := hfold opts hidle
    generalize opts.foldl initOption (idle conf width height) = t at hopts
    exact hopts.same rfl rfl rfl

/-- The configurations that are given later. -/
def PlainInput : Input → Prop
  | .reconfig conf => PlainConf conf
  | _ => True

theorem Accounted.step {t' : Telnet} {input : Input} (h : Accounted t) (hinput : PlainInput input)
    (hstep : t.step input = some t') : Accounted t' := by
  cases input with
  | receive urgent data =>
      simp only [Telnet.step, Option.ite_none_right_eq_some, Option.some.injEq] at hstep
      exact hstep.2 ▸ h.receive urgent data
  | send buf => exact Option.some.inj hstep ▸ h.send buf
  | size width height => exact Option.some.inj hstep ▸ h.size width height
  | special code => exact Option.some.inj hstep ▸ h.special code
  | reconfig conf => exact Option.some.inj hstep ▸ ⟨hinput, h.proper, h.commands⟩
  | closing => exact Option.some.inj hstep ▸ h.same rfl rfl rfl

/-- **The other side recognises what was meant**: in every run, the commands and
subnegotiations that a reader takes from the bytes, however they are cut, are those of the
packets, and the commands among them those of the event log. -/
theorem run_recognised (conf : TelnetConf) (width height : Int) (inputs : List Input)
    (t r : Telnet) (pieces : List (List UInt8)) (hconf : PlainConf conf)
    (hinputs : ∀ input ∈ inputs, PlainInput input)
    (hrun : runSteps step (init conf width height) inputs = some t)
    (hrest : r.Resting) (hwire : pieces.flatten = t.wire) :
    (runPieces recognise r pieces).1.Resting ∧
      (runPieces recognise r pieces).2 = t.sent.flatMap messages ∧
      (runPieces recognise r pieces).2.filterMap commandOf = t.log.filterMap clientCommand := by
  have haccounted : Accounted t :=
    runSteps_preserves (fun _ _ _ h hinput hstep => h.step hinput hstep)
      (accounted_init hconf width height) hinputs hrun
  have hreads : Reads recognise Resting t.wire (t.sent.flatMap messages) :=
    run_flatMap fun p hp => reads_packet (haccounted.proper p hp)
  obtain ⟨hrest', hout⟩ := hreads r hrest
  rw [run_flatten, hwire]
  exact ⟨hrest', hout, by rw [hout, haccounted.commands]⟩

theorem run_recognised_sample :
    ((runPieces recognise (idle passiveConf 80 24)
      [((idle passiveConf 80 24).receive false [255, 253, 31]).wire]).2).filterMap commandOf =
        [(.WILL, 31), (.DO, 1), (.WILL, 3), (.DO, 3)] :=
  (run_recognised passiveConf 80 24 [.receive false [255, 253, 31]]
    ((idle passiveConf 80 24).receive false [255, 253, 31]) (idle passiveConf 80 24)
    [((idle passiveConf 80 24).receive false [255, 253, 31]).wire]
    ⟨by decide, by decide, by simp [passiveConf, OrderedMap.empty], by simp [passiveConf]⟩
    (by simp [PlainInput]) rfl (.inl rfl) (List.append_nil _)).2.2

end Recognised

end Telnet
end Net
end Qutty
