import Qutty.Lib.Transducer
import Qutty.Net.Telnet

/-!
# Reading a Telnet connection

What has been shown does not matter to the reader (`readByte_cWrite`), so a call of
`do_telnet_read` is a run over its bytes, whose output is shown at the end
(`doTelnetRead_eq`), and it does not matter how the bytes are cut into pieces
(`doTelnetRead_pieces`).  A property that the pieces of a negotiation preserve is preserved
by every command of the server (`Preserved.procRecOpt`).
-/

namespace Qutty
namespace Net
namespace Telnet

open Lib Lib.ByteOrder Lib.Transducer

section Shown

variable (t : Telnet) (x : List UInt8)

@[simp] theorem cWrite_optStates : (t.cWrite x).optStates = t.optStates := rfl
@[simp] theorem cWrite_activated : (t.cWrite x).activated = t.activated := rfl
@[simp] theorem cWrite_state : (t.cWrite x).state = t.state := rfl

/-- Nothing looks at what has been shown. -/
theorem write_cWrite (p : Packet) : (t.cWrite x).write p = (t.write p).cWrite x := rfl

theorem sendOpt_cWrite (cmd : Cmd) (option : UInt8) :
    (t.cWrite x).sendOpt cmd option = (t.sendOpt cmd option).cWrite x := rfl

theorem setOpt_cWrite (i : OptIndex) (st : OptState) :
    (t.cWrite x).setOpt i st = (t.setOpt i st).cWrite x := rfl

theorem deactivateOption_cWrite (o : Opt) :
    (t.cWrite x).deactivateOption o = (t.deactivateOption o).cWrite x := by
  by_cases h : t.optStates o.index = .requested ∨ t.optStates o.index = .active
  · simp only [deactivateOption, cWrite_optStates, h, ↓reduceIte, sendOpt_cWrite, setOpt_cWrite]
  · simp only [deactivateOption, cWrite_optStates, h, ↓reduceIte, setOpt_cWrite]

theorem ensureOption_cWrite (o : Opt) :
    (t.cWrite x).ensureOption o = (t.ensureOption o).cWrite x := by
  by_cases h : t.optStates o.index = .inactive
  · simp only [ensureOption, cWrite_optStates, h, ↓reduceIte, sendOpt_cWrite, setOpt_cWrite]
  · simp only [ensureOption, cWrite_optStates, h, ↓reduceIte]

theorem echoEdit_cWrite (o : Opt) (enabled : Bool) :
    (t.cWrite x).echoEdit o enabled = (t.echoEdit o enabled).cWrite x := by
  simp only [echoEdit]
  split_ifs <;> rfl

theorem optionSideEffects_cWrite (o : Opt) (enabled : Bool) :
    (t.cWrite x).optionSideEffects o enabled = (t.optionSideEffects o enabled).cWrite x := by
  simp only [optionSideEffects, echoEdit_cWrite, ensureOption_cWrite, cWrite_activated]
  split_ifs <;> rfl

theorem size_cWrite (width height : Int) :
    (t.cWrite x).size width height = (t.size width height).cWrite x := by
  by_cases h : t.connected = false ∨ t.optStates .naws ≠ .active
  · have h' : (t.cWrite x).connected = false ∨ (t.cWrite x).optStates .naws ≠ .active := h
    simp only [size, if_pos h, if_pos h']
    rfl
  · have h' : ¬((t.cWrite x).connected = false ∨ (t.cWrite x).optStates .naws ≠ .active) := h
    simp only [size, if_neg h, if_neg h']
    rfl

theorem activateOption_cWrite (o : Opt) :
    (t.cWrite x).activateOption o = (t.activateOption o).cWrite x := by
  have hsize : (t.cWrite x).size (t.cWrite x).termWidth (t.cWrite x).termHeight =
      (t.size t.termWidth t.termHeight).cWrite x := size_cWrite t x _ _
  simp only [activateOption, hsize]
  split_ifs <;> simp only [deactivateOption_cWrite, optionSideEffects_cWrite]

theorem refusedOption_cWrite (o : Opt) :
    (t.cWrite x).refusedOption o = (t.refusedOption o).cWrite x := by
  by_cases h : o.send = .WILL ∧ o.option = 39 ∧ t.optStates .oenv = .inactive
  · simp only [refusedOption, cWrite_optStates, h, and_self, ↓reduceIte, sendOpt_cWrite,
      setOpt_cWrite, optionSideEffects_cWrite]
  · simp only [refusedOption, cWrite_optStates, h, ↓reduceIte, optionSideEffects_cWrite]

theorem acknowledged_cWrite (o : Opt) :
    (t.cWrite x).acknowledged o = (t.acknowledged o).cWrite x := by
  simp only [acknowledged, cWrite_optStates, sendOpt_cWrite, setOpt_cWrite, activateOption_cWrite]
  split <;> rfl

theorem refused_cWrite (o : Opt) : (t.cWrite x).refused o = (t.refused o).cWrite x := by
  simp only [refused, cWrite_optStates, sendOpt_cWrite, setOpt_cWrite, refusedOption_cWrite,
    optionSideEffects_cWrite]
  split <;> rfl

theorem procRecOpt_cWrite (cmd : Cmd) (option : UInt8) :
    (t.cWrite x).procRecOpt cmd option = (t.procRecOpt cmd option).cWrite x := by
  have hlog : (t.cWrite x).logOption .server cmd option =
      (t.logOption .server cmd option).cWrite x := rfl
  simp only [procRecOpt, hlog]
  cases optFor cmd option with
  | none => cases cmd <;> rfl
  | some o =>
      simp only [acknowledged_cWrite, refused_cWrite]
      split_ifs <;> rfl

/-- The guess is one of the two assignments. -/
theorem guessVars_mem (rfcEnviron : Bool) (request : List UInt8) :
    guessVars rfcEnviron request ∈ [((0 : UInt8), (1 : UInt8)), (1, 0)] := by
  have hfold : ∀ (request : List UInt8) (guess : UInt8 × UInt8),
      guess ∈ [((0 : UInt8), (1 : UInt8)), (1, 0)] →
        request.foldl (fun guess c => if c = 0 then (0, 1) else if c = 1 then (1, 0) else guess)
          guess ∈ [((0 : UInt8), (1 : UInt8)), (1, 0)] := by
    intro request
    induction request with
    | nil => exact fun _ h => h
    | cons c request ih =>
        intro guess h
        refine ih _ ?_
        dsimp only
        split_ifs
        · simp
        · simp
        · exact h
  refine hfold request _ ?_
  split_ifs <;> simp

theorem processSubneg_cWrite : (t.cWrite x).processSubneg = t.processSubneg.cWrite x := by
  have hopt : (t.cWrite x).sbOpt = t.sbOpt := rfl
  have hbuf : (t.cWrite x).sbBuf = t.sbBuf := rfl
  simp only [processSubneg, hopt, hbuf]
  split_ifs
  · rfl
  · rfl
  · rfl
  · rfl
  · split <;> rfl
  · split <;> rfl
  · rfl

theorem readByte_cWrite (c : UInt8) :
    (t.cWrite x).readByte c = ((t.readByte c).1.cWrite x, (t.readByte c).2) := by
  have hproc : ∀ cmd, (t.cWrite x).procRecOpt cmd c = (t.procRecOpt cmd c).cWrite x :=
    fun cmd => procRecOpt_cWrite t x cmd c
  cases h : t.state with
  | topLevel =>
      simp only [readByte, cWrite_state, h, reduceCtorEq, and_false, ↓reduceIte]
      by_cases hiac : c = 255
      · simp only [hiac, ↓reduceIte]
        rfl
      · simp only [hiac, ↓reduceIte]
        rfl
  | seenCr =>
      simp only [readByte, cWrite_state, h, and_true]
      by_cases hnul : c = 0
      · simp only [hnul, ↓reduceIte]
        rfl
      · by_cases hiac : c = 255
        · simp only [hiac, ↓reduceIte]
          rfl
        · simp only [hnul, hiac, ↓reduceIte]
          rfl
  | seenIac =>
      simp only [readByte, cWrite_state, h]
      split_ifs <;> rfl
  | subnegot =>
      simp only [readByte, cWrite_state, h]
      split_ifs <;> rfl
  | subnegIac =>
      simp only [readByte, cWrite_state, h, processSubneg_cWrite]
      split_ifs <;> rfl
  | seenSb =>
      simp only [readByte, cWrite_state, h]
      rfl
  | _ =>
      simp only [readByte, cWrite_state, h, hproc]
      rfl

/-- A loop over the bytes, where what was put into the buffer is written at the end. -/
theorem run_cWrite (buf : List UInt8) :
    run readByte (t.cWrite x) buf = ((run readByte t buf).1.cWrite x, (run readByte t buf).2) := by
  induction buf generalizing t with
  | nil => rfl
  | cons c buf ih => simp [readByte_cWrite, ih]

theorem cWrite_cWrite (y : List UInt8) : (t.cWrite x).cWrite y = t.cWrite (x ++ y) := by
  simp [cWrite]

theorem foldl_readRound (buf outbuf : List UInt8) :
    ∃ written, (buf.foldl readRound (t, outbuf)).1 = (run readByte t buf).1.cWrite written ∧
      written ++ (buf.foldl readRound (t, outbuf)).2 = outbuf ++ (run readByte t buf).2 := by
  induction buf generalizing t outbuf with
  | nil => exact ⟨[], by simp [cWrite], by simp⟩
  | cons c buf ih =>
      simp only [List.foldl_cons, readRound, run_cons]
      split_ifs
      · obtain ⟨written, hstate, hout⟩ :=
          ih ((t.readByte c).1.cWrite (outbuf ++ (t.readByte c).2)) []
        refine ⟨outbuf ++ (t.readByte c).2 ++ written, ?_, ?_⟩
        · rw [hstate, run_cWrite, cWrite_cWrite]
        · rw [List.append_assoc, hout, run_cWrite]
          simp
      · obtain ⟨written, hstate, hout⟩ := ih (t.readByte c).1 (outbuf ++ (t.readByte c).2)
        exact ⟨written, hstate, by rw [hout]; simp⟩

/-- **What a call reads** is shown at its end. -/
theorem doTelnetRead_eq (buf : List UInt8) :
    t.doTelnetRead buf = (run readByte t buf).1.cWrite (run readByte t buf).2 := by
  obtain ⟨written, hstate, hout⟩ := foldl_readRound t buf []
  simp only [doTelnetRead]
  rw [List.nil_append] at hout
  split_ifs with hempty
  · rw [List.length_eq_zero_iff] at hempty
    rw [hempty, List.append_nil] at hout
    rw [hstate, hout]
  · rw [hstate, cWrite_cWrite, hout]

/-- **It does not matter how the bytes are cut into pieces.** -/
theorem doTelnetRead_pieces (pieces : List (List UInt8)) :
    pieces.foldl doTelnetRead t = t.doTelnetRead pieces.flatten := by
  induction pieces generalizing t with
  | nil => rfl
  | cons buf pieces ih =>
      rw [List.foldl_cons, ih, List.flatten_cons]
      simp only [doTelnetRead_eq, run_append, run_cWrite, cWrite_cWrite]

/-- What the pieces of a negotiation preserve. -/
structure Preserved (P : Telnet → Prop) : Prop where
  sendOpt : ∀ t cmd option, P t → P (t.sendOpt cmd option)
  setOpt : ∀ t i st, P t → P (t.setOpt i st)
  naws : ∀ t width height, P t → P (t.write (.naws width height))
  flags : ∀ t echoing editing activated, P t →
    P { t with echoing := echoing, editing := editing, activated := activated }

namespace Preserved

variable {P : Telnet → Prop} (hP : Preserved P) {t : Telnet}

include hP

theorem deactivateOption (o : Opt) (h : P t) : P (t.deactivateOption o) := by
  simp only [Telnet.deactivateOption]
  split_ifs
  · exact hP.setOpt _ _ _ (hP.sendOpt _ _ _ h)
  · exact hP.setOpt _ _ _ h

theorem ensureOption (o : Opt) (h : P t) : P (t.ensureOption o) := by
  simp only [Telnet.ensureOption]
  split_ifs
  · exact hP.sendOpt _ _ _ (hP.setOpt _ _ _ h)
  · exact h

theorem echoEdit (o : Opt) (enabled : Bool) (h : P t) : P (t.echoEdit o enabled) := by
  simp only [Telnet.echoEdit]
  split_ifs
  · exact hP.flags t (!enabled) t.editing t.activated h
  · exact hP.flags t t.echoing (!enabled) t.activated h
  · exact h

theorem optionSideEffects (o : Opt) (enabled : Bool) (h : P t) :
    P (t.optionSideEffects o enabled) := by
  have hedit := hP.echoEdit o enabled h
  simp only [Telnet.optionSideEffects]
  split_ifs
  · exact hedit
  · have hensure := hP.ensureOption oTheySga (hP.ensureOption oWeSga (hP.ensureOption oEcho hedit))
    exact hP.flags _ _ _ true hensure

theorem activateOption (o : Opt) (h : P t) : P (t.activateOption o) := by
  have hsize : P (if o.send = .WILL ∧ o.option = 31 then t.size t.termWidth t.termHeight else t) := by
    simp only [size]
    split_ifs
    · exact h
    · exact hP.naws t _ _ h
    · exact h
  refine hP.optionSideEffects o true ?_
  generalize (if o.send = .WILL ∧ o.option = 31 then t.size t.termWidth t.termHeight else t) = t'
    at hsize
  split_ifs
  · exact hP.deactivateOption _ hsize
  · exact hP.deactivateOption _ hsize
  · exact hsize

theorem refusedOption (o : Opt) (h : P t) : P (t.refusedOption o) := by
  simp only [Telnet.refusedOption]
  split_ifs
  · exact hP.optionSideEffects o false (hP.setOpt _ _ _ (hP.sendOpt _ _ _ h))
  · exact hP.optionSideEffects o false h

theorem acknowledged (o : Opt) (h : P t) : P (t.acknowledged o) := by
  simp only [Telnet.acknowledged]
  split
  · exact hP.activateOption o (hP.setOpt _ _ _ h)
  · exact h
  · exact hP.activateOption o (hP.sendOpt _ _ _ (hP.setOpt _ _ _ h))
  · exact hP.sendOpt _ _ _ h

theorem refused (o : Opt) (h : P t) : P (t.refused o) := by
  simp only [Telnet.refused]
  split
  · exact hP.refusedOption o (hP.setOpt _ _ _ h)
  · exact hP.optionSideEffects o false (hP.sendOpt _ _ _ (hP.setOpt _ _ _ h))
  · exact h
  · exact h

/-- **The rule for a command of the server.** -/
theorem procRecOpt (cmd : Cmd) (option : UInt8) (h : P (t.logOption .server cmd option)) :
    P (t.procRecOpt cmd option) := by
  simp only [Telnet.procRecOpt]
  cases optFor cmd option with
  | none =>
      cases cmd with
      | WILL => exact hP.sendOpt _ _ _ h
      | DO => exact hP.sendOpt _ _ _ h
      | WONT => exact h
      | DONT => exact h
  | some o =>
      dsimp only
      split_ifs
      · exact hP.acknowledged o h
      · exact hP.refused o h

end Preserved

/-- A reply, if any, is a subnegotiation of the option that was asked for. -/
theorem processSubneg_cases :
    t.processSubneg = t ∨ ∃ text, t.processSubneg = t.write (.subneg t.sbOpt text) ∧
      (text = 0 :: t.conf.termspeed.val ∨ text = 0 :: t.conf.termtype.val.map toUpper ∨
        ∃ var value, (var, value) ∈ [((0 : UInt8), (1 : UInt8)), (1, 0)] ∧
          text = 0 :: environText t.conf var value) := by
  simp only [processSubneg]
  split_ifs with hspeed hsend htype hsend' henv hold
  · exact .inr ⟨_, by rw [hspeed], .inl rfl⟩
  · exact .inl rfl
  · exact .inr ⟨_, by rw [htype], .inr (.inl rfl)⟩
  · exact .inl rfl
  · split
    · exact .inr ⟨_, rfl, .inr (.inr ⟨_, _, guessVars_mem _ _, rfl⟩)⟩
    · exact .inl rfl
  · split
    · exact .inr ⟨_, rfl, .inr (.inr ⟨_, _, by simp, rfl⟩)⟩
    · exact .inl rfl
  · exact .inl rfl

/-- What neither the negotiation nor a reply touches. -/
structure SameLine (t t' : Telnet) : Prop where
  connected : t'.connected = t.connected
  conf : t'.conf = t.conf
  width : t'.termWidth = t.termWidth
  height : t'.termHeight = t.termHeight
  shown : t'.shown = t.shown

theorem preserved_sameLine : Preserved (SameLine t) where
  sendOpt _ _ _ h := ⟨h.connected, h.conf, h.width, h.height, h.shown⟩
  setOpt _ _ _ h := ⟨h.connected, h.conf, h.width, h.height, h.shown⟩
  naws _ _ _ h := ⟨h.connected, h.conf, h.width, h.height, h.shown⟩
  flags _ _ _ _ h := ⟨h.connected, h.conf, h.width, h.height, h.shown⟩

theorem sameLine_procRecOpt (cmd : Cmd) (option : UInt8) :
    SameLine t (t.procRecOpt cmd option) :=
  (preserved_sameLine t).procRecOpt cmd option ⟨rfl, rfl, rfl, rfl, rfl⟩

theorem sameLine_processSubneg : SameLine t t.processSubneg := by
  rcases processSubneg_cases t with h | ⟨text, h, -⟩
  · rw [h]
    exact ⟨rfl, rfl, rfl, rfl, rfl⟩
  · rw [h]
    exact ⟨rfl, rfl, rfl, rfl, rfl⟩

/-- What the reader does with the rest of the state, in the branch it takes. -/
theorem readByte_cases (c : UInt8) :
    (∃ cmd, (t.readByte c).1 = { t.procRecOpt cmd c with state := .topLevel }) ∨
      (t.readByte c).1 = { t.processSubneg with state := .topLevel } ∨
      ∃ st synch opt buf, (t.readByte c).1 =
        { t with state := st, inSynch := synch, sbOpt := opt, sbBuf := buf } := by
  cases h : t.state with
  | seenWill => exact .inl ⟨.WILL, by simp only [readByte, h]⟩
  | seenWont => exact .inl ⟨.WONT, by simp only [readByte, h]⟩
  | seenDo => exact .inl ⟨.DO, by simp only [readByte, h]⟩
  | seenDont => exact .inl ⟨.DONT, by simp only [readByte, h]⟩
  | subnegIac =>
      simp only [readByte, h]
      split_ifs
      · exact .inr (.inr ⟨_, _, _, _, rfl⟩)
      · exact .inr (.inl rfl)
  | seenSb => exact .inr (.inr ⟨_, _, _, _, by simp only [readByte, h]; rfl⟩)
  | _ =>
      refine .inr (.inr ?_)
      simp only [readByte, h]
      split_ifs <;> exact ⟨_, _, _, _, rfl⟩

theorem sameLine_readByte (c : UInt8) : SameLine t (t.readByte c).1 := by
  rcases readByte_cases t c with ⟨cmd, h⟩ | h | ⟨st, synch, opt, buf, h⟩
  · have hsame := sameLine_procRecOpt t cmd c
    rw [h]
    exact ⟨hsame.connected, hsame.conf, hsame.width, hsame.height, hsame.shown⟩
  · have hsame := sameLine_processSubneg t
    rw [h]
    exact ⟨hsame.connected, hsame.conf, hsame.width, hsame.height, hsame.shown⟩
  · rw [h]
    exact ⟨rfl, rfl, rfl, rfl, rfl⟩

/-- The reader itself shows nothing. -/
theorem run_shown (buf : List UInt8) : (run readByte t buf).1.shown = t.shown := by
  induction buf generalizing t with
  | nil => rfl
  | cons c buf ih => simp only [run_cons, ih, (sameLine_readByte t c).shown]

end Shown

end Telnet
end Net
end Qutty
