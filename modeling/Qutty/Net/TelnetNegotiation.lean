import Qutty.Net.TelnetReading

/-!
# The negotiation of Telnet options

Nothing but a command of the server, a new window size and the end of the connection concerns
the options (`run_rule`).  In every run an option is active exactly if the last command about
it was positive on either side, and at most one of the two options for the environment is in
use (`run_settled`).
-/

namespace Qutty
namespace Net
namespace Telnet

open Lib Lib.ByteOrder Lib.Transducer

section Rule

variable {t t' t'' : Telnet}

/-- The window size that a packet tells. -/
def toldSize : Packet → Option (Int × Int)
  | .naws width height => some (width, height)
  | _ => none

/-- The window size that the server knows. -/
def knownSize (t : Telnet) : Option (Int × Int) := (t.sent.filterMap toldSize).getLast?

/-- Nothing has happened to the options. -/
structure SameOptions (t t' : Telnet) : Prop where
  states : t'.optStates = t.optStates
  log : t'.log = t.log
  activated : t'.activated = t.activated
  echoing : t'.echoing = t.echoing
  editing : t'.editing = t.editing
  connected : t'.connected = t.connected
  width : t'.termWidth = t.termWidth
  height : t'.termHeight = t.termHeight
  known : t'.knownSize = t.knownSize

theorem SameOptions.refl (t : Telnet) : SameOptions t t :=
  ⟨rfl, rfl, rfl, rfl, rfl, rfl, rfl, rfl, rfl⟩

theorem sameOptions_reader (t : Telnet) (st : ReadState) (synch : Bool) (opt : UInt8)
    (buf shown : List UInt8) :
    SameOptions t
      { t with state := st, inSynch := synch, sbOpt := opt, sbBuf := buf, shown := shown } :=
  ⟨rfl, rfl, rfl, rfl, rfl, rfl, rfl, rfl, rfl⟩

theorem sameOptions_sent {ps : List Packet} (h : ∀ p ∈ ps, toldSize p = none) :
    SameOptions t { t with sent := t.sent ++ ps } := by
  have hnone : ps.filterMap toldSize = [] := by simpa using h
  refine ⟨rfl, rfl, rfl, rfl, rfl, rfl, rfl, rfl, ?_⟩
  simp [knownSize, hnone]

theorem sameOptions_processSubneg : SameOptions t t.processSubneg := by
  rcases processSubneg_cases t with h | ⟨text, h, -⟩
  · rw [h]
    exact .refl t
  · rw [h]
    exact sameOptions_sent (by simp [toldSize])

theorem sendPackets_toldSize (t : Telnet) (buf : List UInt8) :
    ∀ p ∈ t.sendPackets buf, toldSize p = none := by
  fun_induction sendPackets t buf with
  | case1 => simp
  | case2 c cs plain rest escaped ih =>
      intro p hp
      simp only [List.cons_append, List.mem_cons, List.mem_append, List.mem_map] at hp
      rcases hp with rfl | ⟨b, -, rfl⟩ | hp
      · rfl
      · simp only [escape]
        split_ifs <;> rfl
      · exact ih p hp

theorem sameOptions_send (buf : List UInt8) : SameOptions t (t.send buf) := by
  simp only [send]
  split_ifs
  · exact sameOptions_sent (sendPackets_toldSize t buf)
  · exact .refl t

theorem sameOptions_special (code : SpecialCode) : SameOptions t (t.special code) := by
  have hwrite : ∀ p : Packet, toldSize p = none → SameOptions t (t.write p) := fun p hp =>
    sameOptions_sent (by simpa using hp)
  by_cases hconn : t.connected = true
  · simp only [special, hconn, ↓reduceIte]
    cases code with
    | ping =>
        dsimp only
        split_ifs
        · exact hwrite _ rfl
        · exact .refl t
    | other => exact .refl t
    | _ => exact hwrite _ rfl
  · simp only [special, hconn]
    exact .refl t

variable {P : Telnet → Prop}

/-- A call that reads some bytes. -/
theorem receive_rule (hproc : ∀ t cmd option, P t → P (t.procRecOpt cmd option))
    (hsame : ∀ t t', SameOptions t t' → P t → P t') (urgent : Bool) (data : List UInt8)
    (h : P t) : P (t.receive urgent data) := by
  have hbyte : ∀ (t : Telnet) (c : UInt8), P t → P (t.readByte c).1 := by
    intro t c h
    rcases readByte_cases t c with ⟨cmd, heq⟩ | heq | ⟨st, synch, opt, buf, heq⟩
    · have hafter := hproc t cmd c h
      rw [heq]
      exact hsame _ _ (sameOptions_reader (t.procRecOpt cmd c) ..) hafter
    · have hafter := hsame _ _ sameOptions_processSubneg h
      rw [heq]
      exact hsame _ _ (sameOptions_reader t.processSubneg ..) hafter
    · rw [heq]
      exact hsame _ _ (sameOptions_reader t ..) h
  have hrun : ∀ (data : List UInt8) (t : Telnet), P t → P (run readByte t data).1 := by
    intro data
    induction data with
    | nil => exact fun _ h => h
    | cons c data ih => exact fun t h => ih _ (hbyte t c h)
  have hstart : P (if urgent then { t with inSynch := true } else t) := by
    split_ifs
    · exact hsame _ _ (sameOptions_reader t ..) h
    · exact h
  rw [receive, doTelnetRead_eq]
  generalize (if urgent then { t with inSynch := true } else t) = t₁ at hstart
  exact hsame _ _ (sameOptions_reader (run readByte t₁ data).1 ..) (hrun data t₁ hstart)

/-- **The rule for what concerns the options.** -/
theorem run_rule (hproc : ∀ t cmd option, P t → P (t.procRecOpt cmd option))
    (hsame : ∀ t t', SameOptions t t' → P t → P t')
    (hsize : ∀ t width height, P t → P (t.size width height))
    (hclosing : ∀ t, P t → P { t with connected := false })
    {conf : TelnetConf} {width height : Int} {inputs : List Input}
    (hinit : P (init conf width height))
    (hrun : runSteps step (init conf width height) inputs = some t) : P t := by
  refine runSteps_preserves (A := fun _ => True) ?_ hinit (fun _ _ => trivial) hrun
  intro t input t' h _ hstep
  cases input with
  | receive urgent data =>
      simp only [step, Option.ite_none_right_eq_some, Option.some.injEq] at hstep
      exact hstep.2 ▸ receive_rule hproc hsame urgent data h
  | send buf => exact Option.some.inj hstep ▸ hsame _ _ (sameOptions_send buf) h
  | size width height => exact Option.some.inj hstep ▸ hsize _ _ _ h
  | special code => exact Option.some.inj hstep ▸ hsame _ _ (sameOptions_special code) h
  | reconfig conf =>
      exact Option.some.inj hstep ▸ hsame t _ ⟨rfl, rfl, rfl, rfl, rfl, rfl, rfl, rfl, rfl⟩ h
  | closing => exact Option.some.inj hstep ▸ hclosing _ h

end Rule

section Conversation

/-- The positive and the negative word of a side about an option. -/
def words (o : Opt) : Sender → Cmd × Cmd
  | .client => (o.send, o.nsend)
  | .server => (o.ack, o.nak)

/-- Whether a command in the log is one of this side about an option. -/
def about (sender : Sender) (o : Opt) (e : Sender × Cmd × UInt8) : Bool :=
  e.1 = sender && e.2.2 = o.option && (e.2.1 = (words o sender).1 || e.2.1 = (words o sender).2)

/-- The last word of a side about an option. -/
def lastSaid (log : List (Sender × Cmd × UInt8)) (sender : Sender) (o : Opt) : Option Cmd :=
  (log.filter (about sender o)).getLast?.map (fun e => e.2.1)

/-- How the state of an option follows from what has been said and heard. -/
def Follows (o : Opt) (said heard : Option Cmd) : OptState → Prop
  | .requested => said = some o.send ∧ heard ≠ some o.ack
  | .active => said = some o.send ∧ heard = some o.ack
  | .inactive => heard ≠ some o.ack
  | .reallyInactive => said = some o.send → heard ≠ some o.ack

instance (o : Opt) (said heard : Option Cmd) : ∀ st, Decidable (Follows o said heard st)
  | .requested => inferInstanceAs (Decidable (_ ∧ _))
  | .active => inferInstanceAs (Decidable (_ ∧ _))
  | .inactive => inferInstanceAs (Decidable (_ ≠ _))
  | .reallyInactive => inferInstanceAs (Decidable (_ → _))

/-- The state of an option follows from the log. -/
def Settled (states : OptIndex → OptState) (log : List (Sender × Cmd × UInt8)) (o : Opt) : Prop :=
  Follows o (lastSaid log .client o) (lastSaid log .server o) (states o.index)

instance (states : OptIndex → OptState) (log : List (Sender × Cmd × UInt8)) (o : Opt) :
    Decidable (Settled states log o) := inferInstanceAs (Decidable (Follows ..))

/-- An option is requested or active. -/
def Live (st : OptState) : Prop := st = .requested ∨ st = .active

instance (st : OptState) : Decidable (Live st) := inferInstanceAs (Decidable (_ ∨ _))

variable {t : Telnet} {o o' : Opt}

theorem lastSaid_append (log : List (Sender × Cmd × UInt8)) (e : Sender × Cmd × UInt8)
    (sender : Sender) (o : Opt) :
    lastSaid (log ++ [e]) sender o =
      if about sender o e = true then some e.2.1 else lastSaid log sender o := by
  simp only [lastSaid, List.filter_append]
  split_ifs with h
  · simp [h]
  · simp [h]

/-- The options of the table are told apart by their index, and by their words. -/
theorem index_inj : ∀ o ∈ opts, ∀ o' ∈ opts, o.index = o'.index → o = o' := by decide

theorem about_client : ∀ o ∈ opts, ∀ o' ∈ opts,
    about .client o (.client, o'.send, o'.option) = decide (o = o') ∧
      about .client o (.client, o'.nsend, o'.option) = decide (o = o') := by decide

theorem about_server : ∀ o ∈ opts, ∀ o' ∈ opts,
    about .server o (.server, o'.ack, o'.option) = decide (o = o') ∧
      about .server o (.server, o'.nak, o'.option) = decide (o = o') := by decide

theorem words_ne : ∀ o ∈ opts, o.send ≠ o.nsend ∧ o.ack ≠ o.nak := by decide

@[simp] theorem about_other (cmd : Cmd) (option : UInt8) :
    about .server o (.client, cmd, option) = false ∧ about .client o (.server, cmd, option) = false :=
  ⟨rfl, rfl⟩

/-- Every option but one. -/
def SettledBut (t : Telnet) (o : Opt) : Prop :=
  ∀ o' ∈ opts, o' ≠ o → Settled t.optStates t.log o'

def AllSettled (t : Telnet) : Prop := ∀ o ∈ opts, Settled t.optStates t.log o

theorem AllSettled.but (h : AllSettled t) (o : Opt) : SettledBut t o := fun o' ho' _ => h o' ho'

theorem SettledBut.all (h : SettledBut t o) (ho : Settled t.optStates t.log o) : AllSettled t := by
  intro o' ho'
  by_cases heq : o' = o
  · exact heq ▸ ho
  · exact h o' ho' heq

theorem SettledBut.setOpt (h : SettledBut t o) (ho : o ∈ opts) (st : OptState) :
    SettledBut (t.setOpt o.index st) o := by
  intro o' ho' hne
  have hindex : o'.index ≠ o.index := fun hi => hne (index_inj o' ho' o ho hi)
  have hstate : (t.setOpt o.index st).optStates o'.index = t.optStates o'.index :=
    Function.update_of_ne hindex _ _
  have hsettled := h o' ho' hne
  unfold Settled at hsettled ⊢
  rwa [hstate]

/-- A word of the client about one option. -/
theorem SettledBut.sendOpt (h : SettledBut t o) (ho : o ∈ opts) {cmd : Cmd}
    (hcmd : cmd = o.send ∨ cmd = o.nsend) : SettledBut (t.sendOpt cmd o.option) o := by
  intro o' ho' hne
  have habout : about .client o' (.client, cmd, o.option) = false := by
    rcases hcmd with rfl | rfl
    · simpa [hne] using (about_client o' ho' o ho).1
    · simpa [hne] using (about_client o' ho' o ho).2
  have hsettled := h o' ho' hne
  unfold Settled at hsettled ⊢
  simpa [Telnet.sendOpt, logOption, write, lastSaid_append, habout] using hsettled

theorem lastSaid_send (ho : o ∈ opts) :
    lastSaid (t.sendOpt o.send o.option).log .client o = some o.send := by
  have habout := (about_client o ho o ho).1
  simp [Telnet.sendOpt, logOption, lastSaid_append, habout]

theorem lastSaid_nsend (ho : o ∈ opts) :
    lastSaid (t.sendOpt o.nsend o.option).log .client o = some o.nsend := by
  have habout := (about_client o ho o ho).2
  simp [Telnet.sendOpt, logOption, lastSaid_append, habout]

@[simp] theorem lastHeard_sendOpt (cmd : Cmd) (option : UInt8) :
    lastSaid (t.sendOpt cmd option).log .server o = lastSaid t.log .server o := by
  simp [Telnet.sendOpt, logOption, lastSaid_append, write]

@[simp] theorem optStates_setOpt (i : OptIndex) (st : OptState) : (t.setOpt i st).optStates i = st :=
  Function.update_self ..

@[simp] theorem optStates_sendOpt (cmd : Cmd) (option : UInt8) :
    (t.sendOpt cmd option).optStates = t.optStates := rfl

@[simp] theorem log_setOpt (i : OptIndex) (st : OptState) : (t.setOpt i st).log = t.log := rfl

/-- An option is given up for good. -/
theorem AllSettled.deactivateOption (h : AllSettled t) (ho : o ∈ opts) :
    AllSettled (t.deactivateOption o) := by
  have hbut := h.but o
  have hsettled := h o ho
  simp only [Telnet.deactivateOption]
  split_ifs with hlive
  · refine ((hbut.sendOpt ho (.inr rfl)).setOpt ho _).all ?_
    unfold Settled
    rw [optStates_setOpt, log_setOpt, lastSaid_nsend ho]
    exact fun hsaid => absurd (Option.some.inj hsaid).symm (words_ne o ho).1
  · refine (hbut.setOpt ho _).all ?_
    unfold Settled at hsettled ⊢
    rw [optStates_setOpt, log_setOpt]
    cases hst : t.optStates o.index with
    | requested => exact absurd (.inl hst) hlive
    | active => exact absurd (.inr hst) hlive
    | inactive =>
        rw [hst] at hsettled
        exact fun _ => hsettled
    | reallyInactive =>
        rw [hst] at hsettled
        exact hsettled

/-- An option that is inactive is asked for. -/
theorem AllSettled.request (h : AllSettled t) (ho : o ∈ opts)
    (hst : t.optStates o.index = .inactive) :
    AllSettled ((t.setOpt o.index .requested).sendOpt o.send o.option) := by
  have hsettled := h o ho
  refine (((h.but o).setOpt ho _).sendOpt ho (.inl rfl)).all ?_
  unfold Settled at hsettled ⊢
  rw [hst] at hsettled
  rw [optStates_sendOpt, optStates_setOpt, lastSaid_send ho, lastHeard_sendOpt, log_setOpt]
  exact ⟨rfl, hsettled⟩

theorem AllSettled.ensureOption (h : AllSettled t) (ho : o ∈ opts) :
    AllSettled (t.ensureOption o) := by
  simp only [Telnet.ensureOption]
  split_ifs with hst
  · exact h.request ho hst
  · exact h

theorem AllSettled.optionSideEffects (h : AllSettled t) (o : Opt) (enabled : Bool) :
    AllSettled (t.optionSideEffects o enabled) := by
  have hedit : AllSettled (t.echoEdit o enabled) := by
    simp only [echoEdit]
    split_ifs <;> exact h
  simp only [Telnet.optionSideEffects]
  split_ifs
  · exact hedit
  · have hecho := hedit.ensureOption (o := oEcho) (by decide)
    have hwe := hecho.ensureOption (o := oWeSga) (by decide)
    exact hwe.ensureOption (o := oTheySga) (by decide)

theorem AllSettled.size (h : AllSettled t) (width height : Int) :
    AllSettled (t.size width height) := by
  simp only [Telnet.size]
  split_ifs <;> exact h

theorem AllSettled.activateOption (h : AllSettled t) (o : Opt) :
    AllSettled (t.activateOption o) := by
  have hsize : AllSettled
      (if o.send = .WILL ∧ o.option = 31 then t.size t.termWidth t.termHeight else t) := by
    split_ifs
    · exact h.size _ _
    · exact h
  refine AllSettled.optionSideEffects ?_ o true
  generalize (if o.send = .WILL ∧ o.option = 31 then t.size t.termWidth t.termHeight else t) = t'
    at hsize
  split_ifs
  · exact hsize.deactivateOption (o := oOenv) (by decide)
  · exact hsize.deactivateOption (o := oNenv) (by decide)
  · exact hsize

theorem AllSettled.refusedOption (h : AllSettled t) (o : Opt) :
    AllSettled (t.refusedOption o) := by
  simp only [Telnet.refusedOption]
  split_ifs with hold
  · have hrequest : AllSettled ((t.sendOpt .WILL 36).setOpt .oenv .requested) :=
      h.request (o := oOenv) (by decide) hold.2.2
    exact hrequest.optionSideEffects o false
  · exact h.optionSideEffects o false

/-- The server has said something about an option. -/
theorem SettledBut.heard (h : AllSettled t) (ho : o ∈ opts) {cmd : Cmd}
    (hcmd : cmd = o.ack ∨ cmd = o.nak) :
    SettledBut (t.logOption .server cmd o.option) o := by
  intro o' ho' hne
  have habout : about .server o' (.server, cmd, o.option) = false := by
    rcases hcmd with rfl | rfl
    · simpa [hne] using (about_server o' ho' o ho).1
    · simpa [hne] using (about_server o' ho' o ho).2
  have hsettled := h o' ho'
  unfold Settled at hsettled ⊢
  simpa [logOption, lastSaid_append, habout] using hsettled

theorem lastHeard_ack (ho : o ∈ opts) :
    lastSaid (t.logOption .server o.ack o.option).log .server o = some o.ack := by
  have habout := (about_server o ho o ho).1
  simp [logOption, lastSaid_append, habout]

theorem lastHeard_nak (ho : o ∈ opts) :
    lastSaid (t.logOption .server o.nak o.option).log .server o = some o.nak := by
  have habout := (about_server o ho o ho).2
  simp [logOption, lastSaid_append, habout]

@[simp] theorem lastSaid_logServer (cmd : Cmd) (option : UInt8) :
    lastSaid (t.logOption .server cmd option).log .client o = lastSaid t.log .client o := by
  simp [logOption, lastSaid_append]

@[simp] theorem optStates_logOption (sender : Sender) (cmd : Cmd) (option : UInt8) :
    (t.logOption sender cmd option).optStates = t.optStates := rfl

/-- **A positive command of the server.** -/
theorem AllSettled.acknowledged (h : AllSettled t) (ho : o ∈ opts) :
    AllSettled ((t.logOption .server o.ack o.option).acknowledged o) := by
  have hbut := SettledBut.heard h ho (.inl rfl)
  have hheard := lastHeard_ack (t := t) ho
  have hsaid := lastSaid_logServer (t := t) (o := o) o.ack o.option
  have hsettled := h o ho
  have hstates := optStates_logOption (t := t) .server o.ack o.option
  unfold Settled at hsettled
  generalize t.logOption .server o.ack o.option = t₁ at hbut hheard hsaid hstates
  rw [← hsaid, ← hstates] at hsettled
  simp only [Telnet.acknowledged]
  cases hst : t₁.optStates o.index with
  | requested =>
      rw [hst] at hsettled
      refine AllSettled.activateOption ((hbut.setOpt ho _).all ?_) o
      unfold Settled
      rw [optStates_setOpt, log_setOpt]
      exact ⟨hsettled.1, hheard⟩
  | active =>
      rw [hst] at hsettled
      refine hbut.all ?_
      unfold Settled
      rw [hst]
      exact ⟨hsettled.1, hheard⟩
  | inactive =>
      refine AllSettled.activateOption (((hbut.setOpt ho _).sendOpt ho (.inl rfl)).all ?_) o
      unfold Settled
      rw [optStates_sendOpt, optStates_setOpt, lastSaid_send ho, lastHeard_sendOpt, log_setOpt]
      exact ⟨rfl, hheard⟩
  | reallyInactive =>
      refine (hbut.sendOpt ho (.inr rfl)).all ?_
      unfold Settled
      rw [optStates_sendOpt, hst, lastSaid_nsend ho]
      exact fun hsend => absurd (Option.some.inj hsend).symm (words_ne o ho).1

/-- **A negative command of the server.** -/
theorem AllSettled.refused (h : AllSettled t) (ho : o ∈ opts) :
    AllSettled ((t.logOption .server o.nak o.option).refused o) := by
  have hbut := SettledBut.heard h ho (.inr rfl)
  have hheard : lastSaid (t.logOption .server o.nak o.option).log .server o ≠ some o.ack := by
    rw [lastHeard_nak ho]
    exact fun hnak => (words_ne o ho).2 (Option.some.inj hnak).symm
  generalize t.logOption .server o.nak o.option = t₁ at hbut hheard
  have hgiven : AllSettled (t₁.setOpt o.index .inactive) := by
    refine (hbut.setOpt ho _).all ?_
    unfold Settled
    rw [optStates_setOpt]
    exact hheard
  simp only [Telnet.refused]
  cases hst : t₁.optStates o.index with
  | requested => exact hgiven.refusedOption o
  | active =>
      refine AllSettled.optionSideEffects (((hgiven.but o).sendOpt ho (.inr rfl)).all ?_) o false
      unfold Settled
      rw [optStates_sendOpt, optStates_setOpt, lastHeard_sendOpt]
      exact hheard
  | inactive =>
      refine hbut.all ?_
      unfold Settled
      rw [hst]
      exact hheard
  | reallyInactive =>
      refine hbut.all ?_
      unfold Settled
      rw [hst]
      exact fun _ => hheard

theorem optFor_some {cmd : Cmd} {option : UInt8} (h : optFor cmd option = some o) :
    o ∈ opts ∧ o.option = option ∧ (o.ack = cmd ∨ o.nak = cmd) := by
  have hfound := List.find?_some h
  simp only [decide_eq_true_eq] at hfound
  exact ⟨List.mem_of_find?_eq_some h, hfound⟩

/-- A command about no option of the table is about no option of the table. -/
theorem about_unknown {cmd : Cmd} {option : UInt8} (h : optFor cmd option = none) (ho : o ∈ opts) :
    about .server o (.server, cmd, option) = false := by
  have hnone := List.find?_eq_none.mp h o ho
  simp only [about, words, decide_eq_true_eq, not_and] at hnone ⊢
  by_cases hoption : option = o.option
  · have hcmd := hnone hoption.symm
    rw [not_or] at hcmd
    simp [hoption, Ne.symm hcmd.1, Ne.symm hcmd.2]
  · simp [hoption]

/-- The answer to such a command neither. -/
theorem about_reply {option : UInt8} (ho : o ∈ opts) :
    (optFor .WILL option = none → about .client o (.client, .DONT, option) = false) ∧
      (optFor .DO option = none → about .client o (.client, .WONT, option) = false) := by
  have hwords : ∀ o ∈ opts, (o.send ≠ .DONT ∧ (o.nsend = .DONT → o.ack = .WILL)) ∧
      (o.send ≠ .WONT ∧ (o.nsend = .WONT → o.ack = .DO)) := by decide
  obtain ⟨⟨hdont, hwill⟩, hwont, hdo⟩ := hwords o ho
  constructor
  · intro hnone
    have hunknown := List.find?_eq_none.mp hnone o ho
    simp only [decide_eq_true_eq, not_and, not_or] at hunknown
    by_cases hoption : option = o.option
    · have hnsend : o.nsend ≠ .DONT := fun hn => (hunknown hoption.symm).1 (hwill hn)
      simp [about, words, Ne.symm hdont, Ne.symm hnsend]
    · simp [about, hoption]
  · intro hnone
    have hunknown := List.find?_eq_none.mp hnone o ho
    simp only [decide_eq_true_eq, not_and, not_or] at hunknown
    by_cases hoption : option = o.option
    · have hnsend : o.nsend ≠ .WONT := fun hn => (hunknown hoption.symm).1 (hdo hn)
      simp [about, words, Ne.symm hwont, Ne.symm hnsend]
    · simp [about, hoption]

/-- Words about no option of the table change nothing. -/
theorem AllSettled.logOption (h : AllSettled t) (sender : Sender) (cmd : Cmd) (option : UInt8)
    (hother : ∀ o ∈ opts, about sender o (sender, cmd, option) = false) :
    AllSettled (t.logOption sender cmd option) := by
  intro o ho
  have hsettled := h o ho
  have habout := hother o ho
  unfold Settled at hsettled ⊢
  cases sender with
  | client => simpa [Telnet.logOption, lastSaid_append, habout] using hsettled
  | server => simpa [Telnet.logOption, lastSaid_append, habout] using hsettled

/-- **A command of the server** keeps what follows from the log. -/
theorem AllSettled.procRecOpt (h : AllSettled t) (cmd : Cmd) (option : UInt8) :
    AllSettled (t.procRecOpt cmd option) := by
  simp only [Telnet.procRecOpt]
  cases hfor : optFor cmd option with
  | none =>
      have hlog : AllSettled (t.logOption .server cmd option) :=
        h.logOption .server cmd option fun o ho => about_unknown hfor ho
      cases cmd with
      | WILL =>
          have hreply := fun o ho => (about_reply (o := o) ho).1 hfor
          exact hlog.logOption .client .DONT option hreply
      | DO =>
          have hreply := fun o ho => (about_reply (o := o) ho).2 hfor
          exact hlog.logOption .client .WONT option hreply
      | WONT => exact hlog
      | DONT => exact hlog
  | some o =>
      obtain ⟨ho, rfl, hcmd⟩ := optFor_some hfor
      dsimp only
      split_ifs with hack
      · subst hack
        exact h.acknowledged ho
      · obtain rfl := hcmd.resolve_left hack
        exact h.refused ho

end Conversation

section Environment

variable {t : Telnet} {o : Opt}

/-- At most one of the two options for the environment is in use. -/
def Exclusive (t : Telnet) : Prop := ¬(Live (t.optStates .oenv) ∧ Live (t.optStates .nenv))

/-- The options of the environment have the states they had. -/
def SameEnviron (t t' : Telnet) : Prop :=
  t'.optStates .oenv = t.optStates .oenv ∧ t'.optStates .nenv = t.optStates .nenv

theorem Exclusive.same {t' : Telnet} (h : Exclusive t) (hsame : SameEnviron t t') :
    Exclusive t' := by
  unfold Exclusive
  rw [hsame.1, hsame.2]
  exact h

theorem sameEnviron_setOpt {i : OptIndex} (st : OptState) (hi : i ≠ .oenv ∧ i ≠ .nenv) :
    SameEnviron t (t.setOpt i st) :=
  ⟨Function.update_of_ne (Ne.symm hi.1) _ _, Function.update_of_ne (Ne.symm hi.2) _ _⟩

theorem SameEnviron.trans {t₁ t₂ t₃ : Telnet} (h : SameEnviron t₁ t₂) (h' : SameEnviron t₂ t₃) :
    SameEnviron t₁ t₃ :=
  ⟨h'.1.trans h.1, h'.2.trans h.2⟩

theorem sameEnviron_ensureOption (ho : o.index ≠ .oenv ∧ o.index ≠ .nenv) :
    SameEnviron t (t.ensureOption o) := by
  simp only [Telnet.ensureOption]
  split_ifs
  · exact sameEnviron_setOpt .requested ho
  · exact ⟨rfl, rfl⟩

theorem sameEnviron_optionSideEffects (o : Opt) (enabled : Bool) :
    SameEnviron t (t.optionSideEffects o enabled) := by
  have hedit : SameEnviron t (t.echoEdit o enabled) := by
    simp only [echoEdit]
    split_ifs <;> exact ⟨rfl, rfl⟩
  simp only [Telnet.optionSideEffects]
  split_ifs
  · exact hedit
  · have hecho := hedit.trans (sameEnviron_ensureOption (o := oEcho) (by decide))
    have hwe := hecho.trans (sameEnviron_ensureOption (o := oWeSga) (by decide))
    exact hwe.trans (sameEnviron_ensureOption (o := oTheySga) (by decide))

theorem sameEnviron_size (width height : Int) : SameEnviron t (t.size width height) := by
  simp only [Telnet.size]
  split_ifs <;> exact ⟨rfl, rfl⟩

/-- Which of the options are those of the environment. -/
theorem environ_index : ∀ o ∈ opts,
    ((o.send = .WILL ∧ (o.option = 39 ∨ o.option = 36)) ↔ o.index = .oenv ∨ o.index = .nenv) ∧
      (o.option = 39 ↔ o.index = .nenv) := by decide

/-- One option of the environment ends the other. -/
theorem exclusive_activateOption (ho : o ∈ opts)
    (h : o.index ≠ .oenv → o.index ≠ .nenv → Exclusive t) : Exclusive (t.activateOption o) := by
  have hsize : SameEnviron t
      (if o.send = .WILL ∧ o.option = 31 then t.size t.termWidth t.termHeight else t) := by
    split_ifs
    · exact sameEnviron_size _ _
    · exact ⟨rfl, rfl⟩
  refine Exclusive.same ?_ (sameEnviron_optionSideEffects o true)
  generalize (if o.send = .WILL ∧ o.option = 31 then t.size t.termWidth t.termHeight else t) = t'
    at hsize
  have henviron := (environ_index o ho).1
  have hended : ∀ i, (t'.deactivateOption i).optStates i.index = .reallyInactive := fun i =>
    optStates_setOpt _ _
  split_ifs with hboth hnenv
  · have hold := hended oOenv
    rintro ⟨hlive, -⟩
    have hdead : ¬Live .reallyInactive := by decide
    exact hdead (hold ▸ hlive)
  · have hold := hended oNenv
    rintro ⟨-, hlive⟩
    have hdead : ¬Live .reallyInactive := by decide
    exact hdead (hold ▸ hlive)
  · rw [henviron, not_or] at hboth
    exact (h hboth.1 hboth.2).same hsize

/-- The old option is asked for where the new one is refused. -/
theorem exclusive_refusedOption (h : Exclusive t)
    (hnew : o.option = 39 → t.optStates .nenv = .inactive) : Exclusive (t.refusedOption o) := by
  simp only [Telnet.refusedOption]
  split_ifs with hold
  · refine Exclusive.same ?_ (sameEnviron_optionSideEffects o false)
    rintro ⟨-, hlive⟩
    have hnenv : ((t.sendOpt .WILL 36).setOpt .oenv .requested).optStates .nenv = .inactive :=
      hnew hold.2.1
    have hdead : ¬Live .inactive := by decide
    exact hdead (hnenv ▸ hlive)
  · exact h.same (sameEnviron_optionSideEffects o false)

/-- An option is given up. -/
theorem Exclusive.setInactive (h : Exclusive t) (i : OptIndex) :
    Exclusive (t.setOpt i .inactive) := by
  have hdead : ¬Live .inactive := by decide
  have hlive : ∀ j, Live ((t.setOpt i .inactive).optStates j) → Live (t.optStates j) := by
    intro j hj
    by_cases hij : j = i
    · subst hij
      rw [optStates_setOpt] at hj
      exact absurd hj hdead
    · have hsame : (t.setOpt i .inactive).optStates j = t.optStates j :=
        Function.update_of_ne hij _ _
      rwa [hsame] at hj
  exact fun hboth => h ⟨hlive _ hboth.1, hlive _ hboth.2⟩

theorem Exclusive.procRecOpt (h : Exclusive t) (cmd : Cmd) (option : UInt8) :
    Exclusive (t.procRecOpt cmd option) := by
  simp only [Telnet.procRecOpt]
  have hlog : Exclusive (t.logOption .server cmd option) := h
  generalize t.logOption .server cmd option = t₁ at hlog
  cases hfor : optFor cmd option with
  | none => cases cmd <;> exact hlog
  | some o =>
      obtain ⟨ho, -, -⟩ := optFor_some hfor
      have hactive : o.index ≠ .oenv → o.index ≠ .nenv → Exclusive (t₁.setOpt o.index .active) :=
        fun hold hnew => hlog.same (sameEnviron_setOpt .active ⟨hold, hnew⟩)
      have hgiven := hlog.setInactive o.index
      dsimp only
      split_ifs
      · simp only [Telnet.acknowledged]
        split
        · exact exclusive_activateOption ho hactive
        · exact hlog
        · exact exclusive_activateOption ho hactive
        · exact hlog
      · simp only [Telnet.refused]
        split
        · refine exclusive_refusedOption hgiven fun hnew => ?_
          rw [((environ_index o ho).2.mp hnew)]
          exact optStates_setOpt _ _
        · exact hgiven.same (sameEnviron_optionSideEffects o false)
        · exact hlog
        · exact hlog

end Environment

section Start

/-- The states of the options at the start. -/
def initialStates (passive : Bool) (i : OptIndex) : OptState :=
  if passive then .inactive
  else
    match i with
    | .oenv | .weBin | .theyBin => .inactive
    | _ => .requested

/-- The commands at the start. -/
def openingLog (passive : Bool) : List (Sender × Cmd × UInt8) :=
  if passive then []
  else [(.client, .WILL, 31), (.client, .WILL, 32), (.client, .WILL, 24), (.client, .WILL, 39),
    (.client, .DO, 1), (.client, .WILL, 3), (.client, .DO, 3)]

theorem init_start (conf : TelnetConf) (width height : Int) :
    (init conf width height).optStates = initialStates conf.passiveTelnet ∧
      (init conf width height).log = openingLog conf.passiveTelnet := by
  cases hpassive : conf.passiveTelnet with
  | true =>
      have hinit : init conf width height = idle conf width height := by
        rw [init, if_pos hpassive]
      rw [hinit]
      exact ⟨rfl, rfl⟩
  | false =>
      have hinit : init conf width height =
          { opts.foldl initOption (idle conf width height) with activated := true } := by
        simp only [init, hpassive, Bool.false_eq_true, ↓reduceIte]
      rw [hinit]
      constructor
      · funext i
        cases i <;> rfl
      · rfl

theorem start_settled : ∀ passive, ∀ o ∈ opts,
    Settled (initialStates passive) (openingLog passive) o := by decide

end Start

/-- **The conversation about the options**, in every run: an option is active exactly if the
last word about it was positive on either side; where it is requested, the server has not
agreed; and the two options for the environment are never in use together. -/
theorem run_settled (conf : TelnetConf) (width height : Int) (inputs : List Input) (t : Telnet)
    (hrun : runSteps step (init conf width height) inputs = some t) :
    (∀ o ∈ opts,
      (t.optStates o.index = .active ↔
        lastSaid t.log .client o = some o.send ∧ lastSaid t.log .server o = some o.ack) ∧
      (t.optStates o.index = .requested →
        lastSaid t.log .client o = some o.send ∧ lastSaid t.log .server o ≠ some o.ack)) ∧
      ¬(Live (t.optStates .oenv) ∧ Live (t.optStates .nenv)) := by
  obtain ⟨hstates, hlog⟩ := init_start conf width height
  have hinit : AllSettled (init conf width height) ∧ Exclusive (init conf width height) := by
    refine ⟨fun o ho => ?_, ?_⟩
    · rw [hstates, hlog]
      exact start_settled _ o ho
    · unfold Exclusive
      rw [hstates]
      cases conf.passiveTelnet <;> decide
  have hinv : AllSettled t ∧ Exclusive t := by
    refine run_rule (P := fun t => AllSettled t ∧ Exclusive t) ?_ ?_ ?_ ?_ hinit hrun
    · exact fun t cmd option h => ⟨h.1.procRecOpt cmd option, h.2.procRecOpt cmd option⟩
    · intro t t' hsame h
      refine ⟨fun o ho => ?_, ?_⟩
      · rw [hsame.states, hsame.log]
        exact h.1 o ho
      · unfold Exclusive
        rw [hsame.states]
        exact h.2
    · exact fun t width height h => ⟨h.1.size _ _, h.2.same (sameEnviron_size _ _)⟩
    · exact fun t h => h
  refine ⟨fun o ho => ?_, hinv.2⟩
  have hsettled := hinv.1 o ho
  unfold Settled at hsettled
  cases hst : t.optStates o.index with
  | requested =>
      rw [hst] at hsettled
      exact ⟨iff_of_false (by decide) fun h => hsettled.2 h.2, fun _ => hsettled⟩
  | active =>
      rw [hst] at hsettled
      exact ⟨iff_of_true rfl hsettled, by simp⟩
  | inactive =>
      rw [hst] at hsettled
      exact ⟨iff_of_false (by decide) fun h => hsettled h.2, by simp⟩
  | reallyInactive =>
      rw [hst] at hsettled
      exact ⟨iff_of_false (by decide) fun h => hsettled h.1 h.2, by simp⟩

theorem run_settled_sample :
    lastSaid ((init passiveConf 80 24).receive false [255, 253, 31]).log .client oNaws = some .WILL ∧
      lastSaid ((init passiveConf 80 24).receive false [255, 253, 31]).log .server oNaws = some .DO :=
  ((run_settled passiveConf 80 24 [.receive false [255, 253, 31]] _ rfl).1 oNaws
    (by decide)).1.mp rfl

end Telnet
end Net
end Qutty
