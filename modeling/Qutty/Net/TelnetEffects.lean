import Qutty.Net.TelnetNegotiation

/-!
# What follows from the options

The client does not negotiate without end: in every run it has said at most eight words more
than the server, and it does not answer to a word that changes nothing (`run_replies`).  The
line discipline and the window size follow the states of the options (`run_effects`).
-/

namespace Qutty
namespace Net
namespace Telnet

open Lib Lib.ByteOrder Lib.Transducer

section Replies

variable {t t' t'' : Telnet} {o : Opt} {k n : Nat}

/-- How many words a side has said. -/
def wordCount (log : List (Sender × Cmd × UInt8)) (sender : Sender) : Nat :=
  log.countP (fun e => e.1 = sender)

/-- The words that the client may still say without being asked: the least options, once, and
the end of one option for the environment. -/
def slack (t : Telnet) : Nat :=
  (if t.activated then 0 else 3) +
    (if t.optStates .oenv ≠ .reallyInactive ∧ t.optStates .nenv ≠ .reallyInactive then 1 else 0)

/-- From one state to another the client has spent some words. -/
structure Spends (k : Nat) (t t' : Telnet) : Prop where
  client : wordCount t'.log .client + t'.slack ≤ wordCount t.log .client + t.slack + k
  server : wordCount t'.log .server = wordCount t.log .server

theorem Spends.refl (t : Telnet) : Spends 0 t t := ⟨by simp, rfl⟩

theorem Spends.trans (h : Spends k t t') (h' : Spends n t' t'') : Spends (k + n) t t'' where
  client := by
    have hfirst := h.client
    have hsecond := h'.client
    omega
  server := h'.server.trans h.server

theorem Spends.mono (h : Spends k t t') (hk : k ≤ n) : Spends n t t' where
  client := h.client.trans (by omega)
  server := h.server

theorem spends_sendOpt (cmd : Cmd) (option : UInt8) : Spends 1 t (t.sendOpt cmd option) where
  client := by
    have hslack : (t.sendOpt cmd option).slack = t.slack := rfl
    rw [hslack]
    simp [sendOpt, logOption, write, wordCount]
    omega
  server := by simp [sendOpt, logOption, write, wordCount]

/-- An option that has not been given up for good changes its state. -/
theorem spends_setOpt {i : OptIndex} (h : t.optStates i ≠ .reallyInactive) (st : OptState) :
    Spends 0 t (t.setOpt i st) where
  client := by
    have hbefore : ∀ j, (t.setOpt i st).optStates j ≠ .reallyInactive →
        t.optStates j ≠ .reallyInactive := by
      intro j hj
      by_cases hij : j = i
      · exact hij ▸ h
      · have hsame : (t.setOpt i st).optStates j = t.optStates j := Function.update_of_ne hij _ _
        exact hsame ▸ hj
    have hslack : (t.setOpt i st).slack ≤ t.slack := by
      simp only [slack]
      refine Nat.add_le_add (le_of_eq rfl) ?_
      split_ifs with hafter hnow
      · exact le_rfl
      · exact absurd ⟨hbefore _ hafter.1, hbefore _ hafter.2⟩ hnow
      · omega
      · exact le_rfl
    have hlog : wordCount (t.setOpt i st).log .client = wordCount t.log .client := rfl
    omega
  server := rfl

theorem spends_ensureOption (o : Opt) :
    Spends 1 t (t.ensureOption o) ∧ (t.ensureOption o).activated = t.activated := by
  simp only [ensureOption]
  split_ifs with hst
  · have hset := spends_setOpt (t := t) (i := o.index) (by simp [hst]) .requested
    exact ⟨hset.trans (spends_sendOpt _ _), rfl⟩
  · exact ⟨(Spends.refl t).mono (by omega), rfl⟩

theorem spends_optionSideEffects (o : Opt) (enabled : Bool) :
    Spends 0 t (t.optionSideEffects o enabled) := by
  have hedit : Spends 0 t (t.echoEdit o enabled) ∧
      (t.echoEdit o enabled).activated = t.activated := by
    simp only [echoEdit]
    split_ifs
    · exact ⟨⟨le_rfl, rfl⟩, rfl⟩
    · exact ⟨⟨le_rfl, rfl⟩, rfl⟩
    · exact ⟨.refl t, rfl⟩
  simp only [optionSideEffects]
  generalize t.echoEdit o enabled = t₁ at hedit
  split_ifs with hactivated
  · exact hedit.1
  · obtain ⟨hecho, hactive⟩ := spends_ensureOption (t := t₁) oEcho
    obtain ⟨hwe, hactive'⟩ := spends_ensureOption (t := t₁.ensureOption oEcho) oWeSga
    obtain ⟨hthey, hactive''⟩ :=
      spends_ensureOption (t := (t₁.ensureOption oEcho).ensureOption oWeSga) oTheySga
    have hall := (hecho.trans hwe).trans hthey
    have hnot : (((t₁.ensureOption oEcho).ensureOption oWeSga).ensureOption oTheySga).activated =
        false := by
      rw [hactive'', hactive', hactive]
      simpa using hactivated
    generalize ((t₁.ensureOption oEcho).ensureOption oWeSga).ensureOption oTheySga = t₂ at hall hnot
    refine ⟨?_, hall.server.trans hedit.1.server⟩
    have hclient := hall.client
    have hclient' := hedit.1.client
    have hslack : t₂.slack = slack { t₂ with activated := true } + 3 := by
      simp only [slack, hnot, Bool.false_eq_true, ↓reduceIte]
      omega
    have hlog : wordCount ({ t₂ with activated := true } : Telnet).log .client =
        wordCount t₂.log .client := rfl
    omega

/-- The end of one option for the environment, where the other one is not given up. -/
theorem spends_deactivateOption (ho : o = oOenv ∨ o = oNenv)
    (hother : t.optStates (if o = oOenv then .nenv else .oenv) ≠ .reallyInactive) :
    Spends 0 t (t.deactivateOption o) := by
  have hdone : ∀ t : Telnet, (t.setOpt o.index .reallyInactive).slack =
      if t.activated then 0 else 3 := by
    intro t
    have hnot : ¬((t.setOpt o.index .reallyInactive).optStates .oenv ≠ .reallyInactive ∧
        (t.setOpt o.index .reallyInactive).optStates .nenv ≠ .reallyInactive) := by
      rcases ho with rfl | rfl
      · exact fun h => h.1 (optStates_setOpt _ _)
      · exact fun h => h.2 (optStates_setOpt _ _)
    simp only [slack, if_neg hnot]
    rfl
  simp only [deactivateOption]
  split_ifs with hlive
  · have hboth : t.optStates .oenv ≠ .reallyInactive ∧ t.optStates .nenv ≠ .reallyInactive := by
      rcases ho with rfl | rfl
      · refine ⟨fun h => ?_, hother⟩
        have hst : t.optStates oOenv.index = .reallyInactive := h
        simp [hst] at hlive
      · refine ⟨hother, fun h => ?_⟩
        have hst : t.optStates oNenv.index = .reallyInactive := h
        simp [hst] at hlive
    have hsend := spends_sendOpt (t := t) o.nsend o.option
    refine ⟨?_, hsend.server⟩
    have hclient := hsend.client
    have hslack : t.slack = (if t.activated then 0 else 3) + 1 := by
      simp only [slack, if_pos hboth]
    have hslack' : (t.sendOpt o.nsend o.option).slack = t.slack := rfl
    have hafter := hdone (t.sendOpt o.nsend o.option)
    have hactivated : (t.sendOpt o.nsend o.option).activated = t.activated := rfl
    have hlog : wordCount ((t.sendOpt o.nsend o.option).setOpt o.index .reallyInactive).log .client =
        wordCount (t.sendOpt o.nsend o.option).log .client := rfl
    rw [hactivated] at hafter
    omega
  · refine ⟨?_, rfl⟩
    have hafter := hdone t
    have hslack : (if t.activated then 0 else 3) ≤ t.slack := Nat.le_add_right _ _
    have hlog : wordCount (t.setOpt o.index .reallyInactive).log .client =
        wordCount t.log .client := rfl
    omega

theorem spends_size (width height : Int) :
    Spends 0 t (t.size width height) ∧ (t.size width height).optStates = t.optStates := by
  simp only [size]
  split_ifs
  · exact ⟨⟨le_rfl, rfl⟩, rfl⟩
  · exact ⟨⟨le_rfl, rfl⟩, rfl⟩

theorem spends_activateOption (ho : o ∈ opts) (hactive : t.optStates o.index = .active) :
    Spends 0 t (t.activateOption o) := by
  have hsize : Spends 0 t
        (if o.send = .WILL ∧ o.option = 31 then t.size t.termWidth t.termHeight else t) ∧
      (if o.send = .WILL ∧ o.option = 31 then t.size t.termWidth t.termHeight else t).optStates =
        t.optStates := by
    split_ifs
    · exact spends_size _ _
    · exact ⟨.refl t, rfl⟩
  refine Spends.trans (k := 0) (n := 0) (hsize.1.trans (n := 0) ?_)
    (spends_optionSideEffects o true)
  obtain ⟨-, hstates⟩ := hsize
  generalize (if o.send = .WILL ∧ o.option = 31 then t.size t.termWidth t.termHeight else t) = t₁
    at hstates
  obtain ⟨henviron, hnew⟩ := environ_index o ho
  split_ifs with hboth hnenv
  · refine spends_deactivateOption (.inl rfl) ?_
    rw [if_pos rfl, hstates, ← hnew.mp hnenv, hactive]
    decide
  · refine spends_deactivateOption (.inr rfl) ?_
    have hold : o.index = .oenv :=
      (henviron.mp hboth).resolve_right fun hindex => hnenv (hnew.mpr hindex)
    rw [if_neg (by decide), hstates, ← hold, hactive]
    decide
  · exact .refl t₁

theorem spends_refusedOption (o : Opt) : Spends 1 t (t.refusedOption o) := by
  simp only [refusedOption]
  split_ifs with hold
  · have hsend := spends_sendOpt (t := t) .WILL 36
    have hset := spends_setOpt (t := t.sendOpt .WILL 36) (i := .oenv)
      (by simp [hold.2.2]) .requested
    exact (hsend.trans hset).trans (spends_optionSideEffects o false)
  · exact (spends_optionSideEffects o false).mono (by omega)

/-- **Each word of the server is worth at most one of the client.** -/
theorem spends_procRecOpt (cmd : Cmd) (option : UInt8) :
    Spends 1 (t.logOption .server cmd option) (t.procRecOpt cmd option) := by
  simp only [procRecOpt]
  generalize t.logOption .server cmd option = t₁
  cases hfor : optFor cmd option with
  | none =>
      have hnone := (Spends.refl t₁).mono (n := 1) (by omega)
      cases cmd with
      | WILL => exact spends_sendOpt _ _
      | DO => exact spends_sendOpt _ _
      | WONT => exact hnone
      | DONT => exact hnone
  | some o =>
      obtain ⟨ho, -, -⟩ := optFor_some hfor
      dsimp only
      split_ifs
      · simp only [acknowledged]
        split
        next hst =>
          have hset := spends_setOpt (t := t₁) (i := o.index) (by simp [hst]) .active
          have hactivate := spends_activateOption ho (t := t₁.setOpt o.index .active) (by simp)
          exact (hset.trans hactivate).mono (by omega)
        next => exact (Spends.refl t₁).mono (by omega)
        next hst =>
          have hset := spends_setOpt (t := t₁) (i := o.index) (by simp [hst]) .active
          have hsend := hset.trans (spends_sendOpt o.send o.option)
          have hactivate := spends_activateOption ho
            (t := (t₁.setOpt o.index .active).sendOpt o.send o.option) (by simp)
          exact hsend.trans hactivate
        next => exact spends_sendOpt _ _
      · simp only [refused]
        split
        next hst =>
          have hset := spends_setOpt (t := t₁) (i := o.index) (by simp [hst]) .inactive
          exact hset.trans (spends_refusedOption o)
        next hst =>
          have hset := spends_setOpt (t := t₁) (i := o.index) (by simp [hst]) .inactive
          have hsend := hset.trans (spends_sendOpt o.nsend o.option)
          exact hsend.trans (spends_optionSideEffects o false)
        next => exact (Spends.refl t₁).mono (by omega)
        next => exact (Spends.refl t₁).mono (by omega)

/-- The client has spent no more than it may. -/
def Solvent (t : Telnet) : Prop :=
  wordCount t.log .client + t.slack ≤ wordCount t.log .server + 8

theorem Solvent.procRecOpt (h : Solvent t) (cmd : Cmd) (option : UInt8) :
    Solvent (t.procRecOpt cmd option) := by
  obtain ⟨hclient, hserver⟩ := spends_procRecOpt (t := t) cmd option
  have hheard : wordCount (t.logOption .server cmd option).log .server =
      wordCount t.log .server + 1 := by simp [logOption, wordCount]
  have hsaid : wordCount (t.logOption .server cmd option).log .client =
      wordCount t.log .client := by simp [logOption, wordCount]
  have hslack : (t.logOption .server cmd option).slack = t.slack := rfl
  unfold Solvent at h ⊢
  omega

theorem solvent_init (conf : TelnetConf) (width height : Int) :
    Solvent (init conf width height) := by
  obtain ⟨hstates, hlog⟩ := init_start conf width height
  unfold Solvent slack
  rw [hstates, hlog]
  cases hpassive : conf.passiveTelnet with
  | true =>
      have hsaid : wordCount (openingLog true) .client = 0 := rfl
      rw [hsaid]
      split_ifs <;> omega
  | false =>
      have hactivated : (init conf width height).activated = true := by
        simp only [init, hpassive, Bool.false_eq_true, ↓reduceIte]
      have hsaid : wordCount (openingLog false) .client = 7 := rfl
      rw [hactivated, hsaid, if_pos rfl]
      split_ifs <;> omega

/-- A word that agrees with the state of an option is not answered. -/
theorem agreed_unanswered (ho : o ∈ opts) :
    (t.optStates o.index = .active → (t.procRecOpt o.ack o.option).sent = t.sent) ∧
      (t.optStates o.index = .inactive ∨ t.optStates o.index = .reallyInactive →
        (t.procRecOpt o.nak o.option).sent = t.sent) := by
  have hfound : ∀ o ∈ opts, optFor o.ack o.option = some o ∧ optFor o.nak o.option = some o ∧
      o.ack ≠ o.nak := by decide
  obtain ⟨hack, hnak, hne⟩ := hfound o ho
  constructor
  · intro hst
    have hstate : (t.logOption .server o.ack o.option).optStates o.index = .active := hst
    simp only [procRecOpt, hack, ↓reduceIte, acknowledged, hstate]
    rfl
  · rintro (hst | hst)
    · have hstate : (t.logOption .server o.nak o.option).optStates o.index = .inactive := hst
      simp only [procRecOpt, hnak, hne, ↓reduceIte, refused, hstate]
      rfl
    · have hstate : (t.logOption .server o.nak o.option).optStates o.index = .reallyInactive := hst
      simp only [procRecOpt, hnak, hne, ↓reduceIte, refused, hstate]
      rfl

/-- **The client does not negotiate without end.**  In every run it has said at most eight words
more than the server, and it does not answer to a word that agrees with the state. -/
theorem run_replies (conf : TelnetConf) (width height : Int) (inputs : List Input) (t : Telnet)
    (hrun : runSteps step (init conf width height) inputs = some t) :
    wordCount t.log .client ≤ wordCount t.log .server + 8 ∧
      ∀ o ∈ opts,
        (t.optStates o.index = .active → (t.procRecOpt o.ack o.option).sent = t.sent) ∧
          (t.optStates o.index = .inactive ∨ t.optStates o.index = .reallyInactive →
            (t.procRecOpt o.nak o.option).sent = t.sent) := by
  have hsolvent : Solvent t := by
    refine run_rule (fun _ cmd option h => h.procRecOpt cmd option) ?_ ?_ (fun _ h => h)
      (solvent_init conf width height) hrun
    · intro t t' hsame h
      unfold Solvent slack at h ⊢
      rw [hsame.log, hsame.states, hsame.activated]
      exact h
    · intro t width height h
      obtain ⟨hsize, -⟩ := spends_size (t := t) width height
      have hclient := hsize.client
      have hserver := hsize.server
      unfold Solvent at h ⊢
      omega
  exact ⟨(Nat.le_add_right _ _).trans hsolvent, fun o ho => agreed_unanswered ho⟩

theorem run_replies_sample :
    wordCount ((init passiveConf 80 24).receive false [255, 253, 31]).log .client ≤ 9 :=
  (run_replies passiveConf 80 24 [.receive false [255, 253, 31]] _ rfl).1

end Replies

section Effects

variable {t t' : Telnet} {o : Opt}

/-- Local echo and local editing are on unless the server does its part. -/
structure Local (t : Telnet) : Prop where
  echoing : t.echoing = decide (t.optStates .echo ≠ .active)
  editing : t.editing = decide (t.optStates .theySga ≠ .active)

/-- The server knows the size of the window as soon as it has asked for it. -/
def SizeKnown (t : Telnet) : Prop :=
  t.connected = true → t.optStates .naws = .active →
    t.knownSize = some (t.termWidth, t.termHeight)

/-- The options that have side effects. -/
def Tracked (i : OptIndex) : Prop := i = .echo ∨ i = .theySga ∨ i = .naws

/-- The same as far as the side effects are concerned. -/
structure SameEffects (t t' : Telnet) : Prop where
  active : ∀ i, Tracked i → (t'.optStates i = .active ↔ t.optStates i = .active)
  echoing : t'.echoing = t.echoing
  editing : t'.editing = t.editing
  connected : t'.connected = t.connected
  width : t'.termWidth = t.termWidth
  height : t'.termHeight = t.termHeight
  known : t'.knownSize = t.knownSize

theorem SameEffects.trans {t'' : Telnet} (h : SameEffects t t') (h' : SameEffects t' t'') :
    SameEffects t t'' :=
  ⟨fun i hi => (h'.active i hi).trans (h.active i hi), h'.echoing.trans h.echoing,
    h'.editing.trans h.editing, h'.connected.trans h.connected, h'.width.trans h.width,
    h'.height.trans h.height, h'.known.trans h.known⟩

theorem SameEffects.refl (t : Telnet) : SameEffects t t :=
  ⟨fun _ _ => .rfl, rfl, rfl, rfl, rfl, rfl, rfl⟩

theorem Local.same (h : Local t) (hsame : SameEffects t t') : Local t' where
  echoing := by
    rw [hsame.echoing, h.echoing, decide_eq_decide, not_iff_not, hsame.active _ (.inl rfl)]
  editing := by
    rw [hsame.editing, h.editing, decide_eq_decide, not_iff_not, hsame.active _ (.inr (.inl rfl))]

theorem SizeKnown.same (h : SizeKnown t) (hsame : SameEffects t t') : SizeKnown t' := by
  intro hconn hactive
  rw [hsame.known, hsame.width, hsame.height]
  exact h (hsame.connected ▸ hconn) ((hsame.active _ (.inr (.inr rfl))).mp hactive)

theorem sameEffects_sendOpt (cmd : Cmd) (option : UInt8) : SameEffects t (t.sendOpt cmd option) :=
  ⟨fun _ _ => .rfl, rfl, rfl, rfl, rfl, rfl, by simp [knownSize, sendOpt, write, logOption, toldSize]⟩

theorem sameEffects_setOpt {i : OptIndex} {st : OptState}
    (h : Tracked i → (st = .active ↔ t.optStates i = .active)) : SameEffects t (t.setOpt i st) := by
  refine ⟨fun j hj => ?_, rfl, rfl, rfl, rfl, rfl, rfl⟩
  by_cases hij : j = i
  · subst hij
    rw [optStates_setOpt]
    exact h hj
  · have hsame : (t.setOpt i st).optStates j = t.optStates j := Function.update_of_ne hij _ _
    rw [hsame]

theorem sameEffects_ensureOption (o : Opt) : SameEffects t (t.ensureOption o) := by
  simp only [ensureOption]
  split_ifs with hst
  · exact (sameEffects_setOpt fun _ => by simp [hst]).trans (sameEffects_sendOpt _ _)
  · exact .refl t

/-- The rest of the side effects changes nothing here. -/
theorem sameEffects_optionSideEffects (o : Opt) (enabled : Bool) :
    SameEffects (t.echoEdit o enabled) (t.optionSideEffects o enabled) := by
  simp only [optionSideEffects]
  split_ifs
  · exact .refl _
  · have hecho := sameEffects_ensureOption (t := t.echoEdit o enabled) oEcho
    have hwe := hecho.trans (sameEffects_ensureOption oWeSga)
    have hthey := hwe.trans (sameEffects_ensureOption oTheySga)
    exact ⟨hthey.active, hthey.echoing, hthey.editing, hthey.connected, hthey.width, hthey.height,
      hthey.known⟩

/-- Which of the options the line discipline is about. -/
theorem local_index : ∀ o ∈ opts, ((o.option = 1 ∧ o.send = .DO) ↔ o.index = .echo) ∧
    ((o.option = 3 ∧ o.send = .DO) ↔ o.index = .theySga) := by decide

/-- The side effects bring the line discipline up to date. -/
theorem local_optionSideEffects (ho : o ∈ opts) {enabled : Bool}
    (hstate : t.optStates o.index = .active ↔ enabled = true)
    (hecho : o.index ≠ .echo → t.echoing = decide (t.optStates .echo ≠ .active))
    (hsga : o.index ≠ .theySga → t.editing = decide (t.optStates .theySga ≠ .active)) :
    Local (t.optionSideEffects o enabled) := by
  refine Local.same ?_ (sameEffects_optionSideEffects o enabled)
  obtain ⟨hisEcho, hisSga⟩ := local_index o ho
  have hflag : (!enabled) = decide (t.optStates o.index ≠ .active) := by
    cases enabled <;> simpa using hstate
  simp only [echoEdit, hisEcho, hisSga]
  split_ifs with h₁ h₂
  · exact ⟨h₁ ▸ hflag, hsga (by simp [h₁])⟩
  · exact ⟨hecho h₁, h₂ ▸ hflag⟩
  · exact ⟨hecho h₁, hsga h₂⟩

theorem sizeKnown_optionSideEffects (h : SizeKnown t) (o : Opt) (enabled : Bool) :
    SizeKnown (t.optionSideEffects o enabled) := by
  refine SizeKnown.same ?_ (sameEffects_optionSideEffects o enabled)
  simp only [echoEdit]
  split_ifs <;> exact h

theorem sameEffects_deactivateOption (ho : ¬Tracked o.index) :
    SameEffects t (t.deactivateOption o) := by
  simp only [deactivateOption]
  split_ifs
  · exact (sameEffects_sendOpt _ _).trans (sameEffects_setOpt fun hi => absurd hi ho)
  · exact sameEffects_setOpt fun hi => absurd hi ho

theorem optStates_deactivateOption {i : OptIndex} (hi : i ≠ o.index) :
    (t.deactivateOption o).optStates i = t.optStates i := by
  simp only [deactivateOption]
  split_ifs
  · exact Function.update_of_ne hi _ _
  · exact Function.update_of_ne hi _ _

/-- A window size is told where the server has asked for it. -/
theorem sizeKnown_size (t : Telnet) (width height : Int) : SizeKnown (t.size width height) := by
  intro hconn hactive
  simp only [size] at hconn hactive ⊢
  split_ifs at hconn hactive ⊢ with hskip
  · rcases hskip with h | h
    · exact absurd hconn (by simp [h])
    · exact absurd hactive h
  · simp [knownSize, write, toldSize]

/-- Which options an activated option ends. -/
theorem ended_index : ∀ o ∈ opts, o.send = .WILL ∧ (o.option = 39 ∨ o.option = 36) →
    o.index ≠ (if o.option = 39 then oOenv else oNenv).index ∧
      ¬Tracked (if o.option = 39 then oOenv else oNenv).index := by
  unfold Tracked
  decide

theorem naws_index : ∀ o ∈ opts, (o.send = .WILL ∧ o.option = 31) ↔ o.index = .naws := by decide

/-- **An option becomes active**, with its side effects. -/
theorem effects_activateOption (ho : o ∈ opts) (hactive : t.optStates o.index = .active)
    (hecho : o.index ≠ .echo → t.echoing = decide (t.optStates .echo ≠ .active))
    (hsga : o.index ≠ .theySga → t.editing = decide (t.optStates .theySga ≠ .active))
    (hsize : o.index ≠ .naws → SizeKnown t) :
    Local (t.activateOption o) ∧ SizeKnown (t.activateOption o) := by
  have hfirst : ∃ t₁, (if o.send = .WILL ∧ o.option = 31 then t.size t.termWidth t.termHeight
        else t) = t₁ ∧ t₁.optStates = t.optStates ∧ t₁.echoing = t.echoing ∧
      t₁.editing = t.editing ∧ SizeKnown t₁ := by
    refine ⟨_, rfl, ?_⟩
    split_ifs with hnaws
    · refine ⟨(spends_size _ _).2, ?_, ?_, sizeKnown_size t _ _⟩
      · simp only [size]
        split_ifs <;> rfl
      · simp only [size]
        split_ifs <;> rfl
    · exact ⟨rfl, rfl, rfl, hsize fun hi => hnaws ((naws_index o ho).mpr hi)⟩
  obtain ⟨t₁, ht₁, hstates, hechoing, hediting, hknown⟩ := hfirst
  have hsecond : ∃ t₂, (if o.send = .WILL ∧ (o.option = 39 ∨ o.option = 36) then
        t₁.deactivateOption (if o.option = 39 then oOenv else oNenv) else t₁) = t₂ ∧
      SameEffects t₁ t₂ ∧ t₂.optStates o.index = .active := by
    refine ⟨_, rfl, ?_⟩
    split_ifs with hboth hnenv
    · obtain ⟨hne, huntracked⟩ := ended_index o ho hboth
      rw [if_pos hnenv] at hne huntracked
      refine ⟨sameEffects_deactivateOption huntracked, ?_⟩
      have hkept := optStates_deactivateOption (t := t₁) hne
      rw [hkept, hstates, hactive]
    · obtain ⟨hne, huntracked⟩ := ended_index o ho hboth
      rw [if_neg hnenv] at hne huntracked
      refine ⟨sameEffects_deactivateOption huntracked, ?_⟩
      have hkept := optStates_deactivateOption (t := t₁) hne
      rw [hkept, hstates, hactive]
    · exact ⟨.refl t₁, by rw [hstates, hactive]⟩
  obtain ⟨t₂, ht₂, hsame, hactive₂⟩ := hsecond
  have hresult : t.activateOption o = t₂.optionSideEffects o true := by
    simp only [activateOption, ht₁, ht₂]
  rw [hresult]
  refine ⟨local_optionSideEffects ho (by simp [hactive₂]) (fun hi => ?_) fun hi => ?_,
    sizeKnown_optionSideEffects (hknown.same hsame) o true⟩
  · rw [hsame.echoing, hechoing, hecho hi, decide_eq_decide, not_iff_not,
      hsame.active _ (.inl rfl), hstates]
  · rw [hsame.editing, hediting, hsga hi, decide_eq_decide, not_iff_not,
      hsame.active _ (.inr (.inl rfl)), hstates]

theorem optStates_setOpt_of_ne {i j : OptIndex} (h : j ≠ i) (st : OptState) :
    (t.setOpt i st).optStates j = t.optStates j :=
  Function.update_of_ne h _ _

/-- Another option than the one that has changed. -/
theorem Local.moved (h : Local t) (i : OptIndex) (st : OptState) :
    (i ≠ .echo → (t.setOpt i st).echoing = decide ((t.setOpt i st).optStates .echo ≠ .active)) ∧
      (i ≠ .theySga →
        (t.setOpt i st).editing = decide ((t.setOpt i st).optStates .theySga ≠ .active)) := by
  constructor
  · intro hi
    rw [optStates_setOpt_of_ne (Ne.symm hi)]
    exact h.echoing
  · intro hi
    rw [optStates_setOpt_of_ne (Ne.symm hi)]
    exact h.editing

theorem SizeKnown.moved (h : SizeKnown t) {i : OptIndex} {st : OptState}
    (hi : i ≠ .naws ∨ st ≠ .active) : SizeKnown (t.setOpt i st) := by
  intro hconn hactive
  refine h hconn ?_
  by_cases heq : i = .naws
  · subst heq
    rw [optStates_setOpt] at hactive
    exact absurd hactive (hi.resolve_left fun hne => hne rfl)
  · rwa [optStates_setOpt_of_ne (Ne.symm heq)] at hactive

theorem effects_acknowledged (h : Local t) (h' : SizeKnown t) (ho : o ∈ opts) :
    Local (t.acknowledged o) ∧ SizeKnown (t.acknowledged o) := by
  obtain ⟨hecho, hsga⟩ := h.moved o.index .active
  have hsize : o.index ≠ .naws → SizeKnown (t.setOpt o.index .active) := fun hi => h'.moved (.inl hi)
  simp only [acknowledged]
  split
  · exact effects_activateOption ho (optStates_setOpt _ _) hecho hsga hsize
  · exact ⟨h, h'⟩
  · have hsame := sameEffects_sendOpt (t := t.setOpt o.index .active) o.send o.option
    exact effects_activateOption ho (optStates_setOpt _ _) hecho hsga fun hi => (hsize hi).same hsame
  · have hsame := sameEffects_sendOpt (t := t) o.nsend o.option
    exact ⟨h.same hsame, h'.same hsame⟩

/-- **An option is not active any more**, with its side effects. -/
theorem effects_refused (h : Local t) (h' : SizeKnown t) (ho : o ∈ opts) :
    Local (t.refused o) ∧ SizeKnown (t.refused o) := by
  obtain ⟨hecho, hsga⟩ := h.moved o.index .inactive
  have hsize : SizeKnown (t.setOpt o.index .inactive) := h'.moved (.inr (by decide))
  have hoff : (t.setOpt o.index .inactive).optStates o.index = .active ↔ false = true := by simp
  generalize hgiven : t.setOpt o.index .inactive = t₁ at hecho hsga hsize hoff
  simp only [refused, hgiven]
  split
  · simp only [refusedOption]
    split_ifs with hold
    · have hindex : o.index = .nenv := (environ_index o ho).2.mp hold.2.1
      have hrequested : ¬Tracked .oenv := by
        unfold Tracked
        decide
      have hsame : SameEffects t₁ ((t₁.sendOpt .WILL 36).setOpt .oenv .requested) :=
        (sameEffects_sendOpt _ _).trans (sameEffects_setOpt fun hi => absurd hi hrequested)
      refine ⟨local_optionSideEffects ho ?_ (fun hi => hecho hi) fun hi => hsga hi,
        sizeKnown_optionSideEffects (hsize.same hsame) o false⟩
      have hkept : ((t₁.sendOpt .WILL 36).setOpt .oenv .requested).optStates o.index =
          t₁.optStates o.index := optStates_setOpt_of_ne (by rw [hindex]; decide) _
      rw [hkept]
      exact hoff
    · exact ⟨local_optionSideEffects ho hoff hecho hsga, sizeKnown_optionSideEffects hsize o false⟩
  · have hsame := sameEffects_sendOpt (t := t₁) o.nsend o.option
    exact ⟨local_optionSideEffects ho hoff hecho hsga,
      sizeKnown_optionSideEffects (hsize.same hsame) o false⟩
  · exact ⟨h, h'⟩
  · exact ⟨h, h'⟩

theorem effects_procRecOpt (h : Local t) (h' : SizeKnown t) (cmd : Cmd) (option : UInt8) :
    Local (t.procRecOpt cmd option) ∧ SizeKnown (t.procRecOpt cmd option) := by
  have hlog : Local (t.logOption .server cmd option) := ⟨h.echoing, h.editing⟩
  have hlog' : SizeKnown (t.logOption .server cmd option) := h'
  simp only [procRecOpt]
  generalize t.logOption .server cmd option = t₁ at hlog hlog'
  cases hfor : optFor cmd option with
  | none =>
      have hsame : ∀ cmd, SameEffects t₁ (t₁.sendOpt cmd option) := fun cmd =>
        sameEffects_sendOpt cmd option
      cases cmd with
      | WILL => exact ⟨hlog.same (hsame _), hlog'.same (hsame _)⟩
      | DO => exact ⟨hlog.same (hsame _), hlog'.same (hsame _)⟩
      | WONT => exact ⟨hlog, hlog'⟩
      | DONT => exact ⟨hlog, hlog'⟩
  | some o =>
      obtain ⟨ho, -, -⟩ := optFor_some hfor
      dsimp only
      split_ifs
      · exact effects_acknowledged hlog hlog' ho
      · exact effects_refused hlog hlog' ho

theorem effects_init (conf : TelnetConf) (width height : Int) :
    Local (init conf width height) ∧ SizeKnown (init conf width height) := by
  have hstates := (init_start conf width height).1
  have hactive : ∀ passive i, initialStates passive i ≠ .active := by
    intro passive i
    cases passive <;> cases i <;> decide
  have hflags : (init conf width height).echoing = true ∧ (init conf width height).editing = true := by
    cases hpassive : conf.passiveTelnet with
    | true =>
        simp only [init, hpassive, ↓reduceIte]
        exact ⟨rfl, rfl⟩
    | false =>
        simp only [init, hpassive, Bool.false_eq_true, ↓reduceIte]
        exact ⟨rfl, rfl⟩
  refine ⟨⟨?_, ?_⟩, fun _ h => ?_⟩
  · rw [hflags.1, hstates]
    exact (decide_eq_true (hactive _ _)).symm
  · rw [hflags.2, hstates]
    exact (decide_eq_true (hactive _ _)).symm
  · rw [hstates] at h
    exact absurd h (hactive _ _)

/-- **The line discipline and the window follow the options**, in every run: local echo is off
exactly while the server echoes, local editing exactly while it suppresses go-ahead, and as
long as there is a connection and the server wants the window size, the last size it has been
told is the current one. -/
theorem run_effects (conf : TelnetConf) (width height : Int) (inputs : List Input) (t : Telnet)
    (hrun : runSteps step (init conf width height) inputs = some t) :
    t.echoing = decide (t.optStates .echo ≠ .active) ∧
      t.editing = decide (t.optStates .theySga ≠ .active) ∧
      (t.connected = true → t.optStates .naws = .active →
        t.knownSize = some (t.termWidth, t.termHeight)) := by
  have hinv : Local t ∧ SizeKnown t := by
    refine run_rule (P := fun t => Local t ∧ SizeKnown t) ?_ ?_ ?_ ?_
      (effects_init conf width height) hrun
    · exact fun t cmd option h => effects_procRecOpt h.1 h.2 cmd option
    · intro t t' hsame h
      have heffects : SameEffects t t' :=
        ⟨fun i _ => by rw [hsame.states], hsame.echoing, hsame.editing, hsame.connected,
          hsame.width, hsame.height, hsame.known⟩
      exact ⟨h.1.same heffects, h.2.same heffects⟩
    · intro t width height h
      refine ⟨?_, sizeKnown_size t width height⟩
      simp only [size]
      split_ifs <;> exact ⟨h.1.echoing, h.1.editing⟩
    · exact fun t h => ⟨⟨h.1.echoing, h.1.editing⟩, fun hconn => absurd hconn (by simp)⟩
  exact ⟨hinv.1.echoing, hinv.1.editing, hinv.2⟩

theorem run_effects_sample :
    (((init passiveConf 80 24).receive false [255, 253, 31]).size 100 50).knownSize =
      some (100, 50) :=
  (run_effects passiveConf 80 24 [.receive false [255, 253, 31], .size 100 50] _ rfl).2.2 rfl rfl

end Effects

end Telnet
end Net
end Qutty
