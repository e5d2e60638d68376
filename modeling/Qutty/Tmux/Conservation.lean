import Qutty.Tmux.Commands

/-!
# No command is lost or answered twice

The queue invariant of the tmux gateway, for input of any kind: whatever lines
arrive and whatever commands the handlers and callbacks issue, the commands
sent so far are the completed ones, then the current one, then the queue.  The
response handed to a callback is what was seen between the `%begin` line that
made its command current and the next line that starts with `%end`.

* `parseCommand_cases` lists what one call can do;
* `Conserved` is the invariant, kept by every line and every command sent;
* `gatewayRun_conserves` gives it for every run.
-/

namespace Qutty
namespace Tmux

variable {α ρ σ : Type}

namespace GatewayEvent

/-- The command whose sending an event records. -/
@[simp] def sent? : GatewayEvent α ρ → Option (TmuxCmdResp ρ)
  | .sent c => some c.resp
  | _ => none

/-- The command whose completion an event records. -/
@[simp] def performed? : GatewayEvent α ρ → Option (TmuxCmdResp ρ)
  | .performed receiver callback _ => some ⟨some receiver, callback⟩
  | _ => none

/-- The line whose arrival an event records. -/
@[simp] def line? : GatewayEvent α ρ → Option (List α)
  | .line bytes => some bytes
  | _ => none

/-- The event makes a command current. -/
@[simp] def isBegun : GatewayEvent α ρ → Bool
  | .begun _ => true
  | _ => false

end GatewayEvent

/-- The commands sent, in sending order. -/
def sentCommands (trace : List (GatewayEvent α ρ)) : List (TmuxCmdResp ρ) :=
  trace.filterMap GatewayEvent.sent?

/-- The commands for which `performCallback` was called, in calling order. -/
def performedCommands (trace : List (GatewayEvent α ρ)) : List (TmuxCmdResp ρ) :=
  trace.filterMap GatewayEvent.performed?

/-- The lines passed to `parseCommand`. -/
def linesOf (trace : List (GatewayEvent α ρ)) : List (List α) :=
  trace.filterMap GatewayEvent.line?

section Traces

variable (e : GatewayEvent α ρ) (s t : List (GatewayEvent α ρ)) (cs : List (Command ρ))

@[simp] theorem sentCommands_nil : sentCommands ([] : List (GatewayEvent α ρ)) = [] := rfl

@[simp] theorem sentCommands_cons :
    sentCommands (e :: t) = e.sent?.toList ++ sentCommands t := by
  cases e <;> rfl

@[simp] theorem sentCommands_append :
    sentCommands (s ++ t) = sentCommands s ++ sentCommands t :=
  List.filterMap_append

@[simp] theorem performedCommands_nil :
    performedCommands ([] : List (GatewayEvent α ρ)) = [] := rfl

@[simp] theorem performedCommands_cons :
    performedCommands (e :: t) = e.performed?.toList ++ performedCommands t := by
  cases e <;> rfl

@[simp] theorem performedCommands_append :
    performedCommands (s ++ t) = performedCommands s ++ performedCommands t :=
  List.filterMap_append

@[simp] theorem linesOf_nil : linesOf ([] : List (GatewayEvent α ρ)) = [] := rfl

@[simp] theorem linesOf_cons : linesOf (e :: t) = e.line?.toList ++ linesOf t := by
  cases e <;> rfl

@[simp] theorem linesOf_append : linesOf (s ++ t) = linesOf s ++ linesOf t :=
  List.filterMap_append

@[simp] theorem sentCommands_sent :
    sentCommands (cs.map (GatewayEvent.sent (α := α))) = cs.map Command.resp := by
  induction cs with
  | nil => rfl
  | cons c cs ih => simp [ih]

@[simp] theorem performedCommands_sent :
    performedCommands (cs.map (GatewayEvent.sent (α := α))) = [] := by
  induction cs with
  | nil => rfl
  | cons c cs ih => simp [ih]

@[simp] theorem linesOf_sent :
    linesOf (cs.map (GatewayEvent.sent (α := α))) = [] := by
  induction cs with
  | nil => rfl
  | cons c cs ih => simp [ih]

end Traces

namespace TmuxGateway

/-- What a list of `sendCommand` calls leaves behind. -/
theorem sendCommands_eq (g : TmuxGateway α ρ σ) (cs : List (Command ρ)) :
    g.sendCommands cs =
      { g with commandQueue := g.commandQueue ++ cs.map Command.resp,
               trace := g.trace ++ cs.map .sent } := by
  induction cs generalizing g with
  | nil => simp [sendCommands]
  | cons c cs ih =>
      have : g.sendCommands (c :: cs) = (g.sendCommand c).sendCommands cs := rfl
      rw [this, ih]
      simp [sendCommand]

end TmuxGateway

section OneLine

variable [Octet α] (h : GatewayHandlers α ρ σ) (line : List α)

/-- What one call of `parseCommand` that returns can do. -/
inductive ParseStep (g : TmuxGateway α ρ σ) : TmuxGateway α ρ σ → Prop
  | strayEnd
      (hend : startsWith percentEnd line = true)
      (hcur : g.currentCommand.receiver = none) :
      ParseStep g (g.record (.line line))
  | finish (receiver : ρ)
      (hend : startsWith percentEnd line = true)
      (hcur : g.currentCommand.receiver = some receiver) :
      ParseStep g ((g.record (.line line)).finishCommand h receiver)
  | collect (receiver : ρ)
      (hend : startsWith percentEnd line = false)
      (hcur : g.currentCommand.receiver = some receiver) :
      ParseStep g { g.record (.line line) with
        currentCommandResponse := g.currentCommandResponse ++ line }
  | strayBegin
      (hend : startsWith percentEnd line = false)
      (hcur : g.currentCommand.receiver = none)
      (hbegin : startsWith percentBegin line = true)
      (hqueue : g.commandQueue = []) :
      ParseStep g (g.record (.line line))
  | begin (c : TmuxCmdResp ρ) (queue : List (TmuxCmdResp ρ))
      (hend : startsWith percentEnd line = false)
      (hcur : g.currentCommand.receiver = none)
      (hbegin : startsWith percentBegin line = true)
      (hqueue : g.commandQueue = c :: queue) :
      ParseStep g ((g.record (.line line)).beginCommand c queue)
  | dispatch (n : Notification)
      (hend : startsWith percentEnd line = false)
      (hcur : g.currentCommand.receiver = none)
      (hbegin : startsWith percentBegin line = false)
      (hn : notificationOf line = some n) :
      ParseStep g ((g.record (.line line)).dispatch h n line)

theorem parseCommand_cases {g g' : TmuxGateway α ρ σ} {rc : Int}
    (hp : TmuxGateway.parseCommand h line g = .ok rc g') :
    ParseStep h line g g' := by
  have hrec : (g.record (.line line)).currentCommand = g.currentCommand := rfl
  have hqueue : (g.record (.line line)).commandQueue = g.commandQueue := rfl
  simp only [TmuxGateway.parseCommand, hrec, hqueue] at hp
  by_cases hend : startsWith percentEnd line = true
  · simp only [hend, if_true] at hp
    cases hcur : g.currentCommand.receiver with
    | none =>
        simp only [hcur, EStateM.Result.ok.injEq] at hp
        rw [← hp.2]
        exact .strayEnd hend hcur
    | some receiver =>
        simp only [hcur, EStateM.Result.ok.injEq] at hp
        rw [← hp.2]
        exact .finish receiver hend hcur
  · have hend' : startsWith percentEnd line = false := by simpa using hend
    simp only [hend', Bool.false_eq_true, if_false] at hp
    cases hcur : g.currentCommand.receiver with
    | some receiver =>
        simp only [hcur, EStateM.Result.ok.injEq] at hp
        rw [← hp.2]
        exact .collect receiver hend' hcur
    | none =>
        simp only [hcur] at hp
        by_cases hbegin : startsWith percentBegin line = true
        · simp only [hbegin, if_true] at hp
          cases hq : g.commandQueue with
          | nil =>
              simp only [hq, EStateM.Result.ok.injEq] at hp
              rw [← hp.2]
              exact .strayBegin hend' hcur hbegin hq
          | cons c queue =>
              simp only [hq, EStateM.Result.ok.injEq] at hp
              rw [← hp.2]
              exact .begin c queue hend' hcur hbegin hq
        · have hbegin' : startsWith percentBegin line = false := by simpa using hbegin
          simp only [hbegin', Bool.false_eq_true, if_false] at hp
          cases hn : notificationOf line with
          | none => simp [hn] at hp
          | some n =>
              have hg : g' = (g.record (.line line)).dispatch h n line := by
                cases n <;> simp only [hn, EStateM.Result.ok.injEq] at hp <;> exact hp.2.symm
              rw [hg]
              exact .dispatch n hend' hcur hbegin' hn

end OneLine

section Conservation

variable [Octet α]

/-- The current command, if there is one. -/
def TmuxGateway.current (g : TmuxGateway α ρ σ) : List (TmuxCmdResp ρ) :=
  g.currentCommand.receiver.toList.map (fun r => ⟨some r, g.currentCommand.callback⟩)

/-- The response of every `performCallback` call is the concatenation of the
lines strictly between the `%begin` line that made the command current and the
next line that starts with `%end`. -/
def RepliesExact (trace : List (GatewayEvent α ρ)) : Prop :=
  ∀ t₁ t₂ receiver callback response,
    trace = t₁ ++ .performed receiver callback response :: t₂ →
    ∃ u b v e,
      t₁ = u ++ .line b :: .begun ⟨some receiver, callback⟩ :: (v ++ [.line e]) ∧
      startsWith percentBegin b = true ∧
      startsWith percentEnd e = true ∧
      (∀ x ∈ v, x.isBegun = false) ∧
      (∀ l ∈ linesOf v, startsWith percentEnd l = false) ∧
      response = (linesOf v).flatten

/-- The invariant of the gateway. -/
structure Conserved (g : TmuxGateway α ρ σ) : Prop where
  receivers : ∀ c ∈ g.commandQueue, c.receiver.isSome = true
  balance : sentCommands g.trace =
    performedCommands g.trace ++ g.current ++ g.commandQueue
  collecting : g.currentCommand.receiver.isSome = true →
    ∃ u b v, g.trace = u ++ .line b :: .begun g.currentCommand :: v ∧
      startsWith percentBegin b = true ∧
      (∀ x ∈ v, x.isBegun = false) ∧
      (∀ l ∈ linesOf v, startsWith percentEnd l = false) ∧
      g.currentCommandResponse = (linesOf v).flatten
  replies : RepliesExact g.trace

/-- Events other than callbacks do not matter for the replies. -/
theorem RepliesExact.append {trace new : List (GatewayEvent α ρ)}
    (h : RepliesExact trace) (hnew : performedCommands new = []) :
    RepliesExact (trace ++ new) := by
  intro t₁ t₂ receiver callback response heq
  have hnot : ∀ r, new ≠ r ++ .performed receiver callback response :: t₂ := by
    rintro r rfl
    simp [performedCommands, GatewayEvent.performed?] at hnew
  rcases List.append_eq_append_iff.mp heq with ⟨r, -, hr⟩ | ⟨r, hr, hr'⟩
  · exact absurd hr (hnot r)
  · cases r with
    | nil => exact absurd hr'.symm (hnot [])
    | cons x r =>
        simp only [List.cons_append, List.cons.injEq] at hr'
        obtain ⟨rfl, rfl⟩ := hr'
        exact h t₁ r receiver callback response hr

/-- A callback whose response is exact may be appended. -/
theorem RepliesExact.performed {trace : List (GatewayEvent α ρ)} (h : RepliesExact trace)
    {receiver : ρ} {callback : TmuxCbIndex} {response : List α}
    {u v : List (GatewayEvent α ρ)} {b e : List α}
    (htrace : trace = u ++ .line b :: .begun ⟨some receiver, callback⟩ :: (v ++ [.line e]))
    (hb : startsWith percentBegin b = true) (he : startsWith percentEnd e = true)
    (hv : ∀ x ∈ v, x.isBegun = false)
    (hl : ∀ l ∈ linesOf v, startsWith percentEnd l = false)
    (hr : response = (linesOf v).flatten) :
    RepliesExact (trace ++ [.performed receiver callback response]) := by
  intro t₁ t₂ r cb resp heq
  rcases List.eq_nil_or_concat t₂ with rfl | ⟨t₂, x, rfl⟩
  · obtain ⟨rfl, hlast⟩ := List.append_inj' heq rfl
    simp only [List.cons.injEq, GatewayEvent.performed.injEq, and_true] at hlast
    obtain ⟨rfl, rfl, rfl⟩ := hlast
    exact ⟨u, b, v, e, htrace, hb, he, hv, hl, hr⟩
  · rw [List.concat_eq_append, ← List.cons_append, ← List.append_assoc] at heq
    obtain ⟨htr, -⟩ := List.append_inj' heq rfl
    exact h t₁ t₂ r cb resp htr

/-- The fresh gateway. -/
theorem conserved_init (s : σ) : Conserved (TmuxGateway.init s : TmuxGateway α ρ σ) where
  receivers := by simp [TmuxGateway.init]
  balance := by simp [TmuxGateway.init, TmuxGateway.current]
  collecting := by simp [TmuxGateway.init]
  replies := by
    intro t₁ t₂ receiver callback response heq
    simp [TmuxGateway.init] at heq

/-- Commands issued at any time keep the invariant. -/
theorem Conserved.sendCommands {g : TmuxGateway α ρ σ} (hg : Conserved g)
    (cs : List (Command ρ)) : Conserved (g.sendCommands cs) := by
  rw [TmuxGateway.sendCommands_eq]
  refine ⟨?_, ?_, ?_, hg.replies.append (by simp)⟩
  · intro c hc
    rcases List.mem_append.mp hc with hc | hc
    · exact hg.receivers c hc
    · obtain ⟨d, -, rfl⟩ := List.mem_map.mp hc
      rfl
  · simp only [sentCommands_append, sentCommands_sent, performedCommands_append,
      performedCommands_sent, List.append_nil, hg.balance, List.append_assoc]
    rfl
  · intro hcur
    obtain ⟨u, b, v, ht, hb, hv, hl, hr⟩ := hg.collecting hcur
    refine ⟨u, b, v ++ cs.map .sent, by simp [ht], hb, ?_, by simpa using hl, by simpa using hr⟩
    intro x hx
    rcases List.mem_append.mp hx with hx | hx
    · exact hv x hx
    · obtain ⟨d, -, rfl⟩ := List.mem_map.mp hx
      rfl

/-- A line outside a reply that starts none only leaves its record. -/
theorem Conserved.record_line {g : TmuxGateway α ρ σ} (hg : Conserved g) (line : List α)
    (hcur : g.currentCommand.receiver = none) : Conserved (g.record (.line line)) where
  receivers := hg.receivers
  balance := by
    have hb := hg.balance
    simpa [TmuxGateway.record, TmuxGateway.current] using hb
  collecting := by simp [TmuxGateway.record, hcur]
  replies := hg.replies.append (by simp)

/-- A line inside a reply is collected. -/
theorem Conserved.collectLine {g : TmuxGateway α ρ σ} (hg : Conserved g) {line : List α}
    {receiver : ρ} (hend : startsWith percentEnd line = false)
    (hcur : g.currentCommand.receiver = some receiver) :
    Conserved { g.record (.line line) with
      currentCommandResponse := g.currentCommandResponse ++ line } := by
  obtain ⟨u, b, v, ht, hb, hv, hl, hr⟩ := hg.collecting (by simp [hcur])
  refine ⟨hg.receivers, ?_, fun _ => ?_, hg.replies.append (by simp)⟩
  · have hbal := hg.balance
    simpa [TmuxGateway.record, TmuxGateway.current] using hbal
  · refine ⟨u, b, v ++ [.line line], by simp [TmuxGateway.record, ht], hb, ?_, ?_,
      by simp [hr]⟩
    · intro x hx
      rcases List.mem_append.mp hx with hx | hx
      · exact hv x hx
      · rw [List.mem_singleton.mp hx]
        rfl
    · intro l hl'
      rw [linesOf_append] at hl'
      rcases List.mem_append.mp hl' with hl' | hl'
      · exact hl l hl'
      · have heq : l = line := by simpa using hl'
        rw [heq]
        exact hend

/-- A `%begin` line makes the first command of the queue current. -/
theorem Conserved.beginCommand {g : TmuxGateway α ρ σ} (hg : Conserved g) {line : List α}
    {c : TmuxCmdResp ρ} {queue : List (TmuxCmdResp ρ)}
    (hcur : g.currentCommand.receiver = none) (hbegin : startsWith percentBegin line = true)
    (hqueue : g.commandQueue = c :: queue) :
    Conserved ((g.record (.line line)).beginCommand c queue) := by
  have hc : c.receiver.isSome = true := hg.receivers c (by simp [hqueue])
  have htrace : ((g.record (.line line)).beginCommand c queue).trace =
      g.trace ++ [.line line, .begun c] := by
    simp [TmuxGateway.beginCommand, TmuxGateway.record]
  refine ⟨fun d hd => hg.receivers d ?_, ?_, fun _ => ?_, ?_⟩
  · rw [hqueue]
    exact List.mem_cons_of_mem c hd
  · have hbal := hg.balance
    obtain ⟨r, hr⟩ := Option.isSome_iff_exists.mp hc
    have hc' : c = ⟨some r, c.callback⟩ := by rw [← hr]
    simp only [TmuxGateway.current, hcur, hqueue, Option.toList_none, List.map_nil,
      List.append_nil] at hbal
    rw [htrace]
    simp only [sentCommands_append, performedCommands_append, hbal]
    simp [TmuxGateway.beginCommand, TmuxGateway.current, hr, ← hc']
  · exact ⟨g.trace, line, [], htrace, hbegin, by simp, by simp,
      by simp [TmuxGateway.beginCommand]⟩
  · rw [htrace]
    exact hg.replies.append (by simp)

/-- A line that starts with `%end` completes the current command. -/
theorem Conserved.finishCommand {g : TmuxGateway α ρ σ} (hg : Conserved g)
    (h : GatewayHandlers α ρ σ) {line : List α} {receiver : ρ}
    (hend : startsWith percentEnd line = true)
    (hcur : g.currentCommand.receiver = some receiver) :
    Conserved ((g.record (.line line)).finishCommand h receiver) := by
  obtain ⟨u, b, v, ht, hb, hv, hl, hr⟩ := hg.collecting (by simp [hcur])
  have hcmd : g.currentCommand = ⟨some receiver, g.currentCommand.callback⟩ := by
    rw [← hcur]
  -- the gateway as `performCallback` leaves it, before it issues commands
  have hdone : Conserved
      { g with
        state := (h.performCallback receiver g.currentCommand.callback
          g.currentCommandResponse g.state).1
        trace := g.trace ++ [.line line,
          .performed receiver g.currentCommand.callback g.currentCommandResponse]
        currentCommand := ⟨none, .indexMax⟩
        currentCommandResponse := [] } := by
    refine ⟨hg.receivers, ?_, by simp, ?_⟩
    · have hbal := hg.balance
      simpa [TmuxGateway.current, hcur] using hbal
    · have hline : RepliesExact (g.trace ++ [.line line]) := hg.replies.append (by simp)
      have htrace : g.trace ++ [.line line] = u ++ .line b ::
          .begun ⟨some receiver, g.currentCommand.callback⟩ :: (v ++ [.line line]) := by
        rw [ht, ← hcmd]
        simp
      have hlast := hline.performed htrace hb hend hv hl hr
      simpa using hlast
  have hsend := hdone.sendCommands (h.performCallback receiver
    g.currentCommand.callback g.currentCommandResponse g.state).2
  rw [TmuxGateway.sendCommands_eq] at hsend
  simpa [TmuxGateway.finishCommand, TmuxGateway.sendCommands_eq, TmuxGateway.record]
    using hsend

/-- A notification is dispatched, and its handler may issue commands. -/
theorem Conserved.dispatch {g : TmuxGateway α ρ σ} (hg : Conserved g)
    (h : GatewayHandlers α ρ σ) (n : Notification) {line : List α}
    (hcur : g.currentCommand.receiver = none) :
    Conserved ((g.record (.line line)).dispatch h n line) := by
  have hline := hg.record_line line hcur
  apply Conserved.sendCommands
  refine ⟨hline.receivers, ?_, by simp [TmuxGateway.record, hcur],
    hline.replies.append (by simp)⟩
  have hbal := hline.balance
  simpa [TmuxGateway.record, TmuxGateway.current] using hbal

/-- **One line keeps the invariant**, whatever it is. -/
theorem Conserved.parseStep {h : GatewayHandlers α ρ σ} {line : List α}
    {g g' : TmuxGateway α ρ σ} (hg : Conserved g) (hs : ParseStep h line g g') :
    Conserved g' := by
  cases hs with
  | strayEnd hend hcur => exact hg.record_line line hcur
  | finish receiver hend hcur => exact hg.finishCommand h hend hcur
  | collect receiver hend hcur => exact hg.collectLine hend hcur
  | strayBegin hend hcur hbegin hqueue => exact hg.record_line line hcur
  | begin c queue hend hcur hbegin hqueue => exact hg.beginCommand hcur hbegin hqueue
  | dispatch n hend hcur hbegin hn => exact hg.dispatch h n hcur

end Conservation

section Runs

variable [Octet α]

/-- What happens to a gateway from outside. -/
inductive GatewayInput (α ρ : Type) where
  | send (c : Command ρ)
  | line (bytes : List α)

/-- One `sendCommand` or `parseCommand` call. -/
def gatewayStep (h : GatewayHandlers α ρ σ) :
    GatewayInput α ρ → EStateM Fault (TmuxGateway α ρ σ) Unit
  | .send c => modify (fun g => g.sendCommand c)
  | .line bytes => do
      let _ ← TmuxGateway.parseCommand h bytes
      pure ()

/-- A sequence of calls, up to a line on which `parseCommand` aborts. -/
def gatewayRun (h : GatewayHandlers α ρ σ) :
    List (GatewayInput α ρ) → EStateM Fault (TmuxGateway α ρ σ) Unit
  | [] => pure ()
  | i :: is => do
      gatewayStep h i
      gatewayRun h is

/-- One call keeps the invariant. -/
theorem Conserved.gatewayStep {h : GatewayHandlers α ρ σ} {i : GatewayInput α ρ}
    {g g' : TmuxGateway α ρ σ} (hg : Conserved g)
    (hs : (gatewayStep h i).run g = .ok () g') : Conserved g' := by
  cases i with
  | send c =>
      simp only [Tmux.gatewayStep, EStateM.run_modify, EStateM.Result.ok.injEq,
        true_and] at hs
      subst hs
      exact hg.sendCommands [c]
  | line bytes =>
      simp only [Tmux.gatewayStep, EStateM.run_bind] at hs
      cases hp : (TmuxGateway.parseCommand h bytes).run g with
      | error e g₁ => simp [hp] at hs
      | ok rc g₁ =>
          simp only [hp, EStateM.run_pure, EStateM.Result.ok.injEq, true_and] at hs
          subst hs
          exact hg.parseStep (parseCommand_cases h bytes hp)

/-- Every run keeps the invariant. -/
theorem Conserved.gatewayRun {h : GatewayHandlers α ρ σ} {is : List (GatewayInput α ρ)}
    {g g' : TmuxGateway α ρ σ} (hg : Conserved g)
    (hr : (gatewayRun h is).run g = .ok () g') : Conserved g' := by
  induction is generalizing g with
  | nil =>
      simp only [Tmux.gatewayRun, EStateM.run_pure, EStateM.Result.ok.injEq,
        true_and] at hr
      exact hr ▸ hg
  | cons i is ih =>
      simp only [Tmux.gatewayRun, EStateM.run_bind] at hr
      cases hs : (Tmux.gatewayStep h i).run g with
      | error e g₁ => simp [hs] at hr
      | ok u g₁ =>
          rw [hs] at hr
          exact ih (hg.gatewayStep hs) hr

/-- **Command conservation.**  After any run of a fresh gateway, the commands
sent are the completed ones, the current one and the queue, in sending order;
callbacks are called in sending order, at most once for each command, and with
exactly the lines between `%begin` and the next `%end`. -/
theorem gatewayRun_conserves (h : GatewayHandlers α ρ σ) (is : List (GatewayInput α ρ))
    (s : σ) (g : TmuxGateway α ρ σ)
    (hr : (gatewayRun h is).run (TmuxGateway.init s) = .ok () g) :
    sentCommands g.trace = performedCommands g.trace ++ g.current ++ g.commandQueue ∧
      performedCommands g.trace <+: sentCommands g.trace ∧
      RepliesExact g.trace := by
  have hg := (conserved_init s).gatewayRun hr
  refine ⟨hg.balance, ?_, hg.replies⟩
  rw [hg.balance, List.append_assoc]
  exact List.prefix_append _ _

/-- Handlers that only answer a window list with a further command. -/
def followUpHandlers : GatewayHandlers UInt8 Unit Unit where
  notify _ _ s := (s, [])
  performCallback receiver callback _ s :=
    (s, if callback = .listWindows then [⟨receiver, .dumpHistory, ['c', '\n']⟩] else [])

/-- A window list and its reply. -/
def followUpInputs : List (GatewayInput UInt8 Unit) :=
  [.send ⟨(), .listWindows, ['l', '\n']⟩,
   .line (ascii ['%', 'b', 'e', 'g', 'i', 'n', ' ', '1', '\n']),
   .line (ascii ['@', '0', '\n']),
   .line (ascii ['%', 'e', 'n', 'd', ' ', '1', '\n'])]

theorem gatewayRun_conserves_followUp :
    ∃ g, (gatewayRun followUpHandlers followUpInputs).run (TmuxGateway.init ()) = .ok () g ∧
      performedCommands g.trace = [⟨some (), .listWindows⟩] ∧
      g.commandQueue = [⟨some (), .dumpHistory⟩] ∧
      sentCommands g.trace = performedCommands g.trace ++ g.current ++ g.commandQueue ∧
      performedCommands g.trace <+: sentCommands g.trace ∧
      RepliesExact g.trace :=
  ⟨_, rfl, rfl, rfl, gatewayRun_conserves followUpHandlers followUpInputs () _ rfl⟩

end Runs

end Tmux
end Qutty
