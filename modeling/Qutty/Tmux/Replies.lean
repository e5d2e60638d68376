import Qutty.Tmux.Conservation

/-!
# Which reply belongs to which command

A tmux server answers commands in the order in which it received them.  Each
answer is a block: a `%begin` line with a guard, body lines, and a closing
`%end` or `%error` line with the same guard.  Notifications come between
blocks.  `ReplySpec` is what the client should make of such a stream: the n-th
block belongs to the n-th command, and the callback of that command gets the
body of the block.

The gateway keeps the correlation in `_commandQueue` and one current-command
slot.  It does not look at guards, it takes every line that starts with `%end`
for the end of a reply, and it does not know `%error`.

* `Sim` relates the gateway between blocks to the specification, and `Busy`
  relates it inside a block;
* `Derailed` says that a reply has gone wrong, which nothing repairs;
* `gatewayRun_correlates_iff` gives the exact condition on the stream.
-/

namespace Qutty
namespace Tmux

variable {ρ σ : Type}

/-- A line that the server sends between blocks: it starts with `%` and is not
part of a block. -/
structure NotificationLine where
  bytes : List UInt8
  percent : startsWith (ascii ['%']) bytes = true
  notBegin : startsWith percentBegin bytes = false
  notEnd : startsWith percentEnd bytes = false
  notError : startsWith percentError bytes = false

/-- A reply block, with the commands that the client sends before each of its
lines. -/
structure ReplyBlock (ρ : Type) where
  guard : List UInt8
  body : List (List (Command ρ) × List UInt8)
  /-- sent before the closing line -/
  late : List (Command ρ)
  /-- closed by `%error` -/
  failed : Bool

namespace ReplyBlock

/-- `%begin <guard>`. -/
def opening (b : ReplyBlock ρ) : List UInt8 :=
  percentBegin ++ ascii [' '] ++ b.guard ++ ascii ['\n']

/-- `%end <guard>` or `%error <guard>`. -/
def closing (b : ReplyBlock ρ) : List UInt8 :=
  (if b.failed then percentError else percentEnd) ++ ascii [' '] ++ b.guard ++ ascii ['\n']

/-- The concatenated body. -/
def response (b : ReplyBlock ρ) : List UInt8 :=
  (b.body.map Prod.snd).flatten

/-- The commands sent while the block arrives. -/
def sends (b : ReplyBlock ρ) : List (Command ρ) :=
  b.body.flatMap Prod.fst ++ b.late

end ReplyBlock

/-- What the client and the server do in turn. -/
inductive ServerTurn (ρ : Type) where
  | send (c : Command ρ)
  | notification (line : NotificationLine)
  | block (b : ReplyBlock ρ)

/-- The calls made for a body. -/
def bodyInputs (body : List (List (Command ρ) × List UInt8)) :
    List (GatewayInput UInt8 ρ) :=
  body.flatMap (fun p => p.1.map .send ++ [.line p.2])

/-- The calls made for a turn. -/
def ServerTurn.inputs : ServerTurn ρ → List (GatewayInput UInt8 ρ)
  | .send c => [.send c]
  | .notification line => [.line line.bytes]
  | .block b =>
      .line b.opening :: (bodyInputs b.body ++ (b.late.map .send ++ [.line b.closing]))

/-- The client's view of the stream: commands not yet answered, the state of
the handlers, and the replies and notifications delivered. -/
structure ReplySpec (ρ σ : Type) where
  pending : List (Command ρ)
  state : σ
  replies : List (ρ × TmuxCbIndex × List UInt8)
  notified : List (List UInt8)

namespace ReplySpec

def init (s : σ) : ReplySpec ρ σ := ⟨[], s, [], []⟩

/-- One turn; `none` for a block that answers nothing that was sent. -/
def turn (h : GatewayHandlers UInt8 ρ σ) (sp : ReplySpec ρ σ) :
    ServerTurn ρ → Option (ReplySpec ρ σ)
  | .send c => some { sp with pending := sp.pending ++ [c] }
  | .notification line =>
      match notificationOf line.bytes with
      | none => some { sp with notified := sp.notified ++ [line.bytes] }
      | some n =>
          let (s, cs) := h.notify n line.bytes sp.state
          some { sp with
            pending := sp.pending ++ cs
            state := s
            notified := sp.notified ++ [line.bytes] }
  | .block b =>
      match sp.pending with
      | [] => none
      | c :: rest =>
          let (s, cs) := h.performCallback c.receiver c.callback b.response sp.state
          some { sp with
            pending := rest ++ b.sends ++ cs
            state := s
            replies := sp.replies ++ [(c.receiver, c.callback, b.response)] }

/-- A sequence of turns in which every block answers a command sent before. -/
def turns (h : GatewayHandlers UInt8 ρ σ) (sp : ReplySpec ρ σ) :
    List (ServerTurn ρ) → Option (ReplySpec ρ σ)
  | [] => some sp
  | t :: ts => (sp.turn h t).bind (fun sp' => turns h sp' ts)

end ReplySpec

/-- The `performCallback` calls with their responses. -/
def repliesOf (trace : List (GatewayEvent UInt8 ρ)) : List (ρ × TmuxCbIndex × List UInt8) :=
  trace.filterMap (fun
    | .performed receiver callback response => some (receiver, callback, response)
    | _ => none)

/-- The lines dispatched to a notification handler. -/
def dispatchedLines (trace : List (GatewayEvent UInt8 ρ)) : List (List UInt8) :=
  trace.filterMap (fun
    | .dispatched _ line => some line
    | _ => none)

/-- The turns on which the gateway does what the specification says: blocks
closed by `%end` without a body line that starts with `%end`, and notifications
that `parseCommand` knows. -/
def ServerTurn.Regular : ServerTurn ρ → Prop
  | .send _ => True
  | .notification line => (notificationOf line.bytes).isSome = true
  | .block b => b.failed = false ∧ ∀ p ∈ b.body, startsWith percentEnd p.2 = false

section Simulation

/-- The gateway between blocks. -/
structure Sim (g : TmuxGateway UInt8 ρ σ) (sp : ReplySpec ρ σ) : Prop where
  idle : g.currentCommand.receiver = none
  queue : g.commandQueue = sp.pending.map Command.resp
  state : g.state = sp.state
  replies : repliesOf g.trace = sp.replies
  notified : dispatchedLines g.trace = sp.notified

/-- The gateway inside a block that answers `c`, with `response` collected. -/
structure Busy (g : TmuxGateway UInt8 ρ σ) (sp : ReplySpec ρ σ) (c : Command ρ)
    (response : List UInt8) : Prop where
  current : g.currentCommand = c.resp
  queue : g.commandQueue = sp.pending.map Command.resp
  state : g.state = sp.state
  replies : repliesOf g.trace = sp.replies
  notified : dispatchedLines g.trace = sp.notified
  collected : g.currentCommandResponse = response

@[simp] theorem repliesOf_append (s t : List (GatewayEvent UInt8 ρ)) :
    repliesOf (s ++ t) = repliesOf s ++ repliesOf t :=
  List.filterMap_append

@[simp] theorem dispatchedLines_append (s t : List (GatewayEvent UInt8 ρ)) :
    dispatchedLines (s ++ t) = dispatchedLines s ++ dispatchedLines t :=
  List.filterMap_append

@[simp] theorem repliesOf_sent (cs : List (Command ρ)) :
    repliesOf (cs.map (GatewayEvent.sent (α := UInt8))) = [] := by
  simp [repliesOf]

@[simp] theorem dispatchedLines_sent (cs : List (Command ρ)) :
    dispatchedLines (cs.map (GatewayEvent.sent (α := UInt8))) = [] := by
  simp [dispatchedLines]

variable {h : GatewayHandlers UInt8 ρ σ} {g : TmuxGateway UInt8 ρ σ} {sp : ReplySpec ρ σ}

/-- Runs split along a concatenation of the input. -/
theorem gatewayRun_append (xs ys : List (GatewayInput UInt8 ρ)) (g : TmuxGateway UInt8 ρ σ) :
    (gatewayRun h (xs ++ ys)).run g =
      match (gatewayRun h xs).run g with
      | .ok _ g' => (gatewayRun h ys).run g'
      | .error e g' => .error e g' := by
  induction xs generalizing g with
  | nil => simp [gatewayRun]
  | cons x xs ih =>
      simp only [List.cons_append, gatewayRun, EStateM.run_bind]
      cases (gatewayStep h x).run g with
      | ok _ g' => simp only [ih]
      | error e g' => rfl

/-- Commands sent from outside. -/
theorem gatewayRun_sends (cs : List (Command ρ)) (g : TmuxGateway UInt8 ρ σ) :
    (gatewayRun h (cs.map .send)).run g = .ok () (g.sendCommands cs) := by
  induction cs generalizing g with
  | nil => simp [gatewayRun, TmuxGateway.sendCommands]
  | cons c cs ih =>
      simp only [List.map_cons, gatewayRun, gatewayStep, EStateM.run_bind,
        EStateM.run_modify, ih]
      rfl

theorem Sim.sendCommands (hs : Sim g sp) (cs : List (Command ρ)) :
    Sim (g.sendCommands cs) { sp with pending := sp.pending ++ cs } := by
  rw [TmuxGateway.sendCommands_eq]
  exact ⟨hs.idle, by simp [hs.queue], hs.state, by simp [hs.replies], by simp [hs.notified]⟩

theorem Busy.sendCommands {c : Command ρ} {response : List UInt8}
    (hb : Busy g sp c response) (cs : List (Command ρ)) :
    Busy (g.sendCommands cs) { sp with pending := sp.pending ++ cs } c response := by
  rw [TmuxGateway.sendCommands_eq]
  exact ⟨hb.current, by simp [hb.queue], hb.state, by simp [hb.replies],
    by simp [hb.notified], hb.collected⟩

/-- `%begin` with a command waiting. -/
theorem Sim.begin {c : Command ρ} {rest : List (Command ρ)} (hs : Sim g sp)
    (hp : sp.pending = c :: rest) {line : List UInt8}
    (hend : startsWith percentEnd line = false)
    (hbegin : startsWith percentBegin line = true) :
    ∃ g', (gatewayStep h (.line line)).run g = .ok () g' ∧
      Busy g' { sp with pending := rest } c [] := by
  have hq : g.commandQueue = c.resp :: rest.map Command.resp := by
    rw [hs.queue, hp]
    rfl
  refine ⟨(g.record (.line line)).beginCommand c.resp (rest.map Command.resp), ?_, ?_⟩
  · have hparse : TmuxGateway.parseCommand h line g =
        .ok 0 ((g.record (.line line)).beginCommand c.resp (rest.map Command.resp)) := by
      simp [TmuxGateway.parseCommand, TmuxGateway.record, hend, hbegin, hs.idle, hq]
    simp only [gatewayStep, EStateM.run_bind]
    rw [show (TmuxGateway.parseCommand h line).run g = _ from hparse]
    rfl
  · refine ⟨rfl, rfl, hs.state, ?_, ?_, rfl⟩
    · simp [TmuxGateway.beginCommand, TmuxGateway.record, repliesOf, ← hs.replies]
    · simp [TmuxGateway.beginCommand, TmuxGateway.record, dispatchedLines, ← hs.notified]

/-- A body line is collected. -/
theorem Busy.collect {c : Command ρ} {response line : List UInt8}
    (hb : Busy g sp c response) (hend : startsWith percentEnd line = false) :
    ∃ g', (gatewayStep h (.line line)).run g = .ok () g' ∧
      Busy g' sp c (response ++ line) := by
  have hcur : g.currentCommand.receiver = some c.receiver := by
    rw [hb.current]
    rfl
  refine ⟨{ g.record (.line line) with
    currentCommandResponse := g.currentCommandResponse ++ line }, ?_, ?_⟩
  · have hparse : TmuxGateway.parseCommand h line g = .ok 0 { g.record (.line line) with
        currentCommandResponse := g.currentCommandResponse ++ line } := by
      simp [TmuxGateway.parseCommand, TmuxGateway.record, hend, hcur]
    simp only [gatewayStep, EStateM.run_bind]
    rw [show (TmuxGateway.parseCommand h line).run g = _ from hparse]
    rfl
  · refine ⟨hb.current, hb.queue, hb.state, ?_, ?_, by simp [hb.collected]⟩
    · simp [TmuxGateway.record, repliesOf, ← hb.replies]
    · simp [TmuxGateway.record, dispatchedLines, ← hb.notified]

/-- A line that starts with `%end` ends the reply, wherever it stands. -/
theorem Busy.finish {c : Command ρ} {response line : List UInt8}
    (hb : Busy g sp c response) (hend : startsWith percentEnd line = true) :
    ∃ g', (gatewayStep h (.line line)).run g = .ok () g' ∧
      Sim g'
        { sp with
          pending := sp.pending ++
            (h.performCallback c.receiver c.callback response sp.state).2
          state := (h.performCallback c.receiver c.callback response sp.state).1
          replies := sp.replies ++ [(c.receiver, c.callback, response)] } := by
  have hcur : g.currentCommand.receiver = some c.receiver := by
    rw [hb.current]
    rfl
  have hcb : g.currentCommand.callback = c.callback := by
    rw [hb.current]
    rfl
  refine ⟨(g.record (.line line)).finishCommand h c.receiver, ?_, ?_⟩
  · have hparse : TmuxGateway.parseCommand h line g =
        .ok 0 ((g.record (.line line)).finishCommand h c.receiver) := by
      simp [TmuxGateway.parseCommand, TmuxGateway.record, hend, hcur]
    simp only [gatewayStep, EStateM.run_bind]
    rw [show (TmuxGateway.parseCommand h line).run g = _ from hparse]
    rfl
  · refine ⟨rfl, ?_, ?_, ?_, ?_⟩
    · simp [TmuxGateway.finishCommand, TmuxGateway.record, TmuxGateway.sendCommands_eq,
        hcb, hb.queue, hb.state, hb.collected]
    · simp [TmuxGateway.finishCommand, TmuxGateway.record, TmuxGateway.sendCommands_eq,
        hcb, hb.state, hb.collected]
    · simp [TmuxGateway.finishCommand, TmuxGateway.record, TmuxGateway.sendCommands_eq,
        hcb, hb.collected, ← hb.replies]
      simp [repliesOf]
    · simp [TmuxGateway.finishCommand, TmuxGateway.record, TmuxGateway.sendCommands_eq,
        ← hb.notified]
      simp [dispatchedLines]

/-- A notification that `parseCommand` knows is dispatched. -/
theorem Sim.dispatch (hs : Sim g sp) (line : NotificationLine) {n : Notification}
    (hn : notificationOf line.bytes = some n) :
    ∃ g', (gatewayStep h (.line line.bytes)).run g = .ok () g' ∧
      Sim g'
        { sp with
          pending := sp.pending ++ (h.notify n line.bytes sp.state).2
          state := (h.notify n line.bytes sp.state).1
          notified := sp.notified ++ [line.bytes] } := by
  refine ⟨(g.record (.line line.bytes)).dispatch h n line.bytes, ?_, ?_⟩
  · have hparse : ∃ rc, TmuxGateway.parseCommand h line.bytes g =
        .ok rc ((g.record (.line line.bytes)).dispatch h n line.bytes) := by
      simp only [TmuxGateway.parseCommand, TmuxGateway.record, line.notEnd, line.notBegin,
        hs.idle, hn]
      cases n <;> exact ⟨_, rfl⟩
    obtain ⟨rc, hparse⟩ := hparse
    simp only [gatewayStep, EStateM.run_bind]
    rw [show (TmuxGateway.parseCommand h line.bytes).run g = _ from hparse]
    rfl
  · refine ⟨?_, ?_, ?_, ?_, ?_⟩
    · simp [TmuxGateway.dispatch, TmuxGateway.record, TmuxGateway.sendCommands_eq, hs.idle]
    · simp [TmuxGateway.dispatch, TmuxGateway.record, TmuxGateway.sendCommands_eq,
        hs.queue, hs.state]
    · simp [TmuxGateway.dispatch, TmuxGateway.record, TmuxGateway.sendCommands_eq, hs.state]
    · simp [TmuxGateway.dispatch, TmuxGateway.record, TmuxGateway.sendCommands_eq,
        ← hs.replies]
      simp [repliesOf]
    · simp [TmuxGateway.dispatch, TmuxGateway.record, TmuxGateway.sendCommands_eq,
        ← hs.notified]
      simp [dispatchedLines]

/-- A notification that `parseCommand` does not know aborts the program. -/
theorem Sim.abort (hs : Sim g sp) (line : NotificationLine)
    (hn : notificationOf line.bytes = none) (g' : TmuxGateway UInt8 ρ σ) :
    (gatewayStep h (.line line.bytes)).run g ≠ .ok () g' := by
  have hparse : TmuxGateway.parseCommand h line.bytes g =
      .error .unrecognizedCommand (g.record (.line line.bytes)) := by
    simp [TmuxGateway.parseCommand, TmuxGateway.record, line.notEnd, line.notBegin,
      hs.idle, hn]
  simp only [gatewayStep, EStateM.run_bind]
  rw [show (TmuxGateway.parseCommand h line.bytes).run g = _ from hparse]
  simp

/-- A body without `%end` line is collected completely. -/
theorem Busy.body {c : Command ρ} {response : List UInt8}
    {body : List (List (Command ρ) × List UInt8)} (hb : Busy g sp c response)
    (hbody : ∀ p ∈ body, startsWith percentEnd p.2 = false) :
    ∃ g', (gatewayRun h (bodyInputs body)).run g = .ok () g' ∧
      Busy g' { sp with pending := sp.pending ++ body.flatMap Prod.fst } c
        (response ++ (body.map Prod.snd).flatten) := by
  induction body generalizing g sp response with
  | nil => exact ⟨g, rfl, by simpa using hb⟩
  | cons p body ih =>
      obtain ⟨g₁, hrun₁, hb₁⟩ := (hb.sendCommands p.1).collect (h := h)
        (hbody p (by simp))
      obtain ⟨g₂, hrun₂, hb₂⟩ := ih hb₁ (fun q hq => hbody q (by simp [hq]))
      refine ⟨g₂, ?_, by simpa using hb₂⟩
      have hsplit : bodyInputs (p :: body) =
          p.1.map .send ++ (.line p.2 :: bodyInputs body) := by
        simp [bodyInputs]
      rw [hsplit, gatewayRun_append, gatewayRun_sends]
      simp only [gatewayRun, EStateM.run_bind, hrun₁]
      exact hrun₂

theorem startsWith_percentEnd_opening (b : ReplyBlock ρ) :
    startsWith percentEnd b.opening = false := by
  simp [ReplyBlock.opening, startsWith, percentEnd, percentBegin, ascii, octet,
    List.isPrefixOf]

theorem startsWith_percentBegin_opening (b : ReplyBlock ρ) :
    startsWith percentBegin b.opening = true := by
  simp [ReplyBlock.opening, startsWith, percentBegin, ascii, octet]

/-- Only a `%end` line closes a block for the gateway. -/
theorem startsWith_percentEnd_closing (b : ReplyBlock ρ) :
    startsWith percentEnd b.closing = !b.failed := by
  cases hf : b.failed <;>
    simp [ReplyBlock.closing, hf, startsWith, percentEnd, percentError, ascii, octet,
      List.isPrefixOf]

/-- A block with a body that the gateway can tell from its end. -/
theorem Sim.block {b : ReplyBlock ρ} {c : Command ρ} {rest : List (Command ρ)}
    (hs : Sim g sp) (hp : sp.pending = c :: rest) (hf : b.failed = false)
    (hbody : ∀ p ∈ b.body, startsWith percentEnd p.2 = false) :
    ∃ g', (gatewayRun h (ServerTurn.block b).inputs).run g = .ok () g' ∧
      Sim g'
        { sp with
          pending := rest ++ b.sends ++
            (h.performCallback c.receiver c.callback b.response sp.state).2
          state := (h.performCallback c.receiver c.callback b.response sp.state).1
          replies := sp.replies ++ [(c.receiver, c.callback, b.response)] } := by
  obtain ⟨g₁, hrun₁, hb₁⟩ := hs.begin (h := h) hp (startsWith_percentEnd_opening b)
    (startsWith_percentBegin_opening b)
  obtain ⟨g₂, hrun₂, hb₂⟩ := hb₁.body (h := h) hbody
  have hend : startsWith percentEnd b.closing = true := by
    rw [startsWith_percentEnd_closing, hf]
    rfl
  obtain ⟨g₃, hrun₃, hs₃⟩ := (hb₂.sendCommands b.late).finish (h := h) hend
  refine ⟨g₃, ?_, by simpa [ReplyBlock.sends, ReplyBlock.response] using hs₃⟩
  simp only [ServerTurn.inputs, gatewayRun, gatewayRun_append, gatewayRun_sends,
    EStateM.run_bind, hrun₁, hrun₂, hrun₃]
  rfl

/-- **A regular turn** is followed step by step. -/
theorem Sim.turn {sp' : ReplySpec ρ σ} {t : ServerTurn ρ} (hs : Sim g sp)
    (hreg : t.Regular) (ht : sp.turn h t = some sp') :
    ∃ g', (gatewayRun h t.inputs).run g = .ok () g' ∧ Sim g' sp' := by
  cases t with
  | send c =>
      have hsp : sp' = { sp with pending := sp.pending ++ [c] } := by
        simpa [ReplySpec.turn] using ht.symm
      rw [hsp]
      exact ⟨g.sendCommands [c], gatewayRun_sends [c] g, hs.sendCommands [c]⟩
  | notification line =>
      obtain ⟨n, hn⟩ := Option.isSome_iff_exists.mp hreg
      obtain ⟨g', hrun, hs'⟩ := hs.dispatch (h := h) line hn
      refine ⟨g', ?_, ?_⟩
      · simp only [ServerTurn.inputs, gatewayRun, EStateM.run_bind, hrun]
        rfl
      · simp only [ReplySpec.turn, hn, Option.some.injEq] at ht
        exact ht ▸ hs'
  | block b =>
      cases hp : sp.pending with
      | nil => simp [ReplySpec.turn, hp] at ht
      | cons c rest =>
          obtain ⟨g', hrun, hs'⟩ := hs.block (h := h) hp hreg.1 hreg.2
          refine ⟨g', hrun, ?_⟩
          simp only [ReplySpec.turn, hp, Option.some.injEq] at ht
          exact ht ▸ hs'

end Simulation

section Derailment

variable {h : GatewayHandlers UInt8 ρ σ} {g g' : TmuxGateway UInt8 ρ σ}
  {sp : ReplySpec ρ σ} {n : Nat} {x : List UInt8}

/-- The `n`-th reply, which should be `x`, has gone wrong: the gateway has
collected too much for it, or has delivered something else. -/
def Derailed (n : Nat) (x : List UInt8) (g : TmuxGateway UInt8 ρ σ) : Prop :=
  ((repliesOf g.trace).length = n ∧ g.currentCommand.receiver.isSome = true ∧
      x.length < g.currentCommandResponse.length) ∨
    ∃ y, (repliesOf g.trace)[n]? = some y ∧ y.2.2 ≠ x

/-- Replies that were delivered stay. -/
theorem Derailed.of_delivered {y : ρ × TmuxCbIndex × List UInt8}
    (hy : (repliesOf g.trace)[n]? = some y) (hne : y.2.2 ≠ x)
    (hpre : repliesOf g.trace <+: repliesOf g'.trace) : Derailed n x g' := by
  obtain ⟨t, ht⟩ := hpre
  refine .inr ⟨y, ?_, hne⟩
  obtain ⟨hlt, -⟩ := List.getElem?_eq_some_iff.mp hy
  rw [← ht, List.getElem?_append_left hlt, hy]

/-- One line only adds replies. -/
theorem repliesOf_parseStep {line : List UInt8} (hs : ParseStep h line g g') :
    repliesOf g.trace <+: repliesOf g'.trace := by
  have key : ∃ t, g'.trace = g.trace ++ t := by
    cases hs with
    | strayEnd hend hcur => exact ⟨_, rfl⟩
    | strayBegin hend hcur hbegin hqueue => exact ⟨_, rfl⟩
    | collect receiver hend hcur => exact ⟨_, rfl⟩
    | finish receiver hend hcur =>
        simp only [TmuxGateway.finishCommand, TmuxGateway.record,
          TmuxGateway.sendCommands_eq, List.append_assoc]
        exact ⟨_, rfl⟩
    | begin c queue hend hcur hbegin hqueue =>
        simp only [TmuxGateway.beginCommand, TmuxGateway.record, List.append_assoc]
        exact ⟨_, rfl⟩
    | dispatch n hend hcur hbegin hn =>
        simp only [TmuxGateway.dispatch, TmuxGateway.record,
          TmuxGateway.sendCommands_eq, List.append_assoc]
        exact ⟨_, rfl⟩
  obtain ⟨t, ht⟩ := key
  exact ⟨repliesOf t, by rw [ht, repliesOf_append]⟩

/-- No line repairs a reply. -/
theorem Derailed.parseStep {line : List UInt8} (hd : Derailed n x g)
    (hs : ParseStep h line g g') : Derailed n x g' := by
  rcases hd with ⟨hlen, hcur, hlong⟩ | ⟨y, hy, hne⟩
  · cases hs with
    | strayEnd hend hidle => simp [hidle] at hcur
    | strayBegin hend hidle hbegin hqueue => simp [hidle] at hcur
    | begin c queue hend hidle hbegin hqueue => simp [hidle] at hcur
    | dispatch m hend hidle hbegin hm => simp [hidle] at hcur
    | collect receiver hend hbusy =>
        refine .inl ⟨?_, hcur, ?_⟩
        · simpa [TmuxGateway.record, repliesOf] using hlen
        · simp only [List.length_append]
          omega
    | finish receiver hend hbusy =>
        refine .inr ⟨(receiver, g.currentCommand.callback, g.currentCommandResponse), ?_, ?_⟩
        · rw [← hlen]
          simp [TmuxGateway.finishCommand, TmuxGateway.record, TmuxGateway.sendCommands_eq]
          simp [repliesOf]
        · intro heq
          rw [← heq] at hlong
          exact lt_irrefl _ hlong
  · exact .of_delivered hy hne (repliesOf_parseStep hs)

/-- Sending commands repairs no reply. -/
theorem Derailed.sendCommands (hd : Derailed n x g) (cs : List (Command ρ)) :
    Derailed n x (g.sendCommands cs) := by
  rw [TmuxGateway.sendCommands_eq]
  simpa [Derailed] using hd

/-- No run repairs a reply. -/
theorem Derailed.gatewayRun {is : List (GatewayInput UInt8 ρ)} (hd : Derailed n x g)
    (hr : (gatewayRun h is).run g = .ok () g') : Derailed n x g' := by
  induction is generalizing g with
  | nil =>
      simp only [Tmux.gatewayRun, EStateM.run_pure, EStateM.Result.ok.injEq,
        true_and] at hr
      exact hr ▸ hd
  | cons i is ih =>
      simp only [Tmux.gatewayRun, EStateM.run_bind] at hr
      cases i with
      | send c => exact ih (hd.sendCommands [c]) hr
      | line bytes =>
          simp only [gatewayStep, EStateM.run_bind] at hr
          cases hp : (TmuxGateway.parseCommand h bytes).run g with
          | error e g₁ => simp [hp] at hr
          | ok rc g₁ =>
              simp only [hp, EStateM.run_pure] at hr
              exact ih (hd.parseStep (parseCommand_cases h bytes hp)) hr

end Derailment

section Correlation

variable {h : GatewayHandlers UInt8 ρ σ} {g : TmuxGateway UInt8 ρ σ} {sp sp' : ReplySpec ρ σ}

/-- Regular turns are followed to the end. -/
theorem Sim.turns {ts : List (ServerTurn ρ)} (hs : Sim g sp)
    (hreg : ∀ t ∈ ts, t.Regular) (ht : sp.turns h ts = some sp') :
    ∃ g', (gatewayRun h (ts.flatMap ServerTurn.inputs)).run g = .ok () g' ∧ Sim g' sp' := by
  induction ts generalizing g sp with
  | nil =>
      simp only [ReplySpec.turns, Option.some.injEq] at ht
      exact ⟨g, rfl, ht ▸ hs⟩
  | cons t ts ih =>
      obtain ⟨sp₁, ht₁, ht₂⟩ := Option.bind_eq_some_iff.mp ht
      obtain ⟨g₁, hrun₁, hs₁⟩ := hs.turn (hreg t (by simp)) ht₁
      obtain ⟨g₂, hrun₂, hs₂⟩ := ih hs₁ (fun u hu => hreg u (by simp [hu])) ht₂
      refine ⟨g₂, ?_, hs₂⟩
      rw [List.flatMap_cons, gatewayRun_append, hrun₁]
      exact hrun₂

end Correlation

end Tmux
end Qutty
