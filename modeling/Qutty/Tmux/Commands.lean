import Qutty.Basic

/-!
# Commands and replies in the tmux gateway

`TmuxGateway::sendCommand` and `TmuxGateway::parseCommand` of
`tmux/TmuxGateway.cpp`.  A command that is sent leaves its receiver and its
callback in `_commandQueue`.  A `%begin` line makes the front of the queue the
current command, the lines up to the next `%end` line are collected in
`_currentCommandResponse`, and `%end` calls `performCallback` with them.  Lines
outside a reply are notifications; an unknown one is `qFatal`.

The notification handlers and the callbacks are parameters
(`GatewayHandlers`): each works on a state of its own and issues a list of
further commands through `sendCommand`.  They return, and they do not call
`parseCommand`.

`trace` is a ghost record of the calls made.
-/

namespace Qutty
namespace Tmux

section Definitions

variable {α ρ σ : Type}

/-- `tmux_cb_index_t`. -/
inductive TmuxCbIndex where
  | null
  | listWindows
  | openListedWindows
  | dumpTermState
  | dumpHistory
  | dumpHistoryAlt
  | indexMax
deriving DecidableEq, Repr

/-- `TmuxCmdResp`; `none` is the null receiver. -/
structure TmuxCmdResp (ρ : Type) where
  receiver : Option ρ
  callback : TmuxCbIndex
deriving DecidableEq, Repr

/-- The arguments of a `sendCommand` call with a receiver that is not null. -/
structure Command (ρ : Type) where
  receiver : ρ
  callback : TmuxCbIndex
  text : List Char
deriving DecidableEq, Repr

/-- What `sendCommand` leaves in the queue. -/
def Command.resp (c : Command ρ) : TmuxCmdResp ρ :=
  ⟨some c.receiver, c.callback⟩

/-- The notifications that `parseCommand` knows. -/
inductive Notification where
  | output
  | noop
  | sessionsChanged
  | sessionChanged
  | windowRenamed
  | windowAdd
  | windowClose
  | exit
  | layoutChange
deriving DecidableEq, Repr

def percentEnd : List UInt8 := ascii ['%', 'e', 'n', 'd']

def percentBegin : List UInt8 := ascii ['%', 'b', 'e', 'g', 'i', 'n']

def percentError : List UInt8 := ascii ['%', 'e', 'r', 'r', 'o', 'r']

/-- The tests for notifications, in the order of the source. -/
def notificationTests : List (List UInt8 × Notification) :=
  [(ascii ['%', 'o', 'u', 't', 'p', 'u', 't', ' '], .output),
   (ascii ['%', 'n', 'o', 'o', 'p'], .noop),
   (ascii ['%', 's', 'e', 's', 's', 'i', 'o', 'n', 's', '-', 'c', 'h', 'a', 'n', 'g', 'e', 'd'],
     .sessionsChanged),
   (ascii ['%', 's', 'e', 's', 's', 'i', 'o', 'n', '-', 'c', 'h', 'a', 'n', 'g', 'e', 'd', ' '],
     .sessionChanged),
   (ascii ['%', 'w', 'i', 'n', 'd', 'o', 'w', '-', 'r', 'e', 'n', 'a', 'm', 'e', 'd', ' '],
     .windowRenamed),
   (ascii ['%', 'w', 'i', 'n', 'd', 'o', 'w', '-', 'a', 'd', 'd', ' '], .windowAdd),
   (ascii ['%', 'w', 'i', 'n', 'd', 'o', 'w', '-', 'c', 'l', 'o', 's', 'e', ' '], .windowClose),
   (ascii ['%', 'e', 'x', 'i', 't', ' '], .exit),
   (ascii ['%', 'e', 'x', 'i', 't', '\n'], .exit),
   (ascii ['%', 'l', 'a', 'y', 'o', 'u', 't', '-', 'c', 'h', 'a', 'n', 'g', 'e', ' '],
     .layoutChange)]

/-- The notification that a line is dispatched as, if any. -/
def notificationOf [Octet α] (line : List α) : Option Notification :=
  (notificationTests.find? (fun test => startsWith test.1 line)).map Prod.snd

/-- The notification handlers and the callbacks: new state and commands issued. -/
structure GatewayHandlers (α ρ σ : Type) where
  notify : Notification → List α → σ → σ × List (Command ρ)
  performCallback : ρ → TmuxCbIndex → List α → σ → σ × List (Command ρ)

/-- Ghost record of the calls made by and to the gateway. -/
inductive GatewayEvent (α ρ : Type) where
  | line (bytes : List α)
  | sent (c : Command ρ)
  | begun (c : TmuxCmdResp ρ)
  | performed (receiver : ρ) (callback : TmuxCbIndex) (response : List α)
  | dispatched (n : Notification) (bytes : List α)
deriving DecidableEq, Repr

/-- The fields of `TmuxGateway` that `parseCommand` works on. -/
structure TmuxGateway (α ρ σ : Type) where
  commandQueue : List (TmuxCmdResp ρ)
  currentCommand : TmuxCmdResp ρ
  currentCommandResponse : List α
  /-- what the handlers and callbacks work on -/
  state : σ
  trace : List (GatewayEvent α ρ)

namespace TmuxGateway

/-- `TmuxGateway::TmuxGateway`. -/
def init (s : σ) : TmuxGateway α ρ σ :=
  ⟨[], ⟨none, .indexMax⟩, [], s, []⟩

/-- Ghost step. -/
def record (g : TmuxGateway α ρ σ) (e : GatewayEvent α ρ) : TmuxGateway α ρ σ :=
  { g with trace := g.trace ++ [e] }

/-- `TmuxGateway::sendCommand`. -/
def sendCommand (g : TmuxGateway α ρ σ) (c : Command ρ) : TmuxGateway α ρ σ :=
  { g with commandQueue := g.commandQueue ++ [c.resp],
           trace := g.trace ++ [.sent c] }

/-- The `sendCommand` calls of a handler or a callback. -/
def sendCommands (g : TmuxGateway α ρ σ) (cs : List (Command ρ)) : TmuxGateway α ρ σ :=
  cs.foldl sendCommand g

/-- The `%end` branch of `parseCommand` with a current command. -/
def finishCommand (h : GatewayHandlers α ρ σ) (g : TmuxGateway α ρ σ) (receiver : ρ) :
    TmuxGateway α ρ σ :=
  let callback := g.currentCommand.callback
  let response := g.currentCommandResponse
  let (s, cs) := h.performCallback receiver callback response g.state
  let g := (({ g with state := s }).record
    (.performed receiver callback response)).sendCommands cs
  { g with currentCommand := ⟨none, .indexMax⟩, currentCommandResponse := [] }

/-- The `%begin` branch of `parseCommand` with a non-empty queue. -/
def beginCommand (g : TmuxGateway α ρ σ) (c : TmuxCmdResp ρ)
    (queue : List (TmuxCmdResp ρ)) : TmuxGateway α ρ σ :=
  { g with commandQueue := queue, currentCommand := c, currentCommandResponse := [],
           trace := g.trace ++ [.begun c] }

/-- The dispatch of a notification. -/
def dispatch (h : GatewayHandlers α ρ σ) (g : TmuxGateway α ρ σ) (n : Notification)
    (line : List α) : TmuxGateway α ρ σ :=
  let (s, cs) := h.notify n line g.state
  (({ g with state := s }).record (.dispatched n line)).sendCommands cs

/-- `TmuxGateway::parseCommand`.  In the `%begin` branch the source tests
`_currentCommand.receiver` once more and calls `qFatal`; the branch before it
has already excluded that. -/
def parseCommand [Octet α] (h : GatewayHandlers α ρ σ) (line : List α) :
    EStateM Fault (TmuxGateway α ρ σ) Int := fun g₀ =>
  let g := g₀.record (.line line)
  if startsWith percentEnd line then
    match g.currentCommand.receiver with
    | some receiver => .ok 0 (g.finishCommand h receiver)
    | none => .ok 0 g
  else
    match g.currentCommand.receiver with
    | some _ =>
        .ok 0 { g with currentCommandResponse := g.currentCommandResponse ++ line }
    | none =>
        if startsWith percentBegin line then
          match g.commandQueue with
          | [] => .ok 0 g
          | c :: queue => .ok 0 (g.beginCommand c queue)
        else
          match notificationOf line with
          | none => .error .unrecognizedCommand g
          | some .exit => .ok (-1) (g.dispatch h .exit line)
          | some n => .ok 0 (g.dispatch h n line)

end TmuxGateway

end Definitions

end Tmux
end Qutty
