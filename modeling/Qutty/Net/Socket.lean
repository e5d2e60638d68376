import Qutty.Lib.Runs

/-!
# The socket

`QtSocket` of `QtNet.cpp`: what is written, parked and passed on to the `QTcpSocket`, and
what has arrived and is read.

The plug runs inside the callbacks of the socket, `plug_log` and `plug_receive`.  There it
may write, freeze and thaw, and an event loop that it starts may bring further events.  So
a step is one call or event, whoever makes it, or the return of the innermost callback,
and `stack` holds the callbacks that have not returned.

`given`, `passed`, `arrived`, `received` and `failed` are ghost records.
-/

namespace Qutty
namespace Net

/-- What has called `on_readyRead`: the signal, or `sk_tcp_set_frozen`. -/
inductive ReadCaller where
  | signal
  | thaw
deriving DecidableEq, Repr

/-- A callback of the plug that has not returned. -/
inductive Frame where
  /-- `plug_log(PLUGLOG_CONNECT_SUCCESS)` in `on_connected` -/
  | connectSuccess
  /-- `plug_log(PLUGLOG_CONNECT_FAILED)` in `on_error` -/
  | connectFailed
  /-- `plug_receive` in `on_readyRead` -/
  | receive (caller : ReadCaller)
deriving DecidableEq, Repr

/-- `QtSocket`. -/
structure QtSocket (α : Type) where
  connected : Bool
  writable : Bool
  frozen : Bool
  frozenReadable : Bool
  outputData : List α
  /-- the bytes that `bytesAvailable` counts -/
  buffer : List α
  /-- `readyRead` is being emitted, and is not emitted again inside -/
  emitting : Bool
  /-- the innermost callback first -/
  stack : List Frame
  /-- to `sk_tcp_write` -/
  given : List α
  /-- to `QTcpSocket::write` -/
  passed : List α
  arrived : List α
  /-- the calls of `plug_receive`, each with whether the socket was frozen -/
  received : List (Bool × List α)
  /-- there was an error -/
  failed : Bool
deriving DecidableEq, Repr

namespace QtSocket

variable {α : Type}

/-- `sk_new`. -/
def new : QtSocket α where
  connected := false
  writable := false
  frozen := false
  frozenReadable := false
  outputData := []
  buffer := []
  emitting := false
  stack := []
  given := []
  passed := []
  arrived := []
  received := []
  failed := false

/-- `QTcpSocket::write`. -/
def qtWrite (s : QtSocket α) (data : List α) : QtSocket α := { s with passed := s.passed ++ data }

/-- `sk_tcp_write`. -/
def skTcpWrite (s : QtSocket α) (data : List α) : QtSocket α :=
  let s := { s with given := s.given ++ data }
  if s.writable then s.qtWrite data else { s with outputData := s.outputData ++ data }

/-- `on_connected`, up to its callback. -/
def onConnected (s : QtSocket α) : QtSocket α :=
  { s with connected := true, writable := true, stack := .connectSuccess :: s.stack }

/-- `on_connected`, behind its callback. -/
def writeWaiting (s : QtSocket α) : QtSocket α :=
  { s.qtWrite s.outputData with outputData := [] }

/-- `on_error`, behind its callback. -/
def dropWaiting (s : QtSocket α) : QtSocket α := { s with connected := false, outputData := [] }

/-- `on_error`, up to its callback if it calls it. -/
def onError (s : QtSocket α) : QtSocket α :=
  let s := { s with writable := false, failed := true }
  if s.connected then s.dropWaiting else { s with stack := .connectFailed :: s.stack }

/-- `on_disconnected`. -/
def onDisconnected (s : QtSocket α) : QtSocket α := { s with connected := false, writable := false }

/-- The size of the buffer of `on_readyRead`. -/
def readSize : Nat := 20480

/-- One turn of the loop of `on_readyRead`, up to its callback. -/
def readLoop (s : QtSocket α) (caller : ReadCaller) : QtSocket α :=
  { s with
    buffer := s.buffer.drop readSize
    received := s.received ++ [(s.frozen, s.buffer.take readSize)]
    stack := .receive caller :: s.stack }

/-- What the caller of `on_readyRead` does next. -/
def afterReading (s : QtSocket α) : ReadCaller → QtSocket α
  | .signal => { s with emitting := false }
  | .thaw => { s with frozenReadable := false }

/-- `on_readyRead`. -/
def onReadyRead (s : QtSocket α) (caller : ReadCaller) : QtSocket α :=
  if s.frozen then { s with frozenReadable := true }.afterReading caller else s.readLoop caller

/-- Data arrive, and `readyRead` is emitted. -/
def arrive (s : QtSocket α) (data : List α) : QtSocket α :=
  let s := { s with buffer := s.buffer ++ data, arrived := s.arrived ++ data }
  if s.emitting then s else { s with emitting := true }.onReadyRead .signal

/-- `sk_tcp_set_frozen`. -/
def skTcpSetFrozen (s : QtSocket α) (isFrozen : Bool) : QtSocket α :=
  if s.frozen = isFrozen then s
  else
    let s := { s with frozen := isFrozen }
    if !isFrozen && s.frozenReadable then s.onReadyRead .thaw
    else { s with frozenReadable := false }

/-- The innermost callback returns. -/
def plugReturn (s : QtSocket α) : Option (QtSocket α) :=
  match s.stack with
  | [] => none
  | .connectSuccess :: stack => some { s with stack := stack }.writeWaiting
  | .connectFailed :: stack => some { s with stack := stack }.dropWaiting
  | .receive caller :: stack =>
      let s := { s with stack := stack }
      -- `frozen` is not looked at again
      some (if s.buffer.isEmpty then s.afterReading caller else s.readLoop caller)

end QtSocket

/-- A call or an event. -/
inductive Event (α : Type) where
  | write (data : List α)
  | connected
  | disconnected
  | error
  | arrive (data : List α)
  | setFrozen (isFrozen : Bool)
  | plugReturn
deriving Repr

/-- One step. -/
def QtSocket.step {α : Type} (s : QtSocket α) : Event α → Option (QtSocket α)
  | .write data => some (s.skTcpWrite data)
  | .connected => some s.onConnected
  | .disconnected => some s.onDisconnected
  | .error => some s.onError
  | .arrive data => some (s.arrive data)
  | .setFrozen isFrozen => some (s.skTcpSetFrozen isFrozen)
  | .plugReturn => s.plugReturn

end Net
end Qutty
