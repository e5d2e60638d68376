import Qutty.Lib.OrderedList
import Qutty.Lib.Runs

/-!
# Timers

`puttysrc/timing.c` keeps the timers of the program in a tree, and `QtTimer.hpp` wakes the
program for the first of them.  A time is an `unsigned long` of `w` bits and wraps around; two
times are compared by their distance from the time that was read last.

The clock of the machine is a number of milliseconds, of which `GETTICKCOUNT` shows the lower
bits.  `run_timers` is split into its rounds: between two of them the function of a timer has
run, which may have done whatever the rest of the program may do.
-/

namespace Qutty
namespace Events

open Lib

section Timing

variable (w : Nat) (φ γ : Type)

/-- `struct timer`, for functions and contexts that have addresses. -/
structure Timer where
  fn : φ
  ctx : γ
  now : BitVec w
  whenSet : BitVec w
deriving DecidableEq

/-- The variables of `timing.c`, the timer of `QtTimer`, and the calls that have been made. -/
structure Timing where
  timers : List (Timer w φ γ)
  timerContexts : Finset γ
  now : BitVec w
  /-- The clock of the machine. -/
  clock : Nat
  /-- When the timer of `QtTimer` goes off, if it runs. -/
  timerId : Option Nat
  /-- How many calls of `run_timers` have not returned. -/
  running : Nat
  /-- The functions that `run_timers` has called, with their arguments. -/
  calls : List (φ × γ × BitVec w)

end Timing

namespace Timing

variable {w : Nat} {φ γ : Type} [LinearOrder φ] [LinearOrder γ]

/-- `compare_timers`. -/
def compareTimers (now : BitVec w) (a b : Timer w φ γ) : Ordering :=
  let ta := (a.now - now).toInt
  let tb := (b.now - now).toInt
  if ta < tb then .lt
  else if ta > tb then .gt
  else if a.fn < b.fn then .lt
  else if b.fn < a.fn then .gt
  else if a.ctx < b.ctx then .lt
  else if b.ctx < a.ctx then .gt
  else .eq

variable (s : Timing w φ γ)

/-- `GETTICKCOUNT`. -/
def getTickCount : BitVec w := BitVec.ofNat w s.clock

/-- `startTimerForTick`, which `timer_change_notify` calls. -/
def startTimerForTick (nextTick : BitVec w) : Timing w φ γ :=
  let ticks := (nextTick - s.getTickCount).toInt
  let ticks := if ticks ≤ 0 then 1 else ticks
  { s with timerId := some (s.clock + ticks.toNat) }

/-- `schedule_timer`.  The comparison with zero is one of unsigned numbers. -/
def scheduleTimer (ticks : Int) (fn : φ) (ctx : γ) : Timing w φ γ :=
  let now := s.getTickCount
  let due := BitVec.ofInt w ticks + now
  let due := if due - now = 0 then now + 1 else due
  let t : Timer w φ γ := ⟨fn, ctx, due, now⟩
  let added := insertBy (compareTimers now) t s.timers
  let s := { s with
    now := now
    timers := added.1
    timerContexts := if added.2 then insert ctx s.timerContexts else s.timerContexts }
  if added.2 ∧ s.timers.head? = some t then s.startTimerForTick t.now else s

/-- `expire_timer_context`. -/
def expireTimerContext (ctx : γ) : Timing w φ γ :=
  { s with timerContexts := s.timerContexts.erase ctx }

/-- `timerEvent`, up to the loop of `run_timers`. -/
def timerEvent : Timing w φ γ :=
  { s with timerId := none, running := s.running + 1, now := s.getTickCount }

/-- A round of the loop of `run_timers`, and what `timerEvent` does after the last one. -/
def round : Timing w φ γ :=
  match s.timers with
  | [] => { s with running := s.running - 1 }
  | first :: rest =>
      if first.ctx ∉ s.timerContexts then { s with timers := rest }
      else if s.now - (first.whenSet - 10) > first.now - (first.whenSet - 10) then
        { s with timers := rest, calls := s.calls ++ [(first.fn, first.ctx, first.now)] }
      else { s with running := s.running - 1 }.startTimerForTick first.now

end Timing

/-- What happens: time passes, the program sets a timer or gives up a context, the timer of
`QtTimer` goes off, or `run_timers` goes on. -/
inductive TimingEvent (φ γ : Type) where
  | pass (ms : Nat)
  | schedule (ticks : Int) (fn : φ) (ctx : γ)
  | expire (ctx : γ)
  | timerEvent
  | round

section Steps

variable {w : Nat} {φ γ : Type} [LinearOrder φ] [LinearOrder γ]

/-- A step of the program. -/
def timingStep (s : Timing w φ γ) : TimingEvent φ γ → Option (Timing w φ γ)
  | .pass ms => some { s with clock := s.clock + ms }
  | .schedule ticks fn ctx => some (s.scheduleTimer ticks fn ctx)
  | .expire ctx => some (s.expireTimerContext ctx)
  | .timerEvent => if s.timerId.any (· ≤ s.clock) then some s.timerEvent else none
  | .round => if 0 < s.running then some s.round else none

/-- The program before its first timer. -/
def Timing.start (w : Nat) (φ γ : Type) (clock : Nat) : Timing w φ γ where
  timers := []
  timerContexts := ∅
  now := BitVec.ofNat w clock
  clock := clock
  timerId := none
  running := 0
  calls := []

end Steps

section Agenda

/-- A timer in a time that does not wrap around. -/
structure Due (φ γ : Type) where
  fn : φ
  ctx : γ
  due : Nat
  whenSet : Nat
deriving DecidableEq

/-- What the timers are for: the functions that are to be called, by the time at which they are
due; what has been called, and when; and the timers that were given up with their contexts. -/
structure Agenda (φ γ : Type) where
  timers : List (Due φ γ)
  timerContexts : Finset γ
  now : Nat
  clock : Nat
  timerId : Option Nat
  running : Nat
  calls : List (Due φ γ × Nat)
  added : List (Due φ γ)
  dropped : List (Due φ γ)

namespace Agenda

variable {φ γ : Type} [LinearOrder φ] [LinearOrder γ]

def compareDue (a b : Due φ γ) : Ordering :=
  if a.due < b.due then .lt
  else if a.due > b.due then .gt
  else if a.fn < b.fn then .lt
  else if b.fn < a.fn then .gt
  else if a.ctx < b.ctx then .lt
  else if b.ctx < a.ctx then .gt
  else .eq

variable (s : Agenda φ γ)

def wakeFor (due : Nat) : Agenda φ γ :=
  { s with timerId := some (if due ≤ s.clock then s.clock + 1 else due) }

def schedule (ticks : Nat) (fn : φ) (ctx : γ) : Agenda φ γ :=
  let t : Due φ γ := ⟨fn, ctx, s.clock + max ticks 1, s.clock⟩
  let inserted := insertBy compareDue t s.timers
  let s := { s with
    now := s.clock
    timers := inserted.1
    timerContexts := if inserted.2 then insert ctx s.timerContexts else s.timerContexts
    added := if inserted.2 then s.added ++ [t] else s.added }
  if inserted.2 ∧ s.timers.head? = some t then s.wakeFor t.due else s

def round : Agenda φ γ :=
  match s.timers with
  | [] => { s with running := s.running - 1 }
  | first :: rest =>
      if first.ctx ∉ s.timerContexts then
        { s with timers := rest, dropped := s.dropped ++ [first] }
      else if first.due < s.now then
        { s with timers := rest, calls := s.calls ++ [(first, s.now)] }
      else { s with running := s.running - 1 }.wakeFor first.due

end Agenda

variable {φ γ : Type} [LinearOrder φ] [LinearOrder γ]

/-- A step of the agenda: no timer is set for a time more than `H` away, and none is left for
longer than `H` after it was due. -/
def agendaStep (H : Nat) (s : Agenda φ γ) : TimingEvent φ γ → Option (Agenda φ γ)
  | .pass ms =>
      if ∀ t ∈ s.timers, s.clock + ms ≤ t.due + H then some { s with clock := s.clock + ms }
      else none
  | .schedule ticks fn ctx =>
      if 0 ≤ ticks ∧ ticks ≤ H then some (s.schedule ticks.toNat fn ctx) else none
  | .expire ctx => some { s with timerContexts := s.timerContexts.erase ctx }
  | .timerEvent =>
      if s.timerId.any (· ≤ s.clock) then
        some { s with timerId := none, running := s.running + 1, now := s.clock }
      else none
  | .round => if 0 < s.running then some s.round else none

def Agenda.start (φ γ : Type) (clock : Nat) : Agenda φ γ where
  timers := []
  timerContexts := ∅
  now := clock
  clock := clock
  timerId := none
  running := 0
  calls := []
  added := []
  dropped := []

end Agenda

end Events
end Qutty
