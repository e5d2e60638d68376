import Qutty.Events.Callback
import Qutty.Events.Timing

/-!
# Updates of the window

`puttysrc/terminal/terminal.c` paints the window from a callback, and not again before the timer
of a cooldown has run.  Timers also blink the text and the cursor and end the visual bell; all
of them call `term_timer`, which knows them by the time at which they are due.

The model puts the fields of `Terminal` for this beside the timers and the callbacks of the
program.  Where a step of those calls `term_timer` or `term_update_callback` for the terminal,
the function runs.
-/

namespace Qutty
namespace Events

open Lib

section Updates

variable (w : Nat) (φ γ : Type)

/-- Where the functions and the terminal are, and `CURSORBLINK`. -/
structure UpdateSetup where
  termTimer : φ
  termUpdateCallback : φ
  term : γ
  cursorblink : Int

/-- The fields of `Terminal` that are about updates, with the timers and callbacks of the
program. -/
structure Screen where
  windowUpdatePending : Bool
  windowUpdateCooldown : Bool
  windowUpdateCooldownEnd : BitVec w
  blinkIsReal : Bool
  tblinker : Bool
  tblinkPending : Bool
  nextTblink : BitVec w
  blinkCur : Bool
  hasFocus : Bool
  cblinker : Bool
  cblinkPending : Bool
  nextCblink : BitVec w
  inVbell : Bool
  vbellEnd : BitVec w
  timing : Timing w φ γ
  callbacks : Callbacks φ γ
  /-- How often `term_update_callback` has painted the window. -/
  updates : Nat

end Updates

/-- `UPDATE_DELAY`, for `TICKSPERSEC` of 1000 as the two below. -/
def updateDelay : Int := 20

/-- `TBLINK_DELAY`. -/
def tblinkDelay : Int := 450

/-- `VBELL_DELAY`. -/
def vbellDelay : Int := 100

section Functions

variable {w : Nat} {φ γ : Type} [LinearOrder φ] [LinearOrder γ]

/-- What `schedule_timer` returns. -/
def Timing.when (m : Timing w φ γ) (ticks : Int) : BitVec w :=
  let when := BitVec.ofInt w ticks + m.getTickCount
  if when - m.getTickCount = 0 then m.getTickCount + 1 else when

namespace Screen

variable (a : UpdateSetup φ γ) (s : Screen w φ γ)

/-- A timer for `term_timer`. -/
def setTimer (ticks : Int) : Screen w φ γ :=
  { s with timing := s.timing.scheduleTimer ticks a.termTimer a.term }

/-- `term_update`, which paints the window. -/
def termUpdate : Screen w φ γ :=
  { s with windowUpdatePending := false }

/-- `term_update_callback`. -/
def termUpdateCallback : Screen w φ γ :=
  if s.windowUpdatePending = false then s
  else if s.windowUpdateCooldown = false then
    { s.termUpdate.setTimer a updateDelay with
      windowUpdateCooldown := true
      windowUpdateCooldownEnd := s.timing.when updateDelay
      updates := s.updates + 1 }
  else s

/-- `term_schedule_update`. -/
def termScheduleUpdate : Screen w φ γ :=
  if s.windowUpdatePending = false then
    { s with
      windowUpdatePending := true
      callbacks := s.callbacks.queueToplevelCallback ⟨.other a.termUpdateCallback, a.term⟩ }
  else s

/-- `term_schedule_tblink`. -/
def termScheduleTblink : Screen w φ γ :=
  if s.blinkIsReal then
    if s.tblinkPending then s
    else
      { s.setTimer a tblinkDelay with
        nextTblink := s.timing.when tblinkDelay
        tblinkPending := true }
  else { s with tblinker := true, tblinkPending := false }

/-- `term_schedule_cblink`. -/
def termScheduleCblink : Screen w φ γ :=
  if s.blinkCur && s.hasFocus then
    if s.cblinkPending then s
    else
      { s.setTimer a a.cursorblink with
        nextCblink := s.timing.when a.cursorblink
        cblinkPending := true }
  else { s with cblinker := true, cblinkPending := false }

/-- `term_schedule_vbell`, for the ticks that have already gone. -/
def termScheduleVbell (ticksAlreadyGone : Int) : Screen w φ γ :=
  if ticksAlreadyGone < vbellDelay then
    { s.setTimer a (vbellDelay - ticksAlreadyGone) with
      inVbell := true
      vbellEnd := s.timing.when (vbellDelay - ticksAlreadyGone) }
  else { s with inVbell := false }

/-- `seen_disp_event`, without the scrollback. -/
def seenDispEvent : Screen w φ γ :=
  ({ s with cblinker := true, cblinkPending := false }.termScheduleCblink a).termScheduleUpdate a

/-- The part of `term_timer` for blinking text. -/
def timeTblink (now : BitVec w) : Screen w φ γ :=
  if s.tblinkPending ∧ now = s.nextTblink then
    { { s with tblinker := !s.tblinker, tblinkPending := false }.termScheduleTblink a with
      windowUpdatePending := true }
  else s

/-- The part of `term_timer` for the cursor. -/
def timeCblink (now : BitVec w) : Screen w φ γ :=
  if s.cblinkPending ∧ now = s.nextCblink then
    { { s with cblinker := !s.cblinker, cblinkPending := false }.termScheduleCblink a with
      windowUpdatePending := true }
  else s

/-- The part of `term_timer` for the visual bell. -/
def timeVbell (now : BitVec w) : Screen w φ γ :=
  if s.inVbell ∧ now = s.vbellEnd then { s with inVbell := false, windowUpdatePending := true }
  else s

/-- The part of `term_timer` for the cooldown. -/
def timeCooldown (now : BitVec w) : Screen w φ γ :=
  if s.windowUpdateCooldown ∧ now = s.windowUpdateCooldownEnd then
    { s with windowUpdateCooldown := false }
  else s

/-- `term_timer`.  `term_update_callback` looks at `window_update_pending` too. -/
def termTimer (now : BitVec w) : Screen w φ γ :=
  ((((s.timeTblink a now).timeCblink a now).timeVbell now).timeCooldown now).termUpdateCallback a

end Screen

/-- What happens to the terminal: there is something to show, text begins or ceases to blink,
the cursor does, the focus comes or goes, a bell begins, or the window is painted whether or not
the cooldown is over. -/
inductive TermEvent where
  | dispEvent
  | scheduleUpdate
  | blinkText (real : Bool)
  | blinkCursor (blinks : Bool)
  | setFocus (hasFocus : Bool)
  | vbell (ticksAlreadyGone : Int)
  | update

/-- What happens to the terminal, the timers and the callbacks. -/
inductive ScreenEvent (φ γ : Type) where
  | term (e : TermEvent)
  | timing (e : TimingEvent φ γ)
  | callback (e : CallbackEvent φ γ)

namespace Screen

variable (a : UpdateSetup φ γ) (s : Screen w φ γ)

def termStep : TermEvent → Screen w φ γ
  | .dispEvent => s.seenDispEvent a
  | .scheduleUpdate => s.termScheduleUpdate a
  | .blinkText real => { s with blinkIsReal := real }.termScheduleTblink a
  | .blinkCursor blinks => { s with blinkCur := blinks }.termScheduleCblink a
  | .setFocus hasFocus => { s with hasFocus := hasFocus }.termScheduleCblink a
  | .vbell ticksAlreadyGone => s.termScheduleVbell a ticksAlreadyGone
  | .update => s.termUpdate

/-- The timers after a step; if `run_timers` has called `term_timer`, this runs. -/
def afterTiming (m : Timing w φ γ) : Screen w φ γ :=
  let next := { s with timing := m }
  match m.calls.drop s.timing.calls.length with
  | (fn, ctx, now) :: _ =>
      if fn = a.termTimer ∧ ctx = a.term then next.termTimer a now else next
  | [] => next

/-- The callbacks after a step; if `term_update_callback` has been called, this runs. -/
def afterCallbacks (c : Callbacks φ γ) : Screen w φ γ :=
  let next := { s with callbacks := c }
  match c.calls.drop s.callbacks.calls.length with
  | cb :: _ =>
      if cb = ⟨.other a.termUpdateCallback, a.term⟩ then next.termUpdateCallback a else next
  | [] => next

end Screen

/-- A step.  Between two callbacks of a loop, nothing else runs. -/
def screenStep (a : UpdateSetup φ γ) (s : Screen w φ γ) :
    ScreenEvent φ γ → Option (Screen w φ γ)
  | .term e => if s.callbacks.frames.head? = some .loop then none else some (s.termStep a e)
  | .timing e =>
      if s.callbacks.frames.head? = some .loop then none
      else (timingStep s.timing e).map (s.afterTiming a)
  | .callback e => (callbackStep s.callbacks e).map (s.afterCallbacks a)

/-- `term_init`, in a program without timers and callbacks. -/
def Screen.start (w clock : Nat) (ics : γ → IdempotentCallback φ γ) : Screen w φ γ where
  windowUpdatePending := false
  windowUpdateCooldown := false
  windowUpdateCooldownEnd := 0
  blinkIsReal := false
  tblinker := false
  tblinkPending := false
  nextTblink := 0
  blinkCur := false
  hasFocus := false
  cblinker := false
  cblinkPending := false
  nextCblink := 0
  inVbell := false
  vbellEnd := 0
  timing := .start w φ γ clock
  callbacks := .start ics
  updates := 0

end Functions

end Events
end Qutty
