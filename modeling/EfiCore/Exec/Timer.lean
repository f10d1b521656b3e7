import EfiCore.Exec.Event
import EfiCore.Lib.Run
import EfiCore.Lib.SortedInsert

/-! # Timers

`timer.c`.  The list of the armed timers is kept in the order of their trigger times, and only its
head is looked at.  Times are sums of 64 bits, which wrap.

A call is one step.  Of `SignalEvent` only what it is called with is kept here; what it does is in
`EfiCore.Exec.Machine`.
-/

namespace EfiCore.Exec

open EfiCore.Lib

/-- `EFI_TIMER_DELAY`; the last one is `TimerTypeMax`, or above. -/
inductive TimerDelay where
  | cancel
  | periodic
  | relative
  | max
  deriving DecidableEq, Repr

/-- `Event->Timer`, with the type of the event. -/
structure EventTimer where
  type : BitVec 32
  triggerTime : BitVec 64
  period : BitVec 64
  /-- `Timer.Link.Flink ≠ NULL` -/
  link : Bool
  deriving DecidableEq, Repr

/-- The globals of `timer.c`. -/
structure TimerState where
  efiSystemTime : BitVec 64
  efiTimerList : List EventId
  /-- `EfiCheckTimerEvent` is signalled, and `CheckTimers` was not called since. -/
  checkSignalled : Bool
  efiAtRuntime : Bool
  events : EventId → Option EventTimer

namespace TimerState

/-- `InitializeTimer` -/
def initializeTimer : TimerState := ⟨0, [], false, false, fun _ => none⟩

def triggerTime (s : TimerState) (e : EventId) : Nat :=
  ((s.events e).map (·.triggerTime.toNat)).getD 0

def setTimerOf (s : TimerState) (e : EventId) (ev : EventTimer) : TimerState :=
  { s with events := Function.update s.events e (some ev) }

/-- `RemoveEntryList (&Event->Timer.Link)` -/
def removeLink (s : TimerState) (e : EventId) (ev : EventTimer) : TimerState :=
  { s.setTimerOf e { ev with link := false } with efiTimerList := s.efiTimerList.erase e }

/-- `InsertEventTimer` -/
def insertEventTimer (s : TimerState) (e : EventId) (ev : EventTimer) : TimerState :=
  let s := s.setTimerOf e { ev with link := true }
  { s with efiTimerList := sortedInsert s.triggerTime e s.efiTimerList }

/-- What `SetTimer` does with a timer that it accepts. -/
def armTimer (s : TimerState) (e : EventId) (ev : EventTimer) (type : TimerDelay)
    (triggerTime : BitVec 64) : TimerState :=
  let s := if ev.link then s.removeLink e ev else s
  if type = .cancel then s.setTimerOf e { ev with link := false, triggerTime := 0, period := 0 }
  else
    let s := s.insertEventTimer e { ev with
      triggerTime := s.efiSystemTime + triggerTime
      period := if type = .periodic then triggerTime else 0 }
    { s with checkSignalled := s.checkSignalled || triggerTime = 0 }

def setTimer (s : TimerState) (e : EventId) (type : TimerDelay) (triggerTime : BitVec 64) :
    TimerState × Status :=
  match s.events e with
  | none => (s, .invalidParameter)
  | some ev =>
    if type = .max ∨ ev.type &&& evtTimer = 0 then (s, .invalidParameter)
    else (s.armTimer e ev type triggerTime, .success)

/-- What `CreateEvent` does to the timers; the event is allocated at `e`. -/
def createEvent (s : TimerState) (e : EventId) (type : BitVec 32) : TimerState :=
  s.setTimerOf e ⟨type, 0, 0, false⟩

/-- What `CloseEvent` does to the timers. -/
def closeEvent (s : TimerState) (e : EventId) : TimerState × Status :=
  match s.events e with
  | none => (s, .invalidParameter)
  | some ev =>
    let s := if ev.type &&& evtTimer = 0 then s else (s.setTimer e .cancel 0).1
    ({ s with events := Function.update s.events e none }, .success)

/-- `FwTimerTick` -/
def fwTimerTick (s : TimerState) (duration : BitVec 64) : TimerState :=
  if s.efiAtRuntime then s
  else
    let efiSystemTime := s.efiSystemTime + duration
    let due := s.efiTimerList.head?.any fun e => s.triggerTime e ≤ efiSystemTime.toNat
    { s with efiSystemTime, checkSignalled := s.checkSignalled || due }

/-- What `CheckTimers` does with the head `e` of the list, which is due. -/
def fireTimer (s : TimerState) (systemTime : BitVec 64) (e : EventId) (ev : EventTimer) :
    TimerState :=
  let s := s.removeLink e ev
  if ev.period = 0 then s
  else
    let triggerTime := ev.triggerTime + ev.period
    if triggerTime ≤ systemTime then
      let s := s.insertEventTimer e { ev with triggerTime := systemTime }
      { s with checkSignalled := true }
    else s.insertEventTimer e { ev with triggerTime }

/-- The loop of `CheckTimers`, with the events it signals in turn. -/
def drainTimers : Nat → BitVec 64 → TimerState → Option (TimerState × List EventId)
  | 0, _, _ => none
  | fuel + 1, systemTime, s =>
    match s.efiTimerList.head? with
    | none => some (s, [])
    | some e =>
      match s.events e with
      | none => some (s, [])
      | some ev =>
        if systemTime < ev.triggerTime then some (s, [])
        else
          (drainTimers fuel systemTime (s.fireTimer systemTime e ev)).map fun r =>
            (r.1, e :: r.2)

/-- `CheckTimers`, when the dispatcher has reset `EfiCheckTimerEvent` and calls it. -/
def checkTimers (fuel : Nat) (s : TimerState) : Option (TimerState × List EventId) :=
  drainTimers fuel s.efiSystemTime { s with checkSignalled := false }

end TimerState

/-- A call, with what it returns; that of `CheckTimers` with the events that it signals. -/
inductive TimerCall where
  | createEvent (e : EventId) (type : BitVec 32)
  | closeEvent (e : EventId) (status : Status)
  | setTimer (e : EventId) (type : TimerDelay) (triggerTime : BitVec 64) (status : Status)
  | fwTimerTick (duration : BitVec 64)
  | checkTimers (signalled : List EventId)
  | enterRuntime
  deriving DecidableEq, Repr

/-- A call and the state it leaves.  A call of `CheckTimers` that does not return is none. -/
inductive TimerStep : TimerState → TimerCall → TimerState → Prop
  | createEvent {s : TimerState} {e : EventId} (type : BitVec 32) (hfree : s.events e = none) :
      TimerStep s (.createEvent e type) (s.createEvent e type)
  | closeEvent (s : TimerState) (e : EventId) :
      TimerStep s (.closeEvent e (s.closeEvent e).2) (s.closeEvent e).1
  | setTimer (s : TimerState) (e : EventId) (type : TimerDelay) (triggerTime : BitVec 64) :
      TimerStep s (.setTimer e type triggerTime (s.setTimer e type triggerTime).2)
        (s.setTimer e type triggerTime).1
  | fwTimerTick (s : TimerState) (duration : BitVec 64) :
      TimerStep s (.fwTimerTick duration) (s.fwTimerTick duration)
  | checkTimers {s s' : TimerState} {fuel : Nat} {signalled : List EventId}
      (h : s.checkTimers fuel = some (s', signalled)) : TimerStep s (.checkTimers signalled) s'
  | enterRuntime (s : TimerState) : TimerStep s .enterRuntime { s with efiAtRuntime := true }

def timers : Machine TimerState TimerCall := ⟨(· = .initializeTimer), TimerStep⟩

end EfiCore.Exec
