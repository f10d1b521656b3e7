import EfiCore.Exec.Tpl
import Mathlib.Logic.Function.Basic

/-! # Task priority levels and events

The globals of `tpl.c` and `event.c` and the sections of the services that run under
`EventQueueLock`.  The lock is acquired by raising to `TPL_HIGH_LEVEL`, so such a section is
one atomic step of `EfiCore.Exec.Machine`; what happens when the lock is released
(`RestoreTPL`) is a step of its own there.

An event is named by its address.  `EventQueue[p]` is the list of the queued events, head
first; `NotifyLink.Flink`, which the code tests for "is queued", is kept as a flag.
Timers are not part of this module: their lock is one more caller that raises and restores
the level.
-/

namespace EfiCore.Exec

/-- Address of an `IEVENT`; 0 is `NULL`. -/
abbrev EventId := Nat

/-! ## Event types -/

def evtTimer : BitVec 32 := 0x80000000
def evtRuntime : BitVec 32 := 0x40000000
def evtRuntimeContext : BitVec 32 := 0x20000000
def evtNotifyWait : BitVec 32 := 0x00000100
def evtNotifySignal : BitVec 32 := 0x00000200
def evtSignalExitBootServices : BitVec 32 := 0x00000201
def evtSignalVirtualAddressChange : BitVec 32 := 0x60000202
def evtEfiSignalMask : BitVec 32 := 0x000000FF

/-- The flags `CreateEvent` accepts. -/
def evtValidTypes : BitVec 32 :=
  evtTimer ||| evtRuntime ||| evtRuntimeContext ||| evtNotifyWait ||| evtNotifySignal |||
    evtSignalExitBootServices ||| evtSignalVirtualAddressChange

/-- `IEVENT` (without its timer). -/
structure IEvent where
  type : BitVec 32
  signalCount : BitVec 32
  notifyTpl : Nat
  notifyFunction : Option Nat
  notifyContext : Nat
  /-- `NotifyLink.Flink ≠ NULL` -/
  notifyLink : Bool
  deriving DecidableEq, Repr

/-- `Type & EVT_NOTIFY_SIGNAL` -/
def IEvent.notifySignal (ev : IEvent) : Bool := ev.type &&& evtNotifySignal != 0

/-- `Type & EVT_NOTIFY_WAIT` -/
def IEvent.notifyWait (ev : IEvent) : Bool := ev.type &&& evtNotifyWait != 0

/-- The globals of the event services. -/
structure ExecState (A : Arch) where
  tpl : Nat
  /-- Interrupts are enabled (`EfiSetInterruptState`). -/
  interrupts : Bool
  /-- `EventQueueLock.OwnerTpl` -/
  ownerTpl : Nat
  eventPending : Uintn A
  eventQueue : Nat → List EventId
  eventSignalQueue : Nat → List EventId
  runtimeEventList : List EventId
  /-- The `IEVENT`s in pool with their signature in place. -/
  events : EventId → Option IEvent

namespace ExecState

variable {A : Arch}

/-- The globals after `InitializeEvent`. -/
def initializeEvent (A : Arch) : ExecState A where
  tpl := tplApplication
  interrupts := true
  ownerTpl := 0
  eventPending := 0
  eventQueue := fun _ => []
  eventSignalQueue := fun _ => []
  runtimeEventList := []
  events := fun _ => none

/-! ## Levels and the lock -/

/-- `RaiseTPL`: raising to high level disables interrupts. -/
def raiseTPL (s : ExecState A) (newTpl : Nat) : ExecState A :=
  { s with
    interrupts := if tplHighLevel ≤ newTpl ∧ s.tpl < tplHighLevel then false else s.interrupts
    tpl := newTpl }

/-- `AcquireLock (&EventQueueLock)` -/
def acquireLock (s : ExecState A) : ExecState A :=
  { s.raiseTPL tplHighLevel with ownerTpl := s.tpl }

/-- `RestoreTPL` up to its loop. -/
def enterRestoreTPL (s : ExecState A) (newTpl : Nat) : ExecState A :=
  if tplHighLevel ≤ s.tpl ∧ newTpl < tplHighLevel then { s with tpl := tplHighLevel } else s

/-- One round of the loop of `RestoreTPL`, up to `DispatchEventNotifies (TPL)`. -/
def takeLevel (s : ExecState A) (priority : Nat) : ExecState A :=
  { s with
    tpl := priority
    interrupts := if priority < tplHighLevel then true else s.interrupts }

/-- `RestoreTPL` after its loop. -/
def leaveRestoreTPL (s : ExecState A) (newTpl : Nat) : ExecState A :=
  { s with
    tpl := newTpl
    interrupts := if newTpl < tplHighLevel then true else s.interrupts }

/-! ## The notification queues -/

def setEvent (s : ExecState A) (e : EventId) (ev : IEvent) : ExecState A :=
  { s with events := Function.update s.events e (some ev) }

/-- `RemoveEntryList (&Event->NotifyLink)` -/
def removeNotify (s : ExecState A) (e : EventId) (ev : IEvent) : ExecState A :=
  { s with
    eventQueue := Function.update s.eventQueue ev.notifyTpl ((s.eventQueue ev.notifyTpl).erase e) }

/-- `InsertTailList (&EventQueue[NotifyTpl], &Event->NotifyLink)` -/
def insertNotify (s : ExecState A) (e : EventId) (ev : IEvent) : ExecState A :=
  { s with
    eventQueue := Function.update s.eventQueue ev.notifyTpl (s.eventQueue ev.notifyTpl ++ [e]) }

/-- `NotifyEvent`, on an event whose structure is `ev`. -/
def notifyEvent (s : ExecState A) (e : EventId) (ev : IEvent) : ExecState A :=
  let s := if ev.notifyLink then s.removeNotify e ev else s
  let s := (s.insertNotify e ev).setEvent e { ev with notifyLink := true }
  { s with eventPending := s.eventPending ||| levelBit A ev.notifyTpl }

/-- `SignalEvent`, between `AcquireLock` and `ReleaseLock`. -/
def signalEvent (s : ExecState A) (e : EventId) (ev : IEvent) : ExecState A :=
  if ev.signalCount = 0 then
    let ev := { ev with signalCount := ev.signalCount + 1 }
    if ev.notifySignal then (s.setEvent e ev).notifyEvent e ev else s.setEvent e ev
  else s

/-- `CheckEvent`, the section that queues the wait notification. -/
def checkQueue (s : ExecState A) (e : EventId) (ev : IEvent) : ExecState A :=
  if ev.signalCount = 0 then s.notifyEvent e ev else s

/-- `CheckEvent`, the section that consumes the signal, and the status it settles on. -/
def checkClear (s : ExecState A) (e : EventId) (ev : IEvent) : ExecState A × Status :=
  if ev.signalCount ≠ 0 then (s.setEvent e { ev with signalCount := 0 }, .success)
  else (s, .notReady)

/-- `DispatchEventNotifies`, the section that takes the head event `e` off its queue. -/
def takeNotify (s : ExecState A) (priority : Nat) (e : EventId) (ev : IEvent) : ExecState A :=
  let s := { s with
    eventQueue := Function.update s.eventQueue priority ((s.eventQueue priority).erase e) }
  s.setEvent e { ev with notifyLink := false, signalCount := 0 }

/-- `DispatchEventNotifies`, when the queue is found empty. -/
def clearLevel (s : ExecState A) (priority : Nat) : ExecState A :=
  { s with eventPending := s.eventPending &&& levelMask A priority }

/-- `CloseEvent`: the event leaves every list and its structure is freed.  The timer is
    cancelled before, and protocol notifies unregistered after, under other locks. -/
def closeEvent (s : ExecState A) (e : EventId) (ev : IEvent) : ExecState A :=
  let s := if ev.notifyLink then s.removeNotify e ev else s
  { s with
    runtimeEventList := s.runtimeEventList.erase e
    eventSignalQueue := fun t => (s.eventSignalQueue t).erase e
    events := Function.update s.events e none }

/-! ## Creating an event -/

/-- The parameter checks of `CreateEvent`; on success the event structure to install. -/
def createEventCheck (type : BitVec 32) (notifyTpl : Nat) (notifyFunction : Option Nat)
    (notifyContext : Nat) : Except Status IEvent :=
  if type &&& ~~~evtValidTypes ≠ 0 then .error .invalidParameter
  else if type &&& evtSignalExitBootServices = evtSignalExitBootServices ∧
      type ≠ evtSignalExitBootServices then .error .invalidParameter
  else if type &&& evtSignalVirtualAddressChange = evtSignalVirtualAddressChange ∧
      type ≠ evtSignalVirtualAddressChange then .error .invalidParameter
  else if type &&& (evtNotifyWait ||| evtNotifySignal) ≠ 0 then
    if type &&& (evtNotifyWait ||| evtNotifySignal) = evtNotifyWait ||| evtNotifySignal then
      .error .invalidParameter
    else if notifyFunction = none ∨ notifyTpl ≤ tplApplication ∨ ¬ notifyTpl ≤ tplHighLevel then
      .error .invalidParameter
    else .ok ⟨type, 0, notifyTpl, notifyFunction, notifyContext, false⟩
  else
    -- no notification: the notify arguments are ignored
    .ok ⟨type, 0, 0, none, 0, false⟩

/-- `CreateEvent`, between `AcquireLock` and `ReleaseLock`, on the event allocated at `e`. -/
def createEvent (s : ExecState A) (e : EventId) (ev : IEvent) : ExecState A :=
  let s := s.setEvent e ev
  let s := if ev.type &&& evtRuntime ≠ 0 then
      { s with runtimeEventList := s.runtimeEventList ++ [e] } else s
  let signal := (ev.type &&& evtEfiSignalMask).toNat
  if signal ≠ 0 then
    { s with
      eventSignalQueue :=
        Function.update s.eventSignalQueue (signal - 1) (e :: s.eventSignalQueue (signal - 1)) }
  else s

end ExecState

end EfiCore.Exec
