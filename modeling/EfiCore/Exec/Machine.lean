import EfiCore.Exec.Event
import EfiCore.Lib.Run

/-! # The event services as a machine

One processor runs one stack of activations.  A `user` frame is code that calls the
services: the application at the bottom, and above a dispatcher the notify function it
called.  What such code does next is arbitrary, with one discipline: it never lowers the
level below the one it was entered at (`base`), raises only up to `TPL_HIGH_LEVEL`, and
returns at the level it was entered at.  This is what `RaiseTPL` and `RestoreTPL` assert
and what "restores the previous value" asks of their callers.

The other frames are points inside `RestoreTPL`, `DispatchEventNotifies` and `CheckEvent`.
Every `ReleaseLock` enters `RestoreTPL`, so dispatching nests to any depth.

`machine` runs without preemption, as `InitializeLock` describes it; `preempted` also lets a
handler (a timer tick) start at any point where interrupts are enabled.
-/

namespace EfiCore.Exec

open EfiCore.Lib

/-- Points in the code at which an activation can be suspended. -/
inductive Frame where
  /-- A caller of the services, entered at level `base`. -/
  | user (base : Nat)
  /-- `RestoreTPL (newTpl)`, at the test of its loop. -/
  | restoreLoop (newTpl : Nat)
  /-- `RestoreTPL (newTpl)`, in its loop before `HighestSetBit`. -/
  | restoreTake (newTpl : Nat)
  /-- `RestoreTPL (newTpl)`, after its loop. -/
  | restoreDone (newTpl : Nat)
  /-- `DispatchEventNotifies (priority)`, before it acquires the lock. -/
  | dispatch (priority : Nat)
  /-- `DispatchEventNotifies (priority)`, before it calls the notify function of `e`. -/
  | notifyCall (priority : Nat) (e : EventId)
  /-- `CheckEvent (e)`, at its first test of `SignalCount`. -/
  | checkEntry (e : EventId)
  /-- `CheckEvent (e)`, before the section that queues the notification. -/
  | checkQueue (e : EventId)
  /-- `CheckEvent (e)`, at its second test of `SignalCount`. -/
  | checkLook (e : EventId)
  /-- `CheckEvent (e)`, before the section that consumes the signal. -/
  | checkClear (e : EventId)
  /-- `CheckEvent (e)`, about to return. -/
  | checkReturn (e : EventId) (status : Status)
  deriving DecidableEq, Repr

/-- What a step does, as its environment sees it. -/
inductive Action where
  | raiseTPL (newTpl : Nat)
  | restoreTPL (newTpl : Nat)
  | createEvent (type : BitVec 32) (notifyTpl : Nat) (status : Status)
  | signalEvent (e : EventId)
  | checkEvent (e : EventId)
  | closeEvent (e : EventId)
  | return
  /-- `RestoreTPL (newTpl)` returns. -/
  | restored (newTpl : Nat)
  /-- The dispatcher takes `e` off `EventQueue[priority]`. -/
  | take (priority : Nat) (e : EventId)
  /-- The notify function of `e` is called. -/
  | call (priority : Nat) (e : EventId)
  /-- `CheckEvent` finds `e` not signalled and queues its wait notification. -/
  | queue (e : EventId)
  /-- `CheckEvent` consumes the signal of `e`. -/
  | consume (e : EventId)
  /-- `CheckEvent` settles on `EFI_NOT_READY` for `e`. -/
  | notReady (e : EventId)
  | checked (e : EventId) (status : Status)
  | interrupt
  | internal
  deriving DecidableEq, Repr

/-- The globals and the stack of activations, running one first. -/
structure Cfg (A : Arch) where
  state : ExecState A
  stack : List Frame

namespace Cfg

variable {A : Arch}

/-- `ReleaseLock (&EventQueueLock)`: enter `RestoreTPL` with the level the owner had. -/
def releaseLock (s : ExecState A) (stack : List Frame) : Cfg A :=
  ⟨s.enterRestoreTPL s.ownerTpl, .restoreLoop s.ownerTpl :: stack⟩

/-- The frame `CheckEvent` continues at after its first test. -/
def checkEntryNext (e : EventId) (ev : IEvent) : Frame :=
  if ev.signalCount = 0 ∧ ev.notifyWait then .checkQueue e else .checkLook e

end Cfg

open ExecState Cfg

/-- One step of the running activation. -/
inductive Step {A : Arch} : Cfg A → Action → Cfg A → Prop
  -- calls of user code
  | raiseTPL {s base K newTpl} : s.tpl ≤ newTpl → newTpl ≤ tplHighLevel →
      Step ⟨s, .user base :: K⟩ (.raiseTPL newTpl) ⟨s.raiseTPL newTpl, .user base :: K⟩
  | restoreTPL {s base K newTpl} : base ≤ newTpl → newTpl ≤ s.tpl →
      Step ⟨s, .user base :: K⟩ (.restoreTPL newTpl)
        ⟨s.enterRestoreTPL newTpl, .restoreLoop newTpl :: .user base :: K⟩
  | createEvent {s base K type notifyTpl notifyFunction notifyContext ev e} :
      createEventCheck type notifyTpl notifyFunction notifyContext = .ok ev →
      e ≠ 0 → s.events e = none →
      Step ⟨s, .user base :: K⟩ (.createEvent type notifyTpl .success)
        (releaseLock (s.acquireLock.createEvent e ev) (.user base :: K))
  | createEventFails {s base K type notifyTpl notifyFunction notifyContext status} :
      createEventCheck type notifyTpl notifyFunction notifyContext = .error status ∨
        status = .outOfResources →
      Step ⟨s, .user base :: K⟩ (.createEvent type notifyTpl status) ⟨s, .user base :: K⟩
  | signalEvent {s base K e ev} : s.events e = some ev →
      Step ⟨s, .user base :: K⟩ (.signalEvent e)
        (releaseLock (s.acquireLock.signalEvent e ev) (.user base :: K))
  | signalEventInvalid {s base K e} : s.events e = none →
      Step ⟨s, .user base :: K⟩ (.signalEvent e) ⟨s, .user base :: K⟩
  | checkEvent {s base K e ev} : s.events e = some ev → ev.notifySignal = false →
      Step ⟨s, .user base :: K⟩ (.checkEvent e) ⟨s, .checkEntry e :: .user base :: K⟩
  | checkEventInvalid {s base K e} : (∀ ev, s.events e = some ev → ev.notifySignal = true) →
      Step ⟨s, .user base :: K⟩ (.checkEvent e) ⟨s, .user base :: K⟩
  | closeEvent {s base K e ev} : s.events e = some ev →
      Step ⟨s, .user base :: K⟩ (.closeEvent e)
        (releaseLock (s.acquireLock.closeEvent e ev) (.user base :: K))
  | closeEventInvalid {s base K e} : s.events e = none →
      Step ⟨s, .user base :: K⟩ (.closeEvent e) ⟨s, .user base :: K⟩
  | return {s base f K} : s.tpl = base →
      Step ⟨s, .user base :: f :: K⟩ .return ⟨s, f :: K⟩
  -- RestoreTPL
  | loopTake {s newTpl K} : aboveMask A newTpl &&& s.eventPending ≠ 0 →
      Step ⟨s, .restoreLoop newTpl :: K⟩ .internal ⟨s, .restoreTake newTpl :: K⟩
  | loopDone {s newTpl K} : aboveMask A newTpl &&& s.eventPending = 0 →
      Step ⟨s, .restoreLoop newTpl :: K⟩ .internal ⟨s, .restoreDone newTpl :: K⟩
  | takeLevel {s newTpl K priority} : highestSetBit s.eventPending = some priority →
      Step ⟨s, .restoreTake newTpl :: K⟩ .internal
        ⟨s.takeLevel priority, .dispatch priority :: .restoreLoop newTpl :: K⟩
  | restored {s newTpl K} :
      Step ⟨s, .restoreDone newTpl :: K⟩ (.restored newTpl) ⟨s.leaveRestoreTPL newTpl, K⟩
  -- DispatchEventNotifies
  | take {s priority e es ev K} : s.eventQueue priority = e :: es → s.events e = some ev →
      Step ⟨s, .dispatch priority :: K⟩ (.take priority e)
        (releaseLock (s.acquireLock.takeNotify priority e ev) (.notifyCall priority e :: K))
  | call {s priority e K} :
      Step ⟨s, .notifyCall priority e :: K⟩ (.call priority e)
        ⟨s, .user s.tpl :: .dispatch priority :: K⟩
  | drained {s priority K} : s.eventQueue priority = [] →
      Step ⟨s, .dispatch priority :: K⟩ .internal
        (releaseLock (s.acquireLock.clearLevel priority) K)
  -- CheckEvent
  | checkEntry {s e ev K} : s.events e = some ev →
      Step ⟨s, .checkEntry e :: K⟩ .internal ⟨s, checkEntryNext e ev :: K⟩
  | checkQueue {s e ev K} : s.events e = some ev →
      Step ⟨s, .checkQueue e :: K⟩ (.queue e)
        (releaseLock (s.acquireLock.checkQueue e ev) (.checkLook e :: K))
  | checkLookSet {s e ev K} : s.events e = some ev → ev.signalCount ≠ 0 →
      Step ⟨s, .checkLook e :: K⟩ .internal ⟨s, .checkClear e :: K⟩
  | checkLookClear {s e ev K} : s.events e = some ev → ev.signalCount = 0 →
      Step ⟨s, .checkLook e :: K⟩ (.notReady e) ⟨s, .checkReturn e .notReady :: K⟩
  | checkConsume {s e ev K} : s.events e = some ev → ev.signalCount ≠ 0 →
      Step ⟨s, .checkClear e :: K⟩ (.consume e)
        (releaseLock (s.acquireLock.checkClear e ev).1
          (.checkReturn e (s.acquireLock.checkClear e ev).2 :: K))
  | checkMissed {s e ev K} : s.events e = some ev → ev.signalCount = 0 →
      Step ⟨s, .checkClear e :: K⟩ (.notReady e)
        (releaseLock (s.acquireLock.checkClear e ev).1
          (.checkReturn e (s.acquireLock.checkClear e ev).2 :: K))
  | checked {s e status K} :
      Step ⟨s, .checkReturn e status :: K⟩ (.checked e status) ⟨s, K⟩

/-- A step, or a handler starting where interrupts are enabled. -/
inductive PreemptedStep {A : Arch} : Cfg A → Action → Cfg A → Prop
  | step {c a c'} : Step c a c' → PreemptedStep c a c'
  | interrupt {s K} : s.interrupts = true →
      PreemptedStep ⟨s, K⟩ .interrupt ⟨s, .user s.tpl :: K⟩

/-- The machine after `InitializeEvent`, with the code that boots the system running. -/
def Cfg.initial (A : Arch) : Cfg A := ⟨initializeEvent A, [.user 0]⟩

/-- The event services without preemption. -/
def machine (A : Arch) : Machine (Cfg A) Action := ⟨(· = Cfg.initial A), Step⟩

/-- The event services with interrupt handlers. -/
def preempted (A : Arch) : Machine (Cfg A) Action := ⟨(· = Cfg.initial A), PreemptedStep⟩

end EfiCore.Exec
