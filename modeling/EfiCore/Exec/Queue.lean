import EfiCore.Exec.Machine
import Mathlib.Data.List.Nodup

/-! # The notification queues and their events

What every step keeps, preempted or not: a queue holds existing events of its own level,
each at most once, and `NotifyLink` says exactly which events are queued.  Each section of
the services gets one lemma saying what it does to the queues.
-/

namespace EfiCore.Exec

open EfiCore.Lib

variable {A : Arch}

namespace ExecState

/-! ## Frame lemmas: the level functions touch no event -/

section Frames

variable (s : ExecState A) (n : Nat)

@[simp] theorem raiseTPL_events : (s.raiseTPL n).events = s.events := rfl
@[simp] theorem raiseTPL_eventQueue : (s.raiseTPL n).eventQueue = s.eventQueue := rfl
@[simp] theorem raiseTPL_eventPending : (s.raiseTPL n).eventPending = s.eventPending := rfl
@[simp] theorem raiseTPL_tpl : (s.raiseTPL n).tpl = n := rfl

@[simp] theorem acquireLock_events : s.acquireLock.events = s.events := rfl
@[simp] theorem acquireLock_eventQueue : s.acquireLock.eventQueue = s.eventQueue := rfl
@[simp] theorem acquireLock_eventPending : s.acquireLock.eventPending = s.eventPending := rfl
@[simp] theorem acquireLock_tpl : s.acquireLock.tpl = tplHighLevel := rfl
@[simp] theorem acquireLock_ownerTpl : s.acquireLock.ownerTpl = s.tpl := rfl

@[simp] theorem enterRestoreTPL_events : (s.enterRestoreTPL n).events = s.events := by
  unfold enterRestoreTPL; split <;> rfl

@[simp] theorem enterRestoreTPL_eventQueue : (s.enterRestoreTPL n).eventQueue = s.eventQueue := by
  unfold enterRestoreTPL; split <;> rfl

@[simp] theorem enterRestoreTPL_eventPending :
    (s.enterRestoreTPL n).eventPending = s.eventPending := by
  unfold enterRestoreTPL; split <;> rfl

theorem enterRestoreTPL_tpl (h : s.tpl ≤ tplHighLevel) : (s.enterRestoreTPL n).tpl = s.tpl := by
  unfold enterRestoreTPL
  split
  · rename_i hc
    exact Nat.le_antisymm hc.1 h
  · rfl

@[simp] theorem takeLevel_events : (s.takeLevel n).events = s.events := rfl
@[simp] theorem takeLevel_eventQueue : (s.takeLevel n).eventQueue = s.eventQueue := rfl
@[simp] theorem takeLevel_eventPending : (s.takeLevel n).eventPending = s.eventPending := rfl
@[simp] theorem takeLevel_tpl : (s.takeLevel n).tpl = n := rfl

@[simp] theorem leaveRestoreTPL_events : (s.leaveRestoreTPL n).events = s.events := rfl
@[simp] theorem leaveRestoreTPL_eventQueue : (s.leaveRestoreTPL n).eventQueue = s.eventQueue := rfl
@[simp] theorem leaveRestoreTPL_eventPending :
    (s.leaveRestoreTPL n).eventPending = s.eventPending := rfl
@[simp] theorem leaveRestoreTPL_tpl : (s.leaveRestoreTPL n).tpl = n := rfl

@[simp] theorem clearLevel_events : (s.clearLevel n).events = s.events := rfl
@[simp] theorem clearLevel_eventQueue : (s.clearLevel n).eventQueue = s.eventQueue := rfl
@[simp] theorem clearLevel_eventPending :
    (s.clearLevel n).eventPending = s.eventPending &&& levelMask A n := rfl

end Frames

/-! ## The invariant -/

/-- The queues and the `NotifyLink`s agree. -/
structure Queues (s : ExecState A) : Prop where
  /-- Queued events exist, are flagged, and are of the queue's level. -/
  mem : ∀ p e, e ∈ s.eventQueue p →
    ∃ ev, s.events e = some ev ∧ ev.notifyLink = true ∧ ev.notifyTpl = p
  linked : ∀ e ev, s.events e = some ev → ev.notifyLink = true → e ∈ s.eventQueue ev.notifyTpl
  nodup : ∀ p, (s.eventQueue p).Nodup
  level : ∀ e ev, s.events e = some ev → ev.notifyTpl ≤ tplHighLevel

theorem Queues.congr {s s' : ExecState A} (h : s.Queues) (he : s'.events = s.events)
    (hq : s'.eventQueue = s.eventQueue) : s'.Queues := by
  constructor
  · rw [he, hq]; exact h.mem
  · rw [he, hq]; exact h.linked
  · rw [hq]; exact h.nodup
  · rw [he]; exact h.level

theorem Queues.not_mem {s : ExecState A} (h : s.Queues) {e : EventId} {ev : IEvent}
    (he : s.events e = some ev) (hl : ev.notifyLink = false) (p : Nat) : e ∉ s.eventQueue p := by
  intro hm
  obtain ⟨ev', he', hl', _⟩ := h.mem p e hm
  rw [he] at he'
  cases he'
  simp [hl] at hl'

theorem Queues.not_mem_of_ne {s : ExecState A} (h : s.Queues) {e : EventId} {ev : IEvent}
    (he : s.events e = some ev) {p : Nat} (hp : p ≠ ev.notifyTpl) : e ∉ s.eventQueue p := by
  intro hm
  obtain ⟨ev', he', _, hp'⟩ := h.mem p e hm
  rw [he] at he'
  cases he'
  exact hp hp'.symm

theorem Queues.not_mem_of_none {s : ExecState A} (h : s.Queues) {e : EventId}
    (he : s.events e = none) (p : Nat) : e ∉ s.eventQueue p := by
  intro hm
  obtain ⟨ev', he', _, _⟩ := h.mem p e hm
  simp [he] at he'

@[simp] theorem setEvent_eventQueue (s : ExecState A) (e : EventId) (ev : IEvent) :
    (s.setEvent e ev).eventQueue = s.eventQueue := rfl

@[simp] theorem setEvent_eventPending (s : ExecState A) (e : EventId) (ev : IEvent) :
    (s.setEvent e ev).eventPending = s.eventPending := rfl

@[simp] theorem setEvent_events (s : ExecState A) (e : EventId) (ev : IEvent) :
    (s.setEvent e ev).events = Function.update s.events e (some ev) := rfl

/-- Rewriting an event keeps the invariant when its link and level stay. -/
theorem Queues.setEvent {s : ExecState A} (h : s.Queues) {e : EventId} {ev ev' : IEvent}
    (he : s.events e = some ev) (hl : ev'.notifyLink = ev.notifyLink)
    (ht : ev'.notifyTpl = ev.notifyTpl) : (s.setEvent e ev').Queues := by
  constructor
  · intro p x hx
    obtain ⟨evx, hevx, hlx, hpx⟩ := h.mem p x hx
    by_cases hxe : x = e
    · subst hxe
      rw [he] at hevx
      cases hevx
      exact ⟨ev', by simp, by rw [hl, hlx], by rw [ht, hpx]⟩
    · exact ⟨evx, by simp [hxe, hevx], hlx, hpx⟩
  · intro x evx hevx hlx
    by_cases hxe : x = e
    · subst hxe
      simp only [setEvent_events, Function.update_self, Option.some.injEq] at hevx
      subst hevx
      rw [setEvent_eventQueue, ht]
      exact h.linked x ev he (by rw [← hl, hlx])
    · simp only [setEvent_events, Function.update_of_ne hxe] at hevx
      exact h.linked x evx hevx hlx
  · exact h.nodup
  · intro x evx hevx
    by_cases hxe : x = e
    · subst hxe
      simp only [setEvent_events, Function.update_self, Option.some.injEq] at hevx
      subst hevx
      rw [ht]
      exact h.level x ev he
    · simp only [setEvent_events, Function.update_of_ne hxe] at hevx
      exact h.level x evx hevx

/-! ## What each section does to the queues -/

/-- `NotifyEvent` moves the event to the tail of its queue. -/
theorem notifyEvent_eventQueue {s : ExecState A} (h : s.Queues) {e : EventId} {ev : IEvent}
    (he : s.events e = some ev) :
    (s.notifyEvent e ev).eventQueue =
      Function.update s.eventQueue ev.notifyTpl ((s.eventQueue ev.notifyTpl).erase e ++ [e]) := by
  unfold notifyEvent
  cases hl : ev.notifyLink with
  | false =>
    have hnot := h.not_mem he hl ev.notifyTpl
    simp [insertNotify, List.erase_of_not_mem hnot]
  | true => simp [insertNotify, removeNotify]

@[simp] theorem notifyEvent_events (s : ExecState A) (e : EventId) (ev : IEvent) :
    (s.notifyEvent e ev).events =
      Function.update s.events e (some { ev with notifyLink := true }) := by
  unfold notifyEvent
  split <;> rfl

@[simp] theorem notifyEvent_eventPending (s : ExecState A) (e : EventId) (ev : IEvent) :
    (s.notifyEvent e ev).eventPending = s.eventPending ||| levelBit A ev.notifyTpl := by
  unfold notifyEvent
  split <;> rfl

theorem Queues.notifyEvent {s : ExecState A} (h : s.Queues) {e : EventId} {ev : IEvent}
    (he : s.events e = some ev) : (s.notifyEvent e ev).Queues := by
  have hq := notifyEvent_eventQueue h he
  constructor
  · intro p x hx
    rw [hq] at hx
    rw [notifyEvent_events]
    by_cases hxe : x = e
    · subst hxe
      refine ⟨_, Function.update_self .., rfl, ?_⟩
      by_contra hp
      rw [Function.update_of_ne (Ne.symm hp)] at hx
      exact h.not_mem_of_ne he (Ne.symm hp) hx
    · rw [Function.update_of_ne hxe]
      apply h.mem
      by_cases hp : p = ev.notifyTpl
      · subst hp
        rw [Function.update_self] at hx
        simpa [List.mem_erase_of_ne hxe, hxe] using hx
      · rwa [Function.update_of_ne hp] at hx
  · intro x evx hevx hlx
    rw [notifyEvent_events] at hevx
    rw [hq]
    by_cases hxe : x = e
    · subst hxe
      rw [Function.update_self] at hevx
      cases hevx
      simp
    · rw [Function.update_of_ne hxe] at hevx
      have hmem := h.linked x evx hevx hlx
      by_cases hp : evx.notifyTpl = ev.notifyTpl
      · rw [hp] at hmem ⊢
        rw [Function.update_self]
        simp [List.mem_erase_of_ne hxe, hmem]
      · rwa [Function.update_of_ne hp]
  · intro p
    rw [hq]
    by_cases hp : p = ev.notifyTpl
    · subst hp
      rw [Function.update_self, List.nodup_append]
      refine ⟨(h.nodup _).erase e, List.nodup_singleton e, ?_⟩
      intro a ha b hb hab
      rw [List.mem_singleton] at hb
      subst hab hb
      exact (h.nodup _).not_mem_erase ha
    · rw [Function.update_of_ne hp]
      exact h.nodup p
  · intro x evx hevx
    rw [notifyEvent_events] at hevx
    by_cases hxe : x = e
    · subst hxe
      rw [Function.update_self] at hevx
      cases hevx
      exact h.level x ev he
    · rw [Function.update_of_ne hxe] at hevx
      exact h.level x evx hevx

/-- Taking an event off its queue, its structure rewritten to `next` (freed when `none`). -/
theorem Queues.remove {s s' : ExecState A} (h : s.Queues) {e : EventId} {ev : IEvent}
    (he : s.events e = some ev) {next : Option IEvent}
    (hq : s'.eventQueue =
      Function.update s.eventQueue ev.notifyTpl ((s.eventQueue ev.notifyTpl).erase e))
    (hev : s'.events = Function.update s.events e next)
    (hnext : ∀ ev', next = some ev' → ev'.notifyLink = false ∧ ev'.notifyTpl = ev.notifyTpl) :
    s'.Queues := by
  have hmem : ∀ p x, x ∈ s'.eventQueue p → x ∈ s.eventQueue p ∧ x ≠ e := by
    intro p x hx
    rw [hq] at hx
    by_cases hp : p = ev.notifyTpl
    · subst hp
      rw [Function.update_self] at hx
      exact ⟨List.mem_of_mem_erase hx, fun hxe => (h.nodup _).not_mem_erase (hxe ▸ hx)⟩
    · rw [Function.update_of_ne hp] at hx
      exact ⟨hx, fun hxe => h.not_mem_of_ne he hp (hxe ▸ hx)⟩
  constructor
  · intro p x hx
    obtain ⟨hx, hxe⟩ := hmem p x hx
    rw [hev, Function.update_of_ne hxe]
    exact h.mem p x hx
  · intro x evx hevx hlx
    rw [hev] at hevx
    by_cases hxe : x = e
    · subst hxe
      rw [Function.update_self] at hevx
      simp [(hnext _ hevx).1] at hlx
    · rw [Function.update_of_ne hxe] at hevx
      have hx := h.linked x evx hevx hlx
      rw [hq]
      by_cases hp : evx.notifyTpl = ev.notifyTpl
      · rw [hp] at hx ⊢
        rw [Function.update_self]
        exact (List.mem_erase_of_ne hxe).mpr hx
      · rwa [Function.update_of_ne hp]
  · intro p
    rw [hq]
    by_cases hp : p = ev.notifyTpl
    · subst hp
      rw [Function.update_self]
      exact (h.nodup _).erase e
    · rw [Function.update_of_ne hp]
      exact h.nodup p
  · intro x evx hevx
    rw [hev] at hevx
    by_cases hxe : x = e
    · subst hxe
      rw [Function.update_self] at hevx
      rw [(hnext _ hevx).2]
      exact h.level x ev he
    · rw [Function.update_of_ne hxe] at hevx
      exact h.level x evx hevx

/-! ## The sections keep the invariant -/

theorem Queues.signalEvent {s : ExecState A} (h : s.Queues) {e : EventId} {ev : IEvent}
    (he : s.events e = some ev) : (s.signalEvent e ev).Queues := by
  unfold ExecState.signalEvent
  dsimp only
  split
  · have hset := @Queues.setEvent _ _ h _ _ { ev with signalCount := ev.signalCount + 1 } he rfl rfl
    split
    · exact hset.notifyEvent (Function.update_self ..)
    · exact hset
  · exact h

theorem Queues.checkQueue {s : ExecState A} (h : s.Queues) {e : EventId} {ev : IEvent}
    (he : s.events e = some ev) : (s.checkQueue e ev).Queues := by
  unfold ExecState.checkQueue
  split
  · exact h.notifyEvent he
  · exact h

theorem Queues.checkClear {s : ExecState A} (h : s.Queues) {e : EventId} {ev : IEvent}
    (he : s.events e = some ev) : (s.checkClear e ev).1.Queues := by
  unfold ExecState.checkClear
  split
  · exact h.setEvent he rfl rfl
  · exact h

theorem Queues.takeNotify {s : ExecState A} (h : s.Queues) {p : Nat} {e : EventId} {ev : IEvent}
    (hm : e ∈ s.eventQueue p) (he : s.events e = some ev) : (s.takeNotify p e ev).Queues := by
  obtain ⟨ev', he', _, rfl⟩ := h.mem p e hm
  rw [he] at he'
  cases he'
  refine @Queues.remove _ _ _ h _ _ he (some _) rfl rfl ?_
  rintro _ ⟨⟩
  exact ⟨rfl, rfl⟩

theorem closeEvent_eventQueue {s : ExecState A} (h : s.Queues) {e : EventId} {ev : IEvent}
    (he : s.events e = some ev) :
    (s.closeEvent e ev).eventQueue =
      Function.update s.eventQueue ev.notifyTpl ((s.eventQueue ev.notifyTpl).erase e) := by
  unfold closeEvent
  cases hl : ev.notifyLink with
  | false =>
    have hnot := h.not_mem he hl ev.notifyTpl
    simp [List.erase_of_not_mem hnot]
  | true => rfl

@[simp] theorem closeEvent_events (s : ExecState A) (e : EventId) (ev : IEvent) :
    (s.closeEvent e ev).events = Function.update s.events e none := by
  unfold closeEvent
  split <;> rfl

theorem Queues.closeEvent {s : ExecState A} (h : s.Queues) {e : EventId} {ev : IEvent}
    (he : s.events e = some ev) : (s.closeEvent e ev).Queues :=
  h.remove he (closeEvent_eventQueue h he) (closeEvent_events s e ev) (by rintro _ ⟨⟩)

@[simp] theorem createEvent_eventQueue (s : ExecState A) (e : EventId) (ev : IEvent) :
    (s.createEvent e ev).eventQueue = s.eventQueue := by
  unfold createEvent
  dsimp only
  split <;> split <;> rfl

@[simp] theorem createEvent_events (s : ExecState A) (e : EventId) (ev : IEvent) :
    (s.createEvent e ev).events = Function.update s.events e (some ev) := by
  unfold createEvent
  dsimp only
  split <;> split <;> rfl

/-- What the parameter checks of `CreateEvent` promise about the new event. -/
theorem createEventCheck_ok {type : BitVec 32} {notifyTpl : Nat} {notifyFunction : Option Nat}
    {notifyContext : Nat} {ev : IEvent}
    (h : createEventCheck type notifyTpl notifyFunction notifyContext = .ok ev) :
    ev.type = type ∧ ev.signalCount = 0 ∧ ev.notifyLink = false ∧ ev.notifyTpl ≤ tplHighLevel ∧
      (type &&& (evtNotifyWait ||| evtNotifySignal) ≠ 0 →
        ev.notifyTpl = notifyTpl ∧ tplApplication < ev.notifyTpl) := by
  unfold createEventCheck at h
  split_ifs at h with _ _ _ hn _ hp
  · cases h
    have hle : notifyTpl ≤ tplHighLevel := by
      by_contra hno
      exact hp (Or.inr (Or.inr hno))
    have hlt : tplApplication < notifyTpl := by
      by_contra hno
      exact hp (Or.inr (Or.inl (not_lt.mp hno)))
    exact ⟨rfl, rfl, rfl, hle, fun _ => ⟨rfl, hlt⟩⟩
  · cases h
    exact ⟨rfl, rfl, rfl, Nat.zero_le _, fun hne => absurd hne hn⟩

theorem Queues.createEvent {s : ExecState A} (h : s.Queues) {e : EventId} {ev : IEvent}
    (he : s.events e = none) (hl : ev.notifyLink = false) (ht : ev.notifyTpl ≤ tplHighLevel) :
    (s.createEvent e ev).Queues := by
  constructor
  · intro p x hx
    rw [createEvent_eventQueue] at hx
    have hxe : x ≠ e := fun hxe => h.not_mem_of_none he p (hxe ▸ hx)
    rw [createEvent_events, Function.update_of_ne hxe]
    exact h.mem p x hx
  · intro x evx hevx hlx
    rw [createEvent_events] at hevx
    rw [createEvent_eventQueue]
    by_cases hxe : x = e
    · subst hxe
      rw [Function.update_self] at hevx
      cases hevx
      simp [hl] at hlx
    · rw [Function.update_of_ne hxe] at hevx
      exact h.linked x evx hevx hlx
  · rw [createEvent_eventQueue]
    exact h.nodup
  · intro x evx hevx
    rw [createEvent_events] at hevx
    by_cases hxe : x = e
    · subst hxe
      rw [Function.update_self] at hevx
      cases hevx
      exact ht
    · rw [Function.update_of_ne hxe] at hevx
      exact h.level x evx hevx

theorem Queues.acquireLock {s : ExecState A} (h : s.Queues) : s.acquireLock.Queues :=
  h.congr rfl rfl

theorem Queues.enterRestoreTPL {s : ExecState A} (h : s.Queues) (n : Nat) :
    (s.enterRestoreTPL n).Queues :=
  h.congr (by simp) (by simp)

theorem initializeEvent_queues : (initializeEvent A).Queues where
  mem := by intro p e he; cases he
  linked := by intro e ev he; cases he
  nodup := fun _ => List.nodup_nil
  level := by intro e ev he; cases he

end ExecState

/-! ## Every step keeps the invariant -/

open ExecState Cfg

theorem Step.queues {c c' : Cfg A} {a : Action} (h : c.state.Queues) (hs : Step c a c') :
    c'.state.Queues := by
  have hl := h.acquireLock
  cases hs with
  | raiseTPL | takeLevel | restored => exact h.congr rfl rfl
  | restoreTPL => exact h.enterRestoreTPL _
  | createEvent hc _ hn =>
    obtain ⟨_, _, hlink, hlevel, _⟩ := createEventCheck_ok hc
    exact (hl.createEvent hn hlink hlevel).enterRestoreTPL _
  | signalEvent he => exact (hl.signalEvent he).enterRestoreTPL _
  | closeEvent he => exact (hl.closeEvent he).enterRestoreTPL _
  | @take s priority e es ev K hq he =>
    have hm : e ∈ s.acquireLock.eventQueue priority := by
      rw [acquireLock_eventQueue, hq]
      exact List.mem_cons_self
    exact (hl.takeNotify hm he).enterRestoreTPL _
  | @drained s priority K _ =>
    have hc : (s.acquireLock.clearLevel priority).Queues := hl.congr rfl rfl
    exact hc.enterRestoreTPL _
  | checkQueue he => exact (hl.checkQueue he).enterRestoreTPL _
  | checkConsume he _ => exact (hl.checkClear he).enterRestoreTPL _
  | checkMissed he _ => exact (hl.checkClear he).enterRestoreTPL _
  | createEventFails | signalEventInvalid | checkEvent | checkEventInvalid | closeEventInvalid
  | «return» | loopTake | loopDone | call | checkEntry | checkLookSet | checkLookClear
  | checked => exact h

theorem PreemptedStep.queues {c c' : Cfg A} {a : Action} (h : c.state.Queues)
    (hs : PreemptedStep c a c') : c'.state.Queues := by
  cases hs with
  | step hs => exact hs.queues h
  | interrupt => exact h

/-! ## The order of a queue -/

/-- How an action may change the queue of level `p`: events enter at the tail, the dispatcher
    takes the head, and closing an event removes it wherever it stands. -/
inductive Order (a : Action) (p : Nat) (es es' : List EventId) : Prop where
  | same : es' = es → Order a p es es'
  | queued (e : EventId) : a = .signalEvent e ∨ a = .queue e → es' = es.erase e ++ [e] →
      Order a p es es'
  | taken (e : EventId) : a = .take p e → es = e :: es' → Order a p es es'
  | closed (e : EventId) : a = .closeEvent e → es' = es.erase e → Order a p es es'

theorem Order.of_notifyEvent {s : ExecState A} (h : s.Queues) {e : EventId} {ev : IEvent}
    (he : s.events e = some ev) {a : Action} (ha : a = .signalEvent e ∨ a = .queue e) (p : Nat) :
    Order a p (s.eventQueue p) ((s.notifyEvent e ev).eventQueue p) := by
  rw [notifyEvent_eventQueue h he]
  by_cases hp : p = ev.notifyTpl
  · subst hp
    exact .queued e ha (Function.update_self ..)
  · exact .same (Function.update_of_ne hp ..)

/-- Queues are first in, first out: no step does anything else to one. -/
theorem Step.order {c c' : Cfg A} {a : Action} (h : c.state.Queues) (hs : Step c a c') (p : Nat) :
    Order a p (c.state.eventQueue p) (c'.state.eventQueue p) := by
  have hl := h.acquireLock
  cases hs with
  | raiseTPL | takeLevel | restored | createEventFails | signalEventInvalid | checkEvent
  | checkEventInvalid | closeEventInvalid | «return» | loopTake | loopDone | call | checkEntry
  | checkLookSet | checkLookClear | checked => exact .same rfl
  | restoreTPL => exact .same (by simp)
  | createEvent => exact .same (by simp [releaseLock])
  | drained => exact .same (by simp [releaseLock])
  | @signalEvent s _ _ e ev he =>
    simp only [releaseLock, enterRestoreTPL_eventQueue]
    unfold ExecState.signalEvent
    dsimp only
    split
    · have hset := @Queues.setEvent _ _ hl _ _ { ev with signalCount := ev.signalCount + 1 } he rfl rfl
      split
      · exact Order.of_notifyEvent hset (Function.update_self ..) (.inl rfl) p
      · exact .same rfl
    · exact .same rfl
  | @closeEvent s _ _ e ev he =>
    simp only [releaseLock, enterRestoreTPL_eventQueue]
    rw [closeEvent_eventQueue hl he]
    by_cases hp : p = ev.notifyTpl
    · subst hp
      exact .closed e rfl (Function.update_self ..)
    · exact .same (Function.update_of_ne hp ..)
  | @take s priority e es ev _ hq he =>
    simp only [releaseLock, enterRestoreTPL_eventQueue, takeNotify, setEvent_eventQueue,
      acquireLock_eventQueue]
    by_cases hp : p = priority
    · subst hp
      rw [Function.update_self, hq, List.erase_cons_head]
      exact .taken e rfl rfl
    · exact .same (Function.update_of_ne hp ..)
  | @checkQueue s e ev _ he =>
    simp only [releaseLock, enterRestoreTPL_eventQueue]
    unfold ExecState.checkQueue
    split
    · exact Order.of_notifyEvent hl he (.inr rfl) p
    · exact .same rfl
  | checkConsume | checkMissed =>
    simp only [releaseLock, enterRestoreTPL_eventQueue]
    unfold ExecState.checkClear
    split <;> exact .same rfl

end EfiCore.Exec
