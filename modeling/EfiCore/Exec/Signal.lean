import EfiCore.Exec.Queue

/-! # The signalled state of an event

`SignalCount` has three writers: `SignalEvent` sets it, `CheckEvent` consumes it, and the
dispatcher clears it when it takes an event off its queue.  The last is right for
`EVT_NOTIFY_SIGNAL` events, whose signal is the notification.  A wait event is queued by
`CheckEvent` while it is not signalled; when it is signalled before that notification is
dispatched, the dispatcher throws the signal away.

`Change` lists what a step may do to the events; the results are about `preempted`, where
handlers may also run between any two steps.
-/

namespace EfiCore.Exec

open EfiCore.Lib ExecState Cfg

variable {A : Arch}

/-! ## What a step does to the events -/

/-- How a step may change the table of events. -/
inductive Change (c : Cfg A) (a : Action) (c' : Cfg A) : Prop where
  | same : c'.state.events = c.state.events → Change c a c'
  | created (e : EventId) (ev : IEvent) : c.state.events e = none →
      ev.signalCount = 0 → ev.notifyLink = false →
      c'.state.events = Function.update c.state.events e (some ev) → Change c a c'
  | signalled (e : EventId) (ev : IEvent) : a = .signalEvent e → c.state.events e = some ev →
      ev.signalCount = 0 →
      c'.state.events = Function.update c.state.events e
        (some { ev with
          signalCount := ev.signalCount + 1
          notifyLink := ev.notifySignal || ev.notifyLink }) → Change c a c'
  | queued (e : EventId) (ev : IEvent) : c.state.events e = some ev → ev.signalCount = 0 →
      c'.state.events = Function.update c.state.events e
        (some { ev with notifyLink := true }) → Change c a c'
  | taken (p : Nat) (e : EventId) (ev : IEvent) : a = .take p e →
      e ∈ c.state.eventQueue p → c.state.events e = some ev →
      c'.state.events = Function.update c.state.events e
        (some { ev with notifyLink := false, signalCount := 0 }) → Change c a c'
  | consumed (e : EventId) (ev : IEvent) : a = .consume e → c.state.events e = some ev →
      c'.state.events = Function.update c.state.events e
        (some { ev with signalCount := 0 }) → Change c a c'
  | closed (e : EventId) : a = .closeEvent e →
      c'.state.events = Function.update c.state.events e none → Change c a c'

section Sections

variable {s : ExecState A} {e : EventId} {ev : IEvent}

theorem signalEvent_of_set (hne : ev.signalCount ≠ 0) : s.signalEvent e ev = s :=
  if_neg hne

theorem signalEvent_events_of_clear (hz : ev.signalCount = 0) :
    (s.signalEvent e ev).events = Function.update s.events e
      (some { ev with
        signalCount := ev.signalCount + 1
        notifyLink := ev.notifySignal || ev.notifyLink }) := by
  unfold ExecState.signalEvent
  rw [if_pos hz]
  dsimp only
  split
  · rename_i hn
    have hn' : ev.notifySignal = true := hn
    rw [notifyEvent_events, setEvent_events, Function.update_idem, hn', Bool.true_or]
  · rename_i hn
    have hn' : ev.notifySignal = false := Bool.eq_false_iff.mpr hn
    rw [setEvent_events, hn', Bool.false_or]

theorem takeNotify_events {p : Nat} :
    (s.takeNotify p e ev).events =
      Function.update s.events e (some { ev with notifyLink := false, signalCount := 0 }) :=
  rfl

theorem checkQueue_of_clear (hz : ev.signalCount = 0) :
    s.checkQueue e ev = s.notifyEvent e ev :=
  if_pos hz

theorem checkQueue_of_set (hne : ev.signalCount ≠ 0) : s.checkQueue e ev = s :=
  if_neg hne

theorem checkClear_of_set (hne : ev.signalCount ≠ 0) :
    s.checkClear e ev = (s.setEvent e { ev with signalCount := 0 }, .success) :=
  if_pos hne

theorem checkClear_of_clear (hz : ev.signalCount = 0) : s.checkClear e ev = (s, .notReady) :=
  if_neg (not_not.mpr hz)

end Sections

@[simp] theorem releaseLock_events (s : ExecState A) (K : List Frame) :
    (releaseLock s K).state.events = s.events :=
  enterRestoreTPL_events ..

theorem Step.change {c c' : Cfg A} {a : Action} (hs : Step c a c') : Change c a c' := by
  cases hs with
  | raiseTPL | takeLevel | restored | createEventFails | signalEventInvalid | checkEvent
  | checkEventInvalid | closeEventInvalid | «return» | loopTake | loopDone | call | checkEntry
  | checkLookSet | checkLookClear | checked => exact .same rfl
  | restoreTPL => exact .same (enterRestoreTPL_events ..)
  | drained => exact .same (releaseLock_events ..)
  | @createEvent s _ _ _ _ _ _ ev e hc _ hn =>
    obtain ⟨_, hcount, hlink, _, _⟩ := createEventCheck_ok hc
    refine .created e ev hn hcount hlink ?_
    rw [releaseLock_events, createEvent_events, acquireLock_events]
  | @signalEvent s _ _ e ev he =>
    by_cases hz : ev.signalCount = 0
    · refine .signalled e ev rfl he hz ?_
      rw [releaseLock_events, signalEvent_events_of_clear hz, acquireLock_events]
    · refine .same ?_
      rw [releaseLock_events, signalEvent_of_set hz, acquireLock_events]
  | @closeEvent s _ _ e ev he =>
    refine .closed e rfl ?_
    rw [releaseLock_events, closeEvent_events, acquireLock_events]
  | @take s p e es ev K hq he =>
    refine .taken p e ev rfl ?_ he ?_
    · rw [show s.eventQueue p = e :: es from hq]
      exact List.mem_cons_self
    · rw [releaseLock_events, takeNotify_events, acquireLock_events]
  | @checkQueue s e ev K he =>
    by_cases hz : ev.signalCount = 0
    · refine .queued e ev he hz ?_
      rw [releaseLock_events, checkQueue_of_clear hz, notifyEvent_events, acquireLock_events]
    · refine .same ?_
      rw [releaseLock_events, checkQueue_of_set hz, acquireLock_events]
  | @checkConsume s e ev K he hne =>
    refine .consumed e ev rfl he ?_
    rw [releaseLock_events, checkClear_of_set hne]
    rfl
  | @checkMissed s e ev K he hz =>
    refine .same ?_
    rw [releaseLock_events, checkClear_of_clear hz, acquireLock_events]

theorem PreemptedStep.change {c c' : Cfg A} {a : Action} (hs : PreemptedStep c a c') :
    Change c a c' := by
  cases hs with
  | step hs => exact hs.change
  | interrupt => exact .same rfl

/-! ## The promise -/

/-- A wait event, or one without notification, that is signalled. -/
def Signalled (c : Cfg A) (e : EventId) : Prop :=
  ∃ ev, c.state.events e = some ev ∧ ev.notifySignal = false ∧ ev.signalCount ≠ 0

/-- No signal is lost in runs whose steps meet `ok`. -/
structure KeepsSignals (A : Arch) (ok : Cfg A → Action → Prop) : Prop where
  /-- `SignalEvent` signals. -/
  sets : ∀ c e ev c', (preempted A).Reach ok c → c.state.events e = some ev →
    ev.notifySignal = false → ok c (.signalEvent e) →
    PreemptedStep c (.signalEvent e) c' → Signalled c' e
  /-- A signalled event stays signalled until a `CheckEvent` on it consumes the signal. -/
  stays : ∀ c as c' e, (preempted A).Reach ok c → (preempted A).Path ok c as c' →
    Signalled c e → (∀ a ∈ as, a ≠ .consume e ∧ a ≠ .closeEvent e) → Signalled c' e
  /-- A `CheckEvent` that consumes the signal returns `EFI_SUCCESS`. -/
  success : ∀ c e c', (preempted A).Reach ok c → PreemptedStep c (.consume e) c' →
    ∃ tpl K, c'.stack = .restoreLoop tpl :: .checkReturn e .success :: K
  /-- A `CheckEvent` settles on `EFI_NOT_READY` only while the event is not signalled. -/
  notReady : ∀ c e c', (preempted A).Reach ok c → PreemptedStep c (.notReady e) c' →
    ¬ Signalled c e

/-- The dispatcher takes no signalled wait event off its queue in runs whose steps meet `ok`. -/
def TakesClear (A : Arch) (ok : Cfg A → Action → Prop) : Prop :=
  ∀ c p e c', (preempted A).Reach ok c → ok c (.take p e) →
    PreemptedStep c (.take p e) c' → ¬ Signalled c e

/-- A wait event is signalled only while its notification is not queued. -/
def SignalsUnqueued (c : Cfg A) (a : Action) : Prop :=
  ∀ e ev, a = .signalEvent e → c.state.events e = some ev → ev.notifySignal = false →
    ev.signalCount = 0 → ev.notifyLink = false

/-! ## The invariant -/

/-- A signalled wait event is not queued. -/
structure Clean (s : ExecState A) : Prop where
  queues : s.Queues
  unqueued : ∀ e ev, s.events e = some ev → ev.notifySignal = false → ev.signalCount ≠ 0 →
    ev.notifyLink = false

/-- The second half of `Clean` only depends on the table, entry by entry. -/
theorem Clean.update {s s' : ExecState A} (h : Clean s) (hq : s'.Queues) {e : EventId}
    {next : Option IEvent} (hev : s'.events = Function.update s.events e next)
    (hnext : ∀ ev, next = some ev → ev.notifySignal = false → ev.signalCount ≠ 0 →
      ev.notifyLink = false) : Clean s' := by
  refine ⟨hq, fun x evx hevx hn hc => ?_⟩
  rw [hev] at hevx
  by_cases hxe : x = e
  · subst hxe
    rw [Function.update_self] at hevx
    exact hnext evx hevx hn hc
  · rw [Function.update_of_ne hxe] at hevx
    exact h.unqueued x evx hevx hn hc

theorem Clean.initial : Clean (initializeEvent A) where
  queues := initializeEvent_queues
  unqueued := by intro e ev he; cases he

theorem Clean.step {c c' : Cfg A} {a : Action} (h : Clean c.state) (hok : SignalsUnqueued c a)
    (hs : PreemptedStep c a c') : Clean c'.state := by
  have hq := hs.queues h.queues
  cases hs.change with
  | same hev => exact ⟨hq, by rw [hev]; exact h.unqueued⟩
  | created e ev _ hcount _ hev =>
    refine h.update hq hev ?_
    rintro _ ⟨⟩ _ hc
    exact absurd hcount hc
  | signalled e ev ha he hz hev =>
    refine h.update hq hev ?_
    rintro _ ⟨⟩ hn _
    have hn' : ev.notifySignal = false := hn
    simp [hn', hok e ev ha he hn' hz]
  | queued e ev he hz hev =>
    refine h.update hq hev ?_
    rintro _ ⟨⟩ _ hc
    exact absurd hz hc
  | taken p e ev _ _ he hev =>
    refine h.update hq hev ?_
    rintro _ ⟨⟩ _ _
    rfl
  | consumed e ev _ he hev =>
    refine h.update hq hev ?_
    rintro _ ⟨⟩ _ hc
    exact absurd rfl hc
  | closed e _ hev =>
    refine h.update hq hev ?_
    rintro _ ⟨⟩

theorem Clean.of_reach {c : Cfg A} (h : (preempted A).Reach SignalsUnqueued c) :
    Clean c.state := by
  refine h.rule (I := fun c => Clean c.state) ?_ ?_
  · rintro _ rfl
    exact Clean.initial
  · intro s a s' hs hok hstep
    exact hs.step hok hstep

/-- A signalled wait event is not at the head of a queue. -/
theorem takesClear_of_unqueued (A : Arch) : TakesClear A SignalsUnqueued := by
  rintro c p e c' hrun _ ⟨hs⟩ ⟨ev, he, hn, hc⟩
  have hclean := Clean.of_reach hrun
  cases hs with
  | @take s _ _ es _ K hq _ =>
    refine hclean.queues.not_mem he (hclean.unqueued e ev he hn hc) p ?_
    rw [show s.eventQueue p = e :: es from hq]
    exact List.mem_cons_self

/-! ## The promise and the dispatcher -/

/-- A signalled event survives every step but its consumption and its dispatch. -/
theorem Signalled.step {c c' : Cfg A} {a : Action} (hs : PreemptedStep c a c') {e : EventId}
    (ha : ¬ (a = .consume e ∨ a = .closeEvent e)) (htake : ∀ p, a ≠ .take p e)
    (hsig : Signalled c e) : Signalled c' e := by
  obtain ⟨ev, he, hn, hc⟩ := hsig
  -- the step may rewrite another event, or rewrite this one without clearing it
  have other : ∀ x next, c'.state.events = Function.update c.state.events x next →
      x ≠ e → Signalled c' e := by
    intro x next hev hxe
    exact ⟨ev, by rw [hev, Function.update_of_ne (Ne.symm hxe)]; exact he, hn, hc⟩
  cases hs.change with
  | same hev => exact ⟨ev, by rw [hev]; exact he, hn, hc⟩
  | created x evx hx _ _ hev =>
    refine other x _ hev ?_
    rintro rfl
    rw [he] at hx
    cases hx
  | signalled x evx _ hx hz hev =>
    refine other x _ hev ?_
    rintro rfl
    rw [he] at hx
    cases hx
    exact hc hz
  | queued x evx hx hz hev =>
    refine other x _ hev ?_
    rintro rfl
    rw [he] at hx
    cases hx
    exact hc hz
  | taken p x evx hax _ hx hev =>
    refine other x _ hev ?_
    rintro rfl
    exact htake p hax
  | consumed x evx hax hx hev =>
    refine other x _ hev ?_
    rintro rfl
    exact ha (.inl hax)
  | closed x hax hev =>
    refine other x _ hev ?_
    rintro rfl
    exact ha (.inr hax)

/-- The dispatcher leaves the event it takes not signalled. -/
theorem not_signalled_of_take {c c' : Cfg A} {p : Nat} {e : EventId}
    (hs : PreemptedStep c (.take p e) c') : ¬ Signalled c' e := by
  rintro ⟨ev', he', _, hc'⟩
  obtain ⟨hs⟩ := hs
  cases hs with
  | @take s _ _ es ev K hq he =>
    rw [releaseLock_events, takeNotify_events, Function.update_self] at he'
    cases he'
    exact hc' rfl

theorem signalled_of_signalEvent {c c' : Cfg A} {e : EventId} {ev : IEvent}
    (he : c.state.events e = some ev) (hn : ev.notifySignal = false)
    (hs : PreemptedStep c (.signalEvent e) c') : Signalled c' e := by
  obtain ⟨hs⟩ := hs
  cases hs with
  | @signalEvent s _ _ _ ev' he' =>
    rw [show s.events e = some ev from he] at he'
    cases he'
    by_cases hz : ev.signalCount = 0
    · refine ⟨{ ev with
        signalCount := ev.signalCount + 1
        notifyLink := ev.notifySignal || ev.notifyLink }, ?_, hn, ?_⟩
      · rw [releaseLock_events, signalEvent_events_of_clear hz, Function.update_self]
      · rw [hz]
        exact (by decide : (0 + 1 : BitVec 32) ≠ 0)
    · refine ⟨ev, ?_, hn, hz⟩
      rw [releaseLock_events, signalEvent_of_set hz]
      exact he
  | @signalEventInvalid s _ _ _ hnone =>
    rw [show s.events e = some ev from he] at hnone
    cases hnone

theorem success_of_consume {c c' : Cfg A} {e : EventId}
    (hs : PreemptedStep c (.consume e) c') :
    ∃ tpl K, c'.stack = .restoreLoop tpl :: .checkReturn e .success :: K := by
  obtain ⟨hs⟩ := hs
  cases hs with
  | @checkConsume s _ ev K he hne =>
    refine ⟨(s.acquireLock.checkClear e ev).1.ownerTpl, K, ?_⟩
    rw [checkClear_of_set hne]
    rfl

theorem not_signalled_of_notReady {c c' : Cfg A} {e : EventId}
    (hs : PreemptedStep c (.notReady e) c') : ¬ Signalled c e := by
  rintro ⟨ev, he, _, hc⟩
  obtain ⟨hs⟩ := hs
  cases hs with
  | @checkLookClear s _ ev' _ he' hz | @checkMissed s _ ev' _ he' hz =>
    rw [show s.events e = some ev from he] at he'
    cases he'
    exact hc hz

theorem takesClear_of_keepsSignals {ok : Cfg A → Action → Prop} (h : KeepsSignals A ok) :
    TakesClear A ok := by
  intro c p e c' hrun hok hs hsig
  have hpath : (preempted A).Path ok c [.take p e] c' := .cons hok hs .nil
  refine not_signalled_of_take hs (h.stays c _ c' e hrun hpath hsig ?_)
  intro a ha
  cases List.mem_singleton.mp ha
  exact ⟨nofun, nofun⟩

theorem keepsSignals_of_takesClear {ok : Cfg A → Action → Prop} (h : TakesClear A ok) :
    KeepsSignals A ok where
  sets := fun _ _ _ _ _ he hn _ hs => signalled_of_signalEvent he hn hs
  stays := by
    intro c as c' e hrun hpath hsig hends
    refine hpath.persist (I := fun c => (preempted A).Reach ok c)
      (P := fun c => Signalled c e) (E := fun a => a = .consume e ∨ a = .closeEvent e)
      ?_ ?_ hrun ?_ hsig
    · intro s a s' hs hok hstep
      exact hs.next hok hstep
    · intro s a s' hs hok hstep hnot hP
      refine Signalled.step hstep hnot ?_ hP
      rintro p rfl
      exact h s p e s' hs hok hstep hP
    · intro a ha
      exact not_or.mpr (hends a ha)
  success := fun _ _ _ _ hs => success_of_consume hs
  notReady := fun _ _ _ _ hs => not_signalled_of_notReady hs

/-- Signals are kept exactly in the runs whose dispatcher takes no signalled wait event off its
    queue; to signal wait events only while they are not queued is enough. -/
theorem keepsSignals_iff_takesClear (A : Arch) :
    (∀ ok, KeepsSignals A ok ↔ TakesClear A ok) ∧ KeepsSignals A SignalsUnqueued :=
  ⟨fun _ => ⟨takesClear_of_keepsSignals, keepsSignals_of_takesClear⟩,
    keepsSignals_of_takesClear (takesClear_of_unqueued A)⟩

/-! ## A signal thrown away -/

/-- A wait event checked at `TPL_HIGH_LEVEL` and then signalled is taken off its queue when the
    level is restored. -/
theorem take_of_signalled_wait : ∃ c c' : Cfg .efi32,
    (preempted .efi32).Reach Machine.anyStep c ∧ PreemptedStep c (.take 8 1) c' ∧
      Signalled c 1 := by
  have start : (preempted .efi32).Reach Machine.anyStep (Cfg.initial .efi32) := .start rfl
  have created := start.next trivial
    (.step (@Step.createEvent _ _ _ _ evtNotifyWait 8 (some 0) 0 _ 1 rfl (by decide) rfl))
  have done := created.next trivial (.step (Step.loopDone BitVec.and_zero))
  have restored := done.next trivial (.step Step.restored)
  have raised := restored.next trivial
    (.step (@Step.raiseTPL _ _ _ _ tplHighLevel (by decide) (by decide)))
  -- the first check queues the notification, which has to wait for the level
  have checks := raised.next trivial (.step (Step.checkEvent (e := 1) rfl rfl))
  have entered := checks.next trivial (.step (Step.checkEntry rfl))
  have queued := entered.next trivial (.step (Step.checkQueue rfl))
  have waits := queued.next trivial (.step (Step.loopDone (by decide)))
  have looks := waits.next trivial (.step Step.restored)
  have notReady := looks.next trivial (.step (Step.checkLookClear rfl rfl))
  have checked := notReady.next trivial (.step Step.checked)
  have signalled := checked.next trivial (.step (Step.signalEvent (e := 1) rfl))
  have waits' := signalled.next trivial (.step (Step.loopDone (by decide)))
  have restored' := waits'.next trivial (.step Step.restored)
  -- lowering the level dispatches it
  have lowers := restored'.next trivial
    (.step (@Step.restoreTPL _ _ _ _ tplApplication (by decide) (by decide)))
  have scans := lowers.next trivial (.step (Step.loopTake (by decide)))
  have takes := scans.next trivial
    (.step (@Step.takeLevel _ _ _ _ 8 (by decide)))
  exact ⟨_, _, takes, .step (Step.take rfl rfl), _, rfl, rfl, by decide⟩

theorem not_keepsSignals : ¬ KeepsSignals .efi32 Machine.anyStep := by
  intro h
  obtain ⟨c, c', hrun, hs, hsig⟩ := take_of_signalled_wait
  exact takesClear_of_keepsSignals h c 8 1 c' hrun trivial hs hsig

end EfiCore.Exec
