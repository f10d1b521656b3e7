import EfiCore.Exec.Queue

/-! # Delivery of notifications

What `RestoreTPL` and the dispatcher promise, and the invariant that carries it.  Two facts
drive the proof: every queued event has its bit in `EventPending` (`Marked`), and nothing is
queued above the current level (`Inv.quiet`).  The second survives because the stack of
activations is well levelled: each suspended activation is resumed at the level it was
suspended at (`Resumes`).

On `EFI64` an event of level `TPL_HIGH_LEVEL` breaks the first step of it all: `1 << 31` is
negative, so its conversion sets every bit from 31 on and `HighestSetBit` reads past `HSB`.
-/

namespace EfiCore.Exec

open EfiCore.Lib ExecState Cfg

variable {A : Arch}

/-! ## The promise -/

/-- What holds in a state, and of every step taken there, when notifications are delivered
    in order. -/
structure Delivers (c : Cfg A) : Prop where
  /-- A queue is non-empty only if its bit is pending. -/
  pending : ∀ p, c.state.eventQueue p ≠ [] → c.state.eventPending.getLsbD p = true
  /-- Where `HighestSetBit` runs, it stays inside `HSB`. -/
  index : ∀ newTpl K, c.stack = .restoreTake newTpl :: K → hsbIndex c.state.eventPending < 256
  /-- Where `HighestSetBit` runs, it returns the highest pending level, above `NewTpl`. -/
  highest : ∀ newTpl K, c.stack = .restoreTake newTpl :: K →
    ∃ p, highestSetBit c.state.eventPending = some p ∧ newTpl < p ∧ p ≤ tplHighLevel ∧
      c.state.eventPending.getLsbD p = true ∧
      ∀ q, p < q → c.state.eventPending.getLsbD q = false
  /-- The dispatcher takes the head of the highest non-empty queue, for a `RestoreTPL` to a
      lower level. -/
  take : ∀ p e c', Step c (.take p e) c' →
    c.state.tpl = p ∧ (∀ q, p < q → c.state.eventQueue q = []) ∧
      c.state.eventQueue p = e :: c'.state.eventQueue p ∧
      ∃ newTpl K, c.stack = .dispatch p :: .restoreLoop newTpl :: K ∧ newTpl < p
  /-- A notify function is called at the level of its event, with nothing queued above. -/
  call : ∀ p e c', Step c (.call p e) c' →
    c'.state.tpl = p ∧ (∃ ev, c.state.events e = some ev ∧ ev.notifyTpl = p) ∧
      ∀ q, p < q → c.state.eventQueue q = []
  /-- Queues are first in, first out. -/
  order : ∀ a c', Step c a c' →
    ∀ p, Order a p (c.state.eventQueue p) (c'.state.eventQueue p)
  /-- `RestoreTPL` returns at the level asked for, with nothing queued above it. -/
  restored : ∀ newTpl c', Step c (.restored newTpl) c' →
    c'.state.tpl = newTpl ∧ ∀ q, newTpl < q → c'.state.eventQueue q = []

/-- The action puts an event with structure `ev` on its queue. -/
def Enqueues (c : Cfg A) (a : Action) (ev : IEvent) : Prop :=
  ∃ e, c.state.events e = some ev ∧ ev.signalCount = 0 ∧
    (a = .signalEvent e ∧ ev.notifySignal = true ∨ a = .queue e)

/-- Where `UINTN` has 64 bits, no event of level `TPL_HIGH_LEVEL` is queued. -/
def LevelsFit (c : Cfg A) (a : Action) : Prop :=
  ∀ ev, Enqueues c a ev → A = .efi32 ∨ ev.notifyTpl < tplHighLevel

/-! ## The pending word covers the queues -/

structure Marked (s : ExecState A) : Prop where
  bit : ∀ p, s.eventQueue p ≠ [] → s.eventPending.getLsbD p = true
  low : ∀ q, 32 ≤ q → s.eventPending.getLsbD q = false

theorem Marked.congr {s s' : ExecState A} (h : Marked s) (hq : s'.eventQueue = s.eventQueue)
    (hp : s'.eventPending = s.eventPending) : Marked s' := by
  constructor
  · rw [hq, hp]; exact h.bit
  · rw [hp]; exact h.low

/-- Taking events off queues needs no change of the pending word. -/
theorem Marked.shrink {s s' : ExecState A} (h : Marked s)
    (hq : ∀ p, s'.eventQueue p ≠ [] → s.eventQueue p ≠ [])
    (hp : s'.eventPending = s.eventPending) : Marked s' := by
  constructor
  · intro p hne
    rw [hp]
    exact h.bit p (hq p hne)
  · rw [hp]; exact h.low

theorem levelBit_low {p : Nat} (hfit : A = .efi32 ∨ p < tplHighLevel) (hp : p ≤ tplHighLevel)
    {q : Nat} (hq : 32 ≤ q) : (levelBit A p).getLsbD q = false := by
  rw [getLsbD_levelBit hp, decide_eq_false_iff_not]
  rcases hfit with rfl | hlt
  · simp only [Arch.bits, tplHighLevel] at *
    omega
  · simp only [tplHighLevel] at *
    omega

theorem Marked.notifyEvent {s : ExecState A} (h : Marked s) (hs : s.Queues) {e : EventId}
    {ev : IEvent} (he : s.events e = some ev)
    (hfit : A = .efi32 ∨ ev.notifyTpl < tplHighLevel) : Marked (s.notifyEvent e ev) := by
  have hle := hs.level e ev he
  constructor
  · intro p hne
    rw [notifyEvent_eventPending, BitVec.getLsbD_or]
    by_cases hp : p = ev.notifyTpl
    · subst hp
      rw [getLsbD_levelBit hle]
      simp
    · rw [notifyEvent_eventQueue hs he, Function.update_of_ne hp] at hne
      rw [h.bit p hne, Bool.true_or]
  · intro q hq
    rw [notifyEvent_eventPending, BitVec.getLsbD_or, h.low q hq, levelBit_low hfit hle hq,
      Bool.or_false]

theorem Marked.clearLevel {s : ExecState A} (h : Marked s) (hs : s.Queues) {p : Nat}
    (hp : p ≤ tplHighLevel) (hempty : s.eventQueue p = []) : Marked (s.clearLevel p) := by
  constructor
  · intro q hne
    rw [clearLevel_eventQueue] at hne
    have hbit := h.bit q hne
    have hqp : q ≠ p := fun hqp => hne (hqp ▸ hempty)
    have hq31 : q ≤ tplHighLevel := by
      obtain ⟨e, hm⟩ := List.exists_mem_of_ne_nil _ hne
      obtain ⟨ev, hev, _, rfl⟩ := hs.mem q e hm
      exact hs.level e ev hev
    have hA := bits_ge A
    rw [clearLevel_eventPending, BitVec.getLsbD_and, hbit, getLsbD_levelMask hp, Bool.true_and,
      decide_eq_true_eq]
    simp only [tplHighLevel] at *
    omega
  · intro q hq
    rw [clearLevel_eventPending, BitVec.getLsbD_and, h.low q hq, Bool.false_and]

theorem Marked.signalEvent {s : ExecState A} (h : Marked s) (hs : s.Queues) {e : EventId}
    {ev : IEvent} (he : s.events e = some ev)
    (hfit : ev.signalCount = 0 → ev.notifySignal = true →
      A = .efi32 ∨ ev.notifyTpl < tplHighLevel) : Marked (s.signalEvent e ev) := by
  unfold ExecState.signalEvent
  dsimp only
  split
  · rename_i hz
    have hset := @Queues.setEvent _ _ hs _ _ { ev with signalCount := ev.signalCount + 1 } he rfl rfl
    have hm : Marked (s.setEvent e { ev with signalCount := ev.signalCount + 1 }) :=
      h.congr rfl rfl
    split
    · rename_i hn
      exact hm.notifyEvent hset (Function.update_self ..) (hfit hz hn)
    · exact hm
  · exact h

theorem Marked.checkQueue {s : ExecState A} (h : Marked s) (hs : s.Queues) {e : EventId}
    {ev : IEvent} (he : s.events e = some ev)
    (hfit : ev.signalCount = 0 → A = .efi32 ∨ ev.notifyTpl < tplHighLevel) :
    Marked (s.checkQueue e ev) := by
  unfold ExecState.checkQueue
  split
  · rename_i hz
    exact h.notifyEvent hs he (hfit hz)
  · exact h

/-! ## The stack is well levelled -/

/-- The loop of `RestoreTPL` a dispatcher runs in. -/
def Under (priority : Nat) (K : List Frame) : Prop :=
  ∃ newTpl K', K = .restoreLoop newTpl :: K' ∧ newTpl < priority

/-- `Resumes r K`: the activations `K` may be resumed at level `r`. -/
def Resumes : Nat → List Frame → Prop
  | _, [] => True
  | r, .user base :: K => base ≤ r ∧ Resumes base K
  | r, .restoreLoop newTpl :: K => newTpl ≤ r ∧ Resumes newTpl K
  | r, .restoreTake newTpl :: K => newTpl ≤ r ∧ Resumes newTpl K
  | r, .restoreDone newTpl :: K => newTpl ≤ r ∧ Resumes newTpl K
  | r, .dispatch priority :: K => r = priority ∧ Under priority K ∧ Resumes priority K
  | r, .notifyCall priority _ :: K => r = priority ∧ Under priority K ∧ Resumes priority K
  | r, .checkEntry _ :: K => Resumes r K
  | r, .checkQueue _ :: K => Resumes r K
  | r, .checkLook _ :: K => Resumes r K
  | r, .checkClear _ :: K => Resumes r K
  | r, .checkReturn _ _ :: K => Resumes r K

/-- The notify call a chain of dispatchers is on its way to. -/
def pendingCall : List Frame → Option (Nat × EventId)
  | .notifyCall priority e :: _ => some (priority, e)
  | .restoreLoop _ :: K => pendingCall K
  | .restoreTake _ :: K => pendingCall K
  | .restoreDone _ :: K => pendingCall K
  | .dispatch _ :: K => pendingCall K
  | _ => none

theorem pendingCall_le {K : List Frame} {r p : Nat} {e : EventId} (hr : Resumes r K)
    (hc : pendingCall K = some (p, e)) : p ≤ r := by
  induction K generalizing r with
  | nil => simp [pendingCall] at hc
  | cons f K ih =>
    cases f with
    | notifyCall priority _ =>
      simp only [pendingCall, Option.some.injEq, Prod.mk.injEq] at hc
      exact le_of_eq (hc.1.symm.trans hr.1.symm)
    | restoreLoop | restoreTake | restoreDone => exact (ih hr.2 hc).trans hr.1
    | dispatch => exact (ih hr.2.2 hc).trans_eq hr.1.symm
    | user | checkEntry | checkQueue | checkLook | checkClear | checkReturn =>
      simp [pendingCall] at hc

/-- A frame of `RestoreTPL` or of the dispatcher on its way to a notify call. -/
def Frame.transit : Frame → Bool
  | .restoreLoop _ | .restoreTake _ | .restoreDone _ | .dispatch _ => true
  | _ => false

/-- A suspended `RestoreTPL` waits at the test of its loop, not inside its body. -/
def Parked : List Frame → Prop
  | .restoreTake _ :: _ => False
  | .restoreDone _ :: _ => False
  | _ => True

/-- User code, a check or a notify call never sits above an unfinished notify call. -/
def Shape : List Frame → Prop
  | [] => True
  | f :: K => Parked K ∧ (f.transit = false → pendingCall K = none) ∧ Shape K

/-- What the running frame knows about the pending word. -/
def Knows (c : Cfg A) : Prop :=
  match c.stack with
  | .restoreTake newTpl :: _ => aboveMask A newTpl &&& c.state.eventPending ≠ 0
  | .restoreDone newTpl :: _ => aboveMask A newTpl &&& c.state.eventPending = 0
  | _ => True

theorem Knows.of_parked {c : Cfg A} (h : Parked c.stack) : Knows c := by
  unfold Knows
  split <;> simp_all [Parked]

/-- The notify call on the way finds its event in place and nothing above it. -/
def CallReady (s : ExecState A) (K : List Frame) : Prop :=
  ∀ p e, pendingCall K = some (p, e) →
    (∀ q, p < q → s.eventQueue q = []) ∧ ∃ ev, s.events e = some ev ∧ ev.notifyTpl = p

theorem CallReady.of_none {s : ExecState A} {K : List Frame} (h : pendingCall K = none) :
    CallReady s K := by
  intro p e hc
  simp [h] at hc

theorem CallReady.congr {s s' : ExecState A} {K K' : List Frame} (h : CallReady s K)
    (hK : pendingCall K' = pendingCall K) (hq : s'.eventQueue = s.eventQueue)
    (he : s'.events = s.events) : CallReady s' K' := by
  intro p e hc
  rw [hq, he]
  exact h p e (hK ▸ hc)

/-! ## The sections leave the level and its owner alone -/

section Locked

variable (s : ExecState A) (e : EventId) (ev : IEvent)

theorem notifyEvent_lock :
    (s.notifyEvent e ev).tpl = s.tpl ∧ (s.notifyEvent e ev).ownerTpl = s.ownerTpl := by
  unfold notifyEvent
  split <;> exact ⟨rfl, rfl⟩

theorem signalEvent_lock :
    (s.signalEvent e ev).tpl = s.tpl ∧ (s.signalEvent e ev).ownerTpl = s.ownerTpl := by
  unfold ExecState.signalEvent
  dsimp only
  split
  · split
    · exact notifyEvent_lock ..
    · exact ⟨rfl, rfl⟩
  · exact ⟨rfl, rfl⟩

theorem checkQueue_lock :
    (s.checkQueue e ev).tpl = s.tpl ∧ (s.checkQueue e ev).ownerTpl = s.ownerTpl := by
  unfold ExecState.checkQueue
  split
  · exact notifyEvent_lock ..
  · exact ⟨rfl, rfl⟩

theorem checkClear_lock :
    (s.checkClear e ev).1.tpl = s.tpl ∧ (s.checkClear e ev).1.ownerTpl = s.ownerTpl := by
  unfold ExecState.checkClear
  split <;> exact ⟨rfl, rfl⟩

theorem closeEvent_lock :
    (s.closeEvent e ev).tpl = s.tpl ∧ (s.closeEvent e ev).ownerTpl = s.ownerTpl := by
  unfold ExecState.closeEvent
  split <;> exact ⟨rfl, rfl⟩

theorem createEvent_lock :
    (s.createEvent e ev).tpl = s.tpl ∧ (s.createEvent e ev).ownerTpl = s.ownerTpl := by
  unfold ExecState.createEvent
  dsimp only
  split <;> split <;> exact ⟨rfl, rfl⟩

end Locked

@[simp] theorem checkClear_eventQueue (s : ExecState A) (e : EventId) (ev : IEvent) :
    (s.checkClear e ev).1.eventQueue = s.eventQueue := by
  unfold ExecState.checkClear
  split <;> rfl

@[simp] theorem checkClear_eventPending (s : ExecState A) (e : EventId) (ev : IEvent) :
    (s.checkClear e ev).1.eventPending = s.eventPending := by
  unfold ExecState.checkClear
  split <;> rfl

@[simp] theorem closeEvent_eventPending (s : ExecState A) (e : EventId) (ev : IEvent) :
    (s.closeEvent e ev).eventPending = s.eventPending := by
  unfold ExecState.closeEvent
  split <;> rfl

@[simp] theorem createEvent_eventPending (s : ExecState A) (e : EventId) (ev : IEvent) :
    (s.createEvent e ev).eventPending = s.eventPending := by
  unfold ExecState.createEvent
  dsimp only
  split <;> split <;> rfl

/-! ## The invariant -/

structure Inv (c : Cfg A) : Prop where
  queues : c.state.Queues
  marked : Marked c.state
  tpl_le : c.state.tpl ≤ tplHighLevel
  resumes : Resumes c.state.tpl c.stack
  quiet : ∀ p, c.state.tpl < p → c.state.eventQueue p = []
  shape : Shape c.stack
  ready : CallReady c.state c.stack
  knows : Knows c

/-- Above `TPL_HIGH_LEVEL` every queue is empty. -/
theorem Queues.empty_above {s : ExecState A} (h : s.Queues) {p : Nat} (hp : tplHighLevel < p) :
    s.eventQueue p = [] := by
  by_contra hne
  obtain ⟨e, hm⟩ := List.exists_mem_of_ne_nil _ hne
  obtain ⟨ev, hev, _, rfl⟩ := h.mem p e hm
  exact absurd (h.level e ev hev) (by omega)

/-- A section that ends by releasing the lock leaves the invariant to prove of what it wrote. -/
theorem Inv.release {s s' : ExecState A} {K : List Frame} (hq : s'.Queues) (hm : Marked s')
    (htpl : s'.tpl = tplHighLevel) (howner : s'.ownerTpl = s.tpl)
    (hle : s.tpl ≤ tplHighLevel) (hr : Resumes s.tpl K) (hparked : Parked K) (hshape : Shape K)
    (hready : CallReady s' K) : Inv (releaseLock s' K) := by
  have htpl' : (releaseLock s' K).state.tpl = tplHighLevel := by
    rw [releaseLock, enterRestoreTPL_tpl _ _ (le_of_eq htpl), htpl]
  refine ⟨hq.enterRestoreTPL _, hm.congr (by simp [releaseLock]) (by simp [releaseLock]),
    le_of_eq htpl', ?_, ?_, ?_, ?_, trivial⟩
  · rw [htpl', releaseLock, howner]
    exact ⟨hle, hr⟩
  · intro p hp
    rw [htpl'] at hp
    exact Queues.empty_above (hq.enterRestoreTPL _) hp
  · exact ⟨hparked, fun hf => Bool.noConfusion hf, hshape⟩
  · exact hready.congr rfl (by simp [releaseLock]) (by simp [releaseLock])

theorem Inv.initial : Inv (Cfg.initial A) where
  queues := initializeEvent_queues
  marked := ⟨fun _ h => absurd rfl h, fun _ _ => BitVec.getLsbD_zero⟩
  tpl_le := show tplApplication ≤ tplHighLevel by decide
  resumes := ⟨Nat.zero_le _, trivial⟩
  quiet := fun _ _ => rfl
  shape := ⟨trivial, fun _ => rfl, trivial⟩
  ready := CallReady.of_none rfl
  knows := trivial

/-! ### What the running frame gains from the invariant -/

theorem Marked.empty_of_clear {s : ExecState A} (h : Marked s) {q : Nat}
    (hq : s.eventPending.getLsbD q = false) : s.eventQueue q = [] := by
  by_contra hne
  simp [h.bit q hne] at hq

/-- In the loop of `RestoreTPL` the scan succeeds. -/
theorem Inv.scans {c : Cfg A} (h : Inv c) {newTpl : Nat} {K : List Frame}
    (hstack : c.stack = .restoreTake newTpl :: K) :
    ∃ p, highestSetBit c.state.eventPending = some p ∧ p ≤ tplHighLevel ∧
      c.state.eventPending.getLsbD p = true ∧
      ∀ q, p < q → c.state.eventPending.getLsbD q = false := by
  have hk := h.knows
  simp only [Knows, hstack] at hk
  apply highestSetBit_spec h.marked.low
  intro hz
  exact hk (by rw [hz]; exact BitVec.and_zero)

theorem Inv.newTpl_le {c : Cfg A} (h : Inv c) {newTpl : Nat} {K : List Frame}
    (hstack : c.stack = .restoreTake newTpl :: K ∨ c.stack = .restoreDone newTpl :: K) :
    newTpl ≤ tplHighLevel := by
  have hr := h.resumes
  rcases hstack with hstack | hstack <;> rw [hstack] at hr <;> exact hr.1.trans h.tpl_le

/-- The level the loop of `RestoreTPL` takes is the highest pending one, above `NewTpl`. -/
theorem Inv.takes {c : Cfg A} (h : Inv c) {newTpl p : Nat} {K : List Frame}
    (hstack : c.stack = .restoreTake newTpl :: K)
    (hp : highestSetBit c.state.eventPending = some p) :
    newTpl < p ∧ p ≤ tplHighLevel ∧ c.state.eventPending.getLsbD p = true ∧
      ∀ q, p < q → c.state.eventPending.getLsbD q = false := by
  obtain ⟨p', hp', hle, hbit, hhigh⟩ := h.scans hstack
  rw [hp, Option.some.injEq] at hp'
  subst hp'
  refine ⟨?_, hle, hbit, hhigh⟩
  have hk := h.knows
  simp only [Knows, hstack] at hk
  obtain ⟨q, hq, hqbit⟩ :=
    (aboveMask_and_ne_zero (h.newTpl_le (.inl hstack)) h.marked.low).mp hk
  by_contra hno
  simp [hhigh q (by omega)] at hqbit

/-- After the loop of `RestoreTPL` nothing above `NewTpl` is queued. -/
theorem Inv.drained {c : Cfg A} (h : Inv c) {newTpl : Nat} {K : List Frame}
    (hstack : c.stack = .restoreDone newTpl :: K) :
    ∀ q, newTpl < q → c.state.eventQueue q = [] := by
  intro q hq
  by_contra hne
  have hk := h.knows
  simp only [Knows, hstack] at hk
  exact (aboveMask_and_ne_zero (h.newTpl_le (.inr hstack)) h.marked.low).mpr
    ⟨q, hq, h.marked.bit q hne⟩ hk

/-- A dispatcher on its way to a notify call finds its own queue empty, so a dispatcher that
    takes an event is not on such a way. -/
theorem Inv.noCall_of_take {c : Cfg A} (h : Inv c) {p : Nat} {K : List Frame}
    (hstack : c.stack = .dispatch p :: K) (hne : c.state.eventQueue p ≠ []) :
    pendingCall K = none := by
  cases hc : pendingCall K with
  | none => rfl
  | some call =>
    obtain ⟨p', e'⟩ := call
    have hr := h.resumes
    rw [hstack] at hr
    obtain ⟨_, ⟨newTpl, K', rfl, hnew⟩, _, hres⟩ := hr
    have hle : p' ≤ newTpl := pendingCall_le hres hc
    obtain ⟨hempty, _⟩ := h.ready p' e' (by rw [hstack]; exact hc)
    exact absurd (hempty p (by omega)) hne

theorem Inv.step {c c' : Cfg A} {a : Action} (h : Inv c) (hfit : LevelsFit c a)
    (hs : Step c a c') : Inv c' := by
  have hqueues := hs.queues h.queues
  have hl := h.queues.acquireLock
  have hml : Marked c.state.acquireLock := h.marked.congr rfl rfl
  cases hs with
  | createEventFails | signalEventInvalid | checkEventInvalid | closeEventInvalid => exact h
  | raiseTPL hle hmax =>
    exact ⟨hqueues, h.marked.congr rfl rfl, hmax, ⟨h.resumes.1.trans hle, h.resumes.2⟩,
      fun p hp => h.quiet p (lt_of_le_of_lt hle hp), h.shape, CallReady.of_none rfl, trivial⟩
  | @restoreTPL s base K newTpl hbase hle =>
    have htpl : (s.enterRestoreTPL newTpl).tpl = s.tpl := enterRestoreTPL_tpl _ _ h.tpl_le
    refine ⟨hqueues, h.marked.congr (by simp) (by simp), htpl ▸ h.tpl_le, ?_, ?_,
      ⟨trivial, fun hf => Bool.noConfusion hf, h.shape⟩, CallReady.of_none rfl, trivial⟩
    · rw [htpl]
      exact ⟨hle, hbase, h.resumes.2⟩
    · rw [htpl]
      simpa using h.quiet
  | @createEvent s base K _ _ _ _ ev e hc _ hn =>
    obtain ⟨_, _, hlink, hlevel, _⟩ := createEventCheck_ok hc
    exact Inv.release (hl.createEvent hn hlink hlevel) (hml.congr (by simp) (by simp))
      (createEvent_lock ..).1 (createEvent_lock ..).2 h.tpl_le h.resumes trivial h.shape
      (CallReady.of_none rfl)
  | @signalEvent s base K e ev he =>
    have hm : Marked (s.acquireLock.signalEvent e ev) :=
      hml.signalEvent hl he fun hz hn => hfit ev ⟨e, he, hz, .inl ⟨rfl, hn⟩⟩
    exact Inv.release (hl.signalEvent he) hm (signalEvent_lock ..).1 (signalEvent_lock ..).2
      h.tpl_le h.resumes trivial h.shape (CallReady.of_none rfl)
  | checkEvent =>
    exact ⟨hqueues, h.marked, h.tpl_le, h.resumes, h.quiet, ⟨trivial, fun _ => rfl, h.shape⟩,
      CallReady.of_none rfl, trivial⟩
  | @closeEvent s base K e ev he =>
    have hm : Marked (s.acquireLock.closeEvent e ev) := by
      refine hml.shrink (fun p hne hnil => hne ?_) (by simp)
      rw [closeEvent_eventQueue hl he]
      by_cases hp : p = ev.notifyTpl
      · subst hp
        simp only [acquireLock_eventQueue] at hnil
        simp [hnil]
      · rwa [Function.update_of_ne hp]
    exact Inv.release (hl.closeEvent he) hm (closeEvent_lock ..).1 (closeEvent_lock ..).2
      h.tpl_le h.resumes trivial h.shape (CallReady.of_none rfl)
  | @«return» s base f K htpl =>
    subst htpl
    exact ⟨hqueues, h.marked, h.tpl_le, h.resumes.2, h.quiet, h.shape.2.2,
      CallReady.of_none (h.shape.2.1 rfl), Knows.of_parked h.shape.1⟩
  | loopTake hne =>
    exact ⟨hqueues, h.marked, h.tpl_le, h.resumes, h.quiet, h.shape,
      h.ready.congr rfl rfl rfl, hne⟩
  | loopDone heq =>
    exact ⟨hqueues, h.marked, h.tpl_le, h.resumes, h.quiet, h.shape,
      h.ready.congr rfl rfl rfl, heq⟩
  | @takeLevel s newTpl K p hp =>
    obtain ⟨hnew, hle, hbit, hhigh⟩ := h.takes rfl hp
    have hempty : ∀ q, p < q → s.eventQueue q = [] := fun q hq =>
      h.marked.empty_of_clear (hhigh q hq)
    exact ⟨hqueues, h.marked.congr rfl rfl, hle,
      ⟨rfl, ⟨newTpl, K, rfl, hnew⟩, le_of_lt hnew, h.resumes.2⟩, hempty,
      ⟨trivial, fun hf => Bool.noConfusion hf, h.shape⟩, h.ready.congr rfl rfl rfl, trivial⟩
  | @restored s newTpl K =>
    have hnewle : newTpl ≤ tplHighLevel := h.resumes.1.trans h.tpl_le
    exact ⟨hqueues, h.marked.congr rfl rfl, hnewle, h.resumes.2, h.drained rfl, h.shape.2.2,
      h.ready.congr rfl rfl rfl, Knows.of_parked h.shape.1⟩
  | @take s p e es ev K hq he =>
    have hm : e ∈ s.acquireLock.eventQueue p := by
      rw [acquireLock_eventQueue, hq]
      exact List.mem_cons_self
    obtain ⟨htpl, ⟨newTpl, K', rfl, hnew⟩, hres⟩ := h.resumes
    have hnone := h.noCall_of_take rfl (by rw [hq]; exact List.cons_ne_nil _ _)
    have hmark : Marked (s.acquireLock.takeNotify p e ev) := by
      refine hml.shrink (fun q hne hnil => hne ?_) rfl
      simp only [takeNotify, setEvent_eventQueue]
      by_cases hqp : q = p
      · subst hqp
        rw [Function.update_self, hnil, List.erase_nil]
      · rw [Function.update_of_ne hqp, hnil]
    refine Inv.release (s := s) (hl.takeNotify hm he) hmark rfl rfl h.tpl_le
      ⟨htpl, ⟨newTpl, K', rfl, hnew⟩, hres⟩ trivial
      ⟨h.shape.1, fun _ => hnone, h.shape.2.2⟩ ?_
    intro p' e' hc
    cases hc
    refine ⟨fun q hpq => ?_, ⟨_, Function.update_self .., ?_⟩⟩
    · simp only [takeNotify, setEvent_eventQueue, Function.update_of_ne (Nat.ne_of_gt hpq)]
      exact h.quiet q (by rw [htpl]; exact hpq)
    · obtain ⟨ev', he', _, hp'⟩ := h.queues.mem p e (by rw [hq]; exact List.mem_cons_self)
      rw [show s.events e = some ev from he] at he'
      cases he'
      exact hp'
  | @call s p e K =>
    obtain ⟨htpl, hunder, hres⟩ := h.resumes
    exact ⟨hqueues, h.marked, h.tpl_le, ⟨le_rfl, htpl, hunder, hres⟩, h.quiet,
      ⟨trivial, fun _ => h.shape.2.1 rfl, h.shape.1, fun hf => Bool.noConfusion hf,
        h.shape.2.2⟩, CallReady.of_none rfl, trivial⟩
  | @drained s p K hempty =>
    obtain ⟨htpl, hunder, hres⟩ := h.resumes
    have hp : p ≤ tplHighLevel := htpl ▸ h.tpl_le
    have hc : (s.acquireLock.clearLevel p).Queues := hl.congr rfl rfl
    refine Inv.release (s := s) hc (hml.clearLevel hl hp hempty) rfl rfl h.tpl_le (htpl ▸ hres)
      h.shape.1 h.shape.2.2 (h.ready.congr rfl rfl rfl)
  | @checkEntry s e ev K he =>
    unfold checkEntryNext
    split <;>
      exact ⟨hqueues, h.marked, h.tpl_le, h.resumes, h.quiet, h.shape, CallReady.of_none rfl,
        trivial⟩
  | @checkQueue s e ev K he =>
    have hm : Marked (s.acquireLock.checkQueue e ev) :=
      hml.checkQueue hl he fun hz => hfit ev ⟨e, he, hz, .inr rfl⟩
    exact Inv.release (hl.checkQueue he) hm (checkQueue_lock ..).1 (checkQueue_lock ..).2
      h.tpl_le h.resumes trivial h.shape (CallReady.of_none rfl)
  | checkLookSet | checkLookClear =>
    exact ⟨hqueues, h.marked, h.tpl_le, h.resumes, h.quiet, h.shape, CallReady.of_none rfl,
      trivial⟩
  | @checkConsume s e ev K he | @checkMissed s e ev K he =>
    exact Inv.release (hl.checkClear he) (hml.congr (by simp) (by simp)) (checkClear_lock ..).1
      (checkClear_lock ..).2 h.tpl_le h.resumes trivial h.shape (CallReady.of_none rfl)
  | checked =>
    exact ⟨hqueues, h.marked, h.tpl_le, h.resumes, h.quiet, h.shape.2.2,
      CallReady.of_none (h.shape.2.1 rfl), Knows.of_parked h.shape.1⟩

/-! ## The invariant keeps the promise -/

theorem Inv.delivers {c : Cfg A} (h : Inv c) : Delivers c where
  pending := h.marked.bit
  index := fun _ _ _ => hsbIndex_lt (toNat_lt_of_getLsbD h.marked.low)
  highest := by
    intro newTpl K hstack
    obtain ⟨p, hp, hle, hbit, hhigh⟩ := h.scans hstack
    obtain ⟨hnew, _⟩ := h.takes hstack hp
    exact ⟨p, hp, hnew, hle, hbit, hhigh⟩
  take := by
    intro p e c' hs
    cases hs with
    | @take s _ _ es ev K hq he =>
      obtain ⟨htpl, ⟨newTpl, K', rfl, hnew⟩, _⟩ := h.resumes
      refine ⟨htpl, fun q hpq => h.quiet q (htpl ▸ hpq), ?_, newTpl, K', rfl, hnew⟩
      simp [releaseLock, takeNotify, hq]
  call := by
    intro p e c' hs
    cases hs with
    | call =>
      obtain ⟨hempty, hev⟩ := h.ready p e rfl
      exact ⟨h.resumes.1, hev, hempty⟩
  order := fun _ _ hs p => hs.order h.queues p
  restored := by
    intro newTpl c' hs
    cases hs with
    | restored => exact ⟨rfl, h.drained rfl⟩

/-- Every run in which no event of level `TPL_HIGH_LEVEL` is queued on `EFI64` delivers its
    notifications in order. -/
theorem delivers_of_levelsFit (A : Arch) (c : Cfg A) (hrun : (machine A).Reach LevelsFit c) :
    Delivers c := by
  have hinv : Inv c := by
    refine hrun.rule ?_ ?_
    · rintro _ rfl
      exact Inv.initial
    · intro s a s' h hfit hs
      exact h.step hfit hs
  exact hinv.delivers

/-! ## An event of level `TPL_HIGH_LEVEL` -/

/-- A signalled event of level `TPL_HIGH_LEVEL` brings `RestoreTPL` to its scan with
    `1 << 31` pending. -/
theorem scan_of_signalled_high (A : Arch) {ok : Cfg A → Action → Prop} (hok : ∀ c a, ok c a) :
    ∃ c : Cfg A, (machine A).Reach ok c ∧ c.stack = [.restoreTake tplApplication, .user 0] ∧
      c.state.eventPending = levelBit A tplHighLevel := by
  have start : (machine A).Reach ok (Cfg.initial A) := .start rfl
  have created := start.next (hok _ _)
    (@Step.createEvent _ _ _ _ evtNotifySignal tplHighLevel (some 0) 0 _ 1 rfl (by decide) rfl)
  have done := created.next (hok _ _) (Step.loopDone BitVec.and_zero)
  have restored := done.next (hok _ _) Step.restored
  have signalled := restored.next (hok _ _) (Step.signalEvent (e := 1) rfl)
  have scans := signalled.next (hok _ _) (Step.loopTake (by cases A <;> decide))
  exact ⟨_, scans, rfl, by cases A <;> rfl⟩

/-- Every state that runs of the event services reach delivers. -/
def AlwaysDelivers (A : Arch) : Prop :=
  ∀ c, (machine A).Reach Machine.anyStep c → Delivers c

theorem not_alwaysDelivers_efi64 : ¬ AlwaysDelivers .efi64 := by
  intro h
  obtain ⟨c, hrun, hstack, hpending⟩ :=
    @scan_of_signalled_high .efi64 Machine.anyStep (fun _ _ => trivial)
  have hindex := (h c hrun).index _ _ hstack
  rw [hpending] at hindex
  exact absurd hindex (by decide)

theorem delivers_high_efi32 :
    ∃ c : Cfg .efi32, c.stack = [.restoreTake tplApplication, .user 0] ∧
      c.state.eventPending = 0x80000000#32 ∧ Delivers c := by
  obtain ⟨c, hrun, hstack, hpending⟩ :=
    @scan_of_signalled_high .efi32 LevelsFit (fun _ _ _ _ => .inl rfl)
  exact ⟨c, hstack, hpending.trans rfl, delivers_of_levelsFit .efi32 c hrun⟩

end EfiCore.Exec
