import EfiCore.Exec.Drain

/-! # The timers as a schedule

What the timers are for: events that are due at times, which are natural numbers here.  As long as
no call makes a time wrap, `timer.c` shows this schedule: it holds the armed timers in their order,
`CheckTimers` signals those that are due, and a timer that is due has `EfiCheckTimerEvent`
signalled.
-/

namespace EfiCore.Exec

open EfiCore.Lib

/-! ## The schedule -/

structure Alarm where
  due : Nat
  /-- The period, 0 if the alarm goes off once. -/
  period : Nat
  deriving DecidableEq, Repr

structure Schedule where
  now : Nat
  atRuntime : Bool
  alarms : EventId → Option Alarm

/-- What is left of an alarm when those that are due have gone off. -/
def Alarm.afterCheck (now : Nat) (al : Alarm) : Option Alarm :=
  if now < al.due then some al
  else if al.period = 0 then none
  else if now < al.due + al.period then some { al with due := al.due + al.period }
  else some { al with due := now + al.period }

/-- An alarm that is kept is due later than now. -/
theorem Alarm.lt_afterCheck {now : Nat} {al al' : Alarm} (h : al.afterCheck now = some al') :
    now < al'.due := by
  unfold Alarm.afterCheck at h
  split at h
  · cases h
    assumption
  · split at h
    · cases h
    · split at h <;> cases h <;> dsimp only <;> omega

namespace Schedule

def start : Schedule := ⟨0, false, fun _ => none⟩

def setAlarm (σ : Schedule) (e : EventId) (al : Option Alarm) : Schedule :=
  { σ with alarms := Function.update σ.alarms e al }

/-- The alarm that `SetTimer` sets. -/
def alarmOf (σ : Schedule) (triggerTime : BitVec 64) : TimerDelay → Option Alarm
  | .periodic => some ⟨σ.now + triggerTime.toNat, triggerTime.toNat⟩
  | .relative => some ⟨σ.now + triggerTime.toNat, 0⟩
  | _ => none

def tick (σ : Schedule) (duration : Nat) : Schedule :=
  if σ.atRuntime then σ else { σ with now := σ.now + duration }

/-- The alarm is set and due. -/
def Due (σ : Schedule) (e : EventId) : Prop := ∃ al, σ.alarms e = some al ∧ al.due ≤ σ.now

end Schedule

/-- What a call does to the schedule. -/
inductive ScheduleStep : Schedule → TimerCall → Schedule → Prop
  | createEvent (σ : Schedule) (e : EventId) (type : BitVec 32) :
      ScheduleStep σ (.createEvent e type) (σ.setAlarm e none)
  | closeEvent (σ : Schedule) (e : EventId) (status : Status) :
      ScheduleStep σ (.closeEvent e status) (σ.setAlarm e none)
  | setTimer (σ : Schedule) (e : EventId) (type : TimerDelay) (triggerTime : BitVec 64) :
      ScheduleStep σ (.setTimer e type triggerTime .success)
        (σ.setAlarm e (σ.alarmOf triggerTime type))
  | setTimerFails (σ : Schedule) (e : EventId) (type : TimerDelay) (triggerTime : BitVec 64)
      {status : Status} (h : status ≠ .success) :
      ScheduleStep σ (.setTimer e type triggerTime status) σ
  | fwTimerTick (σ : Schedule) (duration : BitVec 64) :
      ScheduleStep σ (.fwTimerTick duration) (σ.tick duration.toNat)
  | checkTimers (σ : Schedule) {signalled : List EventId} (h : ∀ e, e ∈ signalled ↔ σ.Due e) :
      ScheduleStep σ (.checkTimers signalled)
        { σ with alarms := fun e => (σ.alarms e).bind (·.afterCheck σ.now) }
  | enterRuntime (σ : Schedule) : ScheduleStep σ .enterRuntime { σ with atRuntime := true }

def schedule : Machine Schedule TimerCall := ⟨(· = .start), ScheduleStep⟩

/-! ## What the state shows of the schedule -/

/-- The alarm of an event. -/
def EventTimer.alarm (ev : EventTimer) : Option Alarm :=
  if ev.link then some ⟨ev.triggerTime.toNat, ev.period.toNat⟩ else none

theorem EventTimer.alarm_of_link {ev : EventTimer} (h : ev.link = true) :
    ev.alarm = some ⟨ev.triggerTime.toNat, ev.period.toNat⟩ := if_pos h

theorem EventTimer.link_of_alarm {ev : EventTimer} {al : Alarm} (h : ev.alarm = some al) :
    ev.link = true := by
  by_contra hnot
  rw [EventTimer.alarm, if_neg hnot] at h
  cases h

/-- What the loop of `CheckTimers` does with a timer that settles is what the schedule says. -/
theorem EventTimer.alarm_afterCheck {t : BitVec 64} {ev : EventTimer} (h : ev.Settles t) :
    (ev.afterCheck t).alarm = ev.alarm.bind (·.afterCheck t.toNat) := by
  unfold EventTimer.afterCheck
  by_cases hlink : ev.link = true
  · rw [alarm_of_link hlink, Option.bind_some]
    unfold Alarm.afterCheck
    dsimp only
    by_cases hdue : ev.Due t
    · have hle := BitVec.le_def.mp hdue.2
      rw [if_neg (not_not_intro hdue), if_neg (Nat.not_lt.mpr hle)]
      by_cases hperiod : ev.period = 0
      · have hzero : ev.period.toNat = 0 := by rw [hperiod]; rfl
        rw [if_pos hperiod, if_pos hzero]
        rfl
      · have hnonzero : ev.period.toNat ≠ 0 := fun h0 => hperiod (BitVec.eq_of_toNat_eq h0)
        rw [if_neg hperiod, if_neg hnonzero]
        have hsettled := h hdue hperiod
        by_cases hlater : t < ev.triggerTime + ev.period
        · have hsum : (ev.triggerTime + ev.period).toNat =
              ev.triggerTime.toNat + ev.period.toNat := by bv_omega
          have hlt := BitVec.lt_def.mp hlater
          rw [hsum] at hlt
          rw [if_pos hlater, if_pos hlt, ← hsum]
          exact alarm_of_link hlink
        · have hwrap := hsettled.resolve_left hlater
          have hsum : (t + ev.period).toNat = t.toNat + ev.period.toNat := by bv_omega
          have hnot : ¬ t.toNat < ev.triggerTime.toNat + ev.period.toNat := by bv_omega
          rw [if_neg hlater, if_neg hnot, ← hsum]
          exact alarm_of_link hlink
    · have hlt : t.toNat < ev.triggerTime.toNat :=
        BitVec.lt_def.mp (BitVec.not_le.mp fun hle => hdue ⟨hlink, hle⟩)
      rw [if_pos hdue, if_pos hlt, alarm_of_link hlink]
  · have hdue : ¬ ev.Due t := fun hdue => hlink hdue.1
    rw [if_pos hdue, EventTimer.alarm, if_neg hlink]
    rfl

namespace TimerState

variable {s s' : TimerState} {σ : Schedule}

/-- The list is that of the alarms that are set, and if one of them is due, `CheckTimers` is going
    to be called. -/
structure Shows (s : TimerState) (σ : Schedule) : Prop where
  linked : s.Linked
  now : s.efiSystemTime.toNat = σ.now
  atRuntime : s.efiAtRuntime = σ.atRuntime
  alarms : ∀ e, (s.events e).bind EventTimer.alarm = σ.alarms e
  check : ∀ e, σ.Due e → s.checkSignalled = true

/-- The list holds the events with an alarm, sorted by the times these are due. -/
theorem Shows.mem_iff (h : s.Shows σ) (e : EventId) :
    e ∈ s.efiTimerList ↔ ∃ al, σ.alarms e = some al ∧ s.triggerTime e = al.due := by
  rw [h.linked.mem, ← h.alarms, triggerTime]
  cases s.events e with
  | none => simp
  | some ev =>
    rw [Option.bind_some, EventTimer.alarm]
    by_cases hlink : ev.link = true
    · simp [hlink]
    · simp [hlink]

/-- The next time of a periodic timer that is due is one of 64 bits: a period later, or a period
    after now if that has passed as well. -/
def NextFits (t : BitVec 64) (ev : EventTimer) : Prop :=
  ev.Due t → ev.period ≠ 0 → ev.triggerTime.toNat + ev.period.toNat < 2 ^ 64 ∧
    (ev.triggerTime.toNat + ev.period.toNat ≤ t.toNat → t.toNat + ev.period.toNat < 2 ^ 64)

theorem NextFits.settles {t : BitVec 64} {ev : EventTimer} (h : NextFits t ev) : ev.Settles t := by
  intro hdue hperiod
  obtain ⟨hsum, hlate⟩ := h hdue hperiod
  by_cases hlater : ev.triggerTime.toNat + ev.period.toNat ≤ t.toNat
  · exact .inr (hlate hlater)
  · exact .inl (by bv_omega)

/-- The call makes no time wrap. -/
def NoWrap (s : TimerState) : TimerCall → Prop
  | .setTimer _ type triggerTime _ =>
    type ≠ .cancel → s.efiSystemTime.toNat + triggerTime.toNat < 2 ^ 64
  | .fwTimerTick duration =>
    s.efiAtRuntime = false → s.efiSystemTime.toNat + duration.toNat < 2 ^ 64
  | .checkTimers _ => ∀ e ev, s.events e = some ev → NextFits s.efiSystemTime ev
  | _ => True

theorem Shows.start : initializeTimer.Shows .start :=
  ⟨.initializeTimer, rfl, rfl, fun _ => rfl, by rintro e ⟨al, ⟨⟩, -⟩⟩

/-! ## Each call -/

/-- One alarm is set. -/
theorem Shows.setAlarm (h : s.Shows σ) {e : EventId} (ev : Option EventTimer) {al : Option Alarm}
    (hlinked : s'.Linked) (htime : s'.efiSystemTime = s.efiSystemTime)
    (hruntime : s'.efiAtRuntime = s.efiAtRuntime)
    (hevents : s'.events = Function.update s.events e ev) (hal : ev.bind EventTimer.alarm = al)
    (hkeep : s.checkSignalled = true → s'.checkSignalled = true)
    (hdue : ∀ al', al = some al' → al'.due ≤ σ.now → s'.checkSignalled = true) :
    s'.Shows (σ.setAlarm e al) where
  linked := hlinked
  now := htime ▸ h.now
  atRuntime := hruntime ▸ h.atRuntime
  alarms := by
    intro e'
    rw [hevents]
    unfold Schedule.setAlarm
    dsimp only
    by_cases he : e' = e
    · subst he
      rw [Function.update_self, Function.update_self, hal]
    · rw [Function.update_of_ne he, Function.update_of_ne he, h.alarms]
  check := by
    rintro e' ⟨al', hal', hle⟩
    unfold Schedule.setAlarm at hal'
    dsimp only at hal'
    by_cases he : e' = e
    · subst he
      rw [Function.update_self] at hal'
      exact hdue al' hal' hle
    · rw [Function.update_of_ne he] at hal'
      exact hkeep (h.check e' ⟨al', hal', hle⟩)

/-- The timer as `SetTimer` leaves it. -/
def armed (s : TimerState) (ev : EventTimer) (type : TimerDelay) (triggerTime : BitVec 64) :
    EventTimer :=
  if type = .cancel then { ev with link := false, triggerTime := 0, period := 0 }
  else
    { ev with
      link := true
      triggerTime := s.efiSystemTime + triggerTime
      period := if type = .periodic then triggerTime else 0 }

theorem armTimer_spec (s : TimerState) (e : EventId) (ev : EventTimer) (type : TimerDelay)
    (triggerTime : BitVec 64) :
    (s.armTimer e ev type triggerTime).events =
        Function.update s.events e (some (s.armed ev type triggerTime)) ∧
      (s.armTimer e ev type triggerTime).efiSystemTime = s.efiSystemTime ∧
      (s.armTimer e ev type triggerTime).efiAtRuntime = s.efiAtRuntime ∧
      (s.armTimer e ev type triggerTime).checkSignalled =
        (s.checkSignalled || (type ≠ .cancel ∧ triggerTime = 0)) := by
  have hremoved : ∀ ev' : Option EventTimer,
      Function.update (if ev.link then s.removeLink e ev else s).events e ev' =
        Function.update s.events e ev' := by
    intro ev'
    split
    · exact Function.update_idem ..
    · rfl
  have hsame : (if ev.link then s.removeLink e ev else s).efiSystemTime = s.efiSystemTime ∧
      (if ev.link then s.removeLink e ev else s).efiAtRuntime = s.efiAtRuntime ∧
      (if ev.link then s.removeLink e ev else s).checkSignalled = s.checkSignalled := by
    split <;> exact ⟨rfl, rfl, rfl⟩
  unfold armTimer armed
  dsimp only
  generalize (if ev.link = true then s.removeLink e ev else s) = s₁ at hremoved hsame
  obtain ⟨htime, hruntime, hcheck⟩ := hsame
  by_cases hcancel : type = .cancel
  · rw [if_pos hcancel, if_pos hcancel]
    exact ⟨hremoved _, htime, hruntime, by simp [hcancel, setTimerOf, hcheck]⟩
  · rw [if_neg hcancel, if_neg hcancel, htime]
    exact ⟨hremoved _, htime, hruntime, by simp [hcancel, insertEventTimer, setTimerOf, hcheck]⟩

theorem Shows.setTimer (h : s.Shows σ) (e : EventId) (type : TimerDelay) (triggerTime : BitVec 64)
    (hwrap : type ≠ .cancel → s.efiSystemTime.toNat + triggerTime.toNat < 2 ^ 64) :
    ∃ σ', ScheduleStep σ (.setTimer e type triggerTime (s.setTimer e type triggerTime).2) σ' ∧
      (s.setTimer e type triggerTime).1.Shows σ' := by
  have hlinked := h.linked.setTimer e type triggerTime
  have hfails : Status.invalidParameter ≠ Status.success := by decide
  unfold TimerState.setTimer at hlinked ⊢
  cases hev : s.events e with
  | none => exact ⟨σ, .setTimerFails σ e type triggerTime hfails, h⟩
  | some ev =>
    rw [hev] at hlinked
    dsimp only at hlinked ⊢
    by_cases hinvalid : type = .max ∨ ev.type &&& evtTimer = 0
    · rw [if_pos hinvalid]
      exact ⟨σ, .setTimerFails σ e type triggerTime hfails, h⟩
    · rw [if_neg hinvalid] at hlinked ⊢
      obtain ⟨hevents, htime, hruntime, hcheck⟩ := armTimer_spec s e ev type triggerTime
      refine ⟨_, .setTimer σ e type triggerTime, h.setAlarm _ hlinked htime hruntime hevents ?_ ?_ ?_⟩
      · have hnow := h.now
        rw [Option.bind_some, EventTimer.alarm, armed]
        cases type with
        | cancel => rfl
        | max => exact absurd (.inl rfl) hinvalid
        | _ =>
          have hsum := hwrap (by decide)
          simp [Schedule.alarmOf, BitVec.toNat_add, hnow]
          omega
      · intro hold
        rw [hcheck, hold, Bool.true_or]
      · intro al hal hle
        have hset : type ≠ .cancel ∧ triggerTime = 0 := by
          cases type with
          | cancel => cases hal
          | max => cases hal
          | _ =>
            cases hal
            refine ⟨by decide, BitVec.eq_of_toNat_eq ?_⟩
            dsimp only at hle
            show triggerTime.toNat = 0
            omega
        rw [hcheck]
        simp [hset]

theorem Shows.closeEvent (h : s.Shows σ) (e : EventId) :
    (s.closeEvent e).1.Shows (σ.setAlarm e none) := by
  have hlinked := h.linked.closeEvent e
  unfold TimerState.closeEvent at hlinked ⊢
  cases hev : s.events e with
  | none =>
    exact h.setAlarm none h.linked rfl rfl (Function.update_eq_self_iff.mpr hev.symm).symm rfl id
      (by rintro _ ⟨⟩)
  | some ev =>
    rw [hev] at hlinked
    dsimp only at hlinked ⊢
    by_cases htype : ev.type &&& evtTimer = 0
    · rw [if_pos htype] at hlinked ⊢
      exact h.setAlarm none hlinked rfl rfl rfl rfl id (by rintro _ ⟨⟩)
    · rw [if_neg htype] at hlinked ⊢
      have hcancel : (s.setTimer e .cancel 0).1 = s.armTimer e ev .cancel 0 := by
        unfold TimerState.setTimer
        rw [hev]
        dsimp only
        rw [if_neg (not_or.mpr ⟨by decide, htype⟩)]
      obtain ⟨hevents, htime, hruntime, hcheck⟩ := armTimer_spec s e ev .cancel 0
      rw [hcancel] at hlinked ⊢
      refine h.setAlarm none hlinked htime hruntime ?_ rfl (fun hold => ?_)
        (by rintro _ ⟨⟩)
      · show Function.update (s.armTimer e ev .cancel 0).events e none = _
        rw [hevents, Function.update_idem]
      · show (s.armTimer e ev .cancel 0).checkSignalled = true
        rw [hcheck, hold, Bool.true_or]

/-- After a tick, the head of the list tells whether a timer is due. -/
theorem Shows.fwTimerTick (h : s.Shows σ) (duration : BitVec 64)
    (hwrap : s.efiAtRuntime = false → s.efiSystemTime.toNat + duration.toNat < 2 ^ 64) :
    (s.fwTimerTick duration).Shows (σ.tick duration.toNat) := by
  unfold TimerState.fwTimerTick Schedule.tick
  rw [← h.atRuntime]
  by_cases hruntime : s.efiAtRuntime = true
  · rw [if_pos hruntime, if_pos hruntime]
    exact h
  · rw [if_neg hruntime, if_neg hruntime]
    have hsum := hwrap (by simpa using hruntime)
    have hnow : (s.efiSystemTime + duration).toNat = σ.now + duration.toNat := by
      rw [BitVec.toNat_add, Nat.mod_eq_of_lt hsum, h.now]
    refine ⟨h.linked.congr rfl rfl, hnow, rfl, h.alarms, ?_⟩
    rintro e ⟨al, hal, hle⟩
    dsimp only at hal hle ⊢
    rw [← h.alarms] at hal
    obtain ⟨ev, hev, halarm⟩ := Option.bind_eq_some_iff.mp hal
    have hlink := EventTimer.link_of_alarm halarm
    rw [EventTimer.alarm_of_link hlink] at halarm
    cases halarm
    have hdue : ev.Due (s.efiSystemTime + duration) :=
      ⟨hlink, BitVec.le_def.mpr (by rw [hnow]; exact hle)⟩
    obtain ⟨head, evHead, hhead, hevHead, hdueHead⟩ := h.linked.head_due hev hdue
    rw [hhead, Option.any_some, triggerTime_of hevHead]
    rw [decide_eq_true (BitVec.le_def.mp hdueHead.2), Bool.or_true]

theorem Shows.due_iff (h : s.Shows σ) (e : EventId) :
    σ.Due e ↔ 0 < roundsOf s.efiSystemTime s e := by
  unfold Schedule.Due roundsOf
  rw [← h.alarms, ← h.now]
  cases s.events e with
  | none => simp
  | some ev =>
    rw [Option.bind_some, Option.map_some, Option.getD_some, EventTimer.rounds_pos_iff]
    constructor
    · rintro ⟨al, hal, hle⟩
      have hlink := EventTimer.link_of_alarm hal
      rw [EventTimer.alarm_of_link hlink] at hal
      cases hal
      exact ⟨hlink, BitVec.le_def.mpr hle⟩
    · exact fun hdue => ⟨_, EventTimer.alarm_of_link hdue.1, BitVec.le_def.mp hdue.2⟩

/-- `CheckTimers` signals the events that are due, and what it puts back is due later. -/
theorem Shows.checkTimers (h : s.Shows σ) {fuel : Nat} {signalled : List EventId}
    (hr : s.checkTimers fuel = some (s', signalled)) :
    (∀ e, e ∈ signalled ↔ σ.Due e) ∧
      s'.Shows { σ with alarms := fun e => (σ.alarms e).bind (·.afterCheck σ.now) } := by
  have hstart : ({ s with checkSignalled := false } : TimerState).Linked := h.linked.congr rfl rfl
  have hdrained := drainTimers_drained fuel hstart hr
  have hsettles : ∀ e ev, s.events e = some ev → ev.Settles s.efiSystemTime := by
    intro e ev hev
    by_contra hnot
    exact absurd (hr.symm.trans (drainTimers_unsettled fuel hstart hev hnot)) (by simp)
  constructor
  · intro e
    rw [h.due_iff, ← List.count_pos_iff, hdrained.signalled]
    rfl
  refine ⟨hdrained.linked, hdrained.systemTime ▸ h.now, hdrained.atRuntime ▸ h.atRuntime, ?_, ?_⟩
  · intro e
    rw [hdrained.events]
    dsimp only
    rw [← h.alarms, ← h.now]
    cases hev : s.events e with
    | none => rfl
    | some ev => exact EventTimer.alarm_afterCheck (hsettles e ev hev)
  · rintro e ⟨al, hal, hle⟩
    obtain ⟨al', -, hal'⟩ := Option.bind_eq_some_iff.mp hal
    exact absurd hle (Nat.not_le.mpr (Alarm.lt_afterCheck hal'))

theorem Shows.createEvent (h : s.Shows σ) {e : EventId} (type : BitVec 32)
    (hfree : s.events e = none) : (s.createEvent e type).Shows (σ.setAlarm e none) := by
  have hlinked : (s.createEvent e type).Linked := h.linked.step (.createEvent type hfree)
  exact h.setAlarm _ hlinked rfl rfl rfl rfl id (by rintro _ ⟨⟩)

/-! ## Every run -/

theorem Shows.step {call : TimerCall} (h : s.Shows σ) (hwrap : s.NoWrap call)
    (hstep : TimerStep s call s') : ∃ σ', ScheduleStep σ call σ' ∧ s'.Shows σ' := by
  cases hstep with
  | createEvent type hfree => exact ⟨_, .createEvent σ _ type, h.createEvent type hfree⟩
  | closeEvent e => exact ⟨_, .closeEvent σ e _, h.closeEvent e⟩
  | setTimer e type triggerTime => exact h.setTimer e type triggerTime hwrap
  | fwTimerTick duration => exact ⟨_, .fwTimerTick σ duration, h.fwTimerTick duration hwrap⟩
  | checkTimers hr =>
    obtain ⟨hsignalled, hshows⟩ := h.checkTimers hr
    exact ⟨_, .checkTimers σ hsignalled, hshows⟩
  | enterRuntime =>
    exact ⟨_, .enterRuntime σ, h.linked.congr rfl rfl, h.now, rfl, h.alarms, h.check⟩

/-- `CheckTimers` returns if it makes no time wrap. -/
theorem Linked.checkTimers_returns (h : s.Linked)
    (hfits : ∀ e ev, s.events e = some ev → NextFits s.efiSystemTime ev) :
    ∃ signalled s', TimerStep s (.checkTimers signalled) s' := by
  have hstart : ({ s with checkSignalled := false } : TimerState).Linked := h.congr rfl rfl
  have hsome := drainTimers_settles s.efiTimerList h.nodup _ _ hstart (List.Subset.refl _)
    (fun e ev hev => (hfits e ev hev).settles) rfl
  obtain ⟨⟨s', signalled⟩, hr⟩ := Option.isSome_iff_exists.mp hsome
  exact ⟨signalled, s', .checkTimers hr⟩

/-- In every run whose calls make no time wrap, the state shows the schedule that the calls make,
    and `CheckTimers` returns. -/
theorem timers_show_schedule {calls : List TimerCall}
    (h : timers.Path NoWrap initializeTimer calls s) :
    (∃ σ, schedule.Path Machine.anyStep .start calls σ ∧ s.Shows σ) ∧
      ((∀ e ev, s.events e = some ev → NextFits s.efiSystemTime ev) →
        ∃ signalled s', TimerStep s (.checkTimers signalled) s') := by
  have hsimulated : ∃ σ, schedule.Path Machine.anyStep .start calls σ ∧ s.Shows σ :=
    h.simulate (fun _ _ _ _ hshows hok hstep => hshows.step hok hstep) Shows.start
  refine ⟨hsimulated, ?_⟩
  obtain ⟨σ, -, hshows⟩ := hsimulated
  exact hshows.linked.checkTimers_returns

/-- A periodic timer that is late. -/
def latePeriodic : List TimerCall :=
  [.createEvent 1 evtTimer, .setTimer 1 .periodic 10 .success, .fwTimerTick 25]

theorem latePeriodic_fits {s : TimerState} {ev ev' : EventTimer}
    (hevents : s.events = Function.update (Function.update (fun _ => none) 1 (some ev)) 1 (some ev'))
    (hfits : NextFits s.efiSystemTime ev') :
    ∀ e ev₀, s.events e = some ev₀ → NextFits s.efiSystemTime ev₀ := by
  intro e ev₀ hev
  rw [hevents] at hev
  by_cases he : e = 1
  · subst he
    cases hev
    exact hfits
  · rw [Function.update_of_ne he, Function.update_of_ne he] at hev
    cases hev

/-- Then `CheckTimers` takes it twice. -/
theorem latePeriodic_shows :
    (∃ s : TimerState,
      (∃ σ, schedule.Path Machine.anyStep .start latePeriodic σ ∧ s.Shows σ) ∧
      ∃ signalled s', TimerStep s (.checkTimers signalled) s') ∧
    ∃ (s : TimerState) (σ : Schedule), schedule.Path Machine.anyStep .start (latePeriodic ++ [.checkTimers [1, 1]]) σ ∧
      s.Shows σ := by
  have htick : ∃ s, timers.Path NoWrap initializeTimer latePeriodic s ∧
      (∀ e ev, s.events e = some ev → NextFits s.efiSystemTime ev) ∧
      ∃ s', s.checkTimers 3 = some (s', [1, 1]) :=
    ⟨_, .cons trivial (.createEvent evtTimer rfl) <|
      .cons (fun _ => by decide) (.setTimer _ 1 .periodic 10) <|
      .cons (fun _ => by decide) (.fwTimerTick _ 25) .nil,
      latePeriodic_fits rfl fun _ _ => by decide, _, rfl⟩
  obtain ⟨s, hpath, hfits, s', hcheck⟩ := htick
  obtain ⟨hshows, hreturns⟩ := timers_show_schedule hpath
  have hchecked : timers.Path NoWrap s [.checkTimers [1, 1]] s' :=
    .cons hfits (.checkTimers hcheck) .nil
  exact ⟨⟨s, hshows, hreturns hfits⟩, s', (timers_show_schedule (hpath.append hchecked)).1⟩

/-- An event that is due in the far future, and is signalled at once. -/
def farFuture : List TimerCall :=
  [.createEvent 1 evtTimer, .fwTimerTick 5, .setTimer 1 .relative (-1) .success, .checkTimers [1]]

theorem not_shows_farFuture :
    (∃ s, timers.Path Machine.anyStep initializeTimer farFuture s) ∧
      ¬ ∃ σ, schedule.Path Machine.anyStep .start farFuture σ := by
  constructor
  · exact ⟨_, .cons trivial (.createEvent evtTimer rfl) <|
      .cons trivial (.fwTimerTick _ 5) <|
      .cons trivial (.setTimer _ 1 .relative (-1)) <|
      .cons trivial (.checkTimers (show checkTimers 2 _ = some (_, [1]) from rfl)) .nil⟩
  · rintro ⟨σ, hpath⟩
    cases hpath with
    | cons _ hstep hpath =>
      cases hstep
      cases hpath with
      | cons _ hstep hpath =>
        cases hstep
        cases hpath with
        | cons _ hstep hpath =>
          cases hstep with
          | setTimerFails _ _ _ hfails => exact hfails rfl
          | setTimer =>
            cases hpath with
            | cons _ hstep hpath =>
              cases hstep with
              | checkTimers hdue =>
                -- the schedule has it due at 2 ^ 64 + 4, and it is 5
                obtain ⟨al, hal, hle⟩ := (hdue 1).mp (by decide)
                cases hal
                exact absurd hle (by decide)

end TimerState

end EfiCore.Exec
