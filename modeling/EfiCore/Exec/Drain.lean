import EfiCore.Exec.Timer

/-! # Draining the timers

The loop of `CheckTimers` takes the head of the list as long as it is due, and puts a periodic timer
back.  One that is late is put back as due now, so it is taken a second time; its next trigger time
is `now + Period` then.  If this sum wraps, the timer is due again, for ever.
-/

namespace EfiCore.Exec

open EfiCore.Lib

/-! ## The list of the timers -/

namespace TimerState

variable {s : TimerState} {e e' : EventId} {ev : EventTimer}

@[simp] theorem setTimerOf_self (s : TimerState) (e : EventId) (ev : EventTimer) :
    (s.setTimerOf e ev).events e = some ev := Function.update_self ..

theorem setTimerOf_ne (s : TimerState) (ev : EventTimer) (h : e' ≠ e) :
    (s.setTimerOf e ev).events e' = s.events e' := Function.update_of_ne h ..

theorem triggerTime_ne (s : TimerState) (ev : EventTimer) (h : e' ≠ e) :
    (s.setTimerOf e ev).triggerTime e' = s.triggerTime e' := by
  simp [triggerTime, setTimerOf_ne s ev h]

theorem triggerTime_of (hev : s.events e = some ev) : s.triggerTime e = ev.triggerTime.toNat := by
  simp [triggerTime, hev]

/-- The list holds the linked timers, each once, in the order of their trigger times. -/
structure Linked (s : TimerState) : Prop where
  sorted : SortedBy s.triggerTime s.efiTimerList
  nodup : s.efiTimerList.Nodup
  mem : ∀ e, e ∈ s.efiTimerList ↔ ∃ ev, s.events e = some ev ∧ ev.link = true
  timer : ∀ e ev, s.events e = some ev → ev.link = true → ev.type &&& evtTimer ≠ 0

theorem Linked.mem_iff (h : s.Linked) (hev : s.events e = some ev) :
    e ∈ s.efiTimerList ↔ ev.link = true := by
  rw [h.mem, hev]
  simp

/-- Only what the list is about decides. -/
theorem Linked.congr {s' : TimerState} (h : s.Linked) (hevents : s'.events = s.events)
    (hlist : s'.efiTimerList = s.efiTimerList) : s'.Linked := by
  have htrigger : s'.triggerTime = s.triggerTime := by
    funext e
    rw [triggerTime, hevents]
    rfl
  exact ⟨by rw [htrigger, hlist]; exact h.sorted, by rw [hlist]; exact h.nodup,
    fun e => by rw [hlist, hevents]; exact h.mem e,
    fun e ev => by rw [hevents]; exact h.timer e ev⟩

/-- A timer that is not in the list is written. -/
theorem Linked.setUnlinked (h : s.Linked) (he : e ∉ s.efiTimerList) (hlink : ev.link = false) :
    (s.setTimerOf e ev).Linked where
  sorted := h.sorted.congr fun b hb => triggerTime_ne s ev fun hbe => he (hbe ▸ hb)
  nodup := h.nodup
  mem := by
    intro e'
    by_cases hee : e' = e
    · subst hee
      rw [setTimerOf_self]
      exact iff_of_false he (by simp [hlink])
    · rw [setTimerOf_ne s ev hee]
      exact h.mem e'
  timer := by
    intro e' ev' hev' hlink'
    by_cases hee : e' = e
    · subst hee
      rw [setTimerOf_self] at hev'
      cases hev'
      rw [hlink] at hlink'
      cases hlink'
    · rw [setTimerOf_ne s ev hee] at hev'
      exact h.timer e' ev' hev' hlink'

theorem Linked.removeLink (h : s.Linked) (e : EventId) (ev : EventTimer) :
    (s.removeLink e ev).Linked where
  sorted := by
    have herased : SortedBy s.triggerTime (s.efiTimerList.erase e) :=
      h.sorted.sublist List.erase_sublist
    refine herased.congr ?_
    intro b hb
    exact triggerTime_ne s _ (h.nodup.mem_erase_iff.mp hb).1
  nodup := h.nodup.erase e
  mem := by
    intro e'
    rw [show (s.removeLink e ev).efiTimerList = s.efiTimerList.erase e from rfl,
      h.nodup.mem_erase_iff]
    show _ ↔ ∃ ev', (s.setTimerOf e { ev with link := false }).events e' = some ev' ∧ _
    by_cases hee : e' = e
    · subst hee
      rw [setTimerOf_self]
      exact iff_of_false (fun h => h.1 rfl) (by simp)
    · rw [setTimerOf_ne s _ hee, h.mem]
      exact and_iff_right hee
  timer := by
    intro e' ev' hev' hlink'
    by_cases hee : e' = e
    · subst hee
      cases hev'.symm.trans (setTimerOf_self s e' { ev with link := false })
      cases hlink'
    · exact h.timer e' ev' ((setTimerOf_ne s _ hee).symm.trans hev') hlink'

theorem insertEventTimer_perm (s : TimerState) (e : EventId) (ev : EventTimer) :
    (s.insertEventTimer e ev).efiTimerList.Perm (e :: s.efiTimerList) :=
  sortedInsert_perm _ e s.efiTimerList

theorem Linked.insertEventTimer (h : s.Linked) (he : e ∉ s.efiTimerList)
    (htype : ev.type &&& evtTimer ≠ 0) : (s.insertEventTimer e ev).Linked where
  sorted := by
    have hold : SortedBy (s.setTimerOf e { ev with link := true }).triggerTime s.efiTimerList :=
      h.sorted.congr fun b hb => triggerTime_ne s _ fun hbe => he (hbe ▸ hb)
    exact hold.sortedInsert e
  nodup := (insertEventTimer_perm s e ev).nodup_iff.mpr (List.nodup_cons.mpr ⟨he, h.nodup⟩)
  mem := by
    intro e'
    rw [(insertEventTimer_perm s e ev).mem_iff, List.mem_cons]
    show _ ↔ ∃ ev', (s.setTimerOf e { ev with link := true }).events e' = some ev' ∧ _
    by_cases hee : e' = e
    · subst hee
      rw [setTimerOf_self]
      exact iff_of_true (.inl rfl) ⟨_, rfl, rfl⟩
    · rw [setTimerOf_ne s _ hee, ← h.mem]
      exact or_iff_right hee
  timer := by
    intro e' ev' hev' hlink'
    by_cases hee : e' = e
    · subst hee
      cases hev'.symm.trans (setTimerOf_self s e' { ev with link := true })
      exact htype
    · exact h.timer e' ev' ((setTimerOf_ne s _ hee).symm.trans hev') hlink'

end TimerState

/-! ## One round -/

namespace EventTimer

variable {t : BitVec 64} {ev : EventTimer}

/-- The loop comes to the timer. -/
def Due (t : BitVec 64) (ev : EventTimer) : Prop := ev.link = true ∧ ev.triggerTime ≤ t

instance (t : BitVec 64) (ev : EventTimer) : Decidable (ev.Due t) :=
  inferInstanceAs (Decidable (_ ∧ _))

/-- The timer after a round. -/
def fired (t : BitVec 64) (ev : EventTimer) : EventTimer :=
  if ev.period = 0 then { ev with link := false }
  else if ev.triggerTime + ev.period ≤ t then { ev with triggerTime := t }
  else { ev with triggerTime := ev.triggerTime + ev.period }

/-- The timer when the loop ends. -/
def afterCheck (t : BitVec 64) (ev : EventTimer) : EventTimer :=
  if ¬ ev.Due t then ev
  else if ev.period = 0 then { ev with link := false }
  else if t < ev.triggerTime + ev.period then
    { ev with triggerTime := ev.triggerTime + ev.period }
  else { ev with triggerTime := t + ev.period }

/-- How often the loop takes the timer. -/
def rounds (t : BitVec 64) (ev : EventTimer) : Nat :=
  if ¬ ev.Due t then 0
  else if ev.period = 0 ∨ t < ev.triggerTime + ev.period then 1
  else 2

/-- A periodic timer that is due can be put back later than now. -/
def Settles (t : BitVec 64) (ev : EventTimer) : Prop :=
  ev.Due t → ev.period ≠ 0 →
    t < ev.triggerTime + ev.period ∨ t.toNat + ev.period.toNat < 2 ^ 64

theorem rounds_le_two (t : BitVec 64) (ev : EventTimer) : ev.rounds t ≤ 2 := by
  unfold rounds
  split
  · exact Nat.zero_le 2
  · split <;> decide

theorem rounds_pos_iff : 0 < ev.rounds t ↔ ev.Due t := by
  unfold rounds
  by_cases h : ev.Due t
  · rw [if_neg (not_not_intro h)]
    refine iff_of_true ?_ h
    split <;> decide
  · rw [if_pos h]
    exact iff_of_false (Nat.lt_irrefl 0) h

theorem afterCheck_of_not_due (h : ¬ ev.Due t) : ev.afterCheck t = ev := if_pos h

theorem rounds_of_not_due (h : ¬ ev.Due t) : ev.rounds t = 0 := if_pos h

/-- A round of the loop, seen from its end. -/
theorem fired_spec (hdue : ev.Due t) (hsettles : ev.Settles t) :
    (ev.fired t).afterCheck t = ev.afterCheck t ∧ (ev.fired t).rounds t + 1 = ev.rounds t ∧
      (ev.fired t).Settles t := by
  by_cases hperiod : ev.period = 0
  · -- a timer that is not periodic is out
    have hfired : ev.fired t = { ev with link := false } := if_pos hperiod
    have hnot : ¬ (ev.fired t).Due t := by simp [hfired, Due]
    rw [afterCheck_of_not_due hnot, rounds_of_not_due hnot]
    refine ⟨?_, ?_, fun h => absurd h hnot⟩
    · rw [hfired, afterCheck, if_neg (not_not_intro hdue), if_pos hperiod]
    · rw [rounds, if_neg (not_not_intro hdue), if_pos (.inl hperiod)]
  by_cases hlater : t < ev.triggerTime + ev.period
  · have hfired : ev.fired t = { ev with triggerTime := ev.triggerTime + ev.period } := by
      rw [fired, if_neg hperiod, if_neg (BitVec.not_le.mpr hlater)]
    have hnot : ¬ (ev.fired t).Due t := by
      rw [hfired]
      exact fun h => BitVec.not_le.mpr hlater h.2
    rw [afterCheck_of_not_due hnot, rounds_of_not_due hnot]
    refine ⟨?_, ?_, fun h => absurd h hnot⟩
    · rw [hfired, afterCheck, if_neg (not_not_intro hdue), if_neg hperiod, if_pos hlater]
    · rw [rounds, if_neg (not_not_intro hdue), if_pos (.inr hlater)]
  · -- the timer is late: it is due now
    have hfired : ev.fired t = { ev with triggerTime := t } := by
      rw [fired, if_neg hperiod, if_pos (BitVec.not_lt.mp hlater)]
    have hdue' : (ev.fired t).Due t := by
      rw [hfired]
      exact ⟨hdue.1, BitVec.le_refl t⟩
    have hsum : t.toNat + ev.period.toNat < 2 ^ 64 := (hsettles hdue hperiod).resolve_left hlater
    have hnext : t < t + ev.period := by bv_omega
    refine ⟨?_, ?_, fun _ _ => .inr (by rw [hfired]; exact hsum)⟩
    · rw [afterCheck, afterCheck, if_neg (not_not_intro hdue'), if_neg (not_not_intro hdue),
        if_neg hperiod, if_neg hlater, hfired, if_neg hperiod, if_pos hnext]
    · have hnot : ¬ (ev.period = 0 ∨ t < ev.triggerTime + ev.period) := not_or.mpr ⟨hperiod, hlater⟩
      rw [rounds, rounds, if_neg (not_not_intro hdue'), if_neg (not_not_intro hdue), hfired,
        if_pos (.inr hnext), if_neg hnot]

/-- A timer that does not settle is due again after a round, and does not settle then. -/
theorem fired_unsettled (hnot : ¬ ev.Settles t) : ¬ (ev.fired t).Settles t := by
  unfold Settles at hnot
  push Not at hnot
  obtain ⟨hdue, hperiod, hlater, hsum⟩ := hnot
  have hfired : ev.fired t = { ev with triggerTime := t } := by
    rw [fired, if_neg hperiod, if_pos (BitVec.not_lt.mp hlater)]
  intro h
  have hagain := h (by rw [hfired]; exact ⟨hdue.1, BitVec.le_refl t⟩) (by rw [hfired]; exact hperiod)
  rw [hfired] at hagain
  dsimp only at hagain
  rcases hagain with hlt | hlt
  · bv_omega
  · omega

end EventTimer

namespace TimerState

variable {s s' : TimerState} {t : BitVec 64} {e e' : EventId} {ev : EventTimer}

theorem insertEventTimer_of_removeLink (s : TimerState) (e : EventId) (ev ev' : EventTimer) :
    ((s.removeLink e ev).insertEventTimer e ev').events =
      Function.update s.events e (some { ev' with link := true }) :=
  Function.update_idem ..

theorem fireTimer_spec (h : s.Linked) (hev : s.events e = some ev) (hlink : ev.link = true)
    (t : BitVec 64) :
    (s.fireTimer t e ev).Linked ∧
      (s.fireTimer t e ev).events = Function.update s.events e (some (ev.fired t)) ∧
      (s.fireTimer t e ev).efiSystemTime = s.efiSystemTime ∧
      (s.fireTimer t e ev).efiAtRuntime = s.efiAtRuntime ∧
      (s.checkSignalled = true → (s.fireTimer t e ev).checkSignalled = true) := by
  have hremoved := h.removeLink e ev
  have hout : e ∉ (s.removeLink e ev).efiTimerList := fun he => (h.nodup.mem_erase_iff.mp he).1 rfl
  have htype := h.timer e ev hev hlink
  unfold fireTimer EventTimer.fired
  dsimp only
  by_cases hperiod : ev.period = 0
  · rw [if_pos hperiod, if_pos hperiod]
    exact ⟨hremoved, rfl, rfl, rfl, id⟩
  rw [if_neg hperiod, if_neg hperiod]
  by_cases hlate : ev.triggerTime + ev.period ≤ t
  · rw [if_pos hlate, if_pos hlate]
    have hinserted : ((s.removeLink e ev).insertEventTimer e { ev with triggerTime := t }).Linked :=
      hremoved.insertEventTimer hout htype
    refine ⟨hinserted.congr rfl rfl, ?_, rfl, rfl, fun _ => rfl⟩
    rw [hlink]
    exact insertEventTimer_of_removeLink s e ev _
  · rw [if_neg hlate, if_neg hlate]
    refine ⟨hremoved.insertEventTimer hout htype, ?_, rfl, rfl, id⟩
    rw [hlink]
    exact insertEventTimer_of_removeLink s e ev _

/-! ## The loop -/

/-- The head of the list is due if any timer is. -/
theorem Linked.head_due (h : s.Linked) (hev : s.events e = some ev) (hdue : ev.Due t) :
    ∃ head evHead, s.efiTimerList.head? = some head ∧ s.events head = some evHead ∧
      evHead.Due t := by
  have hmem := (h.mem_iff hev).mpr hdue.1
  cases hl : s.efiTimerList with
  | nil =>
    rw [hl] at hmem
    cases hmem
  | cons head rest =>
    obtain ⟨evHead, hevHead, hlink⟩ := (h.mem head).mp (by rw [hl]; exact List.mem_cons_self)
    refine ⟨head, evHead, rfl, hevHead, hlink, ?_⟩
    have hle : s.triggerTime head ≤ s.triggerTime e := by
      have hsorted := h.sorted
      rw [hl] at hmem hsorted
      rcases List.mem_cons.mp hmem with rfl | hmem
      · exact le_refl _
      · exact hsorted.head_le hmem
    rw [triggerTime_of hev, triggerTime_of hevHead] at hle
    have hlate := hdue.2
    bv_omega

/-- What is left of the rounds of the loop. -/
def roundsOf (t : BitVec 64) (s : TimerState) (e : EventId) : Nat :=
  ((s.events e).map (·.rounds t)).getD 0

/-- What the loop of `CheckTimers` leaves, and what it signals. -/
structure Drained (t : BitVec 64) (s s' : TimerState) (signalled : List EventId) : Prop where
  linked : s'.Linked
  events : ∀ e, s'.events e = (s.events e).map (·.afterCheck t)
  signalled : ∀ e, signalled.count e = roundsOf t s e
  systemTime : s'.efiSystemTime = s.efiSystemTime
  atRuntime : s'.efiAtRuntime = s.efiAtRuntime
  check : s.checkSignalled = true → s'.checkSignalled = true

/-- No timer is due. -/
theorem Drained.done (h : s.Linked) (hdone : ∀ e ev, s.events e = some ev → ¬ ev.Due t) :
    Drained t s s [] where
  linked := h
  events := by
    intro e
    cases hev : s.events e with
    | none => rfl
    | some ev => rw [Option.map_some, EventTimer.afterCheck_of_not_due (hdone e ev hev)]
  signalled := by
    intro e
    unfold roundsOf
    cases hev : s.events e with
    | none => rfl
    | some ev =>
      rw [Option.map_some, EventTimer.rounds_of_not_due (hdone e ev hev)]
      rfl
  systemTime := rfl
  atRuntime := rfl
  check := id

/-- A round before the others. -/
theorem Drained.fire {signalled : List EventId} (h : s.Linked) (hev : s.events e = some ev)
    (hdue : ev.Due t) (hsettles : ev.Settles t)
    (hrest : Drained t (s.fireTimer t e ev) s' signalled) : Drained t s s' (e :: signalled) := by
  obtain ⟨-, hevents, htime, hruntime, hcheck⟩ := fireTimer_spec h hev hdue.1 t
  obtain ⟨hafter, hrounds, -⟩ := EventTimer.fired_spec hdue hsettles
  refine ⟨hrest.linked, fun e' => ?_, fun e' => ?_, hrest.systemTime.trans htime,
    hrest.atRuntime.trans hruntime, fun hc => hrest.check (hcheck hc)⟩
  · rw [hrest.events, hevents]
    by_cases he : e' = e
    · subst he
      rw [Function.update_self, hev, Option.map_some, Option.map_some, hafter]
    · rw [Function.update_of_ne he]
  · have hcount := hrest.signalled e'
    unfold roundsOf at hcount ⊢
    rw [hevents] at hcount
    by_cases he : e' = e
    · subst he
      rw [Function.update_self, Option.map_some, Option.getD_some] at hcount
      rw [List.count_cons_self, hcount, hev, Option.map_some, Option.getD_some, hrounds]
    · rw [Function.update_of_ne he] at hcount
      rw [List.count_cons_of_ne (fun hee => he hee.symm), hcount]

/-- The rounds of the timers in `l`. -/
def totalRounds (t : BitVec 64) (l : List EventId) (s : TimerState) : Nat :=
  (l.map (roundsOf t s)).sum

theorem totalRounds_fire {l : List EventId} (hnodup : l.Nodup) (hmem : e ∈ l) (h : s.Linked)
    (hev : s.events e = some ev) (hdue : ev.Due t) (hsettles : ev.Settles t) :
    totalRounds t l (s.fireTimer t e ev) + 1 = totalRounds t l s := by
  obtain ⟨-, hevents, -⟩ := fireTimer_spec h hev hdue.1 t
  have hsplit : ∀ s' : TimerState, totalRounds t l s' =
      roundsOf t s' e + ((l.erase e).map (roundsOf t s')).sum := fun s' =>
    ((List.perm_cons_erase hmem).map (roundsOf t s')).sum_nat
  have hothers : (l.erase e).map (roundsOf t (s.fireTimer t e ev)) =
      (l.erase e).map (roundsOf t s) := by
    refine List.map_congr_left fun e' he' => ?_
    unfold roundsOf
    rw [hevents, Function.update_of_ne (hnodup.mem_erase_iff.mp he').1]
  have hself : roundsOf t (s.fireTimer t e ev) e + 1 = roundsOf t s e := by
    unfold roundsOf
    rw [hevents, Function.update_self, hev]
    exact (EventTimer.fired_spec hdue hsettles).2.1
  rw [hsplit, hsplit, hothers]
  omega

/-- No timer is due, and the head is not. -/
theorem Linked.drainTimers_done (h : s.Linked) (fuel : Nat)
    (hdone : ∀ e ev, s.events e = some ev → ¬ ev.Due t) :
    drainTimers (fuel + 1) t s = some (s, []) := by
  rw [drainTimers]
  cases hhead : s.efiTimerList.head? with
  | none => rfl
  | some head =>
    obtain ⟨evHead, hevHead, hlink⟩ := (h.mem head).mp (List.mem_of_mem_head? hhead)
    have hlater : t < evHead.triggerTime :=
      BitVec.not_le.mp fun hle => hdone head evHead hevHead ⟨hlink, hle⟩
    dsimp only
    rw [hevHead]
    dsimp only
    rw [if_pos hlater]

theorem drainTimers_due (fuel : Nat) (hhead : s.efiTimerList.head? = some e)
    (hev : s.events e = some ev) (hdue : ev.Due t) :
    drainTimers (fuel + 1) t s =
      (drainTimers fuel t (s.fireTimer t e ev)).map fun r => (r.1, e :: r.2) := by
  rw [drainTimers, hhead]
  dsimp only
  rw [hev]
  dsimp only
  rw [if_neg (BitVec.not_lt.mpr hdue.2)]

/-- If a timer does not settle, the loop does not end. -/
theorem drainTimers_unsettled (fuel : Nat) (h : s.Linked) (hev : s.events e = some ev)
    (hnot : ¬ ev.Settles t) : drainTimers fuel t s = none := by
  induction fuel generalizing s ev with
  | zero => rfl
  | succ fuel ih =>
    have hdue : ev.Due t := (Classical.not_imp.mp hnot).1
    obtain ⟨head, evHead, hhead, hevHead, hdueHead⟩ := h.head_due hev hdue
    obtain ⟨hlinked, hevents, -⟩ := fireTimer_spec h hevHead hdueHead.1 t
    have hrest : drainTimers fuel t (s.fireTimer t head evHead) = none := by
      by_cases hee : e = head
      · subst hee
        cases hev.symm.trans hevHead
        exact ih hlinked (by rw [hevents, Function.update_self]) (EventTimer.fired_unsettled hnot)
      · exact ih hlinked (by rw [hevents, Function.update_of_ne hee, hev]) hnot
    rw [drainTimers_due fuel hhead hevHead hdueHead, hrest]
    rfl

/-- The loop has ended. -/
theorem drainTimers_drained {signalled : List EventId} (fuel : Nat) (h : s.Linked)
    (hr : drainTimers fuel t s = some (s', signalled)) : Drained t s s' signalled := by
  induction fuel generalizing s signalled with
  | zero => cases hr
  | succ fuel ih =>
    by_cases hdone : ∀ e ev, s.events e = some ev → ¬ ev.Due t
    · rw [h.drainTimers_done fuel hdone] at hr
      cases hr
      exact .done h hdone
    · push Not at hdone
      obtain ⟨e, ev, hev, hdue⟩ := hdone
      obtain ⟨head, evHead, hhead, hevHead, hdueHead⟩ := h.head_due hev hdue
      have hsettles : evHead.Settles t := by
        by_contra hnot
        rw [drainTimers_unsettled _ h hevHead hnot] at hr
        cases hr
      rw [drainTimers_due fuel hhead hevHead hdueHead] at hr
      obtain ⟨⟨s₁, rest⟩, hrest, heq⟩ := Option.map_eq_some_iff.mp hr
      cases heq
      exact .fire h hevHead hdueHead hsettles
        (ih (fireTimer_spec h hevHead hdueHead.1 t).1 hrest)

/-- If all the timers settle, the loop ends after their rounds. -/
theorem drainTimers_settles (l : List EventId) (hnodup : l.Nodup) (n : Nat) (s : TimerState)
    (h : s.Linked) (hl : s.efiTimerList ⊆ l)
    (hsettles : ∀ e ev, s.events e = some ev → ev.Settles t) (hn : totalRounds t l s = n) :
    (drainTimers (n + 1) t s).isSome := by
  induction n using Nat.strong_induction_on generalizing s with
  | _ n ih =>
  by_cases hdone : ∀ e ev, s.events e = some ev → ¬ ev.Due t
  · -- the head, if there is one, is not due
    rw [h.drainTimers_done n hdone]
    rfl
  · push Not at hdone
    obtain ⟨e, ev, hev, hdue⟩ := hdone
    obtain ⟨head, evHead, hhead, hevHead, hdueHead⟩ := h.head_due hev hdue
    have hsettlesHead := hsettles head evHead hevHead
    have htotal := totalRounds_fire hnodup (hl (List.mem_of_mem_head? hhead)) h hevHead hdueHead
      hsettlesHead
    obtain ⟨hlinked, hevents, -⟩ := fireTimer_spec h hevHead hdueHead.1 t
    have hmem := hl (List.mem_of_mem_head? hhead)
    have hl' : (s.fireTimer t head evHead).efiTimerList ⊆ l := by
      intro e' he'
      by_cases hee : e' = head
      · exact hee ▸ hmem
      · have hlink := (hlinked.mem e').mp he'
        rw [hevents, Function.update_of_ne hee] at hlink
        exact hl ((h.mem e').mpr hlink)
    have hsettles' : ∀ e' ev', (s.fireTimer t head evHead).events e' = some ev' →
        ev'.Settles t := by
      intro e' ev' hev'
      rw [hevents] at hev'
      by_cases hee : e' = head
      · subst hee
        rw [Function.update_self] at hev'
        cases hev'
        exact (EventTimer.fired_spec hdueHead hsettlesHead).2.2
      · rw [Function.update_of_ne hee] at hev'
        exact hsettles e' ev' hev'
    have hrest := ih (n - 1) (by omega) (s.fireTimer t head evHead) hlinked hl' hsettles'
      (by omega)
    rw [drainTimers_due n hhead hevHead hdueHead, Option.isSome_map,
      show n = n - 1 + 1 by omega]
    exact hrest

end TimerState

/-! ## CheckTimers ends -/

namespace TimerState

variable {s s' : TimerState}

theorem Linked.setTimer (h : s.Linked) (e : EventId) (type : TimerDelay)
    (triggerTime : BitVec 64) : (s.setTimer e type triggerTime).1.Linked := by
  unfold TimerState.setTimer
  cases hev : s.events e with
  | none => exact h
  | some ev =>
    dsimp only
    by_cases hinvalid : type = .max ∨ ev.type &&& evtTimer = 0
    · rw [if_pos hinvalid]
      exact h
    · rw [if_neg hinvalid]
      have hremoved : (if ev.link then s.removeLink e ev else s).Linked ∧
          e ∉ (if ev.link then s.removeLink e ev else s).efiTimerList := by
        by_cases hlink : ev.link = true
        · rw [if_pos hlink]
          exact ⟨h.removeLink e ev, fun he => (h.nodup.mem_erase_iff.mp he).1 rfl⟩
        · rw [if_neg hlink]
          exact ⟨h, fun he => hlink ((h.mem_iff hev).mp he)⟩
      unfold armTimer
      dsimp only
      generalize (if ev.link = true then s.removeLink e ev else s) = s₁ at hremoved
      by_cases hcancel : type = .cancel
      · rw [if_pos hcancel]
        exact hremoved.1.setUnlinked hremoved.2 rfl
      · rw [if_neg hcancel]
        have hinserted : (s₁.insertEventTimer e { ev with
            triggerTime := s₁.efiSystemTime + triggerTime
            period := if type = .periodic then triggerTime else 0 }).Linked :=
          hremoved.1.insertEventTimer hremoved.2 (not_or.mp hinvalid).2
        exact hinserted.congr rfl rfl

theorem Linked.unlinked_of_not_timer (h : s.Linked) {e : EventId} {ev : EventTimer}
    (hev : s.events e = some ev) (htype : ev.type &&& evtTimer = 0) : e ∉ s.efiTimerList :=
  fun he => h.timer e ev hev ((h.mem_iff hev).mp he) htype

/-- An event that is not in the list goes. -/
theorem Linked.forget (h : s.Linked) {e : EventId} (he : e ∉ s.efiTimerList) :
    ({ s with events := Function.update s.events e none } : TimerState).Linked where
  sorted := by
    refine h.sorted.congr fun b hb => ?_
    unfold triggerTime
    dsimp only
    rw [Function.update_of_ne (show b ≠ e from fun hbe => he (hbe ▸ hb))]
  nodup := h.nodup
  mem := by
    intro e'
    dsimp only
    by_cases hee : e' = e
    · subst hee
      rw [Function.update_self]
      exact iff_of_false he (by simp)
    · rw [Function.update_of_ne hee]
      exact h.mem e'
  timer := by
    intro e' ev hev
    dsimp only at hev
    by_cases hee : e' = e
    · subst hee
      rw [Function.update_self] at hev
      cases hev
    · rw [Function.update_of_ne hee] at hev
      exact h.timer e' ev hev

/-- A cancelled timer is not in the list. -/
theorem Linked.cancel (h : s.Linked) {e : EventId} {ev : EventTimer} (hev : s.events e = some ev)
    (htype : ev.type &&& evtTimer ≠ 0) : e ∉ (s.setTimer e .cancel 0).1.efiTimerList := by
  have hcancelled : (s.setTimer e .cancel 0).1.events e =
      some { ev with link := false, triggerTime := 0, period := 0 } := by
    unfold TimerState.setTimer armTimer
    rw [hev]
    dsimp only
    rw [if_neg (not_or.mpr ⟨by decide, htype⟩)]
    exact setTimerOf_self _ e _
  have hlinked := h.setTimer e .cancel 0
  intro he
  cases (hlinked.mem_iff hcancelled).mp he

theorem Linked.closeEvent (h : s.Linked) (e : EventId) : (s.closeEvent e).1.Linked := by
  unfold TimerState.closeEvent
  cases hev : s.events e with
  | none => exact h
  | some ev =>
    dsimp only
    by_cases htype : ev.type &&& evtTimer = 0
    · rw [if_pos htype]
      exact h.forget (h.unlinked_of_not_timer hev htype)
    · rw [if_neg htype]
      exact (h.setTimer e .cancel 0).forget (h.cancel hev htype)

theorem Linked.initializeTimer : initializeTimer.Linked :=
  ⟨.nil, List.nodup_nil, by simp [TimerState.initializeTimer],
    by rintro e ev ⟨⟩⟩

/-- Every call keeps the list, whatever the sums of its times are. -/
theorem Linked.step {call : TimerCall} (h : s.Linked) (hstep : TimerStep s call s') :
    s'.Linked := by
  cases hstep with
  | @createEvent e type hfree =>
    refine h.setUnlinked (fun he => ?_) rfl
    obtain ⟨ev, hev, -⟩ := (h.mem e).mp he
    rw [hfree] at hev
    cases hev
  | closeEvent e => exact h.closeEvent e
  | setTimer e type triggerTime => exact h.setTimer e type triggerTime
  | fwTimerTick duration =>
    unfold TimerState.fwTimerTick
    split
    · exact h
    · exact h.congr rfl rfl
  | checkTimers hr =>
    have hstart : ({ s with checkSignalled := false } : TimerState).Linked := h.congr rfl rfl
    exact (drainTimers_drained _ hstart hr).linked
  | enterRuntime => exact h.congr rfl rfl

theorem linked_of_reach {ok : TimerState → TimerCall → Prop} (h : timers.Reach ok s) : s.Linked :=
  h.rule (by rintro s rfl; exact .initializeTimer) fun _ _ _ hs _ hstep => hs.step hstep

/-- The property of `CheckTimers`: it returns, and takes no timer more than twice. -/
def CheckTimersReturns (s : TimerState) : Prop :=
  ∃ fuel s' signalled, s.checkTimers fuel = some (s', signalled) ∧ ∀ e, signalled.count e ≤ 2

/-- With the timers armed in any way, at any time `t`. -/
theorem checkTimers_returns_iff (h : timers.Reach Machine.anyStep s) (t : BitVec 64) :
    ({ s with efiSystemTime := t } : TimerState).CheckTimersReturns ↔
      ∀ e ev, s.events e = some ev → ev.Settles t := by
  have hlinked := linked_of_reach h
  have hstart : ({ s with efiSystemTime := t, checkSignalled := false } : TimerState).Linked :=
    hlinked.congr rfl rfl
  constructor
  · rintro ⟨fuel, s', signalled, hr, -⟩ e ev hev
    by_contra hnot
    exact absurd (hr.symm.trans (drainTimers_unsettled fuel hstart hev hnot)) (by simp)
  · intro hsettles
    have hsome := drainTimers_settles s.efiTimerList hlinked.nodup _ _ hstart
      (List.Subset.refl _) hsettles rfl
    obtain ⟨⟨s', signalled⟩, hr⟩ := Option.isSome_iff_exists.mp hsome
    refine ⟨_, s', signalled, hr, fun e => ?_⟩
    rw [(drainTimers_drained _ hstart hr).signalled, roundsOf]
    cases s.events e with
    | none => exact Nat.zero_le 2
    | some ev => exact ev.rounds_le_two t

/-- The event 1 with a period of 10. -/
def shortPeriod : TimerState :=
  ((initializeTimer.createEvent 1 evtTimer).setTimer 1 .periodic 10).1

theorem shortPeriod_reach : timers.Reach Machine.anyStep shortPeriod := by
  have hcreated : timers.Reach Machine.anyStep (initializeTimer.createEvent 1 evtTimer) :=
    (Machine.Reach.start rfl).next trivial (.createEvent evtTimer rfl)
  exact hcreated.next trivial (.setTimer _ 1 .periodic 10)

/-- At the time 25 the timer is late, and is taken twice. -/
theorem checkTimers_returns_shortPeriod :
    ({ shortPeriod with efiSystemTime := 25 } : TimerState).CheckTimersReturns ∧
      checkTimers 3 { shortPeriod with efiSystemTime := 25 } ≠ none := by
  refine ⟨(checkTimers_returns_iff shortPeriod_reach 25).mpr fun e ev hev _ _ => ?_, nofun⟩
  by_cases he : e = 1
  · subst he
    cases hev
    exact .inr (by decide)
  · have hnone : shortPeriod.events e = none :=
      (Function.update_of_ne he _ _).trans (Function.update_of_ne he _ _)
    rw [hnone] at hev
    cases hev

/-- At the time 5, the event 1 with the longest period of all. -/
def longestPeriod : TimerState :=
  (((initializeTimer.createEvent 1 evtTimer).fwTimerTick 5).setTimer 1 .periodic (-1)).1

theorem longestPeriod_reach : timers.Reach Machine.anyStep longestPeriod := by
  have hcreated : timers.Reach Machine.anyStep (initializeTimer.createEvent 1 evtTimer) :=
    (Machine.Reach.start rfl).next trivial (.createEvent evtTimer rfl)
  have hticked := hcreated.next trivial (.fwTimerTick _ 5)
  exact hticked.next trivial (.setTimer _ 1 .periodic (-1))

/-- The sum of the time and the period wraps: the timer is always due. -/
theorem not_checkTimersReturns_longestPeriod :
    timers.Reach Machine.anyStep longestPeriod ∧ longestPeriod.efiSystemTime = 5 ∧
      ¬ longestPeriod.CheckTimersReturns := by
  refine ⟨longestPeriod_reach, rfl, ?_⟩
  have hstart : ({ longestPeriod with checkSignalled := false } : TimerState).Linked :=
    (linked_of_reach longestPeriod_reach).congr rfl rfl
  rintro ⟨fuel, s', signalled, hr, -⟩
  have hnone := drainTimers_unsettled (t := 5) (e := 1) fuel hstart rfl (by
    unfold EventTimer.Settles EventTimer.Due
    decide)
  exact absurd (hr.symm.trans hnone) (by simp)

end TimerState

end EfiCore.Exec
