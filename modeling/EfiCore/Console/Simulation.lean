import EfiCore.Console.Translate

/-! # Every run of `UnicodeToEfiKey`

The keys are those of the table on every run.  The reset sequence is recognised by a second
automaton, which forgets a beginning that it has to keep.
-/

namespace EfiCore.Console

open EfiCore.Uni (Char16 ch)

/-! ## Keys -/

/-- The device and the reference have done the same. -/
structure Agrees (t : Terminal) (r : Reference) : Prop where
  collected : Collected t.inputState r.collected
  keys : t.keys = r.keys
  asserted : t.asserted = false
  read : t.read = r.read
  checks : t.checks = r.checks

section Agrees

variable {signalled : Nat → Bool} {t : Terminal} {r : Reference}

theorem Agrees.checkTimeOut (h : Agrees t r) :
    Agrees (t.checkTimeOut signalled) (r.checkTimeOut signalled) := by
  unfold Terminal.checkTimeOut Reference.checkTimeOut
  rw [h.checks]
  cases signalled r.checks with
  | false =>
    simp only [Bool.false_eq_true, if_false]
    exact ⟨h.collected, h.keys, h.asserted, h.read, rfl⟩
  | true =>
    simp only [if_true]
    have hflush := flushState_emits (t := { t with checks := r.checks + 1 }) h.collected
    have hframe := Terminal.flushState_frame { t with checks := r.checks + 1 }
    exact ⟨.start, by rw [hflush.keys, ← h.keys], hframe.asserted.trans h.asserted,
      hframe.read.trans h.read, hframe.checks⟩

theorem Agrees.await (h : Agrees t r) : Agrees (t.await signalled) (r.await signalled) := by
  unfold Terminal.await Reference.await
  by_cases hstart : r.collected = []
  · simpa [hstart, h.collected.default_iff.mpr hstart] using h
  · have hstate : t.inputState ≠ inputStateDefault :=
      fun hstate => hstart (h.collected.default_iff.mp hstate)
    simpa [hstart, hstate] using h.checkTimeOut

theorem Agrees.step (h : Agrees t r) (c : Char16) :
    Agrees { t.translate c with read := (t.translate c).read + 1 } (r.step c) := by
  have hemits := translate_emits h.collected c
  refine ⟨hemits.collected, ?_, hemits.asserted.trans h.asserted, ?_,
    hemits.checks.trans h.checks⟩
  · simp only [hemits.keys, h.keys, Reference.step]
  · simp only [hemits.read, h.read, Reference.step]

theorem Agrees.stepAll (h : Agrees t r) (unicode : List Char16) :
    Agrees (t.translateAll signalled unicode) (r.stepAll signalled unicode) := by
  induction unicode generalizing t r with
  | nil => exact h
  | cons c unicode ih => exact ih (h.await.step c)

theorem Agrees.run (h : Agrees t r) (groups : List (List Char16)) :
    Agrees (t.run signalled groups) (r.run signalled groups) := by
  induction groups generalizing t r with
  | nil => exact h
  | cons unicode groups ih => exact ih (h.checkTimeOut.stepAll unicode)

theorem agrees_initial : Agrees .initial .initial := ⟨.start, rfl, rfl, rfl, rfl⟩

end Agrees

/-! ## The reset sequence -/

/-- How much of the reset sequence the last characters are, when none of them is pending. -/
def armed (arrived : List Char16) : ResetState :=
  if [ch 'R', esc] <+: arrived then resetStateEscR
  else if [ch 'r', esc, ch 'R', esc] <+: arrived then resetStateEscREscr
  else resetStateDefault

/-- `ResetState` says how much of the reset sequence has arrived. -/
structure Follows (t : Terminal) (arrived : List Char16) : Prop where
  escape : t.inputState = inputStateEsc →
    ∃ before, arrived = esc :: before ∧ t.resetState = armed before
  other : t.inputState ≠ inputStateEsc → ¬[esc] <+: arrived
  start : t.inputState = inputStateDefault → t.resetState = armed arrived
  going : t.inputState ≠ inputStateDefault → t.inputState ≠ inputStateEsc →
    armed arrived = resetStateDefault

theorem armed_of_not_escape {arrived : List Char16} (h : ¬[esc] <+: arrived) (c : Char16) :
    armed (c :: arrived) = resetStateDefault := by
  have hR : ¬[ch 'R', esc] <+: c :: arrived := by
    intro hprefix
    exact h (List.cons_prefix_cons.mp hprefix).2
  have hr : ¬[ch 'r', esc, ch 'R', esc] <+: c :: arrived := by
    intro hprefix
    have htail := (List.cons_prefix_cons.mp hprefix).2
    exact h ((List.prefix_append [esc] [ch 'R', esc]).trans htail)
  rw [armed, if_neg hR, if_neg hr]

theorem armed_of_ne {c : Char16} (hR : c ≠ ch 'R') (hr : c ≠ ch 'r') (arrived : List Char16) :
    armed (c :: arrived) = resetStateDefault := by
  simp [armed, List.cons_prefix_cons, Ne.symm hR, Ne.symm hr]

theorem armed_eq_escR {arrived : List Char16} :
    armed arrived = resetStateEscR ↔ [ch 'R', esc] <+: arrived := by
  unfold armed
  repeat' split
  all_goals simp_all [resetStateEscR, resetStateEscREscr, resetStateDefault]

theorem armed_eq_escREscr {arrived : List Char16} :
    armed arrived = resetStateEscREscr ↔ [ch 'r', esc, ch 'R', esc] <+: arrived := by
  unfold armed
  split
  case isTrue hR =>
    have hother : ¬[ch 'r', esc, ch 'R', esc] <+: arrived := by
      obtain ⟨rest, rfl⟩ := hR
      intro h
      exact absurd (List.cons_prefix_cons.mp h).1 (by decide)
    simp [hother, resetStateEscR, resetStateEscREscr]
  case isFalse => split <;> simp_all [resetStateEscREscr, resetStateDefault]

theorem armed_R (before : List Char16) : armed (ch 'R' :: esc :: before) = resetStateEscR :=
  armed_eq_escR.mpr ⟨before, rfl⟩

theorem armed_r (before : List Char16) : armed (ch 'r' :: esc :: before) =
    if armed before = resetStateEscR then resetStateEscREscr else resetStateDefault := by
  have hR : ch 'R' ≠ ch 'r' := by decide
  by_cases h : [ch 'R', esc] <+: before
  · rw [if_pos (armed_eq_escR.mpr h), armed_eq_escREscr]
    simpa [List.cons_prefix_cons] using h
  · rw [if_neg (fun harmed => h (armed_eq_escR.mp harmed))]
    simp [armed, List.cons_prefix_cons, hR, h]

/-! ## What a character does to the reset state -/

namespace Terminal

variable {t : Terminal} {c : Char16} {flag : Bool}

theorem resume_eq : t.resume c flag =
    if c = csi then { t with inputState := inputStateCsi }
    else if c = esc then { t with inputState := inputStateEsc }
    else if t.inputState ≠ inputStateDefault then t
    else { t with
      resetState := if flag then resetStateDefault else t.resetState
      keys := t.keys ++ [if c = del then ⟨scanDelete, 0⟩ else ⟨scanNull, c⟩] } := by
  have hesc : inputStateEsc ≠ inputStateDefault := by decide
  have hcsi : inputStateCsi ≠ inputStateDefault := by decide
  have hne : esc ≠ csi := by decide
  unfold resume insertOneKey
  by_cases hc : c = csi
  · by_cases he : c = esc
    · exact absurd (he.symm.trans hc) hne
    · simp [hc, Ne.symm hne, hcsi]
  by_cases he : c = esc
  · simp [he, hne, hesc]
  by_cases hstart : t.inputState = inputStateDefault
  · obtain ⟨state, resetState, keys, resets, asserted, read, checks⟩ := t
    simp only at hstart
    subst hstart
    simp only [hc, he, if_false, ne_eq, not_true_eq_false]
    cases flag <;> split <;> rfl
  · simp [hc, he, hstart]

theorem resume_resets : (t.resume c flag).resets = t.resets := by
  rw [resume_eq]
  repeat' split
  all_goals rfl

theorem resume_resetState (h : flag = true → t.resetState = resetStateDefault) :
    (t.resume c flag).resetState = t.resetState := by
  have hflag : (if flag then resetStateDefault else t.resetState) = t.resetState := by
    cases flag with
    | false => rfl
    | true => exact (h rfl).symm
  rw [resume_eq, hflag]
  repeat' split
  all_goals rfl

theorem resume_start (h : t.inputState = inputStateDefault) :
    (t.resume c true).resetState =
      if c = esc ∨ c = csi then t.resetState else resetStateDefault := by
  rw [resume_eq]
  by_cases hcsi : c = csi
  · rw [if_pos hcsi, if_pos (.inr hcsi)]
  by_cases hesc : c = esc
  · rw [if_neg hcsi, if_pos hesc, if_pos (.inl hesc)]
  · rw [if_neg hcsi, if_neg hesc, if_neg (not_not.mpr h), if_neg (not_or.mpr ⟨hesc, hcsi⟩)]
    rfl

/-- A key or the characters collected: the reset state is as the case left it. -/
theorem finish_resetState {scanCode : ScanCode}
    (h : flag = true → t.resetState = resetStateDefault) :
    (t.finish scanCode c flag).resetState = t.resetState ∧
      (t.finish scanCode c flag).resets = t.resets := by
  unfold finish
  split
  · have hframe := flushState_frame
      { t.insertOneKey scanCode 0 with inputState := inputStateDefault }
    exact ⟨hframe.resetState, hframe.resets⟩
  · have hframe := t.flushState_frame
    rw [resume_resetState (fun hflag => hframe.resetState.trans (h hflag)), resume_resets]
    exact ⟨hframe.resetState, hframe.resets⟩

/-- What `R` and `r` do behind ESC, and the other characters do not. -/
theorem translateEsc_finish (hbracket : c ≠ leftOpenBracket) (hO : c ≠ ch 'O') :
    (t.translateEsc c).resetState =
        (if (t.resetLetter c).2 then resetStateDefault else (t.resetLetter c).1.resetState) ∧
      (t.translateEsc c).resets = (t.resetLetter c).1.resets := by
  rw [translateEsc, if_neg hbracket, if_neg hO]
  cases hflag : (t.resetLetter c).2 with
  | true =>
    simp only [hflag, if_true]
    exact finish_resetState fun _ => rfl
  | false =>
    simp only [hflag, Bool.false_eq_true, if_false]
    exact finish_resetState fun h => absurd h (by decide)

theorem translateEsc_R : (t.translateEsc (ch 'R')).resetState =
      (if t.resetState = resetStateDefault then resetStateEscR else resetStateDefault) ∧
    (t.translateEsc (ch 'R')).resets =
      if t.resetState = resetStateEscREscr then t.resets ++ [t.read] else t.resets := by
  have hdifferent : resetStateDefault ≠ resetStateEscREscr := by decide
  obtain ⟨hstate, hresets⟩ := t.translateEsc_finish (c := ch 'R') (by decide) (by decide)
  rw [hstate, hresets, resetLetter, if_pos rfl]
  by_cases hdefault : t.resetState = resetStateDefault
  · simp [hdefault, hdifferent]
  by_cases hlast : t.resetState = resetStateEscREscr
  · simp [hlast, Ne.symm hdifferent]
  · simp [hdefault, hlast]

theorem translateEsc_r : (t.translateEsc (ch 'r')).resetState =
      (if t.resetState = resetStateEscR then resetStateEscREscr else resetStateDefault) ∧
    (t.translateEsc (ch 'r')).resets = t.resets := by
  have hR : ch 'r' ≠ ch 'R' := by decide
  obtain ⟨hstate, hresets⟩ := t.translateEsc_finish (c := ch 'r') (by decide) (by decide)
  rw [hstate, hresets, resetLetter, if_neg hR, if_pos rfl]
  by_cases hescR : t.resetState = resetStateEscR <;> simp [hescR]

theorem translateEsc_other (hR : c ≠ ch 'R') (hr : c ≠ ch 'r') :
    (t.translateEsc c).resetState = resetStateDefault ∧ (t.translateEsc c).resets = t.resets := by
  by_cases hbracket : c = leftOpenBracket
  · rw [translateEsc, if_pos hbracket]
    exact ⟨rfl, rfl⟩
  by_cases hO : c = ch 'O'
  · rw [translateEsc, if_neg hbracket, if_pos hO]
    exact ⟨rfl, rfl⟩
  · obtain ⟨hstate, hresets⟩ := t.translateEsc_finish hbracket hO
    rw [hstate, hresets, resetLetter, if_neg hR, if_neg hr]
    exact ⟨rfl, rfl⟩

/-- Behind `[`, `O` or CSI the reset sequence is over. -/
theorem translate_going {collected : List Char16} (h : Collected t.inputState collected)
    (hstart : t.inputState ≠ inputStateDefault) (hesc : t.inputState ≠ inputStateEsc) :
    (t.translate c).resetState = resetStateDefault ∧ (t.translate c).resets = t.resets := by
  obtain ⟨cases, -, hcode⟩ | ⟨-, -, -, hcode⟩ := translate_cases h hstart hesc c
  · rw [hcode]
    exact finish_resetState fun _ => rfl
  · rw [hcode]
    split
    · exact ⟨rfl, rfl⟩
    split
    · exact ⟨rfl, rfl⟩
    · exact finish_resetState fun _ => rfl

end Terminal

/-! ## Where the characters lead -/

/-- The characters that begin a sequence or go on. -/
def inner : List Char16 := [esc, csi, leftOpenBracket, ch 'O', ch '2']

/-- No case for ESC, and no going on with it but at the start. -/
def checkInner (collected : List Char16) (cases : List (Char16 × ScanCode))
    (going : List Char16) : Bool :=
  cases.lookup esc == none && (collected == [] || !going.contains esc) &&
    going.all fun c => inner.contains c

theorem of_checkInner {collected going : List Char16} {cases : List (Char16 × ScanCode)}
    (h : checkInner collected cases going = true) :
    cases.lookup esc = none ∧ (collected = [] ∨ esc ∉ going) ∧ ∀ c ∈ going, c ∈ inner := by
  simpa [checkInner, and_assoc] using h

theorem Collected.behind {state : InputState} {collected : List Char16}
    (h : Collected state collected) : ∃ cases going, Behind collected cases going ∧
      cases.lookup esc = none ∧ (collected = [] ∨ esc ∉ going) ∧ ∀ c ∈ going, c ∈ inner := by
  cases h with
  | start => exact ⟨_, _, behind_start, of_checkInner (by decide +kernel)⟩
  | escape => exact ⟨_, _, behind_escape, of_checkInner (by decide +kernel)⟩
  | escapeO => exact ⟨_, _, behind_escapeO, of_checkInner (by decide +kernel)⟩
  | bracket => exact ⟨_, _, behind_bracket, of_checkInner (by decide +kernel)⟩
  | control => exact ⟨_, _, behind_control, of_checkInner (by decide +kernel)⟩
  | bracket2 => exact ⟨_, _, behind_bracket2, of_checkInner (by decide +kernel)⟩
  | control2 => exact ⟨_, _, behind_control2, of_checkInner (by decide +kernel)⟩
  | bracketO => exact ⟨_, _, behind_bracketO, of_checkInner (by decide +kernel)⟩
  | controlO => exact ⟨_, _, behind_controlO, of_checkInner (by decide +kernel)⟩

/-- ESC begins a sequence in every state, and what is collected ends with a character that goes
on. -/
theorem tokenise_last {state : InputState} {collected : List Char16}
    (h : Collected state collected) (c : Char16) :
    ((tokenise collected c).2 = [esc] ↔ c = esc) ∧
      ((tokenise collected c).2 ≠ [] → c ∈ inner) := by
  obtain ⟨cases, going, hcase, hesc, hstart, hgoing⟩ := h.behind
  have hscan : ((scan c).2 = [esc] ↔ c = esc) ∧
      ((scan c).2 ≠ [] → c ∈ inner) := by
    have hdel : del ≠ esc := by decide
    have hcsi : csi ≠ esc := by decide
    rw [scan_eq]
    by_cases h1 : c = del
    · simp [h1, hdel]
    by_cases h2 : c = esc ∨ c = csi
    · rw [if_neg h1, if_pos h2]
      obtain rfl | rfl := h2
      · simp [inner]
      · simp [inner, hcsi]
    · rw [if_neg h1, if_neg h2]
      simp [(not_or.mp h2).1]
  cases hlookup : cases.lookup c with
  | some scanCode =>
    have hne : c ≠ esc := by
      rintro rfl
      rw [hesc] at hlookup
      cases hlookup
    rw [tokenise, hcase.lookup, hlookup]
    simp [hne]
  | none =>
    by_cases hgoes : c ∈ going
    · rw [tokenise_going hcase hgoes hlookup]
      refine ⟨?_, fun _ => hgoing c hgoes⟩
      constructor
      · intro heq
        have hlast := congrArg List.getLast? heq
        simpa using hlast
      · rintro rfl
        obtain rfl | hnot := hstart
        · rfl
        · exact absurd hgoes hnot
    · have hstops : ¬Continues (collected ++ [c]) := fun h => hgoes ((hcase.continues c).mp h)
      rw [tokenise, hcase.lookup, hlookup]
      simp only [hstops, if_false]
      exact hscan

section Follows

variable {t : Terminal} {collected arrived : List Char16} {c : Char16}

/-- A character may be read: `ResetSystem` was not called, and no second `R` comes behind `ESC R
ESC`. -/
def Terminal.Unhindered (t : Terminal) (c : Char16) : Prop :=
  t.resets = [] ∧
    ¬(c = ch 'R' ∧ t.inputState = inputStateEsc ∧ t.resetState = resetStateEscR)

instance (t : Terminal) (c : Char16) : Decidable (t.Unhindered c) :=
  inferInstanceAs (Decidable (_ ∧ _))

/-- The last characters are the reset sequence exactly if the device is about to reset. -/
theorem resetSequence_iff (h : Follows t arrived) :
    resetSequence.reverse <+: c :: arrived ↔
      c = ch 'R' ∧ t.inputState = inputStateEsc ∧ t.resetState = resetStateEscREscr := by
  have hreverse : resetSequence.reverse = [ch 'R', esc, ch 'r', esc, ch 'R', esc] := rfl
  rw [hreverse, List.cons_prefix_cons, eq_comm]
  by_cases hesc : t.inputState = inputStateEsc
  · obtain ⟨before, rfl, hstate⟩ := h.escape hesc
    rw [List.cons_prefix_cons, hstate, armed_eq_escREscr]
    simp [hesc]
  · have hnot : ¬[esc, ch 'r', esc, ch 'R', esc] <+: arrived := by
      intro hprefix
      exact h.other hesc ((List.prefix_append [esc] _).trans hprefix)
    simp [hesc, hnot]

theorem armed_cases (arrived : List Char16) : armed arrived = resetStateDefault ∨
    armed arrived = resetStateEscR ∨ armed arrived = resetStateEscREscr := by
  unfold armed
  repeat' split
  all_goals simp

/-- What the reset state has to be behind ESC and behind another character. -/
theorem Follows.of_states {t' : Terminal} (hesc : t'.inputState = inputStateEsc ↔ c = esc)
    (hinner : t'.inputState ≠ inputStateDefault → c ∈ inner)
    (hescape : c = esc → t'.resetState = armed arrived)
    (hstart : c ≠ esc → t'.inputState = inputStateDefault →
      t'.resetState = armed (c :: arrived)) : Follows t' (c :: arrived) where
  escape h := ⟨arrived, by rw [hesc.mp h], hescape (hesc.mp h)⟩
  other h := by
    intro hprefix
    exact h (hesc.mpr (List.cons_prefix_cons.mp hprefix).1.symm)
  start h := by
    have hother : inputStateDefault ≠ inputStateEsc := by decide
    apply hstart _ h
    intro hc
    exact hother (h.symm.trans (hesc.mpr hc))
  going h _ := by
    have hmem := hinner h
    have hR : ch 'R' ∉ inner := by decide
    have hr : ch 'r' ∉ inner := by decide
    apply armed_of_ne
    · rintro rfl
      exact hR hmem
    · rintro rfl
      exact hr hmem

/-- Unless the device is reset, the reset state follows. -/
theorem Follows.translate (h : Follows t arrived) (hcollected : Collected t.inputState collected)
    (hc : t.Unhindered c) (hresets : (t.translate c).resets = []) :
    Follows (t.translate c) (c :: arrived) := by
  have hemits := translate_emits hcollected c
  obtain ⟨hesc, hlast⟩ := tokenise_last hcollected c
  apply Follows.of_states (hemits.collected.escape_iff.trans hesc)
    (fun hne => hlast fun hnil => hne (hemits.collected.default_iff.mpr hnil))
  · rintro rfl
    by_cases hstart : t.inputState = inputStateDefault
    · rw [Terminal.translate, if_pos hstart, Terminal.resume_start hstart, if_pos (.inl rfl)]
      exact h.start hstart
    by_cases hbehind : t.inputState = inputStateEsc
    · obtain ⟨before, rfl, -⟩ := h.escape hbehind
      rw [Terminal.translate, if_neg hstart, if_pos hbehind, armed_of_ne (by decide) (by decide)]
      exact (Terminal.translateEsc_other (by decide) (by decide)).1
    · rw [h.going hstart hbehind]
      exact (Terminal.translate_going hcollected hstart hbehind).1
  · intro hne hdefault
    by_cases hstart : t.inputState = inputStateDefault
    · have hnot : ¬[esc] <+: arrived := h.other (by rw [hstart]; decide)
      have hcsi : c ≠ csi := by
        rintro rfl
        have hother : inputStateCsi ≠ inputStateDefault := by decide
        rw [Terminal.translate, if_pos hstart, Terminal.resume_eq, if_pos rfl] at hdefault
        exact hother hdefault
      rw [Terminal.translate, if_pos hstart, Terminal.resume_start hstart,
        if_neg (not_or.mpr ⟨hne, hcsi⟩), armed_of_not_escape hnot]
    by_cases hbehind : t.inputState = inputStateEsc
    · obtain ⟨before, rfl, hstate⟩ := h.escape hbehind
      rw [Terminal.translate, if_neg hstart, if_pos hbehind] at hresets ⊢
      by_cases hR : c = ch 'R'
      · subst hR
        have hsecond : t.resetState ≠ resetStateEscR := fun heq => hc.2 ⟨rfl, hbehind, heq⟩
        rw [Terminal.translateEsc_R.2] at hresets
        rw [Terminal.translateEsc_R.1, armed_R]
        obtain hnone | hone | htwo := armed_cases before
        · rw [hstate, hnone, if_pos rfl]
        · exact absurd (hstate.trans hone) hsecond
        · rw [hstate, htwo, if_pos rfl] at hresets
          simp at hresets
      by_cases hr : c = ch 'r'
      · subst hr
        rw [Terminal.translateEsc_r.1, armed_r, hstate]
      · rw [armed_of_ne hR hr]
        exact (Terminal.translateEsc_other hR hr).1
    · rw [armed_of_not_escape (h.other hbehind)]
      exact (Terminal.translate_going hcollected hstart hbehind).1

/-- `ResetSystem` is called exactly behind the whole reset sequence. -/
theorem Follows.resets (h : Follows t arrived) (hcollected : Collected t.inputState collected) :
    (t.translate c).resets =
      if resetSequence.reverse <+: c :: arrived then t.resets ++ [t.read] else t.resets := by
  have hiff := resetSequence_iff h (c := c)
  by_cases hstart : t.inputState = inputStateDefault
  · have hother : inputStateDefault ≠ inputStateEsc := by decide
    rw [if_neg (fun hreset => hother (hstart.symm.trans (hiff.mp hreset).2.1)),
      Terminal.translate, if_pos hstart, Terminal.resume_resets]
  by_cases hbehind : t.inputState = inputStateEsc
  · rw [Terminal.translate, if_neg hstart, if_pos hbehind]
    by_cases hR : c = ch 'R'
    · subst hR
      rw [Terminal.translateEsc_R.2]
      simp only [hiff, hbehind, true_and]
    · rw [if_neg (fun hreset => hR (hiff.mp hreset).1)]
      by_cases hr : c = ch 'r'
      · rw [hr]
        exact Terminal.translateEsc_r.2
      · exact (Terminal.translateEsc_other hR hr).2
  · rw [if_neg (fun hreset => hbehind (hiff.mp hreset).2.1)]
    exact (Terminal.translate_going hcollected hstart hbehind).2

end Follows

/-! ## Runs -/

/-- The resets are those of the reference; until the first one the reset state follows. -/
structure Resets (t : Terminal) (r : Reference) : Prop where
  resets : t.resets = r.resets
  follows : t.resets = [] → Follows t r.arrived

theorem follows_start {t : Terminal} (hstate : t.inputState = inputStateDefault)
    (hreset : t.resetState = resetStateDefault) : Follows t [] where
  escape h := absurd (hstate.symm.trans h) (by decide)
  other _ := by simp
  start _ := hreset
  going h := absurd hstate h

namespace Terminal

/-- Every character of a call may be read. -/
def AllUnhindered (signalled : Nat → Bool) (t : Terminal) : List Char16 → Prop
  | [] => True
  | c :: unicode =>
    (t.await signalled).Unhindered c ∧
      AllUnhindered signalled
        { (t.await signalled).translate c with
          read := ((t.await signalled).translate c).read + 1 } unicode

/-- Every character of the calls may be read. -/
def RunUnhindered (signalled : Nat → Bool) (t : Terminal) : List (List Char16) → Prop
  | [] => True
  | unicode :: groups =>
    (t.checkTimeOut signalled).AllUnhindered signalled unicode ∧
      RunUnhindered signalled (t.unicodeToEfiKey signalled unicode) groups

instance decidableAllUnhindered (signalled : Nat → Bool) :
    ∀ (t : Terminal) (unicode : List Char16), Decidable (t.AllUnhindered signalled unicode)
  | _, [] => .isTrue trivial
  | _, _ :: unicode =>
    have := fun t => decidableAllUnhindered signalled t unicode
    inferInstanceAs (Decidable (_ ∧ _))

instance decidableRunUnhindered (signalled : Nat → Bool) :
    ∀ (t : Terminal) (groups : List (List Char16)), Decidable (t.RunUnhindered signalled groups)
  | _, [] => .isTrue trivial
  | _, _ :: groups =>
    have := fun t => decidableRunUnhindered signalled t groups
    inferInstanceAs (Decidable (_ ∧ _))

end Terminal

section Runs

variable {signalled : Nat → Bool} {t : Terminal} {r : Reference}

theorem Resets.checkTimeOut (h : Resets t r) (ha : Agrees t r) :
    Resets (t.checkTimeOut signalled) (r.checkTimeOut signalled) := by
  unfold Terminal.checkTimeOut Reference.checkTimeOut
  rw [ha.checks]
  cases signalled r.checks with
  | false =>
    simp only [Bool.false_eq_true, if_false]
    refine ⟨h.resets, fun hnone => ?_⟩
    have hfollows := h.follows hnone
    exact ⟨hfollows.escape, hfollows.other, hfollows.start, hfollows.going⟩
  | true =>
    simp only [if_true]
    have hframe := Terminal.flushState_frame { t with checks := r.checks + 1 }
    exact ⟨hframe.resets.trans h.resets, fun _ => follows_start rfl rfl⟩

theorem Resets.await (h : Resets t r) (ha : Agrees t r) :
    Resets (t.await signalled) (r.await signalled) := by
  unfold Terminal.await Reference.await
  by_cases hstart : r.collected = []
  · simpa [hstart, ha.collected.default_iff.mpr hstart] using h
  · have hstate : t.inputState ≠ inputStateDefault :=
      fun hstate => hstart (ha.collected.default_iff.mp hstate)
    simpa [hstart, hstate] using h.checkTimeOut ha

theorem Resets.step (h : Resets t r) (ha : Agrees t r) {c : Char16} (hc : t.Unhindered c) :
    Resets { t.translate c with read := (t.translate c).read + 1 } (r.step c) := by
  have hfollows := h.follows hc.1
  refine ⟨?_, fun hnone => ?_⟩
  · show (t.translate c).resets = _
    rw [hfollows.resets ha.collected, Reference.step, h.resets, ha.read]
  · have hnext := hfollows.translate ha.collected hc hnone
    exact ⟨hnext.escape, hnext.other, hnext.start, hnext.going⟩

theorem Resets.stepAll (h : Resets t r) (ha : Agrees t r) {unicode : List Char16}
    (hall : t.AllUnhindered signalled unicode) :
    Resets (t.translateAll signalled unicode) (r.stepAll signalled unicode) := by
  induction unicode generalizing t r with
  | nil => exact h
  | cons c unicode ih =>
    exact ih ((h.await ha).step ha.await hall.1) (ha.await.step c) hall.2

theorem Resets.run (h : Resets t r) (ha : Agrees t r) {groups : List (List Char16)}
    (hall : t.RunUnhindered signalled groups) :
    Resets (t.run signalled groups) (r.run signalled groups) := by
  induction groups generalizing t r with
  | nil => exact h
  | cons unicode groups ih =>
    exact ih ((h.checkTimeOut ha).stepAll ha.checkTimeOut hall.1) (ha.checkTimeOut.stepAll unicode)
      hall.2

/-- The keys and the calls of `ResetSystem` are those of the reference, and the branch for
invalid states was not reached. -/
def Exact (signalled : Nat → Bool) (groups : List (List Char16)) : Prop :=
  let t := Terminal.initial.run signalled groups
  let r := Reference.initial.run signalled groups
  t.keys = r.keys ∧ t.resets = r.resets ∧ t.asserted = false

theorem unicodeToEfiKey_exact (signalled : Nat → Bool) (groups : List (List Char16))
    (h : Terminal.initial.RunUnhindered signalled groups) : Exact signalled groups := by
  have hagrees := @Agrees.run signalled _ _ agrees_initial groups
  have hresets : Resets .initial .initial := ⟨rfl, fun _ => follows_start rfl rfl⟩
  exact ⟨hagrees.keys, (hresets.run agrees_initial h).resets, hagrees.asserted⟩

/-- `ESC [`, the rest in the next call, and the reset sequence in pieces. -/
theorem unicodeToEfiKey_exact_reset : Exact (fun _ => false)
    [[esc, leftOpenBracket], [ch 'A', esc, ch 'R'], [esc, ch 'r', esc, ch 'R']] :=
  unicodeToEfiKey_exact _ _ (by decide +kernel)

/-- `ESC R` and then the reset sequence: the second `ESC R` is forgotten. -/
theorem not_exact_escR : ¬Exact (fun _ => false)
    [[esc, ch 'R', esc, ch 'R', esc, ch 'r', esc, ch 'R']] := by
  rintro ⟨-, h, -⟩
  have hcode : (Terminal.initial.run (fun _ => false)
      [[esc, ch 'R', esc, ch 'R', esc, ch 'r', esc, ch 'R']]).resets = [] := by decide +kernel
  have hreference : (Reference.initial.run (fun _ => false)
      [[esc, ch 'R', esc, ch 'R', esc, ch 'r', esc, ch 'R']]).resets = [7] := by decide +kernel
  rw [hcode, hreference] at h
  cases h

end Runs

end EfiCore.Console
