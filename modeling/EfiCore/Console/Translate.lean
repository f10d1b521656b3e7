import EfiCore.Lib.Sequences
import EfiCore.Console.Tokeniser

/-! # The automaton against the table

Each state of the automaton stands for the characters collected; behind them the cases of its
switch are the entries of the table.
-/

namespace EfiCore.Console

open EfiCore.Lib
open EfiCore.Uni (Char16 ch)

/-- `InputState` and the characters that it stands for. -/
inductive Collected : InputState → List Char16 → Prop
  | start : Collected inputStateDefault []
  | escape : Collected inputStateEsc [esc]
  | escapeO : Collected (inputStateEsc ||| inputStateO) [esc, ch 'O']
  | bracket : Collected (inputStateEsc ||| inputStateLeftOpenBracket) [esc, leftOpenBracket]
  | control : Collected inputStateCsi [csi]
  | bracket2 : Collected (inputStateEsc ||| inputStateLeftOpenBracket ||| inputState2)
      [esc, leftOpenBracket, ch '2']
  | control2 : Collected (inputStateCsi ||| inputState2) [csi, ch '2']
  | bracketO : Collected (inputStateEsc ||| inputStateLeftOpenBracket ||| inputStateO)
      [esc, leftOpenBracket, ch 'O']
  | controlO : Collected (inputStateCsi ||| inputStateO) [csi, ch 'O']

theorem Collected.default_iff {state : InputState} {collected : List Char16}
    (h : Collected state collected) : state = inputStateDefault ↔ collected = [] := by
  cases h <;> decide

theorem Collected.escape_iff {state : InputState} {collected : List Char16}
    (h : Collected state collected) : state = inputStateEsc ↔ collected = [esc] := by
  cases h <;> decide

/-- What the table has behind some characters: the cases of a switch, and the characters that
go on. -/
structure Behind (collected : List Char16) (cases : List (Char16 × ScanCode))
    (going : List Char16) : Prop where
  lookup : ∀ c, sequences.lookup (collected ++ [c]) = cases.lookup c
  continues : ∀ c, Continues (collected ++ [c]) ↔ c ∈ going
  nonNull : ∀ c scanCode, cases.lookup c = some scanCode → scanCode ≠ scanNull

/-- `Behind`, evaluated. -/
def checkBehind (collected : List Char16) (cases : List (Char16 × ScanCode))
    (going : List Char16) : Bool :=
  (endsAt sequences collected).isPerm cases && decide (cases.map Prod.fst).Nodup &&
    (branches sequences collected).all (fun c => going.contains c) &&
    going.all (fun c => (branches sequences collected).contains c) &&
    cases.all fun entry => entry.2 != scanNull

theorem Behind.of_check {collected going : List Char16} {cases : List (Char16 × ScanCode)}
    (h : checkBehind collected cases going = true) : Behind collected cases going := by
  simp only [checkBehind, Bool.and_eq_true, List.isPerm_iff, decide_eq_true_eq, List.all_eq_true,
    List.contains_eq_mem, bne_iff_ne] at h
  obtain ⟨⟨⟨⟨hperm, hnodup⟩, hbranches⟩, hgoing⟩, hnull⟩ := h
  exact {
    lookup := by
      intro c
      rw [lookup_concat]
      exact lookup_eq_of_perm hperm hnodup c
    continues := by
      intro c
      rw [Continues, continues_concat]
      exact ⟨hbranches c, hgoing c⟩
    nonNull := by
      intro c scanCode hlookup
      exact hnull _ ((lookup_eq_some_iff_mem hnodup).mp hlookup) }

theorem checkBehind_all :
    checkBehind [] [(del, scanDelete)] [esc, csi] ∧
    checkBehind [esc] escCases [leftOpenBracket, ch 'O'] ∧
    checkBehind [esc, ch 'O'] escOCases [] ∧
    checkBehind [esc, leftOpenBracket] csiCases [ch 'O', ch '2'] ∧
    checkBehind [csi] csiCases [ch 'O', ch '2'] ∧
    checkBehind [esc, leftOpenBracket, ch '2'] csi2Cases [] ∧
    checkBehind [csi, ch '2'] csi2Cases [] ∧
    checkBehind [esc, leftOpenBracket, ch 'O'] csiOCases [] ∧
    checkBehind [csi, ch 'O'] csiOCases [] := by
  decide +kernel

theorem behind_start : Behind [] [(del, scanDelete)] [esc, csi] :=
  .of_check checkBehind_all.1

theorem behind_escape : Behind [esc] escCases [leftOpenBracket, ch 'O'] :=
  .of_check checkBehind_all.2.1

theorem behind_escapeO : Behind [esc, ch 'O'] escOCases [] :=
  .of_check checkBehind_all.2.2.1

theorem behind_bracket : Behind [esc, leftOpenBracket] csiCases [ch 'O', ch '2'] :=
  .of_check checkBehind_all.2.2.2.1

theorem behind_control : Behind [csi] csiCases [ch 'O', ch '2'] :=
  .of_check checkBehind_all.2.2.2.2.1

theorem behind_bracket2 : Behind [esc, leftOpenBracket, ch '2'] csi2Cases [] :=
  .of_check checkBehind_all.2.2.2.2.2.1

theorem behind_control2 : Behind [csi, ch '2'] csi2Cases [] :=
  .of_check checkBehind_all.2.2.2.2.2.2.1

theorem behind_bracketO : Behind [esc, leftOpenBracket, ch 'O'] csiOCases [] :=
  .of_check checkBehind_all.2.2.2.2.2.2.2.1

theorem behind_controlO : Behind [csi, ch 'O'] csiOCases [] :=
  .of_check checkBehind_all.2.2.2.2.2.2.2.2

/-! ## What the steps leave alone -/

namespace Terminal

/-- Only keys and `InputState` differ. -/
structure Frame (t t' : Terminal) : Prop where
  resetState : t'.resetState = t.resetState
  resets : t'.resets = t.resets
  asserted : t'.asserted = t.asserted
  read : t'.read = t.read
  checks : t'.checks = t.checks

theorem Frame.trans {t t' t'' : Terminal} (h : Frame t t') (h' : Frame t' t'') : Frame t t'' :=
  ⟨h'.resetState.trans h.resetState, h'.resets.trans h.resets, h'.asserted.trans h.asserted,
    h'.read.trans h.read, h'.checks.trans h.checks⟩

theorem insertIf_frame (t : Terminal) (state : InputState) (scanCode : ScanCode)
    (unicodeChar : Char16) : Frame t (t.insertIf state scanCode unicodeChar) := by
  unfold insertIf
  split <;> exact ⟨rfl, rfl, rfl, rfl, rfl⟩

theorem insertCollected_frame (t : Terminal) : Frame t t.insertCollected :=
  (t.insertIf_frame inputStateEsc scanEsc 0).trans <|
    (insertIf_frame _ inputStateCsi scanNull csi).trans <|
      (insertIf_frame _ inputStateLeftOpenBracket scanNull leftOpenBracket).trans <|
        (insertIf_frame _ inputStateO scanNull (ch 'O')).trans
          (insertIf_frame _ inputState2 scanNull (ch '2'))

theorem flushState_frame (t : Terminal) : Frame t t.flushState := by
  have h := t.insertCollected_frame
  exact ⟨h.resetState, h.resets, h.asserted, h.read, h.checks⟩

@[simp] theorem flushState_inputState (t : Terminal) :
    t.flushState.inputState = inputStateDefault := rfl

end Terminal

/-! ## The keys -/

/-- From `t` the keys of the reference were inserted, and its characters are collected. -/
structure Emits (t t' : Terminal) (result : List InputKey × List Char16) : Prop where
  keys : t'.keys = t.keys ++ result.1
  collected : Collected t'.inputState result.2
  asserted : t'.asserted = t.asserted
  read : t'.read = t.read
  checks : t'.checks = t.checks

section Keys

variable {t : Terminal} {collected going : List Char16} {cases : List (Char16 × ScanCode)}
  {c : Char16}

theorem flushState_emits (h : Collected t.inputState collected) :
    Emits t t.flushState (collected.map rawKey, []) := by
  have hframe := t.flushState_frame
  refine ⟨?_, .start, hframe.asserted, hframe.read, hframe.checks⟩
  generalize hstate : t.inputState = state at h
  cases h <;> simp [Terminal.flushState, Terminal.insertCollected, Terminal.insertIf, Terminal.insertOneKey, hstate,
    rawKey, inputStateDefault, inputStateEsc, inputStateCsi, inputStateLeftOpenBracket,
    inputStateO, inputState2, esc, csi, leftOpenBracket, scanEsc, scanNull, ch]

theorem scan_eq (c : Char16) : scan c =
    if c = del then ([⟨scanDelete, 0⟩], [])
    else if c = esc ∨ c = csi then ([], [c]) else ([⟨scanNull, c⟩], []) := by
  have hlookup : sequences.lookup [c] = [(del, scanDelete)].lookup c := behind_start.lookup c
  have hcontinues : Continues [c] ↔ c ∈ [esc, csi] := behind_start.continues c
  rw [scan, hlookup, List.lookup_singleton]
  by_cases hdel : c = del
  · simp [hdel]
  · by_cases hgoes : c = esc ∨ c = csi
    · have hc : Continues [c] := by simpa [hcontinues] using hgoes
      simp [hdel, hgoes, hc]
    · have hc : ¬Continues [c] := by simpa [hcontinues] using hgoes
      obtain ⟨hesc, hcsi⟩ := not_or.mp hgoes
      simp [hdel, hc, rawKey, hesc, hcsi, scanNull]

theorem resume_emits (h : t.inputState = inputStateDefault) (c : Char16) (flag : Bool) :
    Emits t (t.resume c flag) (scan c) := by
  rw [scan_eq]
  unfold Terminal.resume
  by_cases hesc : c = esc
  · subst hesc
    have hdel : esc ≠ del := by decide
    have hcsi : esc ≠ csi := by decide
    have hdefault : inputStateEsc ≠ inputStateDefault := by decide
    simp only [hdel, hcsi, hdefault, if_true, if_false, ne_eq, not_false_eq_true, true_or]
    exact ⟨(List.append_nil _).symm, .escape, rfl, rfl, rfl⟩
  by_cases hcsi : c = csi
  · subst hcsi
    have hdel : csi ≠ del := by decide
    have hdefault : inputStateCsi ≠ inputStateDefault := by decide
    simp only [hesc, hdel, hdefault, if_true, if_false, ne_eq, not_false_eq_true, or_true]
    exact ⟨(List.append_nil _).symm, .control, rfl, rfl, rfl⟩
  · simp only [hesc, hcsi, h, if_false, ne_eq, not_true_eq_false, or_self]
    cases flag <;> split
    all_goals
      refine ⟨rfl, ?_, rfl, rfl, rfl⟩
      simp only [Terminal.insertOneKey, if_true, Bool.false_eq_true, if_false, h]
      exact .start

theorem Emits.trans {t' t'' : Terminal} {first second : List InputKey × List Char16}
    (h : Emits t t' first) (h' : Emits t' t'' second) :
    Emits t t'' (first.1 ++ second.1, second.2) :=
  ⟨by rw [h'.keys, h.keys, List.append_assoc], h'.collected, h'.asserted.trans h.asserted,
    h'.read.trans h.read, h'.checks.trans h.checks⟩

/-- A case of the switch, for a character that does not go on. -/
theorem finish_emits (hcase : Behind collected cases going)
    (h : Collected t.inputState collected) (hc : c ∉ going) (flag : Bool) :
    Emits t (t.finish (switch cases c) c flag) (tokenise collected c) := by
  rw [tokenise, hcase.lookup, Terminal.finish, switch]
  cases hlookup : cases.lookup c with
  | none =>
    have hstops : ¬Continues (collected ++ [c]) := fun h => hc ((hcase.continues c).mp h)
    simp only [Option.getD_none, ne_eq, not_true_eq_false, if_false, hstops]
    exact (flushState_emits h).trans (resume_emits rfl c flag)
  | some scanCode =>
    have hcode := hcase.nonNull c scanCode hlookup
    simp only [Option.getD_some, ne_eq, hcode, not_false_eq_true, if_true]
    -- `InputState` is the default one, so nothing is flushed behind the key
    have hflush := flushState_emits
      (t := { t.insertOneKey scanCode 0 with inputState := inputStateDefault }) .start
    exact ⟨by rw [hflush.keys]; simp [Terminal.insertOneKey], .start, hflush.asserted, hflush.read,
      hflush.checks⟩

/-- A character that goes on. -/
theorem tokenise_going (hcase : Behind collected cases going) (hc : c ∈ going)
    (hnone : cases.lookup c = none) : tokenise collected c = ([], collected ++ [c]) := by
  have hgoes : Continues (collected ++ [c]) := (hcase.continues c).mpr hc
  rw [tokenise, hcase.lookup, hnone]
  simp [hgoes]

theorem Terminal.resetLetter_eq (t : Terminal) (c : Char16) :
    (t.resetLetter c).1 = { t with
      resetState := (t.resetLetter c).1.resetState
      resets := (t.resetLetter c).1.resets } := by
  unfold Terminal.resetLetter
  repeat' split
  all_goals rfl

theorem translateEsc_emits (h : t.inputState = inputStateEsc) (c : Char16) :
    Emits t (t.translateEsc c) (tokenise [esc] c) := by
  unfold Terminal.translateEsc
  by_cases hbracket : c = leftOpenBracket
  · subst hbracket
    rw [if_pos rfl, tokenise_going behind_escape (by simp) (by decide)]
    refine ⟨(List.append_nil _).symm, ?_, rfl, rfl, rfl⟩
    simp only [h]
    exact .bracket
  by_cases hO : c = ch 'O'
  · subst hO
    rw [if_neg hbracket, if_pos rfl, tokenise_going behind_escape (by simp) (by decide)]
    refine ⟨(List.append_nil _).symm, ?_, rfl, rfl, rfl⟩
    simp only [h]
    exact .escapeO
  · rw [if_neg hbracket, if_neg hO]
    have hgoing : c ∉ [leftOpenBracket, ch 'O'] := by simp [hbracket, hO]
    -- the reset state is set aside from the keys
    have hfinish : ∀ r, Emits t
        (Terminal.finish { (t.resetLetter c).1 with resetState := r } (switch escCases c) c
          (t.resetLetter c).2) (tokenise [esc] c) := by
      intro r
      rw [t.resetLetter_eq c]
      have hcollected : Collected t.inputState [esc] := h ▸ .escape
      have hemits := finish_emits
        (t := { t with resetState := r, resets := (t.resetLetter c).1.resets })
        behind_escape hcollected hgoing (t.resetLetter c).2
      exact ⟨hemits.keys, hemits.collected, hemits.asserted, hemits.read, hemits.checks⟩
    cases hflag : (t.resetLetter c).2 with
    | true => simpa [hflag] using hfinish resetStateDefault
    | false => simpa [hflag] using hfinish (t.resetLetter c).1.resetState

/-- Behind `[`, `O` or CSI: either every character ends the sequence, or `O` and `2` go on. -/
theorem translate_cases (h : Collected t.inputState collected)
    (hstart : t.inputState ≠ inputStateDefault) (hesc : t.inputState ≠ inputStateEsc)
    (c : Char16) :
    let t' := { t with resetState := resetStateDefault }
    (∃ cases, Behind collected cases [] ∧
      t.translate c = t'.finish (switch cases c) c true) ∨
    (Behind collected csiCases [ch 'O', ch '2'] ∧
      Collected (t.inputState ||| inputStateO) (collected ++ [ch 'O']) ∧
      Collected (t.inputState ||| inputState2) (collected ++ [ch '2']) ∧
      t.translate c =
        if c = ch 'O' then { t' with inputState := t.inputState ||| inputStateO }
        else if c = ch '2' then { t' with inputState := t.inputState ||| inputState2 }
        else t'.finish (switch csiCases c) c true) := by
  intro t'
  have hcode : t.translate c = t.translate c := rfl
  conv_rhs at hcode => rw [Terminal.translate, if_neg hstart, if_neg hesc]
  generalize hstate : t.inputState = state at h
  cases h with
  | start => exact absurd hstate hstart
  | escape => exact absurd hstate hesc
  | escapeO =>
    rw [if_pos hstate] at hcode
    exact .inl ⟨_, behind_escapeO, hcode⟩
  | bracket =>
    rw [if_neg (by rw [hstate]; decide), if_pos (.inl hstate)] at hcode
    exact .inr ⟨behind_bracket, .bracketO, .bracket2, hstate ▸ hcode⟩
  | control =>
    rw [if_neg (by rw [hstate]; decide), if_pos (.inr hstate)] at hcode
    exact .inr ⟨behind_control, .controlO, .control2, hstate ▸ hcode⟩
  | bracket2 =>
    rw [if_neg (by rw [hstate]; decide), if_neg (by rw [hstate]; decide),
      if_pos (.inl hstate)] at hcode
    exact .inl ⟨_, behind_bracket2, hcode⟩
  | control2 =>
    rw [if_neg (by rw [hstate]; decide), if_neg (by rw [hstate]; decide),
      if_pos (.inr hstate)] at hcode
    exact .inl ⟨_, behind_control2, hcode⟩
  | bracketO =>
    rw [if_neg (by rw [hstate]; decide), if_neg (by rw [hstate]; decide),
      if_neg (by rw [hstate]; decide), if_pos (.inl hstate)] at hcode
    exact .inl ⟨_, behind_bracketO, hcode⟩
  | controlO =>
    rw [if_neg (by rw [hstate]; decide), if_neg (by rw [hstate]; decide),
      if_neg (by rw [hstate]; decide), if_pos (.inr hstate)] at hcode
    exact .inl ⟨_, behind_controlO, hcode⟩

theorem tokenise_nil (c : Char16) : tokenise [] c = scan c := by
  rw [tokenise, List.nil_append]
  cases hlookup : sequences.lookup [c] with
  | some scanCode => simp [scan, hlookup]
  | none => by_cases hgoes : Continues [c] <;> simp [scan, hlookup, hgoes]

/-- A character of any kind, in any state. -/
theorem translate_emits (h : Collected t.inputState collected) (c : Char16) :
    Emits t (t.translate c) (tokenise collected c) := by
  by_cases hstart : t.inputState = inputStateDefault
  · have hcollected : collected = [] := h.default_iff.mp hstart
    rw [hcollected, Terminal.translate, if_pos hstart, tokenise_nil]
    exact resume_emits hstart c true
  by_cases hesc : t.inputState = inputStateEsc
  · have hcollected : collected = [esc] := h.escape_iff.mp hesc
    rw [hcollected, Terminal.translate, if_neg hstart, if_pos hesc]
    exact translateEsc_emits hesc c
  obtain ⟨cases, hcase, hcode⟩ | ⟨hcase, hO, h2, hcode⟩ := translate_cases h hstart hesc c
  · rw [hcode]
    have hgoing : c ∉ [] := List.not_mem_nil
    have hemits := finish_emits (t := { t with resetState := resetStateDefault }) hcase h hgoing
      true
    exact ⟨hemits.keys, hemits.collected, hemits.asserted, hemits.read, hemits.checks⟩
  · rw [hcode]
    by_cases hcO : c = ch 'O'
    · subst hcO
      rw [if_pos rfl, tokenise_going hcase (by simp) (by decide)]
      exact ⟨(List.append_nil _).symm, hO, rfl, rfl, rfl⟩
    by_cases hc2 : c = ch '2'
    · subst hc2
      rw [if_neg hcO, if_pos rfl, tokenise_going hcase (by simp) (by decide)]
      exact ⟨(List.append_nil _).symm, h2, rfl, rfl, rfl⟩
    · rw [if_neg hcO, if_neg hc2]
      have hgoing : c ∉ [ch 'O', ch '2'] := by simp [hcO, hc2]
      have hemits := finish_emits (t := { t with resetState := resetStateDefault }) hcase h hgoing
        true
      exact ⟨hemits.keys, hemits.collected, hemits.asserted, hemits.read, hemits.checks⟩

end Keys

end EfiCore.Console
