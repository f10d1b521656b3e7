import EfiCore.Exec.Tpl
import EfiCore.Lib.Run

/-! # The monotonic counter

`mtc.c`.  The low half of `EfiMtc` lives in memory only.  The high half is raised at every boot,
and by an event when half of the low half has been used up; `EfiMtcEventHandler` raises it in
`EfiMtc` first and stores it in a variable then.  Whatever can preempt the handler between the two
can take counts whose high half has not been stored.

The variable services are assumed to work: `SetVariable` succeeds, and what it wrote is there
after any reset.
-/

namespace EfiCore.Exec.Mtc

open EfiCore.Lib

/-- `LShiftU64 (HighCount, 32)` -/
@[irreducible] def ofHigh (highCount : BitVec 32) : BitVec 64 := highCount.zeroExtend 64 <<< 32

/-- `(UINT32) RShiftU64 (EfiMtc, 32)` -/
@[irreducible] def highOf (efiMtc : BitVec 64) : BitVec 32 := (efiMtc >>> 32).setWidth 32

/-- Who called `EfiMtcEventHandler`. -/
inductive Caller where
  | initializeMonotonicCount
  | dispatchEventNotifies
  | getNextHighMonotonicCount
  deriving DecidableEq, Repr

/-- `TPL_CALLBACK`, the level that `EfiMtcEvent` is notified at. -/
def tplCallback : Nat := 8

/-- The level the handler runs at: `TPL_CALLBACK` for the event, else `TPL_APPLICATION`. -/
def Caller.tpl : Caller → Nat
  | dispatchEventNotifies => tplCallback
  | _ => tplApplication

/-- An activation of `EfiMtcEventHandler`, with its `HighCount` once that is set. -/
structure Activation where
  caller : Caller
  highCount : Option (BitVec 32)
  deriving DecidableEq, Repr

structure State where
  efiMtc : BitVec 64
  /-- `EfiMtcEvent` is signalled and its handler has not been called for it yet. -/
  signalled : Bool
  /-- `InitializeMonotonicCount` was called in this boot. -/
  initialized : Bool
  efiAtRuntime : Bool
  /-- The activations of the handler, the innermost first. -/
  handlers : List Activation
  /-- The variable `EfiMtcName`, which survives a reset. -/
  stored : Option (BitVec 32)
  /-- Every count that `GetNextMonotonicCount` returned with success in any boot, the last first. -/
  counts : List (BitVec 64)
  /-- Every high count that `GetNextHighMonotonicCount` returned, the last first. -/
  highCounts : List (BitVec 32)
  deriving DecidableEq, Repr

namespace State

/-- `InitializeMonotonicCount`, up to its call of the handler. -/
def initializeMonotonicCount (s : State) : State :=
  let highCount := s.stored.getD 0
  { s with
    initialized := true
    efiMtc := ofHigh highCount
    handlers := ⟨.initializeMonotonicCount, none⟩ :: s.handlers }

/-- `GetNextMonotonicCount`; `count` is false for a `NULL` pointer. -/
def getNextMonotonicCount (count : Bool) (s : State) : (Status × Option (BitVec 64)) × State :=
  if !count then ((.invalidParameter, none), s)
  else if s.efiMtc = 0 then ((.notReady, some 0), s)
  else
    let previousMtc := s.efiMtc
    let efiMtc := s.efiMtc + 1
    let i := efiMtc.setWidth 32 ^^^ previousMtc.setWidth 32
    ((.success, some previousMtc),
      { s with efiMtc, signalled := s.signalled || i &&& 0x80000000 ≠ 0 })

/-- The first step of `EfiMtcEventHandler`, by the innermost activation. -/
def advance (s : State) : Option State :=
  match s.handlers with
  | ⟨caller, none⟩ :: rest =>
    let highCount := highOf s.efiMtc + 1
    some { s with
      efiMtc := ofHigh highCount
      handlers := ⟨caller, some highCount⟩ :: rest }
  | _ => none

/-- The second step of `EfiMtcEventHandler`, `SetVariable`, and its return. -/
def persist (s : State) : Option State :=
  match s.handlers with
  | ⟨caller, some highCount⟩ :: rest =>
    some { s with
      stored := some highCount
      handlers := rest
      highCounts := if caller = .getNextHighMonotonicCount
        then highOf s.efiMtc :: s.highCounts else s.highCounts }
  | _ => none

/-- `GetNextHighMonotonicCount`, up to its call of the handler. -/
def getNextHighMonotonicCount (highCount : Bool) (s : State) : Status × State :=
  if !s.efiAtRuntime then (.unsupported, s)
  else if !highCount then (.invalidParameter, s)
  else (.success, { s with handlers := ⟨.getNextHighMonotonicCount, none⟩ :: s.handlers })

end State

inductive Action where
  /-- A reset or a loss of power. -/
  | reset
  | initializeMonotonicCount
  /-- The dispatcher calls the handler of `EfiMtcEvent`. -/
  | dispatch
  | advance
  | persist
  | getNext (count : Bool)
  | getNextHigh (highCount : Bool)
  | exitBootServices
  deriving DecidableEq, Repr

/-- Before the first boot ever. -/
def State.new : State := ⟨0, false, false, false, [], none, [], []⟩

/-- What survives a reset: the variable, and the record of what was returned. -/
def State.reset (s : State) : State :=
  { State.new with stored := s.stored, counts := s.counts, highCounts := s.highCounts }

/-- One step.  An interrupt may call `GetNextMonotonicCount` at any point until boot services end;
    the event is dispatched when nothing of its level or above runs; `ExitBootServices` is called
    at `TPL_APPLICATION`, where nothing is pending; and the system calls one runtime service at a
    time. -/
def State.step (s : State) : Action → Option State
  | .reset => some s.reset
  | .initializeMonotonicCount => if s.initialized then none else some s.initializeMonotonicCount
  | .dispatch =>
    if s.signalled ∧ s.handlers.all (·.caller.tpl < tplCallback) then
      some { s with
        signalled := false, handlers := ⟨.dispatchEventNotifies, none⟩ :: s.handlers }
    else none
  | .advance => s.advance
  | .persist => s.persist
  | .getNext count =>
    if s.efiAtRuntime then none
    else match s.getNextMonotonicCount count with
      | ((.success, some c), s') => some { s' with counts := c :: s'.counts }
      | (_, s') => some s'
  | .getNextHigh highCount =>
    if s.handlers = [] then some (s.getNextHighMonotonicCount highCount).2 else none
  | .exitBootServices =>
    if s.initialized ∧ s.handlers = [] ∧ !s.signalled then some { s with efiAtRuntime := true }
    else none

/-- The counter over any number of boots. -/
def machine : Machine State Action where
  init s := s = State.new
  step s a s' := s.step a = some s'

/-- The high half does not overflow. -/
def HighFits (s : State) : Action → Prop
  | .advance => (highOf s.efiMtc).toNat + 1 < 2 ^ 32
  | .getNext _ => s.efiMtc.toNat + 1 < 2 ^ 64
  | _ => True

/-- In the runs of steps that meet `ok`, as long as the high half does not overflow, every count
    returned is above all that were returned before. -/
def NeverRepeats (ok : State → Action → Prop) : Prop :=
  ∀ s, machine.Reach (fun s a => HighFits s a ∧ ok s a) s → s.counts.Pairwise (· > ·)

/-! ## Halves -/

theorem toNat_highOf (m : BitVec 64) : (highOf m).toNat = m.toNat / 2 ^ 32 := by
  have := m.isLt
  simp only [highOf, BitVec.toNat_setWidth, BitVec.toNat_ushiftRight, Nat.shiftRight_eq_div_pow]
  omega

theorem toNat_ofHigh (h : BitVec 32) : (ofHigh h).toNat = h.toNat * 2 ^ 32 := by
  have := h.isLt
  simp only [ofHigh, BitVec.toNat_shiftLeft, BitVec.truncate_eq_setWidth, BitVec.toNat_setWidth,
    Nat.shiftLeft_eq]
  omega

theorem highOf_ofHigh (h : BitVec 32) : highOf (ofHigh h) = h := by
  apply BitVec.eq_of_toNat_eq
  rw [toNat_highOf, toNat_ofHigh]
  omega

theorem lt_ofHigh {c : BitVec 64} {h : BitVec 32} (hlt : (highOf c).toNat < h.toNat) :
    c < ofHigh h := by
  rw [toNat_highOf] at hlt
  rw [BitVec.lt_def, toNat_ofHigh]
  omega

theorem toNat_succ {m : BitVec 64} (h : m.toNat + 1 < 2 ^ 64) : (m + 1).toNat = m.toNat + 1 := by
  rw [BitVec.toNat_add]
  exact Nat.mod_eq_of_lt h

theorem highOf_le_succ {m : BitVec 64} (h : m.toNat + 1 < 2 ^ 64) :
    (highOf m).toNat ≤ (highOf (m + 1)).toNat := by
  rw [toNat_highOf, toNat_highOf, toNat_succ h]
  omega

/-! ## Counts that the stored high half covers -/

/-- The high half that is stored. -/
def State.high (s : State) : Nat := (s.stored.getD 0).toNat

/-- `GetNextMonotonicCount` is called only where the high half of `EfiMtc` has been stored, and
    not before `InitializeMonotonicCount` has raised it. -/
def Covered (s : State) : Action → Prop
  | .getNext _ => (highOf s.efiMtc).toNat ≤ s.high ∧ ⟨.initializeMonotonicCount, none⟩ ∉ s.handlers
  | _ => True

/-- The activation `f` of the handler, when it is the only one. -/
structure State.Running (s : State) (f : Activation) : Prop where
  atInit : f.caller = .initializeMonotonicCount → s.signalled = false
  atRuntime : f.caller = .getNextHighMonotonicCount → s.efiAtRuntime = true
  advanced : ∀ h, f.highCount = some h → s.high < h.toNat ∧ h.toNat ≤ (highOf s.efiMtc).toNat

/-- What a boot has come to. -/
inductive State.Phase (s : State) : Prop where
  | off (notInit : s.initialized = false) (zero : s.efiMtc = 0) (none : s.handlers = [])
      (quiet : s.signalled = false) (boot : s.efiAtRuntime = false)
  /-- `InitializeMonotonicCount` is about to raise the high half. -/
  | read (inited : s.initialized = true) (start : s.efiMtc = ofHigh (s.stored.getD 0))
      (one : s.handlers = [⟨.initializeMonotonicCount, none⟩]) (quiet : s.signalled = false)
  /-- `EfiMtc` is above every count. -/
  | live (inited : s.initialized = true) (above : ∀ c ∈ s.counts, c < s.efiMtc)
      (le : s.high ≤ (highOf s.efiMtc).toNat)
      (handlers : s.handlers = [] ∨
        ∃ f, s.handlers = [f] ∧ f ≠ ⟨.initializeMonotonicCount, none⟩ ∧ s.Running f)
      (quiet : s.efiAtRuntime = true → s.signalled = false)

structure Inv (s : State) : Prop where
  ordered : s.counts.Pairwise (· > ·)
  below : ∀ c ∈ s.counts, (highOf c).toNat ≤ s.high
  phase : s.Phase

/-! ## Steps keep the invariant -/

section Steps

variable {s s' : State}

theorem Inv.reset (h : Inv s) : Inv s.reset :=
  ⟨h.ordered, h.below, .off rfl rfl rfl rfl rfl⟩

theorem Inv.initializeMonotonicCount (h : Inv s) (hnot : s.initialized = false) :
    Inv s.initializeMonotonicCount := by
  refine ⟨h.ordered, h.below, ?_⟩
  cases h.phase with
  | off _ _ hnone hquiet _ =>
    have hone : s.initializeMonotonicCount.handlers = [⟨.initializeMonotonicCount, none⟩] := by
      simp [State.initializeMonotonicCount, hnone]
    exact .read rfl rfl hone hquiet
  | read hinit | live hinit =>
    rw [hnot] at hinit
    cases hinit

/-- The handler raises the high half above the stored one. -/
theorem Inv.raise (h : Inv s) (hinit : s.initialized = true) {highCount : BitVec 32}
    (hlt : s.high < highCount.toNat) {caller : Caller}
    (hatInit : caller = .initializeMonotonicCount → s.signalled = false)
    (hatRuntime : caller = .getNextHighMonotonicCount → s.efiAtRuntime = true)
    (hquiet : s.efiAtRuntime = true → s.signalled = false) :
    Inv { s with efiMtc := ofHigh highCount, handlers := [⟨caller, some highCount⟩] } := by
  have hhigh : (highOf (ofHigh highCount)).toNat = highCount.toNat := by rw [highOf_ofHigh]
  refine ⟨h.ordered, h.below, .live hinit ?_ ?_ (.inr ⟨_, rfl, ?_, hatInit, hatRuntime, ?_⟩) hquiet⟩
  · intro c hc
    have := h.below c hc
    exact lt_ofHigh (by omega)
  · have : s.high ≤ (highOf (ofHigh highCount)).toNat := by omega
    exact this
  · intro heq
    cases heq
  · intro x hx
    cases hx
    exact ⟨hlt, hhigh.ge⟩

theorem Inv.advance (h : Inv s) (hfits : (highOf s.efiMtc).toNat + 1 < 2 ^ 32)
    (hstep : s.advance = some s') : Inv s' := by
  have hhigh : (highOf s.efiMtc + 1).toNat = (highOf s.efiMtc).toNat + 1 := by
    rw [BitVec.toNat_add]
    exact Nat.mod_eq_of_lt hfits
  rw [State.advance] at hstep
  split at hstep
  · rename_i caller rest hhandlers
    cases hstep
    cases h.phase with
    | off _ _ hnone =>
      rw [hnone] at hhandlers
      cases hhandlers
    | read hinit hstart hone hquiet =>
      rw [hone] at hhandlers
      cases hhandlers
      have hlt : s.high < (highOf s.efiMtc + 1).toNat := by
        rw [hhigh, hstart, highOf_ofHigh]
        exact Nat.lt_succ_self _
      exact h.raise hinit hlt (fun _ => hquiet) (fun h => by cases h) fun _ => hquiet
    | live hinit _ hle hframe hquiet =>
      rcases hframe with hnone | ⟨f, hone, _, hrun⟩
      · rw [hnone] at hhandlers
        cases hhandlers
      · rw [hone] at hhandlers
        cases hhandlers
        exact h.raise hinit (by omega) hrun.atInit hrun.atRuntime hquiet
  · cases hstep

theorem Inv.persist (h : Inv s) (hstep : s.persist = some s') : Inv s' := by
  rw [State.persist] at hstep
  split at hstep
  · rename_i caller highCount rest hhandlers
    cases hstep
    cases h.phase with
    | off _ _ hnone =>
      rw [hnone] at hhandlers
      cases hhandlers
    | read _ _ hone =>
      rw [hone] at hhandlers
      cases hhandlers
    | live hinit habove hle hframe hquiet =>
      rcases hframe with hnone | ⟨f, hone, _, hrun⟩
      · rw [hnone] at hhandlers
        cases hhandlers
      · rw [hone] at hhandlers
        cases hhandlers
        obtain ⟨hlt, hle'⟩ := hrun.advanced highCount rfl
        refine ⟨h.ordered, fun c hc => ?_, .live hinit habove hle' (.inl rfl) hquiet⟩
        have := h.below c hc
        have hgoal : (highOf c).toNat ≤ highCount.toNat := by omega
        exact hgoal
  · cases hstep

theorem Inv.dispatch (h : Inv s) (hsig : s.signalled = true)
    (hlow : s.handlers.all (·.caller.tpl < tplCallback) = true) :
    Inv { s with
      signalled := false, handlers := ⟨.dispatchEventNotifies, none⟩ :: s.handlers } := by
  have loud : s.signalled ≠ false := by simp [hsig]
  refine ⟨h.ordered, h.below, ?_⟩
  cases h.phase with
  | off _ _ _ hquiet => exact absurd hquiet loud
  | read _ _ _ hquiet => exact absurd hquiet loud
  | live hinit habove hle hframe hquiet =>
    have hnone : s.handlers = [] := by
      rcases hframe with hnone | ⟨f, hone, _, hrun⟩
      · exact hnone
      · -- the event cannot preempt the one activation there is
        have hf : f.caller.tpl < tplCallback := by simpa [hone] using hlow
        cases hcaller : f.caller with
        | initializeMonotonicCount => exact absurd (hrun.atInit hcaller) loud
        | getNextHighMonotonicCount => exact absurd (hquiet (hrun.atRuntime hcaller)) loud
        | dispatchEventNotifies =>
          rw [hcaller] at hf
          exact absurd hf (Nat.lt_irrefl _)
    refine .live hinit habove hle (.inr ⟨⟨.dispatchEventNotifies, none⟩, ?_, ?_, ?_⟩) fun _ => rfl
    · rw [hnone]
    · intro heq
      cases heq
    · exact ⟨fun _ => rfl, nofun, nofun⟩

/-- A count is handed out. -/
theorem Inv.take (h : Inv s) (hne : s.efiMtc ≠ 0) (hboot : s.efiAtRuntime = false)
    (hfits : s.efiMtc.toNat + 1 < 2 ^ 64) (hcov : (highOf s.efiMtc).toNat ≤ s.high)
    (hraised : ⟨.initializeMonotonicCount, none⟩ ∉ s.handlers) (signalled : Bool) :
    Inv { s with
      efiMtc := s.efiMtc + 1, signalled := signalled, counts := s.efiMtc :: s.counts } := by
  have hmono := highOf_le_succ hfits
  cases h.phase with
  | off _ hzero => exact absurd hzero hne
  | read _ _ hone =>
    rw [hone] at hraised
    exact absurd List.mem_cons_self hraised
  | live hinit habove hle hframe hquiet =>
    refine ⟨List.pairwise_cons.mpr ⟨habove, h.ordered⟩, ?_,
      .live hinit ?_ (hle.trans hmono) ?_ ?_⟩
    · intro c hc
      rcases List.mem_cons.mp hc with rfl | hc
      · exact hcov
      · exact h.below c hc
    · intro c hc
      rw [BitVec.lt_def, toNat_succ hfits]
      rcases List.mem_cons.mp hc with rfl | hc
      · exact Nat.lt_succ_self _
      · exact Nat.lt_succ_of_lt (BitVec.lt_def.mp (habove c hc))
    · refine hframe.imp_right fun hone => ?_
      obtain ⟨f, hone, hf, hrun⟩ := hone
      refine ⟨f, hone, hf, ?_, hrun.atRuntime, fun x hx => ?_⟩
      · -- `InitializeMonotonicCount` would have raised the half and not stored it yet
        intro hcaller
        obtain ⟨caller, highCount⟩ := f
        cases highCount with
        | none =>
          dsimp only at hcaller
          exact absurd (hcaller ▸ rfl) hf
        | some x =>
          obtain ⟨hlt, hle'⟩ := hrun.advanced x rfl
          omega
      · obtain ⟨hlt, hle'⟩ := hrun.advanced x hx
        exact ⟨hlt, hle'.trans hmono⟩
    · intro hrt
      rw [hboot] at hrt
      cases hrt

theorem getNextMonotonicCount_cases (s : State) (count : Bool) :
    (∃ out, s.getNextMonotonicCount count = (out, s) ∧ out.1 ≠ .success) ∨
      s.efiMtc ≠ 0 ∧ ∃ signalled, s.getNextMonotonicCount count =
        ((.success, some s.efiMtc), { s with efiMtc := s.efiMtc + 1, signalled := signalled }) := by
  rw [State.getNextMonotonicCount]
  split
  · exact .inl ⟨_, rfl, by decide⟩
  · split
    · exact .inl ⟨_, rfl, by decide⟩
    · rename_i hne
      exact .inr ⟨hne, _, rfl⟩

theorem Inv.getNext (h : Inv s) {count : Bool} (hfits : HighFits s (.getNext count))
    (hcov : Covered s (.getNext count)) (hstep : s.step (.getNext count) = some s') : Inv s' := by
  rw [State.step] at hstep
  split at hstep
  · cases hstep
  · rename_i hboot
    rcases getNextMonotonicCount_cases s count with ⟨⟨status, out⟩, heq, hne⟩ | ⟨hne, sig, heq⟩
    · rw [heq] at hstep
      split at hstep
      · rename_i hcase
        cases hcase
        exact absurd rfl hne
      · rename_i hcase
        cases hcase
        cases hstep
        exact h
    · rw [heq] at hstep
      cases hstep
      exact h.take hne (Bool.eq_false_iff.mpr hboot) hfits hcov.1 hcov.2 sig

theorem Inv.getNextHigh (h : Inv s) (hnone : s.handlers = []) (highCount : Bool) :
    Inv (s.getNextHighMonotonicCount highCount).2 := by
  rw [State.getNextHighMonotonicCount]
  split
  · exact h
  · rename_i hrt
    split
    · exact h
    · refine ⟨h.ordered, h.below, ?_⟩
      have hrt : s.efiAtRuntime = true := by simpa using hrt
      cases h.phase with
      | off _ _ _ _ hboot =>
        rw [hrt] at hboot
        cases hboot
      | read _ _ hone =>
        rw [hnone] at hone
        cases hone
      | live hinit habove hle _ hquiet =>
        refine .live hinit habove hle (.inr ⟨⟨.getNextHighMonotonicCount, none⟩, ?_, ?_, ?_⟩) hquiet
        · exact congrArg (List.cons _) hnone
        · intro heq
          cases heq
        · exact ⟨nofun, fun _ => hrt, nofun⟩

theorem Inv.exitBootServices (h : Inv s) (hinit : s.initialized = true) (hnone : s.handlers = [])
    (hquiet : s.signalled = false) : Inv { s with efiAtRuntime := true } := by
  refine ⟨h.ordered, h.below, ?_⟩
  cases h.phase with
  | off hnot =>
    rw [hinit] at hnot
    cases hnot
  | read _ _ hone =>
    rw [hnone] at hone
    cases hone
  | live _ habove hle _ _ => exact .live hinit habove hle (.inl hnone) fun _ => hquiet

theorem Inv.step {a : Action} (h : Inv s) (hfits : HighFits s a) (hcov : Covered s a)
    (hstep : s.step a = some s') : Inv s' := by
  cases a with
  | reset =>
    cases hstep
    exact h.reset
  | initializeMonotonicCount =>
    rw [State.step] at hstep
    split at hstep
    · cases hstep
    · rename_i hnot
      cases hstep
      exact h.initializeMonotonicCount (Bool.eq_false_iff.mpr hnot)
  | dispatch =>
    rw [State.step] at hstep
    split at hstep
    · rename_i hready
      cases hstep
      exact h.dispatch hready.1 hready.2
    · cases hstep
  | advance => exact h.advance hfits hstep
  | persist => exact h.persist hstep
  | getNext count => exact h.getNext hfits hcov hstep
  | getNextHigh highCount =>
    rw [State.step] at hstep
    split at hstep
    · rename_i hnone
      cases hstep
      exact h.getNextHigh hnone highCount
    · cases hstep
  | exitBootServices =>
    rw [State.step] at hstep
    split at hstep
    · rename_i hready
      cases hstep
      exact h.exitBootServices hready.1 hready.2.1 (by simpa using hready.2.2)
    · cases hstep

theorem neverRepeats_of_covered
    (hreach : machine.Reach (fun s a => HighFits s a ∧ Covered s a) s) :
    s.counts.Pairwise (· > ·) := by
  have hinv : Inv s := by
    apply hreach.rule
    · rintro s rfl
      exact ⟨List.Pairwise.nil, by simp [State.new], .off rfl rfl rfl rfl rfl⟩
    · exact fun s a s' h hok hstep => h.step hok.1 hok.2 hstep
  exact hinv.ordered

end Steps

/-! ## Runs that compute -/

instance (s : State) : (a : Action) → Decidable (HighFits s a)
  | .advance => inferInstanceAs (Decidable (_ < _))
  | .getNext _ => inferInstanceAs (Decidable (_ < _))
  | .reset | .initializeMonotonicCount | .dispatch | .persist | .getNextHigh _
  | .exitBootServices => isTrue trivial

instance (s : State) : (a : Action) → Decidable (Covered s a)
  | .getNext _ => inferInstanceAs (Decidable (_ ∧ _))
  | .reset | .initializeMonotonicCount | .dispatch | .advance | .persist | .getNextHigh _
  | .exitBootServices => isTrue trivial

/-- Take the steps `as`, as long as the high half fits and they meet `ok`. -/
def run (ok : State → Action → Prop) [∀ s a, Decidable (ok s a)] :
    List Action → State → Option State
  | [], s => some s
  | a :: as, s => if HighFits s a ∧ ok s a then (s.step a).bind (run ok as) else none

theorem run_reach {ok : State → Action → Prop} [∀ s a, Decidable (ok s a)] {as : List Action}
    {s s' : State} (h : run ok as s = some s')
    (hreach : machine.Reach (fun s a => HighFits s a ∧ ok s a) s) :
    machine.Reach (fun s a => HighFits s a ∧ ok s a) s' := by
  induction as generalizing s with
  | nil =>
    cases h
    exact hreach
  | cons a as ih =>
    rw [run] at h
    split at h
    · rename_i hok
      obtain ⟨s1, hstep, hrest⟩ := Option.bind_eq_some_iff.mp h
      exact ih hrest (hreach.next hok hstep)
    · cases h

/-- A boot that has stored its high half hands out two counts. -/
def storedBoot : List Action :=
  [.initializeMonotonicCount, .advance, .persist, .getNext true, .getNext true]

theorem storedBoot_counts :
    (run Covered storedBoot .new).map State.counts = some [0x100000001, 0x100000000] := by
  decide +kernel

theorem neverRepeats_of_covered_boot : ∃ s : State,
    s.counts = [0x100000001, 0x100000000] ∧ s.counts.Pairwise (· > ·) := by
  obtain ⟨s, hrun, hcounts⟩ := Option.map_eq_some_iff.mp storedBoot_counts
  exact ⟨s, hcounts, neverRepeats_of_covered (run_reach hrun (.start rfl))⟩

/-! ## A reset between the two steps -/

/-- The first boot loses power before it has stored the high half it handed a count of. -/
def lostHalf : List Action :=
  [.initializeMonotonicCount, .advance, .getNext true, .reset,
   .initializeMonotonicCount, .advance, .persist, .getNext true]

theorem lostHalf_counts :
    (run (fun _ _ => True) lostHalf .new).map State.counts = some [0x100000000, 0x100000000] := by
  decide +kernel

theorem not_neverRepeats : ¬ NeverRepeats fun _ _ => True := by
  intro h
  obtain ⟨s, hrun, hcounts⟩ := Option.map_eq_some_iff.mp lostHalf_counts
  have hordered := h s (run_reach hrun (.start rfl))
  rw [hcounts] at hordered
  revert hordered
  decide

end EfiCore.Exec.Mtc
