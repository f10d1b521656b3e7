import EfiCore.Lib.Meets
import EfiCore.Var.Sound

/-! # Who is to blame for a failure

A bank fails only where the environment has answered a call with an error.  This holds of every
function, whatever the banks contain.
-/

namespace EfiCore.Var

open EfiCore.Lib

/-- All but the one that comes of the bound on the rounds. -/
def Fault.NotRounds (fault : Fault) : Prop := fault ≠ .outOfRounds

/-! ## Accesses -/

theorem readBuffer_returns (l : List Byte) (off n : Nat) :
    Meets Fault.NotRounds (readBuffer l off n) fun _ => True := by
  rw [readBuffer]
  exact Meets.ite (fun _ => Meets.ok trivial) fun _ => Meets.error Fault.noConfusion

theorem writeBuffer_returns (l : List Byte) (off : Nat) (bs : List Byte) :
    Meets Fault.NotRounds (writeBuffer l off bs) fun _ => True := by
  rw [writeBuffer]
  exact Meets.ite (fun _ => Meets.ok trivial) fun _ => Meets.error Fault.noConfusion

theorem readByte_returns (l : List Byte) (off : Nat) :
    Meets Fault.NotRounds (readByte l off) fun _ => True := by
  rw [readByte]
  cases l[off]? with
  | none => exact Meets.error Fault.noConfusion
  | some b => exact Meets.ok trivial

theorem readUint16_returns (l : List Byte) (off : Nat) :
    Meets Fault.NotRounds (readUint16 l off) fun _ => True := by
  rw [readUint16, map_eq_pure_bind]
  exact Meets.bind (readBuffer_returns l off 2) fun _ _ => Meets.pure trivial

theorem findNameEnd_returns (stateOffset index : Nat) (rest : List Byte) :
    Meets Fault.NotRounds (findNameEnd stateOffset index rest) fun _ => True := by
  fun_induction findNameEnd with
  | case1 => exact Meets.error Fault.noConfusion
  | case2 => exact Meets.ok trivial
  | case3 => exact Meets.error Fault.noConfusion
  | case4 => exact Meets.ok trivial
  | case5 => exact Meets.ok trivial
  | case6 _ _ _ _ _ _ ih => exact ih

theorem rtVarParseStore_returns (A : Arch) (bank : Bank) (offset : Nat) :
    Meets Fault.NotRounds (rtVarParseStore A bank offset) fun _ => True := by
  rw [rtVarParseStore]
  refine Meets.ite (fun _ => Meets.ok trivial) fun _ => ?_
  refine Meets.bind (readUint16_returns _ _) fun size _ => ?_
  refine Meets.ite (fun _ => Meets.pure trivial) fun _ => ?_
  refine Meets.ite (fun _ => Meets.pure trivial) fun _ => ?_
  refine Meets.bind (readByte_returns _ _) fun state _ => ?_
  refine Meets.ite (fun _ => Meets.pure trivial) fun _ => ?_
  rw [map_eq_pure_bind, parseName]
  refine Meets.bind (P := fun _ => True) ?_ fun info _ => Meets.pure trivial
  refine Meets.bind (findNameEnd_returns _ _ _) fun nameEnd _ => ?_
  cases nameEnd with
  | none => exact Meets.pure trivial
  | some nameEnd =>
    refine Meets.bind (readUint16_returns _ _) fun attributes _ => ?_
    exact Meets.bind (readBuffer_returns _ _ _) fun guid _ => Meets.pure trivial

namespace State

variable {P : Platform} {s s' s1 s2 : State} {b : BankAddr} {t : StoreType}

/-- Each bank that has failed since `s` was failed by an answer. -/
structure Blames (P : Platform) (s s' : State) : Prop where
  calls : s.calls ≤ s'.calls
  failed : ∀ b, (s'.bank b).deviceError = true → (s.bank b).deviceError = true ∨
    ∃ n, s.calls ≤ n ∧ n < s'.calls ∧ (P.answer n).fails = true

namespace Blames

theorem refl (P : Platform) (s : State) : Blames P s s :=
  ⟨Nat.le_refl _, fun _ h => .inl h⟩

theorem trans (h : Blames P s s1) (h' : Blames P s1 s') : Blames P s s' where
  calls := h.calls.trans h'.calls
  failed b hb := by
    cases h'.failed b hb with
    | inl hb1 =>
      refine (h.failed b hb1).imp id ?_
      rintro ⟨n, hle, hlt, hfails⟩
      exact ⟨n, hle, Nat.lt_of_lt_of_le hlt h'.calls, hfails⟩
    | inr hlater =>
      obtain ⟨n, hle, hlt, hfails⟩ := hlater
      exact .inr ⟨n, h.calls.trans hle, hlt, hfails⟩

/-- No bank fails. -/
theorem of_flags (hcalls : s.calls ≤ s'.calls)
    (hflags : ∀ b, (s'.bank b).deviceError = true → (s.bank b).deviceError = true) :
    Blames P s s' :=
  ⟨hcalls, fun b hb => .inl (hflags b hb)⟩

theorem setBank {k : Bank} (hflag : k.deviceError = true → (s.bank b).deviceError = true) :
    Blames P s (s.setBank b k) := by
  refine .of_flags (Nat.le_refl _) fun b' hb' => ?_
  by_cases heq : b' = b
  · subst heq
    rw [bank_setBank_self] at hb'
    exact hflag hb'
  · rwa [bank_setBank_of_ne s heq] at hb'

theorem setStore (P : Platform) (s : State) (t : StoreType) (st : VariableStore) :
    Blames P s (s.setStore t st) :=
  .of_flags (Nat.le_refl _) fun _ hb => hb

/-- The bank `b` fails where the answer is an error. -/
theorem call {failed : Bool} (hcalls : s1.calls = s.calls + 1) (hbank : s1.bank = s.bank)
    (hfailed : failed = (P.answer s.calls).fails) :
    Blames P s (if failed then s1.bankFailed b else s1) := by
  cases failed with
  | true =>
    refine ⟨?_, fun _ _ => .inr ⟨s.calls, Nat.le_refl _, ?_, hfailed.symm⟩⟩
    · change s.calls ≤ s1.calls
      rw [hcalls]
      exact Nat.le_succ _
    · change s.calls < s1.calls
      rw [hcalls]
      exact Nat.lt_succ_self _
  | false =>
    refine .of_flags ?_ fun b' hb' => ?_
    · rw [if_neg Bool.false_ne_true, hcalls]
      exact Nat.le_succ _
    · rwa [if_neg Bool.false_ne_true, hbank] at hb'

/-- Steps one after the other. -/
theorem bind {x : Except Fault State} {f : State → Except Fault State}
    (hx : Meets Fault.NotRounds x (Blames P s)) (hf : ∀ s1, Meets Fault.NotRounds (f s1) (Blames P s1)) :
    Meets Fault.NotRounds (x >>= f) (Blames P s) :=
  Meets.bind hx fun s1 h1 => (hf s1).mono fun _ h2 => h1.trans h2

theorem after {x : Except Fault State} (h : Blames P s s1) (hx : Meets Fault.NotRounds x (Blames P s1)) :
    Meets Fault.NotRounds x (Blames P s) :=
  hx.mono fun _ h2 => h.trans h2

theorem afterSetBank {x : Except Fault State} {k : Bank}
    (hx : Meets Fault.NotRounds x (Blames P (s.setBank b k)))
    (hflag : k.deviceError = true → (s.bank b).deviceError = true) : Meets Fault.NotRounds x (Blames P s) :=
  after (.setBank hflag) hx

end Blames

/-! ## Access to the banks -/

theorem blames_writeData (P : Platform) (s : State) (b : BankAddr) (offset : Nat)
    (bytes : List Byte) : Meets Fault.NotRounds (s.writeData b offset bytes) (Blames P s) := by
  rw [writeData]
  exact Meets.bind (writeBuffer_returns _ _ _) fun data _ => Meets.pure (Blames.setBank id)

theorem deviceUpdateStore_spec (P : Platform) (s : State) (b : BankAddr) (offset : Nat)
    (buffer : List Byte) :
    (s.deviceUpdateStore P b offset buffer).2.calls = s.calls + 1 ∧
      (s.deviceUpdateStore P b offset buffer).2.bank = s.bank ∧
      (s.deviceUpdateStore P b offset buffer).1 = (P.answer s.calls).fails := by
  rw [deviceUpdateStore.eq_1]
  cases (P.answer s.calls).fails with
  | true => exact ⟨rfl, rfl, rfl⟩
  | false => exact ⟨rfl, rfl, rfl⟩

theorem blames_rtVarUpdateStore (P : Platform) (s : State) (b : BankAddr) (offset size : Nat) :
    Meets Fault.NotRounds (s.rtVarUpdateStore P b offset size) (Blames P s) := by
  rw [rtVarUpdateStore]
  refine Meets.ite (fun _ => Meets.ok (.refl P s)) fun _ => ?_
  refine Meets.bind (readBuffer_returns _ _ _) fun buffer _ => Meets.pure ?_
  obtain ⟨hcalls, hbank, hfailed⟩ := deviceUpdateStore_spec P s b offset buffer
  exact .call hcalls hbank hfailed

theorem blames_rtVarReadStore (P : Platform) (s : State) (b : BankAddr) (offset size : Nat) :
    Meets Fault.NotRounds (s.rtVarReadStore P b offset size) (Blames P s) := by
  rw [rtVarReadStore, deviceReadStore]
  simp only [bind_assoc]
  refine Meets.bind (readBuffer_returns _ _ _) fun old _ => Meets.bind (readBuffer_returns _ _ _) fun new _ => ?_
  refine Meets.pure ?_
  cases hfails : (P.answer s.calls).fails with
  | true =>
    exact ⟨Nat.le_succ _, fun _ _ => .inr ⟨s.calls, Nat.le_refl _, Nat.lt_succ_self _, hfails⟩⟩
  | false =>
    have hcall : Blames P s s.answered := .of_flags (Nat.le_succ _) fun _ h => h
    exact hcall.trans (.setBank id)

/-- The bank changes lists. -/
theorem blames_insertTail (P : Platform) (s : State) (b : BankAddr) :
    Blames P s (s.insertTail b) := .setStore P s _ _

theorem blames_unlink (P : Platform) (s : State) (b : BankAddr) : Blames P s (s.unlink b) :=
  .setStore P s _ _

theorem blames_initBank (P : Platform) (s : State) (b : BankAddr) :
    Meets Fault.NotRounds (s.initBank P b) (Blames P s) := by
  rw [initBank]
  dsimp only
  have hstart : Blames P s (s.setBank b { s.bank b with
      state := 0, tail := firstVariableOffset, inUse := firstVariableOffset }) := .setBank id
  generalize s.setBank b { s.bank b with
    state := 0, tail := firstVariableOffset, inUse := firstVariableOffset } = s1 at hstart
  refine Blames.after hstart ?_
  refine Blames.after (.setStore P s1 (s1.bank b).varStore { s1.store (s1.bank b).varStore with
    sequence := if (s1.store (s1.bank b).varStore).sequence < varhMaxSequence then
      (s1.store (s1.bank b).varStore).sequence + 1
      else (s1.store (s1.bank b).varStore).sequence }) ?_
  refine Blames.bind (blames_writeData P _ b _ _) fun s1 => ?_
  refine Meets.bind (readBuffer_returns _ _ _) fun buffer _ => Meets.pure ?_
  obtain ⟨hcalls, hbank, hfailed⟩ := deviceUpdateStore_spec P s1 b 0 buffer
  have hcall := Blames.call (b := b) hcalls hbank hfailed
  cases hfails : (s1.deviceUpdateStore P b 0 buffer).1 with
  | true => rwa [hfails] at hcall
  | false =>
    rw [hfails] at hcall
    exact hcall.trans (blames_insertTail P _ b)

theorem blames_deviceClearStore (P : Platform) (s : State) (b : BankAddr) :
    Blames P s (if (s.deviceClearStore P b).1 then (s.deviceClearStore P b).2.bankFailed b
      else (s.deviceClearStore P b).2) := by
  rw [deviceClearStore.eq_1]
  have hdata : ∀ data, Blames P (s.issue (.clearStore b)).answered
      ((s.issue (.clearStore b)).answered.setBank b { s.bank b with data }) := fun data =>
    .setBank id
  cases hfails : (P.answer s.calls).fails with
  | true =>
    exact ⟨Nat.le_succ _, fun _ _ => .inr ⟨s.calls, Nat.le_refl _, Nat.lt_succ_self _, hfails⟩⟩
  | false =>
    have hcall : Blames P s (s.issue (.clearStore b)).answered :=
      .of_flags (Nat.le_succ _) fun _ h => h
    have hcleared := hcall.trans (hdata (if (P.device b.device).usesScratch then
      (P.answer s.calls).fill (s.bank b).data else (s.bank b).data))
    exact ⟨hcleared.calls, hcleared.failed⟩

theorem blames_rtVarClearStore (P : Platform) (s : State) (b : BankAddr) :
    Meets Fault.NotRounds (s.rtVarClearStore P b) (Blames P s) := by
  rw [rtVarClearStore]
  refine Blames.after (blames_unlink P s b) ?_
  generalize s.unlink b = s
  refine Meets.ite (fun _ => Meets.pure (.refl P s)) fun _ => ?_
  have hrest : ∀ s1 : State, Meets Fault.NotRounds (if (s1.bank b).deviceError = true then pure s1
      else if (s1.deviceClearStore P b).1 = true then
        pure ((s1.deviceClearStore P b).2.bankFailed b)
      else (s1.deviceClearStore P b).2.initBank P b) (Blames P s1) := by
    intro s1
    refine Meets.ite (fun _ => Meets.pure (.refl P s1)) fun _ => ?_
    have hcleared := blames_deviceClearStore P s1 b
    cases hfails : (s1.deviceClearStore P b).1 with
    | true =>
      rw [hfails] at hcleared
      exact Meets.pure hcleared
    | false =>
      rw [hfails] at hcleared
      exact Blames.after hcleared (blames_initBank P _ b)
  -- the signature is wiped, where there is one
  refine Meets.ite (fun _ => ?_) fun _ => hrest s
  refine Blames.bind (blames_writeData P s b _ _) fun s1 => ?_
  exact Blames.bind (blames_rtVarUpdateStore P s1 b _ _) hrest

theorem blames_rtVarUpdateState (P : Platform) (s : State) (b : BankAddr) (info : VarInfo)
    (newBit : Byte) :
    Meets Fault.NotRounds (s.rtVarUpdateState P b info newBit) fun r => Blames P s r.2 := by
  rw [rtVarUpdateState]
  refine Meets.bind (blames_writeData P s b _ _) fun s1 h1 => ?_
  exact Meets.bind (blames_rtVarUpdateStore P s1 b _ _) fun s2 h2 =>
    Meets.pure (h1.trans h2)

theorem blames_rtVarUpdateBankState (P : Platform) (s : State) (b : BankAddr) (newBit : Byte) :
    Meets Fault.NotRounds (s.rtVarUpdateBankState P b newBit) (Blames P s) := by
  rw [rtVarUpdateBankState]
  refine Blames.bind (Blames.afterSetBank (blames_writeData P _ b _ _) id) fun s1 => ?_
  exact blames_rtVarUpdateStore P s1 b _ _

/-! ## Discovery -/

theorem blames_findTail (P : Platform) (b : BankAddr) (fuel offset : Nat) (s : State) :
    Meets Fault.NotRounds (s.findTail P b fuel offset) fun r => Blames P s r.2 := by
  induction fuel generalizing s offset with
  | zero => exact Meets.error Fault.noConfusion
  | succ fuel ih =>
    rw [findTail]
    refine Meets.ite (fun _ => Meets.pure (.refl P s)) fun _ => ?_
    refine Meets.ite (fun _ => Meets.pure (.refl P s)) fun _ => ?_
    refine Meets.bind (blames_rtVarReadStore P s b _ _) fun s1 h1 => ?_
    refine Meets.ite (fun _ => Meets.pure h1) fun _ => ?_
    refine Meets.bind (readUint16_returns _ _) fun size _ => ?_
    refine Meets.ite (fun _ => Meets.pure h1) fun _ => ?_
    refine Meets.ite (fun _ => ?_) fun _ => ?_
    · -- the bank was corrupt
      refine Meets.bind (blames_rtVarClearStore P s1 b) fun s2 h2 => ?_
      refine Meets.bind (blames_rtVarUpdateStore P s2 b _ _) fun s3 h3 => ?_
      exact Meets.pure ((h1.trans h2).trans h3)
    · refine Meets.bind (blames_rtVarReadStore P s1 b _ _) fun s2 h2 => ?_
      refine Meets.bind (rtVarParseStore_returns _ _ _) fun info _ => ?_
      cases info with
      | none => exact (ih _ _).mono fun r hr => (h1.trans h2).trans hr
      | some info =>
        refine (ih _ _).mono fun r hr => (h1.trans h2).trans (.trans ?_ hr)
        dsimp only
        split
        · exact .setBank id
        · exact .refl P s2

theorem blames_insertBank (P : Platform) (s : State) (b : BankAddr) :
    Blames P s (s.insertBank b) := by
  rw [insertBank]
  dsimp only
  split
  · exact .trans (blames_insertTail P s b) (.setStore P _ _ _)
  · exact .setStore P _ _ _

theorem blames_varStoreAddBank (P : Platform) (t : StoreType) (b : BankAddr) (s : State) :
    Meets Fault.NotRounds (s.varStoreAddBank P t b) fun r => Blames P s r.2 := by
  have hcall : Blames P s s.answered := .of_flags (Nat.le_succ _) fun _ h => h
  rw [varStoreAddBank]
  refine Meets.ite (fun _ => Meets.ok hcall) fun _ => ?_
  have hnew : Blames P s (s.newBank P t b) := by
    refine hcall.trans (.setBank fun h => ?_)
    cases h
  refine Meets.bind (blames_rtVarReadStore P _ b _ _) fun s1 h1 => ?_
  replace h1 := hnew.trans h1
  have h2 := h1.trans (Blames.setBank (b := b) (k := { s1.bank b with
    state := (s1.bank b).header.state ^^^ 0xFF }) id)
  dsimp only
  generalize s1.setBank b { s1.bank b with state := (s1.bank b).header.state ^^^ 0xFF } = s2 at h2
  have hrest : ∀ s3 : State, Meets Fault.NotRounds (do
      let s := s3.setBank b
        { s3.bank b with inUse := firstVariableOffset, tail := (s3.bank b).bankSize }
      let r ← s.findTail P b ((s.bank b).bankSize + 1) firstVariableOffset
      let s := r.2.setBank b { r.2.bank b with tail := r.1 }
      if (s.bank b).deviceError then return (Status.success, s.rtVarBankError b)
      let s := if (P.device b.device).transactionUpdate then s
        else s.setStore t { s.store t with tBankRequired := true }
      return (Status.success, s)) fun r => Blames P s3 r.2 := by
    intro s3
    have h4 : Blames P s3 (s3.setBank b { s3.bank b with
        inUse := firstVariableOffset, tail := (s3.bank b).bankSize }) := .setBank id
    refine Meets.bind (blames_findTail P b _ _ _) fun r h5 => ?_
    have h6 : Blames P s3 (r.2.setBank b { r.2.bank b with tail := r.1 }) :=
      (h4.trans h5).trans (.setBank id)
    refine Meets.ite (fun _ => Meets.pure (h6.trans (blames_unlink P _ b))) fun _ => ?_
    refine Meets.pure (h6.trans ?_)
    dsimp only
    split
    · exact .refl P _
    · exact .setStore P _ _ _
  refine Meets.ite (fun _ => ?_) fun _ => ?_
  · refine Meets.bind (blames_rtVarClearStore P s2 b) fun s3 h3 => ?_
    exact (hrest s3).mono fun r hr => (h2.trans h3).trans hr
  · exact (hrest _).mono fun r hr => (h2.trans (blames_insertBank P s2 b)).trans hr

/-! ## Garbage collection -/

theorem blames_rtVarMove (P : Platform) (bankTransition : Bool) (old : BankAddr) (info : VarInfo)
    (new : BankAddr) (s : State) :
    Meets Fault.NotRounds (s.rtVarMove P bankTransition old info new) (Blames P s) := by
  rw [rtVarMove]
  dsimp only
  refine Meets.ite (fun _ => ?_) fun _ => ?_
  · split
    · exact Meets.ok (.refl P s)
    · exact Meets.error Fault.noConfusion
  · refine Meets.bind (readBuffer_returns _ _ _) fun record _ => ?_
    refine Blames.bind (blames_writeData P s new _ _) fun s1 => ?_
    refine Blames.bind (blames_writeData P s1 new _ _) fun s2 => ?_
    have hset : Blames P s2 (s2.setBank new { s2.bank new with
        tail := (s.bank new).tail + info.varSize,
        inUse := P.arch.add (s.bank new).inUse info.varSize }) := .setBank id
    refine Meets.ite (fun _ => Meets.pure hset) fun _ => ?_
    exact Blames.after hset (blames_rtVarUpdateStore P _ new _ _)

theorem blames_moveVariables (P : Platform) (old new : BankAddr) (fuel offset : Nat) (s : State) :
    Meets Fault.NotRounds (s.moveVariables P old new fuel offset) (Blames P s) := by
  induction fuel generalizing s offset with
  | zero => exact Meets.error Fault.noConfusion
  | succ fuel ih =>
    rw [moveVariables]
    refine Meets.bind (rtVarParseStore_returns _ _ _) fun info _ => ?_
    cases info with
    | none => exact Meets.pure (.refl P s)
    | some info =>
      refine Meets.ite (fun _ => ?_) fun _ => ih _ s
      exact Blames.bind (blames_rtVarMove P true old info new s) fun s1 => ih _ s1

theorem blames_resetSequence (P : Platform) (banks : List BankAddr) (s : State) :
    Meets Fault.NotRounds (s.resetSequence P banks) (Blames P s) := by
  induction banks generalizing s with
  | nil => exact Meets.ok (.refl P s)
  | cons b banks ih =>
    rw [resetSequence]
    refine Blames.bind (blames_writeData P s b _ _) fun s1 => ?_
    exact Blames.bind (blames_rtVarUpdateStore P s1 b _ _) ih

theorem blames_rtVarGetTransactionBank (P : Platform) (t : StoreType) (s : State) :
    Meets Fault.NotRounds (s.rtVarGetTransactionBank P t) (Blames P s) := by
  have htSizes : ∀ (banks : List BankAddr) (s1 : State), Blames P s1
      (banks.foldl (fun s b => s.setBank b { s.bank b with tSize := .varStore }) s1) := by
    intro banks
    induction banks with
    | nil => exact .refl P
    | cons b banks ih =>
      intro s1
      have hset : Blames P s1 (s1.setBank b { s1.bank b with tSize := .varStore }) := .setBank id
      exact hset.trans (ih _)
  have hchosen : ∀ {s1 : State} (best : BankAddr), Blames P s s1 → Blames P s
      ((s1.unlink best).setStore t { (s1.unlink best).store t with
        tBank := some best, tSize := ((s1.unlink best).bank best).bankSize }) :=
    fun best h1 => (h1.trans (blames_unlink P _ best)).trans (.setStore P _ t _)
  rw [rtVarGetTransactionBank]
  refine Meets.ite (fun _ => ?_) fun _ => ?_
  · refine Meets.bind (blames_resetSequence P _ s) fun s1 h1 => ?_
    have h2 := h1.trans (.setStore P s1 t { s1.store t with sequence := 0 })
    simp only [pure_bind]
    generalize s1.setStore t { s1.store t with sequence := 0 } = s2 at h2
    have h3 := h2.trans (htSizes (s2.store t).active s2)
    split
    · exact Meets.pure h3
    · exact Meets.pure (hchosen _ h3)
  · have h2 := htSizes (s.store t).active s
    simp only [pure_bind]
    split
    · exact Meets.pure h2
    · exact Meets.pure (hchosen _ h2)

theorem blames_switchBanks (P : Platform) (old new : BankAddr) (s : State) :
    Meets Fault.NotRounds (s.switchBanks P old new) (Blames P s) := by
  rw [switchBanks]
  refine Blames.bind (blames_rtVarUpdateBankState P s new _) fun s1 => ?_
  refine Blames.bind (blames_rtVarUpdateStore P s1 new _ _) fun s2 => ?_
  refine Blames.bind (blames_rtVarUpdateBankState P s2 old _) fun s3 => ?_
  refine Blames.bind (blames_rtVarUpdateBankState P s3 new _) fun s4 => ?_
  refine Blames.bind (blames_rtVarClearStore P s4 old) fun s5 => ?_
  refine Blames.bind (blames_rtVarUpdateBankState P s5 new _) fun s6 => ?_
  exact Blames.after (blames_insertTail P s6 new) (blames_rtVarGetTransactionBank P _ _)

theorem blames_deviceTransactionUpdate (P : Platform) (s : State) (b : BankAddr) :
    Blames P s (if (s.deviceTransactionUpdate P b).1 then
      (s.deviceTransactionUpdate P b).2.bankFailed b
      else (s.deviceTransactionUpdate P b).2) := by
  rw [deviceTransactionUpdate.eq_1]
  cases hfails : (P.answer s.calls).fails with
  | true =>
    exact ⟨Nat.le_succ _, fun _ _ => .inr ⟨s.calls, Nat.le_refl _, Nat.lt_succ_self _, hfails⟩⟩
  | false => exact .of_flags (Nat.le_succ _) fun _ h => h

/-- A collection is to blame for no failure that no answer is. -/
theorem blames_rtVarGarbageCollectBank (P : Platform) (old : BankAddr) (s : State) :
    Meets Fault.NotRounds (s.rtVarGarbageCollectBank P old) (Blames P s) := by
  rw [rtVarGarbageCollectBank]
  dsimp only
  split
  · exact Meets.ok (.setStore P s _ _)
  · have hstart : Blames P s (s.setStore (s.bank old).varStore
        { s.store (s.bank old).varStore with tBank := none, tSize := 0 }) := .setStore P s _ _
    refine Meets.mono ?_ fun _ h => hstart.trans h
    refine Blames.bind (blames_moveVariables P old _ _ _ _) fun s1 => ?_
    refine Meets.ite (fun _ => blames_switchBanks P old _ s1) fun _ => ?_
    exact Meets.pure (blames_deviceTransactionUpdate P s1 _)

/-! ## The search for space -/

theorem blames_deviceSizeStore (P : Platform) (s : State) (device n : Nat) :
    Blames P s (s.deviceSizeStore P device n) := by
  rw [deviceSizeStore]
  split
  · exact .of_flags (Nat.le_succ _) fun _ h => h
  · exact .of_flags (Nat.le_succ _) fun _ h => h

theorem blames_growStore (P : Platform) (t : StoreType) (banks : List BankAddr) (s : State) :
    Meets Fault.NotRounds (s.growStore P t banks) fun r => Blames P s r.2 := by
  induction banks generalizing s with
  | nil => exact Meets.ok (.refl P s)
  | cons b banks ih =>
    rw [growStore]
    refine Meets.ite (fun _ => ?_) fun _ => ih s
    have hsize := blames_deviceSizeStore P s b.device (s.noBanks b.device + 1)
    dsimp only
    generalize s.deviceSizeStore P b.device (s.noBanks b.device + 1) = s1 at hsize
    refine Meets.ite (fun _ => ?_) fun _ => (ih s1).mono fun r hr => hsize.trans hr
    exact Meets.bind (blames_varStoreAddBank P t _ s1) fun r hr =>
      Meets.pure (hsize.trans hr)

theorem blames_rtVarGarbageCollect (P : Platform) (t : StoreType) (s : State) :
    Meets Fault.NotRounds (s.rtVarGarbageCollect P t) fun r => Blames P s r.2 := by
  rw [rtVarGarbageCollect]
  cases (s.store t).active.find? s.collectable with
  | none => exact blames_growStore P t _ s
  | some b =>
    exact Meets.bind (blames_rtVarGarbageCollectBank P b s) fun s1 h1 => Meets.pure h1

theorem blames_rtVarFindFreeSpace (P : Platform) (t : StoreType) (size fuel : Nat) (s : State) :
    Ensures (s.rtVarFindFreeSpace P t size fuel) fun r => Blames P s r.2 := by
  induction fuel generalizing s with
  | zero => exact Ensures.error
  | succ fuel ih =>
    rw [rtVarFindFreeSpace]
    cases (s.store t).active.find? (s.hasSpace P size) with
    | some b => exact Ensures.ok (.refl P s)
    | none =>
      refine Ensures.bind (blames_rtVarGarbageCollect P t s).ensures fun r h1 => ?_
      refine Ensures.ite (fun _ => ?_) fun _ => Ensures.pure h1
      exact Ensures.bind (ih r.2) fun r' h2 => Ensures.pure (h1.trans h2)

/-! ## Writing -/

theorem blames_obsoleteVariable (P : Platform) (b : BankAddr) (info : VarInfo) (s : State) :
    Ensures (s.obsoleteVariable P b info) fun r => Blames P s r.2 := by
  rw [obsoleteVariable]
  refine Ensures.bind (blames_rtVarUpdateState P s b info _).ensures fun r h1 => Ensures.pure ?_
  exact h1.trans (.setBank id)

theorem blames_appendRecord (P : Platform) (new : BankAddr) (record : List Byte) (s : State) :
    Ensures (s.appendRecord P new record) (Blames P s) := by
  rw [appendRecord]
  refine Ensures.bind (blames_writeData P s new _ _).ensures fun s1 h1 => ?_
  refine Ensures.bind (blames_rtVarUpdateStore P s1 new _ _).ensures fun s2 h2 => Ensures.pure ?_
  exact (h1.trans h2).trans (.setBank id)

theorem blames_replaceVariable (P : Platform) (new : BankAddr) (record : List Byte)
    (old : Option (BankAddr × VarInfo)) (s : State) :
    Ensures (s.replaceVariable P new record old) fun r => Blames P s r.2 := by
  cases old with
  | none =>
    exact Ensures.bind (blames_appendRecord P new record s) fun s1 h1 => Ensures.pure h1
  | some old =>
    rw [replaceVariable]
    refine Ensures.bind (blames_rtVarUpdateState P s old.1 old.2 _).ensures fun r h1 => ?_
    refine Ensures.ite (fun _ => Ensures.pure h1) fun _ => ?_
    refine Ensures.bind (blames_appendRecord P new record r.2) fun s2 h2 => ?_
    refine Ensures.ite (fun _ => Ensures.pure (h1.trans h2)) fun _ => ?_
    exact (blames_obsoleteVariable P old.1 r.1 s2).mono fun r' h3 => (h1.trans h2).trans h3

theorem blames_saveVariable (P : Platform) (t : StoreType) (name : VarName) (guid : Guid)
    (attributes : BitVec 32) (data : List Byte) (s : State) :
    Ensures (s.saveVariable P t name guid attributes data) fun r => Blames P s r.2 := by
  rw [saveVariable]
  refine Ensures.bind (blames_rtVarFindFreeSpace P t _ P.rounds s) fun r h1 => ?_
  obtain ⟨⟨new, collected⟩, s1⟩ := r
  cases new with
  | none => exact Ensures.pure h1
  | some new =>
    refine Ensures.bind (Ensures.self _) fun old _ => ?_
    cases old with
    | none => exact (blames_replaceVariable P new _ none s1).mono fun r h2 => h1.trans h2
    | some old =>
      refine Ensures.bind (Ensures.self _) fun same _ => ?_
      refine Ensures.ite (fun _ => Ensures.pure h1) fun _ => ?_
      exact (blames_replaceVariable P new _ (some old) s1).mono fun r h2 => h1.trans h2

theorem blames_removeVariable (P : Platform) (name : VarName) (guid : Guid) (s : State) :
    Ensures (s.removeVariable P name guid) fun r => Blames P s r.2 := by
  rw [removeVariable]
  refine Ensures.bind (Ensures.self _) fun found _ => ?_
  cases found with
  | none => exact Ensures.pure (.refl P s)
  | some found => exact blames_obsoleteVariable P found.1 found.2 s

theorem blames_rtSetVariable (P : Platform) (variableName : Option VarName) (guid : Guid)
    (attributes : BitVec 32) (data : List Byte) (s : State) :
    Ensures (s.rtSetVariable P variableName guid attributes data) fun r => Blames P s r.2 := by
  have hrefused : ∀ status : Status, Ensures (Except.ok (status, s) : Except Fault _)
      fun r => Blames P s r.2 := fun _ => Ensures.ok (.refl P s)
  cases variableName with
  | none => exact hrefused _
  | some name =>
    rw [rtSetVariable]
    refine Ensures.ite (fun _ => hrefused _) fun _ => ?_
    refine Ensures.ite (fun _ => hrefused _) fun _ => ?_
    refine Ensures.ite (fun _ => hrefused _) fun _ => ?_
    refine Ensures.ite (fun _ => hrefused _) fun _ => ?_
    cases (if data = [] then none else s.destination attributes) with
    | none => exact blames_removeVariable P name guid s
    | some t =>
      exact Ensures.ite (fun _ => hrefused _) fun _ => blames_saveVariable P t name guid _ data s

end State

end EfiCore.Var
