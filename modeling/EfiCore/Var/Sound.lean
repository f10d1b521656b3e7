import EfiCore.Var.Init
import EfiCore.Var.Kept

/-! # Sound states

`State.Sound` lifts what is kept of each bank to the state of the services: the lists of the
stores hold each bank once, every bank in service is kept, and, where a regime asks for it,
every update that was ever issued only turned bits off.  This module covers what `vario.c` does
to one bank; each function there returns, and leaves the other banks alone.
-/

namespace EfiCore.Var

open EfiCore.Lib

/-- An update turns no bit of its bank on. -/
def Issued.TurnsBitsOff (i : Issued) : Prop :=
  match i.call with
  | .updateStore b off buffer =>
    ∀ j, j < buffer.length → BitsOff (buffer.getD j 0) ((i.flash b).getD (off + j) 0)
  | .clearStore _ | .transactionUpdate _ _ => True

namespace State

/-- A bank of a store, its transaction bank, or a bank on its way from one list to another. -/
def InService (s : State) (pend : List BankAddr) (b : BankAddr) : Prop :=
  (∃ t, b ∈ (s.store t).active) ∨ (∃ t, (s.store t).tBank = some b) ∨ b ∈ pend

structure Sound (P : Platform) (g : Regime) (s : State) (pend : List BankAddr) : Prop where
  nodup : ∀ t, (s.store t).active.Nodup
  active : ∀ t b, b ∈ (s.store t).active → (s.bank b).varStore = t
  tBank : ∀ t b, (s.store t).tBank = some b → (s.bank b).varStore = t ∧ b ∉ (s.store t).active
  pending : ∀ b ∈ pend, b ∉ (s.store (s.bank b).varStore).active ∧
    (s.store (s.bank b).varStore).tBank ≠ some b
  kept : ∀ b, s.InService pend b → (s.bank b).Kept g (s.flash b)
  numbered : ∀ b, s.InService pend b → b.bankNo < s.noBanks b.device
  size : ∀ b, (s.flash b).length = (P.device b.device).bankSize
  log : g.erased → ∀ i ∈ s.log, i.TurnsBitsOff

/-- Only the bank `b` differs, and it is still the same bank. -/
structure OnBank (b : BankAddr) (s s' : State) : Prop where
  efiAtRuntime : s'.efiAtRuntime = s.efiAtRuntime
  store : s'.store = s.store
  noBanks : s'.noBanks = s.noBanks
  bank : ∀ b', b' ≠ b → s'.bank b' = s.bank b'
  flash : ∀ b', b' ≠ b → s'.flash b' = s.flash b'
  varStore : (s'.bank b).varStore = (s.bank b).varStore
  tSize : (s'.bank b).tSize = (s.bank b).tSize
  length : (s'.bank b).data.length = (s.bank b).data.length
  flashLength : (s'.flash b).length = (s.flash b).length
  failed : (s.bank b).deviceError = true → (s'.bank b).deviceError = true

variable {P : Platform} {g : Regime} {s s1 s2 s3 : State} {pend : List BankAddr} {b : BankAddr}

@[simp] theorem bank_setBank_self (s : State) (b : BankAddr) (k : Bank) :
    (s.setBank b k).bank b = k := Function.update_self ..

theorem bank_setBank_of_ne (s : State) {b b' : BankAddr} (h : b' ≠ b) (k : Bank) :
    (s.setBank b k).bank b' = s.bank b' := Function.update_of_ne h ..

theorem setBank_bank_self (s : State) (b : BankAddr) : s.setBank b (s.bank b) = s := by
  rw [setBank, Function.update_eq_self]

@[simp] theorem setBank_setBank (s : State) (b : BankAddr) (k k' : Bank) :
    (s.setBank b k).setBank b k' = s.setBank b k' := by
  rw [setBank, setBank]
  dsimp only
  rw [Function.update_idem]
  rfl

namespace OnBank

theorem refl (b : BankAddr) (s : State) : OnBank b s s :=
  ⟨rfl, rfl, rfl, fun _ _ => rfl, fun _ _ => rfl, rfl, rfl, rfl, rfl, fun h => h⟩

theorem trans (h : OnBank b s s1) (h' : OnBank b s1 s2) : OnBank b s s2 where
  efiAtRuntime := h'.efiAtRuntime.trans h.efiAtRuntime
  store := h'.store.trans h.store
  noBanks := h'.noBanks.trans h.noBanks
  bank b' hb' := (h'.bank b' hb').trans (h.bank b' hb')
  flash b' hb' := (h'.flash b' hb').trans (h.flash b' hb')
  varStore := h'.varStore.trans h.varStore
  tSize := h'.tSize.trans h.tSize
  length := h'.length.trans h.length
  flashLength := h'.flashLength.trans h.flashLength
  failed hfailed := h'.failed (h.failed hfailed)

theorem setBank {k : Bank} (hvarStore : k.varStore = (s.bank b).varStore)
    (htSize : k.tSize = (s.bank b).tSize) (hlength : k.data.length = (s.bank b).data.length)
    (hfailed : (s.bank b).deviceError = true → k.deviceError = true := by exact fun h => h) :
    OnBank b s (s.setBank b k) where
  efiAtRuntime := rfl
  store := rfl
  noBanks := rfl
  bank _ hb' := bank_setBank_of_ne s hb' k
  flash _ _ := rfl
  varStore := by rw [bank_setBank_self, hvarStore]
  tSize := by rw [bank_setBank_self, htSize]
  length := by rw [bank_setBank_self, hlength]
  flashLength := rfl
  failed h := by
    rw [bank_setBank_self]
    exact hfailed h

theorem inService (h : OnBank b s s1) {b' : BankAddr} :
    s1.InService pend b' ↔ s.InService pend b' := by
  rw [InService, InService, h.store]

end OnBank

/-- What one bank does can only break what is kept of it, and the log. -/
theorem Sound.onBank (h : s.Sound P g pend) (hon : OnBank b s s1)
    (hkept : s.InService pend b → (s1.bank b).Kept g (s1.flash b))
    (hlog : g.erased → ∀ i ∈ s1.log, i.TurnsBitsOff) : s1.Sound P g pend := by
  have hvarStore : ∀ b', (s1.bank b').varStore = (s.bank b').varStore := by
    intro b'
    by_cases hb' : b' = b
    · rw [hb', hon.varStore]
    · rw [hon.bank b' hb']
  constructor
  · intro t
    rw [hon.store]
    exact h.nodup t
  · intro t b' hb'
    rw [hon.store] at hb'
    rw [hvarStore]
    exact h.active t b' hb'
  · intro t b' hb'
    rw [hon.store] at hb' ⊢
    rw [hvarStore]
    exact h.tBank t b' hb'
  · intro b' hb'
    rw [hvarStore, hon.store]
    exact h.pending b' hb'
  · intro b' hb'
    rw [hon.inService] at hb'
    by_cases heq : b' = b
    · subst heq
      exact hkept hb'
    · rw [hon.bank b' heq, hon.flash b' heq]
      exact h.kept b' hb'
  · intro b' hb'
    rw [hon.inService] at hb'
    rw [hon.noBanks]
    exact h.numbered b' hb'
  · intro b'
    by_cases heq : b' = b
    · rw [heq, hon.flashLength]
      exact h.size b
    · rw [hon.flash b' heq]
      exact h.size b'
  · exact hlog

/-! ## Lists -/

@[simp] theorem store_setStore_self (s : State) (t : StoreType) (st : VariableStore) :
    (s.setStore t st).store t = st := Function.update_self ..

theorem store_setStore_of_ne (s : State) {t t' : StoreType} (h : t' ≠ t) (st : VariableStore) :
    (s.setStore t st).store t' = s.store t' := Function.update_of_ne h ..

/-- The lists of a store change; no bank joins them that is not pending. -/
theorem Sound.setStore (h : s.Sound P g pend) {t : StoreType} {st : VariableStore}
    {pend' : List BankAddr} (hnodup : st.active.Nodup)
    (hactive : ∀ b ∈ st.active, b ∈ (s.store t).active ∨ (b ∈ pend ∧ (s.bank b).varStore = t))
    (htBank : ∀ b, st.tBank = some b → b ∉ st.active ∧
      ((s.store t).tBank = some b ∨ b ∈ (s.store t).active))
    (hpend : ∀ b ∈ pend', (b ∈ pend ∨ (s.store t).tBank = some b) ∧
      b ∉ st.active ∧ st.tBank ≠ some b) :
    (s.setStore t st).Sound P g pend' := by
  have hin : ∀ b, (s.setStore t st).InService pend' b → s.InService pend b := by
    rintro b (⟨t', hb⟩ | ⟨t', hb⟩ | hb)
    · by_cases ht : t' = t
      · subst ht
        rw [store_setStore_self] at hb
        rcases hactive b hb with hb | hb
        · exact .inl ⟨t', hb⟩
        · exact .inr (.inr hb.1)
      · rw [store_setStore_of_ne s ht] at hb
        exact .inl ⟨t', hb⟩
    · by_cases ht : t' = t
      · subst ht
        rw [store_setStore_self] at hb
        rcases (htBank b hb).2 with hb | hb
        · exact .inr (.inl ⟨t', hb⟩)
        · exact .inl ⟨t', hb⟩
      · rw [store_setStore_of_ne s ht] at hb
        exact .inr (.inl ⟨t', hb⟩)
    · rcases (hpend b hb).1 with hb | hb
      · exact .inr (.inr hb)
      · exact .inr (.inl ⟨t, hb⟩)
  refine ⟨?_, ?_, ?_, ?_, fun b hb => h.kept b (hin b hb), fun b hb => h.numbered b (hin b hb),
    h.size, h.log⟩
  · intro t'
    by_cases ht : t' = t
    · subst ht
      rw [store_setStore_self]
      exact hnodup
    · rw [store_setStore_of_ne s ht]
      exact h.nodup t'
  · intro t' b hb
    by_cases ht : t' = t
    · subst ht
      rw [store_setStore_self] at hb
      rcases hactive b hb with hb | hb
      · exact h.active t' b hb
      · exact hb.2
    · rw [store_setStore_of_ne s ht] at hb
      exact h.active t' b hb
  · intro t' b hb
    by_cases ht : t' = t
    · subst ht
      rw [store_setStore_self] at hb ⊢
      obtain ⟨hnot, hb⟩ := htBank b hb
      refine ⟨?_, hnot⟩
      rcases hb with hb | hb
      · exact (h.tBank t' b hb).1
      · exact h.active t' b hb
    · rw [store_setStore_of_ne s ht] at hb ⊢
      exact h.tBank t' b hb
  · intro b hb
    obtain ⟨hfrom, hnot⟩ := hpend b hb
    change b ∉ ((s.setStore t st).store (s.bank b).varStore).active ∧
      ((s.setStore t st).store (s.bank b).varStore).tBank ≠ some b
    by_cases ht : (s.bank b).varStore = t
    · rw [ht, store_setStore_self]
      exact hnot
    · rw [store_setStore_of_ne s ht]
      rcases hfrom with hfrom | hfrom
      · exact h.pending b hfrom
      · exact absurd (h.tBank t b hfrom).1 ht

/-- A bank outside the service may join it when it is kept. -/
theorem Sound.addPending (h : s.Sound P g pend) (hkept : (s.bank b).Kept g (s.flash b))
    (hnumber : b.bankNo < s.noBanks b.device)
    (hnot : b ∉ (s.store (s.bank b).varStore).active ∧
      (s.store (s.bank b).varStore).tBank ≠ some b) : s.Sound P g (b :: pend) where
  nodup := h.nodup
  active := h.active
  tBank := h.tBank
  pending b' hb' := by
    rcases List.mem_cons.mp hb' with rfl | hb'
    · exact hnot
    · exact h.pending b' hb'
  kept b' hb' := by
    rcases hb' with hb' | hb' | hb'
    · exact h.kept b' (.inl hb')
    · exact h.kept b' (.inr (.inl hb'))
    · rcases List.mem_cons.mp hb' with rfl | hb'
      · exact hkept
      · exact h.kept b' (.inr (.inr hb'))
  numbered b' hb' := by
    rcases hb' with hb' | hb' | hb'
    · exact h.numbered b' (.inl hb')
    · exact h.numbered b' (.inr (.inl hb'))
    · rcases List.mem_cons.mp hb' with rfl | hb'
      · exact hnumber
      · exact h.numbered b' (.inr (.inr hb'))
  size := h.size
  log := h.log

/-! ## Updates of a device -/

/-- How an update can turn out. -/
structure Written (b : BankAddr) (off : Nat) (bytes : List Byte) (s s' : State) : Prop where
  on : OnBank b s s'
  outcome : ((s.bank b).deviceError = true ∧ s' = s) ∨
    ((s.bank b).deviceError = false ∧
      s'.log = ⟨.updateStore b off bytes, s.flash⟩ :: s.log ∧
      ((s'.bank b = { s.bank b with deviceError := true } ∧ s'.flash b = s.flash b) ∨
        (s'.bank b = s.bank b ∧ s'.flash b = splice (s.flash b) off bytes)))

theorem deviceUpdateStore_written {off : Nat} {bytes : List Byte} {failed : Bool}
    (hok : (s.bank b).deviceError = false) (hfits : off + bytes.length ≤ (s.flash b).length)
    (h : s.deviceUpdateStore P b off bytes = (failed, s1)) :
    Written b off bytes s (if failed then s1.bankFailed b else s1) := by
  simp only [deviceUpdateStore] at h
  cases hfails : (P.answer s.calls).fails with
  | true =>
    rw [if_pos hfails] at h
    cases h
    rw [if_pos rfl]
    have hon : OnBank b s (((s.issue (.updateStore b off bytes)).answered).bankFailed b) :=
      ⟨rfl, rfl, rfl, fun _ hb' => bank_setBank_of_ne _ hb' _, fun _ _ => rfl,
        by rw [bankFailed, bank_setBank_self]; rfl, by rw [bankFailed, bank_setBank_self]; rfl,
        by rw [bankFailed, bank_setBank_self]; rfl, rfl,
        fun _ => by rw [bankFailed, bank_setBank_self]⟩
    exact ⟨hon, .inr ⟨hok, rfl, .inl ⟨bank_setBank_self .., rfl⟩⟩⟩
  | false =>
    rw [if_neg (by rw [hfails]; exact Bool.false_ne_true)] at h
    cases h
    rw [if_neg Bool.false_ne_true]
    have hflash : (((s.issue (.updateStore b off bytes)).answered).setFlash b
        (splice (s.flash b) off bytes)).flash b = splice (s.flash b) off bytes :=
      Function.update_self ..
    have hlen : (splice (s.flash b) off bytes).length = (s.flash b).length := length_splice hfits
    refine ⟨⟨rfl, rfl, rfl, fun _ _ => rfl, fun _ hb' => Function.update_of_ne hb' .., rfl, rfl, rfl,
      ?_, fun h => h⟩, .inr ⟨hok, rfl, .inr ⟨rfl, hflash⟩⟩⟩
    exact (congrArg List.length hflash).trans hlen

theorem rtVarUpdateStore_written (P : Platform) (s : State) (b : BankAddr) (off n : Nat)
    (hfits : off + n ≤ (s.bank b).data.length)
    (hlength : (s.flash b).length = (s.bank b).data.length) :
    ∃ s', s.rtVarUpdateStore P b off n = .ok s' ∧
      Written b off (slice (s.bank b).data off n) s s' := by
  rw [rtVarUpdateStore]
  cases herror : (s.bank b).deviceError with
  | true => exact ⟨s, rfl, .refl b s, .inl ⟨herror, rfl⟩⟩
  | false =>
    have hbytes := length_slice hfits
    rw [if_neg Bool.false_ne_true, readBuffer, if_pos hfits]
    cases hcall : s.deviceUpdateStore P b off (slice (s.bank b).data off n) with
    | mk failed s1 =>
      refine ⟨if failed then s1.bankFailed b else s1, ?_,
        deviceUpdateStore_written herror (by omega) hcall⟩
      simp only [bind, Except.bind, hcall]
      rfl

/-- An edit of the copy, an update of the device with a part of it, and a change that the copy
    does not show: what is kept is kept, if the update turns no bit on. -/
theorem Sound.edit (h : s.Sound P g pend) {k k1 : Bank} (off n : Nat)
    (hkept : s.InService pend b → k.Kept g (s.flash b)) (hin : off + n ≤ k.tail)
    (hsame : k.varStore = (s.bank b).varStore ∧ k.tSize = (s.bank b).tSize ∧
      k.data.length = (s.bank b).data.length ∧ k.deviceError = (s.bank b).deviceError)
    (hwritten : Written b off (slice k.data off n) (s.setBank b k1) s2)
    (hdata : k1.data = k.data)
    (hsame1 : k1.varStore = k.varStore ∧ k1.tSize = k.tSize ∧ k1.deviceError = k.deviceError)
    (hlast : s3 = s2.setBank b { k with deviceError := (s2.bank b).deviceError })
    (hoff : g.erased → k.deviceError = false →
      ∀ j, j < n → BitsOff (k.data.getD (off + j) 0) ((s.flash b).getD (off + j) 0)) :
    s3.Sound P g pend ∧ OnBank b s s3 := by
  obtain ⟨hvarStore, htSize, hlength, herror⟩ := hsame
  obtain ⟨hvarStore1, htSize1, herror1⟩ := hsame1
  have hon1 : OnBank b s (s.setBank b k1) := .setBank (hvarStore1.trans hvarStore)
    (htSize1.trans htSize) (hdata ▸ hlength) (by rw [herror1, herror]; exact fun h => h)
  have hon2 := hon1.trans hwritten.on
  have hon3 : OnBank b s2 s3 := by
    rw [hlast]
    exact .setBank (hvarStore.trans hon2.varStore.symm) (htSize.trans hon2.tSize.symm)
      (hlength.trans hon2.length.symm)
  have hon := hon2.trans hon3
  have hbank3 : s3.bank b = { k with deviceError := (s2.bank b).deviceError } := by
    rw [hlast, bank_setBank_self]
  have hflash3 : s3.flash b = s2.flash b := by rw [hlast]; rfl
  have hlog3 : s3.log = s2.log := by rw [hlast]; rfl
  refine ⟨h.onBank hon ?_ ?_, hon⟩
  · intro hb
    rw [hbank3, hflash3]
    have hk := hkept hb
    rcases hwritten.outcome with ⟨herror, heq⟩ | ⟨hok, -, ⟨hbank, hflash⟩ | ⟨hbank, hflash⟩⟩
    · rw [heq, bank_setBank_self, herror1]
      exact hk
    · rw [hbank, hflash]
      exact hk.failed
    · rw [hbank, hflash, bank_setBank_self, herror1]
      exact hk.flashed hin
  · intro hg i hi
    rw [hlog3] at hi
    rcases hwritten.outcome with ⟨herror, heq⟩ | ⟨hok, hlog, -⟩
    · rw [heq] at hi
      exact h.log hg i hi
    · rw [bank_setBank_self, herror1] at hok
      rw [hlog] at hi
      rcases List.mem_cons.mp hi with rfl | hi
      · intro j hj
        have hjn : j < n := by
          rw [slice, List.length_take] at hj
          omega
        rw [getD_slice hjn]
        exact hoff hg hok j hjn
      · exact h.log hg i hi

theorem Written.bank_eq {off : Nat} {bytes : List Byte} (h : Written b off bytes s s1) :
    s1.bank b = { s.bank b with deviceError := (s1.bank b).deviceError } := by
  rcases h.outcome with ⟨-, heq⟩ | ⟨-, -, ⟨hbank, -⟩ | ⟨hbank, -⟩⟩
  · rw [heq]
  · rw [hbank]
  · rw [hbank]

end State

end EfiCore.Var
