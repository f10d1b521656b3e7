import EfiCore.Var.Edits

/-! # Clearing a bank

`RtVarClearStore` takes a bank off its list and puts it back empty, or leaves it off when its
device fails.
-/

namespace EfiCore.Var

open EfiCore.Lib

namespace State

variable {P : Platform} {g : Regime} {s s1 : State} {pend : List BankAddr} {b : BankAddr}

/-! ## Leaving and joining a list -/

theorem Sound.unlink (h : s.Sound P g pend) (b : BankAddr) : (s.unlink b).Sound P g pend := by
  refine h.setStore ((h.nodup _).erase b) (fun b' hb' => .inl (List.mem_of_mem_erase hb')) ?_ ?_
  · intro b' hb'
    exact ⟨fun hmem => (h.tBank _ b' hb').2 (List.mem_of_mem_erase hmem), .inl hb'⟩
  · intro b' hb'
    obtain ⟨hactive, htBank⟩ := h.pending b' hb'
    refine ⟨.inl hb', ?_, ?_⟩
    · intro hmem
      have hmem := List.mem_of_mem_erase hmem
      rw [h.active _ b' hmem] at hactive
      exact hactive hmem
    · intro heq
      rw [(h.tBank _ b' heq).1] at htBank
      exact htBank heq

/-- No bank joins or leaves a list. -/
theorem Sound.sameLists (h : s.Sound P g pend) {t : StoreType} {st : VariableStore}
    (hactive : st.active = (s.store t).active) (htBank : st.tBank = (s.store t).tBank) :
    (s.setStore t st).Sound P g pend := by
  refine h.setStore (hactive ▸ h.nodup t) (fun b' hb' => .inl (hactive ▸ hb')) ?_ ?_
  · intro b' hb'
    rw [htBank] at hb'
    rw [hactive]
    exact ⟨(h.tBank t b' hb').2, .inl hb'⟩
  · intro b' hb'
    obtain ⟨hnot, hnotTBank⟩ := h.pending b' hb'
    rw [hactive, htBank]
    refine ⟨.inl hb', ?_, ?_⟩
    · intro hmem
      rw [h.active t b' hmem] at hnot
      exact hnot hmem
    · intro heq
      rw [(h.tBank t b' heq).1] at hnotTBank
      exact hnotTBank heq

theorem Sound.insertTail (h : s.Sound P g (b :: pend)) (hnot : b ∉ pend) :
    (s.insertTail b).Sound P g pend := by
  obtain ⟨hactive, htBank⟩ := h.pending b List.mem_cons_self
  refine h.setStore ?_ ?_ ?_ ?_
  · exact List.nodup_append.mpr ⟨h.nodup _, List.nodup_singleton b, by
      intro x hx y hy heq
      rw [List.mem_singleton.mp hy] at heq
      exact hactive (heq ▸ hx)⟩
  · intro b' hb'
    rcases List.mem_append.mp hb' with hb' | hb'
    · exact .inl hb'
    · rw [List.mem_singleton.mp hb']
      exact .inr ⟨List.mem_cons_self, rfl⟩
  · intro b' hb'
    refine ⟨?_, .inl hb'⟩
    intro hmem
    rcases List.mem_append.mp hmem with hmem | hmem
    · exact (h.tBank _ b' hb').2 hmem
    · rw [List.mem_singleton.mp hmem] at hb'
      exact htBank hb'
  · intro b' hb'
    obtain ⟨hactive', htBank'⟩ := h.pending b' (List.mem_cons_of_mem _ hb')
    refine ⟨.inl (List.mem_cons_of_mem _ hb'), ?_, ?_⟩
    · intro hmem
      rcases List.mem_append.mp hmem with hmem | hmem
      · rw [h.active _ b' hmem] at hactive'
        exact hactive' hmem
      · rw [List.mem_singleton.mp hmem] at hb'
        exact hnot hb'
    · intro heq
      rw [(h.tBank _ b' heq).1] at htBank'
      exact htBank' heq

theorem Sound.not_inService (h : s.Sound P g pend)
    (hactive : b ∉ (s.store (s.bank b).varStore).active)
    (htBank : (s.store (s.bank b).varStore).tBank ≠ some b) (hpend : b ∉ pend) :
    ¬ s.InService pend b := by
  rintro (⟨t, hb⟩ | ⟨t, hb⟩ | hb)
  · rw [h.active t b hb] at hactive
    exact hactive hb
  · rw [(h.tBank t b hb).1] at htBank
    exact htBank hb
  · exact hpend hb

/-- A bank that is not in service may change in any way. -/
theorem Sound.outside (h : s.Sound P g pend) (hout : ¬ s.InService pend b)
    (hon : OnBank b s s1) (hlog : g.erased → ∀ i ∈ s1.log, i.TurnsBitsOff) :
    s1.Sound P g pend :=
  h.onBank hon (fun hb => absurd hb hout) hlog

/-! ## The clear -/

/-- A bank that may be cleared. -/
structure Clearable (s : State) (pend : List BankAddr) (b : BankAddr) : Prop where
  notPending : b ∉ pend
  notTBank : (s.store (s.bank b).varStore).tBank ≠ some b
  numbered : b.bankNo < s.noBanks b.device
  length : (s.flash b).length = (s.bank b).data.length
  header : firstVariableOffset ≤ (s.bank b).data.length
  small : (s.bank b).data.length < 2 ^ 32

theorem Clearable.onBank (h : s.Clearable pend b) (hon : OnBank b s s1) : s1.Clearable pend b where
  notPending := h.notPending
  notTBank := by
    rw [hon.store, hon.varStore]
    exact h.notTBank
  numbered := by
    rw [hon.noBanks]
    exact h.numbered
  length := by
    rw [hon.flashLength, hon.length]
    exact h.length
  header := by
    rw [hon.length]
    exact h.header
  small := by
    rw [hon.length]
    exact h.small

/-- Only the bank `b` differs, and the list and the sequence number of its store. -/
structure Around (b : BankAddr) (s s' : State) : Prop where
  efiAtRuntime : s'.efiAtRuntime = s.efiAtRuntime
  noBanks : s'.noBanks = s.noBanks
  bank : ∀ b', b' ≠ b → s'.bank b' = s.bank b'
  flash : ∀ b', b' ≠ b → s'.flash b' = s.flash b'
  varStore : (s'.bank b).varStore = (s.bank b).varStore
  tSize : (s'.bank b).tSize = (s.bank b).tSize
  length : (s'.bank b).data.length = (s.bank b).data.length
  flashLength : (s'.flash b).length = (s.flash b).length
  failed : (s.bank b).deviceError = true → (s'.bank b).deviceError = true
  store : ∀ t, t ≠ (s.bank b).varStore → s'.store t = s.store t
  tBankRequired : ∀ t, (s'.store t).tBankRequired = (s.store t).tBankRequired
  tBank : ∀ t, (s'.store t).tBank = (s.store t).tBank
  storeTSize : ∀ t, (s'.store t).tSize = (s.store t).tSize

namespace Around

variable {s2 : State}

theorem trans (h : Around b s s1) (h' : Around b s1 s2) : Around b s s2 where
  efiAtRuntime := h'.efiAtRuntime.trans h.efiAtRuntime
  noBanks := h'.noBanks.trans h.noBanks
  bank b' hb' := (h'.bank b' hb').trans (h.bank b' hb')
  flash b' hb' := (h'.flash b' hb').trans (h.flash b' hb')
  varStore := h'.varStore.trans h.varStore
  tSize := h'.tSize.trans h.tSize
  length := h'.length.trans h.length
  flashLength := h'.flashLength.trans h.flashLength
  failed hfailed := h'.failed (h.failed hfailed)
  store t ht := (h'.store t (by rwa [h.varStore])).trans (h.store t ht)
  tBankRequired t := (h'.tBankRequired t).trans (h.tBankRequired t)
  tBank t := (h'.tBank t).trans (h.tBank t)
  storeTSize t := (h'.storeTSize t).trans (h.storeTSize t)

theorem of_onBank (h : OnBank b s s1) : Around b s s1 where
  efiAtRuntime := h.efiAtRuntime
  noBanks := h.noBanks
  bank := h.bank
  flash := h.flash
  varStore := h.varStore
  tSize := h.tSize
  length := h.length
  flashLength := h.flashLength
  failed := h.failed
  store t _ := by rw [h.store]
  tBankRequired t := by rw [h.store]
  tBank t := by rw [h.store]
  storeTSize t := by rw [h.store]

/-- The list and the sequence number of its store are changed. -/
theorem setStore {t : StoreType} {st : VariableStore} (ht : t = (s.bank b).varStore)
    (hrequired : st.tBankRequired = (s.store t).tBankRequired)
    (htBank : st.tBank = (s.store t).tBank) (htSize : st.tSize = (s.store t).tSize) :
    Around b s (s.setStore t st) := by
  subst ht
  refine ⟨rfl, rfl, fun _ _ => rfl, fun _ _ => rfl, rfl, rfl, rfl, rfl, fun h => h,
    fun t ht => store_setStore_of_ne s ht st, ?_, ?_, ?_⟩ <;> intro t
  · by_cases ht : t = (s.bank b).varStore
    · rw [ht, store_setStore_self, hrequired]
    · rw [store_setStore_of_ne s ht]
  · by_cases ht : t = (s.bank b).varStore
    · rw [ht, store_setStore_self, htBank]
    · rw [store_setStore_of_ne s ht]
  · by_cases ht : t = (s.bank b).varStore
    · rw [ht, store_setStore_self, htSize]
    · rw [store_setStore_of_ne s ht]

end Around

/-- Where a bank is once `RtVarClearStore` is done with it: off the list, or at its end. -/
structure Cleared (b : BankAddr) (s s' : State) : Prop where
  around : Around b s s'
  outcome :
    ((s'.bank b).deviceError = true ∧
      (s'.store (s.bank b).varStore).active = (s.store (s.bank b).varStore).active.erase b) ∨
    ((s'.bank b).deviceError = false ∧
      (s'.store (s.bank b).varStore).active = (s.store (s.bank b).varStore).active.erase b ++ [b] ∧
      (s'.bank b).tail = firstVariableOffset ∧ (s'.bank b).inUse = firstVariableOffset ∧
      (s'.bank b).state = 0 ∧
      ∀ i, firstVariableOffset ≤ i → i < (s'.flash b).length → (s'.flash b).getD i 0 = 0xFF)

/-- What came before the clear took the bank off its list at most. -/
theorem Cleared.after {s2 : State} (h : Cleared b s1 s2) (haround : Around b s s1)
    (hactive : (s1.store (s.bank b).varStore).active.erase b =
      (s.store (s.bank b).varStore).active.erase b) : Cleared b s s2 where
  around := haround.trans h.around
  outcome := by
    rw [← hactive, ← haround.varStore]
    exact h.outcome

/-- The bank is off its list. -/
theorem Cleared.of_failed (haround : Around b s s1)
    (hactive : (s1.store (s.bank b).varStore).active =
      (s.store (s.bank b).varStore).active.erase b)
    (hfailed : (s1.bank b).deviceError = true) : Cleared b s s1 :=
  ⟨haround, .inl ⟨hfailed, hactive⟩⟩

/-- The header of a bank that is about to be cleared is wiped out first. -/
theorem Sound.wipeHeader (h : s.Sound P g pend) (hout : ¬ s.InService pend b)
    (hlength : (s.flash b).length = (s.bank b).data.length)
    (hsize : firstVariableOffset ≤ (s.bank b).data.length) :
    ∃ s', (s.writeData b 0 (List.replicate sizeofBankHeader 0) >>= fun s =>
        s.rtVarUpdateStore P b 0 sizeofBankHeader) = .ok s' ∧
      s'.Sound P g pend ∧ OnBank b s s' := by
  have hfits : 0 + (List.replicate sizeofBankHeader (0 : Byte)).length ≤
      (s.bank b).data.length := by
    rw [List.length_replicate, Nat.zero_add]
    exact hsize
  have hlen := length_splice hfits
  have hslice := slice_splice hfits
  rw [List.length_replicate] at hslice
  rw [writeData_eq hfits]
  simp only [bind, Except.bind]
  generalize splice (s.bank b).data 0 (List.replicate sizeofBankHeader 0) = data at hlen hslice
  have hon : OnBank b s (s.setBank b { s.bank b with data }) := .setBank rfl rfl hlen
  obtain ⟨s', hs', hwritten⟩ := rtVarUpdateStore_written P
    (s.setBank b { s.bank b with data }) b 0 sizeofBankHeader
    (by
      rw [bank_setBank_self, Nat.zero_add]
      exact Nat.le_trans hsize (Nat.le_of_eq hlen.symm))
    (by
      rw [bank_setBank_self]
      exact hlength.trans hlen.symm)
  rw [bank_setBank_self, hslice] at hwritten
  have hon' := hon.trans hwritten.on
  refine ⟨s', hs', h.outside hout hon' ?_, hon'⟩
  intro hg i hi
  rcases hwritten.outcome with ⟨-, heq⟩ | ⟨-, hlog, -⟩
  · rw [heq] at hi
    exact h.log hg i hi
  · rw [hlog] at hi
    rcases List.mem_cons.mp hi with rfl | hi
    · intro j hj
      rw [List.length_replicate] at hj
      rw [List.getD_eq_getElem?_getD, List.getElem?_replicate, if_pos hj, Option.getD_some]
      exact BitsOff.zero _
    · exact h.log hg i hi

/-- What `ClearStore` does. -/
theorem deviceClearStore_cleared {failed : Bool} (h : s.deviceClearStore P b = (failed, s1)) :
    OnBank b s s1 ∧ s1.log = ⟨.clearStore b, s.flash⟩ :: s.log ∧
      (s1.bank b).deviceError = (s.bank b).deviceError ∧
      (failed = false → s1.flash b = List.replicate (s.flash b).length 0xFF) := by
  have hfill : ∀ (a : Answer) (l : List Byte), (a.fill l).length = l.length :=
    fun a l => List.length_mapIdx
  rw [deviceClearStore] at h
  generalize hdata : (if (P.device b.device).usesScratch then
    (P.answer s.calls).fill ((s.issue (.clearStore b)).answered.bank b).data
    else ((s.issue (.clearStore b)).answered.bank b).data) = data at h
  have hlength : data.length = (s.bank b).data.length := by
    rw [← hdata]
    split
    · exact hfill _ _
    · rfl
  have hon : OnBank b s (((s.issue (.clearStore b)).answered).setBank b
      { (s.issue (.clearStore b)).answered.bank b with data }) :=
    ⟨rfl, rfl, rfl, fun _ hb' => bank_setBank_of_ne _ hb' _, fun _ _ => rfl,
      by rw [bank_setBank_self]; rfl, by rw [bank_setBank_self]; rfl,
      by rw [bank_setBank_self]; exact hlength, rfl,
      by rw [bank_setBank_self]; exact fun h => h⟩
  dsimp only at h
  split at h
  · cases h
    exact ⟨hon, rfl, by rw [bank_setBank_self]; rfl, nofun⟩
  · cases h
    refine ⟨hon.trans ⟨rfl, rfl, rfl, fun _ _ => rfl, fun _ hb' => Function.update_of_ne hb' ..,
      rfl, rfl, rfl, ?_, fun h => h⟩, rfl, ?_, fun _ => Function.update_self ..⟩
    · rw [setFlash]
      dsimp only
      rw [Function.update_self, List.length_replicate]
    · change (((s.issue (.clearStore b)).answered.setBank b _).bank b).deviceError = _
      rw [bank_setBank_self]
      rfl

/-- The header that `RtVarClearStore` writes. -/
def freshHeader (sequence : Nat) : BankHeader :=
  { signature := bankHeaderSignature, sequence, format := varhFormat, state := 0xFF }

theorem freshHeader_bytes (sequence : Nat) : (freshHeader sequence).bytes.length = 8 ∧
    (freshHeader sequence).bytes.getD 7 0 = 0xFF := by
  have hlength : (leBytes 4 (freshHeader sequence).signature ++
      leBytes 2 (freshHeader sequence).sequence).length = 6 := by
    rw [List.length_append, length_leBytes, length_leBytes]
  constructor
  · rw [BankHeader.bytes, List.length_append, hlength]
    rfl
  · rw [BankHeader.bytes, List.getD_eq_getElem?_getD, List.getElem?_append_right (by omega),
      hlength]
    rfl

/-- The device of a cleared bank gets its header, and the bank goes to the end of its list. -/
theorem Sound.joinList (h : s.Sound P g pend) (hout : ¬ s.InService pend b)
    (hc : s.Clearable pend b) (hok : (s.bank b).deviceError = false)
    (hempty : (s.bank b).tail = firstVariableOffset ∧ (s.bank b).inUse = firstVariableOffset ∧
      (s.bank b).state = 0)
    (hheader : (s.bank b).data.getD 7 0 = 0xFF)
    (hones : s.flash b = List.replicate (s.flash b).length 0xFF) {failed : Bool}
    (hcall : s.deviceUpdateStore P b 0 (slice (s.bank b).data 0 firstVariableOffset) =
      (failed, s1)) :
    (if failed then s1.bankFailed b else s1.insertTail b).Sound P g pend ∧
      Cleared b s (if failed then s1.bankFailed b else s1.insertTail b) := by
  have hnot : b ∉ (s.store (s.bank b).varStore).active := fun hb => hout (.inl ⟨_, hb⟩)
  have herase := List.erase_of_not_mem hnot
  have hsize := hc.header
  have hlength := hc.length
  have hbuffer : (slice (s.bank b).data 0 firstVariableOffset).length = firstVariableOffset :=
    length_slice (by omega)
  have hwritten := deviceUpdateStore_written hok (by omega) hcall
  have honesAt : ∀ i, i < (s.flash b).length → (s.flash b).getD i 0 = 0xFF := by
    intro i hi
    rw [hones, List.getD_eq_getElem?_getD, List.getElem?_replicate, if_pos hi, Option.getD_some]
  have hlog : g.erased → ∀ i ∈ (if failed then s1.bankFailed b else s1).log, i.TurnsBitsOff := by
    intro hg i hi
    obtain ⟨herror, heq⟩ | ⟨-, hlog, -⟩ := hwritten.outcome
    · rw [heq] at hi
      exact h.log hg i hi
    · rw [hlog] at hi
      obtain rfl | hi := List.mem_cons.mp hi
      · intro j hj
        rw [Nat.zero_add, honesAt j (by omega)]
        exact BitsOff.erased _
      · exact h.log hg i hi
  have hsound := h.outside hout hwritten.on hlog
  have haround := Around.of_onBank hwritten.on
  obtain ⟨hkept, -⟩ := Bank.Kept.cleared (g := g) hc.small hc.header hempty.1 hempty.2.1
    (by rw [hheader, hempty.2.2]; rfl) hc.length honesAt
  cases failed with
  | true =>
    rw [if_pos rfl] at hsound haround hwritten ⊢
    refine ⟨hsound, .of_failed haround ?_ (by rw [bankFailed, bank_setBank_self])⟩
    rw [hwritten.on.store, herase]
  | false =>
    rw [if_neg Bool.false_ne_true] at hsound haround hwritten ⊢
    have hc1 := hc.onBank hwritten.on
    -- the update did not fail, so the device has the header of the copy
    have hflash : s1.bank b = s.bank b ∧
        s1.flash b = splice (s.flash b) 0 (slice (s.bank b).data 0 firstVariableOffset) := by
      obtain ⟨herror, -⟩ | ⟨-, -, ⟨hbank, hflash⟩ | houtcome⟩ := hwritten.outcome
      · rw [hok] at herror
        cases herror
      · rw [deviceUpdateStore] at hcall
        split at hcall
        · cases hcall
        · cases hcall
          change s.bank b = _ at hbank
          rw [hbank] at hok
          cases hok
      · exact houtcome
    have hkept1 : (s1.bank b).Kept g (s1.flash b) := by
      rw [hflash.1, hflash.2]
      exact hkept.flashed (by rw [hempty.1]; exact Nat.le_refl _)
    have hadd := hsound.addPending hkept1 hc1.numbered ⟨by
      rw [hwritten.on.store, hwritten.on.varStore]
      exact hnot, hc1.notTBank⟩
    refine ⟨hadd.insertTail hc.notPending, haround.trans
      (Around.setStore rfl rfl rfl rfl), .inr ⟨?_, ?_, ?_, ?_, ?_, ?_⟩⟩
    · change (s1.bank b).deviceError = false
      rw [hflash.1]
      exact hok
    · rw [State.insertTail, ← hwritten.on.varStore, store_setStore_self, hwritten.on.varStore,
        hwritten.on.store, herase]
    · change (s1.bank b).tail = _
      rw [hflash.1]
      exact hempty.1
    · change (s1.bank b).inUse = _
      rw [hflash.1]
      exact hempty.2.1
    · change (s1.bank b).state = _
      rw [hflash.1]
      exact hempty.2.2
    · intro i hle hlt
      change (s1.flash b).getD i 0 = _
      change i < (s1.flash b).length at hlt
      rw [hwritten.on.flashLength] at hlt
      rw [hflash.2, getD_splice (by omega), if_neg (by omega)]
      exact honesAt i hlt

/-- A bank that was cleared on its device gets a header and goes to the end of its list. -/
theorem Sound.initBank (h : s.Sound P g pend) (hout : ¬ s.InService pend b)
    (hc : s.Clearable pend b) (hok : (s.bank b).deviceError = false)
    (hones : s.flash b = List.replicate (s.flash b).length 0xFF) :
    ∃ s', s.initBank P b = .ok s' ∧ s'.Sound P g pend ∧ Cleared b s s' := by
  rw [State.initBank]
  dsimp only
  rw [bank_setBank_self]
  dsimp only
  generalize (if ((s.setBank b { s.bank b with
      state := 0, tail := firstVariableOffset, inUse := firstVariableOffset }).store
        (s.bank b).varStore).sequence < varhMaxSequence then
      ((s.setBank b { s.bank b with
        state := 0, tail := firstVariableOffset, inUse := firstVariableOffset }).store
          (s.bank b).varStore).sequence + 1
    else ((s.setBank b { s.bank b with
      state := 0, tail := firstVariableOffset, inUse := firstVariableOffset }).store
        (s.bank b).varStore).sequence) = sequence
  obtain ⟨hhdr, hseven⟩ := freshHeader_bytes sequence
  have hheader : firstVariableOffset = 8 := rfl
  have hsize := hc.header
  have hfits : 0 + (freshHeader sequence).bytes.length ≤ (s.bank b).data.length := by omega
  have hlen := length_splice hfits
  have hstate : (splice (s.bank b).data 0 (freshHeader sequence).bytes).getD 7 0 = 0xFF := by
    rw [getD_splice hfits, if_pos (by omega)]
    exact hseven
  have hs0 : (s.setBank b { s.bank b with
      state := 0, tail := firstVariableOffset, inUse := firstVariableOffset }).setStore
        (s.bank b).varStore { s.store (s.bank b).varStore with sequence } =
      (s.setStore (s.bank b).varStore { s.store (s.bank b).varStore with sequence }).setBank b
        { s.bank b with
          state := 0, tail := firstVariableOffset, inUse := firstVariableOffset } := rfl
  change ∃ s', (((s.setBank b { s.bank b with
      state := 0, tail := firstVariableOffset, inUse := firstVariableOffset }).setStore
        (s.bank b).varStore { s.store (s.bank b).varStore with sequence }).writeData b 0
          (freshHeader sequence).bytes >>= _) = _ ∧ _
  rw [hs0, writeData_eq (by rw [bank_setBank_self]; exact hfits), bank_setBank_self,
    setBank_setBank]
  simp only [bind, Except.bind]
  rw [bank_setBank_self]
  dsimp only
  rw [readBuffer, if_pos (by rw [hlen]; exact hsize)]
  dsimp only
  generalize splice (s.bank b).data 0 (freshHeader sequence).bytes = data at *
  obtain ⟨st, hst⟩ : ∃ st : VariableStore,
      st = { s.store (s.bank b).varStore with sequence } := ⟨_, rfl⟩
  obtain ⟨k, hk⟩ : ∃ k : Bank, k = { s.bank b with
      state := 0, tail := firstVariableOffset, inUse := firstVariableOffset, data } := ⟨_, rfl⟩
  rw [← hst, ← hk]
  have hactive : st.active = (s.store (s.bank b).varStore).active := by rw [hst]
  have htBank : st.tBank = (s.store (s.bank b).varStore).tBank := by rw [hst]
  have hsound := h.sameLists hactive htBank
  have hon : OnBank b (s.setStore (s.bank b).varStore st)
      ((s.setStore (s.bank b).varStore st).setBank b k) :=
    .setBank (by rw [hk]; rfl) (by rw [hk]; rfl) (by rw [hk]; exact hlen)
      (by rw [hk]; exact fun h => h)
  have haround : Around b s ((s.setStore (s.bank b).varStore st).setBank b k) :=
    (Around.setStore rfl (by rw [hst]) htBank (by rw [hst])).trans (.of_onBank hon)
  have hout1 : ¬ (s.setStore (s.bank b).varStore st).InService pend b := by
    refine hsound.not_inService ?_ ?_ hc.notPending
    · change b ∉ ((s.setStore (s.bank b).varStore st).store (s.bank b).varStore).active
      rw [store_setStore_self, hactive]
      exact fun hb => hout (.inl ⟨_, hb⟩)
    · change ((s.setStore (s.bank b).varStore st).store (s.bank b).varStore).tBank ≠ some b
      rw [store_setStore_self, htBank]
      exact hc.notTBank
  have hc1 : (s.setStore (s.bank b).varStore st).Clearable pend b := by
    refine ⟨hc.notPending, ?_, hc.numbered, hc.length, hc.header, hc.small⟩
    change ((s.setStore (s.bank b).varStore st).store (s.bank b).varStore).tBank ≠ some b
    rw [store_setStore_self, htBank]
    exact hc.notTBank
  have hsound2 := hsound.outside hout1 hon h.log
  cases hcall : ((s.setStore (s.bank b).varStore st).setBank b k).deviceUpdateStore P b 0
      (slice data 0 sizeofBankHeader) with
  | mk failed s1 =>
    have hbank : ((s.setStore (s.bank b).varStore st).setBank b k).bank b = k :=
      bank_setBank_self _ _ _
    have hdata : (((s.setStore (s.bank b).varStore st).setBank b k).bank b).data = data := by
      rw [hbank, hk]
    rw [← hdata] at hcall
    obtain ⟨hsound3, hcleared⟩ := hsound2.joinList (hon.inService.not.mpr hout1) (hc1.onBank hon)
      (by rw [hbank, hk]; exact hok) (by rw [hbank, hk]; exact ⟨rfl, rfl, rfl⟩)
      (by rw [hbank, hk]; exact hstate) hones hcall
    refine ⟨_, rfl, hsound3, hcleared.after haround ?_⟩
    change (((s.setStore (s.bank b).varStore st)).store (s.bank b).varStore).active.erase b = _
    rw [store_setStore_self, hactive]

/-- The part of `RtVarClearStore` behind the test of the bank's own error. -/
theorem Sound.clearDevice (h : s.Sound P g pend) (hout : ¬ s.InService pend b)
    (hc : s.Clearable pend b) (hok : (s.bank b).deviceError = false) :
    ∃ s', (let (failed, s) := s.deviceClearStore P b
        if failed then pure (s.bankFailed b) else s.initBank P b : Except Fault State) = .ok s' ∧
      s'.Sound P g pend ∧ Cleared b s s' := by
  have hnot : b ∉ (s.store (s.bank b).varStore).active := fun hb => hout (.inl ⟨_, hb⟩)
  cases hcall : s.deviceClearStore P b with
  | mk failed s1 =>
    obtain ⟨hon, hlog, herror, hones⟩ := deviceClearStore_cleared hcall
    have hsound := h.outside hout hon (by
      intro hg i hi
      rw [hlog] at hi
      obtain rfl | hi := List.mem_cons.mp hi
      · trivial
      · exact h.log hg i hi)
    cases failed with
    | true =>
      have hfailed : OnBank b s1 (s1.bankFailed b) := .setBank rfl rfl rfl fun _ => rfl
      refine ⟨_, rfl, hsound.outside (hon.inService.not.mpr hout) hfailed hsound.log,
        .of_failed (.of_onBank (hon.trans hfailed)) ?_ (by rw [bankFailed, bank_setBank_self])⟩
      rw [hfailed.store, hon.store, List.erase_of_not_mem hnot]
    | false =>
      obtain ⟨s', hs', hsound', hcleared⟩ := hsound.initBank (hon.inService.not.mpr hout)
        (hc.onBank hon) (by rw [herror]; exact hok) (by rw [hones rfl, List.length_replicate])
      exact ⟨s', hs', hsound', hcleared.after (.of_onBank hon) (by rw [hon.store])⟩

/-- `RtVarClearStore` returns. -/
theorem Sound.clearStore (h : s.Sound P g pend) (hc : s.Clearable pend b) :
    ∃ s', s.rtVarClearStore P b = .ok s' ∧ s'.Sound P g pend ∧ Cleared b s s' := by
  have hsound := h.unlink b
  have haround : Around b s (s.unlink b) := Around.setStore rfl rfl rfl rfl
  have hactive : ((s.unlink b).store (s.bank b).varStore).active =
      (s.store (s.bank b).varStore).active.erase b := by
    rw [State.unlink, store_setStore_self]
  have hnot : b ∉ ((s.unlink b).store (s.bank b).varStore).active := by
    rw [hactive]
    exact (h.nodup _).not_mem_erase
  have hout : ¬ (s.unlink b).InService pend b := by
    refine hsound.not_inService hnot ?_ hc.notPending
    rw [haround.tBank]
    exact hc.notTBank
  have hc1 : (s.unlink b).Clearable pend b := by
    refine ⟨hc.notPending, ?_, hc.numbered, hc.length, hc.header, hc.small⟩
    rw [haround.tBank]
    exact hc.notTBank
  have hafter : ∀ {s1 : State}, OnBank b (s.unlink b) s1 →
      (s1.store (s.bank b).varStore).active.erase b =
        (s.store (s.bank b).varStore).active.erase b := by
    intro s1 hon
    rw [hon.store, hactive, List.erase_of_not_mem (hactive ▸ hnot)]
  rw [rtVarClearStore]
  dsimp only
  by_cases herror : ((s.unlink b).bank b).deviceError = true
  · rw [if_pos herror]
    exact ⟨_, rfl, hsound, .of_failed haround hactive herror⟩
  · rw [if_neg herror]
    rw [Bool.not_eq_true] at herror
    by_cases hsignature : ((s.unlink b).bank b).header.signature = bankHeaderSignature
    · obtain ⟨s1, hs1, hsound1, hon⟩ := hsound.wipeHeader hout hc1.length hc1.header
      rw [if_pos hsignature, ← bind_assoc, hs1]
      simp only [bind, Except.bind]
      by_cases herror1 : (s1.bank b).deviceError = true
      · rw [if_pos herror1]
        refine ⟨_, rfl, hsound1, .of_failed (haround.trans (.of_onBank hon)) ?_ herror1⟩
        rw [hon.store, hactive]
      · rw [if_neg herror1]
        rw [Bool.not_eq_true] at herror1
        obtain ⟨s', hs', hsound', hcleared⟩ := hsound1.clearDevice
          (hon.inService.not.mpr hout) (hc1.onBank hon) herror1
        exact ⟨s', hs', hsound', hcleared.after (haround.trans (.of_onBank hon)) (hafter hon)⟩
    · rw [if_neg hsignature]
      simp only [bind, Except.bind, pure, Except.pure]
      rw [if_neg (by rw [herror]; exact Bool.false_ne_true)]
      obtain ⟨s', hs', hsound', hcleared⟩ := hsound.clearDevice hout hc1 herror
      exact ⟨s', hs', hsound', hcleared.after haround (hafter (.refl b _))⟩

end State

end EfiCore.Var
