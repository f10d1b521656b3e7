import EfiCore.Var.Discover

/-! # Adding a bank

A bank that `VarStoreAddBank` adds to a store holds anything until the pass over its records is
done, but so far it is on no list, or nobody looks at it.
-/

namespace EfiCore.Var

open EfiCore.Lib

namespace State

variable {P : Platform} {g : Regime} {s s' s1 s2 : State} {b : BankAddr}

/-! ## A bank that is not in service -/

/-- What is known of one bank only, that is not in service, differs. -/
theorem Sound.outsider {pend : List BankAddr} (h : s.Sound P g pend)
    (hout : ¬ s.InService pend b) (hstore : s1.store = s.store) (hnoBanks : s1.noBanks = s.noBanks)
    (hbank : ∀ b', b' ≠ b → s1.bank b' = s.bank b')
    (hflash : ∀ b', b' ≠ b → s1.flash b' = s.flash b')
    (hlength : (s1.flash b).length = (s.flash b).length)
    (hlog : g.erased → ∀ i ∈ s1.log, i.TurnsBitsOff) : s1.Sound P g pend := by
  have hne : ∀ b', s.InService pend b' → b' ≠ b := fun b' hb' heq => hout (heq ▸ hb')
  have hin : ∀ b', s1.InService pend b' → s.InService pend b' := by
    intro b' hb'
    rw [InService, hstore] at hb'
    exact hb'
  refine ⟨?_, fun t b' hb' => ?_, fun t b' hb' => ?_, fun b' hb' => ?_, fun b' hb' => ?_,
    fun b' hb' => ?_, fun b' => ?_, hlog⟩
  · rw [hstore]
    exact h.nodup
  · rw [hstore] at hb'
    rw [hbank b' (hne b' (.inl ⟨t, hb'⟩))]
    exact h.active t b' hb'
  · rw [hstore] at hb' ⊢
    rw [hbank b' (hne b' (.inr (.inl ⟨t, hb'⟩)))]
    exact h.tBank t b' hb'
  · rw [hbank b' (hne b' (.inr (.inr hb'))), hstore]
    exact h.pending b' hb'
  · rw [hbank b' (hne b' (hin b' hb')), hflash b' (hne b' (hin b' hb'))]
    exact h.kept b' (hin b' hb')
  · rw [hnoBanks]
    exact h.numbered b' (hin b' hb')
  · by_cases hb' : b' = b
    · rw [hb', hlength]
      exact h.size b
    · rw [hflash b' hb']
      exact h.size b'

/-- Between `s` and `s'` the bank `b` is added to the store `t`, or is not yet. -/
structure Joined (P : Platform) (g : Regime) (t : StoreType) (b : BankAddr) (s s' : State) :
    Prop where
  efiAtRuntime : s'.efiAtRuntime = s.efiAtRuntime
  noBanks : s'.noBanks = s.noBanks
  bank : ∀ b', b' ≠ b → s'.bank b' = s.bank b'
  flash : ∀ b', b' ≠ b → s'.flash b' = s.flash b'
  flashLength : (s'.flash b).length = (s.flash b).length
  varStore : (s'.bank b).varStore = t
  tSize : (s'.bank b).tSize = .bankSize
  length : (s'.bank b).data.length = (P.device b.device).bankSize
  log : g.erased → ∀ i ∈ s'.log, i.TurnsBitsOff
  store : ∀ t', t' ≠ t → s'.store t' = s.store t'
  tBankRequired : (s.store t).tBankRequired = true → (s'.store t).tBankRequired = true
  tBank : (s'.store t).tBank = (s.store t).tBank
  storeTSize : (s'.store t).tSize = (s.store t).tSize
  active : (s'.store t).active = (s.store t).active ∨
    (s'.store t).active = (s.store t).active ++ [b] ∨ (s'.store t).active = b :: (s.store t).active

namespace Joined

variable {t : StoreType}

theorem newBank (P : Platform) (t : StoreType) (b : BankAddr)
    (hlog : g.erased → ∀ i ∈ s.log, i.TurnsBitsOff) : Joined P g t b s (s.newBank P t b) where
  efiAtRuntime := rfl
  noBanks := rfl
  bank b' hb' := bank_setBank_of_ne _ hb' _
  flash _ _ := rfl
  flashLength := rfl
  varStore := by rw [State.newBank, bank_setBank_self]
  tSize := by rw [State.newBank, bank_setBank_self]
  length := by
    rw [State.newBank, bank_setBank_self]
    exact List.length_mapIdx.trans List.length_replicate
  log := hlog
  store _ _ := rfl
  tBankRequired h := h
  tBank := rfl
  storeTSize := rfl
  active := .inl rfl

theorem onBank (h : Joined P g t b s s1) (hon : OnBank b s1 s2)
    (hlog : g.erased → ∀ i ∈ s2.log, i.TurnsBitsOff) : Joined P g t b s s2 where
  efiAtRuntime := hon.efiAtRuntime.trans h.efiAtRuntime
  noBanks := hon.noBanks.trans h.noBanks
  bank b' hb' := (hon.bank b' hb').trans (h.bank b' hb')
  flash b' hb' := (hon.flash b' hb').trans (h.flash b' hb')
  flashLength := hon.flashLength.trans h.flashLength
  varStore := hon.varStore.trans h.varStore
  tSize := hon.tSize.trans h.tSize
  length := hon.length.trans h.length
  log := hlog
  store t' ht' := by
    rw [hon.store]
    exact h.store t' ht'
  tBankRequired hrequired := by
    rw [hon.store]
    exact h.tBankRequired hrequired
  tBank := by
    rw [hon.store]
    exact h.tBank
  storeTSize := by
    rw [hon.store]
    exact h.storeTSize
  active := by
    rw [hon.store]
    exact h.active

theorem reads (h : Joined P g t b s s1) (hreads : Reads b s1 s2) : Joined P g t b s s2 :=
  h.onBank hreads.on (hreads.log ▸ h.log)

/-- The store gets another list or sequence number. -/
theorem setStore (h : Joined P g t b s s1) {st : VariableStore}
    (hrequired : (s1.store t).tBankRequired = true → st.tBankRequired = true)
    (htBank : st.tBank = (s1.store t).tBank) (htSize : st.tSize = (s1.store t).tSize)
    (hactive : st.active = (s.store t).active ∨ st.active = (s.store t).active ++ [b] ∨
      st.active = b :: (s.store t).active) : Joined P g t b s (s1.setStore t st) where
  efiAtRuntime := h.efiAtRuntime
  noBanks := h.noBanks
  bank := h.bank
  flash := h.flash
  flashLength := h.flashLength
  varStore := h.varStore
  tSize := h.tSize
  length := h.length
  log := h.log
  store t' ht' := (store_setStore_of_ne s1 ht' st).trans (h.store t' ht')
  tBankRequired h' := by
    rw [store_setStore_self]
    exact hrequired (h.tBankRequired h')
  tBank := by rw [store_setStore_self, htBank, h.tBank]
  storeTSize := by rw [store_setStore_self, htSize, h.storeTSize]
  active := by
    rw [store_setStore_self]
    exact hactive

theorem erase (h : Joined P g t b s s1) (hnot : b ∉ (s.store t).active) :
    (s1.store t).active.erase b = (s.store t).active := by
  obtain hactive | hactive | hactive := h.active
  · rw [hactive, List.erase_of_not_mem hnot]
  · rw [hactive, List.erase_append_right _ hnot, List.erase_cons_head, List.append_nil]
  · rw [hactive, List.erase_cons_head]

theorem unlink_eq (h : Joined P g t b s s1) (hnot : b ∉ (s.store t).active) :
    s1.unlink b = s1.setStore t { s1.store t with active := (s.store t).active } := by
  rw [State.unlink, h.varStore, h.erase hnot]

theorem unlink (h : Joined P g t b s s1) (hnot : b ∉ (s.store t).active) :
    Joined P g t b s (s1.unlink b) := by
  rw [h.unlink_eq hnot]
  exact h.setStore (fun h => h) rfl rfl (.inl rfl)

theorem store_eq (h : Joined P g t b s s1) (st : VariableStore) :
    Function.update s1.store t st = Function.update s.store t st := by
  funext t'
  by_cases ht' : t' = t
  · rw [ht', Function.update_self, Function.update_self]
  · rw [Function.update_of_ne ht', Function.update_of_ne ht', h.store t' ht']

/-- As long as the bank is off the list, it may hold anything. -/
theorem sound_unlink (h : Joined P g t b s s1) (hs : s.Sound P g []) (hout : ¬ s.InService [] b) :
    (s1.unlink b).Sound P g [] := by
  have hnot : b ∉ (s.store t).active := fun hb => hout (.inl ⟨t, hb⟩)
  have hbase : ({ s1 with store := s.store } : State).Sound P g [] :=
    hs.outsider hout rfl h.noBanks h.bank h.flash h.flashLength h.log
  have hlists : (({ s1 with store := s.store } : State).setStore t
      { s1.store t with active := (s.store t).active }).Sound P g [] :=
    hbase.sameLists rfl h.tBank
  rw [h.unlink_eq hnot]
  have heq : s1.setStore t { s1.store t with active := (s.store t).active } =
      ({ s1 with store := s.store } : State).setStore t
        { s1.store t with active := (s.store t).active } := by
    rw [State.setStore, State.setStore, h.store_eq]
  rw [heq]
  exact hlists

/-- A bank that is kept may be on the list. -/
theorem sound (h : Joined P g t b s s1) (hs : s.Sound P g []) (hout : ¬ s.InService [] b)
    (hnumber : b.bankNo < s.noBanks b.device) (hkept : (s1.bank b).Kept g (s1.flash b)) :
    s1.Sound P g [] := by
  have hnot : b ∉ (s.store t).active := fun hb => hout (.inl ⟨t, hb⟩)
  have htBank : (s.store t).tBank ≠ some b := fun hb => hout (.inr (.inl ⟨t, hb⟩))
  have hunlink := h.unlink_eq hnot
  have hstore : ((s1.unlink b).store t) = { s1.store t with active := (s.store t).active } := by
    rw [hunlink, store_setStore_self]
  have hpend : (s1.unlink b).Sound P g [b] := by
    refine (h.sound_unlink hs hout).addPending hkept ?_ ?_
    · change b.bankNo < s1.noBanks b.device
      rw [h.noBanks]
      exact hnumber
    · change b ∉ ((s1.unlink b).store (s1.bank b).varStore).active ∧
        ((s1.unlink b).store (s1.bank b).varStore).tBank ≠ some b
      rw [h.varStore, hstore]
      dsimp only
      rw [h.tBank]
      exact ⟨hnot, htBank⟩
  have hback : s1 = (s1.unlink b).setStore t (s1.store t) := by
    rw [hunlink, State.setStore, State.setStore]
    dsimp only
    rw [Function.update_idem, Function.update_eq_self]
  have hnodup := hs.nodup t
  have hmem : ∀ b', b' ∈ (s1.store t).active → b' ∈ (s.store t).active ∨ b' = b := by
    intro b' hb'
    obtain hactive | hactive | hactive := h.active
    · exact .inl (hactive ▸ hb')
    · rw [hactive] at hb'
      exact (List.mem_append.mp hb').imp id List.mem_singleton.mp
    · rw [hactive] at hb'
      exact (List.mem_cons.mp hb').symm
  rw [hback]
  refine hpend.setStore ?_ (fun b' hb' => ?_) (fun b' hb' => ?_)
    fun _ hb' => absurd hb' List.not_mem_nil
  · obtain hactive | hactive | hactive := h.active
    · rw [hactive]
      exact hnodup
    · rw [hactive]
      exact List.nodup_append.mpr ⟨hnodup, List.nodup_singleton b, fun x hx y hy heq =>
        hnot (List.mem_singleton.mp hy ▸ heq ▸ hx)⟩
    · rw [hactive]
      exact List.nodup_cons.mpr ⟨hnot, hnodup⟩
  · rw [hstore]
    obtain hb' | rfl := hmem b' hb'
    · exact .inl hb'
    · exact .inr ⟨List.mem_cons_self, h.varStore⟩
  · rw [hstore]
    refine ⟨fun hb => ?_, .inl hb'⟩
    rw [h.tBank] at hb'
    obtain hb | rfl := hmem b' hb
    · exact (hs.tBank t b' hb').2 hb
    · exact htBank hb'

/-- `RtVarClearStore` takes the bank off the list itself. -/
theorem clearStore_unlink (h : Joined P g t b s s1) (hnot : b ∉ (s.store t).active) :
    s1.rtVarClearStore P b = (s1.unlink b).rtVarClearStore P b := by
  have htwice : (s1.unlink b).unlink b = s1.unlink b := by
    rw [(h.unlink hnot).unlink_eq hnot, h.unlink_eq hnot, State.setStore, State.setStore]
    simp only [Function.update_idem, Function.update_self]
  rw [rtVarClearStore, rtVarClearStore, htwice]

/-- The bank has failed, or is empty and at the end of the list. -/
def Emptied (P : Platform) (g : Regime) (t : StoreType) (b : BankAddr) (s s' : State) : Prop :=
  (s'.bank b).deviceError = true ∨
    (s'.Sound P g [] ∧ (s'.store t).active = (s.store t).active ++ [b] ∧
      (s'.bank b).tail = firstVariableOffset ∧ (s'.bank b).inUse = firstVariableOffset ∧
      (s'.bank b).state = 0 ∧
      ∀ i, firstVariableOffset ≤ i → i < (s'.flash b).length → (s'.flash b).getD i 0 = 0xFF)

theorem clearStore (h : Joined P g t b s s1) (hs : s.Sound P g []) (hout : ¬ s.InService [] b)
    (hnumber : b.bankNo < s.noBanks b.device)
    (hheader : firstVariableOffset ≤ (s1.bank b).data.length) :
    ∃ s', s1.rtVarClearStore P b = .ok s' ∧ Joined P g t b s s' ∧ Emptied P g t b s s' := by
  have hnot : b ∉ (s.store t).active := fun hb => hout (.inl ⟨t, hb⟩)
  have htBank : (s.store t).tBank ≠ some b := fun hb => hout (.inr (.inl ⟨t, hb⟩))
  have hsound := h.sound_unlink hs hout
  have hu := h.unlink hnot
  have hlist : ((s1.unlink b).store t).active = (s.store t).active := by
    rw [h.unlink_eq hnot, store_setStore_self]
  have hclearable : (s1.unlink b).Clearable [] b := by
    refine ⟨List.not_mem_nil, ?_, ?_, ?_, hheader, ?_⟩
    · rw [hu.varStore, hu.tBank]
      exact htBank
    · rw [hu.noBanks]
      exact hnumber
    · rw [hu.flashLength, hu.length]
      exact hs.size b
    · rw [hu.length]
      exact (P.device b.device).bankSize_lt
  obtain ⟨s', hs', hsound', hcleared⟩ := hsound.clearStore hclearable
  have haround := hcleared.around
  have houtcome := hcleared.outcome
  rw [hu.varStore, hlist, List.erase_of_not_mem hnot] at houtcome
  rw [h.clearStore_unlink hnot]
  refine ⟨s', hs', ?_, ?_⟩
  · refine ⟨haround.efiAtRuntime.trans hu.efiAtRuntime, haround.noBanks.trans hu.noBanks,
      fun b' hb' => (haround.bank b' hb').trans (hu.bank b' hb'),
      fun b' hb' => (haround.flash b' hb').trans (hu.flash b' hb'),
      haround.flashLength.trans hu.flashLength, haround.varStore.trans hu.varStore,
      haround.tSize.trans hu.tSize, haround.length.trans hu.length, hsound'.log,
      fun t' ht' => ?_, fun hrequired => (haround.tBankRequired t).trans (hu.tBankRequired hrequired),
      (haround.tBank t).trans hu.tBank, (haround.storeTSize t).trans hu.storeTSize, ?_⟩
    · rw [haround.store t' (by rwa [hu.varStore]), hu.store t' ht']
    · obtain ⟨-, hactive⟩ | ⟨-, hactive, -⟩ := houtcome
      · exact .inl hactive
      · exact .inr (.inl hactive)
  · obtain ⟨hfailed, -⟩ | ⟨-, hactive, htail, hinUse, hstate, hones⟩ := houtcome
    · exact .inl hfailed
    · exact .inr ⟨hsound', hactive, htail, hinUse, hstate, hones⟩

end Joined

/-! ## The pass over its records -/

/-- A content without records. -/
theorem stored_blank {f : List Byte} (g : Regime) (hsize : firstVariableOffset ≤ f.length)
    (hones : ∀ i, firstVariableOffset ≤ i → i < f.length → f.getD i 0 = 0xFF) :
    Stored g f (f.take firstVariableOffset) [] (f.drop firstVariableOffset) := by
  have hbytes : ∀ byte ∈ f.drop firstVariableOffset, byte = 0xFF := by
    intro byte hbyte
    obtain ⟨i, hi, rfl⟩ := List.mem_iff_getElem.mp hbyte
    rw [List.length_drop] at hi
    have hat := hones (firstVariableOffset + i) (by omega) (by omega)
    rw [List.getD_eq_getElem?_getD, List.getElem?_eq_getElem (by omega), Option.getD_some] at hat
    rw [List.getElem_drop]
    exact hat
  refine ⟨?_, List.length_take_of_le hsize, nofun, nofun, ?_, fun _ _ => hbytes⟩
  · rw [List.flatten_nil, List.append_nil, List.take_append_drop]
  · generalize f.drop firstVariableOffset = rest at hbytes
    match rest, hbytes with
    | [], _ => exact .inl (Nat.le_of_ble_eq_true rfl)
    | [_], _ => exact .inl (Nat.le_of_ble_eq_true rfl)
    | low :: high :: rest, hbytes =>
      obtain rfl := hbytes low (by simp)
      obtain rfl := hbytes high (by simp)
      have hmark : leNat [0xFF, 0xFF] = 0xFFFF := by decide
      exact .inr (.inl hmark)

/-- What is known of a bank before the pass over its records. -/
inductive Opened (A : Arch) (g : Regime) (t : StoreType) (b : BankAddr) (s s' : State) : Prop
  | failed (h : (s'.bank b).deviceError = true)
  /-- The header of the bank has been read, or written. -/
  | records {hdrM hdr rest restM : List Byte} {cs : List Record} (hmemory : hdrM.length = 8)
      (hdata : (s'.bank b).data = hdrM ++ restM) (hstored : Stored g (s'.flash b) hdr cs rest)
      (hbelow : g.erased →
        ∀ i, i < firstVariableOffset → BitsOff (hdrM.getD i 0) ((s'.flash b).getD i 0))
      (hstate : g.erased → hdrM.getD 7 0 = (s'.bank b).state ^^^ 0xFF)
      (hlist : (s'.store t).active = (s.store t).active ++ [b] ∨
        (s'.store t).active = b :: (s.store t).active)
      (hblank : interesting (s.flash b) = false → cs = [])
  | refused (h : Refused A (s'.flash b)) (hinteresting : interesting (s.flash b) = true)

/-- What is known of it after the pass, that has come to `tail`. -/
def Closed (g : Regime) (t : StoreType) (b : BankAddr) (s s' : State)
    (tail : Nat) : Prop :=
  (s'.bank b).deviceError = true ∨
    (({ s'.bank b with tail } : Bank).Kept g (s'.flash b) ∧
      ((s'.store t).active = (s.store t).active ++ [b] ∨
        (s'.store t).active = b :: (s.store t).active) ∧
      (interesting (s.flash b) = false → (s'.bank b).inUse = firstVariableOffset ∧
        (tail = firstVariableOffset ∨ (s'.bank b).data.length < 32)))

theorem Joined.finds {t : StoreType} (h : Joined P g t b s s1) (hs : s.Sound P g [])
    (hout : ¬ s.InService [] b) (hnumber : b.bankNo < s.noBanks b.device)
    (hopened : Opened P.arch g t b s s1) (fuel : Nat) :
    Ensures (findTail P b fuel firstVariableOffset
      (s1.setBank b { s1.bank b with
        inUse := firstVariableOffset, tail := (s1.bank b).bankSize })) fun r =>
      Joined P g t b s r.2 ∧ Closed g t b s r.2 r.1 := by
  have hprepare : Reads b s1 (s1.setBank b { s1.bank b with
      inUse := firstVariableOffset, tail := (s1.bank b).bankSize }) :=
    ⟨.setBank rfl rfl rfl, rfl, rfl⟩
  have hj := h.reads hprepare
  have hbank : (s1.setBank b { s1.bank b with
      inUse := firstVariableOffset, tail := (s1.bank b).bankSize }).bank b =
        { s1.bank b with inUse := firstVariableOffset, tail := (s1.bank b).bankSize } :=
    bank_setBank_self ..
  generalize hs2 : s1.setBank b { s1.bank b with
      inUse := firstVariableOffset, tail := (s1.bank b).bankSize } = s2 at hprepare hj hbank
  have hflash : s2.flash = s1.flash := hprepare.flash
  have hlength : (s2.flash b).length = (s2.bank b).data.length := by
    rw [hj.flashLength, hj.length]
    exact hs.size b
  have hsmall : (s2.flash b).length < 2 ^ 32 := by
    rw [hlength, hj.length]
    exact (P.device b.device).bankSize_lt
  cases hopened with
  | failed hfailed =>
    refine (findTail_failed P b fuel _ s2 (hprepare.on.failed hfailed)).mono fun r hr => ?_
    exact ⟨hj.reads hr.1, .inl hr.2⟩
  | @records hdrM hdr rest restM cs hmemory hdata hstored hbelow hstate hlist hblank =>
    have hscanned : Scanned (s2.flash b) hdrM b [] s2 := by
      refine ⟨hmemory, rfl, hlength.symm, ?_, [], restM, ?_, .nil, ?_⟩
      · rw [hbank]
        rfl
      · rw [hbank, List.flatten_nil, List.append_nil]
        exact hdata
      · rw [hbank]
        rfl
    rw [← hflash] at hstored hbelow
    have hall : Stored g (s2.flash b) hdr ([] ++ cs) rest := hstored
    refine (findTail_scans hall hsmall fuel hscanned).mono fun r hr => ?_
    obtain ⟨hreads, hr⟩ := hr
    have hjr := hj.reads hreads
    refine ⟨hjr, hr.imp id fun hfound => ?_⟩
    obtain ⟨hsame, hfound⟩ := hfound
    rw [hbank] at hsame
    rw [hreads.flash]
    refine ⟨hfound.kept hstored hsmall hbelow fun hg => (hstate hg).trans (by rw [hsame]), ?_,
      fun huninteresting => ?_⟩
    · have hstore : r.2.store = s1.store := hreads.on.store.trans hprepare.on.store
      rw [hstore]
      exact hlist
    · obtain rfl := hblank huninteresting
      obtain ⟨copies, restM', -, hcopies, hinUse⟩ := hfound.copies
      cases hcopies
      refine ⟨hinUse, ?_⟩
      obtain ⟨htail, -⟩ | ⟨-, hshort⟩ := hfound.tail
      · exact .inl htail
      · have htotal := hstored.length_eq
        have hlen := hfound.length
        have hend : recordsEnd [] = 8 := rfl
        have hmark : sizeofVariable + 1 + 2 + 1 = 24 := rfl
        refine .inr ?_
        omega
  | refused hrefused hinteresting =>
    rw [← hflash] at hrefused
    obtain ⟨hroom, ⟨hmarker, hzero⟩, hrefused⟩ := hrefused
    have htwenty : sizeofVariable = 20 := rfl
    have height : firstVariableOffset = 8 := rfl
    have hsize : (s2.bank b).bankSize = (s2.flash b).length := hlength.symm
    cases fuel with
    | zero => exact Ensures.error
    | succ fuel =>
      rw [findTail]
      dsimp only
      rw [if_neg (by omega), if_neg (by omega)]
      refine Ensures.bind (rtVarReadStore_loaded P s2 b _ sizeofVariable) fun s3 h3 => ?_
      have hj3 := hj.reads h3.reads
      refine Ensures.ite (fun herror => Ensures.pure ⟨hj3, .inl herror⟩) fun hok => ?_
      rw [h3.size hlength.symm hok]
      simp only [bind, Except.bind]
      rw [if_neg (by simp [hmarker, hzero]), hsize, if_pos (by
        simp only [Bool.or_eq_true, decide_eq_true_eq]
        exact hrefused)]
      -- the bank is cleared, and its header written once more
      obtain ⟨s4, hs4, hj4, hemptied⟩ := hj3.clearStore hs hout hnumber (by
        rw [hj3.length, ← hj.length]
        omega)
      rw [hs4]
      dsimp only
      obtain hfailed | ⟨hsound4, hlist, htail, hinUse, -, -⟩ := hemptied
      · rw [rtVarUpdateStore, if_pos hfailed]
        exact Ensures.ok ⟨hj4, .inl hfailed⟩
      · have hin : s4.InService [] b := by
          refine .inl ⟨t, ?_⟩
          rw [hlist]
          exact List.mem_append_right _ List.mem_cons_self
        obtain ⟨s5, hs5, hsound5, hsame⟩ := hsound4.flush hin (by
          intro _ _ i hi hlt
          omega)
        rw [hs5]
        have hj5 := hj4.onBank hsame.on hsound5.log
        refine Ensures.ok ⟨hj5, .inr ⟨?_, .inl ?_, fun huninteresting => ?_⟩⟩
        · have hkept := hsound5.kept b (hsame.on.inService.mpr hin)
          have htail5 : (s5.bank b).tail = firstVariableOffset := hsame.tail.trans htail
          have heq : ({ s5.bank b with tail := firstVariableOffset } : Bank) = s5.bank b := by
            rw [← htail5]
          rw [heq]
          exact hkept
        · rw [hsame.on.store]
          exact hlist
        · rw [hinteresting] at huninteresting
          cases huninteresting

/-! ## The bank in the store -/

theorem Joined.ready {t : StoreType} (h : Joined P g t b s s1) (hs : s.Ready P g)
    (hout : ¬ s.InService [] b) (hsound : s1.Sound P g [])
    (hrequired : b ∈ (s1.store t).active → (P.device b.device).transactionUpdate = false →
      (s1.store t).tBankRequired = true) : s1.Ready P g := by
  have htBank : ∀ t', (s1.store t').tBank = (s.store t').tBank := by
    intro t'
    by_cases ht' : t' = t
    · rw [ht', h.tBank]
    · rw [h.store t' ht']
  have hne : ∀ t' b', (s.store t').tBank = some b' → b' ≠ b := by
    rintro t' b' hb' rfl
    exact hout (.inr (.inl ⟨t', hb'⟩))
  refine ⟨hsound, fun t' b' hb' => ?_, fun t' => ?_, fun t' b' hb' hd => ?_, hs.inPlace⟩
  · rw [htBank] at hb'
    rw [h.bank b' (hne t' b' hb')]
    exact hs.empty t' b' hb'
  · have hsize : (s1.store t').tSize = (s.store t').tSize := by
      by_cases ht' : t' = t
      · rw [ht', h.storeTSize]
      · rw [h.store t' ht']
    rw [hsize, htBank, hs.tSize t']
    cases hb' : (s.store t').tBank with
    | none => rfl
    | some b' =>
      dsimp only
      rw [h.bank b' (hne t' b' hb')]
  · by_cases ht' : t' = t
    · subst ht'
      by_cases hbb : b' = b
      · subst hbb
        exact hrequired hb' hd
      · apply h.tBankRequired
        refine hs.required t' b' ?_ hd
        obtain hactive | hactive | hactive := h.active
        · exact hactive ▸ hb'
        · rw [hactive] at hb'
          exact (List.mem_append.mp hb').elim id fun hb' => absurd (List.mem_singleton.mp hb') hbb
        · rw [hactive] at hb'
          exact (List.mem_cons.mp hb').resolve_left hbb
    · rw [h.store t' ht'] at hb' ⊢
      exact hs.required t' b' hb' hd

/-- The bank `b` was added to the store `t`, or has failed. -/
structure Added (P : Platform) (g : Regime) (t : StoreType) (b : BankAddr) (s s' : State) : Prop
    extends Joined P g t b s s' where
  listed : b ∈ (s'.store t).active → interesting (s.flash b) = false →
    (s'.bank b).inUse = firstVariableOffset ∧
      ((s'.bank b).tail = firstVariableOffset ∨ (s'.bank b).data.length < 32)

theorem Joined.close {t : StoreType} {tail : Nat} (h : Joined P g t b s s1) (hs : s.Ready P g)
    (hout : ¬ s.InService [] b) (hnumber : b.bankNo < s.noBanks b.device)
    (hclosed : Closed g t b s s1 tail) :
    let s2 := s1.setBank b { s1.bank b with tail }
    let s' := if (s2.bank b).deviceError then s2.rtVarBankError b
      else if (P.device b.device).transactionUpdate then s2
      else s2.setStore t { s2.store t with tBankRequired := true }
    s'.Ready P g ∧ Added P g t b s s' := by
  have hnot : b ∉ (s.store t).active := fun hb => hout (.inl ⟨t, hb⟩)
  have hbank : (s1.setBank b { s1.bank b with tail }).bank b = { s1.bank b with tail } :=
    bank_setBank_self ..
  have h2 : Joined P g t b s (s1.setBank b { s1.bank b with tail }) :=
    h.reads ⟨.setBank rfl rfl rfl, rfl, rfl⟩
  have hflash : (s1.setBank b { s1.bank b with tail }).flash = s1.flash := rfl
  have hstore : (s1.setBank b { s1.bank b with tail }).store = s1.store := rfl
  dsimp only
  generalize s1.setBank b { s1.bank b with tail } = s2 at hbank h2 hflash hstore
  obtain hfailed | ⟨hkept, hlist, hblank⟩ := hclosed
  · have hfailed2 : (s2.bank b).deviceError = true := by
      rw [hbank]
      exact hfailed
    have hu := h2.unlink hnot
    have hoff : b ∉ ((s2.unlink b).store t).active := by
      rw [h2.unlink_eq hnot, store_setStore_self]
      exact hnot
    rw [if_pos hfailed2, rtVarBankError]
    exact ⟨hu.ready hs hout (h2.sound_unlink hs.sound hout) fun hb => absurd hb hoff,
      hu, fun hb => absurd hb hoff⟩
  · by_cases hfailed : (s2.bank b).deviceError = true
    · have hu := h2.unlink hnot
      have hoff : b ∉ ((s2.unlink b).store t).active := by
        rw [h2.unlink_eq hnot, store_setStore_self]
        exact hnot
      rw [if_pos hfailed, rtVarBankError]
      exact ⟨hu.ready hs hout (h2.sound_unlink hs.sound hout) fun hb => absurd hb hoff,
        hu, fun hb => absurd hb hoff⟩
    · rw [if_neg hfailed]
      have hsound2 := h2.sound hs.sound hout hnumber (by
        rw [hbank, hflash]
        exact hkept)
      have hlisted : b ∈ (s2.store t).active → interesting (s.flash b) = false →
          (s2.bank b).inUse = firstVariableOffset ∧
            ((s2.bank b).tail = firstVariableOffset ∨ (s2.bank b).data.length < 32) := by
        intro _ huninteresting
        rw [hbank]
        exact hblank huninteresting
      split
      · rename_i htransaction
        refine ⟨h2.ready hs hout hsound2 fun _ hd => ?_, h2, hlisted⟩
        rw [htransaction] at hd
        cases hd
      · have h3 : Joined P g t b s (s2.setStore t { s2.store t with tBankRequired := true }) :=
          h2.setStore (fun _ => rfl) rfl rfl h2.active
        refine ⟨h3.ready hs hout (hsound2.sameLists rfl rfl) fun _ _ => ?_, h3, fun hb => ?_⟩
        · rw [store_setStore_self]
        · rw [store_setStore_self] at hb
          exact hlisted hb

/-- The rest of `VarStoreAddBank`, once the bank is open. -/
theorem Joined.complete {t : StoreType} (hj : Joined P g t b s s1) (h : s.Ready P g)
    (hout : ¬ s.InService [] b) (hnumber : b.bankNo < s.noBanks b.device)
    (hopened : Opened P.arch g t b s s1) :
    Ensures (do
      let s := s1.setBank b
        { s1.bank b with inUse := firstVariableOffset, tail := (s1.bank b).bankSize }
      let (tail, s) ← s.findTail P b ((s.bank b).bankSize + 1) firstVariableOffset
      let s := s.setBank b { s.bank b with tail }
      if (s.bank b).deviceError then return (.success, s.rtVarBankError b)
      let s := if (P.device b.device).transactionUpdate then s
        else s.setStore t { s.store t with tBankRequired := true }
      return (.success, s) : Except Fault (Status × State)) fun r =>
        r.2.Ready P g ∧ r.1.isError = false ∧ Added P g t b s r.2 := by
  refine Ensures.bind (hj.finds h.sound hout hnumber hopened _) fun r hr => ?_
  obtain ⟨hj2, hclosed⟩ := hr
  have hlast := hj2.close h hout hnumber hclosed
  dsimp only at hlast ⊢
  split at hlast
  · rename_i hfailed
    rw [if_pos hfailed]
    exact Ensures.pure ⟨hlast.1, rfl, hlast.2⟩
  · rename_i hok
    rw [if_neg hok]
    exact Ensures.pure ⟨hlast.1, rfl, hlast.2⟩

theorem Joined.insertBank {t : StoreType} (h : Joined P g t b s s1)
    (hactive : (s1.store t).active = (s.store t).active) :
    Joined P g t b s (s1.insertBank b) ∧
      (((s1.insertBank b).store t).active = (s.store t).active ++ [b] ∨
        ((s1.insertBank b).store t).active = b :: (s.store t).active) := by
  have htail : Joined P g t b s (s1.insertTail b) := by
    rw [State.insertTail, h.varStore]
    exact h.setStore (fun h => h) rfl rfl (.inr (.inl (congrArg (· ++ [b]) hactive)))
  have hlist : ((s1.insertTail b).store t).active = (s.store t).active ++ [b] := by
    rw [State.insertTail, h.varStore, store_setStore_self, hactive]
  rw [State.insertBank, h.varStore]
  dsimp only
  split
  · refine ⟨htail.setStore (fun h => h) rfl rfl (.inr (.inl hlist)), .inl ?_⟩
    rw [store_setStore_self]
    exact hlist
  · have hhead : (s1.insertHead b) =
        s1.setStore t { s1.store t with active := b :: (s1.store t).active } := by
      rw [State.insertHead, h.varStore]
    rw [hhead]
    refine ⟨h.setStore (fun h => h) rfl rfl (.inr (.inr (congrArg (b :: ·) hactive))), .inr ?_⟩
    rw [store_setStore_self, hactive]

/-- The header that was read is that of the content. -/
theorem interesting_of_read {k : Bank} {f : List Byte}
    (hread : slice k.data 0 firstVariableOffset = slice f 0 firstVariableOffset)
    (hstate : k.state = k.header.state ^^^ 0xFF) :
    interesting f = !Bank.uninteresting k := by
  have hslice : ∀ {off n : Nat}, off + n ≤ firstVariableOffset →
      slice k.data off n = slice f off n := by
    intro off n hin
    rw [← Nat.zero_add off, ← slice_slice k.data hin, ← slice_slice f hin, hread]
  have hbyte : ∀ {i : Nat}, i < firstVariableOffset → k.data.getD i 0 = f.getD i 0 := by
    intro i hi
    rw [← Nat.zero_add i, ← getD_slice hi, ← getD_slice hi, hread]
  have hheader : k.header = bankHeader f := by
    rw [Bank.header, bankHeader, hslice (by decide), hslice (by decide), hbyte (by decide),
      hbyte (by decide)]
  rw [interesting, Bank.uninteresting, hstate, hheader]
  simp only [Bool.not_or, decide_not, Bool.not_not]

/-- The environment has answered, or has given devices more banks. -/
structure Asked (s s' : State) : Prop where
  efiAtRuntime : s'.efiAtRuntime = s.efiAtRuntime
  store : s'.store = s.store
  bank : s'.bank = s.bank
  flash : s'.flash = s.flash
  log : s'.log = s.log
  noBanks : ∀ device, s.noBanks device ≤ s'.noBanks device
  bounded : ∀ device, s'.noBanks device = s.noBanks device ∨ s.noBanks device < 2 ^ 32

namespace Asked

theorem refl (s : State) : Asked s s :=
  ⟨rfl, rfl, rfl, rfl, rfl, fun _ => Nat.le_refl _, fun _ => .inl rfl⟩

theorem trans (h : Asked s s1) (h' : Asked s1 s2) : Asked s s2 :=
  ⟨h'.efiAtRuntime.trans h.efiAtRuntime, h'.store.trans h.store, h'.bank.trans h.bank,
    h'.flash.trans h.flash, h'.log.trans h.log, fun d => (h.noBanks d).trans (h'.noBanks d),
    fun d => (h'.bounded d).elim (fun heq => (h.bounded d).imp heq.trans id) fun hlt =>
      .inr (Nat.lt_of_le_of_lt (h.noBanks d) hlt)⟩

theorem answered (s : State) : Asked s s.answered :=
  ⟨rfl, rfl, rfl, rfl, rfl, fun _ => Nat.le_refl _, fun _ => .inl rfl⟩

theorem sizeStore (P : Platform) (s : State) {device n : Nat} (hle : s.noBanks device ≤ n) :
    Asked s (s.deviceSizeStore P device n) := by
  rw [deviceSizeStore]
  split
  · exact answered s
  · rename_i hgrows
    simp only [Bool.or_eq_true, decide_eq_true_eq, not_or, Nat.not_le] at hgrows
    refine ⟨rfl, rfl, rfl, rfl, rfl, fun d => ?_, fun d => ?_⟩
    · change s.noBanks d ≤ Function.update s.noBanks device n d
      by_cases hd : d = device
      · rw [hd, Function.update_self]
        exact hle
      · rw [Function.update_of_ne hd]
    · change Function.update s.noBanks device n d = s.noBanks d ∨ _
      by_cases hd : d = device
      · exact .inr (hd ▸ Nat.lt_of_le_of_lt hle hgrows.2)
      · exact .inl (Function.update_of_ne hd ..)

theorem sound {pend : List BankAddr} (h : Asked s s1) (hs : s.Sound P g pend) :
    s1.Sound P g pend := by
  have hin : ∀ b, s1.InService pend b → s.InService pend b := by
    intro b hb
    rw [InService, h.store] at hb
    exact hb
  refine ⟨?_, ?_, ?_, ?_, fun b hb => ?_, fun b hb => ?_, ?_, ?_⟩
  · rw [h.store]
    exact hs.nodup
  · rw [h.store, h.bank]
    exact hs.active
  · rw [h.store, h.bank]
    exact hs.tBank
  · rw [h.store, h.bank]
    exact hs.pending
  · rw [h.bank, h.flash]
    exact hs.kept b (hin b hb)
  · exact Nat.lt_of_lt_of_le (hs.numbered b (hin b hb)) (h.noBanks b.device)
  · rw [h.flash]
    exact hs.size
  · rw [h.log]
    exact hs.log

theorem ready (h : Asked s s1) (hs : s.Ready P g) : s1.Ready P g := by
  refine ⟨h.sound hs.sound, ?_, ?_, ?_, hs.inPlace⟩
  · rw [h.store, h.bank]
    exact hs.empty
  · rw [h.store, h.bank]
    exact hs.tSize
  · rw [h.store]
    exact hs.required

end Asked

theorem Ready.addBank (h : s.Ready P g) (t : StoreType) (hout : ¬ s.InService [] b)
    (hnumber : b.bankNo < s.noBanks b.device) (hclean : Clean P.arch g (s.flash b)) :
    Ensures (s.varStoreAddBank P t b) fun r => r.2.Ready P g ∧
      ((r.1.isError = true ∧ r.2 = s.answered) ∨
        (r.1.isError = false ∧ Added P g t b s r.2)) := by
  rw [varStoreAddBank]
  refine Ensures.ite (fun _ => Ensures.ok ⟨(Asked.answered s).ready h, .inl ⟨rfl, rfl⟩⟩) fun _ => ?_
  refine Ensures.bind (rtVarReadStore_loaded P (s.newBank P t b) b 0 sizeofBankHeader)
    fun s1 h1 => ?_
  have hj1 := (Joined.newBank P t b h.sound.log).reads h1.reads
  have hheader : firstVariableOffset ≤ (s1.bank b).data.length := by
    have hfits := h1.fits
    rw [← h1.on.length] at hfits
    rwa [Nat.zero_add] at hfits
  have hflash1 : s1.flash = s.flash := h1.flash
  have hlength : (s.flash b).length = (s1.bank b).data.length := by
    rw [hj1.length]
    exact h.sound.size b
  -- the header of a bank that has not failed is that of its content
  have hread : (s1.bank b).deviceError = true ∨
      slice (s1.bank b).data 0 firstVariableOffset = slice (s.flash b) 0 firstVariableOffset := by
    refine h1.outcome.imp id fun hbank => ?_
    have hbytes : (slice (s.flash b) 0 sizeofBankHeader).length = sizeofBankHeader :=
      length_slice (by rw [hlength]; exact hheader)
    have hroom : 0 + (slice (s.flash b) 0 sizeofBankHeader).length ≤
        ((s.newBank P t b).bank b).data.length := by
      rw [hbytes, ← h1.on.length]
      exact hheader
    have hwhole := slice_splice hroom
    rw [hbytes] at hwhole
    rw [hbank]
    exact hwhole
  have hprepare : Reads b s1
      (s1.setBank b { s1.bank b with state := (s1.bank b).header.state ^^^ 0xFF }) :=
    ⟨.setBank rfl rfl rfl, rfl, rfl⟩
  have hj2 := hj1.reads hprepare
  have hbank2 : (s1.setBank b { s1.bank b with state := (s1.bank b).header.state ^^^ 0xFF }).bank b =
      { s1.bank b with state := (s1.bank b).header.state ^^^ 0xFF } := bank_setBank_self ..
  have hactive2 : ((s1.setBank b { s1.bank b with
      state := (s1.bank b).header.state ^^^ 0xFF }).store t).active = (s.store t).active := by
    change (s1.store t).active = _
    rw [h1.on.store]
    rfl
  dsimp only
  generalize s1.setBank b { s1.bank b with state := (s1.bank b).header.state ^^^ 0xFF } = s2
    at hprepare hj2 hbank2 hactive2
  have hflash2 : s2.flash = s.flash := hprepare.flash.trans hflash1
  have hfailed2 : (s2.bank b).deviceError = (s1.bank b).deviceError := by rw [hbank2]
  have hdata2 : (s2.bank b).data = (s1.bank b).data := by rw [hbank2]
  have hrest : ∀ s3, Joined P g t b s s3 → Opened P.arch g t b s s3 → _ := fun s3 hj3 hopened =>
    (hj3.complete h hout hnumber hopened).mono fun r hr =>
      (⟨hr.1, .inr hr.2⟩ : r.2.Ready P g ∧
        ((r.1.isError = true ∧ r.2 = s.answered) ∨
          (r.1.isError = false ∧ Added P g t b s r.2)))
  refine Ensures.ite (fun _ => ?_) fun hkeep => ?_
  · obtain ⟨s3, hs3, hj3, hemptied⟩ := hj2.clearStore h.sound hout hnumber (hdata2 ▸ hheader)
    rw [hs3]
    refine hrest s3 hj3 ?_
    obtain hfailed | ⟨hsound3, hlist, htail, hinUse, hstate, hones⟩ := hemptied
    · exact .failed hfailed
    by_cases hfailed : (s3.bank b).deviceError = true
    · exact .failed hfailed
    have hkept := hsound3.kept b (.inl ⟨t, by
      rw [hlist]
      exact List.mem_append_right _ List.mem_cons_self⟩)
    have hnil := hkept.records_eq_nil htail
    obtain ⟨hdrM, restM, hchain⟩ := hkept.chain
    have hsynced := fun hg => hkept.synced hg (Bool.not_eq_true _ ▸ hfailed)
    have hdata := hchain.data
    have hheaderM : ∀ i, i < firstVariableOffset →
        hdrM.getD i 0 = (s3.bank b).data.getD i 0 := by
      intro i hi
      rw [hdata, List.append_assoc, List.getD_eq_getElem?_getD, List.getD_eq_getElem?_getD,
        List.getElem?_append_left (by rw [hchain.header]; exact hi)]
    rw [hnil, List.flatten_nil, List.append_nil] at hdata
    refine .records hchain.header hdata (stored_blank g ?_ hones) (fun hg i hi => ?_)
      (fun hg => ?_) (.inl hlist) fun _ => rfl
    · rw [hkept.length]
      exact hkept.header_le.trans hkept.tail_le
    · rw [hheaderM i hi]
      exact (hsynced hg).below i (.inl hi)
    · rw [hheaderM 7 (by decide)]
      exact (hsynced hg).state
  · obtain ⟨hj3, hlist⟩ := hj2.insertBank hactive2
    have hbank3 : (s2.insertBank b).bank = s2.bank := by
      rw [State.insertBank]
      split <;> rfl
    have hflash3 : (s2.insertBank b).flash = s.flash := by
      rw [← hflash2, State.insertBank]
      split <;> rfl
    refine hrest _ hj3 ?_
    obtain hfailed | hread := hread
    · refine .failed ?_
      rw [hbank3, hfailed2, hfailed]
    have hinteresting : interesting (s.flash b) = true := by
      rw [interesting_of_read (k := s2.bank b) (hdata2 ▸ hread) (by rw [hbank2]; rfl)]
      rw [Bool.not_eq_true] at hkeep
      rw [hkeep]
      rfl
    obtain ⟨hdr, cs, rest, hstored⟩ | hrefused := hclean hinteresting
    · have hhdr : slice (s1.bank b).data 0 firstVariableOffset = hdr := by
        rw [hread, hstored.content, List.append_assoc, slice, List.drop_zero, ← hstored.header,
          List.take_left]
      have hsame : ∀ i, i < firstVariableOffset → hdr.getD i 0 = (s.flash b).getD i 0 := by
        intro i hi
        rw [hstored.content, List.append_assoc, List.getD_eq_getElem?_getD,
          List.getD_eq_getElem?_getD,
          List.getElem?_append_left (by rw [hstored.header]; exact hi)]
      refine @Opened.records _ _ _ _ _ _ hdr hdr rest
        ((s1.bank b).data.drop firstVariableOffset) cs hstored.header ?_ (hflash3 ▸ hstored) (fun _ i hi => ?_) (fun _ => ?_) hlist
        fun huninteresting => ?_
      · rw [hbank3, hdata2, ← hhdr, slice, List.drop_zero, List.take_append_drop]
      · rw [hflash3, hsame i hi]
        exact BitsOff.refl _
      · rw [hbank3, hbank2]
        dsimp only
        rw [BitVec.xor_assoc, BitVec.xor_self, BitVec.xor_zero, ← hhdr, getD_slice (by decide),
          Nat.zero_add]
        rfl
      · rw [hinteresting] at huninteresting
        cases huninteresting
    · exact .refused (hflash3 ▸ hrefused) hinteresting

end State

end EfiCore.Var
