import EfiCore.Var.Recover

/-! # Boot

`FwNvStoreInstalled` adds the banks of every device, completes what a power loss has cut short, and
recovers the variables.  Where the contents of the banks are clean, it leaves a state in order
in which all records are resolved.
-/

namespace EfiCore.Var

open EfiCore.Lib

namespace State

variable {P : Platform} {g : Regime} {s s' s1 s2 : State} {t : StoreType} {b new old : BankAddr}
  {flash : Flash}

/-! ## Completing a garbage collection -/

/-- A transaction bank is chosen for a store that has none. -/
theorem Good.reserve (h : s.Good P g) (t : StoreType) (htBank : (s.store t).tBank = none) :
    ∃ s', s.rtVarGetTransactionBank P t = .ok s' ∧ s'.Good P g ∧ Reserved t s s' := by
  obtain ⟨s', hs', hsound, hr⟩ := h.sound.getTransactionBank t
  have hsub : ∀ b, b ∈ (s'.store t).active → b ∈ (s.store t).active := by
    intro b hb
    obtain ⟨-, hactive, -⟩ | ⟨best, -, -, hactive, -⟩ := hr.outcome
    · rwa [hactive] at hb
    · rw [hactive] at hb
      exact List.mem_of_mem_erase hb
  have hnone := h.tSize t
  rw [htBank] at hnone
  refine ⟨s', hs', h.of_frame ⟨hsound, fun t' b hb => ?_, fun t' => ?_, fun t' b hb hd => ?_,
    h.inPlace⟩ hr.frame, hr⟩
  · by_cases ht' : t' = t
    · subst ht'
      obtain ⟨-, -, htBank', -⟩ | ⟨best, -, hbest, -, htBank', -⟩ := hr.outcome
      · rw [htBank', htBank] at hb
        cases hb
      · rw [htBank'] at hb
        obtain rfl := Option.some.inj hb
        rw [(hr.bank best).tail]
        exact hbest
    · rw [hr.store t' ht'] at hb
      rw [(hr.bank b).tail]
      exact h.empty t' b hb
  · by_cases ht' : t' = t
    · subst ht'
      obtain ⟨-, -, htBank', htSize⟩ | ⟨best, -, -, -, htBank', htSize⟩ := hr.outcome
      · rw [htBank', htBank, htSize, hnone]
      · rw [htBank', htSize]
        exact (hr.bank best).length.symm
    · rw [hr.store t' ht', h.tSize t']
      cases (s.store t').tBank with
      | none => rfl
      | some b => exact (hr.bank b).length.symm
  · rw [hr.frame.tBankRequired]
    by_cases ht' : t' = t
    · subst ht'
      exact h.required t' b (hsub b hb) hd
    · rw [hr.store t' ht'] at hb
      exact h.required t' b hb hd

theorem Reserved.elsewhere (h : Reserved t s s') : Elsewhere t s s' :=
  ⟨h.frame.efiAtRuntime, fun t' ht' => by rw [h.store t' ht'], fun _ _ b _ => (h.bank b).records⟩

/-- Nothing but the banks of a store was worked on, and its banks are none but those it had. -/
structure Within (t : StoreType) (s s' : State) : Prop where
  elsewhere : Elsewhere t s s'
  active : ∀ b ∈ (s'.store t).active, b ∈ (s.store t).active

/-- A bank of the list is cleared, and stays in service if its device does not fail. -/
theorem Good.clearStore (h : s.Good P g) (hb : b ∈ (s.store t).active) :
    ∃ s', s.rtVarClearStore P b = .ok s' ∧ s'.Good P g ∧ Cleared b s s' := by
  obtain rfl := h.sound.active t b hb
  have hclearable := h.sound.clearable hb
  obtain ⟨s', hs', hsound, hcleared⟩ := h.sound.clearStore hclearable
  have haround := hcleared.around
  have hne : ∀ t' b', (s.store t').tBank = some b' → b' ≠ b := by
    rintro t' b' hb' rfl
    exact hclearable.notTBank ((h.sound.tBank t' b' hb').1 ▸ hb')
  have hsub : ∀ t' b', b' ∈ (s'.store t').active → b' ∈ (s.store t').active := by
    intro t' b' hb'
    by_cases ht' : t' = (s.bank b).varStore
    · subst ht'
      obtain ⟨-, hactive⟩ | ⟨-, hactive, -⟩ := hcleared.outcome
      · rw [hactive] at hb'
        exact List.mem_of_mem_erase hb'
      · rw [hactive] at hb'
        obtain hb' | hb' := List.mem_append.mp hb'
        · exact List.mem_of_mem_erase hb'
        · rw [List.mem_singleton.mp hb']
          exact hb
    · rwa [haround.store t' ht'] at hb'
  refine ⟨s', hs', h.of_frame ⟨hsound, fun t' b' hb' => ?_, fun t' => ?_, fun t' b' hb' hd => ?_,
    h.inPlace⟩ (.of_around haround hclearable.numbered), hcleared⟩
  · rw [haround.tBank] at hb'
    rw [haround.bank b' (hne t' b' hb')]
    exact h.empty t' b' hb'
  · rw [haround.storeTSize, haround.tBank, h.tSize t']
    cases hb' : (s.store t').tBank with
    | none => rfl
    | some b' =>
      dsimp only
      rw [haround.bank b' (hne t' b' hb')]
  · rw [haround.tBankRequired]
    exact h.required t' b' (hsub t' b' hb') hd

theorem Good.updateBankState (h : s.Good P g) (hb : b ∈ (s.store t).active) (newBit : Byte) :
    ∃ s', s.rtVarUpdateBankState P b newBit = .ok s' ∧ s'.Good P g ∧ SameRecords b s s' := by
  obtain ⟨s', hs', hsound, hsame⟩ := h.sound.updateBankState (.inl ⟨t, hb⟩) newBit
  exact ⟨s', hs', h.onBank hb hsame.on hsound, hsame⟩

/-- The state of a bank that has failed is changed in its copy only. -/
theorem Good.updateBankState_failed (h : s.Good P g) (hout : ¬ s.InService [] b)
    (hfailed : (s.bank b).deviceError = true) (newBit : Byte) :
    Ensures (s.rtVarUpdateBankState P b newBit) fun s' => s'.Good P g ∧
      s'.efiAtRuntime = s.efiAtRuntime := by
  rw [rtVarUpdateBankState]
  refine Ensures.bind (P := fun s1 : State => OnBank b s s1 ∧ s1.flash = s.flash ∧
    s1.log = s.log ∧ (s1.bank b).deviceError = true) ?_ fun s1 h1 => ?_
  · rw [writeData]
    refine Ensures.bind (Ensures.self _) fun data hdata => ?_
    rw [bank_setBank_self, writeBuffer] at hdata
    split at hdata
    · rename_i hfits
      cases hdata
      refine Ensures.pure ⟨?_, rfl, rfl, ?_⟩
      · rw [setBank_setBank, bank_setBank_self]
        exact .setBank rfl rfl (length_splice hfits)
      · rw [bank_setBank_self, bank_setBank_self]
        exact hfailed
    · cases hdata
  · obtain ⟨hon, hflash, hlog, hfailed1⟩ := h1
    rw [rtVarUpdateStore, if_pos hfailed1]
    have hsound := h.sound.outside hout hon (hlog ▸ h.sound.log)
    have hne : ∀ t' b', (s.store t').tBank = some b' → b' ≠ b := by
      rintro t' b' hb' rfl
      exact hout (.inr (.inl ⟨t', hb'⟩))
    refine Ensures.ok ⟨⟨⟨hsound, fun t' b' hb' => ?_, fun t' => ?_, ?_, h.inPlace⟩,
      fun b' hb' => ?_⟩, hon.efiAtRuntime⟩
    · rw [hon.store] at hb'
      rw [hon.bank b' (hne t' b' hb')]
      exact h.empty t' b' hb'
    · rw [hon.store, h.tSize t']
      cases hb' : (s.store t').tBank with
      | none => rfl
      | some b' =>
        dsimp only
        rw [hon.bank b' (hne t' b' hb')]
    · rw [hon.store]
      exact h.required
    · rw [hon.noBanks] at hb'
      rw [hflash]
      exact h.fresh b' hb'

theorem obsoleteTransition_mem (h : s.obsoleteTransition t = some b) :
    b ∈ (s.store t).active :=
  (List.mem_filter.mp (List.mem_of_getLast? h)).1

theorem inUseTransition_mem (h : s.inUseTransition t = some b) : b ∈ (s.store t).active :=
  (List.mem_filter.mp (List.mem_of_getLast? h)).1

theorem Good.checkTransition (h : s.Good P g) (hg : g.named) (t : StoreType) :
    Ensures (s.checkTransition P t) fun s' => s'.Good P g ∧
      s'.efiAtRuntime = s.efiAtRuntime := by
  rw [State.checkTransition]
  refine Ensures.ite_bind (P := fun s1 : State =>
    s1.Good P g ∧ s1.efiAtRuntime = s.efiAtRuntime) (fun hneeded => ?_) (fun _ => ?_)
    fun s1 h1 => ?_
  · simp only [Bool.and_eq_true, Option.isNone_iff_eq_none] at hneeded
    obtain ⟨s1, hs1, hgood, hreserved⟩ := h.reserve t hneeded.2
    rw [hs1]
    exact Ensures.ok ⟨hgood, hreserved.frame.efiAtRuntime⟩
  · exact ⟨h, rfl⟩
  · obtain ⟨h1, hruntime⟩ := h1
    dsimp only
    cases hold : s1.obsoleteTransition t with
    | none =>
      cases hnew : s1.inUseTransition t with
      | none => exact Ensures.pure ⟨h1, hruntime⟩
      | some new =>
        obtain ⟨s2, hs2, hgood, hsame⟩ :=
          h1.updateBankState (inUseTransition_mem hnew) varhInUse
        dsimp only
        rw [hs2]
        exact Ensures.ok ⟨hgood, hsame.on.efiAtRuntime.trans hruntime⟩
    | some old =>
      have hmem := obsoleteTransition_mem hold
      cases hnew : s1.inUseTransition t with
      | none =>
        obtain ⟨s2, hs2, hgood, hcollects⟩ := h1.collectBank hg hmem
        dsimp only
        rw [hs2]
        exact Ensures.ok ⟨hgood,
          (hcollects.elsewhere h1.sound hmem).efiAtRuntime.trans hruntime⟩
      | some new =>
        obtain ⟨s2, hs2, hgood, hcleared⟩ := h1.clearStore hmem
        have hruntime2 : s2.efiAtRuntime = s.efiAtRuntime :=
          hcleared.around.efiAtRuntime.trans hruntime
        dsimp only
        rw [hs2]
        change Ensures (s2.rtVarUpdateBankState P new varhInUse) _
        by_cases hin : new ∈ (s2.store t).active
        · obtain ⟨s3, hs3, hgood3, hsame⟩ := hgood.updateBankState hin varhInUse
          rw [hs3]
          exact Ensures.ok ⟨hgood3, hsame.on.efiAtRuntime.trans hruntime2⟩
        · -- the bank that is switched to is the old one, and that could not be cleared
          have hvarStore := h1.sound.active t old hmem
          have hnewMem := inUseTransition_mem hnew
          have houtcome := hcleared.outcome
          rw [hvarStore] at houtcome
          have heq : new = old := by
            by_contra hne
            have herase : new ∈ (s1.store t).active.erase old :=
              (List.mem_erase_of_ne hne).mpr hnewMem
            apply hin
            obtain ⟨-, hactive⟩ | ⟨-, hactive, -⟩ := houtcome
            · rwa [hactive]
            · rw [hactive]
              exact List.mem_append_left _ herase
          subst heq
          obtain ⟨hfailed, hactive⟩ | ⟨-, hactive, -⟩ := houtcome
          · refine (hgood.updateBankState_failed ?_ hfailed varhInUse).mono
              fun s3 hs3 => ⟨hs3.1, hs3.2.trans hruntime2⟩
            refine hgood.sound.not_inService ?_ ?_ List.not_mem_nil
            · rw [hcleared.around.varStore, hvarStore]
              exact hin
            · rw [hcleared.around.varStore, hvarStore, hcleared.around.tBank]
              intro htBank
              exact (h1.sound.tBank t new htBank).2 hmem
          · rw [hactive] at hin
            exact absurd (List.mem_append_right _ List.mem_cons_self) hin

/-- Recovery leaves a state in order, with all records resolved. -/
theorem Good.varCheckBanks (h : s.Good P g) (hg : g.named) (hboot : s.efiAtRuntime = false) :
    Ensures (s.varCheckBanks P) fun s' => s'.Good P g ∧ s'.efiAtRuntime = false ∧
      Resolved (s'.recordsOf s'.visibleBanks) := by
  rw [State.varCheckBanks]
  refine Ensures.bind (Ensures.foldlM (I := fun _ s' => s'.Good P g ∧ s'.efiAtRuntime = false)
    (fun _ t _ s1 _ h1 => ?_) ⟨h, hboot⟩) fun s1 h1 => ?_
  · exact (h1.1.checkTransition hg t).mono fun s2 h2 => ⟨h2.1, h2.2.trans h1.2⟩
  · refine (Ensures.foldlM (I := fun ts s' => s'.Good P g ∧ s'.efiAtRuntime = false ∧
      Resolved (s'.recordsOf (s'.banksOf ts))) (fun ts t ts' s2 hstores h2 => ?_)
      ⟨h1.1, h1.2, Resolved.nil⟩).mono fun s2 h2 => ?_
    · obtain ⟨hgood, hboot2, hresolved⟩ := h2
      have hstart : (s2.store t).active = [] ++ (s2.store t).active := rfl
      rw [← List.append_nil (s2.banksOf ts)] at hresolved
      exact (hgood.checkBanksOf hg hboot2 hstores hstart hresolved P.rounds).mono
        fun s3 h3 => ⟨h3.1, h3.2.1.efiAtRuntime.trans hboot2, h3.2.2⟩
    · obtain ⟨hgood, hboot2, hresolved⟩ := h2
      refine ⟨hgood, hboot2, ?_⟩
      rw [visibleBanks_boot hboot2]
      exact hresolved

/-! ## Discovery -/

/-- The banks in service are among those that are `done`, and the others are as they were. -/
structure Booting (P : Platform) (g : Regime) (flash : Flash) (done : BankAddr → Prop)
    (s : State) : Prop where
  good : s.Good P g
  boot : s.efiAtRuntime = false
  served : ∀ b, s.InService [] b → done b
  untouched : ∀ b, ¬ done b → s.flash b = flash b

theorem Booting.asked {done : BankAddr → Prop} (h : Booting P g flash done s) (hasked : Asked s s1) :
    Booting P g flash done s1 where
  good := hasked.good h.good
  boot := hasked.efiAtRuntime.trans h.boot
  served b hb := by
    rw [InService, hasked.store] at hb
    exact h.served b hb
  untouched b hb := by
    rw [hasked.flash]
    exact h.untouched b hb

theorem Booting.mono {done done' : BankAddr → Prop} (h : Booting P g flash done s)
    (hsub : ∀ b, done b → done' b) : Booting P g flash done' s :=
  ⟨h.good, h.boot, fun b hb => hsub b (h.served b hb),
    fun b hb => h.untouched b fun hdone => hb (hsub b hdone)⟩

theorem Booting.addBank {done : BankAddr → Prop} (h : Booting P g flash done s)
    (hclean : ∀ b, Clean P.arch g (flash b)) (t : StoreType) (hnot : ¬ done b)
    (hknown : b.bankNo < s.noBanks b.device) :
    Ensures (s.varStoreAddBank P t b) fun r =>
      Booting P g flash (fun b' => done b' ∨ b' = b) r.2 ∧ s.noBanks = r.2.noBanks := by
  have hb : s.Unlisted b := ⟨fun hin => hnot (h.served b hin), hknown⟩
  refine (h.good.addBank t hb (by rw [h.untouched b hnot]; exact hclean b)).mono fun r hr => ?_
  obtain ⟨hgood, ⟨-, hsame⟩ | ⟨-, hadded⟩⟩ := hr
  · rw [hsame]
    exact ⟨(h.asked (.answered s)).mono fun _ => .inl, rfl⟩
  · refine ⟨⟨hgood, hadded.efiAtRuntime.trans h.boot, fun b' hb' => ?_, fun b' hb' => ?_⟩,
      hadded.noBanks.symm⟩
    · by_cases heq : b' = b
      · exact .inr heq
      · refine .inl (h.served b' ?_)
        obtain ⟨t', hb'⟩ | ⟨t', hb'⟩ | hb' := hb'
        · refine .inl ⟨t', ?_⟩
          by_cases ht' : t' = t
          · subst ht'
            obtain hactive | hactive | hactive := hadded.active
            · rwa [hactive] at hb'
            · rw [hactive] at hb'
              exact (List.mem_append.mp hb').elim id
                fun hb' => absurd (List.mem_singleton.mp hb') heq
            · rw [hactive] at hb'
              exact (List.mem_cons.mp hb').resolve_left heq
          · rwa [hadded.store t' ht'] at hb'
        · refine .inr (.inl ⟨t', ?_⟩)
          by_cases ht' : t' = t
          · subst ht'
            rwa [hadded.tBank] at hb'
          · rwa [hadded.store t' ht'] at hb'
        · cases hb'
    · obtain ⟨hnotDone, hne⟩ := not_or.mp hb'
      rw [hadded.flash b' hne]
      exact h.untouched b' hnotDone

/-- The banks of the devices `devices`, and the first `n` of the device `device`. -/
def Before (devices : List Nat) (device n : Nat) (b : BankAddr) : Prop :=
  b.device ∈ devices ∨ (b.device = device ∧ b.bankNo < n)

theorem Booting.addBanks {devices : List Nat} {device n bankNo : Nat} (hdevice : device ∉ devices)
    (h : Booting P g flash (Before devices device bankNo) s)
    (hclean : ∀ b, Clean P.arch g (flash b)) (t : StoreType)
    (hknown : bankNo + n ≤ s.noBanks device) :
    Ensures (s.addBanks P t device n bankNo) fun s' =>
      Booting P g flash (Before devices device (bankNo + n)) s' := by
  induction n generalizing s bankNo with
  | zero => exact Ensures.ok h
  | succ n ih =>
    rw [State.addBanks]
    have hnot : ¬ Before devices device bankNo ⟨device, bankNo⟩ := by
      rintro (hmem | ⟨-, hlt⟩)
      · exact hdevice hmem
      · exact Nat.lt_irrefl _ hlt
    refine Ensures.bind (h.addBank hclean t hnot (by dsimp only; omega)) fun r hr => ?_
    obtain ⟨hbooting, hnoBanks⟩ := hr
    have hnext : Booting P g flash (Before devices device (bankNo + 1)) r.2 := by
      refine hbooting.mono fun b hb => ?_
      obtain (hmem | ⟨hdev, hlt⟩) | rfl := hb
      · exact .inl hmem
      · exact .inr ⟨hdev, by omega⟩
      · exact .inr ⟨rfl, Nat.lt_succ_self _⟩
    have hmore := ih hnext (by rw [← hnoBanks]; omega)
    rw [show bankNo + (n + 1) = bankNo + 1 + n by omega]
    exact hmore

theorem sizeDevice_asked (P : Platform) (device : Nat) (s : State) :
    Asked s (s.sizeDevice P device) := by
  have hgrow : ∀ (s : State) (n : Nat),
      Asked s (if s.noBanks device < n then s.deviceSizeStore P device n else s) := by
    intro s n
    split
    · rename_i hlt
      exact .sizeStore P s (Nat.le_of_lt hlt)
    · exact .refl s
  rw [sizeDevice]
  split
  · exact (hgrow s 1).trans (hgrow _ 2)
  · exact .refl s

theorem Booting.varAddDevice {devices : List Nat} {device : Nat} (hdevice : device ∉ devices)
    (h : Booting P g flash (fun b => b.device ∈ devices) s)
    (hclean : ∀ b, Clean P.arch g (flash b)) :
    Ensures (s.varAddDevice P device) fun s' =>
      Booting P g flash (fun b => b.device ∈ devices ++ [device]) s' := by
  have hsized := h.asked (sizeDevice_asked P device s)
  rw [State.varAddDevice]
  cases variableStoreType (P.device device).attributes with
  | none =>
    refine Ensures.ite (fun _ => Ensures.ok (hsized.mono fun b hb => ?_)) fun _ => Ensures.error
    exact List.mem_append_left _ hb
  | some t =>
    have hstart : Booting P g flash (Before devices device 0) (s.sizeDevice P device) :=
      hsized.mono fun b hb => .inl hb
    refine (hstart.addBanks hdevice hclean t (by rw [Nat.zero_add])).mono fun s' hs' => ?_
    refine hs'.mono fun b hb => ?_
    obtain hmem | ⟨heq, -⟩ := hb
    · exact List.mem_append_left _ hmem
    · exact List.mem_append_right _ (List.mem_singleton.mpr heq)

/-- What the devices hold before boot: banks of their size, with clean contents. -/
structure Prepared (P : Platform) (g : Regime) (flash : Flash) : Prop where
  size : ∀ b, (flash b).length = (P.device b.device).bankSize
  clean : ∀ b, Clean P.arch g (flash b)
  inPlace : g.erased → ∀ device, (P.device device).transactionUpdate = false

theorem Prepared.initial (h : Prepared P g flash) (noBanks : Nat → Nat) :
    Booting P g flash (fun _ => False) (State.initial flash noBanks) := by
  have hout : ∀ b, ¬ (State.initial flash noBanks).InService [] b := by
    rintro b (⟨t, hb⟩ | ⟨t, hb⟩ | hb) <;> cases hb
  refine ⟨⟨⟨⟨fun _ => List.nodup_nil, nofun, nofun, nofun, fun b hb => absurd hb (hout b),
    fun b hb => absurd hb (hout b), h.size, fun _ => nofun⟩, nofun, fun _ => rfl, nofun,
    h.inPlace⟩, fun b _ => h.clean b⟩, rfl, fun b hb => absurd hb (hout b), fun _ _ => rfl⟩

theorem Prepared.discovered (h : Prepared P g flash) {devices : List Nat}
    (hdevices : devices.Nodup) (noBanks : Nat → Nat) :
    Ensures (devices.foldlM (fun s device => s.varAddDevice P device)
      (State.initial flash noBanks)) fun s =>
      Booting P g flash (fun b => b.device ∈ devices) s := by
  refine Ensures.foldlM (I := fun devices s => Booting P g flash (fun b => b.device ∈ devices) s)
    (fun devices' device rest s hsplit hs => ?_) ?_
  · refine hs.varAddDevice ?_ h.clean
    rw [hsplit] at hdevices
    intro hmem
    exact (List.nodup_append.mp hdevices).2.2 device hmem device List.mem_cons_self rfl
  · exact (h.initial noBanks).mono fun _ hfalse => hfalse.elim

/-- Boot leaves a state in order, with all records resolved. -/
theorem Prepared.fwNvStoreInstalled (h : Prepared P g flash) (hg : g.named) (noBanks : Nat → Nat)
    {devices : List Nat} (hdevices : devices.Nodup) :
    Ensures ((State.initial flash noBanks).fwNvStoreInstalled P devices) fun s =>
      s.Good P g ∧ s.efiAtRuntime = false ∧ Resolved (s.recordsOf s.visibleBanks) := by
  rw [State.fwNvStoreInstalled]
  refine Ensures.bind (h.discovered hdevices noBanks) fun s hs => ?_
  exact hs.good.varCheckBanks hg hs.boot

end State

end EfiCore.Var
