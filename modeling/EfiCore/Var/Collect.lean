import EfiCore.Var.Clear

/-! # Garbage collection of a bank

`RtVarGarbageCollectBank` moves the records in use to the transaction bank, and switches the two
banks.  It returns in every sound state; where the transaction bank has the space, it ends up
with a copy of every valid record of the old bank, and with nothing else.
-/

namespace EfiCore.Var

open EfiCore.Lib

/-- Whatever else is done to it, the bank is the same one and holds the same records. -/
structure Bank.Alike (k k' : Bank) : Prop where
  varStore : k'.varStore = k.varStore
  records : k'.records = k.records
  tail : k'.tail = k.tail
  inUse : k'.inUse = k.inUse
  length : k'.data.length = k.data.length

namespace Bank.Alike

variable {k k' k'' : Bank}

theorem refl (k : Bank) : k.Alike k := ⟨rfl, rfl, rfl, rfl, rfl⟩

theorem trans (h : k.Alike k') (h' : k'.Alike k'') : k.Alike k'' where
  varStore := h'.varStore.trans h.varStore
  records := h'.records.trans h.records
  tail := h'.tail.trans h.tail
  inUse := h'.inUse.trans h.inUse
  length := h'.length.trans h.length

end Bank.Alike

namespace State

variable {P : Platform} {g : Regime} {s s' s1 s2 : State} {pend : List BankAddr}
  {b old new : BankAddr}

/-- What no operation on the banks in service touches. -/
structure Frame (s s' : State) : Prop where
  efiAtRuntime : s'.efiAtRuntime = s.efiAtRuntime
  noBanks : s'.noBanks = s.noBanks
  varStore : ∀ b, (s'.bank b).varStore = (s.bank b).varStore
  length : ∀ b, (s'.bank b).data.length = (s.bank b).data.length
  failed : ∀ b, (s.bank b).deviceError = true → (s'.bank b).deviceError = true
  tBankRequired : ∀ t, (s'.store t).tBankRequired = (s.store t).tBankRequired
  /-- A bank that is not known yet. -/
  flash : ∀ b, s.noBanks b.device ≤ b.bankNo → s'.flash b = s.flash b

namespace Frame

theorem refl (s : State) : Frame s s :=
  ⟨rfl, rfl, fun _ => rfl, fun _ => rfl, fun _ h => h, fun _ => rfl, fun _ _ => rfl⟩

theorem trans (h : Frame s s1) (h' : Frame s1 s2) : Frame s s2 where
  efiAtRuntime := h'.efiAtRuntime.trans h.efiAtRuntime
  noBanks := h'.noBanks.trans h.noBanks
  varStore b := (h'.varStore b).trans (h.varStore b)
  length b := (h'.length b).trans (h.length b)
  failed b hfailed := h'.failed b (h.failed b hfailed)
  tBankRequired t := (h'.tBankRequired t).trans (h.tBankRequired t)
  flash b hb := (h'.flash b (by rwa [h.noBanks])).trans (h.flash b hb)

theorem of_around (h : Around b s s') (hnumber : b.bankNo < s.noBanks b.device) : Frame s s' where
  efiAtRuntime := h.efiAtRuntime
  noBanks := h.noBanks
  varStore b' := by
    by_cases hb' : b' = b
    · rw [hb', h.varStore]
    · rw [h.bank b' hb']
  length b' := by
    by_cases hb' : b' = b
    · rw [hb', h.length]
    · rw [h.bank b' hb']
  failed b' hfailed := by
    by_cases hb' : b' = b
    · subst hb'
      exact h.failed hfailed
    · rwa [h.bank b' hb']
  tBankRequired := h.tBankRequired
  flash b' hb' := by
    apply h.flash b'
    rintro rfl
    omega

theorem of_onBank (h : OnBank b s s') (hnumber : b.bankNo < s.noBanks b.device) : Frame s s' :=
  of_around (.of_onBank h) hnumber

theorem setStore (s : State) {t : StoreType} {st : VariableStore}
    (hrequired : st.tBankRequired = (s.store t).tBankRequired) : Frame s (s.setStore t st) := by
  refine ⟨rfl, rfl, fun _ => rfl, fun _ => rfl, fun _ h => h, fun t' => ?_, fun _ _ => rfl⟩
  by_cases ht : t' = t
  · rw [ht, store_setStore_self, hrequired]
  · rw [store_setStore_of_ne s ht]

end Frame

/-! ## Sequence numbers -/

/-- The headers of some banks are rewritten. -/
structure Headers (s s' : State) : Prop where
  frame : Frame s s'
  store : s'.store = s.store
  bank : ∀ b, (s.bank b).Alike (s'.bank b)
  tSize : ∀ b, (s'.bank b).tSize = (s.bank b).tSize

theorem Headers.refl (s : State) : Headers s s :=
  ⟨.refl s, rfl, fun b => .refl (s.bank b), fun _ => rfl⟩

theorem Headers.trans (h : Headers s s1) (h' : Headers s1 s2) : Headers s s2 :=
  ⟨h.frame.trans h'.frame, h'.store.trans h.store, fun b => (h.bank b).trans (h'.bank b),
    fun b => (h'.tSize b).trans (h.tSize b)⟩

theorem Headers.of_sameRecords (h : SameRecords b s s') (hnumber : b.bankNo < s.noBanks b.device) :
    Headers s s' := by
  refine ⟨.of_onBank h.on hnumber, h.on.store, fun b' => ?_, fun b' => ?_⟩
  · by_cases hb' : b' = b
    · subst hb'
      exact ⟨h.on.varStore, h.records, h.tail, h.inUse, h.on.length⟩
    · rw [h.on.bank b' hb']
      exact .refl _
  · by_cases hb' : b' = b
    · rw [hb', h.on.tSize]
    · rw [h.on.bank b' hb']

theorem Headers.inService (h : Headers s s') {b : BankAddr} :
    s'.InService pend b ↔ s.InService pend b := by
  rw [InService, InService, h.store]

theorem Sound.resetSequence (h : s.Sound P g pend) (banks : List BankAddr)
    (hin : ∀ b ∈ banks, s.InService pend b) :
    ∃ s', State.resetSequence P banks s = .ok s' ∧ s'.Sound P g pend ∧ Headers s s' := by
  induction banks generalizing s with
  | nil => exact ⟨s, rfl, h, .refl s⟩
  | cons b banks ih =>
    have hb := hin b List.mem_cons_self
    have hk := h.kept b hb
    have hheader := hk.header_le
    have htail := hk.tail_le
    have hzero : (leBytes 2 0).length = 2 := length_leBytes 2 0
    have hin4 : 4 + (leBytes 2 0).length ≤ firstVariableOffset := by
      rw [hzero]
      exact Nat.le_of_ble_eq_true rfl
    -- zeros turn bits off, and the state byte is behind them
    obtain ⟨s1, hs1, hsound1, hsame⟩ := h.updateHeader hb (s.bank b).state hin4
      (by
        intro _ j hj
        have hbyte : (leBytes 2 0).getD j 0 = 0 := by
          rw [hzero] at hj
          match j, hj with
          | 0, _ => rfl
          | 1, _ => rfl
        rw [hbyte]
        exact BitsOff.zero _)
      (by
        intro hstate
        rw [getD_splice (by omega), if_neg (by omega)]
        exact hstate)
    have hheaders := Headers.of_sameRecords hsame (h.numbered b hb)
    obtain ⟨s', hs', hsound', hheaders'⟩ := ih hsound1 fun b' hb' =>
      hheaders.inService.mpr (hin b' (List.mem_cons_of_mem b hb'))
    refine ⟨s', ?_, hsound', hheaders.trans hheaders'⟩
    rw [State.resetSequence, writeData_eq (by omega)]
    simp only [bind, Except.bind]
    rw [hs1]
    exact hs'

/-! ## Choosing a transaction bank -/

/-- The banks of a list get their `TSize` from the store. -/
theorem tSizes_spec (banks : List BankAddr) (s : State) :
    let s' := banks.foldl (fun s b => s.setBank b { s.bank b with tSize := .varStore }) s
    s' = { s with bank := s'.bank } ∧ ∀ b, s'.bank b =
      if b ∈ banks then { s.bank b with tSize := .varStore } else s.bank b := by
  induction banks generalizing s with
  | nil => exact ⟨rfl, fun b => rfl⟩
  | cons b banks ih =>
    obtain ⟨hstate, hbank⟩ := ih (s.setBank b { s.bank b with tSize := .varStore })
    rw [List.foldl_cons]
    refine ⟨hstate.trans rfl, fun b' => ?_⟩
    rw [hbank b']
    by_cases hb' : b' = b
    · rw [hb', bank_setBank_self, if_pos List.mem_cons_self]
      split <;> rfl
    · rw [bank_setBank_of_ne s hb']
      by_cases hmem : b' ∈ banks
      · rw [if_pos hmem, if_pos (List.mem_cons_of_mem b hmem)]
      · rw [if_neg hmem, if_neg fun h => (List.mem_cons.mp h).elim hb' hmem]

theorem bestBank_spec (s : State) (banks : List BankAddr) :
    (s.bestBank banks = none ∧ ∀ b ∈ banks, (s.bank b).tail ≠ firstVariableOffset) ∨
    ∃ best, s.bestBank banks = some best ∧ best ∈ banks ∧
      (s.bank best).tail = firstVariableOffset := by
  induction banks using List.reverseRecOn with
  | nil => exact .inl ⟨rfl, nofun⟩
  | append_singleton banks b ih =>
    rw [bestBank] at ih
    rw [bestBank, List.foldl_append, List.foldl_cons, List.foldl_nil]
    by_cases hb : (s.bank b).tail = firstVariableOffset
    · rw [if_pos hb]
      obtain ⟨hnone, -⟩ | ⟨best, hsome, hmem, htail⟩ := ih
      · rw [hnone]
        exact .inr ⟨b, rfl, by simp, hb⟩
      · rw [hsome]
        dsimp only
        split
        · exact .inr ⟨b, rfl, by simp, hb⟩
        · exact .inr ⟨best, rfl, by simp [hmem], htail⟩
    · rw [if_neg hb]
      obtain ⟨hnone, hall⟩ | ⟨best, hsome, hmem, htail⟩ := ih
      · refine .inl ⟨hnone, fun b' hb' => ?_⟩
        obtain hb' | hb' := List.mem_append.mp hb'
        · exact hall b' hb'
        · rw [List.mem_singleton.mp hb']
          exact hb
      · exact .inr ⟨best, hsome, List.mem_append_left _ hmem, htail⟩

/-- What `RtVarGetTransactionBank` does to a store: if one of its banks is empty, that one is taken
    off the list. -/
structure Reserved (t : StoreType) (s s' : State) : Prop where
  frame : Frame s s'
  bank : ∀ b, (s.bank b).Alike (s'.bank b)
  store : ∀ t', t' ≠ t → s'.store t' = s.store t'
  tSize : ∀ b, (s'.bank b).tSize =
    if b ∈ (s.store t).active then .varStore else (s.bank b).tSize
  outcome :
    ((∀ b ∈ (s.store t).active, (s.bank b).tail ≠ firstVariableOffset) ∧
      (s'.store t).active = (s.store t).active ∧ (s'.store t).tBank = (s.store t).tBank ∧
      (s'.store t).tSize = (s.store t).tSize) ∨
    ∃ best ∈ (s.store t).active, (s.bank best).tail = firstVariableOffset ∧
      (s'.store t).active = (s.store t).active.erase best ∧ (s'.store t).tBank = some best ∧
      (s'.store t).tSize = (s.bank best).bankSize

theorem Sound.tSizes (h : s.Sound P g pend) (banks : List BankAddr) :
    (banks.foldl (fun s b => s.setBank b { s.bank b with tSize := .varStore }) s).Sound P g
      pend := by
  obtain ⟨hstate, hbank⟩ := tSizes_spec banks s
  generalize banks.foldl (fun s b => s.setBank b { s.bank b with tSize := .varStore }) s = s'
    at hstate hbank
  have hvarStore : ∀ b, (s'.bank b).varStore = (s.bank b).varStore := by
    intro b
    rw [hbank b]
    split <;> rfl
  rw [hstate]
  refine ⟨h.nodup, fun t b hb => ?_, fun t b hb => ?_, fun b hb => ?_, fun b hb => ?_,
    h.numbered, h.size, h.log⟩
  · exact (hvarStore b).trans (h.active t b hb)
  · exact ⟨(hvarStore b).trans (h.tBank t b hb).1, (h.tBank t b hb).2⟩
  · change b ∉ (s.store (s'.bank b).varStore).active ∧
      (s.store (s'.bank b).varStore).tBank ≠ some b
    rw [hvarStore b]
    exact h.pending b hb
  · change (s'.bank b).Kept g (s.flash b)
    rw [hbank b]
    split
    · exact (h.kept b hb).withTSize .varStore
    · exact h.kept b hb

/-- The part of `RtVarGetTransactionBank` behind the sequence numbers. -/
theorem Sound.reserve (h : s.Sound P g pend) (t : StoreType) :
    ∃ s', (let s := (s.store t).active.foldl
            (fun s b => s.setBank b { s.bank b with tSize := .varStore }) s;
          match s.bestBank (s.store t).active with
          | none => pure s
          | some best =>
            let s := s.unlink best
            pure (s.setStore t
              { s.store t with tBank := some best, tSize := (s.bank best).bankSize }) :
          Except Fault State) = .ok s' ∧ s'.Sound P g pend ∧ Reserved t s s' := by
  have hsound2 := h.tSizes (s.store t).active
  obtain ⟨hstate2, hbank2⟩ := tSizes_spec (s.store t).active s
  dsimp only at hstate2 hbank2 ⊢
  generalize (s.store t).active.foldl
    (fun s b => s.setBank b { s.bank b with tSize := .varStore }) s = s2
    at hsound2 hstate2 hbank2 ⊢
  have hstore2 : s2.store = s.store := by rw [hstate2]
  have halike : ∀ b, (s.bank b).Alike (s2.bank b) := by
    intro b
    rw [hbank2 b]
    split
    · exact ⟨rfl, rfl, rfl, rfl, rfl⟩
    · exact .refl _
  have hframe : Frame s s2 := by
    refine ⟨by rw [hstate2], by rw [hstate2], fun b => (halike b).varStore,
      fun b => (halike b).length, fun b hfailed => ?_, fun t => by rw [hstore2], fun b _ => by rw [hstate2]⟩
    rw [hbank2 b]
    split <;> exact hfailed
  have htSize : ∀ b, (s2.bank b).tSize =
      if b ∈ (s.store t).active then .varStore else (s.bank b).tSize := by
    intro b
    rw [hbank2 b]
    split <;> rfl
  rw [hstore2]
  obtain ⟨hnone, hall⟩ | ⟨best, hsome, hmem, htail⟩ := bestBank_spec s2 (s.store t).active
  · rw [hnone]
    refine ⟨s2, rfl, hsound2, hframe, halike, fun t' _ => by rw [hstore2], htSize,
      .inl ⟨fun b hb => ?_, by rw [hstore2], by rw [hstore2], by rw [hstore2]⟩⟩
    rw [← (halike b).tail]
    exact hall b hb
  · rw [hsome]
    have hvarStore : (s2.bank best).varStore = t := by
      rw [(halike best).varStore]
      exact h.active t best hmem
    have hunlinked : s2.unlink best =
        s2.setStore t { s.store t with active := (s.store t).active.erase best } := by
      rw [State.unlink, hvarStore, hstore2]
    have htwice : ∀ st st' : VariableStore, (s2.setStore t st).setStore t st' =
        s2.setStore t st' := by
      intro st st'
      rw [State.setStore, State.setStore]
      dsimp only
      rw [Function.update_idem]
      rfl
    dsimp only
    rw [hunlinked, store_setStore_self, htwice]
    have hnodup := h.nodup t
    refine ⟨_, rfl, ?_, hframe.trans (.setStore s2 (by rw [hstore2])), halike,
      fun t' ht' => ?_, htSize, .inr ⟨best, hmem, ?_, ?_, ?_, ?_⟩⟩
    · refine hsound2.setStore (hnodup.erase best) (fun b hb => .inl ?_) ?_ ?_
      · rw [hstore2]
        exact List.mem_of_mem_erase hb
      · rintro b ⟨⟩
        rw [hstore2]
        exact ⟨hnodup.not_mem_erase, .inr hmem⟩
      · intro b hb
        obtain ⟨hactive, htBank⟩ := hsound2.pending b hb
        have hnot : b ∉ (s.store t).active := by
          intro hmem
          rw [hsound2.active t b (by rwa [hstore2]), hstore2] at hactive
          exact hactive hmem
        refine ⟨.inl hb, fun hmem => hnot (List.mem_of_mem_erase hmem), ?_⟩
        rintro ⟨⟩
        exact hnot hmem
    · rw [store_setStore_of_ne _ ht', hstore2]
    · rw [← (halike best).tail]
      exact htail
    · rw [store_setStore_self]
    · rw [store_setStore_self]
    · rw [store_setStore_self]
      exact (halike best).length

theorem Sound.getTransactionBank (h : s.Sound P g pend) (t : StoreType) :
    ∃ s', s.rtVarGetTransactionBank P t = .ok s' ∧ s'.Sound P g pend ∧ Reserved t s s' := by
  rw [rtVarGetTransactionBank]
  by_cases hmax : (s.store t).sequence = varhMaxSequence
  · obtain ⟨s1, hs1, hsound1, hheaders⟩ := h.resetSequence (s.store t).active
      fun b hb => .inl ⟨t, hb⟩
    have hsound2 : (s1.setStore t { s1.store t with sequence := 0 }).Sound P g pend :=
      hsound1.sameLists rfl rfl
    obtain ⟨s', hs', hsound', hr⟩ := hsound2.reserve t
    have hframe : Frame s1 (s1.setStore t { s1.store t with sequence := 0 }) := .setStore s1 rfl
    rw [if_pos hmax]
    simp only [bind, Except.bind, hs1]
    refine ⟨s', hs', hsound', (hheaders.frame.trans hframe).trans hr.frame,
      fun b => (hheaders.bank b).trans (hr.bank b), fun t' ht' => ?_, fun b => ?_, ?_⟩
    · rw [hr.store t' ht', store_setStore_of_ne s1 ht', hheaders.store]
    · rw [hr.tSize b, store_setStore_self, ← hheaders.store, ← hheaders.tSize b]
      rfl
    · have houtcome := hr.outcome
      rw [store_setStore_self, hheaders.store] at houtcome
      have htail : ∀ b, (s1.bank b).tail = (s.bank b).tail := fun b => (hheaders.bank b).tail
      obtain ⟨hall, houtcome⟩ | ⟨best, hmem, hbest, hactive, htBank, htSize⟩ := houtcome
      · exact .inl ⟨fun b hb => by rw [← htail b]; exact hall b hb, houtcome⟩
      · refine .inr ⟨best, hmem, ?_, hactive, htBank, htSize.trans (hheaders.bank best).length⟩
        rw [← htail best]
        exact hbest
  · rw [if_neg hmax]
    exact h.reserve t

/-! ## Moving records -/

/-- The space that the valid ones among some records take. -/
def validSpace (cs : List Record) : Nat := ((cs.filter Record.valid).map List.length).sum

theorem validSpace_cons (c : Record) (cs : List Record) :
    validSpace (c :: cs) = (if c.valid then c.length else 0) + validSpace cs := by
  rw [validSpace, validSpace, List.filter_cons]
  split
  · rw [List.map_cons, List.sum_cons]
  · rw [Nat.zero_add]

/-- Copies of valid ones among the records `cs` are added to the bank `new`; of all of them, if
    they fit. -/
structure Moved (new : BankAddr) (cs : List Record) (s s' : State) : Prop where
  on : OnBank new s s'
  flash : s'.flash = s.flash
  records : ∃ moved, moved.Sublist (cs.filter Record.valid) ∧
    (s'.bank new).records = (s.bank new).records ++ moved.map Record.readded ∧
    (s'.bank new).tail = (s.bank new).tail + (moved.map List.length).sum ∧
    ((s.bank new).tail + validSpace cs ≤ (s.bank new).bankSize → moved = cs.filter Record.valid)

theorem Moved.refl (new : BankAddr) (s : State) : Moved new [] s s :=
  ⟨.refl new s, rfl, [], .slnil, by rw [List.map_nil, List.append_nil], rfl, fun _ => rfl⟩

theorem Moved.skip {c : Record} {cs : List Record} (h : Moved new cs s s')
    (hinvalid : c.valid = false) : Moved new (c :: cs) s s' := by
  obtain ⟨moved, hsub, hrecords, htail, hall⟩ := h.records
  have hfilter : (c :: cs).filter Record.valid = cs.filter Record.valid :=
    List.filter_cons_of_neg (by rw [hinvalid]; exact Bool.false_ne_true)
  refine ⟨h.on, h.flash, moved, hfilter ▸ hsub, hrecords, htail, fun hfits => ?_⟩
  rw [validSpace_cons, hinvalid, if_neg Bool.false_ne_true, Nat.zero_add] at hfits
  rw [hfilter]
  exact hall hfits

/-- There was no space for a record. -/
theorem Moved.drop {c : Record} {cs : List Record} (h : Moved new cs s s')
    (hvalid : c.valid = true)
    (hroom : (s.bank new).bankSize < (s.bank new).tail + c.length) :
    Moved new (c :: cs) s s' := by
  obtain ⟨moved, hsub, hrecords, htail, hall⟩ := h.records
  have hfilter : (c :: cs).filter Record.valid = c :: cs.filter Record.valid :=
    List.filter_cons_of_pos hvalid
  refine ⟨h.on, h.flash, moved, ?_, hrecords, htail, fun hfits => ?_⟩
  · rw [hfilter]
    exact hsub.cons c
  · rw [validSpace_cons, hvalid, if_pos rfl] at hfits
    omega

theorem Moved.step {c : Record} {cs : List Record} (h : Moved new cs s1 s')
    (hvalid : c.valid = true) (happended : Appended new c.readded s s1)
    (hflash : s1.flash = s.flash) : Moved new (c :: cs) s s' := by
  obtain ⟨moved, hsub, hrecords, htail, hall⟩ := h.records
  have hfilter : (c :: cs).filter Record.valid = c :: cs.filter Record.valid :=
    List.filter_cons_of_pos hvalid
  have hreadded : c.readded.length = c.length := Record.length_withState c _
  have hsize : (s1.bank new).bankSize = (s.bank new).bankSize := happended.on.length
  refine ⟨happended.on.trans h.on, h.flash.trans hflash, c :: moved, ?_, ?_, ?_, fun hfits => ?_⟩
  · rw [hfilter]
    exact hsub.cons_cons c
  · rw [hrecords, happended.records, List.map_cons, List.append_assoc, List.singleton_append]
  · rw [htail, happended.tail, hreadded, List.map_cons, List.sum_cons, Nat.add_assoc]
  · rw [validSpace_cons, hvalid, if_pos rfl] at hfits
    rw [hfilter, hall]
    rw [happended.tail, hreadded, hsize]
    omega

theorem Sound.moveVariables (h : s.Sound P g pend) (hg : g.named) (hold : s.InService pend old)
    (hnew : s.InService pend new) (hne : old ≠ new) {pre post : List Record}
    (hrecords : (s.bank old).records = pre ++ post) {fuel : Nat} (hfuel : post.length < fuel) :
    ∃ s', State.moveVariables P old new fuel (recordsEnd pre) s = .ok s' ∧ s'.Sound P g pend ∧
      Moved new post s s' := by
  -- the records that are left decrease, and the old bank stays as it is
  induction post generalizing s pre fuel with
  | nil =>
    obtain ⟨hdr, rest, hchain⟩ := (h.kept old hold).chain
    rw [hrecords, List.append_nil] at hchain
    obtain ⟨fuel, rfl⟩ := Nat.exists_eq_succ_of_ne_zero (Nat.ne_zero_of_lt hfuel)
    refine ⟨s, ?_, h, .refl new s⟩
    rw [State.moveVariables, hchain.parse_end]
    rfl
  | cons c post ih =>
    obtain ⟨fuel, rfl⟩ := Nat.exists_eq_succ_of_ne_zero (Nat.ne_zero_of_lt hfuel)
    have hk := h.kept old hold
    obtain ⟨hdr, rest, hchain⟩ := hk.chain
    have hnamed := hk.named hg c (by rw [hrecords]; simp)
    rw [hrecords] at hchain
    have hnext : pre ++ c :: post = (pre ++ [c]) ++ post := by simp
    have hoffset : (c.info (recordsEnd pre)).nextVarOffset = recordsEnd (pre ++ [c]) :=
      (recordsEnd_concat c pre).symm
    have hisSome : (c.info (recordsEnd pre)).fields.isSome = c.valid := c.isSome_fields _
    rw [List.length_cons] at hfuel
    rw [State.moveVariables, hchain.parse_named hnamed]
    simp only [bind, Except.bind, hisSome, hoffset]
    cases hvalid : c.valid with
    | false =>
      rw [if_neg Bool.false_ne_true]
      obtain ⟨s', hs', hsound', hmoved⟩ := ih h hold hnew (hrecords.trans hnext)
        (Nat.lt_of_succ_lt_succ hfuel)
      exact ⟨s', hs', hsound', hmoved.skip hvalid⟩
    | true =>
      rw [if_pos rfl]
      obtain ⟨s1, hs1, hsound1, hmove⟩ := h.move hold hnew hrecords (c.placed_info _)
        fun _ => hvalid
      rw [hs1]
      dsimp only
      obtain ⟨hroom, rfl⟩ | ⟨-, hflash, happended⟩ := hmove
      · obtain ⟨s', hs', hsound', hmoved⟩ := ih h hold hnew (hrecords.trans hnext)
          (Nat.lt_of_succ_lt_succ hfuel)
        exact ⟨s', hs', hsound', hmoved.drop hvalid hroom⟩
      · have hin : ∀ {b}, s1.InService pend b ↔ s.InService pend b := happended.on.inService
        obtain ⟨s', hs', hsound', hmoved⟩ := ih hsound1 (hin.mpr hold) (hin.mpr hnew)
          (by rw [happended.on.bank old hne, hrecords, hnext]) (Nat.lt_of_succ_lt_succ hfuel)
        exact ⟨s', hs', hsound', hmoved.step hvalid happended hflash⟩

/-! ## Switching the banks -/

/-- The device of an empty bank that was filled in its copy gets all of it. -/
theorem Sound.flush (h : s.Sound P g pend) (hb : s.InService pend b)
    (herased : g.erased → (s.bank b).deviceError = false →
      ∀ i, firstVariableOffset ≤ i → i < (s.bank b).tail → (s.flash b).getD i 0 = 0xFF) :
    ∃ s', s.rtVarUpdateStore P b 0 (s.bank b).tail = .ok s' ∧ s'.Sound P g pend ∧
      SameRecords b s s' := by
  have hk := h.kept b hb
  have htail := hk.tail_le
  obtain ⟨s', hs', hwritten⟩ := rtVarUpdateStore_written P s b 0 (s.bank b).tail (by omega)
    hk.length
  have hbank := hwritten.bank_eq
  have hlast : s' = s'.setBank b { s.bank b with deviceError := (s'.bank b).deviceError } := by
    rw [← hbank, setBank_bank_self]
  have hwritten' : Written b 0 (slice (s.bank b).data 0 (s.bank b).tail)
      (s.setBank b (s.bank b)) s' := by
    rwa [setBank_bank_self]
  obtain ⟨hsound, hon⟩ := h.edit 0 (s.bank b).tail (fun _ => hk)
    (Nat.le_of_eq (Nat.zero_add _)) ⟨rfl, rfl, rfl, rfl⟩ hwritten' rfl ⟨rfl, rfl, rfl⟩ hlast (by
      intro hg hok j hj
      rw [Nat.zero_add]
      by_cases hheader : j < firstVariableOffset
      · exact (hk.synced hg hok).below j (.inl hheader)
      · rw [herased hg hok j (Nat.not_lt.mp hheader) hj]
        exact BitsOff.erased _)
  refine ⟨s', hs', hsound, hon, ?_, ?_, ?_⟩
  · rw [hbank]
    rfl
  · rw [hbank]
  · rw [hbank]

/-- The header of a bank is all that an update of its state changes on the device, and no error
    is forgotten. -/
theorem updateBankState_flash (P : Platform) (s : State) (b : BankAddr) (newBit : Byte)
    (hlength : firstVariableOffset ≤ (s.flash b).length) :
    Ensures (s.rtVarUpdateBankState P b newBit) fun s' =>
      (∀ i, firstVariableOffset ≤ i → (s'.flash b).getD i 0 = (s.flash b).getD i 0) ∧
      ((s'.bank b).deviceError = false → (s.bank b).deviceError = false) := by
  rw [rtVarUpdateBankState]
  refine Ensures.bind (P := fun s1 : State => s1.flash = s.flash ∧
    (s1.bank b).deviceError = (s.bank b).deviceError) ?_ fun s1 h1 => ?_
  · rw [writeData]
    refine Ensures.bind (Ensures.self _) fun _ _ => Ensures.pure ⟨rfl, ?_⟩
    rw [bank_setBank_self, bank_setBank_self]
  · obtain ⟨hflash, herror⟩ := h1
    rw [rtVarUpdateStore]
    refine Ensures.ite (fun _ => Ensures.ok ⟨fun i _ => by rw [hflash], fun hok => ?_⟩)
      fun hok => ?_
    · rwa [← herror]
    refine Ensures.bind (Ensures.self _) fun buffer hbuffer => ?_
    have hlen : buffer.length = firstVariableOffset := by
      rw [readBuffer] at hbuffer
      split at hbuffer
      · rename_i hfits
        cases hbuffer
        exact length_slice hfits
      · cases hbuffer
    cases hcall : s1.deviceUpdateStore P b 0 buffer with
    | mk failed s2 =>
      have hflash2 : ∀ i, firstVariableOffset ≤ i →
          (s2.flash b).getD i 0 = (s.flash b).getD i 0 := by
        intro i hi
        rw [deviceUpdateStore] at hcall
        split at hcall
        · cases hcall
          change (s1.flash b).getD i 0 = _
          rw [hflash]
        · cases hcall
          change (Function.update s1.flash b (splice (s1.flash b) 0 buffer) b).getD i 0 = _
          rw [Function.update_self, hflash, getD_splice (by omega), if_neg (by omega)]
      refine Ensures.pure ⟨?_, fun _ => ?_⟩
      · split
        · exact hflash2
        · exact hflash2
      · rw [← herror]
        exact Bool.not_eq_true _ ▸ hok

/-- The bank `new` has taken the place of `old`, which is empty or has failed. -/
structure Switched (old new : BankAddr) (s s' : State) : Prop where
  frame : Frame s s'
  bank : ∀ b, b ≠ old → (s.bank b).Alike (s'.bank b)
  tSize : ∀ b, (s'.bank b).tSize = (s.bank b).tSize
  store : ∀ t, t ≠ (s.bank old).varStore → s'.store t = s.store t
  tBank : (s'.store (s.bank old).varStore).tBank = (s.store (s.bank old).varStore).tBank
  storeTSize : (s'.store (s.bank old).varStore).tSize = (s.store (s.bank old).varStore).tSize
  outcome :
    ((s'.bank old).deviceError = true ∧ (s'.store (s.bank old).varStore).active =
      (s.store (s.bank old).varStore).active.erase old ++ [new]) ∨
    ((s'.store (s.bank old).varStore).active =
        (s.store (s.bank old).varStore).active.erase old ++ [old] ++ [new] ∧
      (s'.bank old).tail = firstVariableOffset ∧ (s'.bank old).inUse = firstVariableOffset)

theorem Sound.clearable (h : s.Sound P g pend) {t : StoreType} (hb : b ∈ (s.store t).active) :
    s.Clearable pend b := by
  have hin : s.InService pend b := .inl ⟨t, hb⟩
  have hk := h.kept b hin
  obtain ⟨hdr, rest, hchain⟩ := hk.chain
  have hvarStore := h.active t b hb
  refine ⟨fun hpend => ?_, fun htBank => ?_, h.numbered b hin, hk.length,
    hk.header_le.trans hk.tail_le, hchain.small⟩
  · have hnot := (h.pending b hpend).1
    rw [hvarStore] at hnot
    exact hnot hb
  · rw [hvarStore] at htBank
    exact (h.tBank t b htBank).2 hb

/-- The switch takes place, and then a transaction bank is chosen. -/
theorem Sound.switchBanks (h : s.Sound P g [new])
    (hold : old ∈ (s.store (s.bank old).varStore).active)
    (hvarStore : (s.bank new).varStore = (s.bank old).varStore)
    (herased : g.erased → (s.bank new).deviceError = false →
      ∀ i, firstVariableOffset ≤ i → i < (s.bank new).tail → (s.flash new).getD i 0 = 0xFF) :
    ∃ s6 s', State.switchBanks P old new s = .ok s' ∧ s6.Sound P g [] ∧ Switched old new s s6 ∧
      s'.Sound P g [] ∧ Reserved (s.bank old).varStore s6 s' := by
  have hnew : ∀ {s : State}, s.InService [new] new := .inr (.inr List.mem_cons_self)
  have hne : old ≠ new := by
    rintro rfl
    exact (h.pending old List.mem_cons_self).1 hold
  have hk := h.kept new hnew
  -- the new bank gets its content
  obtain ⟨s1, hs1, hsound1, hsame1⟩ := h.updateBankState hnew varhAddTransition
  obtain ⟨hflash, herror⟩ := updateBankState_flash P s new varhAddTransition
    (by rw [hk.length]; exact hk.header_le.trans hk.tail_le) s1 hs1
  obtain ⟨s2, hs2, hsound2, hsame2⟩ := hsound1.flush hnew (by
    intro hg hok i hi hlt
    rw [hflash i hi]
    exact herased hg (herror hok) i hi (hsame1.tail ▸ hlt))
  have hheaders2 := (Headers.of_sameRecords hsame1 (h.numbered new hnew)).trans
    (.of_sameRecords hsame2 (hsound1.numbered new hnew))
  -- the states of the two banks say what is under way
  have hold2 : old ∈ (s2.store (s2.bank old).varStore).active := by
    rw [hheaders2.store, (hheaders2.bank old).varStore]
    exact hold
  obtain ⟨s3, hs3, hsound3, hsame3⟩ := hsound2.updateBankState (.inl ⟨_, hold2⟩)
    varhObsoleteTransition
  obtain ⟨s4, hs4, hsound4, hsame4⟩ := hsound3.updateBankState hnew varhInUseTransition
  have hheaders4 := (hheaders2.trans
    (.of_sameRecords hsame3 (hsound2.numbered old (.inl ⟨_, hold2⟩)))).trans
    (.of_sameRecords hsame4 (hsound3.numbered new hnew))
  have hold4 : old ∈ (s4.store (s4.bank old).varStore).active := by
    rw [hheaders4.store, (hheaders4.bank old).varStore]
    exact hold
  have hnumber4 := hsound4.numbered old (.inl ⟨_, hold4⟩)
  -- the old bank is cleared
  obtain ⟨s5, hs5, hsound5, hcleared⟩ := hsound4.clearStore (hsound4.clearable hold4)
  obtain ⟨s6, hs6, hsound6, hsame6⟩ := hsound5.updateBankState hnew varhInUse
  have hheaders6 := Headers.of_sameRecords hsame6 (hsound5.numbered new hnew)
  have hsound7 := hsound6.insertTail List.not_mem_nil
  have hstore4 : (s4.bank old).varStore = (s.bank old).varStore := (hheaders4.bank old).varStore
  have hvarStore6 : (s6.bank new).varStore = (s.bank old).varStore := by
    rw [(hheaders6.bank new).varStore, hcleared.around.bank new hne.symm,
      (hheaders4.bank new).varStore, hvarStore]
  have hvarStoreOld : ((s6.insertTail new).bank old).varStore = (s.bank old).varStore := by
    change (s6.bank old).varStore = _
    rw [(hheaders6.bank old).varStore, hcleared.around.varStore, hstore4]
  obtain ⟨s', hs', hsound', hreserved⟩ := hsound7.getTransactionBank (s.bank old).varStore
  refine ⟨s6.insertTail new, s', ?_, hsound7, ?_, hsound', hreserved⟩
  · rw [State.switchBanks]
    simp only [bind, Except.bind, hs1, hs2, hs3, hs4, hs5, hs6, hvarStoreOld]
    exact hs'
  · have hlist : (s6.insertTail new).store (s.bank old).varStore =
        { s5.store (s.bank old).varStore with
          active := (s5.store (s.bank old).varStore).active ++ [new] } := by
      rw [State.insertTail, hvarStore6, store_setStore_self, hheaders6.store]
    have houtcome := hcleared.outcome
    rw [hstore4, hheaders4.store] at houtcome
    refine ⟨?_, fun b hb => ?_, fun b => ?_, fun t ht => ?_, ?_, ?_, ?_⟩
    · exact ((hheaders4.frame.trans (.of_around hcleared.around hnumber4)).trans
        hheaders6.frame).trans (.setStore s6 rfl)
    · refine (hheaders4.bank b).trans ?_
      rw [← hcleared.around.bank b hb]
      exact hheaders6.bank b
    · change (s6.bank b).tSize = _
      rw [hheaders6.tSize b, ← hheaders4.tSize b]
      by_cases hb : b = old
      · rw [hb, hcleared.around.tSize]
      · rw [hcleared.around.bank b hb]
    · rw [State.insertTail, hvarStore6, store_setStore_of_ne s6 ht, hheaders6.store,
        hcleared.around.store t (by rwa [hstore4]), hheaders4.store]
    · rw [hlist]
      dsimp only
      rw [hcleared.around.tBank, hheaders4.store]
    · rw [hlist]
      dsimp only
      rw [hcleared.around.storeTSize, hheaders4.store]
    · rw [hlist]
      dsimp only
      change ((s6.bank old).deviceError = true ∧ _) ∨ _ ∧ (s6.bank old).tail = _ ∧
        (s6.bank old).inUse = _
      rw [hsame6.on.bank old hne]
      obtain ⟨hfailed, hactive⟩ | ⟨-, hactive, htail, hinUse, -, -⟩ := houtcome
      · exact .inl ⟨hfailed, by rw [hactive]⟩
      · exact .inr ⟨by rw [hactive], htail, hinUse⟩

/-! ## Collecting in place -/

/-- Copies of records of the bank are added to it. -/
structure Doubled (b : BankAddr) (s s' : State) : Prop where
  on : OnBank b s s'
  flash : s'.flash = s.flash
  records : ∃ added : List Record, (∀ c ∈ added, c.valid = true) ∧
    (s'.bank b).records = (s.bank b).records ++ added ∧
    (s'.bank b).tail = (s.bank b).tail + (added.map List.length).sum

theorem Doubled.refl (b : BankAddr) (s : State) : Doubled b s s :=
  ⟨.refl b s, rfl, [], nofun, by rw [List.append_nil], rfl⟩

theorem Doubled.trans (h : Doubled b s s1) (h' : Doubled b s1 s2) : Doubled b s s2 := by
  obtain ⟨added, hvalid, hrecords, htail⟩ := h.records
  obtain ⟨added', hvalid', hrecords', htail'⟩ := h'.records
  refine ⟨h.on.trans h'.on, h'.flash.trans h.flash, added ++ added', fun c hc => ?_, ?_, ?_⟩
  · exact (List.mem_append.mp hc).elim (hvalid c) (hvalid' c)
  · rw [hrecords', hrecords, List.append_assoc]
  · rw [htail', htail, List.map_append, List.sum_append, Nat.add_assoc]

/-- A device with a `TransactionUpdate`: the records are copied within the bank, and the copies
    are met again. -/
theorem Sound.moveInPlace (h : s.Sound P g pend) (hg : g.named) (hb : s.InService pend b)
    {pre post : List Record} (hrecords : (s.bank b).records = pre ++ post) {fuel : Nat}
    (hfuel : (s.bank b).bankSize < recordsEnd pre + fuel) :
    ∃ s', State.moveVariables P b b fuel (recordsEnd pre) s = .ok s' ∧ s'.Sound P g pend ∧
      Doubled b s s' := by
  induction fuel generalizing s pre post with
  | zero =>
    obtain ⟨hdr, rest, hchain⟩ := (h.kept b hb).chain
    rw [hrecords] at hchain
    have hend := hchain.recordsEnd_le.trans hchain.tail_le
    rw [recordsEnd_append] at hend
    omega
  | succ fuel ih =>
    have hk := h.kept b hb
    obtain ⟨hdr, rest, hchain⟩ := hk.chain
    rw [hrecords] at hchain
    cases post with
    | nil =>
      rw [List.append_nil] at hchain
      refine ⟨s, ?_, h, .refl b s⟩
      rw [State.moveVariables, hchain.parse_end]
      rfl
    | cons c post =>
      have hnamed := hk.named hg c (by rw [hrecords]; simp)
      have hnext : pre ++ c :: post = (pre ++ [c]) ++ post := by simp
      have hoffset : (c.info (recordsEnd pre)).nextVarOffset = recordsEnd (pre ++ [c]) :=
        (recordsEnd_concat c pre).symm
      have hisSome : (c.info (recordsEnd pre)).fields.isSome = c.valid := c.isSome_fields _
      have hlarge := hchain.sized_at.large'
      have hle := hchain.sized_at.varSize_le
      have hrest : (s.bank b).bankSize < recordsEnd (pre ++ [c]) + fuel := by
        rw [recordsEnd_concat]
        omega
      rw [State.moveVariables, hchain.parse_named hnamed]
      simp only [bind, Except.bind, hisSome, hoffset]
      cases hvalid : c.valid with
      | false =>
        rw [if_neg Bool.false_ne_true]
        exact ih h hb (hrecords.trans hnext) hrest
      | true =>
        rw [if_pos rfl]
        obtain ⟨s1, hs1, hsound1, hmove⟩ := h.move hb hb hrecords (c.placed_info _)
          fun _ => hvalid
        rw [hs1]
        dsimp only
        obtain ⟨-, rfl⟩ | ⟨-, hflash, happended⟩ := hmove
        · exact ih h hb (hrecords.trans hnext) hrest
        · have hsize : (s1.bank b).bankSize = (s.bank b).bankSize := happended.on.length
          obtain ⟨s', hs', hsound', hdoubled⟩ := ih hsound1 (happended.on.inService.mpr hb)
            (show (s1.bank b).records = (pre ++ [c]) ++ (post ++ [c.readded]) by
              rw [happended.records, hrecords, hnext, List.append_assoc])
            (by rw [hsize]; exact hrest)
          refine ⟨s', hs', hsound', Doubled.trans ?_ hdoubled⟩
          refine ⟨happended.on, hflash, [c.readded], fun c' hc' => ?_, happended.records, ?_⟩
          · rw [List.mem_singleton.mp hc']
            exact Record.valid_readded hchain.sized_at hnamed hvalid
          · rw [happended.tail, List.map_singleton, List.sum_singleton]

/-! ## Collecting a bank -/

/-- A sound state between two operations. -/
structure Ready (P : Platform) (g : Regime) (s : State) : Prop where
  sound : s.Sound P g []
  /-- The transaction bank is empty. -/
  empty : ∀ t b, (s.store t).tBank = some b → (s.bank b).tail = firstVariableOffset
  tSize : ∀ t, (s.store t).tSize =
    match (s.store t).tBank with
    | none => 0
    | some b => (s.bank b).bankSize
  /-- A device that cannot update a bank as a whole needs a transaction bank. -/
  required : ∀ t b, b ∈ (s.store t).active → (P.device b.device).transactionUpdate = false →
    (s.store t).tBankRequired = true
  inPlace : g.erased → ∀ device, (P.device device).transactionUpdate = false

/-- The store of `old` after a collection: `old` has failed or is empty, and one of the empty banks
    is the transaction bank. -/
structure Restocked (old new : BankAddr) (s s' : State) : Prop where
  lists : ∃ banks, ((s'.bank old).deviceError = true ∧
      banks = (s.store (s.bank old).varStore).active.erase old ++ [new] ∨
    banks = (s.store (s.bank old).varStore).active.erase old ++ [old] ++ [new] ∧
      (s'.bank old).tail = firstVariableOffset ∧ (s'.bank old).inUse = firstVariableOffset) ∧
    (∀ b ∈ banks, (s'.bank b).tSize = .varStore) ∧
    ((∀ b ∈ banks, (s'.bank b).tail ≠ firstVariableOffset) ∧
        (s'.store (s.bank old).varStore).active = banks ∧
        (s'.store (s.bank old).varStore).tBank = none ∨
      ∃ best ∈ banks, (s'.bank best).tail = firstVariableOffset ∧
        (s'.store (s.bank old).varStore).active = banks.erase best ∧
        (s'.store (s.bank old).varStore).tBank = some best)

/-- The bank `old` was collected into the transaction bank `new`. -/
structure Collected (old new : BankAddr) (s s' : State) : Prop extends Restocked old new s s' where
  frame : Frame s s'
  bank : ∀ b, b ≠ old → b ≠ new → (s.bank b).Alike (s'.bank b)
  store : ∀ t, t ≠ (s.bank old).varStore → s'.store t = s.store t
  moved : ∃ moved, moved.Sublist ((s.bank old).records.filter Record.valid) ∧
    (s'.bank new).records = moved.map Record.readded ∧
    (s'.bank new).tail = firstVariableOffset + (moved.map List.length).sum ∧
    (firstVariableOffset + validSpace (s.bank old).records ≤ (s.bank new).bankSize →
      moved = (s.bank old).records.filter Record.valid)

theorem Ready.collectBank (h : s.Ready P g) (hg : g.named)
    (hold : old ∈ (s.store (s.bank old).varStore).active)
    (hrequired : (s.store (s.bank old).varStore).tBankRequired = true)
    (htBank : (s.store (s.bank old).varStore).tBank = some new) :
    ∃ s', s.rtVarGarbageCollectBank P old = .ok s' ∧ s'.Ready P g ∧ Collected old new s s' := by
  generalize ht : (s.bank old).varStore = t at hold hrequired htBank
  obtain ⟨hvarStore, hnot⟩ := h.sound.tBank t new htBank
  have hne : old ≠ new := fun heq => hnot (heq ▸ hold)
  have hnewIn : s.InService [] new := .inr (.inl ⟨t, htBank⟩)
  have hempty := h.empty t new htBank
  have hnil := (h.sound.kept new hnewIn).records_eq_nil hempty
  -- the transaction bank is taken from the store
  have hsound0 : (s.setStore t { s.store t with tBank := none, tSize := 0 }).Sound P g [new] := by
    refine h.sound.setStore (h.sound.nodup t) (fun b hb => .inl hb) nofun fun b hb => ?_
    rw [List.mem_singleton.mp hb]
    exact ⟨.inr htBank, hnot, nofun⟩
  have hin0 : ∀ {b}, b ∈ (s.store t).active →
      (s.setStore t { s.store t with tBank := none, tSize := 0 }).InService [new] b := by
    intro b hb
    exact .inl ⟨t, by rw [store_setStore_self]; exact hb⟩
  have hpend : ∀ {s : State}, s.InService [new] new := .inr (.inr List.mem_cons_self)
  have hfuel : (s.bank old).records.length < (s.bank old).bankSize + 1 := by
    obtain ⟨hdr, rest, hchain⟩ := (h.sound.kept old (.inl ⟨t, hold⟩)).chain
    have hlength := length_le_flatten hchain.sized
    have hend := hchain.recordsEnd_le.trans hchain.tail_le
    rw [recordsEnd] at hend
    omega
  obtain ⟨s1, hs1, hsound1, hmoved⟩ := hsound0.moveVariables hg (hin0 hold) hpend hne
    (List.nil_append (s.bank old).records).symm hfuel
  have hstore1 : s1.store t = { s.store t with tBank := none, tSize := 0 } := by
    rw [hmoved.on.store, store_setStore_self]
  have hbank1 : ∀ b, b ≠ new → s1.bank b = s.bank b := hmoved.on.bank
  have hold1 : (s1.bank old).varStore = t := by rw [hbank1 old hne, ht]
  have hold' : old ∈ (s1.store (s1.bank old).varStore).active := by
    rw [hold1, hstore1]
    exact hold
  have herased : g.erased → (s1.bank new).deviceError = false →
      ∀ i, firstVariableOffset ≤ i → i < (s1.bank new).tail → (s1.flash new).getD i 0 = 0xFF := by
    intro he hok i hi hlt
    have hok0 : (s.bank new).deviceError = false := by
      cases herror : (s.bank new).deviceError with
      | false => rfl
      | true =>
        rw [hmoved.on.failed herror] at hok
        cases hok
    have hk := h.sound.kept new hnewIn
    have hsynced := hk.synced he hok0
    have htail := (hsound1.kept new hpend).tail_le
    rw [hnil] at hsynced
    rw [hmoved.flash]
    refine hsynced.erased hempty i (hempty ▸ hi) ?_
    rw [hk.length, ← show (s1.bank new).data.length = (s.bank new).data.length from
      hmoved.on.length]
    omega
  obtain ⟨s6, s', hs', hsound6, hswitched, hsound', hreserved⟩ := hsound1.switchBanks hold'
    (by rw [hold1, hmoved.on.varStore]; exact hvarStore) herased
  rw [hold1] at hreserved
  have hframe1 : Frame s s1 := by
    refine Frame.trans (Frame.setStore s ?_) (.of_onBank hmoved.on (h.sound.numbered new hnewIn))
    rfl
  have hframe := (hframe1.trans hswitched.frame).trans hreserved.frame
  have hstore : ∀ t', t' ≠ t → s'.store t' = s.store t' := by
    intro t' ht'
    rw [hreserved.store t' ht', hswitched.store t' (by rwa [hold1]), hmoved.on.store,
      store_setStore_of_ne s ht']
  have hbank : ∀ b, b ≠ old → b ≠ new → (s.bank b).Alike (s'.bank b) := by
    intro b hb hb'
    have hlast := (hswitched.bank b hb).trans (hreserved.bank b)
    rwa [hbank1 b hb'] at hlast
  have hnewAlike := (hswitched.bank new hne.symm).trans (hreserved.bank new)
  have htBank1 : (s1.store t).tBank = none := by rw [hstore1]
  have htSize1 : (s1.store t).tSize = 0 := by rw [hstore1]
  have htBank6 : (s6.store t).tBank = none := by
    rw [← hold1, hswitched.tBank, hold1, htBank1]
  have htSize6 : (s6.store t).tSize = 0 := by
    rw [← hold1, hswitched.storeTSize, hold1, htSize1]
  have houtcome := hswitched.outcome
  rw [hold1, hstore1] at houtcome
  have hothers : ∀ t' b, t' ≠ t → (s.store t').tBank = some b → (s.bank b).Alike (s'.bank b) := by
    intro t' b ht' hb
    have hb' := (h.sound.tBank t' b hb).1
    apply hbank
    · rintro rfl
      exact ht' (hb'.symm.trans ht)
    · rintro rfl
      exact ht' (hb'.symm.trans hvarStore)
  refine ⟨s', ?_, ⟨hsound', fun t' b hb => ?_, fun t' => ?_, fun t' b hb hd => ?_, h.inPlace⟩,
    ⟨⟨(s6.store t).active, ?_, ?_, ?_⟩, hframe, hbank, by rwa [ht], ?_⟩⟩
  · rw [rtVarGarbageCollectBank, ht]
    dsimp only
    rw [if_pos hrequired, htBank]
    change (State.moveVariables P old new ((s.bank old).bankSize + 1) (recordsEnd [])
      (s.setStore t { s.store t with tBank := none, tSize := 0 }) >>= _) = _
    simp only [bind, Except.bind, hs1]
    rw [if_pos hrequired]
    exact hs'
  · by_cases ht' : t' = t
    · subst ht'
      obtain ⟨-, -, hnone, -⟩ | ⟨best, -, hbest, -, hsome, -⟩ := hreserved.outcome
      · rw [hnone, htBank6] at hb
        cases hb
      · rw [hsome] at hb
        obtain rfl := Option.some.inj hb
        rw [(hreserved.bank best).tail]
        exact hbest
    · rw [hstore t' ht'] at hb
      rw [(hothers t' b ht' hb).tail]
      exact h.empty t' b hb
  · by_cases ht' : t' = t
    · subst ht'
      obtain ⟨-, -, hnone, hsize⟩ | ⟨best, -, -, -, hsome, hsize⟩ := hreserved.outcome
      · rw [hnone, htBank6, hsize, htSize6]
      · rw [hsome, hsize]
        exact (hreserved.bank best).length.symm
    · rw [hstore t' ht', h.tSize t']
      cases hb : (s.store t').tBank with
      | none => rfl
      | some b => exact (hothers t' b ht' hb).length.symm
  · by_cases ht' : t' = t
    · rw [ht', hframe.tBankRequired, hrequired]
    · rw [hstore t' ht'] at hb ⊢
      exact h.required t' b hb hd
  · rw [ht]
    obtain ⟨hfailed, hactive⟩ | ⟨hactive, htail, hinUse⟩ := houtcome
    · exact .inl ⟨hreserved.frame.failed old hfailed, hactive⟩
    · exact .inr ⟨hactive, (hreserved.bank old).tail.trans htail,
        (hreserved.bank old).inUse.trans hinUse⟩
  · intro b hb
    rw [hreserved.tSize b, if_pos hb]
  · rw [ht]
    obtain ⟨hall, hactive, hnone, -⟩ | ⟨best, hmem, hbest, hactive, hsome, -⟩ := hreserved.outcome
    · refine .inl ⟨fun b hb => ?_, hactive, hnone.trans htBank6⟩
      rw [(hreserved.bank b).tail]
      exact hall b hb
    · exact .inr ⟨best, hmem, (hreserved.bank best).tail.trans hbest, hactive, hsome⟩
  · obtain ⟨moved, hsub, hrecords, htail, hall⟩ := hmoved.records
    refine ⟨moved, hsub, ?_, ?_, fun hfits => hall ?_⟩
    · rw [hnewAlike.records, hrecords]
      change (s.bank new).records ++ _ = _
      rw [hnil, List.nil_append]
    · rw [hnewAlike.tail, htail]
      change (s.bank new).tail + _ = _
      rw [hempty]
    · change (s.bank new).tail + _ ≤ (s.bank new).bankSize
      rw [hempty]
      exact hfits

theorem setStore_store_self (s : State) (t : StoreType) : s.setStore t (s.store t) = s := by
  rw [setStore, Function.update_eq_self]

/-- Without a transaction bank, nothing is done to a bank whose store needs one. -/
theorem Ready.collect_none (h : s.Ready P g)
    (hrequired : (s.store (s.bank old).varStore).tBankRequired = true)
    (htBank : (s.store (s.bank old).varStore).tBank = none) :
    s.rtVarGarbageCollectBank P old = .ok s := by
  have hsame : ({ s.store (s.bank old).varStore with tBank := none, tSize := 0 } :
      VariableStore) = s.store (s.bank old).varStore := by
    have htSize := h.tSize (s.bank old).varStore
    rw [htBank] at htSize
    have hzero : (0 : Nat) = (s.store (s.bank old).varStore).tSize := htSize.symm
    rw [← htBank, hzero]
  rw [rtVarGarbageCollectBank]
  dsimp only
  rw [if_pos hrequired, htBank, hsame, setStore_store_self]

/-- The bank was collected in place: copies of its records are added to it. -/
structure Repeated (b : BankAddr) (s s' : State) : Prop where
  frame : Frame s s'
  bank : ∀ b', b' ≠ b → s'.bank b' = s.bank b'
  store : ∀ t, t ≠ (s.bank b).varStore → s'.store t = s.store t
  active : ∀ t, (s'.store t).active = (s.store t).active
  tSize : (s'.bank b).tSize = (s.bank b).tSize
  storeTSize : (s'.store (s.bank b).varStore).tSize = 0
  tBank : (s'.store (s.bank b).varStore).tBank = none
  records : ∃ added : List Record, (∀ c ∈ added, c.valid = true) ∧
    (s'.bank b).records = (s.bank b).records ++ added ∧
    (s'.bank b).tail = (s.bank b).tail + (added.map List.length).sum

theorem Sound.transactionUpdate (h : s.Sound P g pend) (hg : ¬ g.erased)
    (hb : s.InService pend b) {failed : Bool}
    (hcall : s.deviceTransactionUpdate P b = (failed, s1)) :
    (if failed then s1.bankFailed b else s1).Sound P g pend ∧
      OnBank b s (if failed then s1.bankFailed b else s1) ∧
      (if failed then s1.bankFailed b else s1).bank b =
        { s.bank b with deviceError := (s.bank b).deviceError || failed } := by
  have hk := h.kept b hb
  rw [deviceTransactionUpdate] at hcall
  split at hcall
  · cases hcall
    rw [if_pos rfl]
    have hon : OnBank b s (((s.issue (.transactionUpdate b (s.bank b).data)).answered).bankFailed b) :=
      ⟨rfl, rfl, rfl, fun _ hb' => bank_setBank_of_ne _ hb' _, fun _ _ => rfl,
        by rw [bankFailed, bank_setBank_self]; rfl, by rw [bankFailed, bank_setBank_self]; rfl,
        by rw [bankFailed, bank_setBank_self]; rfl, rfl,
        fun _ => by rw [bankFailed, bank_setBank_self]⟩
    refine ⟨h.onBank hon (fun _ => ?_) fun he => absurd he hg, hon, ?_⟩
    · rw [bankFailed, bank_setBank_self]
      exact hk.failed
    · rw [bankFailed, bank_setBank_self, Bool.or_true]
      rfl
  · cases hcall
    rw [if_neg Bool.false_ne_true]
    have hflash : (((s.issue (.transactionUpdate b (s.bank b).data)).answered).setFlash b
        (s.bank b).data).flash b = (s.bank b).data := Function.update_self ..
    have hon : OnBank b s (((s.issue (.transactionUpdate b (s.bank b).data)).answered).setFlash b
        (s.bank b).data) :=
      ⟨rfl, rfl, rfl, fun _ _ => rfl, fun _ hb' => Function.update_of_ne hb' .., rfl, rfl, rfl,
        (congrArg List.length hflash).trans hk.length.symm, fun h => h⟩
    refine ⟨h.onBank hon (fun _ => ?_) fun he => absurd he hg, hon, ?_⟩
    · have hkept := hk.transacted hg
      rw [← hflash] at hkept
      exact hkept
    · rw [Bool.or_false]
      rfl

theorem Ready.collectInPlace (h : s.Ready P g) (hg : g.named)
    (hb : b ∈ (s.store (s.bank b).varStore).active)
    (hrequired : (s.store (s.bank b).varStore).tBankRequired = false) :
    ∃ s', s.rtVarGarbageCollectBank P b = .ok s' ∧ s'.Ready P g ∧ Repeated b s s' := by
  generalize ht : (s.bank b).varStore = t at hb hrequired
  have hplace : ¬ g.erased := by
    intro he
    have hneeded := h.required t b hb (h.inPlace he b.device)
    rw [hrequired] at hneeded
    cases hneeded
  have hsound0 : (s.setStore t { s.store t with tBank := none, tSize := 0 }).Sound P g [] :=
    h.sound.setStore (h.sound.nodup t) (fun b hb => .inl hb) nofun nofun
  have hin0 : (s.setStore t { s.store t with tBank := none, tSize := 0 }).InService [] b :=
    .inl ⟨t, by rw [store_setStore_self]; exact hb⟩
  obtain ⟨s1, hs1, hsound1, hdoubled⟩ := hsound0.moveInPlace hg hin0
    (List.nil_append (s.bank b).records).symm
    (show (s.bank b).bankSize < recordsEnd [] + ((s.bank b).bankSize + 1) by omega)
  have hin1 := hdoubled.on.inService.mpr hin0
  cases hcall : s1.deviceTransactionUpdate P b with
  | mk failed s2 =>
    obtain ⟨hsound2, hon2, hbank2⟩ := hsound1.transactionUpdate hplace hin1 hcall
    generalize hs' : (if failed then s2.bankFailed b else s2) = s' at hsound2 hon2 hbank2
    have hon := hdoubled.on.trans hon2
    have hframe : Frame s s' := by
      refine Frame.trans (Frame.setStore s ?_) (.of_onBank hon (h.sound.numbered b (.inl ⟨t, hb⟩)))
      rfl
    have hstore : ∀ t', t' ≠ t → s'.store t' = s.store t' := by
      intro t' ht'
      rw [hon.store, store_setStore_of_ne s ht']
    have hstoreT : s'.store t = { s.store t with tBank := none, tSize := 0 } := by
      rw [hon.store, store_setStore_self]
    have hactive : ∀ t', (s'.store t').active = (s.store t').active := by
      intro t'
      by_cases ht' : t' = t
      · rw [ht', hstoreT]
      · rw [hstore t' ht']
    have hothers : ∀ t' b', t' ≠ t → (s.store t').tBank = some b' → s'.bank b' = s.bank b' := by
      intro t' b' ht' hb'
      refine hon.bank b' ?_
      rintro rfl
      exact ht' ((h.sound.tBank t' b' hb').1.symm.trans ht)
    refine ⟨s', ?_, ⟨hsound2, fun t' b' hb' => ?_, fun t' => ?_, fun t' b' hb' hd => ?_,
      h.inPlace⟩, hframe, hon.bank, by rwa [ht], hactive, hon.tSize, by rw [ht, hstoreT],
      by rw [ht, hstoreT], ?_⟩
    · rw [rtVarGarbageCollectBank, ht]
      dsimp only
      rw [if_neg (by rw [hrequired]; exact Bool.false_ne_true)]
      change (State.moveVariables P b b ((s.bank b).bankSize + 1) (recordsEnd [])
        (s.setStore t { s.store t with tBank := none, tSize := 0 }) >>= _) = _
      simp only [bind, Except.bind, hs1]
      rw [if_neg (by rw [hrequired]; exact Bool.false_ne_true), hcall, ← hs']
      rfl
    · by_cases ht' : t' = t
      · rw [ht', hstoreT] at hb'
        cases hb'
      · rw [hstore t' ht'] at hb'
        rw [hothers t' b' ht' hb']
        exact h.empty t' b' hb'
    · by_cases ht' : t' = t
      · rw [ht', hstoreT]
      · rw [hstore t' ht', h.tSize t']
        cases hb' : (s.store t').tBank with
        | none => rfl
        | some b' =>
          dsimp only
          rw [hothers t' b' ht' hb']
    · rw [hactive] at hb'
      rw [hframe.tBankRequired]
      exact h.required t' b' hb' hd
    · obtain ⟨added, hvalid, hrecords, htail⟩ := hdoubled.records
      refine ⟨added, hvalid, ?_, ?_⟩
      · rw [hbank2]
        exact hrecords
      · rw [hbank2]
        exact htail

end State

end EfiCore.Var
