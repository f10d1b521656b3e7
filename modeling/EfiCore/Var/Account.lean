import EfiCore.Var.Boot

/-! # Accounts of the space in a bank

`InUse` and `Tail` are kept up to date in five places and never counted again.  They are right in
every state of a run on banks with clean contents, as long as the size of every record fits the
parser.  Then no move of a garbage collection lacks space, if the transaction bank is what
`*TSize` says.
-/

namespace EfiCore.Var

open EfiCore.Lib

/-! ## What the books should say -/

/-- The space of the entries of a bank that parse as valid. -/
def Bank.validSize (A : Arch) (k : Bank) : Except Fault Nat := do
  let infos ← k.walk A (k.bankSize + 1) firstVariableOffset
  return ((infos.filter fun info => info.fields.isSome).map VarInfo.varSize).sum

/-- The books of a bank agree with what the parser finds in it. -/
structure Bank.Accounted (A : Arch) (k : Bank) : Prop where
  header : firstVariableOffset ≤ k.inUse
  inUse : k.inUse ≤ k.tail
  tail : k.tail ≤ k.bankSize
  valid : ∃ size, k.validSize A = .ok size ∧ k.inUse = firstVariableOffset + size

/-- The variable of a record that was parsed. -/
def Bank.readVariable (k : Bank) (info : VarInfo) : Except Fault (Option Variable) :=
  match info.fields with
  | none => .ok none
  | some fields => do
    let data ← readBuffer k.data fields.dataOffset fields.dataSize
    return some
      { name := fields.name, vendorGuid := fields.vendorGuid, attributes := fields.attributes, data }

/-- The variables of the valid records of a bank. -/
def Bank.readVariables (A : Arch) (k : Bank) : Except Fault (List Variable) := do
  let infos ← k.walk A (k.bankSize + 1) firstVariableOffset
  infos.filterMapM k.readVariable

theorem filterMapM_infos {k : Bank} {hdr rest : List Byte} {pre post : List Record}
    (h : k.Chain hdr (pre ++ post) rest) (hnamed : ∀ c ∈ post, c.Named) :
    (infosFrom (recordsEnd pre) post).filterMapM k.readVariable =
      .ok (post.filterMap Record.holding) := by
  induction post generalizing pre with
  | nil => rfl
  | cons c post ih =>
    have hnext : pre ++ c :: post = (pre ++ [c]) ++ post := by simp
    have hrest := ih (hnext ▸ h) fun c' hc' => hnamed c' (List.mem_cons_of_mem c hc')
    rw [recordsEnd_concat] at hrest
    have hread : k.readVariable (c.info (recordsEnd pre)) = .ok c.holding := by
      rw [Bank.readVariable, Record.info, Record.fields_off, Record.holding]
      cases hfields : c.fields 0 with
      | none => rfl
      | some f =>
        have hdata := Record.data_within (hnamed c List.mem_cons_self) hfields
        have hlarge := h.sized_at.large'
        have hle := h.sized_at.varSize_le
        rw [Option.map_some]
        simp only [bind, Except.bind]
        rw [h.holds.readBuffer_at (by omega)]
        rfl
    rw [infosFrom, List.filterMapM_cons, hread]
    cases hholding : c.holding with
    | none =>
      rw [List.filterMap_cons_none hholding]
      exact hrest
    | some v =>
      rw [List.filterMap_cons_some hholding]
      simp only [bind, Except.bind, hrest]
      rfl

theorem Bank.Kept.readVariables_eq {g : Regime} {k : Bank} {f : List Byte} (h : k.Kept g f)
    (hg : g.named) (A : Arch) :
    k.readVariables A = .ok (k.records.filterMap Record.holding) := by
  obtain ⟨hdr, rest, hchain⟩ := h.chain
  rw [Bank.readVariables, h.walk_eq hg]
  have hrest : k.Chain hdr ([] ++ k.records) rest := hchain
  exact filterMapM_infos hrest (h.named hg)

theorem sum_infosFrom (off : Nat) (cs : List Record) :
    (((infosFrom off cs).filter fun info => info.fields.isSome).map VarInfo.varSize).sum =
      State.validSpace cs := by
  induction cs generalizing off with
  | nil => rfl
  | cons c cs ih =>
    have hisSome : (c.info off).fields.isSome = c.valid := c.isSome_fields off
    have hvarSize : (c.info off).varSize = c.length := rfl
    rw [State.validSpace_cons, infosFrom, List.filter_cons, hisSome]
    cases c.valid with
    | true => rw [if_pos rfl, List.map_cons, List.sum_cons, ih, hvarSize, if_pos rfl]
    | false => rw [if_neg Bool.false_ne_true, ih, if_neg Bool.false_ne_true, Nat.zero_add]

theorem Bank.Kept.accounted {g : Regime} {k : Bank} {f : List Byte} (h : k.Kept g f)
    (hg : g.counted) (A : Arch) : k.Accounted A := by
  obtain ⟨hdr, rest, hchain⟩ := h.chain
  have hcounted := h.counted hg
  have hle := inUseOf_le k.records
  refine ⟨?_, ?_, hchain.tail_le, State.validSpace k.records, ?_, hcounted⟩
  · rw [hcounted, inUseOf]
    exact Nat.le_add_right _ _
  · rw [hcounted]
    exact hle.trans hchain.recordsEnd_le
  · rw [Bank.validSize, h.walk_eq (g.named_of_counted hg), ← sum_infosFrom firstVariableOffset]
    rfl

namespace State

variable {P : Platform} {g : Regime} {s s' : State} {t : StoreType} {old new : BankAddr}

/-- Where `RtVarGarbageCollectBank` moves the records of a bank. -/
def target (s : State) (old : BankAddr) : Option BankAddr :=
  if (s.store (s.bank old).varStore).tBankRequired then (s.store (s.bank old).varStore).tBank
  else some old

/-- A collection of the bank `old` adds every variable of it to the bank it goes to. -/
def MovesAll (P : Platform) (s : State) (old : BankAddr) : Prop :=
  ∀ new, s.target old = some new → ∃ s' there moved,
    s.rtVarGarbageCollectBank P old = .ok s' ∧
    (s.bank new).readVariables P.arch = .ok there ∧
    (s.bank old).readVariables P.arch = .ok moved ∧
    (s'.bank new).readVariables P.arch = .ok (there ++ moved)

/-- A collection goes to a transaction bank that has as much space as `*TSize` says. -/
structure Suited (s : State) (old : BankAddr) : Prop where
  required : (s.store (s.bank old).varStore).tBankRequired = true
  large : ∀ new, (s.store (s.bank old).varStore).tBank = some new →
    s.tSizeOf old ≤ (s.bank new).bankSize

/-! ## Runs -/

/-- A valid record, as a loop over its bank meets it. -/
structure Met (P : Platform) (s : State) (t : StoreType) (b : BankAddr) (info : VarInfo) :
    Prop where
  active : b ∈ (s.store t).active
  walked : ∃ infos, (s.bank b).walk P.arch ((s.bank b).bankSize + 1) firstVariableOffset =
    .ok infos ∧ info ∈ infos
  isSome : info.fields.isSome = true

/-- The states of a run: between the calls of the services, and between the steps of discovery, of
    recovery and of the search for space, before and after `ExitBootServices`.  Every variable that
    is set is one `admits` lets pass. -/
inductive Reach (P : Platform) (flash : Flash) (noBanks : Nat → Nat) (devices : List Nat)
    (admits : VarName → List Byte → Prop) : State → Prop
  | discovered {s : State}
      (h : devices.foldlM (fun s device => s.varAddDevice P device) (initial flash noBanks) = .ok s) :
      Reach P flash noBanks devices admits s
  | reserved {s s' : State} {t : StoreType} (h : Reach P flash noBanks devices admits s)
      (hneeded : (s.store t).tBank = none) (hs : s.rtVarGetTransactionBank P t = .ok s') :
      Reach P flash noBanks devices admits s'
  | transition {s s' : State} {t : StoreType} (h : Reach P flash noBanks devices admits s)
      (hs : s.checkTransition P t = .ok s') : Reach P flash noBanks devices admits s'
  | removed {s s' : State} {t : StoreType} {b : BankAddr} {info : VarInfo}
      (h : Reach P flash noBanks devices admits s) (hmet : s.Met P t b info)
      (hs : s.removeRecord P b info = .ok s') : Reach P flash noBanks devices admits s'
  | restored {s s' : State} {t : StoreType} {b : BankAddr} {info : VarInfo} {restart : Bool}
      (h : Reach P flash noBanks devices admits s) (hmet : s.Met P t b info)
      (hs : s.restoreRecord P b info = .ok (restart, s')) : Reach P flash noBanks devices admits s'
  | collected {s s' : State} {t : StoreType} {updated : Bool}
      (h : Reach P flash noBanks devices admits s)
      (hs : s.rtVarGarbageCollect P t = .ok (updated, s')) : Reach P flash noBanks devices admits s'
  | installed {s : State} (h : (initial flash noBanks).fwNvStoreInstalled P devices = .ok s) :
      Reach P flash noBanks devices admits s
  | set {s s' : State} {name : Option VarName} {guid : Guid} {attributes : BitVec 32}
      {data : List Byte} {status : Status} (h : Reach P flash noBanks devices admits s)
      (hadmits : ∀ n, name = some n → admits n data)
      (hs : s.rtSetVariable P name guid attributes data = .ok (status, s')) :
      Reach P flash noBanks devices admits s'
  | exited {s : State} (h : Reach P flash noBanks devices admits s) :
      Reach P flash noBanks devices admits { s with efiAtRuntime := true }

/-- `ExitBootServices` changes neither a bank nor a store. -/
theorem Good.exited (h : s.Good P g) : ({ s with efiAtRuntime := true } : State).Good P g where
  sound := ⟨h.sound.nodup, h.sound.active, h.sound.tBank, h.sound.pending, h.sound.kept,
    h.sound.numbered, h.sound.size, h.sound.log⟩
  empty := h.empty
  tSize := h.tSize
  required := h.required
  inPlace := h.inPlace
  fresh := h.fresh

theorem Met.holds {b : BankAddr} {info : VarInfo} (h : s.Met P t b info) (hs : s.Sound P g [])
    (hg : g.named) : ∃ pre c post, s.Holds t b pre c post info := by
  obtain ⟨infos, hwalk, hinfo⟩ := h.walked
  rw [(hs.kept b (.inl ⟨t, h.active⟩)).walk_eq hg] at hwalk
  obtain rfl := Except.ok.inj hwalk
  obtain ⟨pre, c, post, hrecords, rfl⟩ := Bank.mem_infos.mp hinfo
  have hplaced := c.placed_info (recordsEnd pre)
  refine ⟨pre, c, post, h.active, hrecords, hplaced, h.isSome, (hplaced.valid h.isSome).2, ?_⟩
  rw [← c.isSome_fields (recordsEnd pre)]
  exact h.isSome

/-- Every state of a run is in order. -/
theorem Reach.good {flash : Flash} {noBanks : Nat → Nat} {devices : List Nat}
    (h : Reach P flash noBanks devices Fits s) (hg : g.named) (hprepared : Prepared P g flash)
    (hdevices : devices.Nodup) : s.Good P g := by
  induction h with
  | discovered hs =>
    exact (hprepared.discovered hdevices noBanks _ hs).good
  | reserved _ hneeded hs ih =>
    obtain ⟨s', hs', hgood, -⟩ := ih.reserve _ hneeded
    rw [hs'] at hs
    exact Except.ok.inj hs ▸ hgood
  | transition _ hs ih => exact (ih.checkTransition hg _ _ hs).1
  | removed _ hmet hs ih =>
    obtain ⟨pre, c, post, hr⟩ := hmet.holds ih.sound hg
    obtain ⟨s', hs', hgood, -⟩ := ih.removeRecord hg hr
    rw [hs'] at hs
    exact Except.ok.inj hs ▸ hgood
  | restored _ hmet hs ih =>
    obtain ⟨pre, c, post, hr⟩ := hmet.holds ih.sound hg
    exact (ih.restoreRecord hg hr _ hs).1
  | collected _ hs ih => exact (ih.garbageCollect hg _ _ hs).1
  | installed hs => exact (hprepared.fwNvStoreInstalled hg noBanks hdevices _ hs).1
  | set _ hadmits hs ih => exact (ih.rtSetVariable hg _ _ _ _ hadmits _ hs).1
  | exited _ ih => exact ih.exited

/-- The bank that took the records is in service still, on the list or as the transaction bank
    again. -/
theorem Collected.served (h : Collected old new s s') : s'.InService [] new := by
  obtain ⟨banks, hbanks, -, hlast⟩ := h.lists
  have hmem : new ∈ banks := by
    obtain ⟨-, hbanks⟩ | ⟨hbanks, -⟩ := hbanks
    · rw [hbanks]
      simp
    · rw [hbanks]
      simp
  obtain ⟨-, hactive, -⟩ | ⟨best, -, -, hactive, htBank⟩ := hlast
  · exact .inl ⟨_, hactive ▸ hmem⟩
  · by_cases hbest : new = best
    · subst hbest
      exact .inr (.inl ⟨_, htBank⟩)
    · refine .inl ⟨(s.bank old).varStore, ?_⟩
      rw [hactive]
      exact (List.mem_erase_of_ne hbest).mpr hmem

/-- No valid variable is dropped when there is as much space as `*TSize` says. -/
theorem Good.movesAll (h : s.Good P g) (hg : g.counted) (hold : old ∈ (s.store t).active)
    (hsuited : s.Suited old) (hspace : (s.bank old).inUse ≤ s.tSizeOf old) : s.MovesAll P old := by
  intro new htarget
  obtain rfl := h.sound.active t old hold
  have hnamed := g.named_of_counted hg
  rw [target, if_pos hsuited.required] at htarget
  have hfits := hspace.trans (hsuited.large new htarget)
  obtain ⟨s', hs', hready, hcollected⟩ :=
    h.toReady.collectBank hnamed hold hsuited.required htarget
  have hkOld := h.sound.kept old (.inl ⟨_, hold⟩)
  have hkNew := h.sound.kept new (.inr (.inl ⟨_, htarget⟩))
  have hnil := hkNew.records_eq_nil (h.empty _ new htarget)
  obtain ⟨moved, -, hrecords, -, hall⟩ := hcollected.moved
  rw [hkOld.counted hg] at hfits
  obtain rfl := hall hfits
  have hserved := hcollected.served
  have hk' := hready.sound.kept new hserved
  refine ⟨s', [], _, hs', ?_, hkOld.readVariables_eq hnamed P.arch, ?_⟩
  · rw [hkNew.readVariables_eq hnamed, hnil]
    rfl
  · rw [hk'.readVariables_eq hnamed, hrecords, List.nil_append, List.filterMap_map]
    obtain ⟨hdr, rest, hchain⟩ := hkOld.chain
    have hsame : ∀ cs : List Record, (∀ c ∈ cs, c.Sized ∧ c.Named) →
        (cs.filter Record.valid).filterMap (Record.holding ∘ Record.readded) =
          cs.filterMap Record.holding := by
      intro cs hcs
      induction cs with
      | nil => rfl
      | cons c cs ih =>
        have hrest := ih fun c' hc' => hcs c' (List.mem_cons_of_mem c hc')
        obtain ⟨hsized, hcnamed⟩ := hcs c List.mem_cons_self
        cases hvalid : c.valid with
        | false =>
          rw [List.filter_cons_of_neg (by rw [hvalid]; exact Bool.false_ne_true),
            List.filterMap_cons_none (Record.holding_eq_none hvalid), hrest]
        | true =>
          obtain ⟨v, hv⟩ := Record.exists_holding hvalid
          have hreadded : (Record.holding ∘ Record.readded) c = some v :=
            (Record.holding_readded hsized hcnamed hvalid).trans hv
          rw [List.filter_cons_of_pos hvalid, List.filterMap_cons_some hreadded,
            List.filterMap_cons_some hv, hrest]
    rw [hsame _ fun c hc => ⟨hchain.sized c hc, hkOld.named hnamed c hc⟩]

/-- What is asked of the books: records have names that end, and `InUse` is counted. -/
def accounting : Regime := ⟨True, True, False, fun _ => trivial⟩

/-- The books are right, and every collection that `*TSize` allows for moves all there is. -/
structure Accounts (P : Platform) (s : State) : Prop where
  banks : ∀ t, ∀ b ∈ (s.store t).active, (s.bank b).Accounted P.arch
  moves : ∀ t, ∀ old ∈ (s.store t).active, (s.bank old).inUse ≤ s.tSizeOf old → s.MovesAll P old

/-- In every state of a run on clean banks the books of every bank on a list are right, and every
    collection that is not in place moves all there is to the transaction bank. -/
theorem accountsSpace_of_clean {flash : Flash} {noBanks : Nat → Nat} {devices : List Nat}
    (hdevices : devices.Nodup) (hsize : ∀ b, (flash b).length = (P.device b.device).bankSize)
    (hclean : ∀ b, Clean P.arch accounting (flash b)) (hs : Reach P flash noBanks devices Fits s) :
    (∀ t, ∀ b ∈ (s.store t).active, (s.bank b).Accounted P.arch) ∧
      ∀ t, ∀ old ∈ (s.store t).active, s.Suited old →
        (s.bank old).inUse ≤ s.tSizeOf old → s.MovesAll P old := by
  have hgood : s.Good P accounting := hs.good trivial ⟨hsize, hclean, nofun⟩ hdevices
  exact ⟨fun t b hb => (hgood.sound.kept b (.inl ⟨t, hb⟩)).accounted trivial P.arch,
    fun t old hold hsuited => hgood.movesAll trivial hold hsuited⟩

/-- A bank that was never written. -/
def blankBank : List Byte := List.replicate 96 0xFF

theorem blankBank_clean (b : BankAddr) :
    Clean (steadyPlatform 96).arch accounting ((fun _ => blankBank : Flash) b) := by
  intro hinteresting
  have hblank : interesting blankBank = false := by decide
  rw [hblank] at hinteresting
  cases hinteresting

theorem length_blankBank (b : BankAddr) :
    ((fun _ => blankBank : Flash) b).length = ((steadyPlatform 96).device b.device).bankSize :=
  List.length_replicate

/-- Like `steadyPlatform`, with a device whose updates go through a transaction bank. -/
def pairPlatform : Platform :=
  { steadyPlatform 96 with
    device := fun device =>
      { (steadyPlatform 96).device device with transactionUpdate := false } }

/-- A variable is set, removed and set again, on two banks that were never written. -/
def rewritten : Except Fault State := do
  let s ← (initial (fun _ => blankBank) fun _ => 2).fwNvStoreInstalled pairPlatform [0]
  let r ← s.rtSetVariable pairPlatform (some (letters 1)) 0 7 [1]
  let r ← r.2.rtSetVariable pairPlatform (some (letters 1)) 0 7 []
  let r ← r.2.rtSetVariable pairPlatform (some (letters 1)) 0 7 [1]
  return r.2

theorem fits_letters (data : List Byte) (hdata : data.length ≤ 1) :
    ∀ n, some (letters 1) = some n → Fits n data := by
  rintro n ⟨⟩
  have hname : (letters 1).size = 4 := by decide
  rw [Fits, hname, sizeofVariable]
  omega

theorem rewritten_reach {s : State} (h : rewritten = .ok s) :
    Reach pairPlatform (fun _ => blankBank) (fun _ => 2) [0] Fits s := by
  obtain ⟨s1, hs1, h⟩ := bind_eq_ok h
  obtain ⟨⟨status2, s2⟩, hs2, h⟩ := bind_eq_ok h
  obtain ⟨⟨status3, s3⟩, hs3, h⟩ := bind_eq_ok h
  obtain ⟨⟨status4, s4⟩, hs4, h⟩ := bind_eq_ok h
  obtain rfl : s4 = s := Except.ok.inj h
  exact .set (.set (.set (.installed hs1) (fits_letters [1] (Nat.le_refl 1)) hs2)
    (fits_letters [] (Nat.zero_le 1)) hs3) (fits_letters [1] (Nat.le_refl 1)) hs4

/-- The bank in use has an obsolete record beside a valid one, and the other bank is the
    transaction bank. -/
structure Rewritten (s : State) : Prop where
  active : (s.store .nvBsRt).active = [⟨0, 1⟩]
  tBankRequired : (s.store .nvBsRt).tBankRequired = true
  tBank : (s.store .nvBsRt).tBank = some ⟨0, 0⟩
  varStore : (s.bank ⟨0, 1⟩).varStore = .nvBsRt
  inUse : (s.bank ⟨0, 1⟩).inUse = 36
  tail : (s.bank ⟨0, 1⟩).tail = 64
  tSizeOf : s.tSizeOf ⟨0, 1⟩ = 96
  bankSize : (s.bank ⟨0, 0⟩).bankSize = 96

instance decidableRewritten (s : State) : Decidable s.Rewritten :=
  decidable_of_iff
    ((s.store .nvBsRt).active = [⟨0, 1⟩] ∧ (s.store .nvBsRt).tBankRequired = true ∧
      (s.store .nvBsRt).tBank = some ⟨0, 0⟩ ∧ (s.bank ⟨0, 1⟩).varStore = .nvBsRt ∧
      (s.bank ⟨0, 1⟩).inUse = 36 ∧ (s.bank ⟨0, 1⟩).tail = 64 ∧ s.tSizeOf ⟨0, 1⟩ = 96 ∧
      (s.bank ⟨0, 0⟩).bankSize = 96)
    ⟨fun ⟨h1, h2, h3, h4, h5, h6, h7, h8⟩ => ⟨h1, h2, h3, h4, h5, h6, h7, h8⟩,
      fun ⟨h1, h2, h3, h4, h5, h6, h7, h8⟩ => ⟨h1, h2, h3, h4, h5, h6, h7, h8⟩⟩

theorem exists_rewritten : ∃ s, rewritten = .ok s ∧ s.Rewritten := by
  have hcheck : (do
      let s ← rewritten
      return decide s.Rewritten) = (.ok true : Except Fault Bool) := by decide +kernel
  obtain ⟨s, hs, hfacts⟩ := bind_eq_ok hcheck
  exact ⟨s, hs, of_decide_eq_true (Except.ok.inj hfacts)⟩

theorem accountsSpace_of_clean_rewritten : ∃ s : State, s.Rewritten ∧
    (s.bank ⟨0, 1⟩).Accounted .efi32 ∧ s.MovesAll pairPlatform ⟨0, 1⟩ := by
  obtain ⟨s, hs, hfacts⟩ := exists_rewritten
  obtain ⟨hbanks, hmoves⟩ := accountsSpace_of_clean (P := pairPlatform) (by decide)
    length_blankBank blankBank_clean (rewritten_reach hs)
  have hactive : (⟨0, 1⟩ : BankAddr) ∈ (s.store .nvBsRt).active := by
    rw [hfacts.active]
    exact List.mem_cons_self
  refine ⟨s, hfacts, hbanks .nvBsRt _ hactive, hmoves .nvBsRt _ hactive ⟨?_, ?_⟩ ?_⟩
  · rw [hfacts.varStore, hfacts.tBankRequired]
  · intro new hnew
    rw [hfacts.varStore, hfacts.tBank] at hnew
    obtain rfl := Option.some.inj hnew
    rw [hfacts.tSizeOf, hfacts.bankSize]
  · rw [hfacts.inUse, hfacts.tSizeOf]
    decide

/-- A bank with one record, behind which the size field of another is broken. -/
def corruptBank : List Byte :=
  (freshHeader 1).bytes ++ newRecord (letters 1) 0 7 [1] ++ [0xFF, 0xFF] ++ [0xF0, 0x0F] ++
    List.replicate 58 0xFF

/-- The books of the bank that was broken say that it is empty, but its copy holds the record. -/
theorem not_alwaysAccounts : ¬ ∀ (P : Platform) (flash : Flash) (noBanks : Nat → Nat)
    (devices : List Nat) (s : State), devices.Nodup →
    (∀ b, (flash b).length = (P.device b.device).bankSize) →
    Reach P flash noBanks devices (fun _ _ => True) s → Accounts P s := by
  intro hall
  have hcheck : (match [0].foldlM
      (fun s device => State.varAddDevice (steadyPlatform 96) device s)
      (State.initial (fun _ => corruptBank) fun _ => 1) with
    | .ok s => decide (⟨0, 0⟩ ∈ (s.store .nvBsRt).active) &&
        decide ((s.bank ⟨0, 0⟩).inUse = 8) &&
        (match (s.bank ⟨0, 0⟩).validSize .efi32 with
          | .ok size => decide (size = 28)
          | .error _ => false)
    | .error _ => false) = true := by decide +kernel
  cases hfold : [0].foldlM (fun s device => State.varAddDevice (steadyPlatform 96) device s)
      (State.initial (fun _ => corruptBank) fun _ => 1) with
  | error fault =>
    rw [hfold] at hcheck
    cases hcheck
  | ok s =>
    have hlength : corruptBank.length = 96 := by decide
    obtain ⟨hbanks, -⟩ := hall (steadyPlatform 96) (fun _ => corruptBank) (fun _ => 1) [0] s
      (by decide) (fun _ => hlength) (.discovered hfold)
    rw [hfold] at hcheck
    simp only [Bool.and_eq_true, decide_eq_true_eq] at hcheck
    obtain ⟨⟨hactive, hinUse⟩, hsize⟩ := hcheck
    obtain ⟨size, hvalid, hsum⟩ := (hbanks .nvBsRt ⟨0, 0⟩ hactive).valid
    have hvalid' : (s.bank ⟨0, 0⟩).validSize .efi32 = .ok size := hvalid
    rw [hvalid'] at hsize
    have hsize' : size = 28 := of_decide_eq_true hsize
    rw [hinUse, hsize', firstVariableOffset, sizeofBankHeader] at hsum
    omega

end State

end EfiCore.Var
