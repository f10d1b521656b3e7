import EfiCore.Var.Sound

/-! # Edits of the banks

What the functions do to one bank of a sound state.  Each returns, and leaves the state sound;
what becomes of the records of the bank is said beside it.
-/

namespace EfiCore.Var

open EfiCore.Lib

namespace State

variable {P : Platform} {g : Regime} {s s1 : State} {pend : List BankAddr} {b : BankAddr}

theorem Sound.length_eq (h : s.Sound P g pend) (hb : s.InService pend b) :
    (s.flash b).length = (s.bank b).data.length := (h.kept b hb).length

theorem writeData_eq {off : Nat} {bytes : List Byte}
    (hfits : off + bytes.length ≤ (s.bank b).data.length) :
    s.writeData b off bytes =
      .ok (s.setBank b { s.bank b with data := splice (s.bank b).data off bytes }) := by
  rw [writeData, writeBuffer, if_pos hfits]
  rfl

/-! ## Headers -/

/-- The records of the bank are where they were. -/
structure SameRecords (b : BankAddr) (s s' : State) : Prop where
  on : OnBank b s s'
  records : (s'.bank b).records = (s.bank b).records
  tail : (s'.bank b).tail = (s.bank b).tail
  inUse : (s'.bank b).inUse = (s.bank b).inUse

/-- A part of the header is rewritten, and the device gets the header. -/
theorem Sound.updateHeader (h : s.Sound P g pend) (hb : s.InService pend b) {i : Nat}
    {bytes : List Byte} (state : Byte) (hin : i + bytes.length ≤ firstVariableOffset)
    (hoff : (s.bank b).data.getD 7 0 = (s.bank b).state ^^^ 0xFF →
      ∀ j, j < bytes.length → BitsOff (bytes.getD j 0) ((s.bank b).data.getD (i + j) 0))
    (hstate : (s.bank b).data.getD 7 0 = (s.bank b).state ^^^ 0xFF →
      (splice (s.bank b).data i bytes).getD 7 0 = state ^^^ 0xFF) :
    ∃ s', (s.setBank b { s.bank b with data := splice (s.bank b).data i bytes, state }
      ).rtVarUpdateStore P b 0 sizeofBankHeader = .ok s' ∧ s'.Sound P g pend ∧
      SameRecords b s s' := by
  have hk := h.kept b hb
  have hnew := hk.writeHeader hin hoff hstate
  have htail := hk.header_le
  have hle := hk.tail_le
  have hlen : (splice (s.bank b).data i bytes).length = (s.bank b).data.length :=
    length_splice (by omega)
  generalize hk' : ({ s.bank b with data := splice (s.bank b).data i bytes, state } : Bank) = k
    at hnew
  have hdata : k.data.length = (s.bank b).data.length := by rw [← hk']; exact hlen
  have hvarStore : k.varStore = (s.bank b).varStore := by rw [← hk']
  have htSize : k.tSize = (s.bank b).tSize := by rw [← hk']
  have herror : k.deviceError = (s.bank b).deviceError := by rw [← hk']
  have hktail : k.tail = (s.bank b).tail := by rw [← hk']
  have hrecords : k.records = (s.bank b).records := by
    obtain ⟨hdr, rest, hchain⟩ := hk.chain
    rw [← hk']
    exact ((hchain.writeHeader hin).congr rfl rfl).records_eq
  have hinUse : k.inUse = (s.bank b).inUse := by rw [← hk']
  obtain ⟨s', hs', hwritten⟩ := rtVarUpdateStore_written P (s.setBank b k) b 0 sizeofBankHeader
    (by
      rw [bank_setBank_self, hdata, Nat.zero_add]
      exact Nat.le_trans htail hle)
    (by
      rw [bank_setBank_self, hdata]
      exact hk.length)
  rw [bank_setBank_self] at hwritten
  have hbank := hwritten.bank_eq
  rw [bank_setBank_self] at hbank
  have hlast : s' = s'.setBank b { k with deviceError := (s'.bank b).deviceError } := by
    rw [← hbank, setBank_bank_self]
  obtain ⟨hsound, hon⟩ := h.edit 0 sizeofBankHeader (fun _ => hnew) (by rw [hktail, Nat.zero_add]; exact htail)
    ⟨hvarStore, htSize, hdata, herror⟩ hwritten rfl ⟨rfl, rfl, rfl⟩ hlast (by
      intro hg hok j hj
      rw [Nat.zero_add]
      exact (hnew.synced hg hok).below j (.inl hj))
  refine ⟨s', hs', hsound, hon, ?_, ?_, ?_⟩
  · rw [hbank]
    exact hrecords
  · rw [hbank]
    exact hktail
  · rw [hbank]
    exact hinUse

theorem Sound.updateBankState (h : s.Sound P g pend) (hb : s.InService pend b) (newBit : Byte) :
    ∃ s', s.rtVarUpdateBankState P b newBit = .ok s' ∧ s'.Sound P g pend ∧
      SameRecords b s s' := by
  have hk := h.kept b hb
  have hheader := hk.header_le
  have hle := hk.tail_le
  have hseven : 7 + [((s.bank b).state ||| newBit) ^^^ 0xFF].length ≤ firstVariableOffset :=
    Nat.le_refl _
  have hfits := Nat.le_trans hseven (Nat.le_trans hheader hle)
  obtain ⟨s', hs', hsound⟩ := h.updateHeader hb ((s.bank b).state ||| newBit) hseven
    (by
      intro hstate j hj
      obtain rfl : j = 0 := by simpa using hj
      rw [Nat.add_zero, hstate]
      exact BitsOff.inverted _ _)
    (by
      intro _
      rw [getD_splice hfits, if_pos (by simp)]
      rfl)
  refine ⟨s', ?_, hsound⟩
  rw [rtVarUpdateBankState, writeData_eq (by rw [bank_setBank_self]; exact hfits),
    bank_setBank_self, setBank_setBank]
  exact hs'

/-! ## States of records -/

/-- The record `c` has got the bits `bits`. -/
structure Marked (b : BankAddr) (pre post : List Record) (c : Record) (bits : Byte)
    (s s' : State) : Prop where
  on : OnBank b s s'
  records : (s'.bank b).records = pre ++ c.withBits bits :: post
  tail : (s'.bank b).tail = (s.bank b).tail

variable {pre post : List Record} {c : Record}

theorem Sound.split_records (h : s.Sound P g pend) (hb : s.InService pend b)
    (hrecords : (s.bank b).records = pre ++ c :: post) :
    c.Sized ∧ recordsEnd pre + c.length ≤ (s.bank b).tail ∧
      (s.bank b).tail ≤ (s.bank b).data.length := by
  have hk := h.kept b hb
  obtain ⟨hdr, rest, hchain⟩ := hk.chain
  rw [hrecords] at hchain
  exact ⟨hchain.sized_at, Nat.le_trans (Bank.Chain.within c pre post) hchain.recordsEnd_le,
    hk.tail_le⟩

/-- The state of a valid record gets the bits `bits`.  `u` is what `InUse` is before the update
    of the device, and `u'` what it is after it. -/
theorem Sound.mark (h : s.Sound P g pend) (hb : s.InService pend b)
    (hrecords : (s.bank b).records = pre ++ c :: post) {info : VarInfo} (bits : Byte)
    (hplaced : c.Placed (recordsEnd pre) info) (hstate : info.state = c.state)
    (hvalid : g.named → c.valid = true) (u u' : Nat)
    (hinUse : g.counted →
      u' = if (c.withBits bits).stored then (s.bank b).inUse else (s.bank b).inUse - c.length) :
    ∃ s2, (s.setBank b { s.bank b with inUse := u }).rtVarUpdateState P b info bits =
        .ok ({ info with state := info.state ||| bits }, s2) ∧
      (s2.bank b).inUse = u ∧
      (s2.setBank b { s2.bank b with inUse := u' }).Sound P g pend ∧
      Marked b pre post c bits s (s2.setBank b { s2.bank b with inUse := u' }) := by
  have hk := h.kept b hb
  obtain ⟨hsized, hend, htail⟩ := h.split_records hb hrecords
  have hlarge := hsized.large'
  have hle := hsized.varSize_le
  have hoffset : info.stateOffset = recordsEnd pre + (c.varSize - 1) := by
    rw [hplaced.stateOffset]
    omega
  have hbyte : (info.state ||| bits) ^^^ 0xFF = (c.state ||| bits) ^^^ 0xFF := by rw [hstate]
  have hfits : recordsEnd pre + (c.varSize - 1) + [(c.state ||| bits) ^^^ 0xFF].length ≤
      (s.bank b).data.length := by
    rw [List.length_singleton]
    omega
  have hlow : BitsOff ((c.state ||| bits) ^^^ 0xFF) c.stateByte := by
    have hinverted := BitsOff.inverted c.state bits
    rwa [Record.state, BitVec.xor_assoc, BitVec.xor_self, BitVec.xor_zero] at hinverted
  obtain ⟨hkept, hnewRecords⟩ := hk.writeState hrecords u' hlow hvalid hinUse
  have hlen : (splice (s.bank b).data (recordsEnd pre + (c.varSize - 1))
      [(c.state ||| bits) ^^^ 0xFF]).length = (s.bank b).data.length := length_splice hfits
  have hslice := slice_splice hfits
  generalize hdata : splice (s.bank b).data (recordsEnd pre + (c.varSize - 1))
    [(c.state ||| bits) ^^^ 0xFF] = data at hkept hnewRecords hlen hslice
  rw [List.length_singleton] at hslice
  -- the copy is written, then the device
  obtain ⟨s2, hs2, hwritten⟩ := rtVarUpdateStore_written P
    (s.setBank b { s.bank b with data, inUse := u }) b (recordsEnd pre + (c.varSize - 1)) 1
    (by
      rw [bank_setBank_self]
      dsimp only
      rw [hlen]
      omega)
    (by
      rw [bank_setBank_self]
      exact hk.length.trans hlen.symm)
  have hbank := hwritten.bank_eq
  rw [bank_setBank_self] at hwritten hbank
  have hlast : s2.setBank b { s2.bank b with inUse := u' } = s2.setBank b
      { s.bank b with data, inUse := u', deviceError := (s2.bank b).deviceError } := by
    rw [hbank]
  obtain ⟨hsound, hon⟩ := h.edit (recordsEnd pre + (c.varSize - 1)) 1 (fun _ => hkept)
    (by dsimp only; omega) ⟨rfl, rfl, hlen, rfl⟩ hwritten rfl ⟨rfl, rfl, rfl⟩ hlast (by
      intro hg hok j hj
      obtain rfl : j = 0 := by omega
      have hbelow := (hkept.synced hg hok).below
      rw [hnewRecords] at hbelow
      apply hbelow
      have hplace := mem_stateOffsets pre post (c.withBits bits)
      rwa [Record.withBits, Record.varSize_withState hsized] at hplace)
  refine ⟨s2, ?_, ?_, hsound, hon, ?_, ?_⟩
  · rw [rtVarUpdateState]
    dsimp only
    rw [hoffset, hbyte, writeData_eq (by rw [bank_setBank_self]; exact hfits), bank_setBank_self,
      setBank_setBank, hdata]
    simp only [bind, Except.bind]
    rw [hs2]
    rfl
  · rw [hbank]
  · rw [hlast, bank_setBank_self]
    exact hnewRecords
  · rw [hlast, bank_setBank_self]

theorem Sound.transit (h : s.Sound P g pend) (hb : s.InService pend b)
    (hrecords : (s.bank b).records = pre ++ c :: post) {info : VarInfo}
    (hplaced : c.Placed (recordsEnd pre) info) (hisSome : info.fields.isSome = true)
    (hvalid : g.named → c.valid = true) :
    ∃ s', s.rtVarUpdateState P b info varObsoleteTransition =
        .ok ({ info with state := info.state ||| varObsoleteTransition }, s') ∧
      s'.Sound P g pend ∧ Marked b pre post c varObsoleteTransition s s' ∧
      (s'.bank b).inUse = (s.bank b).inUse := by
  obtain ⟨hstored, hstate⟩ := hplaced.valid hisSome
  have hsized := (h.split_records hb hrecords).1
  obtain ⟨s', hs', hinUse, hsound, hmarked⟩ := h.mark hb hrecords
    varObsoleteTransition hplaced hstate hvalid (s.bank b).inUse (s.bank b).inUse (by
      intro _
      rw [Record.stored_withBits hsized _ rfl, hstored]
      rfl)
  have hlast : s'.setBank b { s'.bank b with inUse := (s.bank b).inUse } = s' := by
    rw [← hinUse, setBank_bank_self]
  rw [hlast] at hsound hmarked
  exact ⟨s', (setBank_bank_self s b ▸ hs'), hsound, hmarked, hinUse⟩

/-- What `InUse` is when a valid record has become obsolete. -/
theorem Sound.sub_inUse (h : s.Sound P g pend) (hb : s.InService pend b)
    (hrecords : (s.bank b).records = pre ++ c :: post) (hvalid : g.named → c.valid = true)
    {bits : Byte} (hadded : hasBits bits varAdded = false) (hobsolete : hasBits bits varObsolete)
    (hg : g.counted) :
    P.arch.sub (s.bank b).inUse c.length =
      if (c.withBits bits).stored then (s.bank b).inUse else (s.bank b).inUse - c.length := by
  have hk := h.kept b hb
  obtain ⟨hdr, rest, hchain⟩ := hk.chain
  have hsized := (h.split_records hb hrecords).1
  have hmem : c ∈ (s.bank b).records := by rw [hrecords]; simp
  have hspace := length_le_inUseOf hmem (hvalid (g.named_of_counted hg))
  have hle := inUseOf_le (s.bank b).records
  have hend := hchain.recordsEnd_le
  have htail := hchain.tail_le
  have hsmall : (s.bank b).bankSize < 2 ^ 32 := hchain.small
  rw [Record.stored_withBits hsized _ hadded, hobsolete, Bool.not_true, Bool.and_false,
    if_neg Bool.false_ne_true, hk.counted hg, Arch.sub_of_le (by omega) (by omega)]

theorem Sound.obsoleteVariable (h : s.Sound P g pend) (hb : s.InService pend b)
    (hrecords : (s.bank b).records = pre ++ c :: post) {info : VarInfo}
    (hplaced : c.Placed (recordsEnd pre) info) (hstate : info.state = c.state)
    (hvalid : g.named → c.valid = true) :
    ∃ status s', s.obsoleteVariable P b info = .ok (status, s') ∧ s'.Sound P g pend ∧
      Marked b pre post c (varObsoleteTransition ||| varObsolete) s s' ∧
      status = if (s'.bank b).deviceError then .deviceError else .success := by
  obtain ⟨s2, hs2, hinUse, hsound, hmarked⟩ := h.mark hb hrecords
    (varObsoleteTransition ||| varObsolete) hplaced hstate hvalid (s.bank b).inUse
    (P.arch.sub (s.bank b).inUse c.length)
    (h.sub_inUse hb hrecords hvalid rfl rfl)
  rw [setBank_bank_self] at hs2
  refine ⟨_, _, ?_, hsound, hmarked, rfl⟩
  rw [State.obsoleteVariable, hs2]
  simp only [bind, Except.bind, hinUse, hplaced.varSize]
  rfl

theorem Sound.removeRecord (h : s.Sound P g pend) (hb : s.InService pend b)
    (hrecords : (s.bank b).records = pre ++ c :: post) {info : VarInfo}
    (hplaced : c.Placed (recordsEnd pre) info) (hisSome : info.fields.isSome = true)
    (hvalid : g.named → c.valid = true) :
    ∃ s', s.removeRecord P b info = .ok s' ∧ s'.Sound P g pend ∧
      Marked b pre post c varObsolete s s' := by
  obtain ⟨hstored, hstate⟩ := hplaced.valid hisSome
  obtain ⟨s2, hs2, hinUse, hsound, hmarked⟩ := h.mark hb hrecords
    varObsolete hplaced hstate hvalid (P.arch.sub (s.bank b).inUse c.length)
    (P.arch.sub (s.bank b).inUse c.length)
    (h.sub_inUse hb hrecords hvalid rfl rfl)
  have hlast : s2.setBank b { s2.bank b with inUse := P.arch.sub (s.bank b).inUse c.length } =
      s2 := by
    rw [← hinUse, setBank_bank_self]
  rw [hlast] at hsound hmarked
  refine ⟨s2, ?_, hsound, hmarked⟩
  rw [State.removeRecord, hplaced.varSize]
  simp only [bind, Except.bind]
  rw [hs2]
  rfl

/-! ## New records -/

/-- The record `c` was added at the tail of the bank. -/
structure Appended (b : BankAddr) (c : Record) (s s' : State) : Prop where
  on : OnBank b s s'
  records : (s'.bank b).records = (s.bank b).records ++ [c]
  tail : (s'.bank b).tail = (s.bank b).tail + c.length

/-- A record is written at the tail of the copy, and the device gets it. -/
theorem Sound.appendWritten (h : s.Sound P g pend) (hb : s.InService pend b) (hsized : c.Sized)
    (hroom : (s.bank b).tail + c.length ≤ (s.bank b).bankSize)
    (hvalid : g.named → c.Named ∧ c.valid = true) (k1 : Bank)
    (hk1 : k1.data = splice (s.bank b).data (s.bank b).tail c ∧
      k1.varStore = (s.bank b).varStore ∧ k1.tSize = (s.bank b).tSize ∧
      k1.deviceError = (s.bank b).deviceError) :
    ∃ s2, (s.setBank b k1).rtVarUpdateStore P b (s.bank b).tail c.length = .ok s2 ∧
      s2.bank b = { k1 with deviceError := (s2.bank b).deviceError } ∧
      ∀ s3, s3 = s2.setBank b
          { k1 with
            deviceError := (s2.bank b).deviceError, state := (s.bank b).state,
            tail := (s.bank b).tail + c.length,
            inUse := P.arch.add (s.bank b).inUse c.length } →
        s3.Sound P g pend ∧ Appended b c s s3 := by
  have hk := h.kept b hb
  obtain ⟨hkept, hnewRecords⟩ := hk.append P.arch hsized hroom hvalid
  obtain ⟨hdata1, hvarStore1, htSize1, herror1⟩ := hk1
  have hlen : (splice (s.bank b).data (s.bank b).tail c).length = (s.bank b).data.length :=
    length_splice hroom
  obtain ⟨hdr, rest, hchain⟩ := hk.chain
  have htail := (hchain.append hsized hroom).2
  obtain ⟨s2, hs2, hwritten⟩ := rtVarUpdateStore_written P (s.setBank b k1) b (s.bank b).tail c.length
    (by
      rw [bank_setBank_self, hdata1, hlen]
      exact hroom)
    (by
      rw [bank_setBank_self, hdata1]
      exact hk.length.trans hlen.symm)
  have hbank := hwritten.bank_eq
  rw [bank_setBank_self] at hwritten hbank
  refine ⟨s2, hs2, hbank, ?_⟩
  intro s3 hs3
  have hlast : s3 = s2.setBank b
      { s.bank b with
        data := splice (s.bank b).data (s.bank b).tail c, tail := (s.bank b).tail + c.length,
        inUse := P.arch.add (s.bank b).inUse c.length,
        deviceError := (s2.bank b).deviceError } := by
    rw [hs3, hdata1, hvarStore1, htSize1]
  obtain ⟨hsound, hon⟩ := h.edit (s.bank b).tail c.length (fun _ => hkept)
    (Nat.le_refl _) ⟨rfl, rfl, hlen, rfl⟩ (hdata1 ▸ hwritten) hdata1
    ⟨hvarStore1, htSize1, herror1⟩ hlast (by
      intro hg hok j hj
      have hs := hk.synced hg hok
      have hlength := hk.length
      rw [Bank.bankSize] at hroom
      rw [hs.erased htail _ (Nat.le_add_right _ _) (by omega)]
      exact BitsOff.erased _)
  refine ⟨hsound, hon, ?_, ?_⟩
  · rw [hlast, bank_setBank_self]
    exact hnewRecords
  · rw [hlast, bank_setBank_self]

/-- `record` with whatever its pad is. -/
def Padded (record : List Byte) (p : Record → Prop) : Prop :=
  ∀ pad : List Byte, pad.length = padSize record.length → p (record ++ pad)

theorem Sound.appendRecord (h : s.Sound P g pend) (hb : s.InService pend b) {record : List Byte}
    (hsized : Padded record Record.Sized)
    (hroom : (s.bank b).tail + (record.length + padSize record.length) ≤ (s.bank b).bankSize)
    (hvalid : g.named → Padded record fun c => c.Named ∧ c.valid = true) :
    ∃ s' pad, s.appendRecord P b record = .ok s' ∧ s'.Sound P g pend ∧
      pad.length = padSize record.length ∧ Appended b (record ++ pad) s s' := by
  rw [Bank.bankSize] at hroom
  have hpad : (slice (s.bank b).data ((s.bank b).tail + record.length)
      (padSize record.length)).length = padSize record.length := length_slice (by omega)
  have hsame := splice_append_slice (s.bank b).data record (s.bank b).tail
    (padSize record.length) (by omega)
  generalize slice (s.bank b).data ((s.bank b).tail + record.length)
    (padSize record.length) = pad at hpad hsame
  have hlen : (record ++ pad).length = record.length + padSize record.length := by
    rw [List.length_append, hpad]
  obtain ⟨s2, hs2, hbank, hlast⟩ := h.appendWritten hb (hsized pad hpad)
    (by rw [hlen]; exact hroom) (fun hg => hvalid hg pad hpad)
    { s.bank b with data := splice (s.bank b).data (s.bank b).tail record }
    ⟨hsame.symm, rfl, rfl, rfl⟩
  rw [hlen] at hs2 hlast
  obtain ⟨hsound, happended⟩ := hlast _ rfl
  refine ⟨_, pad, ?_, hsound, hpad, happended⟩
  rw [State.appendRecord, writeData_eq (by omega)]
  simp only [bind, Except.bind, hs2]
  rw [hbank]
  rfl

/-- The bytes of a record, read from the bank it is in. -/
theorem Sound.readRecord (h : s.Sound P g pend) (hb : s.InService pend b)
    (hrecords : (s.bank b).records = pre ++ c :: post) :
    readBuffer (s.bank b).data (recordsEnd pre) c.length = .ok c := by
  obtain ⟨hdr, rest, hchain⟩ := (h.kept b hb).chain
  rw [hrecords] at hchain
  have hread := hchain.holds.readBuffer_at (i := 0) (n := c.length) (by omega)
  rwa [Nat.add_zero, slice, List.drop_zero, List.take_length] at hread

/-- What `RtVarMove` writes at the tail of the new bank. -/
theorem splice_readded (l : List Byte) (off : Nat) (hsized : c.Sized)
    (hroom : off + c.length ≤ l.length) :
    splice (splice l off c) (off + (c.varSize - 1)) [0xFF ^^^ varAdded] =
      splice l off c.readded := by
  have hlarge := hsized.large'
  have hle := hsized.varSize_le
  have hset : splice c (c.varSize - 1) [0xFF ^^^ varAdded] = c.readded := by
    rw [splice, Record.readded, Record.withState, List.set_eq_take_append_cons_drop,
      if_pos (by omega)]
    simp
  rw [splice_splice hroom (by rw [List.length_singleton]; omega), hset]

variable {new : BankAddr}

/-- The moves of a garbage collection only change the copy of the new bank.  Where there is
    not enough space, the record is left behind. -/
theorem Sound.move (h : s.Sound P g pend) (hb : s.InService pend b)
    (hnew : s.InService pend new) (hrecords : (s.bank b).records = pre ++ c :: post)
    {info : VarInfo} (hplaced : c.Placed (recordsEnd pre) info)
    (hvalid : g.named → c.valid = true) :
    ∃ s', s.rtVarMove P true b info new = .ok s' ∧ s'.Sound P g pend ∧
      (((s.bank new).bankSize < (s.bank new).tail + c.length ∧ s' = s) ∨
        (s'.log = s.log ∧ s'.flash = s.flash ∧ Appended new c.readded s s')) := by
  have hsized := (h.split_records hb hrecords).1
  have hlarge := hsized.large'
  have hle := hsized.varSize_le
  rw [rtVarMove, hplaced.varSize, hplaced.varOffset]
  dsimp only
  by_cases hroom : (s.bank new).bankSize < (s.bank new).tail + c.length
  · rw [if_pos hroom, if_pos rfl]
    exact ⟨s, rfl, h, .inl ⟨hroom, rfl⟩⟩
  · rw [if_neg hroom, h.readRecord hb hrecords]
    have hfits : (s.bank new).tail + c.length ≤ (s.bank new).data.length := Nat.not_lt.mp hroom
    have hk := h.kept new hnew
    have hreadded : c.readded.length = c.length := Record.length_withState c _
    obtain ⟨hkept, hnewRecords⟩ := hk.append P.arch (hsized.withState (0xFF ^^^ varAdded))
      (by rw [Record.length_withState]; exact hfits) (fun hg =>
        have hnamed := (h.kept b hb).named hg c (by rw [hrecords]; simp)
        ⟨hnamed.withState hsized (hvalid hg) _,
          Record.valid_readded hsized hnamed (hvalid hg)⟩)
    rw [← Record.readded, hreadded] at hkept hnewRecords
    have hstate : (s.bank new).tail + info.stateOffset - recordsEnd pre =
        (s.bank new).tail + (c.varSize - 1) := by
      rw [hplaced.stateOffset]
      omega
    have hlen : (splice (s.bank new).data (s.bank new).tail c).length =
        (s.bank new).data.length := length_splice hfits
    have hsplice := splice_readded (s.bank new).data (s.bank new).tail hsized hfits
    have hlength : (splice (s.bank new).data (s.bank new).tail c.readded).length =
        (s.bank new).data.length := length_splice (by rw [hreadded]; exact hfits)
    have hon : OnBank new s (s.setBank new
        { s.bank new with
          data := splice (s.bank new).data (s.bank new).tail c.readded
          tail := (s.bank new).tail + c.length
          inUse := P.arch.add (s.bank new).inUse c.length }) := .setBank rfl rfl hlength
    refine ⟨_, ?_, h.onBank hon ?_ h.log, .inr ⟨rfl, rfl, hon, ?_, ?_⟩⟩
    · simp only [bind, Except.bind]
      rw [writeData_eq hfits]
      dsimp only
      rw [hstate, writeData_eq (by
        rw [bank_setBank_self, hlen, List.length_singleton]
        omega), bank_setBank_self, setBank_setBank]
      dsimp only
      rw [bank_setBank_self, setBank_setBank, hsplice]
      rfl
    · intro _
      rw [bank_setBank_self]
      exact hkept
    · rw [bank_setBank_self]
      exact hnewRecords
    · rw [bank_setBank_self, hreadded]

/-- Recovery writes a copy of a record to the device at once. -/
theorem Sound.moveOut (h : s.Sound P g pend) (hb : s.InService pend b)
    (hnew : s.InService pend new) (hrecords : (s.bank b).records = pre ++ c :: post)
    {info : VarInfo} (hplaced : c.Placed (recordsEnd pre) info)
    (hvalid : g.named → c.valid = true)
    (hroom : (s.bank new).tail + c.length ≤ (s.bank new).bankSize) :
    ∃ s', s.rtVarMove P false b info new = .ok s' ∧ s'.Sound P g pend ∧
      Appended new c.readded s s' := by
  have hsized := (h.split_records hb hrecords).1
  have hlarge := hsized.large'
  have hle := hsized.varSize_le
  have hreadded : c.readded.length = c.length := Record.length_withState c _
  have hfits : (s.bank new).tail + c.length ≤ (s.bank new).data.length := hroom
  have hstate : (s.bank new).tail + info.stateOffset - recordsEnd pre =
      (s.bank new).tail + (c.varSize - 1) := by
    rw [hplaced.stateOffset]
    omega
  have hlen : (splice (s.bank new).data (s.bank new).tail c).length =
      (s.bank new).data.length := length_splice hfits
  have hsplice := splice_readded (s.bank new).data (s.bank new).tail hsized hfits
  obtain ⟨s2, hs2, hbank, hlast⟩ := h.appendWritten hnew (hsized.withState (0xFF ^^^ varAdded))
    (by rw [Record.length_withState]; exact hroom) (fun hg =>
      have hnamed := (h.kept b hb).named hg c (by rw [hrecords]; simp)
      ⟨hnamed.withState hsized (hvalid hg) _, Record.valid_readded hsized hnamed (hvalid hg)⟩)
    { s.bank new with
      data := splice (s.bank new).data (s.bank new).tail c.readded
      tail := (s.bank new).tail + c.length
      inUse := P.arch.add (s.bank new).inUse c.length }
    ⟨rfl, rfl, rfl, rfl⟩
  rw [Record.length_withState] at hs2 hlast
  obtain ⟨hsound, happended⟩ := hlast s2 (by
    conv_lhs => rw [← setBank_bank_self s2 new, hbank])
  refine ⟨s2, ?_, hsound, happended⟩
  rw [rtVarMove, hplaced.varSize, hplaced.varOffset]
  dsimp only
  rw [if_neg (Nat.not_lt.mpr hroom), h.readRecord hb hrecords]
  simp only [bind, Except.bind]
  rw [writeData_eq hfits]
  dsimp only
  rw [hstate, writeData_eq (by
    rw [bank_setBank_self, hlen, List.length_singleton]
    omega), bank_setBank_self, setBank_setBank]
  dsimp only
  rw [bank_setBank_self, setBank_setBank, hsplice]
  exact hs2

end State

end EfiCore.Var
