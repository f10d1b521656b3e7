import EfiCore.Var.Edits

/-! # What is written is read back

`RtSetVariable` writes a record at the tail of a bank, and its size goes into a `UINT16` of which
`RtVarParseStore` uses 12 bits.  A record that fits them is read back as it was written, and
no other is.
-/

namespace EfiCore.Var

open EfiCore.Lib

/-! ## Names -/

namespace VarName

variable (name : VarName)

theorem length_bytes : name.bytes.length = name.size := by
  have hchars : ∀ chars : List (BitVec 16),
      (chars.flatMap fun c => leBytes 2 c.toNat).length = 2 * chars.length := by
    intro chars
    induction chars with
    | nil => rfl
    | cons c chars ih =>
      rw [List.flatMap_cons, List.length_append, length_leBytes, ih, List.length_cons]
      omega
  rw [bytes, List.length_append, hchars, size]
  rfl

end VarName

theorem leNat_word (c : BitVec 16) : leNat (leBytes 2 c.toNat) = c.toNat := by
  have hlt : c.toNat < 256 ^ 2 := c.isLt
  rw [leNat_leBytes, Nat.mod_eq_of_lt hlt]

/-- The words of a name are read back. -/
theorem char16s_words (chars : List (BitVec 16)) :
    char16s (chars.flatMap fun c => leBytes 2 c.toNat) = chars := by
  induction chars with
  | nil => rfl
  | cons c chars ih =>
    rw [List.flatMap_cons]
    change BitVec.ofNat 16 (leNat (leBytes 2 c.toNat)) :: char16s _ = _
    rw [leNat_word, BitVec.ofNat_toNat, BitVec.setWidth_eq]
    exact congrArg _ ih

/-- The bytes of a word are zero only if the word is. -/
theorem leBytes_word_ne {c : BitVec 16} (hc : c ≠ 0) :
    ¬ (BitVec.ofNat 8 c.toNat = 0 ∧ BitVec.ofNat 8 (c.toNat / 256) = 0) := by
  rintro ⟨hlow, hhigh⟩
  apply hc
  apply BitVec.eq_of_toNat_eq
  rw [← leNat_word, leBytes, leBytes, leBytes, hlow, hhigh]
  rfl

/-- The search for the end of a name finds it, if the state byte is behind it. -/
theorem findNameEnd_words {so i : Nat} {chars : List (BitVec 16)} (hnul : 0 ∉ chars)
    (hso : i + 2 * chars.length ≤ so) (l : List Byte) :
    findNameEnd so i ((chars.flatMap fun c => leBytes 2 c.toNat) ++ (0 :: 0 :: l)) =
      .ok (some (i + 2 * chars.length)) := by
  induction chars generalizing i with
  | nil => rw [List.flatMap_nil, List.nil_append, findNameEnd, if_pos ⟨rfl, rfl⟩]; rfl
  | cons c chars ih =>
    obtain ⟨hc, hnul⟩ := not_or.mp fun h => hnul (List.mem_cons.mpr h)
    rw [List.length_cons] at hso ⊢
    have hstop : ¬ so ≤ i := by omega
    rw [List.flatMap_cons, leBytes, leBytes, leBytes, List.append_assoc, List.cons_append,
      List.cons_append, List.nil_append, findNameEnd, if_neg (leBytes_word_ne (Ne.symm hc)),
      if_neg hstop, ih hnul (by omega)]
    congr 2
    omega

/-! ## Records -/

section NewRecord

open State (newRecord)

variable {name : VarName} {guid : Guid} {attributes : BitVec 32} {data pad : List Byte}

theorem length_newRecord (name : VarName) (guid : Guid) (attributes : BitVec 32)
    (data : List Byte) : (newRecord name guid attributes data).length =
      sizeofVariable + 1 + name.size + data.length := by
  simp only [newRecord, List.length_append, length_leBytes, name.length_bytes, List.length_cons,
    List.length_nil, sizeofVariable]
  omega

/-- Where the fields of a record are, its pad included. -/
theorem newRecord_fields (name : VarName) (guid : Guid) (attributes : BitVec 32)
    (data pad : List Byte) :
    let c := newRecord name guid attributes data ++ pad
    let size := sizeofVariable + 1 + name.size + data.length
    slice c 0 2 = leBytes 2 size ∧ slice c 2 2 = leBytes 2 attributes.toNat ∧
      slice c 4 16 = leBytes 16 guid.toNat ∧
      c.drop sizeofVariable = name.bytes ++ (data ++ ([0xFF ^^^ varAdded] ++ pad)) := by
  have hparts : ∀ a b g : List Byte, a.length = 2 → b.length = 2 → g.length = 16 → ∀ l : List Byte,
      slice (a ++ (b ++ (g ++ l))) 0 2 = a ∧ slice (a ++ (b ++ (g ++ l))) 2 2 = b ∧
        slice (a ++ (b ++ (g ++ l))) 4 16 = g ∧ (a ++ (b ++ (g ++ l))).drop 20 = l := by
    intro a b g ha hb hg l
    have hab : (a ++ b).length = 4 := by rw [List.length_append, ha, hb]
    have habg : (a ++ b ++ g).length = 20 := by rw [List.length_append, hab, hg]
    refine ⟨?_, ?_, ?_, ?_⟩
    · rw [slice_append_left (by omega), ← ha, slice_all]
    · rw [show 2 = a.length + 0 by omega, slice_append_right, Nat.add_zero, ha, ← hb,
        slice_append_left (by omega), slice_all]
    · rw [← List.append_assoc, show 4 = (a ++ b).length + 0 by omega, slice_append_right, ← hg,
        slice_append_left (by omega), slice_all]
    · rw [← List.append_assoc, ← List.append_assoc, ← habg, List.drop_left]
  have hsplit : newRecord name guid attributes data ++ pad =
      leBytes 2 (sizeofVariable + 1 + name.size + data.length) ++ (leBytes 2 attributes.toNat ++
        (leBytes 16 guid.toNat ++ (name.bytes ++ (data ++ ([0xFF ^^^ varAdded] ++ pad))))) := by
    simp only [newRecord, List.append_assoc]
  dsimp only
  rw [hsplit]
  exact hparts _ _ _ (length_leBytes 2 _) (length_leBytes 2 _) (length_leBytes 16 _) _

/-- The size field of a record is its size, if that fits. -/
theorem varSize_newRecord (hfits : sizeofVariable + 1 + name.size + data.length < 0x1000) :
    Record.varSize (newRecord name guid attributes data ++ pad) =
      sizeofVariable + 1 + name.size + data.length := by
  rw [Record.varSize, (newRecord_fields name guid attributes data pad).1, leNat_leBytes,
    varSizeMask]
  omega

theorem sized_newRecord (hfits : sizeofVariable + 1 + name.size + data.length < 0x1000)
    (hdata : data ≠ []) (hpad : pad.length = padSize (newRecord name guid attributes data).length) :
    Record.Sized (newRecord name guid attributes data ++ pad) where
  marker := by
    rw [(newRecord_fields name guid attributes data pad).1, leNat_leBytes]
    omega
  large := by
    have hname : 2 ≤ name.size := by
      rw [VarName.size]
      omega
    have hpos := List.length_pos_iff.mpr hdata
    rw [varSize_newRecord hfits]
    omega
  length := by
    rw [List.length_append, hpad, length_newRecord, varSize_newRecord hfits]

/-- The state of a new record is that it has been added. -/
theorem state_newRecord (hfits : sizeofVariable + 1 + name.size + data.length < 0x1000) :
    Record.state (newRecord name guid attributes data ++ pad) = varAdded := by
  have hlast : (newRecord name guid attributes data ++ pad).getD
      (sizeofVariable + 1 + name.size + data.length - 1) 0 = 0xFF ^^^ varAdded := by
    have hfront : (leBytes 2 (sizeofVariable + 1 + name.size + data.length) ++
        leBytes 2 attributes.toNat ++ leBytes 16 guid.toNat ++ name.bytes ++ data).length =
        sizeofVariable + 1 + name.size + data.length - 1 := by
      simp only [List.length_append, length_leBytes, name.length_bytes, sizeofVariable]
      omega
    rw [newRecord, List.getD_eq_getElem?_getD, ← hfront, List.append_assoc,
      List.getElem?_append_right (Nat.le_refl _), Nat.sub_self]
    rfl
  rw [Record.state, Record.stateByte, varSize_newRecord hfits, hlast]
  rfl

theorem nameEnd_newRecord (hfits : sizeofVariable + 1 + name.size + data.length < 0x1000) :
    Record.nameEnd (newRecord name guid attributes data ++ pad) =
      .ok (some (sizeofVariable + 2 * name.chars.length)) := by
  have hname : name.size = 2 * (name.chars.length + 1) := rfl
  rw [Record.nameEnd, varSize_newRecord hfits,
    (newRecord_fields name guid attributes data pad).2.2.2, VarName.bytes, List.append_assoc]
  exact findNameEnd_words name.noNul (by omega) _

/-- What is found out about a new record is what it was made of. -/
theorem fields_newRecord (guid : Guid) (pad : List Byte)
    (hfits : sizeofVariable + 1 + name.size + data.length < 0x1000)
    (hattributes : attributes.toNat < 2 ^ 16) (off : Nat) :
    Record.fields off (newRecord name guid attributes data ++ pad) = some
      { attributes, vendorGuid := guid, name := name.chars, nameSize := name.size
        dataOffset := off + (sizeofVariable + name.size), dataSize := data.length } := by
  have hname : name.size = 2 * (name.chars.length + 1) := rfl
  obtain ⟨-, hattr, hguid, hrest⟩ := newRecord_fields name guid attributes data pad
  have hstored : Record.stored (newRecord name guid attributes data ++ pad) = true := by
    rw [Record.stored, state_newRecord hfits]
    rfl
  have hchars : slice (newRecord name guid attributes data ++ pad) sizeofVariable
      (2 * name.chars.length) = name.chars.flatMap fun c => leBytes 2 c.toNat := by
    have hlength := name.length_bytes
    rw [VarName.bytes, List.length_append, hname] at hlength
    have hwords : (name.chars.flatMap fun c => leBytes 2 c.toNat).length =
        2 * name.chars.length := by
      simp only [List.length_cons, List.length_nil] at hlength
      omega
    rw [slice, hrest, VarName.bytes, List.append_assoc, ← hwords, List.take_left]
  have hvalue : BitVec.ofNat 32 (leNat (leBytes 2 attributes.toNat)) = attributes := by
    have hlt : attributes.toNat < 256 ^ 2 := hattributes
    rw [leNat_leBytes, Nat.mod_eq_of_lt hlt, BitVec.ofNat_toNat, BitVec.setWidth_eq]
  have hguidValue : BitVec.ofNat 128 (leNat (leBytes 16 guid.toNat)) = guid := by
    have hlt : guid.toNat < 256 ^ 16 := guid.isLt
    rw [leNat_leBytes, Nat.mod_eq_of_lt hlt, BitVec.ofNat_toNat, BitVec.setWidth_eq]
  have hnameEnd : sizeofVariable + 2 * name.chars.length - sizeofVariable =
      2 * name.chars.length := by
    omega
  have hsize : 2 * name.chars.length + 2 = name.size := by omega
  have hoffset : sizeofVariable + 2 * name.chars.length + 2 = sizeofVariable + name.size := by
    omega
  have hrest : sizeofVariable + 1 + name.size + data.length - 1 - (sizeofVariable + name.size) =
      data.length := by
    omega
  rw [Record.fields, if_pos hstored, nameEnd_newRecord hfits]
  dsimp only
  rw [hattr, hguid, hvalue, hguidValue, hnameEnd, hchars, char16s_words, hsize, hoffset,
    varSize_newRecord hfits, hrest]

theorem named_newRecord (hfits : sizeofVariable + 1 + name.size + data.length < 0x1000) :
    Record.Named (newRecord name guid attributes data ++ pad) := by
  intro _
  refine ⟨_, nameEnd_newRecord hfits, ?_⟩
  rintro e ⟨⟩
  have hname : name.size = 2 * (name.chars.length + 1) := rfl
  rw [varSize_newRecord hfits]
  omega

end NewRecord

/-! ## The copies of the banks -/

namespace State

variable {P : Platform} {s s' : State} {b b' : BankAddr}

/-- The banks are as large and as full as they were. -/
def SameRoom (s s' : State) : Prop :=
  ∀ b, (s'.bank b).tail = (s.bank b).tail ∧ (s'.bank b).bankSize = (s.bank b).bankSize

theorem SameRoom.setBank {k : Bank} (htail : k.tail = (s.bank b).tail)
    (hsize : k.bankSize = (s.bank b).bankSize) : SameRoom s (s.setBank b k) := by
  intro b'
  by_cases hb' : b' = b
  · rw [hb', bank_setBank_self]
    exact ⟨htail, hsize⟩
  · rw [bank_setBank_of_ne s hb']
    exact ⟨rfl, rfl⟩

theorem SameRoom.trans {s1 s2 : State} (h : SameRoom s s1) (h' : SameRoom s1 s2) :
    SameRoom s s2 :=
  fun b => ⟨(h' b).1.trans (h b).1, (h' b).2.trans (h b).2⟩

/-- An update of the device shows in the copy of no bank. -/
theorem rtVarUpdateStore_bank (P : Platform) (s : State) (b : BankAddr) (off n : Nat) :
    Ensures (s.rtVarUpdateStore P b off n) fun s' =>
      ∀ b', s'.bank b' = { s.bank b' with deviceError := (s'.bank b').deviceError } := by
  rw [rtVarUpdateStore]
  refine Ensures.ite (fun _ => Ensures.ok fun _ => rfl) fun _ => ?_
  refine Ensures.bind (Ensures.self _) fun buffer _ => ?_
  have hbank : (s.deviceUpdateStore P b off buffer).2.bank = s.bank := by
    rw [deviceUpdateStore]
    split <;> rfl
  cases hcall : s.deviceUpdateStore P b off buffer with
  | mk failed s1 =>
    rw [hcall] at hbank
    dsimp only at hbank
    refine Ensures.pure fun b' => ?_
    cases failed with
    | false =>
      rw [if_neg Bool.false_ne_true, hbank]
    | true =>
      rw [if_pos rfl]
      by_cases hb' : b' = b
      · rw [hb', bankFailed, bank_setBank_self, hbank]
      · rw [bankFailed, bank_setBank_of_ne _ hb', hbank]

theorem exists_rtVarUpdateStore (P : Platform) {off n : Nat}
    (hfits : off + n ≤ (s.bank b).data.length) :
    ∃ s', s.rtVarUpdateStore P b off n = .ok s' := by
  rw [rtVarUpdateStore]
  cases (s.bank b).deviceError with
  | true => exact ⟨s, rfl⟩
  | false =>
    rw [if_neg Bool.false_ne_true, readBuffer, if_pos hfits]
    exact ⟨_, rfl⟩

theorem rtVarUpdateState_room (P : Platform) (s : State) (b : BankAddr) (info : VarInfo)
    (newBit : Byte) :
    Ensures (s.rtVarUpdateState P b info newBit) fun r => SameRoom s r.2 := by
  rw [rtVarUpdateState]
  refine Ensures.bind (P := SameRoom s) ?_ fun s1 h1 => ?_
  · rw [writeData]
    refine Ensures.bind (Ensures.self _) fun data hdata => Ensures.pure ?_
    rw [writeBuffer] at hdata
    split at hdata
    · rename_i hfits
      cases hdata
      exact SameRoom.setBank rfl (length_splice hfits)
    · cases hdata
  · refine Ensures.bind (rtVarUpdateStore_bank P s1 b info.stateOffset 1) fun s2 h2 =>
      Ensures.pure (h1.trans fun b' => ?_)
    rw [h2 b']
    exact ⟨rfl, rfl⟩

/-- A bank that is found has space. -/
theorem rtVarFindFreeSpace_hasSpace (P : Platform) (t : StoreType) (size fuel : Nat) (s : State) :
    Ensures (s.rtVarFindFreeSpace P t size fuel) fun r =>
      ∀ b, r.1.1 = some b → r.2.hasSpace P size b = true := by
  induction fuel generalizing s with
  | zero => exact Ensures.error
  | succ fuel ih =>
    rw [rtVarFindFreeSpace]
    cases hfind : (s.store t).active.find? (s.hasSpace P size) with
    | some b =>
      refine Ensures.ok ?_
      rintro b' ⟨⟩
      exact List.find?_some hfind
    | none =>
      refine Ensures.bind (Ensures.self _) fun r _ => ?_
      refine Ensures.ite (fun _ => Ensures.bind (ih r.2) fun r' h' => Ensures.pure h') fun _ =>
        Ensures.pure ?_
      rintro b ⟨⟩

/-! ## Appending -/

/-- How `RtSetVariable` leaves the variable that it replaces, before it appends the new one. -/
inductive Superseded (P : Platform) (t : StoreType) (guid : Guid) (data : List Byte) :
    Option (BankAddr × VarInfo) → State → Option (BankAddr × VarInfo) → State → Prop where
  | absent (s : State) : Superseded P t guid data none s none s
  | marked {s s' : State} {b : BankAddr} {info info' : VarInfo}
      (differs : s.holdsSame t guid data (b, info) = .ok false)
      (updated : s.rtVarUpdateState P b info varObsoleteTransition = .ok (info', s'))
      (stored : (s'.bank b).deviceError = false) :
      Superseded P t guid data (some (b, info)) s (some (b, info')) s'

/-- `RtSetVariable` accepts a variable, and appends its record to the bank `new`: `before` is the
    state in which it does, and `after` the one that it comes to. -/
structure Appends (P : Platform) (name : VarName) (guid : Guid) (attributes : BitVec 32)
    (data : List Byte) (s : State) (new : BankAddr) (old : Option (BankAddr × VarInfo))
    (before after : State) : Prop where
  named : name.chars ≠ []
  dataSize : data.length ≤ maximumVariableSize
  valid : attributes &&& ~~~(nonVolatile ||| bootserviceAccess ||| runtimeAccess) = 0
  accessible : attributes &&& (runtimeAccess ||| bootserviceAccess) ≠ runtimeAccess
  saved : data ≠ []
  superseded : ∃ t collected found old', s.destination attributes = some t ∧
    (s.efiAtRuntime && !t.runtimeUpdate) = false ∧
    s.rtVarFindFreeSpace P t ((newRecord name guid attributes data).length +
      padSize (newRecord name guid attributes data).length) P.rounds =
        .ok ((some new, collected), found) ∧
    found.rtVarFind P name.chars guid = .ok old' ∧
    Superseded P t guid data old' found old before
  appended : before.appendRecord P new (newRecord name guid attributes data) = .ok after

/-- What `RtSetVariable` does with the record that it has appended. -/
theorem Appends.rtSetVariable_eq {name : VarName} {guid : Guid} {attributes : BitVec 32}
    {data : List Byte} {new : BankAddr} {old : Option (BankAddr × VarInfo)} {before after : State}
    (h : Appends P name guid attributes data s new old before after) :
    s.rtSetVariable P (some name) guid attributes data =
      if (after.bank new).deviceError then .ok (.deviceError, after)
      else match old with
        | none => .ok (.success, after)
        | some (b, info) => after.obsoleteVariable P b info := by
  obtain ⟨t, collected, found, old', hdestination, hruntime, hfound, hold, hsuperseded⟩ :=
    h.superseded
  have hsize : ¬ maximumVariableSize < data.length := Nat.not_lt.mpr h.dataSize
  have hvalid : ¬ attributes &&& ~~~(nonVolatile ||| bootserviceAccess ||| runtimeAccess) ≠ 0 :=
    not_not.mpr h.valid
  rw [rtSetVariable]
  rw [if_neg h.named, if_neg hsize, if_neg hvalid, if_neg h.accessible, if_neg h.saved,
    hdestination]
  dsimp only
  rw [hruntime, if_neg Bool.false_ne_true, saveVariable]
  simp only [bind, Except.bind, hfound, hold]
  cases hsuperseded with
  | absent =>
    dsimp only
    rw [replaceVariable]
    simp only [bind, Except.bind, h.appended]
    cases (after.bank new).deviceError <;> rfl
  | marked hdiffers hupdated hstored =>
    simp only [hdiffers, replaceVariable, bind, Except.bind, hupdated, hstored, h.appended]
    cases (after.bank new).deviceError <;> rfl

/-! ## Reading it back -/

/-- `RtVarParseStore` reads the variable at the old tail of the bank, up to the new one. -/
structure RoundTrips (P : Platform) (name : VarName) (guid : Guid) (attributes : BitVec 32)
    (data : List Byte) (new : BankAddr) (before after : State) (info : VarInfo)
    (fields : VarFields) : Prop where
  parsed : rtVarParseStore P.arch (after.bank new) (before.bank new).tail = .ok (some info)
  valid : info.fields = some fields
  name : fields.name = name.chars
  vendorGuid : fields.vendorGuid = guid
  attributes : fields.attributes = attributes
  dataSize : fields.dataSize = data.length
  data : readBuffer (after.bank new).data fields.dataOffset fields.dataSize = .ok data
  state : info.state = varAdded
  nextVarOffset : info.nextVarOffset = (after.bank new).tail

section Append

variable {name : VarName} {guid : Guid} {attributes : BitVec 32} {data record : List Byte}
  {new : BankAddr} {before after : State}

/-- The copy of a bank with a record at its tail. -/
theorem appendRecord_bank (P : Platform) (new : BankAddr) (record : List Byte) (s : State) :
    Ensures (s.appendRecord P new record) fun s' =>
      (s'.bank new).data = splice (s.bank new).data (s.bank new).tail record ∧
      (s'.bank new).tail = (s.bank new).tail + (record.length + padSize record.length) ∧
      (s.bank new).tail + record.length ≤ (s.bank new).bankSize := by
  rw [appendRecord]
  refine Ensures.bind (P := fun s1 : State =>
    s1 = s.setBank new
      { s.bank new with data := splice (s.bank new).data (s.bank new).tail record } ∧
    (s.bank new).tail + record.length ≤ (s.bank new).bankSize) ?_ fun s1 h1 => ?_
  · rw [writeData, writeBuffer]
    split
    · rename_i hfits
      exact Ensures.ok ⟨rfl, hfits⟩
    · exact Ensures.error
  · obtain ⟨rfl, hfits⟩ := h1
    refine Ensures.bind (rtVarUpdateStore_bank P _ new _ _) fun s2 h2 => Ensures.pure ?_
    have hbank := h2 new
    rw [bank_setBank_self] at hbank
    rw [bank_setBank_self, hbank]
    exact ⟨rfl, rfl, hfits⟩

/-- Appending returns where there is space. -/
theorem exists_appendRecord (P : Platform) {s : State}
    (hroom : (s.bank new).tail + (record.length + padSize record.length) ≤
      (s.bank new).bankSize) : ∃ s', s.appendRecord P new record = .ok s' := by
  have hfits : (s.bank new).tail + record.length ≤ (s.bank new).data.length := by
    rw [Bank.bankSize] at hroom
    omega
  have hlength : (splice (s.bank new).data (s.bank new).tail record).length =
      (s.bank new).bankSize := length_splice hfits
  have hcopy : (s.bank new).tail + (record.length + padSize record.length) ≤
      ((s.setBank new { s.bank new with
        data := splice (s.bank new).data (s.bank new).tail record }).bank new).data.length := by
    rwa [bank_setBank_self, hlength]
  obtain ⟨s1, hs1⟩ := exists_rtVarUpdateStore P hcopy
  rw [appendRecord, writeData_eq hfits]
  simp only [bind, Except.bind, hs1]
  exact ⟨_, rfl⟩

/-- Where the parser finds the next record: the size of this one is 12 bits wide. -/
theorem rtVarParseStore_next (A : Arch) (k : Bank) (off : Nat) :
    Ensures (rtVarParseStore A k off) fun r => ∀ info, r = some info →
      ∃ size, readUint16 k.data off = .ok size ∧
        info.nextVarOffset = off + varSizeMask size + padSize (varSizeMask size) := by
  rw [rtVarParseStore]
  refine Ensures.ite (fun _ => Ensures.ok (by rintro info ⟨⟩)) fun _ => ?_
  refine Ensures.bind (Ensures.self _) fun size hsize => ?_
  refine Ensures.ite (fun _ => Ensures.pure (by rintro info ⟨⟩)) fun _ => ?_
  refine Ensures.ite (fun _ => Ensures.pure (by rintro info ⟨⟩)) fun _ => ?_
  refine Ensures.bind (Ensures.self _) fun stateByte _ => ?_
  refine Ensures.ite (fun _ => Ensures.pure ?_) fun _ => Ensures.map ?_
  · rintro info ⟨⟩
    exact ⟨size, hsize, rfl⟩
  · refine (ensures_parseName A k.data _).mono fun info' h' => ?_
    obtain ⟨fields, rfl⟩ := h'
    rintro info ⟨⟩
    exact ⟨size, hsize, rfl⟩

/-- The record that was appended lies below the new tail. -/
theorem holds_of_append (P : Platform) {s s' : State}
    (happend : s.appendRecord P new record = .ok s')
    (hroom : (s.bank new).tail + (record.length + padSize record.length) ≤
      (s.bank new).bankSize) (hbank : (s.bank new).bankSize < 2 ^ 32)
    (hsized : ∀ pad : List Byte, pad.length = padSize record.length →
      Record.Sized (record ++ pad)) :
    ∃ pad, pad.length = padSize record.length ∧
      (s'.bank new).Holds (s.bank new).tail (record ++ pad) := by
  obtain ⟨hdata, htail, -⟩ := appendRecord_bank P new record s s' happend
  rw [Bank.bankSize] at hroom hbank
  have hpad : (slice (s.bank new).data ((s.bank new).tail + record.length)
      (padSize record.length)).length = padSize record.length := length_slice (by omega)
  have hlength : (s'.bank new).bankSize = (s.bank new).data.length := by
    rw [Bank.bankSize, hdata, length_splice (by omega)]
  refine ⟨_, hpad, ⟨?_, hsized _ hpad, ?_, ?_, hlength ▸ hbank⟩⟩
  · refine ⟨(s.bank new).data.take (s.bank new).tail,
      ((s.bank new).data.drop ((s.bank new).tail + record.length)).drop (padSize record.length),
      ?_, List.length_take_of_le (by omega)⟩
    rw [hdata, splice, slice]
    simp only [List.append_assoc, List.take_append_drop]
  · rw [htail, List.length_append, hpad]
  · rw [htail, hlength]
    exact hroom

/-- A record whose size fits 12 bits is read back as it was written. -/
theorem roundTrips_of_fits (P : Platform)
    (happend : before.appendRecord P new (newRecord name guid attributes data) = .ok after)
    (hroom : (before.bank new).tail + ((newRecord name guid attributes data).length +
      padSize (newRecord name guid attributes data).length) ≤ (before.bank new).bankSize)
    (hbank : (before.bank new).bankSize < 2 ^ 32) (hdata : data ≠ [])
    (hattributes : attributes.toNat < 2 ^ 16)
    (hfits : sizeofVariable + 1 + name.size + data.length < 0x1000) :
    ∃ info fields, RoundTrips P name guid attributes data new before after info fields := by
  obtain ⟨pad, hpad, hholds⟩ := holds_of_append P happend hroom hbank
    fun pad hpad => sized_newRecord hfits hdata hpad
  obtain ⟨-, htail, -⟩ := appendRecord_bank P new _ before after happend
  have hfields := fields_newRecord guid pad hfits hattributes
    (before.bank new).tail
  have hstored : Record.stored (newRecord name guid attributes data ++ pad) = true := by
    rw [Record.stored, state_newRecord hfits]
    rfl
  refine ⟨_, _, hholds.parse_named (named_newRecord hfits), hfields, rfl, rfl, rfl, rfl, ?_, ?_, ?_⟩
  · obtain ⟨-, -, -, hrest⟩ := newRecord_fields name guid attributes data pad
    have hslice : slice (newRecord name guid attributes data ++ pad)
        (sizeofVariable + name.size) data.length = data := by
      rw [slice, ← List.drop_drop, hrest, ← name.length_bytes, List.drop_left, List.take_left]
    dsimp only
    rw [hholds.readBuffer_at, hslice]
    rw [List.length_append, length_newRecord]
    omega
  · rw [Record.info, if_pos hstored, state_newRecord hfits]
  · rw [Record.info, htail, List.length_append, hpad]

/-- Only a record whose size fits 12 bits ends where the parser expects it to. -/
theorem fits_of_roundTrips (P : Platform) {info : VarInfo} {fields : VarFields}
    (happend : before.appendRecord P new (newRecord name guid attributes data) = .ok after)
    (h : RoundTrips P name guid attributes data new before after info fields) :
    sizeofVariable + 1 + name.size + data.length < 0x1000 := by
  obtain ⟨hdata, htail, hwithin⟩ := appendRecord_bank P new _ before after happend
  obtain ⟨size, hsize, hnext⟩ := rtVarParseStore_next P.arch _ _ _ h.parsed info rfl
  have hlength := length_newRecord name guid attributes data
  have hread : readUint16 (after.bank new).data (before.bank new).tail =
      .ok ((sizeofVariable + 1 + name.size + data.length) % 256 ^ 2) := by
    have hrecord : slice (after.bank new).data ((before.bank new).tail + 0) 2 =
        slice (newRecord name guid attributes data) 0 2 := by
      rw [← slice_slice _ (n := (newRecord name guid attributes data).length), hdata,
        slice_splice hwithin]
      rw [hlength, sizeofVariable]
      omega
    have hsizeField := (newRecord_fields name guid attributes data []).1
    rw [List.append_nil] at hsizeField
    have hinside : (before.bank new).tail + 2 ≤ (after.bank new).data.length := by
      rw [hdata, length_splice hwithin]
      rw [hlength, Bank.bankSize, sizeofVariable] at hwithin
      omega
    rw [readUint16, readBuffer, if_pos hinside]
    rw [Nat.add_zero] at hrecord
    rw [hrecord, hsizeField]
    change Except.ok (leNat (leBytes 2 _)) = _
    rw [leNat_leBytes]
  rw [hread] at hsize
  obtain rfl := Except.ok.inj hsize
  rw [h.nextVarOffset, htail, hlength, varSizeMask] at hnext
  simp only [padSize] at hnext
  omega

theorem attributes_lt (hvalid : attributes &&&
    ~~~(nonVolatile ||| bootserviceAccess ||| runtimeAccess) = 0) : attributes.toNat < 2 ^ 16 := by
  have hmask : attributes = attributes &&& 7 := by
    have hsplit : attributes = attributes &&& 7 ||| attributes &&& ~~~7 := by
      ext i
      simp only [BitVec.getElem_or, BitVec.getElem_and, BitVec.getElem_not]
      cases attributes[i] <;> cases (7 : BitVec 32)[i] <;> rfl
    have hvalid' : attributes &&& ~~~7 = 0 := hvalid
    rw [hvalid'] at hsplit
    exact hsplit.trans BitVec.or_zero
  have hle : (attributes &&& 7).toNat ≤ 7 := by
    rw [BitVec.toNat_and]
    exact Nat.and_le_right
  rw [hmask]
  omega

/-- There is still space in the bank when the record is appended. -/
theorem Appends.room {old : Option (BankAddr × VarInfo)}
    (h : Appends P name guid attributes data s new old before after) :
    (before.bank new).tail + ((newRecord name guid attributes data).length +
      padSize (newRecord name guid attributes data).length) < (before.bank new).bankSize := by
  obtain ⟨t, collected, found, old', -, -, hfound, -, hsuperseded⟩ := h.superseded
  have hspace := rtVarFindFreeSpace_hasSpace P t _ _ s _ hfound new rfl
  simp only [hasSpace, Bool.and_eq_true, decide_eq_true_eq] at hspace
  cases hsuperseded with
  | absent => exact hspace.1.2
  | marked _ hupdated _ =>
    obtain ⟨htail, hsize⟩ := rtVarUpdateState_room P found _ _ _ _ hupdated new
    rw [htail, hsize]
    exact hspace.1.2

end Append

/-- What `RtSetVariable` writes is read back if and only if the size of the record, without its
    pad, fits the 12 bits that the parser uses.  `BankSize` is a `UINT32` of the device. -/
theorem appends_roundTrips_iff {name : VarName} {guid : Guid} {attributes : BitVec 32}
    {data : List Byte} {new : BankAddr} {old : Option (BankAddr × VarInfo)} {before after : State}
    (h : Appends P name guid attributes data s new old before after)
    (hbank : (before.bank new).bankSize < 2 ^ 32) :
    (∃ info fields, RoundTrips P name guid attributes data new before after info fields) ↔
      sizeofVariable + 1 + name.size + data.length < 0x1000 := by
  constructor
  · rintro ⟨info, fields, hroundTrips⟩
    exact fits_of_roundTrips P h.appended hroundTrips
  · exact roundTrips_of_fits P h.appended (Nat.le_of_lt h.room) hbank h.saved
      (attributes_lt h.valid)

end State

/-! ### A bank without records -/

/-- Devices that never fail, each with one bank of `n` bytes. -/
def steadyPlatform (n : BitVec 32) : Platform where
  arch := .efi32
  device _ :=
    { attributes := nonVolatile ||| bootserviceAccess ||| runtimeAccess, bankSize := n.toNat
      bankSize_lt := n.isLt, sizeStore := false, transactionUpdate := true, usesScratch := false }
  answer _ := { fails := false, buffer := fun _ byte => byte }
  rounds := 1

/-- The store of the variables that are not volatile and can be seen at runtime has one bank, and
    that is empty. -/
def emptyBank (n : BitVec 32) : State where
  efiAtRuntime := false
  store
    | .nvBsRt =>
      { active := [⟨0, 0⟩], tBankRequired := false, sequence := 1, tBank := none, tSize := 0 }
    | _ => { active := [], tBankRequired := false, sequence := 0, tBank := none, tSize := 0 }
  bank _ :=
    { varStore := .nvBsRt, state := 0, deviceError := false, inUse := firstVariableOffset
      tail := firstVariableOffset, tSize := .bankSize, data := List.replicate n.toNat 0xFF }
  flash _ := List.replicate n.toNat 0xFF
  noBanks _ := 1
  calls := 0
  log := []

/-- A variable that fits is appended to the empty bank. -/
theorem emptyBank_appends (n : BitVec 32) (name : VarName) (data : List Byte)
    (hname : name.chars ≠ []) (hdata : data ≠ []) (hsize : data.length ≤ maximumVariableSize)
    (hroom : firstVariableOffset + ((State.newRecord name 0 7 data).length +
      padSize (State.newRecord name 0 7 data).length) < n.toNat) :
    ∃ after, State.Appends (steadyPlatform n) name 0 7 data (emptyBank n) ⟨0, 0⟩ none
      (emptyBank n) after := by
  have hlength : ((emptyBank n).bank ⟨0, 0⟩).bankSize = n.toNat := List.length_replicate
  have hspace : ((emptyBank n).bank ⟨0, 0⟩).tail + ((State.newRecord name 0 7 data).length +
      padSize (State.newRecord name 0 7 data).length) ≤ ((emptyBank n).bank ⟨0, 0⟩).bankSize :=
    hlength ▸ Nat.le_of_lt hroom
  obtain ⟨after, hafter⟩ := State.exists_appendRecord (steadyPlatform n) hspace
  refine ⟨after, hname, hsize, rfl, by decide, hdata, ?_, hafter⟩
  refine ⟨.nvBsRt, false, emptyBank n, none, rfl, rfl, ?_, ?_, .absent _⟩
  · have hspace : (emptyBank n).hasSpace (steadyPlatform n)
        ((State.newRecord name 0 7 data).length +
          padSize (State.newRecord name 0 7 data).length) ⟨0, 0⟩ = true := by
      have hn := n.isLt
      have hadd : (steadyPlatform n).arch.add firstVariableOffset
          ((State.newRecord name 0 7 data).length +
            padSize (State.newRecord name 0 7 data).length) =
          firstVariableOffset + ((State.newRecord name 0 7 data).length +
            padSize (State.newRecord name 0 7 data).length) := Arch.add_of_lt (by omega)
      have htSize : (emptyBank n).tSizeOf ⟨0, 0⟩ = n.toNat := hlength
      rw [State.hasSpace, hlength, htSize]
      change (true && decide (firstVariableOffset + _ < n.toNat) &&
        decide ((steadyPlatform n).arch.add firstVariableOffset _ < n.toNat)) = true
      rw [hadd, decide_eq_true hroom]
      rfl
    change State.rtVarFindFreeSpace _ _ _ (0 + 1) _ = _
    rw [State.rtVarFindFreeSpace]
    have hactive : ((emptyBank n).store .nvBsRt).active.find?
        ((emptyBank n).hasSpace (steadyPlatform n) ((State.newRecord name 0 7 data).length +
          padSize (State.newRecord name 0 7 data).length)) = some ⟨0, 0⟩ :=
      List.find?_cons_of_pos hspace
    rw [hactive]
  · rfl

theorem nul_not_mem (n : Nat) : (0 : BitVec 16) ∉ List.replicate n 65 :=
  fun h => absurd (List.eq_of_mem_replicate h) (by decide)

/-- A name of `n` letters. -/
def letters (n : Nat) : VarName := ⟨List.replicate n 65, nul_not_mem n⟩

theorem emptyBank_roundTrips : ∃ after,
    (∃ info fields, State.RoundTrips (steadyPlatform 64) (letters 1) 0 7 [1] ⟨0, 0⟩
      (emptyBank 64) after info fields) ↔
      sizeofVariable + 1 + (letters 1).size + [(1 : Byte)].length < 0x1000 := by
  obtain ⟨after, hafter⟩ := emptyBank_appends 64 (letters 1) [1]
    (by decide) (by decide) (by decide) (by decide)
  exact ⟨after, State.appends_roundTrips_iff hafter (by decide)⟩

/-- The record of a variable with a name of 2036 letters is not read back. -/
theorem not_alwaysRoundTrips : ¬ ∀ (P : Platform) (name : VarName) (guid : Guid)
    (attributes : BitVec 32) (data : List Byte) (s : State) (new : BankAddr)
    (old : Option (BankAddr × VarInfo)) (before after : State),
    State.Appends P name guid attributes data s new old before after →
      (before.bank new).bankSize < 2 ^ 32 →
      ∃ info fields, State.RoundTrips P name guid attributes data new before after info fields := by
  intro hall
  have hlength : (State.newRecord (letters 2036) 0 7 [1]).length = 4096 := by
    rw [length_newRecord, VarName.size, letters, List.length_replicate]
    rfl
  obtain ⟨after, hafter⟩ := emptyBank_appends 0x2000 (letters 2036) [1]
    (List.cons_ne_nil _ _) (by decide) (by decide) (by rw [hlength]; decide)
  have hbank : ((emptyBank 0x2000).bank ⟨0, 0⟩).bankSize = 0x2000 := List.length_replicate
  obtain ⟨info, fields, h⟩ := hall _ _ _ _ _ _ _ _ _ _ hafter (by rw [hbank]; decide)
  have hfits := State.fits_of_roundTrips _ hafter.appended h
  rw [← length_newRecord (letters 2036) 0 7, hlength] at hfits
  exact absurd hfits (by decide)

end EfiCore.Var
