import EfiCore.Var.Garbage

/-! # The variable services

`varapi.c`.
-/

namespace EfiCore.Var

open EfiCore.Lib

/-! ## Lookup -/

/-- `info` is the live record of a variable that can be seen now. -/
def VarInfo.isMatch (efiAtRuntime : Bool) (name : List (BitVec 16)) (guid : Guid)
    (info : VarInfo) : Bool :=
  match info.fields with
  | none => false
  | some fields =>
    !hasBits info.state varObsoleteTransition && fields.name = name &&
      fields.vendorGuid = guid && (!efiAtRuntime || fields.attributes &&& runtimeAccess ≠ 0)

/-- The first record of a bank, from `offset` on, that passes a test. -/
def Bank.findRecord (A : Arch) (bank : Bank) (p : VarInfo → Bool) :
    Nat → Nat → Except Fault (Option VarInfo)
  | 0, _ => .error .hang
  | fuel + 1, offset => do
    match ← rtVarParseStore A bank offset with
    | none => return none
    | some info =>
      if p info then return some info else findRecord A bank p fuel info.nextVarOffset

namespace State

variable (P : Platform)

/-- The banks `RtVarFind` searches, in its order. -/
def visibleBanks (s : State) : List BankAddr :=
  (variableStores.filter fun t => !(s.efiAtRuntime && !t.runtimeMemory)).flatMap
    fun t => (s.store t).active

def findInBanks (s : State) (p : VarInfo → Bool) :
    List BankAddr → Except Fault (Option (BankAddr × VarInfo))
  | [] => .ok none
  | b :: banks => do
    match ← (s.bank b).findRecord P.arch p ((s.bank b).bankSize + 1) firstVariableOffset with
    | some info => return some (b, info)
    | none => findInBanks s p banks

def rtVarFind (name : List (BitVec 16)) (guid : Guid) (s : State) :
    Except Fault (Option (BankAddr × VarInfo)) :=
  s.findInBanks P (VarInfo.isMatch s.efiAtRuntime name guid) s.visibleBanks

/-- There is enough space for `size` bytes in the bank. -/
def hasSpace (s : State) (size : Nat) (b : BankAddr) : Bool :=
  !(s.bank b).deviceError && decide ((s.bank b).tail + size < (s.bank b).bankSize) &&
    decide (P.arch.add (s.bank b).inUse size < s.tSizeOf b)

/-- Returns the bank, and whether garbage was collected. -/
def rtVarFindFreeSpace (t : StoreType) (size : Nat) :
    Nat → State → Except Fault ((Option BankAddr × Bool) × State)
  | 0, _ => .error .outOfRounds
  | fuel + 1, s =>
    match (s.store t).active.find? (s.hasSpace P size) with
    | some b => .ok ((some b, false), s)
    | none => do
      let (updated, s) ← s.rtVarGarbageCollect P t
      if updated then
        let ((b, _), s) ← rtVarFindFreeSpace t size fuel s
        return ((b, true), s)
      else return ((none, false), s)

/-! ## Reading -/

/-- What a caller of `RtGetVariable` gets. -/
structure GetResult where
  status : Status
  /-- `*DataSize`, where it was written. -/
  dataSize : Option Nat
  /-- `*Attributes` and `Data`, where they were written. -/
  contents : Option (BitVec 32 × List Byte)

/-- `hasData`: `Data` is not `NULL`. -/
def rtGetVariable (variableName : Option VarName) (vendorGuid : Option Guid)
    (dataSize : Option Nat) (hasData : Bool) (s : State) : Except Fault GetResult :=
  match variableName, vendorGuid with
  | some name, some guid => do
    match ← s.rtVarFind P name.chars guid with
    | none => return ⟨.notFound, none, none⟩
    | some (b, info) =>
      match info.fields, dataSize with
      | none, _ => return ⟨.notFound, none, none⟩
      | some _, none => return ⟨.invalidParameter, none, none⟩
      | some fields, some size =>
        if size < fields.dataSize then
          return ⟨.bufferTooSmall, some fields.dataSize, none⟩
        else if !hasData then return ⟨.invalidParameter, some fields.dataSize, none⟩
        else
          let data ← readBuffer (s.bank b).data fields.dataOffset fields.dataSize
          return ⟨.success, some fields.dataSize, some (fields.attributes, data)⟩
  | _, _ => .ok ⟨.invalidParameter, none, none⟩

/-! ## Writing -/

/-- The record `RtSetVariable` appends, up to its state byte. -/
def newRecord (name : VarName) (guid : Guid) (attributes : BitVec 32) (data : List Byte) :
    List Byte :=
  let varSize := sizeofVariable + 1 + name.size + data.length
  leBytes 2 varSize ++ leBytes 2 attributes.toNat ++ leBytes 16 guid.toNat ++ name.bytes ++ data ++
    [0xFF ^^^ varAdded]

/-- Whether the record `old` holds `data` and lies in the store `t`; its attributes are not
    looked at. -/
def holdsSame (s : State) (t : StoreType) (guid : Guid) (data : List Byte)
    (old : BankAddr × VarInfo) : Except Fault Bool :=
  match old.2.fields with
  | none => .ok false
  | some fields =>
    if (s.bank old.1).varStore = t ∧ fields.vendorGuid = guid ∧ fields.dataSize = data.length
    then do
      let oldData ← readBuffer (s.bank old.1).data fields.dataOffset data.length
      return oldData = data
    else .ok false

/-- Mark a record as obsolete. -/
def obsoleteVariable (b : BankAddr) (info : VarInfo) (s : State) : Except Fault (Status × State) := do
  let (info, s) ← s.rtVarUpdateState P b info (varObsoleteTransition ||| varObsolete)
  let s := s.setBank b { s.bank b with inUse := P.arch.sub (s.bank b).inUse info.varSize }
  return (if (s.bank b).deviceError then .deviceError else .success, s)

/-- Write a record at the tail of the bank `new`. -/
def appendRecord (new : BankAddr) (record : List Byte) (s : State) : Except Fault State := do
  let varSize := record.length + padSize record.length
  let offset := (s.bank new).tail
  let s ← s.writeData new offset record
  let s ← s.rtVarUpdateStore P new offset varSize
  return s.setBank new
    { s.bank new with
      tail := (s.bank new).tail + varSize, inUse := P.arch.add (s.bank new).inUse varSize }

/-- Put `record` in the bank `new` in place of the record `old`: that one is in transition until
    the new one is written. -/
def replaceVariable (new : BankAddr) (record : List Byte) (old : Option (BankAddr × VarInfo))
    (s : State) : Except Fault (Status × State) :=
  match old with
  | none => do
    let s ← s.appendRecord P new record
    return (if (s.bank new).deviceError then .deviceError else .success, s)
  | some (b, info) => do
    let (info, s) ← s.rtVarUpdateState P b info varObsoleteTransition
    if (s.bank b).deviceError then return (.deviceError, s)
    let s ← s.appendRecord P new record
    if (s.bank new).deviceError then return (.deviceError, s)
    s.obsoleteVariable P b info

/-- The store a variable goes to.  A store without banks is stood in for by the one that is also
    accessible at runtime. -/
def destination (s : State) (attributes : BitVec 32) : Option StoreType :=
  match variableStoreType attributes with
  | none => none
  | some t =>
    if (s.store t).active = [] ∧ attributes &&& runtimeAccess = 0 then
      variableStoreType (attributes ||| runtimeAccess)
    else some t

/-- The part of `RtSetVariable` that holds the lock, for a variable that is to be saved in the
    store `t`. -/
def saveVariable (t : StoreType) (name : VarName) (guid : Guid) (attributes : BitVec 32)
    (data : List Byte) (s : State) : Except Fault (Status × State) := do
  let record := newRecord name guid attributes data
  let ((new, _), s) ←
    s.rtVarFindFreeSpace P t (record.length + padSize record.length) P.rounds
  match new with
  | none => return (.outOfResources, s)
  | some new =>
    let old ← s.rtVarFind P name.chars guid
    match old with
    | none => s.replaceVariable P new record none
    | some old =>
      if ← s.holdsSame t guid data old then return (.success, s)
      else s.replaceVariable P new record (some old)

/-- The part of `RtSetVariable` that holds the lock, for a variable that is to be removed. -/
def removeVariable (name : VarName) (guid : Guid) (s : State) : Except Fault (Status × State) := do
  match ← s.rtVarFind P name.chars guid with
  | none => return (.notFound, s)
  | some (b, info) => s.obsoleteVariable P b info

def rtSetVariable (variableName : Option VarName) (guid : Guid) (attributes : BitVec 32)
    (data : List Byte) (s : State) : Except Fault (Status × State) :=
  match variableName with
  | none => .ok (.invalidParameter, s)
  | some name =>
    if name.chars = [] then .ok (.invalidParameter, s)
    else if maximumVariableSize < data.length then .ok (.invalidParameter, s)
    else if attributes &&& ~~~(nonVolatile ||| bootserviceAccess ||| runtimeAccess) ≠ 0 then
      .ok (.invalidParameter, s)
    else if attributes &&& (runtimeAccess ||| bootserviceAccess) = runtimeAccess then
      .ok (.invalidParameter, s)
    else
      match (if data = [] then none else s.destination attributes) with
      | none => s.removeVariable P name guid
      | some t =>
        if s.efiAtRuntime && !t.runtimeUpdate then .ok (.unsupported, s)
        else s.saveVariable P t name guid attributes data

end State

end EfiCore.Var
