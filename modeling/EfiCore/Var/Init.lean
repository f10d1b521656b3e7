import EfiCore.Var.Api

/-! # Initialisation and recovery

The rest of `varinit.c`: the stores, their devices, and the completion of updates and of garbage
collections that a power loss has cut short.
-/

namespace EfiCore.Var

open EfiCore.Lib

namespace State

variable (P : Platform)

/-! ## Banks -/

/-- The banks `bankNo`, `bankNo + 1`, ... of a device, `n` of them. -/
def addBanks (t : StoreType) (device : Nat) : Nat → Nat → State → Except Fault State
  | 0, _, s => .ok s
  | n + 1, bankNo, s => do
    let (_, s) ← s.varStoreAddBank P t ⟨device, bankNo⟩
    addBanks t device n (bankNo + 1) s

/-- A device that can grow has at least two banks. -/
def sizeDevice (device : Nat) (s : State) : State :=
  if (P.device device).sizeStore then
    let s := if s.noBanks device < 1 then s.deviceSizeStore P device 1 else s
    if s.noBanks device < 2 then s.deviceSizeStore P device 2 else s
  else s

def varAddDevice (device : Nat) (s : State) : Except Fault State :=
  let s := s.sizeDevice P device
  match variableStoreType (P.device device).attributes with
  | some t => s.addBanks P t device (s.noBanks device) 0
  | none => if s.noBanks device = 0 then .ok s else .error .nullStore

/-! ## Recovery of banks -/

/-- A bank that is being removed; the last one the search meets. -/
def obsoleteTransition (s : State) (t : StoreType) : Option BankAddr :=
  ((s.store t).active.filter fun b => hasBits (s.bank b).state varhObsoleteTransition).getLast?

/-- A bank that is being switched to; the last one the search meets. -/
def inUseTransition (s : State) (t : StoreType) : Option BankAddr :=
  ((s.store t).active.filter fun b => hasBits (s.bank b).state varhInUseTransition &&
    !hasBits (s.bank b).state varhInUse).getLast?

/-- Complete the garbage collection that was under way in a store. -/
def checkTransition (t : StoreType) (s : State) : Except Fault State := do
  let s ← if (s.store t).tBankRequired && (s.store t).tBank.isNone then
      s.rtVarGetTransactionBank P t
    else pure s
  match s.obsoleteTransition t, s.inUseTransition t with
  | none, none => return s
  | some old, none => s.rtVarGarbageCollectBank P old
  | some old, some new =>
    let s ← s.rtVarClearStore P old
    s.rtVarUpdateBankState P new varhInUse
  | none, some new => s.rtVarUpdateBankState P new varhInUse

/-! ## Recovery of variables -/

/-- Remove the record `info`. -/
def removeRecord (b : BankAddr) (info : VarInfo) (s : State) : Except Fault State := do
  let s := s.setBank b { s.bank b with inUse := P.arch.sub (s.bank b).inUse info.varSize }
  let (_, s) ← s.rtVarUpdateState P b info varObsolete
  return s

/-- Recover a record in transition of which there is no new copy; returns whether the banks have
    to be looked at again. -/
def restoreRecord (b : BankAddr) (info : VarInfo) (s : State) : Except Fault (Bool × State) := do
  let ((new, collected), s) ←
    s.rtVarFindFreeSpace P (s.bank b).varStore info.varSize P.rounds
  if collected then return (true, s)
  match new with
  | none => return (false, s)
  | some new =>
    let s ← s.rtVarMove P false b info new
    return (false, s)

/-- The loop of `VarCheckBank`; returns whether to start over. -/
def checkRecords (b : BankAddr) : Nat → Nat → State → Except Fault (Bool × State)
  | 0, _, _ => .error .hang
  | fuel + 1, offset, s => do
    match ← rtVarParseStore P.arch (s.bank b) offset with
    | none => return (false, s)
    | some info =>
      match info.fields with
      | none => checkRecords b fuel info.nextVarOffset s
      | some fields =>
        let new ← s.rtVarFind P fields.name fields.vendorGuid
        if hasBits info.state varObsoleteTransition then
          if new.isSome then
            let s ← s.removeRecord P b info
            checkRecords b fuel info.nextVarOffset s
          else
            let (restart, s) ← s.restoreRecord P b info
            if restart then return (true, s)
            let s ← s.removeRecord P b info
            checkRecords b fuel info.nextVarOffset s
        else if new.any fun (b', info') => b' ≠ b || info'.varOffset ≠ info.varOffset then
          let s ← s.removeRecord P b info
          checkRecords b fuel info.nextVarOffset s
        else checkRecords b fuel info.nextVarOffset s

def varCheckBank (b : BankAddr) (s : State) : Except Fault (Bool × State) :=
  s.checkRecords P b ((s.bank b).bankSize + 1) firstVariableOffset

/-- The banks of a store that are still to be checked; a restart begins again with the first. -/
def checkBanksOf (t : StoreType) : Nat → List BankAddr → State → Except Fault State
  | _, [], s => .ok s
  | 0, _ :: _, _ => .error .outOfRounds
  | fuel + 1, b :: banks, s => do
    let (restart, s) ← s.varCheckBank P b
    if restart then checkBanksOf t fuel (s.store t).active s
    else checkBanksOf t fuel banks s

def varCheckBanks (s : State) : Except Fault State := do
  let s ← variableStores.foldlM (fun s t => s.checkTransition P t) s
  variableStores.foldlM (fun s t => s.checkBanksOf P t P.rounds (s.store t).active) s

/-- `FwNvStoreInstalled`, for the devices that have the protocol, in the order of their
    handles. -/
def fwNvStoreInstalled (devices : List Nat) (s : State) : Except Fault State := do
  let s ← devices.foldlM (fun s device => s.varAddDevice P device) s
  s.varCheckBanks P

/-! ## Boot -/

/-- The state `InitializeVariableStore` leaves, for banks that hold `flash`. -/
def initial (flash : Flash) (noBanks : Nat → Nat) : State where
  efiAtRuntime := false
  store _ := { active := [], tBankRequired := false, sequence := 0, tBank := none, tSize := 0 }
  bank _ :=
    { varStore := .bs, state := 0, deviceError := false, inUse := 0, tail := 0, tSize := .bankSize,
      data := [] }
  flash := flash
  noBanks := noBanks
  calls := 0
  log := []

end State

end EfiCore.Var
