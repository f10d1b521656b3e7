import EfiCore.Var.AddBank

/-! # Garbage collection

`vgarbage.c`.  The records of a bank that are in use are moved to the transaction bank, which
then takes the place of the bank; a device with a `TransactionUpdate` of its own needs no
transaction bank, and there the records are moved within the bank.
-/

namespace EfiCore.Var

open EfiCore.Lib

namespace State

variable (P : Platform)

def rtVarMove (bankTransition : Bool) (old : BankAddr) (info : VarInfo) (new : BankAddr)
    (s : State) : Except Fault State :=
  let bank := s.bank new
  if bank.bankSize < bank.tail + info.varSize then
    -- `NewOffset` was not assigned
    if bankTransition then .ok s else .error .uninitialized
  else do
    let record ← readBuffer (s.bank old).data info.varOffset info.varSize
    let s ← s.writeData new bank.tail record
    let s ← s.writeData new (bank.tail + info.stateOffset - info.varOffset) [0xFF ^^^ varAdded]
    let s := s.setBank new
      { s.bank new with
        tail := bank.tail + info.varSize, inUse := P.arch.add bank.inUse info.varSize }
    if bankTransition then return s else s.rtVarUpdateStore P new bank.tail info.varSize

/-- The loop of `RtVarGarbageCollectBank`. -/
def moveVariables (old new : BankAddr) : Nat → Nat → State → Except Fault State
  | 0, _, _ => .error .hang
  | fuel + 1, offset, s => do
    match ← rtVarParseStore P.arch (s.bank old) offset with
    | none => return s
    | some info =>
      if info.fields.isSome then
        let s ← s.rtVarMove P true old info new
        moveVariables old new fuel info.nextVarOffset s
      else moveVariables old new fuel info.nextVarOffset s

/-- Restart the sequence numbers of the banks of a list. -/
def resetSequence : List BankAddr → State → Except Fault State
  | [], s => .ok s
  | b :: banks, s => do
    let s ← s.writeData b 4 (leBytes 2 0)
    let s ← s.rtVarUpdateStore P b 0 sizeofBankHeader
    resetSequence banks s

/-- The first of the largest free banks. -/
def bestBank (s : State) (banks : List BankAddr) : Option BankAddr :=
  banks.foldl (fun best b =>
    if (s.bank b).tail = firstVariableOffset then
      match best with
      | none => some b
      | some x => if (s.bank x).bankSize < (s.bank b).bankSize then some b else some x
    else best) none

def rtVarGetTransactionBank (t : StoreType) (s : State) : Except Fault State := do
  let s ← if (s.store t).sequence = varhMaxSequence then do
      let s ← s.resetSequence P (s.store t).active
      pure (s.setStore t { s.store t with sequence := 0 })
    else pure s
  let s := (s.store t).active.foldl
    (fun s b => s.setBank b { s.bank b with tSize := .varStore }) s
  match s.bestBank (s.store t).active with
  | none => return s
  | some best =>
    let s := s.unlink best
    return s.setStore t
      { s.store t with tBank := some best, tSize := (s.bank best).bankSize }

/-- The switch from `old` to `new`, which holds the records of `old` in its copy. -/
def switchBanks (old new : BankAddr) (s : State) : Except Fault State := do
  let s ← s.rtVarUpdateBankState P new varhAddTransition
  let s ← s.rtVarUpdateStore P new 0 (s.bank new).tail
  let s ← s.rtVarUpdateBankState P old varhObsoleteTransition
  let s ← s.rtVarUpdateBankState P new varhInUseTransition
  let s ← s.rtVarClearStore P old
  let s ← s.rtVarUpdateBankState P new varhInUse
  let s := s.insertTail new
  s.rtVarGetTransactionBank P (s.bank old).varStore

def rtVarGarbageCollectBank (old : BankAddr) (s : State) : Except Fault State :=
  let t := (s.bank old).varStore
  let varStore := s.store t
  let s := s.setStore t { varStore with tBank := none, tSize := 0 }
  match (if varStore.tBankRequired then varStore.tBank else some old) with
  | none => .ok s
  | some new => do
    let s ← s.moveVariables P old new ((s.bank old).bankSize + 1) firstVariableOffset
    if varStore.tBankRequired then s.switchBanks P old new
    else
      let (failed, s) := s.deviceTransactionUpdate P new
      return if failed then s.bankFailed new else s

/-- The bank has obsolete data in it and will collect into the transaction bank. -/
def collectable (s : State) (b : BankAddr) : Bool :=
  !(s.bank b).deviceError && decide ((s.bank b).inUse < (s.bank b).tail) &&
    decide ((s.bank b).inUse ≤ s.tSizeOf b)

/-- Ask the devices of the banks, in turn, for another bank. -/
def growStore (t : StoreType) : List BankAddr → State → Except Fault (Bool × State)
  | [], s => .ok (false, s)
  | b :: banks, s =>
    if (P.device b.device).sizeStore then
      let noBanks := s.noBanks b.device + 1
      let s := s.deviceSizeStore P b.device noBanks
      if s.noBanks b.device = noBanks then do
        let (status, s) ← s.varStoreAddBank P t ⟨b.device, noBanks - 1⟩
        return (!status.isError, s)
      else growStore t banks s
    else growStore t banks s

/-- Returns whether space was made available. -/
def rtVarGarbageCollect (t : StoreType) (s : State) : Except Fault (Bool × State) :=
  match (s.store t).active.find? s.collectable with
  | some b => do
    let s ← s.rtVarGarbageCollectBank P b
    return (true, s)
  | none => s.growStore P t (s.store t).active

end State

end EfiCore.Var
