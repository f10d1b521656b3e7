import EfiCore.Var.Layout
import Mathlib.Logic.Function.Basic

/-! # State of the variable services

Each bank of a store has a copy in memory, `u.Data`, beside its content on the device.  The
two need not agree: updates go through the copy, a device may fail, and a device that is
handed the copy as the scratch buffer of `ClearStore` may leave anything in it.

Devices and the pool are the environment.  A `Platform` answers their calls in the order in
which they are made, and `State.log` keeps the calls that reach a bank, each with what the
devices held when it was made.

Offsets lie in a buffer that is in memory, so sums of offsets and sizes do not wrap; where the
C can wrap, `Arch.add` and `Arch.sub` say so.
-/

namespace EfiCore.Var

open EfiCore.Lib

inductive Fault where
  /-- An access outside the copy of a bank, or outside the bank on its device. -/
  | outOfBounds
  /-- A device whose attributes name no store. -/
  | nullStore
  /-- A local that was never assigned. -/
  | uninitialized
  /-- A loop over the records of a bank that does not end. -/
  | hang
  /-- The bound on the rounds of garbage collection was reached. -/
  | outOfRounds
  deriving DecidableEq, Repr

/-! ## Environment -/

/-- Which bank of which device. -/
structure BankAddr where
  device : Nat
  bankNo : Nat
  deriving DecidableEq, Repr

/-- `EFI_VARIABLE_STORE`; `NoBanks` can grow and is kept in the state. -/
structure Device where
  attributes : BitVec 32
  bankSize : Nat
  bankSize_lt : bankSize < 2 ^ 32
  /-- `SizeStore` is not `NULL`. -/
  sizeStore : Bool
  /-- `TransactionUpdate` is not `NULL`. -/
  transactionUpdate : Bool
  /-- `ClearStore` writes to the scratch buffer it is handed. -/
  usesScratch : Bool

/-- What comes back from a device or from the pool. -/
structure Answer where
  /-- The call returns an error. -/
  fails : Bool
  /-- What it leaves at an offset of the buffer it was handed, from what was there. -/
  buffer : Nat → Byte → Byte

structure Platform where
  arch : Arch
  device : Nat → Device
  /-- The answer to the `n`th call. -/
  answer : Nat → Answer
  /-- Bound on the turns of the loops that collect garbage until there is space. -/
  rounds : Nat

abbrev Flash := BankAddr → List Byte

inductive DeviceCall where
  | clearStore (bank : BankAddr)
  | updateStore (bank : BankAddr) (offset : Nat) (buffer : List Byte)
  | transactionUpdate (bank : BankAddr) (contents : List Byte)

/-- A call and what the devices held when it was made. -/
structure Issued where
  call : DeviceCall
  flash : Flash

/-! ## Stores -/

/-- Where `TSize` points. -/
inductive TSize where
  /-- `&Bank->BankSize` -/
  | bankSize
  /-- `&VarStore->TSize` -/
  | varStore
  deriving DecidableEq, Repr

/-- `STORAGE_BANK` -/
structure Bank where
  varStore : StoreType
  state : Byte
  deviceError : Bool
  inUse : Nat
  tail : Nat
  tSize : TSize
  /-- `u.Data`; its length is `BankSize`. -/
  data : List Byte

def Bank.bankSize (bank : Bank) : Nat := bank.data.length

/-- `u.Header` -/
def Bank.header (bank : Bank) : BankHeader where
  signature := leNat (slice bank.data 0 4)
  sequence := leNat (slice bank.data 4 2)
  format := bank.data.getD 6 0
  state := bank.data.getD 7 0

/-- `VARIABLE_STORE`, without what `InitializeVariableStore` fixes. -/
structure VariableStore where
  active : List BankAddr
  tBankRequired : Bool
  sequence : Nat
  tBank : Option BankAddr
  tSize : Nat

structure State where
  efiAtRuntime : Bool
  store : StoreType → VariableStore
  bank : BankAddr → Bank
  flash : Flash
  noBanks : Nat → Nat
  /-- How many calls the environment has answered. -/
  calls : Nat
  /-- The calls that reached a bank, the latest first. -/
  log : List Issued

namespace State

variable (s : State)

def setBank (b : BankAddr) (bank : Bank) : State :=
  { s with bank := Function.update s.bank b bank }

def setStore (t : StoreType) (store : VariableStore) : State :=
  { s with store := Function.update s.store t store }

/-- `*Bank->TSize` -/
def tSizeOf (b : BankAddr) : Nat :=
  match (s.bank b).tSize with
  | .bankSize => (s.bank b).bankSize
  | .varStore => (s.store (s.bank b).varStore).tSize

/-- `RemoveEntryList (&Bank->Link)`; a bank is on no list but that of its store. -/
def unlink (b : BankAddr) : State :=
  let t := (s.bank b).varStore
  s.setStore t { s.store t with active := (s.store t).active.erase b }

/-- `InsertTailList (&VarStore->Active, &Bank->Link)` -/
def insertTail (b : BankAddr) : State :=
  let t := (s.bank b).varStore
  s.setStore t { s.store t with active := (s.store t).active ++ [b] }

/-- `InsertHeadList (&VarStore->Active, &Bank->Link)` -/
def insertHead (b : BankAddr) : State :=
  let t := (s.bank b).varStore
  s.setStore t { s.store t with active := b :: (s.store t).active }

/-- The environment answers one more call. -/
def answered : State := { s with calls := s.calls + 1 }

def issue (call : DeviceCall) : State := { s with log := ⟨call, s.flash⟩ :: s.log }

def setFlash (b : BankAddr) (content : List Byte) : State :=
  { s with flash := Function.update s.flash b content }

end State

/-! ## Buffers -/

/-- `n` bytes of a buffer from the offset `off` on. -/
def readBuffer (l : List Byte) (off n : Nat) : Except Fault (List Byte) :=
  if off + n ≤ l.length then .ok (slice l off n) else .error .outOfBounds

def writeBuffer (l : List Byte) (off : Nat) (bs : List Byte) : Except Fault (List Byte) :=
  if off + bs.length ≤ l.length then .ok (splice l off bs) else .error .outOfBounds

def readByte (l : List Byte) (off : Nat) : Except Fault Byte :=
  match l[off]? with
  | some b => .ok b
  | none => .error .outOfBounds

/-- A `UINT16` of a buffer. -/
def readUint16 (l : List Byte) (off : Nat) : Except Fault Nat :=
  leNat <$> readBuffer l off 2

/-- `n` bytes that were handed to the environment. -/
def Answer.fill (a : Answer) (l : List Byte) : List Byte := l.mapIdx a.buffer

/-! ## Devices -/

namespace State

variable (P : Platform)

/-- `Device->UpdateStore (Device, BankNo, Offset, BufferSize, Buffer)`: whether it fails. -/
def deviceUpdateStore (b : BankAddr) (offset : Nat) (buffer : List Byte) (s : State) :
    Bool × State :=
  let answer := P.answer s.calls
  let s := (s.issue (.updateStore b offset buffer)).answered
  if answer.fails then (true, s)
  else (false, s.setFlash b (splice (s.flash b) offset buffer))

/-- `Device->ClearStore (Device, BankNo, Bank->u.Data)`: a cleared bank has all bits on. -/
def deviceClearStore (b : BankAddr) (s : State) : Bool × State :=
  let answer := P.answer s.calls
  let s := (s.issue (.clearStore b)).answered
  let data := (s.bank b).data
  let data := if (P.device b.device).usesScratch then answer.fill data else data
  let s := s.setBank b { s.bank b with data }
  if answer.fails then (true, s)
  else (false, s.setFlash b (List.replicate (s.flash b).length 0xFF))

/-- `Device->TransactionUpdate (Device, BankNo, Bank->u.Data)` -/
def deviceTransactionUpdate (b : BankAddr) (s : State) : Bool × State :=
  let answer := P.answer s.calls
  let s := (s.issue (.transactionUpdate b (s.bank b).data)).answered
  if answer.fails then (true, s) else (false, s.setFlash b (s.bank b).data)

/-- `Device->SizeStore (Device, NoBanks)`; what it sets, `Device->NoBanks`, is a `UINT32`. -/
def deviceSizeStore (device noBanks : Nat) (s : State) : State :=
  let answer := P.answer s.calls
  let s := s.answered
  if answer.fails || decide (2 ^ 32 ≤ noBanks) then s else { s with noBanks := Function.update s.noBanks device noBanks }

/-- `Device->ReadStore (Device, BankNo, Offset, Size, Bank->u.Data + Offset)`; a read that fails
    leaves anything in the buffer. -/
def deviceReadStore (b : BankAddr) (offset size : Nat) (s : State) :
    Except Fault (Bool × State) := do
  let answer := P.answer s.calls
  let old ← readBuffer (s.bank b).data offset size
  let new ← readBuffer (s.flash b) offset size
  let s := s.answered
  let bytes := if answer.fails then answer.fill old else new
  return (answer.fails, s.setBank b { s.bank b with data := splice (s.bank b).data offset bytes })

end State

end EfiCore.Var
