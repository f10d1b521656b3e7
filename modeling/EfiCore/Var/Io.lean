import EfiCore.Var.State

/-! # Access to the banks

`vario.c`.  `RtVarParseStore` reads the record at `NextVarOffset`; it returns `FALSE` at the end
of the bank, which here is `none`, and then leaves `BankSize` in `NextVarOffset`.
-/

namespace EfiCore.Var

open EfiCore.Lib

/-- What `RtVarParseStore` finds out about a record it reports `Valid`. -/
structure VarFields where
  attributes : BitVec 32
  vendorGuid : Guid
  /-- The words of the name before its `NUL`. -/
  name : List (BitVec 16)
  nameSize : Nat
  dataOffset : Nat
  dataSize : Nat
  deriving DecidableEq

/-- `VARIABLE_INFO` after `RtVarParseStore` has returned `TRUE`. -/
structure VarInfo where
  varOffset : Nat
  varSize : Nat
  nameOffset : Nat
  stateOffset : Nat
  nextVarOffset : Nat
  state : Byte
  /-- The fields of a `Valid` record. -/
  fields : Option VarFields
  deriving DecidableEq

/-- The scan for the end of the name, from the offset `index` on, where the rest of the buffer
    is `rest`: the offset of the `NUL`, or `none` when the state byte comes first. -/
def findNameEnd (stateOffset : Nat) : Nat → List Byte → Except Fault (Option Nat)
  | _, [] => .error .outOfBounds
  | index, [low] =>
    -- the second byte is read only where the first is zero, or on the next turn
    if low ≠ 0 ∧ stateOffset ≤ index then .ok none else .error .outOfBounds
  | index, low :: high :: rest =>
    if low = 0 ∧ high = 0 then .ok (some index)
    else if stateOffset ≤ index then .ok none
    else findNameEnd stateOffset (index + 2) rest

/-- The `CHAR16`s that lie in a buffer. -/
def char16s : List Byte → List (BitVec 16)
  | low :: high :: rest => BitVec.ofNat 16 (leNat [low, high]) :: char16s rest
  | _ => []

/-- Parse the name of the record `info`, in order to locate its data. -/
def parseName (A : Arch) (data : List Byte) (info : VarInfo) : Except Fault VarInfo := do
  match ← findNameEnd info.stateOffset info.nameOffset (data.drop info.nameOffset) with
  | none => return info
  | some nameEnd =>
    let attributes ← readUint16 data (info.varOffset + 2)
    let guid ← readBuffer data (info.varOffset + 4) 16
    let nameSize := nameEnd - info.nameOffset + 2
    let dataOffset := info.nameOffset + nameSize
    let fields : VarFields :=
      { attributes := BitVec.ofNat 32 attributes, vendorGuid := BitVec.ofNat 128 (leNat guid),
        name := char16s (slice data info.nameOffset (nameEnd - info.nameOffset)), nameSize,
        dataOffset, dataSize := A.sub info.stateOffset dataOffset }
    return { info with fields := some fields }

def rtVarParseStore (A : Arch) (bank : Bank) (offset : Nat) : Except Fault (Option VarInfo) :=
  if bank.tail < offset + (sizeofVariable + 1 + 2 + 1) then .ok none
  else do
    let size ← readUint16 bank.data offset
    if size = 0xFFFF then return none
    let varSize := varSizeMask size
    if bank.bankSize < A.add (A.sub varSize sizeofVariable) offset then return none
    let nextVarOffset := offset + varSize + padSize varSize
    let stateOffset := offset + varSize - 1
    let stateByte ← readByte bank.data stateOffset
    let info : VarInfo :=
      { varOffset := offset, varSize := nextVarOffset - offset,
        nameOffset := offset + sizeofVariable, stateOffset, nextVarOffset,
        state := stateByte ^^^ 0xFF, fields := none }
    if !hasBits info.state varAdded || hasBits info.state varObsolete then
      return some { info with state := varAdded ||| varObsoleteTransition ||| varObsolete }
    some <$> parseName A bank.data info

namespace State

variable (P : Platform)

/-- `Bank->DeviceError = TRUE` -/
def bankFailed (b : BankAddr) (s : State) : State :=
  s.setBank b { s.bank b with deviceError := true }

def rtVarReadStore (b : BankAddr) (offset size : Nat) (s : State) : Except Fault State := do
  let (failed, s) ← s.deviceReadStore P b offset size
  return if failed then s.bankFailed b else s

def rtVarUpdateStore (b : BankAddr) (offset size : Nat) (s : State) : Except Fault State :=
  if (s.bank b).deviceError then .ok s
  else do
    let buffer ← readBuffer (s.bank b).data offset size
    let (failed, s) := s.deviceUpdateStore P b offset buffer
    return if failed then s.bankFailed b else s

/-- Write to the copy of a bank. -/
def writeData (b : BankAddr) (offset : Nat) (bytes : List Byte) (s : State) :
    Except Fault State := do
  let data ← writeBuffer (s.bank b).data offset bytes
  return s.setBank b { s.bank b with data }

/-- The part of `RtVarClearStore` behind the device's `ClearStore`. -/
def initBank (b : BankAddr) (s : State) : Except Fault State := do
  let s := s.setBank b
    { s.bank b with state := 0, tail := firstVariableOffset, inUse := firstVariableOffset }
  let t := (s.bank b).varStore
  let sequence := (s.store t).sequence
  let sequence := if sequence < varhMaxSequence then sequence + 1 else sequence
  let s := s.setStore t { s.store t with sequence }
  let header : BankHeader :=
    { signature := bankHeaderSignature, sequence, format := varhFormat, state := 0xFF }
  let s ← s.writeData b 0 header.bytes
  let buffer ← readBuffer (s.bank b).data 0 sizeofBankHeader
  let (failed, s) := s.deviceUpdateStore P b 0 buffer
  return if failed then s.bankFailed b else s.insertTail b

def rtVarClearStore (b : BankAddr) (s : State) : Except Fault State := do
  let s := s.unlink b
  if (s.bank b).deviceError then return s
  -- the clear may not work from the start of the bank, so the signature goes first
  let s ← if (s.bank b).header.signature = bankHeaderSignature then do
      let s ← s.writeData b 0 (List.replicate sizeofBankHeader 0)
      s.rtVarUpdateStore P b 0 sizeofBankHeader
    else pure s
  if (s.bank b).deviceError then return s
  let (failed, s) := s.deviceClearStore P b
  if failed then return s.bankFailed b
  s.initBank P b

/-- Set `newBit` in the state of the record `info`; returns the record's new state with it. -/
def rtVarUpdateState (b : BankAddr) (info : VarInfo) (newBit : Byte) (s : State) :
    Except Fault (VarInfo × State) := do
  let info := { info with state := info.state ||| newBit }
  let s ← s.writeData b info.stateOffset [info.state ^^^ 0xFF]
  let s ← s.rtVarUpdateStore P b info.stateOffset 1
  return (info, s)

def rtVarUpdateBankState (b : BankAddr) (newBit : Byte) (s : State) : Except Fault State := do
  let state := (s.bank b).state ||| newBit
  let s ← (s.setBank b { s.bank b with state }).writeData b 7 [state ^^^ 0xFF]
  s.rtVarUpdateStore P b 0 sizeofBankHeader

def rtVarBankError (b : BankAddr) (s : State) : State := s.unlink b

end State

end EfiCore.Var
