import EfiCore.Var.Io

/-! # Discovery of a bank

`VarStoreAddBank` of `varinit.c`: read a bank of a device into memory and find its tail.
-/

namespace EfiCore.Var

open EfiCore.Lib

namespace State

variable (P : Platform)

/-- The bank is not in use: no signature, another format, or added but never switched to. -/
def Bank.uninteresting (bank : Bank) : Bool :=
  bank.header.signature ≠ bankHeaderSignature || bank.header.format ≠ varhFormat ||
    (hasBits bank.state varhAddTransition && !hasBits bank.state varhInUseTransition)

/-- The pass over the records of a new bank; returns the offset it has come to. -/
def findTail (b : BankAddr) : Nat → Nat → State → Except Fault (Nat × State)
  | 0, _, _ => .error .hang
  | fuel + 1, offset, s => do
    let bankSize := (s.bank b).bankSize
    if bankSize ≤ offset then return (offset, s)
    if bankSize < offset + sizeofVariable + 1 + 2 + 1 then return (bankSize, s)
    let s ← s.rtVarReadStore P b offset sizeofVariable
    if (s.bank b).deviceError then return (offset, s)
    let size ← readUint16 (s.bank b).data offset
    if size = 0xFFFF || size = 0x0000 then return (offset, s)
    let varSize := P.arch.sub (varSizeMask size) sizeofVariable
    if bankSize < P.arch.add varSize offset || varSize < 1 + 2 + 1 then
      -- the bank was corrupt
      let s ← s.rtVarClearStore P b
      let s ← s.rtVarUpdateStore P b 0 (s.bank b).tail
      return (offset, s)
    let s ← s.rtVarReadStore P b (offset + sizeofVariable) varSize
    match ← rtVarParseStore P.arch (s.bank b) offset with
    | none => findTail b fuel bankSize s
    | some info =>
      let s := if info.fields.isSome then
          s.setBank b
            { s.bank b with inUse := P.arch.add (s.bank b).inUse info.varSize }
        else s
      findTail b fuel info.nextVarOffset s

/-- The `STORAGE_BANK` of a new bank, in memory that holds anything. -/
def newBank (t : StoreType) (b : BankAddr) (s : State) : State :=
  let data := (P.answer s.calls).fill (List.replicate (P.device b.device).bankSize 0)
  s.answered.setBank b
    { varStore := t, state := 0, deviceError := false, inUse := 0, tail := 0, tSize := .bankSize,
      data }

/-- `InsertTailList` or `InsertHeadList`, by the sequence number of the bank. -/
def insertBank (b : BankAddr) (s : State) : State :=
  let t := (s.bank b).varStore
  let sequence := (s.bank b).header.sequence
  if (s.store t).sequence ≤ sequence then
    (s.insertTail b).setStore t { (s.insertTail b).store t with sequence }
  else s.insertHead b

def varStoreAddBank (t : StoreType) (b : BankAddr) (s : State) : Except Fault (Status × State) :=
  if (P.answer s.calls).fails then .ok (.outOfResources, s.answered)
  else do
    let s ← (s.newBank P t b).rtVarReadStore P b 0 sizeofBankHeader
    let s := s.setBank b { s.bank b with state := (s.bank b).header.state ^^^ 0xFF }
    let s ← if Bank.uninteresting (s.bank b) then s.rtVarClearStore P b
      else pure (s.insertBank b)
    let s := s.setBank b
      { s.bank b with inUse := firstVariableOffset, tail := (s.bank b).bankSize }
    let (tail, s) ← s.findTail P b ((s.bank b).bankSize + 1) firstVariableOffset
    let s := s.setBank b { s.bank b with tail }
    if (s.bank b).deviceError then return (.success, s.rtVarBankError b)
    let s := if (P.device b.device).transactionUpdate then s
      else s.setStore t { s.store t with tBankRequired := true }
    return (.success, s)

end State

end EfiCore.Var
