import EfiCore.Lib.Bytes
import EfiCore.Types

/-! # Layout of a storage bank

The records of `ivar.h` as they lie in a bank, and the stores the variable services keep.
A bank holds its header and then a stream of records, each

    [size 2] [attributes 2] [guid 16] [name] 0 [data] [state 1] [pad]

where `size` counts up to the state byte and the pad aligns the next record to 4 bytes.
The state byte and the state of a bank are stored inverted.
-/

namespace EfiCore.Var

open EfiCore.Lib

/-! ## Banks -/

/-- `sizeof (BANK_HEADER)` -/
def sizeofBankHeader : Nat := 8

/-- `BANK_HEADER_SIGNATURE`, `EFI_SIGNATURE_32('v','b','r','l')` -/
def bankHeaderSignature : Nat := 0x6C726276

/-- `VARH_FORMAT` -/
def varhFormat : Byte := 0x00

/-- `VARH_ADD_TRANSITION` -/
def varhAddTransition : Byte := 0x01

/-- `VARH_INUSE_TRANSITION` -/
def varhInUseTransition : Byte := 0x02

/-- `VARH_INUSE` -/
def varhInUse : Byte := 0x04

/-- `VARH_OBSOLETE_TRANSITION` -/
def varhObsoleteTransition : Byte := 0x08

/-- `VARH_MAX_SEQUENCE` -/
def varhMaxSequence : Nat := 0xFFFF

/-- `FIRST_VARIABLE_OFFSET` -/
def firstVariableOffset : Nat := sizeofBankHeader

/-- `BANK_HEADER` -/
structure BankHeader where
  signature : Nat
  sequence : Nat
  format : Byte
  state : Byte
  deriving DecidableEq, Repr

def BankHeader.bytes (h : BankHeader) : List Byte :=
  leBytes 4 h.signature ++ leBytes 2 h.sequence ++ [h.format, h.state]

/-! ## Records -/

/-- `sizeof (VARIABLE)` -/
def sizeofVariable : Nat := 20

/-- `VAR_SIZE_MASK`: the record size is the low 12 bits of `Size`. -/
def varSizeMask (size : Nat) : Nat := size % 0x1000

/-- `EFI_MAXIMUM_VARIABLE_SIZE` -/
def maximumVariableSize : Nat := 1024

/-- `VAR_OBSOLETE_TRANSITION` -/
def varObsoleteTransition : Byte := 0x01

/-- `VAR_OBSOLETE` -/
def varObsolete : Byte := 0x02

/-- `VAR_ADDED` -/
def varAdded : Byte := 0x80

/-- `state & bits` -/
def hasBits (state bits : Byte) : Bool := state &&& bits ≠ 0

/-- `(sizeof(UINT32) - VarSize % sizeof(UINT32)) & (sizeof(UINT32)-1)` -/
def padSize (varSize : Nat) : Nat := (4 - varSize % 4) % 4

/-- The string a `CHAR16` pointer names, without its `NUL`. -/
structure VarName where
  chars : List (BitVec 16)
  noNul : 0 ∉ chars
  deriving DecidableEq

/-- `StrSize (VariableName)` -/
def VarName.size (name : VarName) : Nat := 2 * (name.chars.length + 1)

def VarName.bytes (name : VarName) : List Byte :=
  (name.chars.flatMap fun c => leBytes 2 c.toNat) ++ [0, 0]

/-! ## Stores -/

/-- `EFI_VARIABLE_NON_VOLATILE` -/
def nonVolatile : BitVec 32 := 0x1

/-- `EFI_VARIABLE_BOOTSERVICE_ACCESS` -/
def bootserviceAccess : BitVec 32 := 0x2

/-- `EFI_VARIABLE_RUNTIME_ACCESS` -/
def runtimeAccess : BitVec 32 := 0x4

/-- The four entries of `VariableStore`, in the order of their `Next` links. -/
inductive StoreType where
  | bs
  | nvBs
  | bsRt
  | nvBsRt
  deriving DecidableEq, Repr

/-- `MemoryType == EfiRuntimeServicesData` -/
def StoreType.runtimeMemory : StoreType → Bool
  | .bs => false
  | .nvBs => false
  | .bsRt => true
  | .nvBsRt => true

/-- `RuntimeUpdate` -/
def StoreType.runtimeUpdate : StoreType → Bool
  | .bs => false
  | .nvBs => false
  | .bsRt => false
  | .nvBsRt => true

/-- `VariableStore` and the stores behind it. -/
def variableStores : List StoreType := [.bs, .nvBs, .bsRt, .nvBsRt]

/-- `VariableStoreType[Attributes & VAR_ATTRIBUTE_TYPE]`, as `InitializeVariableStore` sets it. -/
def variableStoreType (attributes : BitVec 32) : Option StoreType :=
  match (attributes &&& 0x7).toNat with
  | 2 => some .bs
  | 3 => some .nvBs
  | 4 => some .bsRt
  | 6 => some .bsRt
  | 5 => some .nvBsRt
  | 7 => some .nvBsRt
  | _ => none

end EfiCore.Var
