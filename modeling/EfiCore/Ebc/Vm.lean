import EfiCore.Ebc.Index

/-! # The virtual machine

The fields of `VM_CONTEXT` that instructions use, exceptions, and the operands of an instruction.
-/

namespace EfiCore.Ebc

open EfiCore.Lib

theorem neZero_registers : NeZero 8 := ⟨by decide⟩

attribute [local instance] neZero_registers

structure Vm where
  r : Fin 8 → BitVec 64
  flags : BitVec 64
  ip : Nat
  lastException : Nat
  exceptionFlags : BitVec 32
  stopFlags : BitVec 32
  stackRetAddr : BitVec 64
  framePtr : Nat
  /-- Memory, with the fields that the translation of addresses uses. -/
  host : Host

/-- What the language leaves open and a compiler settles: the value of `0x01 << 63`, and the
results of 32-bit shifts by 32 places or more. -/
structure Unspecified where
  bit63 : BitVec 32
  shl : BitVec 32 → BitVec 32 → BitVec 32
  shr : BitVec 32 → BitVec 32 → BitVec 32
  sar : BitVec 32 → BitVec 32 → BitVec 32

/-! ## Exceptions -/

/-- `EXCEPT_EBC_*` -/
inductive Exception where
  | divideError
  | invalidOpcode
  | alignmentCheck
  | instructionEncoding
  deriving DecidableEq, Repr

def Exception.code : Exception → Nat
  | .divideError => 1
  | .invalidOpcode => 5
  | .alignmentCheck => 7
  | .instructionEncoding => 8

/-- `EXCEPTION_FLAG_*` -/
inductive Severity where
  | fatal
  | error
  | warning
  deriving DecidableEq, Repr

def Severity.flag : Severity → BitVec 32
  | .fatal => 0x80000000
  | .error => 0x40000000
  | .warning => 0x20000000

def stopFlagAppDone : BitVec 32 := 1

namespace Vm

/-- `EbcDebugSignalException`. A debugger that is called gets a copy of the registers. -/
def signalException (exceptionType : Exception) (exceptionFlags : Severity) (vm : Vm) : Vm :=
  { vm with
    exceptionFlags := vm.exceptionFlags ||| exceptionFlags.flag
    lastException := exceptionType.code
    stopFlags := if exceptionFlags = .fatal then vm.stopFlags ||| stopFlagAppDone else vm.stopFlags }

/-! ## Operands -/

def opcode (vm : Vm) : Byte := vm.host.memory vm.ip

def operands (vm : Vm) : Byte := vm.host.memory (vm.ip + 1)

/-- `OPERAND1_REGNUM` -/
def operand1 (vm : Vm) : Fin 8 := Fin.ofNat 8 vm.operands.toNat

/-- `OPERAND2_REGNUM` -/
def operand2 (vm : Vm) : Fin 8 := Fin.ofNat 8 (vm.operands >>> 4).toNat

def operand1Indirect (vm : Vm) : Bool := vm.operands.getLsbD 3

def operand2Indirect (vm : Vm) : Bool := vm.operands.getLsbD 7

/-- `OPCODE_M_IMMDATA`, also the mask for the 32-bit immediate of `CMPI`. -/
def immData (vm : Vm) : Bool := vm.opcode.getLsbD 7

/-- `OPCODE_M_64BIT`, `DATAMANIP_M_64` and `OPCODE_M_CMPI64` -/
def is64Bit (vm : Vm) : Bool := vm.opcode.getLsbD 6

/-- A read of code words at an address that is not aligned gives a warning. -/
def codeRead (offset : Nat) (vm : Vm) : Vm :=
  if isAligned (vm.ip + offset) 2 then vm else vm.signalException .alignmentCheck .warning

variable (A : Arch)

/-- The 16 bits behind an instruction: an index if operand 2 is indirect, and data otherwise. -/
def index16 (vm : Vm) : BitVec 16 :=
  if vm.immData then
    if vm.operand2Indirect then vmReadIndex16 A vm.host.memory vm.ip 2
    else vmReadCode16 vm.host.memory vm.ip 2
  else 0

/-- The machine after they are read. -/
def read16 (vm : Vm) : Vm := if vm.immData then vm.codeRead 2 else vm

def size16 (vm : Vm) : Nat := if vm.immData then 4 else 2

/-- A load in the width of the instruction. -/
def load (vm : Vm) (addr : BitVec 64) : BitVec 64 × Vm :=
  let addr := addr.toNat % 2 ^ A.bits
  let read := if vm.is64Bit then vmReadMem64 A vm.host addr else vmReadMem32 A vm.host addr
  (BitVec.ofNat 64 read.1, { vm with host := read.2 })

def store (vm : Vm) (addr data : BitVec 64) : Vm :=
  let addr := addr.toNat % 2 ^ A.bits
  if vm.is64Bit then { vm with host := vmWriteMem64 A vm.host addr data.toNat }
  else { vm with host := vmWriteMem32 A vm.host addr (data.setWidth 32).toNat }

def setR (vm : Vm) (i : Fin 8) (x : BitVec 64) : Vm := { vm with r := Function.update vm.r i x }

def advance (vm : Vm) (size : Nat) : Vm := { vm with ip := A.add vm.ip size }

/-- `VMFLAG_SET` or `VMFLAG_CLEAR` of `VMFLAGS_CC` -/
def setCC (vm : Vm) (flag : Bool) : Vm :=
  { vm with flags := if flag then vm.flags ||| 1#64 else vm.flags &&& ~~~1#64 }

end Vm

end EfiCore.Ebc
