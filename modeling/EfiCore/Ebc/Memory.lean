import EfiCore.Lib.Bytes
import EfiCore.Types
import Mathlib.Logic.Function.Basic

/-! # Memory of the byte code interpreter

The `VmWriteMem` and `VmReadMem` routines of `EbcExecute.c`.  A program takes the arguments of its
entry point to lie right above its own stack, where the stack of the interpreter is: addresses in
this gap are translated by `ConvertStackAddr`.

Memory is that of the host, byte by byte; what lies in the `VM_CONTEXT` is not part of it.
-/

namespace EfiCore.Ebc

open EfiCore.Lib

/-- The fields of `VM_CONTEXT` that the translation of addresses uses. -/
structure Stack where
  /-- The address of the `VM_CONTEXT`. -/
  vmPtr : Nat
  lowStackTop : Nat
  highStackBottom : Nat
  lastAddrConverted : Nat
  lastAddrConvertedValue : Nat

/-- `sizeof (VM_CONTEXT)` -/
def sizeofVmContext : Arch → Nat
  | .efi32 => 144
  | .efi64 => 192

abbrev Memory := Addr → Byte

structure Host where
  stack : Stack
  memory : Memory

/-- `IS_ALIGNED (addr, size)` -/
def isAligned (addr size : Nat) : Bool := addr % 2 ^ 32 &&& (size - 1) = 0

/-- The address is in the gap, and not in the VM itself. -/
def Stack.converts (A : Arch) (s : Stack) (addr : Nat) : Bool :=
  decide (s.lowStackTop ≤ addr) && decide (addr < s.highStackBottom) &&
    (decide (addr < s.vmPtr) || decide (s.vmPtr + sizeofVmContext A < addr))

/-- The address that `ConvertStackAddr` returns. -/
def Stack.convert (A : Arch) (s : Stack) (addr : Nat) : Nat :=
  if s.converts A addr then A.add (A.sub addr s.lowStackTop) s.highStackBottom else addr

/-- `ConvertStackAddr` -/
def convertStackAddr (A : Arch) (s : Stack) (addr : Nat) : Addr × Stack :=
  (s.convert A addr,
    if s.converts A addr then
      { s with lastAddrConverted := addr, lastAddrConvertedValue := s.convert A addr }
    else s)

/-! ## Access to the host -/

/-- The addresses of `n` bytes. -/
def hostRange (A : Arch) : Nat → Nat → List Addr
  | _, 0 => []
  | addr, n + 1 => addr :: hostRange A (A.add addr 1) n

/-- Write bytes to the addresses of a list, in its order. -/
def Memory.writeAt (m : Memory) : List Addr → List Byte → Memory
  | addr :: addrs, b :: bs => writeAt (Function.update m addr b) addrs bs
  | _, _ => m

/-- Store `n` bytes at an address. -/
def Host.store (A : Arch) (h : Host) (addr n data : Nat) : Host :=
  { h with memory := h.memory.writeAt (hostRange A addr n) (leBytes n data) }

def Host.load (A : Arch) (h : Host) (addr n : Nat) : Nat :=
  leNat ((hostRange A addr n).map h.memory)

/-- The host after a translation. -/
def Host.converted (A : Arch) (h : Host) (addr : Nat) : Host :=
  { h with stack := (convertStackAddr A h.stack addr).2 }

/-! ## Writing -/

variable (A : Arch)

def vmWriteMem8 (h : Host) (addr : Nat) (data : Nat) : Host :=
  (h.converted A addr).store A (h.stack.convert A addr) 1 data

def vmWriteMem16 (h : Host) (addr : Nat) (data : Nat) : Host :=
  let h' := h.converted A addr
  let addr := h.stack.convert A addr
  if isAligned addr 2 then h'.store A addr 2 data
  else
    let h' := vmWriteMem8 A h' addr data
    vmWriteMem8 A h' (A.add addr 1) (data / 2 ^ 8)

def vmWriteMem32 (h : Host) (addr : Nat) (data : Nat) : Host :=
  let h' := h.converted A addr
  let addr := h.stack.convert A addr
  if isAligned addr 4 then h'.store A addr 4 data
  else
    let h' := vmWriteMem16 A h' addr data
    vmWriteMem16 A h' (A.add addr 2) (data / 2 ^ 16)

def vmWriteMem64 (h : Host) (addr : Nat) (data : Nat) : Host :=
  let h' := h.converted A addr
  let addr := h.stack.convert A addr
  if isAligned addr 8 then h'.store A addr 8 data
  else
    let h' := vmWriteMem32 A h' addr data
    vmWriteMem32 A h' (A.add addr 4) (data / 2 ^ 32)

def vmWriteMemN (h : Host) (addr : Nat) (data : Nat) : Host :=
  let h' := h.converted A addr
  let addr := h.stack.convert A addr
  if isAligned addr A.pointerSize then h'.store A addr A.pointerSize data
  else
    (List.range (A.pointerSize / 4)).foldl
      (fun h' i => vmWriteMem32 A h' (A.add addr (i * 4)) (data / 2 ^ (32 * i))) h'

/-! ## Reading -/

def vmReadMem8 (h : Host) (addr : Nat) : Nat × Host :=
  (h.load A (h.stack.convert A addr) 1, h.converted A addr)

def vmReadMem16 (h : Host) (addr : Nat) : Nat × Host :=
  let h' := h.converted A addr
  let addr := h.stack.convert A addr
  if isAligned addr 2 then (h'.load A addr 2, h')
  else (((h'.memory addr).toNat + (h'.memory (A.add addr 1)).toNat <<< 8) % 2 ^ 16, h')

def vmReadMem32 (h : Host) (addr : Nat) : Nat × Host :=
  let h' := h.converted A addr
  let addr := h.stack.convert A addr
  if isAligned addr 4 then (h'.load A addr 4, h')
  else
    let (low, h') := vmReadMem16 A h' addr
    let (high, h') := vmReadMem16 A h' (A.add addr 2)
    (low ||| high <<< 16, h')

def vmReadMem64 (h : Host) (addr : Nat) : Nat × Host :=
  let h' := h.converted A addr
  let addr := h.stack.convert A addr
  if isAligned addr 8 then (h'.load A addr 8, h')
  else
    let (low, h') := vmReadMem32 A h' addr
    let (high, h') := vmReadMem32 A h' (A.add addr 4)
    -- the upper half of `Data` is overwritten
    (low + 2 ^ 32 * high, h')

def vmReadMemN (h : Host) (addr : Nat) : Nat × Host :=
  let h' := h.converted A addr
  let addr := h.stack.convert A addr
  if isAligned addr A.pointerSize then (h'.load A addr A.pointerSize, h')
  else
    -- byte after byte, each at its place in `Data`
    (leNat ((hostRange A addr A.pointerSize).map h'.memory), h')

/-! ## Calls -/

/-- Which of the routines. -/
inductive Width where
  | w8
  | w16
  | w32
  | w64
  | natural
  deriving DecidableEq, Repr

def Width.bytes : Width → Nat
  | .w8 => 1
  | .w16 => 2
  | .w32 => 4
  | .w64 => 8
  | .natural => A.pointerSize

inductive Call where
  | write (width : Width) (addr : Nat) (data : Nat)
  | read (width : Width) (addr : Nat)

/-- What a call reads, and the host after it. -/
def Call.perform (h : Host) : Call → Option Nat × Host
  | .write .w8 addr data => (none, vmWriteMem8 A h addr data)
  | .write .w16 addr data => (none, vmWriteMem16 A h addr data)
  | .write .w32 addr data => (none, vmWriteMem32 A h addr data)
  | .write .w64 addr data => (none, vmWriteMem64 A h addr data)
  | .write .natural addr data => (none, vmWriteMemN A h addr data)
  | .read .w8 addr => (vmReadMem8 A h addr).map some id
  | .read .w16 addr => (vmReadMem16 A h addr).map some id
  | .read .w32 addr => (vmReadMem32 A h addr).map some id
  | .read .w64 addr => (vmReadMem64 A h addr).map some id
  | .read .natural addr => (vmReadMemN A h addr).map some id

/-- What a sequence of calls reads, and the host after it. -/
def performAll : List Call → Host → List (Option Nat) × Host
  | [], h => ([], h)
  | call :: calls, h =>
    let (value, h) := call.perform A h
    let (values, h) := performAll calls h
    (value :: values, h)

end EfiCore.Ebc
