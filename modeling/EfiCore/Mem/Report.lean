import EfiCore.Mem.Services

/-! # Reporting the memory map

`GetMemoryMap` hands out the map with a key, and `TerminateMemoryMap`, the end of boot services,
takes the key back.
-/

namespace EfiCore.Mem

/-- `EFI_MEMORY_DESCRIPTOR` -/
structure MemoryDescriptor where
  type : MemoryType
  physicalStart : Nat
  virtualStart : Nat
  numberOfPages : Nat
  attr : BitVec 64
  deriving DecidableEq, Repr

/-- `EFI_MEMORY_RUNTIME` -/
def memoryRuntime : BitVec 64 := 0x8000000000000000

/-- The size that `GetMemoryMap` says a descriptor has: `sizeof (EFI_MEMORY_DESCRIPTOR)` with
    eight bytes more, so that callers have to use `*DescriptorSize`. -/
def descriptorSize : Nat := 40 + (8 - 40 % 8)

/-- `EFI_MEMORY_DESCRIPTOR_VERSION` -/
def memoryDescriptorVersion : Nat := 1

/-- What `GetMemoryMap` reports of a descriptor on the list.  `VirtualStart` is 0 until the
    switch to virtual addresses, and an assertion says so. -/
def MapEntry.describe (e : MapEntry) : MemoryDescriptor where
  type := e.type
  physicalStart := e.start
  virtualStart := 0
  numberOfPages := (e.last + 1 + (2 ^ 64 - e.start)) % 2 ^ 64 / 4096
  attr := match e.type with
    | .runtimeServicesCode | .runtimeServicesData | .palCode => e.attr ||| memoryRuntime
    | _ => e.attr

/-- The outputs of `GetMemoryMap`: `*MemoryMapSize`, `*DescriptorSize` and `*DescriptorVersion`,
    and on success `Desc` and `*MapKey`. -/
structure MapReply (A : Arch) where
  status : Status
  memoryMapSize : Option (Uintn A)
  descriptorSize : Nat
  descriptorVersion : Nat
  descriptors : List MemoryDescriptor
  mapKey : Uintn A

namespace MemState

variable {A : Arch}

/-- `GetMemoryMap`; `none` and `false` stand for `NULL` pointers. -/
def getMemoryMap (s : MemState A) (memoryMapSize : Option (Uintn A)) (desc : Bool) : MapReply A :=
  match memoryMapSize with
  | none => ⟨.invalidParameter, none, 0, 0, [], 0⟩
  | some size =>
    let bufferSize : Uintn A := BitVec.ofNat _ (descriptorSize * s.memoryMap.length)
    let fails status : MapReply A :=
      ⟨status, some bufferSize, descriptorSize, memoryDescriptorVersion, [], 0⟩
    if size < bufferSize then fails .bufferTooSmall
    else if !desc then fails .invalidParameter
    else ⟨.success, some bufferSize, descriptorSize, memoryDescriptorVersion,
      s.memoryMap.map MapEntry.describe, s.memoryMapKey⟩

/-- The construction rules of `TerminateMemoryMap`: a descriptor with the runtime attribute is
    not ACPI memory, and lies on the alignment of runtime pages. -/
def constructionRules (A : Arch) (e : MapEntry) : Bool :=
  if e.attr &&& memoryRuntime = 0 then true
  else if e.type = .acpiReclaimMemory ∨ e.type = .acpiMemoryNVS then false
  else if e.start % acpiRuntimePageAllocationAlignment A ≠ 0 then false
  else (e.last + 1) % 2 ^ 64 % acpiRuntimePageAllocationAlignment A = 0

def terminateMemoryMap (mapKey : Uintn A) (s : MemState A) : Status × MemState A :=
  if mapKey = s.memoryMapKey then
    if s.memoryMap.all (constructionRules A) then (.success, { s with efiAtRuntime := true })
    else (.invalidParameter, s)
  else (.invalidParameter, s)

end MemState

end EfiCore.Mem
