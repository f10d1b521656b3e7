import EfiCore.Lib.Run
import EfiCore.Mem.Page

/-! # Memory services

The entry points of `page.c` and `pool.c`, each with the fuel of its recursion, and the
machine whose steps are calls that return.  A call that faults or needs more fuel is no
step: what a descriptor written through `NULL` or past `MapStack` does is not defined.
-/

namespace EfiCore.Mem

open EfiCore.Lib

namespace MemState

variable {A : Arch} (fuel : Nat)

def fwAddMemoryDescriptor (type : MemoryType) (start noPages : BitVec 64) (attr : BitVec 64)
    (s : MemState A) : Except Fault (MemState A) := do
  let last := (start.toNat + noPages.toNat * 4096 % 2 ^ 64 + (2 ^ 64 - 1)) % 2 ^ 64
  let s ← s.addRange (convertPages fuel) type start.toNat last attr
  s.freeMemoryMapStack (convertPages fuel) fuel

/-- `NoPages` rounded up to the alignment, in `UINTN`. -/
def roundPages (A : Arch) (memoryType : MemoryType) (noPages : Uintn A) : Nat :=
  let unit := sizeToPages (pageAllocationAlignment A memoryType)
  let n := (noPages.toNat + (unit - 1)) % 2 ^ A.bits
  n - n % unit

/-- `AllocatePages`; the address is `*Memory` afterwards. -/
def allocatePages (type : AllocateType) (memoryType : MemoryType) (noPages : Uintn A)
    (memory : BitVec 64) (s : MemState A) : Except Fault ((Status × Nat) × MemState A) := do
  let alignment := pageAllocationAlignment A memoryType
  if type = .maxAllocateType then return ((.invalidParameter, memory.toNat), s)
  else if s.efiAtRuntime then return ((.unsupported, memory.toNat), s)
  else if type = .allocateAddress ∧ memory.toNat % alignment ≠ 0 then
    return ((.invalidParameter, memory.toNat), s)
  else
    let noPages := roundPages A memoryType noPages
    let limit := if type = .allocateMaxAddress then memory.toNat else maxAddress A
    let start :=
      if type = .allocateAddress then memory.toNat
      else s.findFreePages limit noPages memoryType alignment
    if type ≠ .allocateAddress ∧ start = 0 then return ((.outOfResources, memory.toNat), s)
    else
      let (status, s) ← convertPages fuel false start noPages memoryType s
      return ((status, if status.isError then memory.toNat else start), s)

def freePages (memory : BitVec 64) (noPages : Uintn A) (s : MemState A) :
    Except Fault (Status × MemState A) :=
  if s.efiAtRuntime then .ok (.unsupported, s)
  else match s.findEntry memory.toNat with
    | none => .ok (.notFound, s)
    | some e =>
      let noPages := roundPages A e.type noPages
      if memory.toNat % pageAllocationAlignment A e.type ≠ 0 then .ok (.invalidParameter, s)
      else if noPages = 0 ∨ (e.last - e.start + 1) % 2 ^ 64 / 4096 < noPages then
        .ok (.invalidParameter, s)
      else convertPages fuel false memory.toNat noPages .conventionalMemory s

/-- `BSAllocatePool`; the address is `*Buffer` afterwards, where the call sets it. -/
def allocatePool (poolType : MemoryType) (size : Uintn A) (s : MemState A) :
    Except Fault ((Status × Option Nat) × MemState A) := do
  if s.efiAtRuntime then return ((.unsupported, none), s)
  else if 0xffffff00 < size.toNat then return ((.unsupported, some 0), s)
  else
    let (buffer, s) ← s.allocatePoolI (convertPages fuel) poolType size.toNat
    return ((if buffer = 0 then .outOfResources else .success, some buffer), s)

/-- `BSFreePool` -/
def freePool (buffer : Nat) (s : MemState A) : Except Fault (Status × MemState A) :=
  if s.efiAtRuntime then .ok (.unsupported, s) else s.freePoolI (convertPages fuel) buffer

def setCodeSection (base : BitVec 64) (noPages : Uintn A) (memoryType : MemoryType)
    (s : MemState A) : Except Fault (Status × MemState A) :=
  convertPages fuel true base.toNat noPages.toNat memoryType s

end MemState

/-- A call of a service with its arguments.  `InitializeMemoryMapWatermarks` is calls of
    `AllocatePages` and `FreePages` and then assignments to the watermarks. -/
inductive Action (A : Arch) where
  | fwAddMemoryDescriptor (type : MemoryType) (start noPages attr : BitVec 64)
  | allocatePages (type : AllocateType) (memoryType : MemoryType) (noPages : Uintn A)
      (memory : BitVec 64)
  | freePages (memory : BitVec 64) (noPages : Uintn A)
  | allocatePool (poolType : MemoryType) (size : Uintn A)
  | freePool (buffer : Nat)
  | setCodeSection (base : BitVec 64) (noPages : Uintn A) (memoryType : MemoryType)
  | setWatermarks (watermark : Watermarks)

/-- The state in which a call returns. -/
def Action.exec {A : Arch} (fuel : Nat) (s : MemState A) : Action A → Except Fault (MemState A)
  | fwAddMemoryDescriptor type start noPages attr =>
    s.fwAddMemoryDescriptor fuel type start noPages attr
  | allocatePages type memoryType noPages memory =>
    (·.2) <$> s.allocatePages fuel type memoryType noPages memory
  | freePages memory noPages => (·.2) <$> s.freePages fuel memory noPages
  | allocatePool poolType size => (·.2) <$> s.allocatePool fuel poolType size
  | freePool buffer => (·.2) <$> s.freePool fuel buffer
  | setCodeSection base noPages memoryType =>
    (·.2) <$> s.setCodeSection fuel base noPages memoryType
  | setWatermarks watermark => .ok { s with watermark := watermark }

/-- The memory services from `InitializeMemoryMap` on. -/
def machine (A : Arch) : Machine (MemState A) (Action A) where
  init s := s = initializeMemoryMap A
  step s a s' := ∃ fuel, a.exec fuel s = .ok s'

/-! ## A short run -/

/-- 64 pages are supplied. -/
def supply : Action .efi64 := .fwAddMemoryDescriptor .conventionalMemory 0x100000 64 0

/-- Four of them are allocated. -/
def take : Action .efi64 := .allocatePages .allocateAddress .loaderData 4 0x108000

/-- Both calls return, in a state that passes the test. -/
def supplyTake (test : MemState .efi64 → Bool) : Bool :=
  match supply.exec 8 (initializeMemoryMap .efi64) with
  | .ok s =>
    match take.exec 8 s with
    | .ok s' => test s'
    | .error _ => false
  | .error _ => false

theorem supplyTake_states {test : MemState .efi64 → Bool} (h : supplyTake test = true) :
    ∃ s s', supply.exec 8 (initializeMemoryMap .efi64) = .ok s ∧ take.exec 8 s = .ok s' ∧
      test s' = true := by
  rw [supplyTake] at h
  split at h
  · rename_i s hsupply
    split at h
    · rename_i s' htake
      exact ⟨s, s', hsupply, htake, h⟩
    · cases h
  · cases h

end EfiCore.Mem
