import EfiCore.Lib.Spans
import EfiCore.Types

/-! # State of the memory manager

The memory map is a linked list of `MEMORY_MAP` descriptors.  A descriptor lives either
in a slot of `MapStack` or in a pool block, and the pool gets its pages from the same map,
so allocating or freeing one descriptor can edit the list that is being edited.

Addresses and page counts are natural numbers; where the C computes in `UINT64` or `UINTN`
the wrap is written out as `% 2 ^ 64` or `% 2 ^ A.bits`.
-/

namespace EfiCore.Mem

open EfiCore.Lib

/-- `EFI_MEMORY_TYPE` -/
inductive MemoryType where
  | reservedMemoryType
  | loaderCode
  | loaderData
  | bootServicesCode
  | bootServicesData
  | runtimeServicesCode
  | runtimeServicesData
  | conventionalMemory
  | unusableMemory
  | acpiReclaimMemory
  | acpiMemoryNVS
  | memoryMappedIO
  | memoryMappedIOPortSpace
  | palCode
  /-- `EfiMaxMemoryType` and above, up to `0x7fffffff`. -/
  | unassigned (code : Nat)
  /-- Negative as an `INT32`: types that belong to the operating system. -/
  | osSpecific (code : Nat)
  deriving DecidableEq, Repr

/-- `EFI_ALLOCATE_TYPE`; `maxAllocateType` stands for every value out of range. -/
inductive AllocateType where
  | allocateAnyPages
  | allocateMaxAddress
  | allocateAddress
  | maxAllocateType
  deriving DecidableEq, Repr

/-- `EFI_PAGE_SIZE` -/
def pageSize : Nat := 4096

/-- `EFI_SIZE_TO_PAGES (a)` -/
def sizeToPages (a : Nat) : Nat := a / 4096 + if a % 4096 = 0 then 0 else 1

/-- `MAX_ADDRESS` -/
def maxAddress : Arch → Nat
  | .efi32 => 0xFFFFFFFF
  | .efi64 => 0xFFFFFFFFFFFFFFFF

/-- `EFI_ACPI_RUNTIME_PAGE_ALLOCATION_ALIGNMENT` -/
def acpiRuntimePageAllocationAlignment : Arch → Nat
  | .efi32 => pageSize
  | .efi64 => pageSize * 2

/-- The alignment `AllocatePages` and `FreePages` pick for a memory type. -/
def pageAllocationAlignment (A : Arch) : MemoryType → Nat
  | .acpiReclaimMemory | .acpiMemoryNVS | .runtimeServicesCode | .runtimeServicesData =>
    acpiRuntimePageAllocationAlignment A
  | _ => pageSize

/-- `DEFAULT_PAGE_ALLOCATION` -/
def defaultPageAllocation : Arch → Nat
  | .efi32 => pageSize
  | .efi64 => pageSize * 2

/-- `MAX_POOL_LIST` -/
def maxPoolList (A : Arch) : Nat := defaultPageAllocation A / 128

/-- `MAX_MAP_DEPTH` -/
def maxMapDepth : Nat := 6

/-- Where a descriptor is stored: `MapStack[slot]`, or a pool buffer (`FromPool`). -/
inductive Home where
  | mapStack (slot : Nat)
  | pool (buffer : Nat)
  deriving DecidableEq, Repr

/-- `MEMORY_MAP`: a descriptor on the list.  `last` is `End`, the last address of the range. -/
structure MapEntry where
  home : Home
  type : MemoryType
  start : Nat
  last : Nat
  attr : BitVec 64
  deriving DecidableEq, Repr

def Home.isPool : Home → Bool
  | .mapStack _ => false
  | .pool _ => true

/-- `Entry->FromPool` -/
def MapEntry.fromPool (e : MapEntry) : Bool := e.home.isPool

/-- What the pool last wrote at an address: the signature and fields of a `POOL_FREE`
    or of a `POOL_HEAD` (whose `POOL_TAIL` repeats them). -/
inductive PoolCell where
  | other
  | free (index : Nat)
  | head (type : MemoryType) (size : Nat)
  deriving DecidableEq, Repr

/-- `POOL`, less its type and link. -/
structure Pool (A : Arch) where
  used : Uintn A
  freeList : Nat → List Nat

/-- Pages the pool holds: carved into blocks from list `index` down, or one buffer. -/
structure PoolUnit where
  base : Nat
  pages : Nat
  type : MemoryType
  index : Option Nat
  deriving DecidableEq, Repr

/-- `EfiWatermarkRuntimeServicesCode` and its siblings. -/
structure Watermarks where
  runtimeServicesCode : Nat
  runtimeServicesData : Nat
  bootServicesCode : Nat
  bootServicesData : Nat
  default : Nat
  deriving DecidableEq, Repr

/-- The globals of `page.c` and `pool.c`. -/
structure MemState (A : Arch) where
  efiAtRuntime : Bool
  /-- `MemoryMap`, in list order. -/
  memoryMap : List MapEntry
  memoryMapKey : Uintn A
  mapDepth : Nat
  /-- `FreeMapStack`, which is only ever 0 or 1. -/
  freeMapStack : Bool
  watermark : Watermarks
  /-- `PoolHead[type]`, and for the types on `PoolHeadList` their `POOL` record. -/
  pool : MemoryType → Pool A
  /-- `PoolHeadList`: the type and the buffer of each `POOL` record. -/
  poolHeadList : List (MemoryType × Nat)
  cell : Nat → PoolCell
  /-- Bookkeeping that the C does not keep and nothing here reads: the pool's pages. -/
  poolUnits : List PoolUnit
  /-- More bookkeeping: how often `MemoryMapKey` was bumped. -/
  mapChanges : Nat

/-- Ways for the C to leave its defined behaviour, and running out of recursion fuel. -/
inductive Fault where
  /-- `FreeMemoryMapStack` stores a descriptor through the `NULL` of a failed allocation. -/
  | nullDescriptor
  /-- `MapStack` is written past its `MAX_MAP_DEPTH` slots. -/
  | mapStackOverrun
  /-- `FreeMemoryMapStack` stores a descriptor over one that is still on the list. -/
  | descriptorReused
  | outOfFuel
  deriving DecidableEq, Repr

namespace MemState

variable {A : Arch}

/-- `RemoveEntryList (&Entry->Link); Entry->Link.Flink = NULL;` -/
def unlink (s : MemState A) (home : Home) : MemState A :=
  { s with memoryMap := s.memoryMap.filter (·.home ≠ home) }

/-- Stores to the fields of the descriptor `e`, in place. -/
def setEntry (s : MemState A) (e : MapEntry) : MemState A :=
  { s with memoryMap := replace MapEntry.home s.memoryMap e }

/-- `MemoryMapKey += 1` -/
def bumpKey (s : MemState A) : MemState A :=
  { s with memoryMapKey := s.memoryMapKey + 1, mapChanges := s.mapChanges + 1 }

/-- Fill `MapStack[MapDepth]`, `InsertTailList` it and push it. -/
def pushEntry (s : MemState A) (type : MemoryType) (start last : Nat) (attr : BitVec 64) :
    Except Fault (MapEntry × MemState A) :=
  if s.mapDepth < maxMapDepth then
    let e : MapEntry := ⟨.mapStack s.mapDepth, type, start, last, attr⟩
    .ok (e, { s with memoryMap := s.memoryMap ++ [e], mapDepth := s.mapDepth + 1 })
  else .error .mapStackOverrun

/-- `InsertTailList (Link2, &Entry->Link)`, where `Link2` is the first pool descriptor
    that starts above `e`, or the list head. -/
def insertEntry (s : MemState A) (e : MapEntry) : MemState A :=
  { s with memoryMap := insertInOrder MapEntry.fromPool MapEntry.start s.memoryMap e }

def setPool (s : MemState A) (type : MemoryType) (p : Pool A) : MemState A :=
  { s with pool := fun t => if t = type then p else s.pool t }

def setCell (s : MemState A) (address : Nat) (c : PoolCell) : MemState A :=
  { s with cell := fun a => if a = address then c else s.cell a }

end MemState

/-- `InitializePool` for one head. -/
def Pool.cleared {A : Arch} : Pool A := ⟨0, fun _ => []⟩

/-- `InitializeMemoryMap`; the watermarks keep their static initializer. -/
def initializeMemoryMap (A : Arch) : MemState A where
  efiAtRuntime := false
  memoryMap := []
  memoryMapKey := 0
  mapDepth := 0
  freeMapStack := false
  watermark := ⟨maxAddress A, maxAddress A, maxAddress A, maxAddress A, maxAddress A⟩
  pool := fun _ => Pool.cleared
  poolHeadList := []
  cell := fun _ => .other
  poolUnits := []
  mapChanges := 0

end EfiCore.Mem
