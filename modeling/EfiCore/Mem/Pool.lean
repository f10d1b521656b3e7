import EfiCore.Mem.Search

/-! # The pool

`pool.c`.  A request is rounded up to a block of `(index + 1) * 128` bytes taken from
`FreeList[index]`, or to whole pages when it is too large for the lists.  An empty list is
refilled by carving a fresh unit of `DEFAULT_PAGE_ALLOCATION` bytes; the boundaries of its
blocks are not stored, `FreePoolI` finds them again from the index of the first block.

Pages come from and go back to `ConvertPages`, which itself allocates and frees pool.  The
functions take it as the parameter `convert`; `convertPages` closes the recursion.
-/

namespace EfiCore.Mem

/-- The type of `ConvertPages (LoadConvert, Start, NoPages, NewType)`. -/
abbrev Convert (A : Arch) :=
  Bool → Nat → Nat → MemoryType → MemState A → Except Fault (Status × MemState A)

/-- `SIZE_OF_POOL_HEAD` -/
def sizeOfPoolHead : Nat := 16

/-- `POOL_OVERHEAD` -/
def poolOverhead : Nat := sizeOfPoolHead + 8

/-- `SIZE_TO_LIST (a)` -/
def sizeToList (size : Nat) : Nat := size / 128

/-- `LIST_TO_SIZE (a)` -/
def listToSize (index : Nat) : Nat := (index + 1) * 128

/-- `sizeof (POOL)` -/
def sizeOfPool : Arch → Nat
  | .efi32 => 276
  | .efi64 => 1064

/-- `sizeof (MEMORY_MAP)` -/
def sizeOfMemoryMap : Arch → Nat
  | .efi32 => 56
  | .efi64 => 64

/-- The size `AllocatePoolI` works with: aligned by `ALIGN_VARIABLE`, with the overhead. -/
def poolSize (A : Arch) (size : Nat) : Nat :=
  ((size + A.pointerSize - 1) / A.pointerSize * A.pointerSize + poolOverhead) % 2 ^ A.bits

/-- Pages for a request of `size` bytes that is too large for the lists. -/
def poolPages (A : Arch) (size : Nat) : Nat :=
  let n := sizeToPages size + sizeToPages (defaultPageAllocation A) - 1
  n - n % sizeToPages (defaultPageAllocation A)

/-- The blocks of a unit as the carving loop lays them out from `offset` on, as pairs of
    offset and list index: as many of the size of `index` as fit, then the next smaller. -/
def carve (A : Arch) (index offset : Nat) : List (Nat × Nat) :=
  let count := (defaultPageAllocation A - offset) / listToSize index
  (List.range count).map (fun k => (offset + k * listToSize index, index)) ++
    match index with
    | 0 => []
    | index' + 1 => carve A index' (offset + count * listToSize index)

namespace Pool

variable {A : Arch}

/-- `InsertHeadList (&Pool->FreeList[index], ..)` -/
def insertHead (p : Pool A) (index : Nat) (block : Nat) : Pool A :=
  { p with freeList := fun i => if i = index then block :: p.freeList i else p.freeList i }

/-- `RemoveEntryList` for free blocks. -/
def removeBlocks (p : Pool A) (blocks : List Nat) : Pool A :=
  { p with freeList := fun i => (p.freeList i).filter (· ∉ blocks) }

end Pool

namespace MemState

variable {A : Arch} (convert : Convert A)

def allocatePoolPages (poolType : MemoryType) (noPages alignment : Nat) (s : MemState A) :
    Except Fault (Nat × MemState A) := do
  let start := s.findFreePages (maxAddress A) noPages poolType alignment
  if start = 0 then return (0, s)
  else
    let (status, s) ← convert false start noPages poolType s
    return (if status.isError then 0 else start % 2 ^ A.bits, s)

def freePoolPages (memory noPages : Nat) (s : MemState A) : Except Fault (MemState A) := do
  let (_, s) ← convert false memory noPages .conventionalMemory s
  return s

/-- `PoolUnit` bookkeeping: the pool holds `u`, and no longer holds the unit at `base`. -/
def ownUnit (s : MemState A) (u : PoolUnit) : MemState A :=
  { s with poolUnits := u :: s.poolUnits }

def disownUnit (s : MemState A) (base : Nat) : MemState A :=
  { s with poolUnits := s.poolUnits.filter (·.base ≠ base) }

/-- Make `head` a free block of list `index`. -/
def putBlock (s : MemState A) (poolType : MemoryType) (index : Nat) (head : Nat) : MemState A :=
  (s.setCell head (.free index)).setPool poolType ((s.pool poolType).insertHead index head)

/-- Take the first block off list `index`; `rest` is what follows it. -/
def takeBlock (s : MemState A) (poolType : MemoryType) (index : Nat) (rest : List Nat) :
    MemState A :=
  let p := s.pool poolType
  s.setPool poolType { p with freeList := fun i => if i = index then rest else p.freeList i }

/-- Take all blocks of a unit off the free lists. -/
def removeBlocks (s : MemState A) (blocks : List Nat) : MemState A :=
  { s with pool := fun t => (s.pool t).removeBlocks blocks }

/-- The carving loop: every block of the new page becomes a free block. -/
def carvePage (s : MemState A) (poolType : MemoryType) (newPage index : Nat) : MemState A :=
  (carve A index 0).foldl (fun s b => s.putBlock poolType b.2 (newPage + b.1)) s

/-- The end of `AllocatePoolI`: fill in the header and tail and account for the block. -/
def fillHead (s : MemState A) (poolType : MemoryType) (size : Nat) (head : Nat) : MemState A :=
  let p := s.pool poolType
  (s.setCell head (.head poolType (size % 2 ^ 32))).setPool poolType
    { p with used := p.used + BitVec.ofNat _ size }

/-- `Pool->Used -= Size` -/
def unuse (s : MemState A) (poolType : MemoryType) (size : Nat) : MemState A :=
  let p := s.pool poolType
  s.setPool poolType { p with used := p.used - BitVec.ofNat _ size }

/-- `AllocatePoolI` once it has the pool head; `size` includes the overhead. -/
def allocatePoolBlock (poolType : MemoryType) (size : Nat) (s : MemState A) :
    Except Fault (Nat × MemState A) := do
  if maxPoolList A ≤ sizeToList size then
    let (head, s) ←
      s.allocatePoolPages convert poolType (poolPages A size) (defaultPageAllocation A)
    if head = 0 then return (0, s)
    else
      let s := s.ownUnit ⟨head, poolPages A size, poolType, none⟩
      return (head + sizeOfPoolHead, s.fillHead poolType size head)
  else
    match (s.pool poolType).freeList (sizeToList size) with
    | block :: rest =>
      let s := s.takeBlock poolType (sizeToList size) rest
      return (block + sizeOfPoolHead, s.fillHead poolType size block)
    | [] =>
      let (newPage, s) ← s.allocatePoolPages convert poolType
        (sizeToPages (defaultPageAllocation A)) (defaultPageAllocation A)
      if newPage = 0 then return (0, s)
      else
        let s := s.ownUnit
          ⟨newPage, sizeToPages (defaultPageAllocation A), poolType, some (sizeToList size)⟩
        let s := s.carvePage poolType newPage (sizeToList size)
        match (s.pool poolType).freeList (sizeToList size) with
        | [] => return (0, s)   -- not reached: the carved page has a block of this size
        | block :: rest =>
          let s := s.takeBlock poolType (sizeToList size) rest
          return (block + sizeOfPoolHead, s.fillHead poolType size block)

/-- Set up the `POOL` record of `memoryType` and put it on `PoolHeadList`. -/
def addPoolHead (s : MemState A) (memoryType : MemoryType) (record : Nat) : MemState A :=
  let s := s.setPool memoryType Pool.cleared
  { s with poolHeadList := (memoryType, record) :: s.poolHeadList }

/-- `LookupPoolHead`; `false` is its `NULL`.  The record of an operating system type is
    allocated when it is first asked for, from boot services data, whose head is static. -/
def lookupPoolHead (memoryType : MemoryType) (s : MemState A) :
    Except Fault (Bool × MemState A) := do
  match memoryType with
  | .unassigned _ => return (false, s)
  | .osSpecific code =>
    if s.poolHeadList.any (·.1 = .osSpecific code) then return (true, s)
    else
      let (record, s) ←
        s.allocatePoolBlock convert .bootServicesData (poolSize A (sizeOfPool A))
      if record = 0 then return (false, s)
      else
        return (true, s.addPoolHead (.osSpecific code) record)
  | _ => return (true, s)

def allocatePoolI (poolType : MemoryType) (size : Nat) (s : MemState A) :
    Except Fault (Nat × MemState A) := do
  let (found, s) ← s.lookupPoolHead convert poolType
  if found then s.allocatePoolBlock convert poolType (poolSize A size)
  else return (0, s)

/-- The blocks of the unit at `newPage` when all of them are free. -/
def allFree (s : MemState A) (newPage : Nat) : Option (List Nat) :=
  match s.cell newPage with
  | .free index =>
    let blocks := (carve A index 0).map (newPage + ·.1)
    if blocks.all (fun b => match s.cell b with | .free _ => true | _ => false) then some blocks
    else none
  | _ => none

/-- `FreePoolI` from the signature checks to the return of the block, given `Head`, its
    type and its size. -/
def freePoolBlock (head : Nat) (type : MemoryType) (size : Nat) (s : MemState A) :
    Except Fault (MemState A) := do
  let s := s.unuse type size
  if maxPoolList A ≤ sizeToList size then
    (s.disownUnit head).freePoolPages convert head (poolPages A size)
  else
    let s := s.putBlock type (sizeToList size) head
    let newPage := head - head % defaultPageAllocation A
    match s.allFree newPage with
    | none => return s
    | some blocks =>
      ((s.removeBlocks blocks).disownUnit newPage).freePoolPages convert newPage
        (sizeToPages (defaultPageAllocation A))

/-- Take the `POOL` record of `memoryType` off `PoolHeadList`. -/
def removePoolHead (s : MemState A) (memoryType : MemoryType) : MemState A :=
  { s with poolHeadList := s.poolHeadList.filter (·.1 ≠ memoryType) }

/-- The end of `FreePoolI`: the `POOL` record of an operating system type goes with its last
    buffer.  The record is boot services data, so freeing it ends there. -/
def freePoolRecord (type : MemoryType) (s : MemState A) : Except Fault (MemState A) :=
  match s.poolHeadList.find? (·.1 = type) with
  | none => .ok s
  | some (_, record) =>
    if (s.pool type).used = 0 then
      let s := s.removePoolHead type
      match s.cell (record - sizeOfPoolHead) with
      | .head type' size' => s.freePoolBlock convert (record - sizeOfPoolHead) type' size'
      | _ => .ok s
    else .ok s

def freePoolI (buffer : Nat) (s : MemState A) : Except Fault (Status × MemState A) := do
  if buffer = 0 then return (.invalidParameter, s)
  else
    let head := (buffer + 2 ^ A.bits - sizeOfPoolHead) % 2 ^ A.bits
    match s.cell head with
    | .head type size =>
      let (found, s) ← s.lookupPoolHead convert type
      if found then
        let s ← s.freePoolBlock convert head type size
        let s ← s.freePoolRecord convert type
        return (.success, s)
      else return (.invalidParameter, s)
    | _ => return (.invalidParameter, s)

end MemState

end EfiCore.Mem
