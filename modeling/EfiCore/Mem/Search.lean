import EfiCore.Mem.State

/-! # The search for free pages

`FindFreePagesI` and `FindFreePages` of `page.c`, in the wrapping arithmetic of `UINT64`.
A result of 0 doubles as "not found".
-/

namespace EfiCore.Mem

namespace MemState

variable {A : Arch}

/-- `MaxAddress` moved down to the last byte of a page. -/
def clipMaxAddress (maxAddress : Nat) : Nat :=
  if maxAddress % 4096 = 4095 then maxAddress
  else (maxAddress - 4096) / 4096 * 4096 + 4095

/-- `((DescEnd + 1) & (~(Alignment - 1))) - 1`.  The mask is a `UINTN`, so on a 32-bit
    processor it also clears the upper half. -/
def alignDescEnd (A : Arch) (alignment descEnd : Nat) : Nat :=
  let x := (descEnd + 1) % 2 ^ 64 % 2 ^ A.bits
  (x - x % alignment + (2 ^ 64 - 1)) % 2 ^ 64

/-- The end of the part of `e` that the search may use. -/
def descEnd (A : Arch) (maxAddress alignment : Nat) (e : MapEntry) : Nat :=
  alignDescEnd A alignment (if maxAddress ≤ e.last then maxAddress else e.last)

/-- One turn of the search loop: the best end so far. -/
def searchStep (A : Arch) (maxAddress noBytes alignment target : Nat) (e : MapEntry) : Nat :=
  if e.type = .conventionalMemory ∧ e.start < maxAddress then
    let descEnd := descEnd A maxAddress alignment e
    let descNoBytes := (descEnd + 2 ^ 64 - e.start + 1) % 2 ^ 64
    if noBytes ≤ descNoBytes ∧ target < descEnd then descEnd else target
  else target

def findFreePagesI (s : MemState A) (maxAddress noPages alignment : Nat) : Nat :=
  if maxAddress < 4095 then 0
  else if noPages = 0 then 0
  else
    let noBytes := noPages * 4096 % 2 ^ 64
    let target :=
      s.memoryMap.foldl (searchStep A (clipMaxAddress maxAddress) noBytes alignment) 0
    -- the base of the range that ends at `target`; a base off a page boundary is a miss
    let target := (target + 2 ^ 64 + 1 - noBytes) % 2 ^ 64
    if target % 4096 = 0 then target else 0

/-- The watermark that `FindFreePages` tries first for a type. -/
def Watermarks.limit (w : Watermarks) (maxAddress : Nat) : MemoryType → Nat
  | .runtimeServicesCode => min maxAddress w.runtimeServicesCode
  | .runtimeServicesData => min maxAddress w.runtimeServicesData
  | .bootServicesCode => min maxAddress w.bootServicesCode
  | .bootServicesData => min maxAddress w.bootServicesData
  | .loaderCode | .loaderData | .acpiReclaimMemory | .acpiMemoryNVS | .reservedMemoryType =>
    min maxAddress w.default
  | _ => maxAddress

def findFreePages (s : MemState A) (maxAddress noPages : Nat) (newType : MemoryType)
    (alignment : Nat) : Nat :=
  let start := s.findFreePagesI (Watermarks.limit s.watermark maxAddress newType) noPages alignment
  if start = 0 then s.findFreePagesI maxAddress noPages alignment else start

end MemState

end EfiCore.Mem
