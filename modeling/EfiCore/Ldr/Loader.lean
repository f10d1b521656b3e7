import EfiCore.Mem.Report

/-! # The memory descriptors of the boot loader

`EfiLoader` of `efildr.c` turns the memory map of the BIOS into descriptors, takes out of them what
is in use, and finds room for the core, its stack and its fixup data.  It runs on IA-32: a `UINTN`
has 32 bits.

What the core image says about itself is an input; the bytes of the image, and loading them, are
not part of the model.
-/

namespace EfiCore.Ldr

open EfiCore.Mem (MemoryType MemoryDescriptor sizeToPages)

/-- `EFI_MAX_MEMORY_DESCRIPTORS` -/
def efiMaxMemoryDescriptors : Nat := 64

/-- `EFILDR_LOAD_ADDRESS` -/
def efildrLoadAddress : Nat := 0x20000

/-- `EFILDR_HEADER_ADDRESS` -/
def efildrHeaderAddress : Nat := efildrLoadAddress + 0x2000

/-- `EFI_DECOMPRESSED_BUFFER_ADDRESS` -/
def efiDecompressedBufferAddress : Nat := 0x600000

/-- `EFI_MAX_STACK_SIZE / EFI_PAGE_SIZE` -/
def stackPages : Nat := 0x20000 / 4096

def efiMemoryUc : BitVec 64 := 1

def efiMemoryWb : BitVec 64 := 8

/-! ## The memory map of the BIOS -/

/-- `BIOS_MEMORY_MAP_ENTRY`, with its upper halves zero. -/
structure BiosMemoryMapEntry where
  baseAddress : Nat
  length : Nat
  type : BitVec 32
  below : baseAddress + length ≤ 2 ^ 32
  baseAddress_lt : baseAddress < 2 ^ 32
  length_lt : length < 2 ^ 32

namespace BiosMemoryMapEntry

variable (e : BiosMemoryMapEntry)

/-- The `switch` over the type. -/
def efiType : MemoryType × BitVec 64 :=
  if e.type = 1 then (.conventionalMemory, efiMemoryWb)
  else if e.type = 2 then (.reservedMemoryType, efiMemoryUc)
  else if e.type = 3 then (.acpiReclaimMemory, efiMemoryWb)
  else if e.type = 4 then (.acpiMemoryNVS, efiMemoryUc)
  else (.reservedMemoryType, efiMemoryUc)

/-- `BaseAddress` and `Length`, rounded to whole pages inside of the entry. -/
def inward : Nat × Nat :=
  if e.baseAddress % 4096 ≠ 0 then
    ((e.baseAddress / 4096 + 1) * 4096 % 2 ^ 32,
      (e.length + e.baseAddress % 4096 + (2 ^ 32 - 4096)) % 2 ^ 32)
  else (e.baseAddress, e.length)

/-- `BaseAddress` and `Length`, rounded to the pages the entry touches. -/
def outward : Nat × Nat :=
  let length := (e.length + e.baseAddress % 4096) % 2 ^ 32
  (e.baseAddress / 4096 * 4096,
    if length % 4096 ≠ 0 then (length / 4096 + 1) * 4096 % 2 ^ 32 else length)

end BiosMemoryMapEntry

/-! ## The descriptors -/

/-- The arguments of `EfiAddMemoryDescriptor`. -/
structure Range where
  type : MemoryType
  baseAddress : Nat
  noPages : Nat
  attr : BitVec 64

def BiosMemoryMapEntry.range (e : BiosMemoryMapEntry) : Range :=
  let (baseAddress, length) :=
    if e.efiType.1 = .conventionalMemory then e.inward else e.outward
  ⟨e.efiType.1, baseAddress, length / 4096, e.efiType.2⟩

namespace Range

variable (r : Range)

/-- Where the range ends; `NoPages * EFI_PAGE_SIZE` is a `UINTN`. -/
def limit : Nat := (r.baseAddress + r.noPages * 4096 % 2 ^ 32) % 2 ^ 64

def descriptor : MemoryDescriptor := ⟨r.type, r.baseAddress, 0, r.noPages, r.attr⟩

/-- `Temp`: the pages of the descriptor up to the end of the range. -/
def temp (d : MemoryDescriptor) : Nat :=
  ((r.baseAddress + 2 ^ 64 - d.physicalStart) % 2 ^ 32 / 4096 + r.noPages) % 2 ^ 32

/-- The range begins inside of the descriptor and ends in it. -/
def splits (d : MemoryDescriptor) : Bool :=
  decide (d.physicalStart < r.baseAddress) && decide (r.temp d ≤ d.numberOfPages)

/-- What of the descriptor is left in front of the range, if it is split. -/
def head (d : MemoryDescriptor) : MemoryDescriptor :=
  if r.splits d then { d with numberOfPages := (r.temp d + 2 ^ 32 - r.noPages) % 2 ^ 32 } else d

/-- What is left behind the range. -/
def tail (d : MemoryDescriptor) : List MemoryDescriptor :=
  if r.splits d && decide (r.temp d < d.numberOfPages) then
    [⟨.conventionalMemory, r.limit, 0, d.numberOfPages - r.temp d, d.attr⟩]
  else []

/-- The range begins where the descriptor does. -/
def behind (d : MemoryDescriptor) : MemoryDescriptor :=
  if d.physicalStart = r.baseAddress ∧ r.noPages < d.numberOfPages then
    { d with
      numberOfPages := d.numberOfPages - r.noPages
      physicalStart := (d.physicalStart + r.noPages * 4096 % 2 ^ 32) % 2 ^ 64 }
  else d

/-- The loop of `EfiAddMemoryDescriptor`: whether a descriptor was all of the range, the
    descriptors, and those that are put behind them. -/
def carve : List MemoryDescriptor → Bool × List MemoryDescriptor × List MemoryDescriptor
  | [] => (false, [], [])
  | d :: ds =>
    if d.type = .conventionalMemory then
      let head := r.head d
      if head.physicalStart = r.baseAddress ∧ head.numberOfPages = r.noPages then
        (true, { head with type := r.type, attr := r.attr } :: ds, r.tail d)
      else
        let (found, ds, tails) := carve ds
        (found, r.behind head :: ds, r.tail d ++ tails)
    else
      let (found, ds, tails) := carve ds
      (found, d :: ds, tails)

/-- `EfiAddMemoryDescriptor` -/
def efiAddMemoryDescriptor (ds : List MemoryDescriptor) : List MemoryDescriptor :=
  if r.noPages = 0 then ds
  else
    let (found, ds, tails) := r.carve ds
    if found then ds ++ tails else ds ++ tails ++ [r.descriptor]

end Range

def addAll (rs : List Range) (ds : List MemoryDescriptor) : List MemoryDescriptor :=
  rs.foldl (fun ds r => r.efiAddMemoryDescriptor ds) ds

/-! ## What is in use -/

/-- What the loader reads of the EFILDR file. -/
structure EfildrFile where
  fileLength : Nat
  /-- `GetPeImageInfo` of the loader: `ImageBase` and `SizeOfImage`, if the image is one. -/
  loader : Option (BitVec 32 × BitVec 32)
  /-- `DestinationSize`, the size of the decompressed core. -/
  destinationSize : Nat
  fileLength_lt : fileLength < 2 ^ 32

/-- The real mode interrupt table. -/
def interruptTable : Range := ⟨.bootServicesData, 0, 1, efiMemoryWb⟩

/-- The GDT and the IDT. -/
def descriptorTables : Range :=
  ⟨.bootServicesData, efildrLoadAddress,
    (efildrHeaderAddress - efildrLoadAddress + 4096 - 1) / 4096, efiMemoryWb⟩

namespace EfildrFile

variable (f : EfildrFile)

def loaderRange : List Range :=
  f.loader.toList.map fun (imageBase, imageSize) =>
    ⟨.runtimeServicesCode, imageBase.toNat, (imageSize.toNat + 4096 - 1) % 2 ^ 32 / 4096,
      efiMemoryWb⟩

def fileRange : Range :=
  ⟨.reservedMemoryType, efildrHeaderAddress, (f.fileLength + 4096 - 1) % 2 ^ 32 / 4096, efiMemoryWb⟩

/-- What is in use when the core is decompressed. -/
def used : List Range := interruptTable :: descriptorTables :: f.loaderRange ++ [f.fileRange]

end EfildrFile

/-! ## Placement -/

/-- What the core image says about itself; it is accepted when it is not refused for another
    reason than the lack of room. -/
structure CoreImage where
  imageBase : BitVec 32
  sizeOfImage : BitVec 32
  sectionAlignment : BitVec 32
  codeViewSize : BitVec 32
  /-- The size of the relocation directory. -/
  relocSize : BitVec 32

/-- `NoPages` -/
def CoreImage.noPages (c : CoreImage) : Nat :=
  sizeToPages (c.sizeOfImage + c.sectionAlignment + c.codeViewSize).toNat

/-- `NoFixupPages` -/
def CoreImage.noFixupPages (c : CoreImage) : Nat :=
  (c.relocSize.toNat / 2 * 4 % 2 ^ 32 + 4096 - 1) % 2 ^ 32 / 4096

/-- The highest descriptor that passes `fits`: `MaxPhysicalStart` and `MaxNoPages`. -/
def highest (fits : MemoryDescriptor → Bool) (ds : List MemoryDescriptor) : Nat × Nat :=
  ds.foldl (fun best d =>
    if d.type = .conventionalMemory ∧ fits d ∧ best.1 < d.physicalStart then
      (d.physicalStart, d.numberOfPages)
    else best) (0, 0)

/-- Where the core is placed, in the loop of `Bios32LoadPeImage`. -/
def imageBasePage (noPages : Nat) (ds : List MemoryDescriptor) : Option Nat :=
  let (maxPhysicalStart, maxNoPages) :=
    highest (fun d => decide ((noPages + stackPages + 1) % 2 ^ 32 ≤ d.numberOfPages)) ds
  if maxPhysicalStart = 0 then none
  else
    some (maxPhysicalStart +
      (maxNoPages % 2 ^ 32 + 2 ^ 32 - (noPages + 1)) % 2 ^ 32 * 4096 % 2 ^ 32)

/-- The branches of `FindSpace`: what a descriptor offers below 4 GB. -/
def belowFourGb (noPages : Nat) (d : MemoryDescriptor) : Option (Nat × Nat) :=
  if d.physicalStart + d.numberOfPages * 4096 ≤ 0x100000000 then
    some (d.physicalStart, d.numberOfPages)
  else if d.physicalStart + noPages * 4096 % 2 ^ 32 ≤ 0x100000000 then
    some (0x100000000 - noPages * 4096 % 2 ^ 32, noPages)
  else none

/-- `FindSpace` -/
def findSpace (noPages : Nat) (ds : List MemoryDescriptor) : Nat :=
  let (maxPhysicalStart, maxNoPages) := ds.foldl (fun best d =>
    if d.type = .conventionalMemory ∧ noPages ≤ d.numberOfPages ∧ best.1 < d.physicalStart then
      (belowFourGb noPages d).getD best
    else best) (0, 0)
  if maxPhysicalStart = 0 then 0
  else (maxPhysicalStart + (maxNoPages - noPages) * 4096) % 2 ^ 32

/-- What the loader hands to the core, and the ranges it has chosen. -/
structure Handoff where
  descriptors : List MemoryDescriptor
  image : Range
  stack : Range
  fixups : Option Range

def imageRange (base : Nat) (c : CoreImage) : Range :=
  ⟨.runtimeServicesCode, base, c.noPages, efiMemoryWb⟩

def stackRange (base : Nat) : Range :=
  ⟨.bootServicesData, (base + 2 ^ 64 - 0x20000) % 2 ^ 64, stackPages, efiMemoryWb⟩

def fixupRange (base : Nat) (c : CoreImage) : Range :=
  ⟨.bootServicesData, base, c.noFixupPages, efiMemoryWb⟩

/-- The descriptors when the core is to be loaded. -/
def descriptorsInUse (map : List BiosMemoryMapEntry) (f : EfildrFile) : List MemoryDescriptor :=
  addAll (map.map BiosMemoryMapEntry.range ++ f.used) []

/-- `EfiLoader`, with a core image that `Bios32LoadPeImage` accepts. -/
def efiLoader (map : List BiosMemoryMapEntry) (f : EfildrFile) (c : CoreImage) :
    Option Handoff := do
  let ds := descriptorsInUse map f
  let base ← imageBasePage c.noPages ds
  let ds := addAll [imageRange base c, stackRange base] ds
  if base % 2 ^ 32 = c.imageBase.toNat then
    return ⟨ds, imageRange base c, stackRange base, none⟩
  else
    let fixupData := findSpace c.noFixupPages ds
    if fixupData = 0 then none
    else
      return ⟨addAll [fixupRange fixupData c] ds, imageRange base c, stackRange base,
        some (fixupRange fixupData c)⟩

end EfiCore.Ldr
