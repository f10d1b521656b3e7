import EfiCore.Disk.DriverLib
import EfiCore.Disk.Mbr

/-! # Boot catalogs

`ElTorito.c`.  The volume descriptors of a CD-ROM and the boot catalogs that they name are read
into one buffer, the descriptors at its start and a catalog where `Catalog` points to.

What is in the buffer after a read that goes beyond its end is not known, so the model stops there.
-/

namespace EfiCore.Disk

open EfiCore.Lib

def cdromBlockSize : Nat := 2048
def cdvolTypeCoded : Byte := 0x1
def cdvolTypeEnd : Byte := 0xFF

/-- `CDVOL_ID`, "CD001" -/
def cdvolId : List Byte := [0x43, 0x44, 0x30, 0x30, 0x31]

/-- `CDVOL_ELTORITO_ID`, "EL TORITO SPECIFICATION" -/
def cdvolEltoritoId : List Byte :=
  [0x45, 0x4C, 0x20, 0x54, 0x4F, 0x52, 0x49, 0x54, 0x4F, 0x20, 0x53, 0x50, 0x45, 0x43, 0x49, 0x46,
    0x49, 0x43, 0x41, 0x54, 0x49, 0x4F, 0x4E]

def eltoritoIdCatalog : Byte := 0x01
def eltoritoIdSectionBootable : Byte := 0x88

/-- `CDROM_VOLUME_DESCRIPTOR` -/
structure VolDescriptor where
  type : Byte
  id : List Byte
  systemId : List Byte
  eltCatalog : BitVec 32
  volSpaceSize : Nat → BitVec 32

/-- `sizeof (CDROM_VOLUME_DESCRIPTOR)` -/
def volDescriptorSize : Nat := 88

def VolDescriptor.ofBlock (block : List Byte) : VolDescriptor where
  type := block.getD 0 0
  id := slice block 1 5
  systemId := slice block 7 26
  eltCatalog := unpackUint32 block 71
  volSpaceSize i := unpackUint32 block (80 + 4 * i)

/-- `sizeof (ELTORITO_CATALOG)` -/
def eltoritoCatalogSize : Nat := 32

/-- The `Boot` member of `ELTORITO_CATALOG`. -/
structure BootEntry where
  indicator : Byte
  mediaType : BitVec 4
  sectorCount : BitVec 16
  lba : BitVec 32
  deriving DecidableEq, Repr

/-- The entry of the catalog with the number `index`. -/
def BootEntry.ofBlock (block : List Byte) (index : Nat) : BootEntry where
  indicator := block.getD (32 * index) 0
  mediaType := (block.getD (32 * index + 1) 0).setWidth 4
  sectorCount := .ofNat 16 (leNat (slice block (32 * index + 6) 2))
  lba := unpackUint32 block (32 * index + 8)

/-- `Check`, the sum of the 16 numbers of the first entry. -/
def catalogCheck (block : List Byte) : Nat :=
  ((List.range (eltoritoCatalogSize / 2)).map fun index => leNat (slice block (2 * index) 2)).sum

/-- The first entry is a valid header of a catalog. -/
def ValidCatalog (block : List Byte) : Prop :=
  block.getD 0 0 = eltoritoIdCatalog ∧ leNat (slice block 30 2) = 0xAA55 ∧
    catalogCheck block % 2 ^ 16 = 0

instance (block : List Byte) : Decidable (ValidCatalog block) := inferInstanceAs (Decidable (_ ∧ _))

/-! ## The children -/

/-- `CDROM_DEVICE_PATH` -/
structure CdRom where
  bootEntry : BitVec 32
  partitionStart : BitVec 64
  partitionSize : BitVec 64
  deriving DecidableEq, Repr

/-- A call of `PartitionInstallChildHandle`. -/
structure CdChild where
  node : CdRom
  /-- `Start` -/
  first : BitVec 64
  /-- `End` -/
  last : BitVec 64
  blockSize : Nat
  deriving DecidableEq, Repr

namespace BootEntry

/-- The entry is for a child. -/
def Bootable (e : BootEntry) : Prop := e.indicator = eltoritoIdSectionBootable ∧ e.lba ≠ 0

instance (e : BootEntry) : Decidable e.Bootable := inferInstanceAs (Decidable (_ ∧ _))

/-- The `switch` over `MediaType`: `SubBlockSize` and `SectorCount`. -/
def sectors (e : BootEntry) : Nat × Nat :=
  match e.mediaType with
  | 0x0 => (cdromBlockSize, e.sectorCount.toNat)
  | 0x4 => (512, e.sectorCount.toNat)
  | 0x1 => (512, 0x50 * 0x02 * 0x0F)
  | 0x2 => (512, 0x50 * 0x02 * 0x12)
  | 0x3 => (512, 0x50 * 0x02 * 0x24)
  | _ => (cdromBlockSize, 0)

def partitionSize (A : Arch) (e : BootEntry) (volSpaceSize : BitVec 32) : BitVec 64 :=
  if e.sectors.2 < 2 then volSpaceSize.setWidth 64
  else
    .ofNat 64 (driverLibDivU64x32 A
      ((driverLibMultU64x32 e.sectors.2 e.sectors.1 + cdromBlockSize - 1) % 2 ^ 64)
      cdromBlockSize).1

/-- The child of the entry. -/
def child (A : Arch) (e : BootEntry) (volSpaceSize : BitVec 32) (bootEntry : Nat) : CdChild where
  node :=
    { bootEntry := .ofNat 32 bootEntry
      partitionStart := e.lba.setWidth 64
      partitionSize := e.partitionSize A volSpaceSize }
  first := e.lba.setWidth 64
  last := e.lba.setWidth 64 + e.partitionSize A volSpaceSize - 1
  blockSize := e.sectors.1

end BootEntry

/-- The loop over the entries of a catalog, with `BootEntry`. -/
def installEntries (A : Arch) (block : List Byte) (volSpaceSize : BitVec 32) :
    Nat → List Nat → List CdChild
  | _, [] => []
  | bootEntry, index :: rest =>
    let e := BootEntry.ofBlock block index
    if ¬ e.Bootable then installEntries A block volSpaceSize bootEntry rest
    else
      let bootEntry := if index = 1 then 0 else bootEntry
      e.child A volSpaceSize bootEntry :: installEntries A block volSpaceSize (bootEntry + 1) rest

/-- `MaxIndex` -/
def maxIndex : Nat := cdromBlockSize / eltoritoCatalogSize

/-! ## PartitionInstallElToritoChildHandles -/

/-- The bytes of the buffer that are read or written: where they begin, and how many they are. -/
abbrev BufferAccess := Nat × Nat

/-- What happens to the catalog that a descriptor names. -/
structure CatalogTurn where
  accesses : List BufferAccess
  /-- The children, if the catalog is valid. -/
  children : Option (List CdChild)
  overrun : Bool
  deriving DecidableEq, Repr

/-- The part of a turn after the descriptor, with `Catalog` at the entry `catalog` of the buffer. -/
def catalogTurn (A : Arch) (read : Nat → Option (List Byte)) (lastBlock : Nat)
    (volSpaceSize : BitVec 32) (catalog : Nat) (d : VolDescriptor) : CatalogTurn :=
  let base := eltoritoCatalogSize * catalog
  if d.systemId.take cdvolEltoritoId.length ≠ cdvolEltoritoId then ⟨[], none, false⟩
  else if lastBlock < d.eltCatalog.toNat then ⟨[], none, false⟩
  else if cdromBlockSize < base + cdromBlockSize then ⟨[(base, cdromBlockSize)], none, true⟩
  else
    match read d.eltCatalog.toNat with
    | none => ⟨[(base, cdromBlockSize)], none, false⟩
    | some block =>
      let header := [(base, cdromBlockSize), (base, eltoritoCatalogSize)]
      if ¬ ValidCatalog block then ⟨header, none, false⟩
      else
        let indices := List.range' 1 (maxIndex - 1)
        { accesses := header ++
            indices.map fun index => (base + eltoritoCatalogSize * index, eltoritoCatalogSize)
          children := some (installEntries A block volSpaceSize 1 indices)
          overrun := false }

inductive ScanEnding where
  | finished
  /-- A read goes beyond the end of the buffer. -/
  | overrun
  /-- It has not ended within the bound. -/
  | running
  deriving DecidableEq, Repr

/-- What the loop over the descriptors does. -/
structure Scan where
  accesses : List BufferAccess
  /-- The children of each catalog. -/
  catalogs : List (List CdChild)
  ending : ScanEnding
  deriving DecidableEq, Repr

/-- The descriptor is the last one. -/
def VolDescriptor.Ends (d : VolDescriptor) : Prop := d.type = cdvolTypeEnd ∨ d.id ≠ cdvolId

instance (d : VolDescriptor) : Decidable d.Ends := inferInstanceAs (Decidable (_ ∨ _))

/-- `VolSpaceSize` after the descriptor. -/
def VolDescriptor.spaceSize (d : VolDescriptor) (volSpaceSize : BitVec 32) : BitVec 32 :=
  if d.type = cdvolTypeCoded then d.volSpaceSize 1 else volSpaceSize

/-- The `while` loop over the descriptors. -/
def descriptorLoop (A : Arch) (read : Nat → Option (List Byte)) (lastBlock : Nat) :
    Nat → BitVec 32 → BitVec 32 → Nat → Scan
  | 0, _, _, _ => ⟨[], [], .running⟩
  | fuel + 1, volDescriptorLba, volSpaceSize, catalog =>
    let lba := volDescriptorLba + 1
    if lastBlock < lba.toNat then ⟨[], [], .finished⟩
    else
      match read lba.toNat with
      | none => ⟨[(0, cdromBlockSize)], [], .finished⟩
      | some block =>
        let d := VolDescriptor.ofBlock block
        let accesses := [(0, cdromBlockSize), (0, volDescriptorSize)]
        if d.Ends then ⟨accesses, [], .finished⟩
        else
          let turn := catalogTurn A read lastBlock (d.spaceSize volSpaceSize) catalog d
          if turn.overrun then ⟨accesses ++ turn.accesses, [], .overrun⟩
          else
            -- the loop over the entries has moved `Catalog` to the last one
            let catalog := if turn.children.isSome then catalog + (maxIndex - 1) else catalog
            let s := descriptorLoop A read lastBlock fuel lba (d.spaceSize volSpaceSize) catalog
            ⟨accesses ++ turn.accesses ++ s.accesses, turn.children.toList ++ s.catalogs, s.ending⟩

/-- `PartitionInstallElToritoChildHandles`, with what it returns.  `memory` is whether the buffer is
    allocated, and `install` whether a child is installed. -/
def partitionInstallElToritoChildHandles (A : Arch) (read : Nat → Option (List Byte))
    (blockSize lastBlock : Nat) (memory : Bool) (install : CdChild → Bool) (fuel : Nat) :
    Scan × Bool :=
  if blockSize ≠ cdromBlockSize then (⟨[], [], .finished⟩, false)
  else if memory = false then (⟨[], [], .finished⟩, false)
  else
    let s := descriptorLoop A read lastBlock fuel 15 0 0
    (s, s.catalogs.flatten.any install)

/-! ## What a disk names -/

/-- The descriptors after the block `volDescriptorLba`. -/
def volDescriptors (read : Nat → Option (List Byte)) (lastBlock : Nat) :
    Nat → BitVec 32 → List VolDescriptor
  | 0, _ => []
  | fuel + 1, volDescriptorLba =>
    let lba := volDescriptorLba + 1
    if lastBlock < lba.toNat then []
    else
      ((read lba.toNat).map VolDescriptor.ofBlock).elim [] fun d =>
        if d.Ends then [] else d :: volDescriptors read lastBlock fuel lba

/-- The descriptor names a boot catalog on the disk. -/
def VolDescriptor.Names (lastBlock : Nat) (d : VolDescriptor) : Prop :=
  d.systemId.take cdvolEltoritoId.length = cdvolEltoritoId ∧ d.eltCatalog.toNat ≤ lastBlock

instance (lastBlock : Nat) (d : VolDescriptor) : Decidable (d.Names lastBlock) :=
  inferInstanceAs (Decidable (_ ∧ _))

/-- A boot catalog that a descriptor names, with the size of the volume in the descriptors up to
    there. -/
structure CatalogRef where
  lba : BitVec 32
  volSpaceSize : BitVec 32
  deriving DecidableEq, Repr

def namedCatalogs (lastBlock : Nat) : BitVec 32 → List VolDescriptor → List CatalogRef
  | _, [] => []
  | volSpaceSize, d :: rest =>
    let volSpaceSize := d.spaceSize volSpaceSize
    if d.Names lastBlock then ⟨d.eltCatalog, volSpaceSize⟩ :: namedCatalogs lastBlock volSpaceSize rest
    else namedCatalogs lastBlock volSpaceSize rest

/-- The block of the catalog, if it is valid. -/
def CatalogRef.valid (read : Nat → Option (List Byte)) (ref : CatalogRef) : Option (List Byte) :=
  (read ref.lba.toNat).filter fun block => ValidCatalog block

/-- The bootable entries of a catalog, in their order. -/
def bootableEntries (block : List Byte) : List BootEntry :=
  ((List.range' 1 (maxIndex - 1)).map (BootEntry.ofBlock block)).filter fun e => e.Bootable

/-- The number of the first child: only the initial entry has the number 0. -/
def firstNumber (block : List Byte) : Nat := if (BootEntry.ofBlock block 1).Bootable then 0 else 1

/-- One child for each bootable entry, numbered consecutively. -/
def catalogChildren (A : Arch) (volSpaceSize : BitVec 32) (block : List Byte) : List CdChild :=
  (bootableEntries block).mapIdx fun i e => e.child A volSpaceSize (firstNumber block + i)

end EfiCore.Disk
