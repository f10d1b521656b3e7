import EfiCore.Disk.Crc
import EfiCore.Disk.Image
import EfiCore.Disk.Mbr

/-! # GUID partition tables

`Gpt.c`.  A table is a header in a block and an array of entries.  There are two tables; one that
is not valid is restored from the other one.

A header is its 92 bytes, since its checksum is that of its bytes.  What the pool and the device
answer is told by the records `ValidTry`, `RestoreTry` and `InstallTry`.
-/

namespace EfiCore.Disk

open EfiCore.Lib

variable {m : Media}

def primaryPartHeaderLba : Nat := 1

/-- `EFI_PTAB_HEADER_ID`, "EFI PART" -/
def efiPtabHeaderId : List Byte := [0x45, 0x46, 0x49, 0x20, 0x50, 0x41, 0x52, 0x54]

/-- `sizeof (EFI_PARTITION_TABLE_HEADER)` -/
def partHeaderSize : Nat := 92

/-! ## Fields of a header -/

/-- The number of `n` bytes at the offset `off` of a header. -/
def le (hdr : List Byte) (off n : Nat) : Nat := leNat (slice hdr off n)

def setLe (hdr : List Byte) (off n x : Nat) : List Byte := splice hdr off (leBytes n x)

def headerSize (hdr : List Byte) : Nat := le hdr 12 4
def crc32 (hdr : List Byte) : Nat := le hdr 16 4
def myLBA (hdr : List Byte) : Nat := le hdr 24 8
def alternateLBA (hdr : List Byte) : Nat := le hdr 32 8
def firstUsableLBA (hdr : List Byte) : Nat := le hdr 40 8
def lastUsableLBA (hdr : List Byte) : Nat := le hdr 48 8
def partitionEntryLBA (hdr : List Byte) : Nat := le hdr 72 8
def numberOfPartitionEntries (hdr : List Byte) : Nat := le hdr 80 4
def sizeOfPartitionEntry (hdr : List Byte) : Nat := le hdr 84 4
def partitionEntryArrayCRC32 (hdr : List Byte) : Nat := le hdr 88 4

/-- `NumberOfPartitionEntries * SizeOfPartitionEntry`, in 32 bits. -/
def arraySize (hdr : List Byte) : Nat :=
  numberOfPartitionEntries hdr * sizeOfPartitionEntry hdr % 2 ^ 32

/-- Where the array begins on the medium. -/
def arrayOffset (m : Media) (hdr : List Byte) : Nat :=
  driverLibMultU64x32 (partitionEntryLBA hdr) m.blockSize

/-! ## Checksums -/

/-- `PartitionCheckCrcAltSize`, with the header after it. -/
def partitionCheckCrcAltSize (maxSize size : Nat) (hdr : List Byte) : Bool × List Byte :=
  if size = 0 then (false, hdr)
  else if maxSize ≠ 0 ∧ maxSize < size then (false, hdr)
  else
    let orgCrc := crc32 hdr
    let cleared := setLe hdr 16 4 0
    match calculateCrc32 (slice cleared 0 size) with
    | none => (false, cleared)
    | some crc => (orgCrc = crc.toNat, setLe cleared 16 4 crc.toNat)

/-- `PartitionCheckCrc` -/
def partitionCheckCrc (maxSize : Nat) (hdr : List Byte) : Bool × List Byte :=
  partitionCheckCrcAltSize maxSize (headerSize hdr) hdr

/-- `PartitionSetCrcAltSize`.  A size of 0 does not come from a valid table. -/
def partitionSetCrcAltSize (size : Nat) (hdr : List Byte) : List Byte :=
  let cleared := setLe hdr 16 4 0
  setLe cleared 16 4 ((calculateCrc32 (slice cleared 0 size)).elim 0 BitVec.toNat)

/-- `PartitionSetCrc` -/
def partitionSetCrc (hdr : List Byte) : List Byte := partitionSetCrcAltSize (headerSize hdr) hdr

/-! ## PartitionValidGptTable -/

/-- What the pool and the device answer to `PartitionValidGptTable`. -/
structure ValidTry where
  memory : Bool
  readHeader : Bool
  arrayMemory : Bool
  readArray : Bool
  deriving DecidableEq, Repr

/-- All is answered with success. -/
def ValidTry.ok : ValidTry := ⟨true, true, true, true⟩

/-- `PartitionCheckGptEntryArrayCRC` -/
def partitionCheckGptEntryArrayCRC (t : ValidTry) (img : Image m) (hdr : List Byte) : Bool :=
  if t.arrayMemory = false ∨ t.readArray = false then false
  else
    match img.read (arrayOffset m hdr) (arraySize hdr) with
    | none => false
    | some array =>
      match calculateCrc32 array with
      | none => false
      | some crc => partitionEntryArrayCRC32 hdr = crc.toNat

/-- `PartitionValidGptTable`, with `PartHeader` after it. -/
def partitionValidGptTable (t : ValidTry) (img : Image m) (lba : Nat) (partHeader : List Byte) :
    Bool × List Byte :=
  if t.memory = false ∨ t.readHeader = false then (false, partHeader)
  else
    match img.read (lba * m.blockSize) m.blockSize with
    | none => (false, partHeader)
    | some block =>
      let checked := partitionCheckCrc m.blockSize block
      if slice block 0 8 ≠ efiPtabHeaderId ∨ checked.1 = false ∨ myLBA checked.2 ≠ lba then
        (false, partHeader)
      else
        let partHeader := slice checked.2 0 partHeaderSize
        (partitionCheckGptEntryArrayCRC t img partHeader, partHeader)

/-! ## PartitionRestoreGptTable -/

/-- What the pool and the device answer to `PartitionRestoreGptTable`. -/
structure RestoreTry where
  memory : Bool
  writeHeader : WriteResult
  arrayMemory : Bool
  readArray : Bool
  writeArray : WriteResult

/-- `PEntryLBA`, where the array of the other table begins. -/
def pEntryLBA (partHeader : List Byte) : Nat :=
  if myLBA partHeader = primaryPartHeaderLba then (lastUsableLBA partHeader + 1) % 2 ^ 64
  else primaryPartHeaderLba + 1

/-- The block of the header of the other table. -/
def restoredHeader (m : Media) (partHeader : List Byte) : List Byte :=
  let partHdr := splice (List.replicate m.blockSize 0) 0 partHeader
  let partHdr := setLe partHdr 24 8 (alternateLBA partHeader)
  let partHdr := setLe partHdr 32 8 (myLBA partHeader)
  let partHdr := setLe partHdr 72 8 (pEntryLBA partHeader)
  partitionSetCrc partHdr

/-- `PartitionRestoreGptTable`, with the medium after it. -/
def partitionRestoreGptTable (t : RestoreTry) (img : Image m) (partHeader : List Byte) :
    Image m × Bool :=
  if t.memory = false then (img, false)
  else
    let header := img.write (alternateLBA partHeader * m.blockSize) (restoredHeader m partHeader)
      t.writeHeader
    if header.2 = false ∨ t.arrayMemory = false ∨ t.readArray = false then (header.1, false)
    else
      match header.1.read (arrayOffset m partHeader) (arraySize partHeader) with
      | none => (header.1, false)
      | some array =>
        header.1.write (driverLibMultU64x32 (pEntryLBA partHeader) m.blockSize) array t.writeArray

/-! ## PartitionCheckGptEntry -/

/-- `EFI_PARTITION_ENTRY` -/
structure GptEntry where
  partitionTypeGUID : List Byte
  uniquePartitionGUID : List Byte
  startingLBA : BitVec 64
  endingLBA : BitVec 64
  deriving DecidableEq, Repr

/-- `sizeof (EFI_PARTITION_ENTRY)` -/
def partEntrySize : Nat := 128

/-- The entry in these bytes. -/
def GptEntry.ofBytes (bytes : List Byte) : GptEntry where
  partitionTypeGUID := slice bytes 0 16
  uniquePartitionGUID := slice bytes 16 16
  startingLBA := .ofNat 64 (le bytes 32 8)
  endingLBA := .ofNat 64 (le bytes 40 8)

/-- `gEfiPartTypeUnusedGuid` -/
def partTypeUnusedGuid : List Byte := List.replicate 16 0

/-- `gEfiPartTypeSystemPartGuid` -/
def partTypeSystemPartGuid : List Byte :=
  [0x28, 0x73, 0x2A, 0xC1, 0x1F, 0xF8, 0xD2, 0x11, 0xBA, 0x4B, 0x00, 0xA0, 0xC9, 0x3E, 0xC9, 0x3B]

def GptEntry.Unused (e : GptEntry) : Prop := e.partitionTypeGUID = partTypeUnusedGuid

instance (e : GptEntry) : Decidable e.Unused := inferInstanceAs (Decidable (_ = _))

/-- The region of the entry is one of usable blocks. -/
def GptEntry.InRange (hdr : List Byte) (e : GptEntry) : Prop :=
  e.startingLBA ≤ e.endingLBA ∧ firstUsableLBA hdr ≤ e.startingLBA.toNat ∧
    e.startingLBA.toNat ≤ lastUsableLBA hdr ∧ firstUsableLBA hdr ≤ e.endingLBA.toNat ∧
    e.endingLBA.toNat ≤ lastUsableLBA hdr

instance (hdr : List Byte) (e : GptEntry) : Decidable (e.InRange hdr) :=
  inferInstanceAs (Decidable (_ ∧ _))

/-- The regions of the entries overlap. -/
def GptEntry.Overlaps (e e' : GptEntry) : Prop :=
  e.startingLBA ≤ e'.endingLBA ∧ e'.startingLBA ≤ e.endingLBA

instance (e e' : GptEntry) : Decidable (e.Overlaps e') := inferInstanceAs (Decidable (_ ∧ _))

/-- `EFI_PARTITION_ENTRY_STATUS` -/
structure EntryStatus where
  outOfRange : Bool
  overlap : Bool
  deriving DecidableEq, Repr

/-- The entry may be used. -/
def EntryStatus.clear : EntryStatus := ⟨false, false⟩

/-- The array `PEntryStatus`. -/
abbrev Statuses := Nat → EntryStatus

def Statuses.markOutOfRange (s : Statuses) (i : Nat) : Statuses :=
  Function.update s i { s i with outOfRange := true }

def Statuses.markOverlap (s : Statuses) (i : Nat) : Statuses :=
  Function.update s i { s i with overlap := true }

/-- The inner loop, for the entry `i`. -/
def markOverlaps (entry : Nat → GptEntry) (i : Nat) : List Nat → Statuses → Statuses
  | [], s => s
  | j :: rest, s =>
    if (entry j).Unused then markOverlaps entry i rest s
    else if (entry i).Overlaps (entry j) then
      markOverlaps entry i rest ((s.markOverlap i).markOverlap j)
    else markOverlaps entry i rest s

/-- The outer loop, over `n` entries. -/
def checkEntries (hdr : List Byte) (entry : Nat → GptEntry) (n : Nat) :
    List Nat → Statuses → Statuses
  | [], s => s
  | i :: rest, s =>
    if (entry i).Unused then checkEntries hdr entry n rest s
    else if ¬ (entry i).InRange hdr then checkEntries hdr entry n rest (s.markOutOfRange i)
    else
      checkEntries hdr entry n rest (markOverlaps entry i (List.range' (i + 1) (n - (i + 1))) s)

/-- `PartitionCheckGptEntry`, on statuses that are clear. -/
def partitionCheckGptEntry (hdr : List Byte) (entry : Nat → GptEntry) : Statuses :=
  let n := numberOfPartitionEntries hdr
  checkEntries hdr entry n (List.range n) fun _ => .clear

/-! ## PartitionInstallGptChildHandles -/

/-- What the pool and the device answer to `PartitionInstallGptChildHandles`. -/
structure InstallTry where
  mbrMemory : Bool
  readMbr : Bool
  headerMemory : Bool
  primary : ValidTry
  backup : ValidTry
  restore : RestoreTry
  again : ValidTry
  entriesMemory : Bool
  readEntries : Bool
  statusMemory : Bool
  /-- What is in the buffer of the entries behind those that are read. -/
  junk : List Byte

/-- The protective master boot record is valid. -/
def ProtectiveMbr (block : List Byte) : Prop :=
  block.getD 446 0 = 0 ∧ block.getD 450 0 = 0xEE ∧ unpackUint32 block 454 = 1

instance (block : List Byte) : Decidable (ProtectiveMbr block) :=
  inferInstanceAs (Decidable (_ ∧ _))

/-- `sizeof (MASTER_BOOT_RECORD)` -/
def mbrSize : Nat := 512

/-- `EfiLibAllocateZeroPool (sizeof (EFI_PARTITION_TABLE_HEADER))` -/
def zeroHeader : List Byte := List.replicate partHeaderSize 0

/-- The part of the function that checks and restores the tables: the medium after it, and
    `PrimaryHeader`.  What is left in `BackupHeader` is not used. -/
def checkTables (t : InstallTry) (img : Image m) : Option (Image m × List Byte) :=
  let primary := partitionValidGptTable t.primary img primaryPartHeaderLba zeroHeader
  if primary.1 = false then
    let backup := partitionValidGptTable t.backup img m.lastBlock zeroHeader
    if backup.1 = false then none
    else
      let restored := (partitionRestoreGptTable t.restore img backup.2).1
      some (restored,
        (partitionValidGptTable t.again restored (alternateLBA backup.2) primary.2).2)
  else
    let backup := partitionValidGptTable t.backup img (alternateLBA primary.2) zeroHeader
    if backup.1 = false then some ((partitionRestoreGptTable t.restore img primary.2).1, primary.2)
    else some (img, primary.2)

/-- A call of `PartitionInstallChildHandle`, for the entry `index`. -/
structure GptChild where
  index : Nat
  partitionNumber : BitVec 32
  partitionStart : BitVec 64
  partitionSize : BitVec 64
  signature : List Byte
  /-- `Start` -/
  first : BitVec 64
  /-- `End` -/
  last : BitVec 64
  blockSize : Nat
  isEsp : Bool
  deriving DecidableEq, Repr

def gptChild (m : Media) (index : Nat) (e : GptEntry) : GptChild where
  index := index
  partitionNumber := .ofNat 32 (index + 1)
  partitionStart := e.startingLBA
  partitionSize := e.endingLBA - e.startingLBA + 1
  signature := e.uniquePartitionGUID
  first := e.startingLBA
  last := e.endingLBA
  blockSize := m.blockSize
  isEsp := e.partitionTypeGUID = partTypeSystemPartGuid

/-- What the function does. -/
inductive GptRun where
  /-- `goto Done` -/
  | nothing
  /-- An access outside a buffer. -/
  | overrun
  | installs (children : List GptChild)
  deriving DecidableEq, Repr

/-- The loop over the entries. -/
def installGptEntries (m : Media) (entry : Nat → GptEntry) (status : Statuses) :
    List Nat → List GptChild
  | [] => []
  | index :: rest =>
    if (entry index).Unused ∨ (status index).outOfRange = true ∨ (status index).overlap = true then
      installGptEntries m entry status rest
    else gptChild m index (entry index) :: installGptEntries m entry status rest

/-- The part of the function after the check of the tables, with `PrimaryHeader`. -/
def installTable (A : Arch) (t : InstallTry) (img : Image m) (hdr : List Byte) : GptRun :=
  let n := numberOfPartitionEntries hdr
  let allocated := n * partEntrySize % 2 ^ A.bits
  if t.entriesMemory = false then .nothing
  else if allocated < arraySize hdr then .overrun
  else if t.readEntries = false then .nothing
  else
    match img.read (arrayOffset m hdr) (arraySize hdr) with
    | none => .nothing
    | some array =>
      if t.statusMemory = false then .nothing
      -- the loops go over all entries
      else if allocated < n * partEntrySize ∨ n * 2 % 2 ^ A.bits < n * 2 then .overrun
      else
        let entry index :=
          GptEntry.ofBytes (slice (array ++ t.junk) (partEntrySize * index) partEntrySize)
        .installs (installGptEntries m entry (partitionCheckGptEntry hdr entry) (List.range n))

/-- `PartitionInstallGptChildHandles` -/
def partitionInstallGptChildHandles (A : Arch) (t : InstallTry) (img : Image m) : GptRun :=
  if t.mbrMemory = false ∨ t.readMbr = false then .nothing
  else
    match img.read 0 m.blockSize with
    | none => .nothing
    | some block =>
      if block.length < mbrSize then .overrun
      else if ¬ ProtectiveMbr block ∨ t.headerMemory = false then .nothing
      else
        match checkTables t img with
        | none => .nothing
        | some (img', hdr) => installTable A t img' hdr

end EfiCore.Disk
