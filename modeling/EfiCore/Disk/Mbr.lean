import EfiCore.Lib.Bytes
import EfiCore.Lib.Orbit
import EfiCore.Types

/-! # Master boot records

`Mbr.c`.  The parent is what it answers when one of its blocks is read: the bytes of the block, or
an error.  The addresses and sizes in the records have 32 bits, and so have their sums.

The logical drives of an extended partition are a chain: the record of each of them tells where the
next one is.
-/

namespace EfiCore.Disk

open EfiCore.Lib

def mbrSignature : BitVec 16 := 0xaa55
def extendedDosPartition : Byte := 0x05
def extendedWindowsPartition : Byte := 0x0F
def efiPartition : Byte := 0xef
def maxMbrPartitions : Nat := 4

/-- `UNPACK_UINT32` -/
def unpackUint32 (block : List Byte) (off : Nat) : BitVec 32 := .ofNat 32 (leNat (slice block off 4))

/-- `MBR_PARTITION_RECORD` -/
structure MbrPartitionRecord where
  osIndicator : Byte
  startingLBA : BitVec 32
  sizeInLBA : BitVec 32
  deriving DecidableEq, Repr

/-- `MASTER_BOOT_RECORD` -/
structure MasterBootRecord where
  uniqueMbrSignature : BitVec 32
  partition : Nat → MbrPartitionRecord
  signature : BitVec 16

/-- The record in a block. -/
def MasterBootRecord.ofBlock (block : List Byte) : MasterBootRecord where
  uniqueMbrSignature := unpackUint32 block 440
  partition index :=
    { osIndicator := block.getD (446 + 16 * index + 4) 0
      startingLBA := unpackUint32 block (446 + 16 * index + 8)
      sizeInLBA := unpackUint32 block (446 + 16 * index + 12) }
  signature := .ofNat 16 (leNat (slice block 510 2))

def MasterBootRecord.partitions (mbr : MasterBootRecord) : List MbrPartitionRecord :=
  (List.range maxMbrPartitions).map mbr.partition

namespace MbrPartitionRecord

/-- The record is not used. -/
def Unused (r : MbrPartitionRecord) : Prop := r.osIndicator = 0 ∨ r.sizeInLBA = 0

instance (r : MbrPartitionRecord) : Decidable r.Unused := inferInstanceAs (Decidable (_ ∨ _))

def Extended (r : MbrPartitionRecord) : Prop :=
  r.osIndicator = extendedDosPartition ∨ r.osIndicator = extendedWindowsPartition

instance (r : MbrPartitionRecord) : Decidable r.Extended := inferInstanceAs (Decidable (_ ∨ _))

def endingLBA (r : MbrPartitionRecord) : BitVec 32 := r.startingLBA + r.sizeInLBA - 1

/-- `SizeInLBA + StartingLBA`, where an extended partition ends. -/
def limit (r : MbrPartitionRecord) : BitVec 32 := r.sizeInLBA + r.startingLBA

/-- The regions of two records overlap. -/
def overlaps (r r' : MbrPartitionRecord) : Bool :=
  r.startingLBA ≤ r'.endingLBA ∧ r'.startingLBA ≤ r.endingLBA

end MbrPartitionRecord

/-! ## PartitionValidMbr -/

/-- The loop over the records, with `MbrValid`. -/
def validRecords (lastLba : Nat) : Bool → List MbrPartitionRecord → Bool
  | mbrValid, [] => mbrValid
  | mbrValid, r :: rest =>
    if r.Unused then validRecords lastLba mbrValid rest
    else if lastLba < r.endingLBA.toNat then false
    else if rest.any fun r' => ¬ r'.Unused ∧ r.overlaps r' then false
    else validRecords lastLba true rest

def partitionValidMbr (mbr : MasterBootRecord) (lastLba : Nat) : Bool :=
  mbr.signature = mbrSignature ∧ validRecords lastLba false mbr.partitions

/-! ## The children -/

/-- `HARDDRIVE_DEVICE_PATH`, of a record. -/
structure HardDrive where
  partitionNumber : BitVec 32
  partitionStart : BitVec 64
  partitionSize : BitVec 64
  signature : BitVec 32
  deriving DecidableEq, Repr

/-- A call of `PartitionInstallChildHandle`. -/
structure MbrChild where
  node : HardDrive
  /-- The extended partition that a logical drive is found in. -/
  foundIn : Option MbrPartitionRecord
  isEsp : Bool
  deriving DecidableEq, Repr

/-- `Start` -/
def MbrChild.first (c : MbrChild) : BitVec 64 := c.node.partitionStart

/-- `End` -/
def MbrChild.last (c : MbrChild) : BitVec 64 := c.node.partitionStart + c.node.partitionSize - 1

/-- Where the logical drive in the record `extMbr` at the block `lba` begins. -/
def logicalStart (extMbr : MasterBootRecord) (lba : BitVec 32) : BitVec 64 :=
  ((extMbr.partition 0).startingLBA + lba).setWidth 64

def logicalSize (extMbr : MasterBootRecord) : BitVec 64 :=
  (extMbr.partition 0).sizeInLBA.setWidth 64

/-- The logical drive does not end in the extended partition. -/
def Beyond (ext : MbrPartitionRecord) (extMbr : MasterBootRecord) (lba : BitVec 32) : Prop :=
  ext.limit.toNat ≤ (logicalStart extMbr lba + logicalSize extMbr - 1).toNat

instance (ext : MbrPartitionRecord) (extMbr : MasterBootRecord) (lba : BitVec 32) :
    Decidable (Beyond ext extMbr lba) := inferInstanceAs (Decidable (_ ≤ _))

/-- The logical drive in the record `extMbr` at the block `lba`. -/
def logicalDrive (ext : MbrPartitionRecord) (extMbr : MasterBootRecord) (lba number : BitVec 32) :
    MbrChild where
  node :=
    { partitionNumber := number
      partitionStart := logicalStart extMbr lba
      partitionSize := logicalSize extMbr
      signature := extMbr.uniqueMbrSignature }
  foundIn := some ext
  isEsp := (extMbr.partition 0).osIndicator = efiPartition

def primaryPartition (mbr : MasterBootRecord) (r : MbrPartitionRecord) (number : BitVec 32) :
    MbrChild where
  node :=
    { partitionNumber := number
      partitionStart := r.startingLBA.setWidth 64
      partitionSize := r.sizeInLBA.setWidth 64
      signature := mbr.uniqueMbrSignature }
  foundIn := none
  isEsp := r.osIndicator = efiPartition

/-- The partition is part of the parent, if that is a partition itself. -/
def partOf (parent : Option HardDrive) (node : HardDrive) : Bool :=
  match parent with
  | none => true
  | some p => ¬ (node.partitionStart ≤ p.partitionStart) ∧
      ¬ (p.partitionStart + p.partitionSize < node.partitionStart + node.partitionSize)

/-! ## PartitionInstallMbrChildHandles -/

/-- How a loop ends. -/
inductive Ending where
  | finished
  /-- `goto Done`, as a block cannot be read. -/
  | readError
  /-- It has not ended within the bound. -/
  | running
  deriving DecidableEq, Repr

/-- The blocks that the loop over the logical drives has read, and the children. -/
structure Walk where
  visited : List (BitVec 32)
  children : List MbrChild
  partitionNumber : BitVec 32
  ending : Ending
  deriving DecidableEq, Repr

/-- A turn before the others. -/
def Walk.visit (lba : BitVec 32) (child : MbrChild) (w : Walk) : Walk :=
  { w with visited := lba :: w.visited, children := child :: w.children }

/-- A turn of the `do` loop: how the loop ends, or where the next record is, with the drive that is
    installed. -/
def extendedTurn (read : Nat → Option (List Byte)) (ext : MbrPartitionRecord)
    (lba number : BitVec 32) : Walk ⊕ BitVec 32 × MbrChild :=
  if lba = 0 then .inl ⟨[], [], number, .finished⟩
  else
    match read lba.toNat with
    | none => .inl ⟨[lba], [], number, .readError⟩
    | some block =>
      let extMbr := MasterBootRecord.ofBlock block
      let child := logicalDrive ext extMbr lba number
      if (extMbr.partition 0).osIndicator = 0 then .inl ⟨[lba], [], number, .finished⟩
      else if Beyond ext extMbr lba then .inl ⟨[lba], [], number + 1, .finished⟩
      else if ¬ (extMbr.partition 1).Extended then .inl ⟨[lba], [child], number + 1, .finished⟩
      else
        let next := ext.startingLBA + (extMbr.partition 1).startingLBA
        if next < ext.limit then .inr (next, child)
        else .inl ⟨[lba], [child], number + 1, .finished⟩

/-- The `do` loop over the logical drives of the extended partition `ext`. -/
def extendedLoop (read : Nat → Option (List Byte)) (ext : MbrPartitionRecord) :
    Nat → BitVec 32 → BitVec 32 → Walk
  | 0, _, number => ⟨[], [], number, .running⟩
  | fuel + 1, lba, number =>
    match extendedTurn read ext lba number with
    | .inl w => w
    | .inr (next, child) => (extendedLoop read ext fuel next (number + 1)).visit lba child

/-- The walks over extended partitions, and the children. -/
structure Outcome where
  walks : List (List (BitVec 32))
  children : List MbrChild
  ending : Ending
  deriving DecidableEq, Repr

/-- The loop over the records. -/
def installRecords (read : Nat → Option (List Byte)) (parent : Option HardDrive)
    (mbr : MasterBootRecord) (fuel : Nat) : BitVec 32 → List MbrPartitionRecord → Outcome
  | _, [] => ⟨[], [], .finished⟩
  | number, r :: rest =>
    if r.Unused then installRecords read parent mbr fuel number rest
    else if r.Extended then
      let w := extendedLoop read r fuel r.startingLBA number
      if w.ending = .finished then
        let o := installRecords read parent mbr fuel w.partitionNumber rest
        ⟨w.visited :: o.walks, w.children ++ o.children, o.ending⟩
      else ⟨[w.visited], w.children, w.ending⟩
    else
      let child := primaryPartition mbr r number
      let o := installRecords read parent mbr fuel (number + 1) rest
      if partOf parent child.node then { o with children := child :: o.children } else o

/-- `PartitionInstallMbrChildHandles`, with the children that it passes to
    `PartitionInstallChildHandle` and what it returns.  `memory` is whether both blocks are
    allocated, `parent` the last node of the parent's path if that is a partition, and `install`
    whether a child is installed. -/
def partitionInstallMbrChildHandles (read : Nat → Option (List Byte)) (lastBlock : Nat)
    (memory : Bool) (parent : Option HardDrive) (install : MbrChild → Bool) (fuel : Nat) :
    Outcome × Bool :=
  if memory = false then (⟨[], [], .finished⟩, false)
  else
    match read 0 with
    | none => (⟨[], [], .finished⟩, false)
    | some block =>
      let mbr := MasterBootRecord.ofBlock block
      if partitionValidMbr mbr lastBlock then
        let o := installRecords read parent mbr fuel 1 mbr.partitions
        (o, o.children.any install)
      else (⟨[], [], .finished⟩, false)

end EfiCore.Disk
