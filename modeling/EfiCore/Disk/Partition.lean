import EfiCore.Disk.Exact

/-! # Partitions

`PartitionInstallChildHandle`, `PartitionReadBlocks` and `PartitionWriteBlocks` of
`Partition.c`.  A partition passes a request on to the disk I/O protocol of its parent, with the
offset of the partition added.  What it checks is a sum of 64 bits, which wraps.
-/

namespace EfiCore.Disk

open EfiCore.Lib

/-- What `PartitionInstallChildHandle` is called with. -/
structure Extent where
  parent : Media
  /-- `Start` -/
  first : Nat
  /-- `End` -/
  last : Nat
  blockSize : Nat
  first_le : first ≤ last
  last_lt : last < 2 ^ 64
  blockSize_pos : 0 < blockSize
  blockSize_lt : blockSize < 2 ^ 32

/-- `PARTITION_PRIVATE_DATA`, as far as requests need it. -/
structure Partition where
  /-- The parent's, as the medium of the partition is a copy of the parent's. -/
  ioAlign : Nat
  start : Nat
  stop : Nat
  blockSize : Nat

/-- `PartitionInstallChildHandle` -/
def partitionInstallChildHandle (e : Extent) : Partition where
  ioAlign := e.parent.ioAlign
  start := driverLibMultU64x32 e.first e.parent.blockSize
  stop := driverLibMultU64x32 ((e.last + 1) % 2 ^ 64) e.parent.blockSize
  blockSize := e.blockSize

/-- A call of `ReadDisk` or `WriteDisk` of the parent. -/
structure DiskCall where
  access : Access
  mediaId : BitVec 32
  offset : Nat
  bufferSize : Nat
  buffer : Addr
  deriving DecidableEq

/-- What `PartitionReadBlocks` and `PartitionWriteBlocks` have in common. -/
def partitionBlocks (access : Access) (p : Partition) (mediaId : BitVec 32) (lba bufferSize : Nat)
    (buffer : Addr) : Except Status DiskCall :=
  if 1 < p.ioAlign ∧ buffer &&& (p.ioAlign - 1) ≠ 0 then .error .invalidParameter
  else if bufferSize % p.blockSize ≠ 0 then .error .badBufferSize
  else
    let offset := (driverLibMultU64x32 lba p.blockSize + p.start) % 2 ^ 64
    if p.stop < (offset + bufferSize) % 2 ^ 64 then .error .invalidParameter
    else .ok { access, mediaId, offset, bufferSize, buffer }

def partitionReadBlocks : Partition → BitVec 32 → Nat → Nat → Addr → Except Status DiskCall :=
  partitionBlocks .read

def partitionWriteBlocks : Partition → BitVec 32 → Nat → Nat → Addr → Except Status DiskCall :=
  partitionBlocks .write

namespace Extent

variable (e : Extent)

/-- The first byte of the partition on its parent. -/
def startByte : Nat := e.first * e.parent.blockSize

/-- The byte behind its last. -/
def endByte : Nat := (e.last + 1) * e.parent.blockSize

/-- What a request for `bufferSize` bytes from the block `lba` on is for: the parent's bytes
    `lba * blockSize` behind the start of the partition, and they are part of it. -/
structure Meant (lba bufferSize : Nat) (call : DiskCall) : Prop where
  offset_eq : call.offset = e.startByte + lba * e.blockSize
  size_eq : call.bufferSize = bufferSize
  noWrap : e.startByte + lba * e.blockSize + bufferSize < 2 ^ 64
  inside : e.startByte + lba * e.blockSize + bufferSize ≤ e.endByte

/-- A request is refused, or it is passed on as it is meant. -/
def Isolates (mediaId : BitVec 32) (lba bufferSize : Nat) (buffer : Addr) : Prop :=
  (∀ call, partitionReadBlocks (partitionInstallChildHandle e) mediaId lba bufferSize buffer =
    .ok call → e.Meant lba bufferSize call ∧ call.access = .read) ∧
  ∀ call, partitionWriteBlocks (partitionInstallChildHandle e) mediaId lba bufferSize buffer =
    .ok call → e.Meant lba bufferSize call ∧ call.access = .write

/-- The checks of a request let it pass. -/
def Accepts (mediaId : BitVec 32) (lba bufferSize : Nat) (buffer : Addr) : Prop :=
  (partitionReadBlocks (partitionInstallChildHandle e) mediaId lba bufferSize buffer).isOk = true

variable {e}

/-- The stored end is at most the real one. -/
theorem stop_le : (partitionInstallChildHandle e).stop ≤ e.endByte := by
  have hmod := Nat.mod_le ((e.last + 1) % 2 ^ 64 * e.parent.blockSize) (2 ^ 64)
  have hlast := Nat.mul_le_mul_right e.parent.blockSize (Nat.mod_le (e.last + 1) (2 ^ 64))
  exact Nat.le_trans hmod hlast

/-- The offset of a request, as the code computes it. -/
theorem offset_eq (lba : Nat) :
    (driverLibMultU64x32 lba (partitionInstallChildHandle e).blockSize +
      (partitionInstallChildHandle e).start) % 2 ^ 64 =
        (e.startByte + lba * e.blockSize) % 2 ^ 64 := by
  have hmod := Nat.add_mod (lba * e.blockSize) e.startByte (2 ^ 64)
  rw [Nat.add_comm e.startByte, hmod]
  rfl

theorem partitionBlocks_ok {access : Access} {mediaId : BitVec 32} {lba bufferSize : Nat}
    {buffer : Addr} {call : DiskCall}
    (h : partitionBlocks access (partitionInstallChildHandle e) mediaId lba bufferSize buffer =
      .ok call) :
    call.access = access ∧ call.bufferSize = bufferSize ∧
      call.offset = (e.startByte + lba * e.blockSize) % 2 ^ 64 ∧
      (e.startByte + lba * e.blockSize + bufferSize) % 2 ^ 64 ≤ e.endByte := by
  simp only [partitionBlocks] at h
  split at h
  · cases h
  · split at h
    · cases h
    · split at h
      · cases h
      · rename_i hstop
        cases h
        refine ⟨rfl, rfl, offset_eq lba, ?_⟩
        rw [offset_eq, Nat.mod_add_mod] at hstop
        exact Nat.le_trans (Nat.not_lt.mp hstop) stop_le

/-- The checks do not depend on the kind of the access. -/
theorem isOk_partitionBlocks (access : Access) (p : Partition) (mediaId : BitVec 32)
    (lba bufferSize : Nat) (buffer : Addr) :
    (partitionBlocks access p mediaId lba bufferSize buffer).isOk =
      (partitionBlocks .read p mediaId lba bufferSize buffer).isOk := by
  simp only [partitionBlocks]
  split
  · rfl
  · split
    · rfl
    · split <;> rfl

theorem meant_of_noWrap {access : Access} {mediaId : BitVec 32} {lba bufferSize : Nat}
    {buffer : Addr} (hwrap : e.startByte + lba * e.blockSize + bufferSize < 2 ^ 64)
    {call : DiskCall}
    (h : partitionBlocks access (partitionInstallChildHandle e) mediaId lba bufferSize buffer =
      .ok call) : e.Meant lba bufferSize call ∧ call.access = access := by
  obtain ⟨haccess, hsize, hoffset, hstop⟩ := partitionBlocks_ok h
  rw [Nat.mod_eq_of_lt (by omega)] at hoffset
  rw [Nat.mod_eq_of_lt hwrap] at hstop
  exact ⟨⟨hoffset, hsize, hwrap, hstop⟩, haccess⟩

/-- A request is passed on as it is meant just when it does not wrap, unless it is refused. -/
theorem isolates_iff (e : Extent) (mediaId : BitVec 32) (lba bufferSize : Nat) (buffer : Addr) :
    e.Isolates mediaId lba bufferSize buffer ↔
      (e.Accepts mediaId lba bufferSize buffer →
        e.startByte + lba * e.blockSize + bufferSize < 2 ^ 64) := by
  constructor
  · intro h haccepts
    cases hread : partitionReadBlocks (partitionInstallChildHandle e) mediaId lba bufferSize
        buffer with
    | error status =>
      rw [Accepts, hread] at haccepts
      cases haccepts
    | ok call => exact (h.1 call hread).1.noWrap
  · intro h
    constructor
    · intro call hcall
      refine meant_of_noWrap (h ?_) hcall
      rw [Accepts, hcall]
      rfl
    · intro call hcall
      refine meant_of_noWrap (h ?_) hcall
      have hok := isOk_partitionBlocks .write (partitionInstallChildHandle e) mediaId lba
        bufferSize buffer
      rw [← partitionWriteBlocks, hcall] at hok
      exact hok.symm

end Extent

/-! ## The parent -/

/-- The call, made on the parent. -/
def DiskCall.perform (call : DiskCall) (A : Arch) (m : Media) (preData : PoolBlock)
    (bytes : List Byte) (d : Device) : Result :=
  match call.access with
  | .read => diskIoReadDisk A m (some preData) call.mediaId call.offset call.buffer bytes d
  | .write => diskIoWriteDisk A m (some preData) call.mediaId call.offset call.buffer bytes d

/-- The first partition of a disk with blocks of 512 bytes, 2048 blocks behind its start. -/
def smallExtent : Extent where
  parent :=
    { mediaId := 0, readOnly := false, blockSize := 512, ioAlign := 4, lastBlock := 4095
      blockSize_pos := Nat.le_of_ble_eq_true rfl
      blockSize_lt := Nat.le_of_ble_eq_true rfl
      ioAlign_eq := .inr ⟨2, Nat.le_of_ble_eq_true rfl, rfl⟩
      lastBlock_lt := Nat.le_of_ble_eq_true rfl }
  first := 2048
  last := 4095
  blockSize := 512
  first_le := Nat.le_of_ble_eq_true rfl
  last_lt := Nat.le_of_ble_eq_true rfl
  blockSize_pos := Nat.le_of_ble_eq_true rfl
  blockSize_lt := Nat.le_of_ble_eq_true rfl

/-- A request behind the end of the address space comes back in at the start of the parent. -/
theorem Extent.not_isolates :
    ¬ ∀ (e : Extent) (mediaId : BitVec 32) (lba bufferSize : Nat) (buffer : Addr),
      lba < 2 ^ 64 → bufferSize < 2 ^ 64 → e.Isolates mediaId lba bufferSize buffer := by
  intro h
  have hread := (h smallExtent 0 (2 ^ 55 - 2048) 512 0 (by decide) (by decide)).1
    { access := .read, mediaId := 0, offset := 0, bufferSize := 512, buffer := 0 } (by decide)
  exact absurd hread.1.offset_eq (by decide)

end EfiCore.Disk
