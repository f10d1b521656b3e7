import EfiCore.Lib.Bytes
import EfiCore.Disk.DriverLib

/-! # Block devices

A device is the bytes it holds.  Its `ReadBlocks` and `WriteBlocks` transfer whole blocks; a
request that is not made of whole blocks, that leaves the device, or whose buffer is not aligned
is answered with an error.  `Device.requests` keeps what was asked of the device.
-/

namespace EfiCore.Disk

open EfiCore.Lib

/-- `EFI_BLOCK_IO_MEDIA` -/
structure Media where
  mediaId : BitVec 32
  readOnly : Bool
  blockSize : Nat
  ioAlign : Nat
  lastBlock : Nat
  blockSize_pos : 0 < blockSize
  blockSize_lt : blockSize < 2 ^ 32
  ioAlign_eq : ioAlign = 0 ∨ ∃ k < 32, ioAlign = 2 ^ k
  lastBlock_lt : lastBlock < 2 ^ 64

/-- The bytes of the device. -/
def Media.size (m : Media) : Nat := (m.lastBlock + 1) * m.blockSize

inductive Access where
  | read
  | write
  deriving DecidableEq, Repr

/-- What `ReadBlocks` or `WriteBlocks` is asked for. -/
structure Request where
  access : Access
  lba : Nat
  bufferSize : Nat
  /-- The address of the buffer. -/
  buffer : Addr
  deriving DecidableEq, Repr

/-- The request is for whole blocks of the device, with a buffer the device can use. -/
structure Request.WellFormed (m : Media) (r : Request) : Prop where
  whole : r.bufferSize % m.blockSize = 0
  inside : r.lba * m.blockSize + r.bufferSize ≤ m.size
  aligned : m.ioAlign ≤ 1 ∨ r.buffer % m.ioAlign = 0

instance (m : Media) (r : Request) : Decidable (r.WellFormed m) :=
  decidable_of_iff
    (r.bufferSize % m.blockSize = 0 ∧ r.lba * m.blockSize + r.bufferSize ≤ m.size ∧
      (m.ioAlign ≤ 1 ∨ r.buffer % m.ioAlign = 0))
    ⟨fun h => ⟨h.1, h.2.1, h.2.2⟩, fun h => ⟨h.whole, h.inside, h.aligned⟩⟩

structure Device where
  content : List Byte
  /-- The requests, the latest first. -/
  requests : List Request

/-- Why a transfer ended early. -/
inductive Stop where
  /-- `goto Done` with an error. -/
  | error (status : Status)
  /-- An access outside the temporary buffer or the caller's. -/
  | overrun
  /-- A loop that makes no progress. -/
  | hang
  deriving DecidableEq, Repr

/-- What the device answers to a request that is not well formed. -/
def Request.refusal (m : Media) (r : Request) : Status :=
  if r.bufferSize % m.blockSize ≠ 0 then .badBufferSize else .invalidParameter

namespace Device

def issue (r : Request) (d : Device) : Device := { d with requests := r :: d.requests }

/-- `BlockIo->ReadBlocks`: the bytes it puts into the buffer. -/
def readBlocks (m : Media) (lba bufferSize : Nat) (buffer : Addr) (d : Device) :
    Except Stop (List Byte) × Device :=
  let r : Request := ⟨.read, lba, bufferSize, buffer⟩
  (if r.WellFormed m then .ok (slice d.content (lba * m.blockSize) bufferSize)
    else .error (.error (r.refusal m)), d.issue r)

/-- `BlockIo->WriteBlocks`, with the bytes of the buffer. -/
def writeBlocks (m : Media) (lba : Nat) (buffer : Addr) (bytes : List Byte) (d : Device) :
    Except Stop Unit × Device :=
  let r : Request := ⟨.write, lba, bytes.length, buffer⟩
  if r.WellFormed m then
    (.ok (), { (d.issue r) with content := splice d.content (lba * m.blockSize) bytes })
  else (.error (.error (r.refusal m)), d.issue r)

end Device

end EfiCore.Disk
