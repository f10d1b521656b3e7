import EfiCore.Disk.BlockIo

/-! # Byte-granular access to a block device

`DiskIoReadDisk` and `DiskIoWriteDisk` of `diskio.c`.  A request is split into the rest of a
block it begins in, whole blocks, and the start of the block it ends in; the first and the last
part, and the middle when the caller's buffer is not aligned, go through a temporary buffer.

The result is the state at `Done`, with the `Status` where that is an error.
-/

namespace EfiCore.Disk

open EfiCore.Lib

/-- `DATA_BUFFER_BLOCK_NUM` -/
def dataBufferBlockNum : Nat := 64

/-- A pool allocation: where it is and what happens to be in it. -/
structure PoolBlock where
  address : Addr
  bytes : Nat → Byte

/-- What the two functions are called with, and what does not change during a call. -/
structure Context where
  arch : Arch
  media : Media
  /-- The address of the caller's buffer. -/
  buffer : Addr
  /-- `PreData` -/
  preData : PoolBlock

/-- What a call works on. -/
structure Work where
  device : Device
  /-- The caller's buffer. -/
  buffer : List Byte
  /-- The allocation from `Data` on. -/
  data : List Byte

abbrev Result := Except (Stop × Work) Work

namespace Context

variable (c : Context)

/-- `DataBufferSize = BlockSize * DATA_BUFFER_BLOCK_NUM`, a product of `UINT32`s. -/
def dataBufferSize : Nat := c.media.blockSize * dataBufferBlockNum % 2 ^ 32

/-- The size of the allocation. -/
def poolSize : Nat :=
  if 1 < c.media.ioAlign then c.dataBufferSize + c.media.ioAlign else c.dataBufferSize

/-- `Data - PreData` -/
def dataOffset : Nat :=
  if 1 < c.media.ioAlign then c.media.ioAlign - (c.preData.address &&& (c.media.ioAlign - 1))
  else 0

/-- `Data` -/
def dataAddress : Addr := (c.preData.address + c.dataOffset) % 2 ^ c.arch.bits

/-- How much of the allocation lies behind `Data`; its size is a `UINTN`. -/
def capacity : Nat := c.poolSize % 2 ^ c.arch.bits - c.dataOffset

/-- The temporary buffer. -/
def initialData : List Byte :=
  (List.range c.capacity).map fun i => c.preData.bytes (c.dataOffset + i)

/-- `Media->IoAlign <= 1 || IsBufferAligned == 0`, for the caller's buffer from `done` on. -/
def isBufferAligned (done : Nat) : Bool :=
  decide (c.media.ioAlign ≤ 1) || (c.buffer + done) &&& (c.media.ioAlign - 1) = 0

end Context

namespace Work

variable (c : Context)

/-- `ReadBlocks` into the temporary buffer. -/
def readData (lba size : Nat) (w : Work) : Result :=
  match w.device.readBlocks c.media lba size c.dataAddress with
  | (.error stop, device) => .error (stop, { w with device })
  | (.ok bytes, device) =>
    if size ≤ w.data.length then .ok { w with device, data := splice w.data 0 bytes }
    else .error (.overrun, { w with device })

/-- `ReadBlocks` into the caller's buffer. -/
def readBuffer (lba size done : Nat) (w : Work) : Result :=
  match w.device.readBlocks c.media lba size (c.buffer + done) with
  | (.error stop, device) => .error (stop, { w with device })
  | (.ok bytes, device) =>
    if done + size ≤ w.buffer.length then .ok { w with device, buffer := splice w.buffer done bytes }
    else .error (.overrun, { w with device })

/-- `WriteBlocks` from the temporary buffer. -/
def writeData (lba size : Nat) (w : Work) : Result :=
  if size ≤ w.data.length then
    match w.device.writeBlocks c.media lba c.dataAddress (slice w.data 0 size) with
    | (.error stop, device) => .error (stop, { w with device })
    | (.ok (), device) => .ok { w with device }
  else .error (.overrun, w)

/-- `WriteBlocks` from the caller's buffer. -/
def writeBuffer (lba size done : Nat) (w : Work) : Result :=
  if done + size ≤ w.buffer.length then
    match w.device.writeBlocks c.media lba (c.buffer + done) (slice w.buffer done size) with
    | (.error stop, device) => .error (stop, { w with device })
    | (.ok (), device) => .ok { w with device }
  else .error (.overrun, w)

/-- `EfiCopyMem (WorkingBuffer, Data + from, Length)` -/
def copyOut (source done length : Nat) (w : Work) : Result :=
  if source + length ≤ w.data.length ∧ done + length ≤ w.buffer.length then
    .ok { w with buffer := splice w.buffer done (slice w.data source length) }
  else .error (.overrun, w)

/-- `EfiCopyMem (Data + to, WorkingBuffer, Length)` -/
def copyIn (target done length : Nat) (w : Work) : Result :=
  if target + length ≤ w.data.length ∧ done + length ≤ w.buffer.length then
    .ok { w with data := splice w.data target (slice w.buffer done length) }
  else .error (.overrun, w)

/-! ## Reading -/

/-- The loop over an unaligned buffer, at most `fuel` turns of it. -/
def readLoop : Nat → Nat → Nat → Nat → Work → Result
  | 0, _, _, _, w => .error (.hang, w)
  | fuel + 1, lba, done, size, w =>
    if size ≤ c.dataBufferSize then do
      let w ← w.readData c lba size
      w.copyOut 0 done size
    else do
      let w ← w.readData c lba c.dataBufferSize
      let w ← w.copyOut 0 done c.dataBufferSize
      readLoop fuel ((lba + dataBufferBlockNum) % 2 ^ 64) (done + c.dataBufferSize)
        (size - c.dataBufferSize) w

/-- The whole blocks of a request, if it has any. -/
def readAligned (lba done size : Nat) (w : Work) : Result :=
  if size = 0 then .ok w
  else if c.isBufferAligned done then w.readBuffer c lba size done
  else w.readLoop c (size + 1) lba done size

/-- The start of the block a request ends in. -/
def readOverRun (lba done overRun : Nat) (w : Work) : Result :=
  if overRun ≠ 0 then do
    let w ← w.readData c lba c.media.blockSize
    w.copyOut 0 done overRun
  else .ok w

/-- All of a request but the rest of the block it begins in, of which `done` bytes were read. -/
def readRest (lba done : Nat) (w : Work) : Result := do
  let rest := w.buffer.length - done
  let (blocks, overRun) := driverLibDivU64x32 c.arch rest c.media.blockSize
  let aligned := if c.media.blockSize ≤ rest then rest - overRun else 0
  let w ← w.readAligned c lba done aligned
  w.readOverRun c ((lba + blocks) % 2 ^ 64) (done + aligned) overRun

/-- A request from the byte `underRun` of the block `lba` on. -/
def readFrom (lba underRun : Nat) (w : Work) : Result :=
  if underRun ≠ 0 then do
    -- `TransactionComplete` is set only where `Length` is all there is, and then nothing is left
    let length := min (c.media.blockSize - underRun) w.buffer.length
    let w ← w.readData c lba c.media.blockSize
    let w ← w.copyOut underRun 0 length
    if w.buffer.length - length = 0 then return w
    w.readRest c ((lba + 1) % 2 ^ 64) length
  else w.readRest c lba 0

/-! ## Writing -/

def writeLoop : Nat → Nat → Nat → Nat → Work → Result
  | 0, _, _, _, w => .error (.hang, w)
  | fuel + 1, lba, done, size, w =>
    if size ≤ c.dataBufferSize then do
      let w ← w.copyIn 0 done size
      w.writeData c lba size
    else do
      let w ← w.copyIn 0 done c.dataBufferSize
      let w ← w.writeData c lba c.dataBufferSize
      writeLoop fuel ((lba + dataBufferBlockNum) % 2 ^ 64) (done + c.dataBufferSize)
        (size - c.dataBufferSize) w

def writeAligned (lba done size : Nat) (w : Work) : Result :=
  if size = 0 then .ok w
  else if c.isBufferAligned done then w.writeBuffer c lba size done
  else w.writeLoop c (size + 1) lba done size

/-- Read a block, modify it and write it back. -/
def modifyBlock (lba target done length : Nat) (w : Work) : Result := do
  let w ← w.readData c lba c.media.blockSize
  let w ← w.copyIn target done length
  w.writeData c lba c.media.blockSize

def writeRest (lba done : Nat) (w : Work) : Result := do
  let rest := w.buffer.length - done
  let (blocks, overRun) := driverLibDivU64x32 c.arch rest c.media.blockSize
  let aligned := if c.media.blockSize ≤ rest then rest - overRun else 0
  let w ← w.writeAligned c lba done aligned
  if overRun ≠ 0 then w.modifyBlock c ((lba + blocks) % 2 ^ 64) 0 (done + aligned) overRun
  else .ok w

def writeFrom (lba underRun : Nat) (w : Work) : Result :=
  if underRun ≠ 0 then do
    let length := min (c.media.blockSize - underRun) w.buffer.length
    let w ← w.modifyBlock c lba underRun 0 length
    if w.buffer.length - length = 0 then return w
    w.writeRest c ((lba + 1) % 2 ^ 64) length
  else w.writeRest c lba 0

end Work

/-! ## The protocol -/

variable (A : Arch) (m : Media)

def diskIoReadDisk (pool : Option PoolBlock) (mediaId : BitVec 32) (offset : Nat) (buffer : Addr)
    (bytes : List Byte) (d : Device) : Result :=
  if m.mediaId ≠ mediaId then .error (.error .mediaChanged, ⟨d, bytes, []⟩)
  else
    match pool with
    | none => .error (.error .outOfResources, ⟨d, bytes, []⟩)
    | some preData =>
      let c : Context := ⟨A, m, buffer, preData⟩
      let (lba, underRun) := driverLibDivU64x32 A offset m.blockSize
      Work.readFrom c lba underRun ⟨d, bytes, c.initialData⟩

def diskIoWriteDisk (pool : Option PoolBlock) (mediaId : BitVec 32) (offset : Nat) (buffer : Addr)
    (bytes : List Byte) (d : Device) : Result :=
  if m.readOnly then .error (.error .writeProtected, ⟨d, bytes, []⟩)
  else if m.mediaId ≠ mediaId then .error (.error .mediaChanged, ⟨d, bytes, []⟩)
  else
    match pool with
    | none => .error (.error .outOfResources, ⟨d, bytes, []⟩)
    | some preData =>
      let c : Context := ⟨A, m, buffer, preData⟩
      let (lba, underRun) := driverLibDivU64x32 A offset m.blockSize
      Work.writeFrom c lba underRun ⟨d, bytes, c.initialData⟩

end EfiCore.Disk
