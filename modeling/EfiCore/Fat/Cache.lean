import EfiCore.Disk.DriverLib
import EfiCore.Lib.Bytes

/-! # The cache of a FAT volume

`cache.c` of the FAT driver.  Requests are split at the pages of the cache: what a request has of
its first and of its last page goes through the cache, the whole pages between them go to the
device directly.  A page that is written in the cache is marked dirty, and written back when it is
evicted or when the volume is flushed.

The device is a flat array of bytes whose calls may fail.
-/

namespace EfiCore.Fat

open EfiCore.Disk (driverLibMultU64x32 driverLibDivU64x32)
open EfiCore.Lib

/-- `FAT_CACHE_SIZE` -/
def fatCacheSize : Nat := 16

/-- `FAT_CACHE_PAGE_MAX_SIZE` -/
def fatCachePageMaxSize : Nat := 8 * 1024

/-! ## The device -/

/-- How a call of the device fails, and what it makes of the bytes it was to replace. -/
structure Fault where
  status : Status
  spoil : List Byte → List Byte
  isError : status.isError = true
  length_spoil : ∀ bytes, (spoil bytes).length = bytes.length

/-- What the volume is on, and which calls of its `DiskIo` fail. -/
structure Drive where
  arch : Arch
  mediaId : BitVec 32
  readOnly : Bool
  fate : Nat → Option Fault

structure Device where
  disk : List Byte
  /-- How many calls were made. -/
  calls : Nat

namespace Device

variable (D : Drive)

/-- `DiskIo->ReadDisk`: the status, and the buffer after it. -/
def readDisk (offset : Nat) (buffer : List Byte) (d : Device) : Status × List Byte × Device :=
  match D.fate d.calls with
  | none => (.success, slice d.disk offset buffer.length, { d with calls := d.calls + 1 })
  | some fault => (fault.status, fault.spoil buffer, { d with calls := d.calls + 1 })

/-- `DiskIo->WriteDisk` -/
def writeDisk (offset : Nat) (bytes : List Byte) (d : Device) : Status × Device :=
  match D.fate d.calls with
  | none => (.success, ⟨splice d.disk offset bytes, d.calls + 1⟩)
  | some fault =>
    (fault.status,
      ⟨splice d.disk offset (fault.spoil (slice d.disk offset bytes.length)), d.calls + 1⟩)

end Device

/-! ## The cache -/

/-- `CACHE_BUFFER` -/
structure CacheBuffer where
  valid : Bool
  dirty : Bool
  pageNo : Nat
  lru : Nat
  data : List Byte
  deriving Inhabited

/-- The fields of `FAT_VOLUME` that the cache uses. -/
structure Volume where
  valid : Bool
  mediaId : BitVec 32
  cachePageSize : Nat
  cache : List CacheBuffer
  device : Device

namespace Volume

variable (D : Drive)

def entry (v : Volume) (index : Nat) : CacheBuffer := v.cache.getD index default

def setEntry (v : Volume) (index : Nat) (c : CacheBuffer) : Volume :=
  { v with cache := v.cache.set index c }

/-- Where a page is on the device. -/
def pageOffset (v : Volume) (pageNo : Nat) : Nat := driverLibMultU64x32 pageNo v.cachePageSize

end Volume

/-- What the search for a page has seen. -/
structure Tally where
  maxLru : Nat
  minLru : Nat
  minLruIndex : Nat
  freeIndex : Option Nat

/-- A valid entry that holds another page. -/
def Tally.note (index lru : Nat) (tally : Tally) : Tally :=
  let tally := if tally.maxLru < lru then { tally with maxLru := lru } else tally
  if lru < tally.minLru then { tally with minLru := lru, minLruIndex := index } else tally

/-- The search of `FatGetCacheBuffer`: the index of the page, or what was seen on the way. -/
def search (pageNo : Nat) : List CacheBuffer → Nat → Tally → Nat ⊕ Tally
  | [], _, tally => .inr tally
  | c :: cs, index, tally =>
    if c.valid then
      if c.pageNo = pageNo then .inl index
      else search pageNo cs (index + 1) (tally.note index c.lru)
    else search pageNo cs (index + 1) { tally with freeIndex := some index }

namespace Volume

variable (D : Drive)

/-- Write an entry back that is to be replaced.  A failure is not returned, in case the media is
    read-only. -/
def writeBack (index : Nat) (v : Volume) : Volume :=
  let c := v.entry index
  if c.valid && c.dirty then
    let (status, device) := v.device.writeDisk D (v.pageOffset c.pageNo) c.data
    if status.isError then { (v.setEntry index { c with valid := false }) with device }
    else { v with device }
  else v

/-- Read a page into an entry. -/
def load (index pageNo lru : Nat) (v : Volume) : Except Status Nat × Volume :=
  let c := v.entry index
  if v.valid then
    let (status, data, device) := v.device.readDisk D (v.pageOffset pageNo) c.data
    if status.isError then (.error status, { (v.setEntry index { c with data }) with device })
    else (.ok index, { (v.setEntry index ⟨true, false, pageNo, lru, data⟩) with device })
  else (.error .mediaChanged, v)

/-- `FatGetCacheBuffer`: the index of the entry that holds the page. -/
def fatGetCacheBuffer (pageNo : Nat) (v : Volume) : Except Status Nat × Volume :=
  match search pageNo v.cache 0 ⟨0, 2 ^ D.arch.bits - 1, 0, none⟩ with
  | .inl index =>
    let c := v.entry index
    (.ok index, v.setEntry index { c with lru := D.arch.add c.lru 1 })
  | .inr tally =>
    let index := tally.freeIndex.getD tally.minLruIndex
    (v.writeBack D index).load D index pageNo tally.maxLru

/-- `FatCacheFlushRange` -/
def fatCacheFlushRange (startPageNo endPageNo : Nat) (v : Volume) : Volume :=
  { v with
    cache := v.cache.map fun c =>
      if startPageNo ≤ c.pageNo ∧ c.pageNo ≤ endPageNo then { c with valid := false } else c }

/-- The whole pages in `n` bytes, and the bytes behind them. -/
def split (n : Nat) (v : Volume) : Nat × Nat :=
  ((driverLibDivU64x32 D.arch n v.cachePageSize).1 % 2 ^ D.arch.bits,
    (driverLibDivU64x32 D.arch n v.cachePageSize).2)

/-! ## Reading -/

/-- The part of the last page; `status` is that of the parts before. -/
def readOverRun (pageNo done overRun : Nat) (status : Status) (buffer : List Byte) (v : Volume) :
    Status × List Byte × Volume :=
  if overRun ≠ 0 then
    match v.fatGetCacheBuffer D pageNo with
    | (.error status, v) => (status, buffer, v)
    | (.ok index, v) =>
      (.success, splice buffer done (slice (v.entry index).data 0 overRun), v)
  else (status, buffer, v)

/-- The whole pages. -/
def readDirect (pageNo done size : Nat) (buffer : List Byte) (v : Volume) :
    Status × List Byte × Volume :=
  let (status, bytes, device) :=
    v.device.readDisk D (v.pageOffset pageNo) (slice buffer done size)
  (status, splice buffer done bytes, { v with device })

/-- All of a request but the part of the first page, of which `done` bytes were read. -/
def readRest (pageNo done : Nat) (buffer : List Byte) (v : Volume) : Status × List Byte × Volume :=
  let rest := buffer.length - done
  let (pages, overRun) := v.split D rest
  let overRunPageNo := D.arch.add pageNo pages
  if v.cachePageSize ≤ rest then
    let (status, buffer, v) := v.readDirect D pageNo done (rest - overRun) buffer
    if v.valid then v.readOverRun D overRunPageNo (done + (rest - overRun)) overRun status buffer
    else (.mediaChanged, buffer, v)
  else v.readOverRun D overRunPageNo done overRun .success buffer

/-- `FatDiskIoReadVolume` -/
def fatDiskIoReadVolume (offset : Nat) (buffer : List Byte) (v : Volume) :
    Status × List Byte × Volume :=
  if D.mediaId ≠ v.mediaId then (.mediaChanged, buffer, v)
  else if !v.valid then (.mediaChanged, buffer, v)
  else
    let (pageNo, underRun) := v.split D offset
    if underRun ≠ 0 then
      match v.fatGetCacheBuffer D pageNo with
      | (.error status, v) => (status, buffer, v)
      | (.ok index, v) =>
        let length := min (v.cachePageSize - underRun) buffer.length
        let buffer := splice buffer 0 (slice (v.entry index).data underRun length)
        if length = buffer.length then (.success, buffer, v)
        else v.readRest D (D.arch.add pageNo 1) length buffer
    else v.readRest D pageNo 0 buffer

/-! ## Writing -/

/-- `EfiCopyMem` into an entry, which is dirty from then on. -/
def modify (index target : Nat) (bytes : List Byte) (v : Volume) : Volume :=
  let c := v.entry index
  v.setEntry index { c with data := splice c.data target bytes, dirty := true }

def writeOverRun (pageNo done overRun : Nat) (status : Status) (bytes : List Byte) (v : Volume) :
    Status × Volume :=
  if overRun ≠ 0 then
    match v.fatGetCacheBuffer D pageNo with
    | (.error status, v) => (status, v)
    | (.ok index, v) => (.success, v.modify index 0 (slice bytes done overRun))
  else (status, v)

/-- The whole pages. -/
def writeDirect (pageNo done size : Nat) (bytes : List Byte) (v : Volume) : Status × Volume :=
  let (status, device) := v.device.writeDisk D (v.pageOffset pageNo) (slice bytes done size)
  (status, { v with device })

def writeRest (pageNo done : Nat) (bytes : List Byte) (v : Volume) : Status × Volume :=
  let rest := bytes.length - done
  let (pages, overRun) := v.split D rest
  let overRunPageNo := D.arch.add pageNo pages
  if v.cachePageSize ≤ rest then
    let (status, v) := v.writeDirect D pageNo done (rest - overRun) bytes
    if v.valid then
      (v.fatCacheFlushRange pageNo overRunPageNo).writeOverRun D overRunPageNo
        (done + (rest - overRun)) overRun status bytes
    else (.mediaChanged, v)
  else v.writeOverRun D overRunPageNo done overRun .success bytes

/-- `FatDiskIoWriteVolume` -/
def fatDiskIoWriteVolume (offset : Nat) (bytes : List Byte) (v : Volume) : Status × Volume :=
  if D.readOnly then (.writeProtected, v)
  else if D.mediaId ≠ v.mediaId then (.mediaChanged, v)
  else if !v.valid then (.mediaChanged, v)
  else
    let (pageNo, underRun) := v.split D offset
    if underRun ≠ 0 then
      match v.fatGetCacheBuffer D pageNo with
      | (.error status, v) => (status, v)
      | (.ok index, v) =>
        let length := min (v.cachePageSize - underRun) bytes.length
        let v := v.modify index underRun (slice bytes 0 length)
        if length = bytes.length then (.success, v)
        else v.writeRest D (D.arch.add pageNo 1) length bytes
    else v.writeRest D pageNo 0 bytes

/-! ## Flushing -/

/-- The loop of `FatVolumeFlushCache`. -/
def flushEntries (cachePageSize : Nat) :
    List CacheBuffer → Device → Status × List CacheBuffer × Device
  | [], d => (.success, [], d)
  | c :: cs, d =>
    if c.valid && c.dirty then
      let (status, d) := d.writeDisk D (driverLibMultU64x32 c.pageNo cachePageSize) c.data
      if status.isError then (status, { c with valid := false } :: cs, d)
      else
        let (status, cs, d) := flushEntries cachePageSize cs d
        (status, { c with dirty := false } :: cs, d)
    else
      let (status, cs, d) := flushEntries cachePageSize cs d
      (status, c :: cs, d)

/-- `FatVolumeFlushCache` -/
def fatVolumeFlushCache (v : Volume) : Status × Volume :=
  if v.valid then
    let (status, cache, device) := flushEntries D v.cachePageSize v.cache v.device
    (status, { v with cache, device })
  else (.mediaChanged, v)

end Volume

/-! ## Requests -/

inductive Request where
  | read (offset : Nat) (buffer : List Byte)
  | write (offset : Nat) (bytes : List Byte)

/-- The status of a request, and the buffer after a read. -/
structure Answer where
  status : Status
  buffer : List Byte
  deriving DecidableEq

def Request.perform (D : Drive) (v : Volume) : Request → Answer × Volume
  | .read offset buffer =>
    let (status, buffer, v) := v.fatDiskIoReadVolume D offset buffer
    (⟨status, buffer⟩, v)
  | .write offset bytes =>
    let (status, v) := v.fatDiskIoWriteVolume D offset bytes
    (⟨status, []⟩, v)

def performAll (D : Drive) : List Request → Volume → List Answer × Volume
  | [], v => ([], v)
  | r :: rs, v =>
    let (answer, v) := r.perform D v
    let (answers, v) := performAll D rs v
    (answer :: answers, v)

end EfiCore.Fat
