import EfiCore.Fat.Mount
import EfiCore.Lib.Memory

/-! # The file allocation table

`fspace.c`, the functions for single entries and for free clusters, with `FatDiskIo` and
`FatSetVolumeDirty` of `misc.c`.

What is below `FatDiskIo` is a parameter: the cache of the volume, on a device whose calls may fail,
or the bytes that the cache shows.
-/

namespace EfiCore.Fat

open EfiCore.Lib

/-- What `FatDiskIo` and `FatSetVolumeDirty` use of what is below them. -/
structure Store (σ : Type) where
  /-- `Vol->Valid` -/
  valid : σ → Bool
  /-- `FatDiskIoReadVolume`, with the bytes of a read that succeeds. -/
  read : Nat → Nat → σ → Status × List Byte × σ
  /-- `FatDiskIoWriteVolume` -/
  write : Nat → List Byte → σ → Status × σ
  /-- `FatVolumeFlushCache` -/
  flush : σ → Status × σ

/-- The cache of the volume. -/
def cached (D : Drive) : Store Volume where
  valid v := v.valid
  read offset n v := v.fatDiskIoReadVolume D offset (List.replicate n 0)
  write offset bytes v := v.fatDiskIoWriteVolume D offset bytes
  flush v := v.fatVolumeFlushCache D

/-- Bytes, which are read and written without a failure. -/
def flat : Store (Nat → Byte) where
  valid _ := true
  read offset n m := (.success, bytesAt m offset n, m)
  write offset bytes m := (.success, putBytes m offset bytes)
  flush m := (.success, m)

/-- The fields of `FAT_VOLUME` that change, and what is below `FatDiskIo`. -/
structure Vol (σ : Type) where
  disk : σ
  diskError : Bool
  fatDirty : Bool
  dirtyValue : Nat
  free : FreeInfo
  fatEntryPos : Nat
  /-- The bytes of `FatEntryBuffer` that an entry takes. -/
  fatEntryBuffer : Nat

/-- A volume on bytes. -/
abbrev FlatVol := Vol (Nat → Byte)

namespace Vol

variable {σ : Type} (F : Store σ) (g : Geometry)

/-- The request leaves the volume. -/
def Outside (offset n : Nat) : Prop := g.volSize < (offset + n) % 2 ^ 64

instance (offset n : Nat) : Decidable (Outside g offset n) := inferInstanceAs (Decidable (_ < _))

/-- `FatDiskIo` with `READ_DISK`, with the bytes of a read that succeeds. -/
def fatDiskIoRead (offset n : Nat) (v : Vol σ) : Status × List Byte × Vol σ :=
  if ¬F.valid v.disk then (.mediaChanged, [], v)
  else if Outside g offset n then (.volumeCorrupted, [], v)
  else
    let r := F.read offset n v.disk
    (r.1, r.2.1, { v with disk := r.2.2 })

/-- `FatDiskIo` with `WRITE_DISK` -/
def fatDiskIoWrite (offset : Nat) (bytes : List Byte) (v : Vol σ) : Status × Vol σ :=
  if ¬F.valid v.disk then (.mediaChanged, v)
  else if Outside g offset bytes.length then (.volumeCorrupted, v)
  else
    let r := F.write offset bytes v.disk
    (r.1, { v with disk := r.2 })

end Vol

/-! ## Entries -/

namespace Geometry

variable (g : Geometry)

/-- The position of an entry in its FAT. -/
def entryOffset (index : Nat) : Nat :=
  match g.fatType with
  | .fat12 => index * 3 % 2 ^ g.arch.bits / 2
  | .fat16 => index * 2 % 2 ^ g.arch.bits
  | .fat32 => index * 4 % 2 ^ g.arch.bits

/-- `(UINT32)-1`, as far as an entry takes it. -/
def allOnes : Nat := 256 ^ g.fatEntrySize - 1

/-- What is above the entry's value in the buffer, and the value. -/
def entryValue (index buffer : Nat) : Nat :=
  match g.fatType with
  | .fat12 => if index % 2 = 1 then buffer / 16 else buffer % 4096
  | .fat16 => buffer
  | .fat32 => buffer % 2 ^ 28

/-- The mark of a bad cluster. -/
def badMark : Nat :=
  match g.fatType with
  | .fat12 => 0xFF7
  | .fat16 => 0xFFF7
  | .fat32 => 0x0FFFFFF7

/-- Values from the bad mark up are extended by ones: `Accum | (-1 & ~0xF)`. -/
def extend (accum : Nat) : Nat :=
  if g.badMark ≤ accum then 2 ^ g.arch.bits - 16 + accum % 16 else accum

/-- The buffer with a new value of the entry. -/
def patch (index value buffer : Nat) : Nat :=
  match g.fatType with
  | .fat12 =>
    if index % 2 = 1 then value % 4096 * 16 + buffer % 16
    else value % 4096 + buffer / 4096 * 4096
  | .fat16 => value % 2 ^ 16
  | .fat32 => buffer / 2 ^ 28 * 2 ^ 28 + value % 2 ^ 28

end Geometry

/-- What `FatSetFatEntry` does to the free info, with the value before. -/
def FreeInfo.note (info : FreeInfo) (index value origVal : Nat) : FreeInfo :=
  if value = 0 ∧ origVal ≠ 0 then
    { info with
      clusterCount := (info.clusterCount + 1) % 2 ^ 32
      nextCluster := if index < info.nextCluster then index % 2 ^ 32 else info.nextCluster }
  else if value ≠ 0 ∧ origVal = 0 then
    { info with clusterCount := if info.clusterCount ≠ 0 then info.clusterCount - 1 else 0 }
  else info

namespace Vol

variable {σ : Type} (F : Store σ) (g : Geometry)

/-- `FatLoadFatEntry` -/
def fatLoadFatEntry (index : Nat) (v : Vol σ) : Vol σ :=
  if g.lastCluster < index then { v with fatEntryBuffer := g.allOnes }
  else
    let pos := (g.fatPos + g.entryOffset index) % 2 ^ 64
    let r := fatDiskIoRead F g pos g.fatEntrySize { v with fatEntryPos := pos }
    if r.1.isError then { r.2.2 with fatEntryBuffer := g.allOnes, diskError := true }
    else { r.2.2 with fatEntryBuffer := leNat r.2.1 }

/-- `FatGetFatEntry` -/
def fatGetFatEntry (index : Nat) (v : Vol σ) : Nat × Vol σ :=
  let v := fatLoadFatEntry F g index v
  if g.lastCluster < index then (2 ^ g.arch.bits - 1, v)
  else (g.extend (g.entryValue index v.fatEntryBuffer), v)

/-- `FatSetVolumeDirty` with `TRUE` -/
def fatSetVolumeDirty (v : Vol σ) : Status × Vol σ :=
  let r :=
    match g.fatType with
    | .fat12 => (.success, v)
    | .fat16 => fatDiskIoWrite F g (g.fatPos + 2) (leBytes 2 v.dirtyValue) v
    | .fat32 => fatDiskIoWrite F g (g.fatPos + 4) (leBytes 4 v.dirtyValue) v
  if F.valid r.2.disk then
    let flushed := F.flush r.2.disk
    (flushed.1, { r.2 with disk := flushed.2 })
  else r

/-- The loop of `FatSetFatEntry`: the buffer is written to so many FATs, from this position on. -/
def writeFats : Nat → Nat → Vol σ → Status × Vol σ
  | 0, _, v => (.notFound, v)
  | n + 1, entryPos, v =>
    let r := fatDiskIoWrite F g entryPos (leBytes g.fatEntrySize v.fatEntryBuffer) v
    if r.1.isError then (r.1, { r.2 with diskError := true })
    else if n = 0 then r
    else writeFats n ((entryPos + g.fatSize) % 2 ^ 64) r.2

/-- `FatSetFatEntry` -/
def fatSetFatEntry (index value : Nat) (v : Vol σ) : Status × Vol σ :=
  if index < 2 then (.volumeCorrupted, v)
  else
    let r := fatGetFatEntry F g index v
    let v := { r.2 with free := FreeInfo.note r.2.free index value r.1 }
    let v := fatLoadFatEntry F g index v
    let v := { v with fatEntryBuffer := g.patch index value v.fatEntryBuffer }
    let v := if v.fatDirty then v else (fatSetVolumeDirty F g { v with fatDirty := true }).2
    writeFats F g g.noFats (v.fatEntryPos % 2 ^ g.arch.bits) v

/-! ## Free clusters -/

/-- The loop of `FatComputeFreeInfo`, down from the cluster `index`. -/
def countFree : Nat → Vol σ → Vol σ
  | 0, v => v
  | index + 1, v =>
    if index + 1 < 2 ∨ v.diskError then v
    else
      let r := fatGetFatEntry F g (index + 1) v
      let free := r.2.free
      countFree index
        (if r.1 = 0 then
          { r.2 with
            free :=
              { free with
                clusterCount := (free.clusterCount + 1) % 2 ^ 32
                nextCluster := (index + 1) % 2 ^ 32 } }
        else r.2)

/-- `FatComputeFreeInfo` -/
def fatComputeFreeInfo (v : Vol σ) : Vol σ :=
  if v.free.valid then v
  else
    countFree F g g.lastCluster { v with free := { v.free with valid := true, clusterCount := 0 } }

/-- The loop of `FatAllocateCluster`. -/
def allocateLoop : Nat → Vol σ → Option (Nat × Vol σ)
  | 0, _ => none
  | fuel + 1, v =>
    let v := if g.lastCluster < v.free.nextCluster then fatComputeFreeInfo F g v else v
    if g.lastCluster < v.free.nextCluster then some (g.clusterLast, v)
    else
      let r := fatGetFatEntry F g v.free.nextCluster v
      let next := { r.2 with
        free := { r.2.free with nextCluster := (r.2.free.nextCluster + 1) % 2 ^ 32 } }
      if r.1 = 0 then some (r.2.free.nextCluster, next) else allocateLoop fuel next

/-- `FatAllocateCluster`, if its loop ends within so many turns. -/
def fatAllocateCluster (fuel : Nat) (v : Vol σ) : Option (Nat × Vol σ) :=
  if v.diskError then some (g.clusterLast, v) else allocateLoop F g fuel v

end Vol

end EfiCore.Fat
