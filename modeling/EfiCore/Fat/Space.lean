import EfiCore.Fat.Table
import EfiCore.Disk.DriverLib

/-! # The clusters of a file

`fspace.c`, the functions for the chain of a file, and `FatOFilePosition`, `FatOFileRead` and
`FatOFileWrite` of `rw.c`.

The loops that go along a chain have no bound of their own: such a function has a result if they
come to an end within so many turns.
-/

namespace EfiCore.Fat

open EfiCore.Disk (driverLibDivU64x32 driverLibMultU64x32)
open EfiCore.Lib

/-- The fields of `FAT_OFILE` that belong to the data of the file. -/
structure OFile where
  fileSize : Nat
  fileCluster : Nat
  fileCurrentCluster : Nat
  fileLastCluster : Nat
  attributes : Nat
  isFixedRootDir : Bool
  dirty : Bool
  position : Nat
  posDisk : Nat
  posRem : Nat
  deriving DecidableEq, Repr

/-- `FatSizeToClusters` -/
def Geometry.fatSizeToClusters (g : Geometry) (size : Nat) : Nat :=
  let r := driverLibDivU64x32 g.arch size g.clusterSize
  let clusters := r.1 % 2 ^ g.arch.bits
  if r.2 ≠ 0 then g.arch.add clusters 1 else clusters

namespace Vol

variable {σ : Type} (F : Store σ) (g : Geometry)

/-! ## FatShrinkEof -/

/-- The loop that finds the last of the clusters that stay: that cluster, and what follows it. -/
def findLast : Nat → Nat → Nat → Vol σ → Option (Nat × Nat) × Vol σ
  | 0, lastCluster, cluster, v => (some (lastCluster, cluster), v)
  | n + 1, _, cluster, v =>
    if g.Corrupt cluster then (none, v)
    else
      let r := fatGetFatEntry F g cluster v
      findLast n cluster r.1 r.2

/-- The loop that frees the rest of the chain. -/
def freeChain : Nat → Nat → Vol σ → Option (Status × Vol σ)
  | 0, _, _ => none
  | fuel + 1, cluster, v =>
    if g.EndOfFatChain cluster then some (.success, v)
    else if g.Corrupt cluster then some (.volumeCorrupted, v)
    else
      let r := fatGetFatEntry F g cluster v
      freeChain fuel r.1 (fatSetFatEntry F g cluster 0 r.2).2

/-- `FatShrinkEof` -/
def fatShrinkEof (fuel : Nat) (f : OFile) (v : Vol σ) : Option (Status × OFile × Vol σ) :=
  let newSize := g.fatSizeToClusters f.fileSize
  let cluster := f.fileCluster
  let f := { f with dirty := true }
  if newSize ≠ 0 then
    let r := findLast F g newSize 0 cluster v
    r.1.elim (some (.volumeCorrupted, f, r.2)) fun found =>
      let f := { f with fileCurrentCluster := f.fileCluster, fileLastCluster := found.1 }
      let v := (fatSetFatEntry F g found.1 g.clusterLast r.2).2
      (freeChain F g fuel found.2 v).map fun r => (r.1, f, r.2)
  else if cluster = 0 then some (.success, f, v)
  else
    let f := { f with fileCluster := 0, fileCurrentCluster := 0, fileLastCluster := 0 }
    (freeChain F g fuel cluster v).map fun r => (r.1, f, r.2)

/-! ## FatGrowEof -/

/-- The loop that looks for the last cluster: whether the chain is not corrupt, `FileLastCluster`
    and the number of clusters. -/
def findEnd : Nat → Nat → Nat → Nat → Vol σ → Option ((Bool × Nat × Nat) × Vol σ)
  | 0, _, _, _, _ => none
  | fuel + 1, fileLastCluster, clusterCount, cluster, v =>
    if g.EndOfFatChain cluster then some ((true, fileLastCluster, clusterCount), v)
    else if g.Corrupt cluster then some ((false, fileLastCluster, clusterCount), v)
    else
      let r := fatGetFatEntry F g cluster v
      findEnd fuel cluster (g.arch.add clusterCount 1) r.1 r.2

/-- The loop that allocates `n` clusters behind `lastCluster`. -/
def growChain (fuel : Nat) : Nat → Nat → OFile → Vol σ → Option (Status × OFile × Vol σ)
  | 0, lastCluster, f, v =>
    some (.success, { f with fileLastCluster := lastCluster },
      (fatSetFatEntry F g lastCluster g.clusterLast v).2)
  | n + 1, lastCluster, f, v =>
    (fatAllocateCluster F g fuel v).bind fun r =>
      if g.EndOfFatChain r.1 then
        if lastCluster ≠ 0 then
          some (.volumeFull, { f with fileLastCluster := lastCluster },
            (fatSetFatEntry F g lastCluster g.clusterLast r.2).2)
        else some (.volumeFull, f, r.2)
      else if lastCluster ≠ 0 then
        growChain fuel n r.1 f (fatSetFatEntry F g lastCluster r.1 r.2).2
      else
        growChain fuel n r.1
          { f with fileCluster := r.1, fileCurrentCluster := r.1, dirty := true } r.2

/-- `FatGrowEof` -/
def fatGrowEof (fuel newSizeInBytes : Nat) (f : OFile) (v : Vol σ) :
    Option (Status × OFile × Vol σ) :=
  let curSize := g.fatSizeToClusters f.fileSize
  let newSize := g.fatSizeToClusters newSizeInBytes
  if newSize ≤ curSize then some (.success, f, v)
  else if f.fileCluster ≠ 0 ∧ f.fileLastCluster = 0 then
    (findEnd F g fuel f.fileLastCluster 0 f.fileCluster v).bind fun r =>
      let f := { f with fileLastCluster := r.1.2.1 }
      if ¬r.1.1 ∨ r.1.2.2 ≠ curSize then some (.volumeCorrupted, f, r.2)
      else growChain F g fuel (newSize - curSize) f.fileLastCluster f r.2
  else growChain F g fuel (newSize - curSize) f.fileLastCluster f v

/-! ## FatDirSize -/

/-- The loop that adds up the clusters of a directory. -/
def addClusters : Nat → Nat → Nat → Vol σ → Option (Nat × Vol σ)
  | 0, _, _, _ => none
  | fuel + 1, size, cluster, v =>
    if g.EndOfFatChain cluster then some (size, v)
    else if g.Corrupt cluster then some (0, v)
    else
      let r := fatGetFatEntry F g cluster v
      addClusters fuel ((size + g.clusterSize) % 2 ^ 64) r.1 r.2

/-- `FatDirSize` -/
def fatDirSize (fuel : Nat) (f : OFile) (v : Vol σ) : Option (Nat × Vol σ) :=
  if f.isFixedRootDir then some (g.rootEntries * 32 % 2 ^ 64, v)
  else if f.fileCluster = 0 then some (0, v)
  else addClusters F g fuel 0 f.fileCluster v

/-! ## FatOFilePosition -/

/-- The loop that goes to the cluster of a position: that cluster, and where it begins. -/
def seek (position : Nat) : Nat → Nat → Nat → Vol σ → Option (Option (Nat × Nat) × Vol σ)
  | 0, _, _, _ => none
  | fuel + 1, pos, cluster, v =>
    if g.Corrupt cluster then some (none, v)
    else if position < (pos + g.clusterSize) % 2 ^ 64 then some (some (cluster, pos), v)
    else
      let r := fatGetFatEntry F g cluster v
      seek position fuel ((pos + g.clusterSize) % 2 ^ 64) r.1 r.2

/-- The loop over the consecutive clusters. -/
def extendRun : Nat → Nat → Nat → Vol σ → Option (Nat × Vol σ)
  | 0, _, _, _ => none
  | fuel + 1, run, cluster, v =>
    let r := fatGetFatEntry F g cluster v
    if r.1 = g.arch.add cluster 1 then
      extendRun fuel ((run + g.clusterSize) % 2 ^ 64) (g.arch.add cluster 1) r.2
    else some (run, r.2)

/-- `EFI_MAX_ADDRESS` -/
def maxAddress : Arch → Nat
  | .efi32 => 2 ^ 32 - 1
  | .efi64 => 2 ^ 64 - 1

/-- Where `FatOFilePosition` begins to go along the chain. -/
def seekStart (f : OFile) (position : Nat) : Nat × Nat :=
  if position < f.position ∨ f.fileCluster = f.fileCurrentCluster then (0, f.fileCluster)
  else
    (f.position - (driverLibDivU64x32 g.arch f.position g.clusterSize).2, f.fileCurrentCluster)

/-- `FatOFilePosition` -/
def fatOFilePosition (fuel position : Nat) (f : OFile) (v : Vol σ) :
    Option (Status × OFile × Vol σ) :=
  if f.isFixedRootDir then
    some
      (.success,
        { f with
          posDisk := (g.rootPos + position) % 2 ^ 64
          posRem := (f.fileSize + 2 ^ 64 - position) % 2 ^ 64 % 2 ^ g.arch.bits
          position := position }, v)
  else
    let start := seekStart g f position
    (seek F g position fuel start.1 start.2 v).bind fun r =>
      r.1.elim (some (.volumeCorrupted, f, r.2)) fun found =>
        let cluster := found.1
        let pos := found.2
        if cluster < 2 then some (.volumeCorrupted, f, r.2)
        else
          let posDisk := (g.firstClusterPos + driverLibMultU64x32 (cluster - 2) g.clusterSize +
            position + 2 ^ 64 - pos) % 2 ^ 64
          (extendRun F g fuel ((pos + g.clusterSize) % 2 ^ 64) cluster r.2).map fun e =>
            let run := (e.1 + 2 ^ 64 - position) % 2 ^ 64
            (.success,
              { f with
                posDisk := posDisk
                position := position
                fileCurrentCluster := cluster
                posRem := min run (maxAddress g.arch) }, e.2)

/-! ## Reading and writing -/

/-- `FatOFileRead`, with the bytes that were read. -/
def fatOFileRead (fuel : Nat) :
    Nat → Nat → Nat → OFile → Vol σ → Option (Status × List Byte × OFile × Vol σ)
  | 0, _, _, _, _ => none
  | turns + 1, position, size, f, v =>
    if size = 0 then some (.success, [], f, v)
    else
      (fatOFilePosition F g fuel position f v).bind fun r =>
        let f := r.2.1
        if r.1.isError then some (r.1, [], f, r.2.2)
        else
          let len := min size f.posRem
          let io := fatDiskIoRead F g f.posDisk len r.2.2
          if io.1.isError then some (io.1, [], f, io.2.2)
          else
            (fatOFileRead fuel turns ((position + len) % 2 ^ 64) (size - len) f io.2.2).map fun r =>
              (r.1, io.2.1 ++ r.2.1, r.2.2)

/-- `FatOFileWrite`, with the number of bytes that were written. -/
def fatOFileWrite (fuel : Nat) :
    Nat → Nat → List Byte → OFile → Vol σ → Option (Status × Nat × OFile × Vol σ)
  | 0, _, _, _, _ => none
  | turns + 1, position, bytes, f, v =>
    if bytes = [] then some (.success, 0, f, v)
    else
      (fatOFilePosition F g fuel position f v).bind fun r =>
        let f := r.2.1
        if r.1.isError then some (r.1, 0, f, r.2.2)
        else
          let len := min bytes.length f.posRem
          let io := fatDiskIoWrite F g f.posDisk (bytes.take len) r.2.2
          if io.1.isError then some (io.1, 0, f, io.2)
          else
            let position := (position + len) % 2 ^ 64
            let f := { f with
              attributes := f.attributes ||| 0x20
              dirty := true
              fileSize := if f.fileSize < position then position else f.fileSize }
            (fatOFileWrite fuel turns position (bytes.drop len) f io.2).map fun r =>
              (r.1, r.2.1 + len, r.2.2)

end Vol

end EfiCore.Fat
