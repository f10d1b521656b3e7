import EfiCore.Fat.Cache

/-! # Mounting

`FatOpenDevice` of `init.c`: what it takes from the boot sector and from the info sector.
-/

namespace EfiCore.Fat

open EfiCore.Disk (driverLibMultU64x32)

/-- `FAT_VOLUME_TYPE`, without the type that no mounted volume has. -/
inductive FatType where
  | fat12
  | fat16
  | fat32
  deriving DecidableEq, Repr

/-- The fields of `FAT_BOOT_SECTOR_EX` that are looked at. -/
structure BootSector where
  ia32Jump : BitVec 8
  sectorSize : BitVec 16
  sectorsPerCluster : BitVec 8
  reservedSectors : BitVec 16
  noFats : BitVec 8
  rootEntries : BitVec 16
  sectors : BitVec 16
  media : BitVec 8
  sectorsPerFat : BitVec 16
  largeSectors : BitVec 32
  largeSectorsPerFat : BitVec 32
  extendedFlags : BitVec 16
  fsVersion : BitVec 16
  rootDirFirstCluster : BitVec 32
  fsInfoSector : BitVec 16
  deriving DecidableEq, Repr

namespace BootSector

variable (b : BootSector)

/-- `Vol->Sectors` -/
def volSectors : Nat := if b.sectors = 0 then b.largeSectors.toNat else b.sectors.toNat

/-- Whether `FatType` is `FAT32` from the start. -/
def isFat32 : Bool := b.sectorsPerFat = 0

/-- `Vol->SectorsPerFat` -/
def volSectorsPerFat : Nat :=
  if b.isFat32 then b.largeSectorsPerFat.toNat else b.sectorsPerFat.toNat

/-- `IsFat` -/
def isFat : Bool :=
  (b.ia32Jump = 0xe9 || b.ia32Jump = 0xeb || b.ia32Jump = 0x49) &&
  !(b.reservedSectors = 0 || b.noFats = 0 || b.volSectors = 0) &&
  [1, 2, 4, 8, 16, 32, 64, 128].contains b.sectorsPerCluster.toNat &&
  !(b.isFat32 && (b.volSectorsPerFat = 0 || b.fsVersion ≠ 0)) &&
  [0xf0, 0xf8, 0xf9, 0xfb, 0xfc, 0xfd, 0xfe, 0xff, 0x00, 0x01, 0xfa].contains b.media.toNat &&
  !(!b.isFat32 && b.rootEntries = 0) &&
  !(b.isFat32 && b.extendedFlags &&& 0x80 ≠ 0)

/-- `Vol->RootEntries` -/
def volRootEntries : Nat := if b.isFat32 then 0 else b.rootEntries.toNat

end BootSector

/-- The fields of `FAT_VOLUME` that `FatOpenDevice` sets for good. -/
structure Geometry where
  arch : Arch
  fatType : FatType
  noFats : Nat
  rootEntries : Nat
  rootCluster : Nat
  volSize : Nat
  fatPos : Nat
  fatSize : Nat
  rootPos : Nat
  firstClusterPos : Nat
  maxCluster : Nat
  clusterSize : Nat
  deriving DecidableEq, Repr

/-- `Vol->FatEntrySize` -/
def Geometry.fatEntrySize (g : Geometry) : Nat :=
  match g.fatType with
  | .fat12 | .fat16 => 2
  | .fat32 => 4

/-- How mounting ends without a volume: a status, or a division by a sector size of 0. -/
inductive MountError where
  | status (status : Status)
  | divide
  deriving DecidableEq, Repr

/-- The part of `FatOpenDevice` that computes the locations. -/
def fatLocations (A : Arch) (b : BootSector) : Except MountError Geometry :=
  let blockSize := b.sectorSize.toNat
  if !b.isFat then .error (.status .unsupported)
  else if blockSize = 0 then .error .divide
  else
    let rootDirSectors := (b.volRootEntries * 32 + (blockSize - 1)) / blockSize
    let fatLba := b.reservedSectors.toNat
    let rootLba := (b.noFats.toNat * b.volSectorsPerFat + fatLba) % 2 ^ A.bits
    let firstClusterLba := A.add rootLba rootDirSectors
    let maxCluster := A.sub b.volSectors firstClusterLba / b.sectorsPerCluster.toNat
    let fatType :=
      if b.isFat32 then FatType.fat32 else if maxCluster < 4085 then .fat12 else .fat16
    if b.isFat32 ≠ decide (65525 ≤ maxCluster) then .error (.status .volumeCorrupted)
    else
      .ok
        { arch := A
          fatType := fatType
          noFats := b.noFats.toNat
          rootEntries := b.volRootEntries
          rootCluster := if b.isFat32 then b.rootDirFirstCluster.toNat else 0
          volSize := driverLibMultU64x32 b.volSectors blockSize
          fatPos := fatLba * blockSize % 2 ^ A.bits
          fatSize := b.volSectorsPerFat * blockSize % 2 ^ A.bits
          rootPos := driverLibMultU64x32 rootLba blockSize
          firstClusterPos := driverLibMultU64x32 firstClusterLba blockSize
          maxCluster := maxCluster
          clusterSize := b.sectorsPerCluster.toNat * blockSize }

namespace Geometry

variable (g : Geometry)

/-- `MaxCluster + 1`, the last cluster. -/
def lastCluster : Nat := g.arch.add g.maxCluster 1

/-- `FAT_CLUSTER_SPECIAL`, as a `UINTN`. -/
def special : Nat := 2 ^ g.arch.bits - 9

/-- `FAT_CLUSTER_LAST`, as a `UINTN`. -/
def clusterLast : Nat := 2 ^ g.arch.bits - 1

/-- `FAT_END_OF_FAT_CHAIN` -/
def EndOfFatChain (cluster : Nat) : Prop := g.special < cluster

instance (cluster : Nat) : Decidable (g.EndOfFatChain cluster) :=
  inferInstanceAs (Decidable (_ < _))

/-- The check for a chain that is corrupt. -/
def Corrupt (cluster : Nat) : Prop := cluster = 0 ∨ g.special ≤ cluster

instance (cluster : Nat) : Decidable (g.Corrupt cluster) := inferInstanceAs (Decidable (_ ∨ _))

end Geometry

/-! ## Free clusters -/

/-- The fields of `FAT_INFO_SECTOR` that are looked at. -/
structure FatInfoSector where
  signature : BitVec 32
  infoBeginSignature : BitVec 32
  infoEndSignature : BitVec 32
  clusterCount : BitVec 32
  nextCluster : BitVec 32
  deriving DecidableEq, Repr

/-- `FAT_FREE_INFO`, with `Vol->FreeInfoValid`. -/
structure FreeInfo where
  clusterCount : Nat
  nextCluster : Nat
  valid : Bool
  deriving DecidableEq, Repr

def FatInfoSector.signed (info : FatInfoSector) : Bool :=
  info.signature = 0x41615252 && info.infoBeginSignature = 0x61417272 &&
    info.infoEndSignature = 0xAA550000

/-- What `FatOpenDevice` makes of a `NextCluster`. -/
def Geometry.hint (g : Geometry) (nextCluster : Nat) : Nat :=
  if nextCluster < 2 ∨ g.lastCluster < nextCluster then 2 else nextCluster

/-- The free info of a mounted volume; `info` is the sector that was read, if there is one. -/
def Geometry.freeInfo (g : Geometry) (info : Option FatInfoSector) : FreeInfo :=
  match g.fatType, info with
  | .fat32, some info =>
    if info.signed then
      { clusterCount := info.clusterCount.toNat
        nextCluster := g.hint info.nextCluster.toNat
        valid := info.clusterCount.toNat < 2 ^ 31 && info.clusterCount.toNat ≤ g.maxCluster }
    else ⟨0, 2, false⟩
  | _, _ => ⟨0, 2, false⟩

/-! ## Sound geometries -/

/-- The bytes of the entries up to `i`. -/
def Geometry.entriesEnd (g : Geometry) (i : Nat) : Nat :=
  match g.fatType with
  | .fat12 => (3 * (i + 1) + 1) / 2
  | .fat16 => 2 * (i + 1)
  | .fat32 => 4 * (i + 1)

/-- The FATs hold an entry for each cluster, and they lie on the volume, before the clusters. -/
structure Sound (g : Geometry) : Prop where
  noFats : 0 < g.noFats
  entries : g.entriesEnd g.lastCluster ≤ g.fatSize
  fatPos : g.fatPos < 2 ^ g.arch.bits
  fatSize : g.fatSize < 2 ^ g.arch.bits
  clusters : g.fatPos + g.noFats * g.fatSize ≤ g.firstClusterPos
  inside : g.fatPos + g.noFats * g.fatSize ≤ g.volSize
  volSize : g.volSize < 2 ^ 63
  fat12 : g.fatType = .fat12 → g.lastCluster ≤ 4085
  fat16 : g.fatType = .fat16 → g.lastCluster ≤ 65525
  lastCluster : g.lastCluster + 1 < 2 ^ 32
  clusterSize : 0 < g.clusterSize
  firstClusterPos : g.firstClusterPos < 2 ^ 63

namespace BootSector

variable {b : BootSector}

/-- The sectors of the root directory. -/
def rootDirSectors (b : BootSector) : Nat :=
  (b.volRootEntries * 32 + (b.sectorSize.toNat - 1)) / b.sectorSize.toNat

/-- What a boot sector that is accepted has. -/
structure Accepted (b : BootSector) : Prop where
  reserved : 0 < b.reservedSectors.toNat
  noFats : 0 < b.noFats.toNat
  cluster : 0 < b.sectorsPerCluster.toNat
  fat : 0 < b.volSectorsPerFat

theorem pos_of_ne_zero {n : Nat} {x : BitVec n} (h : x ≠ 0) : 0 < x.toNat :=
  Nat.pos_of_ne_zero fun hzero => h (BitVec.eq_of_toNat_eq (by simpa using hzero))

theorem accepted (h : b.isFat = true) : b.Accepted := by
  simp only [isFat, Bool.and_eq_true, Bool.not_eq_true', Bool.or_eq_false_iff, decide_eq_false_iff_not,
    List.contains_iff_mem] at h
  obtain ⟨⟨⟨⟨⟨⟨-, ⟨hreserved, hfats⟩, -⟩, hcluster⟩, hfat⟩, -⟩, -⟩, -⟩ := h
  refine ⟨pos_of_ne_zero hreserved, pos_of_ne_zero hfats, ?_, ?_⟩
  · refine Nat.pos_of_ne_zero fun hzero => ?_
    rw [hzero] at hcluster
    exact absurd hcluster (by decide)
  · by_cases hlarge : b.isFat32 = true
    · rw [hlarge, Bool.true_and, Bool.or_eq_false_iff] at hfat
      exact Nat.pos_of_ne_zero (of_decide_eq_false hfat.1)
    · rw [volSectorsPerFat, if_neg hlarge]
      refine pos_of_ne_zero fun hzero => hlarge ?_
      rw [isFat32, hzero]
      rfl

theorem volSectors_lt (b : BootSector) : b.volSectors < 2 ^ 32 := by
  unfold volSectors
  split
  · exact b.largeSectors.isLt
  · exact b.sectors.isLt.trans (by decide)

end BootSector

/-- A volume that is mounted has a sound geometry, if its FATs hold its entries and if the FATs and
    the root directory are within the sectors of the volume. -/
theorem fatLocations_sound {A : Arch} {b : BootSector} {g : Geometry}
    (h : fatLocations A b = .ok g) (hentries : g.entriesEnd g.lastCluster ≤ g.fatSize)
    (hroom : b.reservedSectors.toNat + b.noFats.toNat * b.volSectorsPerFat + b.rootDirSectors ≤
      b.volSectors) : Sound g := by
  have hbits := A.two_pow_32_le
  have hsectors := b.volSectors_lt
  unfold fatLocations at h
  dsimp only at h
  rw [← BootSector.rootDirSectors] at h
  by_cases hfat : b.isFat = true
  · obtain ⟨hreserved, hnoFats, hcluster, hpf⟩ := BootSector.accepted hfat
    rw [if_neg (by rw [hfat]; decide)] at h
    by_cases hsize : b.sectorSize.toNat = 0
    · rw [if_pos hsize] at h
      cases h
    rw [if_neg hsize] at h
    have hfats : b.volSectorsPerFat ≤ b.noFats.toNat * b.volSectorsPerFat :=
      Nat.le_mul_of_pos_left _ hnoFats
    have hfirst : A.add ((b.noFats.toNat * b.volSectorsPerFat + b.reservedSectors.toNat) %
        2 ^ A.bits) b.rootDirSectors =
        b.noFats.toNat * b.volSectorsPerFat + b.reservedSectors.toNat + b.rootDirSectors := by
      rw [Nat.mod_eq_of_lt (by omega), Arch.add_of_lt (by omega)]
    rw [hfirst, Arch.sub_of_le (by omega) hsectors] at h
    split at h
    · cases h
    · rename_i htype
      cases h
      have hB := b.sectorSize.isLt
      have hr := b.reservedSectors.isLt
      have hmax : (b.volSectors - (b.noFats.toNat * b.volSectorsPerFat + b.reservedSectors.toNat +
          b.rootDirSectors)) / b.sectorsPerCluster.toNat ≤ b.volSectors - 2 :=
        (Nat.div_le_self _ _).trans (by omega)
      generalize b.sectorSize.toNat = B at hB hsize hentries ⊢
      have hfatPos : b.reservedSectors.toNat * B < 2 ^ 32 :=
        (Nat.mul_lt_mul'' hr hB).trans_le (by decide)
      have hvol : b.volSectors * B < 2 ^ 48 :=
        (Nat.mul_lt_mul'' hsectors hB).trans_le (by decide)
      have hend : (b.noFats.toNat * b.volSectorsPerFat + b.reservedSectors.toNat +
          b.rootDirSectors) * B ≤ b.volSectors * B := Nat.mul_le_mul_right B (by omega)
      have hsizes : b.reservedSectors.toNat * B % 2 ^ A.bits +
          b.noFats.toNat * (b.volSectorsPerFat * B % 2 ^ A.bits) ≤
          (b.noFats.toNat * b.volSectorsPerFat + b.reservedSectors.toNat + b.rootDirSectors) * B := by
        have hone := Nat.mod_le (b.reservedSectors.toNat * B) (2 ^ A.bits)
        have htwo := Nat.mul_le_mul_left b.noFats.toNat
          (Nat.mod_le (b.volSectorsPerFat * B) (2 ^ A.bits))
        rw [← Nat.mul_assoc] at htwo
        rw [Nat.add_mul, Nat.add_mul]
        omega
      have hlast : A.add ((b.volSectors - (b.noFats.toNat * b.volSectorsPerFat +
          b.reservedSectors.toNat + b.rootDirSectors)) / b.sectorsPerCluster.toNat) 1 =
          (b.volSectors - (b.noFats.toNat * b.volSectorsPerFat + b.reservedSectors.toNat +
            b.rootDirSectors)) / b.sectorsPerCluster.toNat + 1 := Arch.add_of_lt (by omega)
      have hmult : ∀ {a : Nat}, a * B ≤ b.volSectors * B → driverLibMultU64x32 a B = a * B :=
        fun ha => Disk.driverLibMultU64x32_of_lt (by omega)
      constructor
      · exact hnoFats
      · exact hentries
      · exact Nat.mod_lt _ (Nat.two_pow_pos _)
      · exact Nat.mod_lt _ (Nat.two_pow_pos _)
      · rw [hmult hend]
        exact hsizes
      · rw [hmult (le_refl _)]
        exact hsizes.trans hend
      · rw [hmult (le_refl _)]
        exact hvol.trans (by decide)
      · intro hfat12
        dsimp only [Geometry.lastCluster] at hfat12 ⊢
        rw [hlast]
        split at hfat12
        · cases hfat12
        · split at hfat12
          · omega
          · cases hfat12
      · intro hfat16
        dsimp only [Geometry.lastCluster] at hfat16 ⊢
        rw [hlast]
        split at hfat16
        · cases hfat16
        · rename_i hlarge
          rw [Bool.not_eq_true] at hlarge
          rw [hlarge] at htype
          simp only [ne_eq, Decidable.not_not] at htype
          have := of_decide_eq_false htype.symm
          omega
      · dsimp only [Geometry.lastCluster]
        rw [hlast]
        omega
      · exact Nat.mul_pos hcluster (Nat.pos_of_ne_zero hsize)
      · rw [hmult hend]
        exact (hend.trans_lt hvol).trans (by decide)
  · rw [if_pos (by simpa using hfat)] at h
    cases h

/-- A FAT12 with one FAT and four clusters. -/
def smallBoot : BootSector where
  ia32Jump := 0xeb
  sectorSize := 512
  sectorsPerCluster := 1
  reservedSectors := 1
  noFats := 1
  rootEntries := 16
  sectors := 7
  media := 0xf8
  sectorsPerFat := 1
  largeSectors := 0
  largeSectorsPerFat := 0
  extendedFlags := 0
  fsVersion := 0
  rootDirFirstCluster := 0
  fsInfoSector := 0

def smallFat : Geometry where
  arch := .efi64
  fatType := .fat12
  noFats := 1
  rootEntries := 16
  rootCluster := 0
  volSize := 3584
  fatPos := 512
  fatSize := 512
  rootPos := 1024
  firstClusterPos := 1536
  maxCluster := 4
  clusterSize := 512

theorem smallFat_mounted : fatLocations .efi64 smallBoot = .ok smallFat := by decide +kernel

theorem smallFat_sound : Sound smallFat :=
  fatLocations_sound smallFat_mounted (by decide +kernel) (by decide +kernel)

theorem Sound.last_lt (h : Sound g) : g.lastCluster + 2 < g.special := by
  have hlast := h.lastCluster
  have hentries := h.entries
  have hsize := h.fatSize
  have hfat12 := h.fat12
  have hfat16 := h.fat16
  unfold Geometry.entriesEnd at hentries
  unfold Geometry.special
  cases harch : g.arch with
  | efi32 =>
    rw [harch] at hsize
    simp only [Arch.bits] at hsize ⊢
    cases htype : g.fatType with
    | fat12 =>
      have := hfat12 htype
      omega
    | fat16 =>
      have := hfat16 htype
      omega
    | fat32 =>
      rw [htype] at hentries
      dsimp only at hentries
      omega
  | efi64 =>
    simp only [Arch.bits]
    omega

/-- The addresses of the FAT fit in a `UINTN`. -/
def Addressable (g : Geometry) : Prop := g.fatPos + g.fatSize ≤ 2 ^ g.arch.bits

end EfiCore.Fat
