import EfiCore.Fat.Allocate
import EfiCore.Fat.Space
import EfiCore.Lib.Segment
import Mathlib.Order.Interval.Finset.Nat

/-! # Chains of clusters

The clusters of a file are linked by their entries.  A chain that comes to an end mark is the only
one from its first cluster, no cluster is in it twice, and none of its clusters is free.
-/

namespace EfiCore.Fat

open EfiCore.Disk (driverLibDivU64x32 driverLibMultU64x32)
open EfiCore.Lib

variable {g : Geometry} {v v' : FlatVol} {m m' : Nat → Byte} {c d i first value : Nat}
  {l l' : List Nat}

/-- The clusters are on the volume, and an entry holds the number of each of them. -/
structure Spacious (g : Geometry) : Prop where
  inside : g.firstClusterPos + (g.lastCluster - 1) * g.clusterSize ≤ g.volSize
  clusterSize : g.clusterSize < 2 ^ 24
  lastCluster : g.lastCluster < g.badMark

/-- A volume that is mounted has its clusters inside, if the FATs and the root directory are within
    its sectors, and if a FAT32 has no more clusters than its entries can tell. -/
theorem fatLocations_spacious {A : Arch} {b : BootSector} {g : Geometry}
    (h : fatLocations A b = .ok g) (hlast : g.lastCluster < g.badMark)
    (hroom : b.reservedSectors.toNat + b.noFats.toNat * b.volSectorsPerFat + b.rootDirSectors ≤
      b.volSectors) : Spacious g := by
  have hbits := A.two_pow_32_le
  have hsectors := b.volSectors_lt
  unfold fatLocations at h
  dsimp only at h
  rw [← BootSector.rootDirSectors] at h
  by_cases hfat : b.isFat = true
  · obtain ⟨-, -, hcluster, -⟩ := BootSector.accepted hfat
    rw [if_neg (by rw [hfat]; decide)] at h
    by_cases hsize : b.sectorSize.toNat = 0
    · rw [if_pos hsize] at h
      cases h
    rw [if_neg hsize] at h
    have hfirst : A.add ((b.noFats.toNat * b.volSectorsPerFat + b.reservedSectors.toNat) %
        2 ^ A.bits) b.rootDirSectors =
        b.noFats.toNat * b.volSectorsPerFat + b.reservedSectors.toNat + b.rootDirSectors := by
      rw [Nat.mod_eq_of_lt (by omega), Arch.add_of_lt (by omega)]
    rw [hfirst, Arch.sub_of_le (by omega) hsectors] at h
    split at h
    · cases h
    · cases h
      have hB := b.sectorSize.isLt
      generalize hstart : b.noFats.toNat * b.volSectorsPerFat + b.reservedSectors.toNat +
        b.rootDirSectors = start at hlast ⊢
      have hstart' : start ≤ b.volSectors := by omega
      have hmax := Nat.div_le_self (b.volSectors - start) b.sectorsPerCluster.toNat
      have hroom' : (b.volSectors - start) / b.sectorsPerCluster.toNat * b.sectorsPerCluster.toNat ≤
          b.volSectors - start := Nat.div_mul_le_self ..
      generalize (b.volSectors - start) / b.sectorsPerCluster.toNat = max at hlast hmax hroom' ⊢
      generalize b.sectorSize.toNat = B at hB hsize ⊢
      have hvol : b.volSectors * B < 2 ^ 48 :=
        (Nat.mul_lt_mul'' hsectors hB).trans_le (by decide)
      have hmult : ∀ {a : Nat}, a ≤ b.volSectors → driverLibMultU64x32 a B = a * B := fun ha =>
        Disk.driverLibMultU64x32_of_lt ((Nat.mul_le_mul_right B ha).trans_lt (by omega))
      refine ⟨?_, ?_, hlast⟩
      · dsimp only [Geometry.lastCluster]
        rw [hmult hstart', hmult (le_refl _)]
        calc start * B + (A.add max 1 - 1) * (b.sectorsPerCluster.toNat * B)
            ≤ start * B + max * (b.sectorsPerCluster.toNat * B) := by
              refine Nat.add_le_add_left (Nat.mul_le_mul_right _ ?_) _
              have hadd : A.add max 1 ≤ max + 1 := Nat.mod_le _ _
              omega
          _ = (start + max * b.sectorsPerCluster.toNat) * B := by
              rw [Nat.add_mul, Nat.mul_assoc]
          _ ≤ b.volSectors * B := Nat.mul_le_mul_right B (by omega)
      · exact (Nat.mul_lt_mul'' b.sectorsPerCluster.isLt hB).trans_le (by decide)
  · rw [if_pos (by simpa using hfat)] at h
    cases h

/-! ## The chain of a file -/

/-- The clusters of the chain from `first` on. -/
structure FileChain (g : Geometry) (m : Nat → Byte) (first : Nat) (l : List Nat) : Prop where
  range : ∀ c ∈ l, 2 ≤ c ∧ c ≤ g.lastCluster
  links : l ≠ [] → ∃ e, g.EndOfFatChain e ∧ Segment (g.fatEntry m) first l e
  empty : l = [] → first = 0

/-- The clusters of a volume are no end marks. -/
theorem not_endOfFatChain (h : Sound g) (hc : c ≤ g.lastCluster) : ¬g.EndOfFatChain c := by
  have := h.last_lt
  unfold Geometry.EndOfFatChain
  omega

theorem not_corrupt (h : Sound g) (hc : 2 ≤ c) (hlast : c ≤ g.lastCluster) : ¬g.Corrupt c := by
  have := h.last_lt
  unfold Geometry.Corrupt
  omega

theorem endOfFatChain_clusterLast (g : Geometry) : g.EndOfFatChain g.clusterLast := by
  have := g.arch.two_pow_32_le
  unfold Geometry.EndOfFatChain Geometry.special Geometry.clusterLast
  omega

theorem EndOfFatChain.ne_zero (h : g.EndOfFatChain c) : c ≠ 0 := by
  unfold Geometry.EndOfFatChain at h
  omega

namespace FileChain

theorem nil (g : Geometry) (m : Nat → Byte) : FileChain g m 0 [] :=
  ⟨fun _ hc => absurd hc List.not_mem_nil, fun h => absurd rfl h, fun _ => rfl⟩

theorem of_segment {e : Nat} (hl : l ≠ []) (hrange : ∀ c ∈ l, 2 ≤ c ∧ c ≤ g.lastCluster)
    (hend : g.EndOfFatChain e) (h : Segment (g.fatEntry m) first l e) :
    FileChain g m first l := ⟨hrange, fun _ => ⟨e, hend, h⟩, fun hnil => absurd hnil hl⟩

theorem first_eq (h : FileChain g m first l) (hl : l ≠ []) : l[0]? = some first := by
  obtain ⟨e, -, hseg⟩ := h.links hl
  exact hseg.head hl

/-- A file has no clusters exactly if it has no first one. -/
theorem first_eq_zero (h : FileChain g m first l) : first = 0 ↔ l = [] := by
  constructor
  · intro hfirst
    by_contra hl
    have hmem := List.mem_of_getElem? (h.first_eq hl)
    have := (h.range first hmem).1
    omega
  · exact h.empty

theorem nodup (hs : Sound g) (h : FileChain g m first l) : l.Nodup := by
  by_cases hl : l = []
  · rw [hl]
    exact List.nodup_nil
  · obtain ⟨e, he, hseg⟩ := h.links hl
    exact hseg.nodup he fun c hc => not_endOfFatChain hs (h.range c hc).2

/-- There is just one chain from a cluster on. -/
theorem unique (hs : Sound g) (h : FileChain g m first l) (h' : FileChain g m first l') :
    l = l' := by
  by_cases hl : l = []
  · rw [hl, h'.first_eq_zero.mp (h.first_eq_zero.mpr hl)]
  · have hl' : l' ≠ [] := fun hnil => hl (h.first_eq_zero.mp (h'.first_eq_zero.mpr hnil))
    obtain ⟨e, he, hseg⟩ := h.links hl
    obtain ⟨e', he', hseg'⟩ := h'.links hl'
    exact hseg.unique hseg' he he' (fun c hc => not_endOfFatChain hs (h.range c hc).2)
      fun c hc => not_endOfFatChain hs (h'.range c hc).2

theorem congr (h : FileChain g m first l) (hsame : ∀ c ∈ l, g.fatEntry m' c = g.fatEntry m c) :
    FileChain g m' first l := by
  refine ⟨h.range, fun hl => ?_, h.empty⟩
  obtain ⟨e, he, hseg⟩ := h.links hl
  exact ⟨e, he, hseg.congr hsame⟩

/-- What a cluster of the chain leads to. -/
theorem next_eq (h : FileChain g m first l) (hc : l[i]? = some c) :
    l[i + 1]? = some (g.fatEntry m c) ∨
      l.length = i + 1 ∧ g.EndOfFatChain (g.fatEntry m c) := by
  have hl : l ≠ [] := fun hnil => by
    rw [hnil] at hc
    cases hc
  obtain ⟨e, he, hseg⟩ := h.links hl
  rcases hseg.next_eq hc with hnext | ⟨hlen, hnext⟩
  · exact .inl hnext
  · exact .inr ⟨hlen, hnext ▸ he⟩

/-- The clusters of a chain are in use. -/
theorem used (h : FileChain g m first l) (hc : c ∈ l) : g.fatEntry m c ≠ 0 := by
  obtain ⟨i, hi⟩ := List.mem_iff_getElem?.mp hc
  rcases h.next_eq hi with hnext | ⟨-, hend⟩
  · have := (h.range _ (List.mem_of_getElem? hnext)).1
    omega
  · exact EndOfFatChain.ne_zero hend

theorem notMem_freeSet (h : FileChain g m first l) (hc : c ∈ l) : c ∉ g.freeSet m :=
  fun hfree => h.used hc (mem_freeSet.mp hfree).2.2

/-- A chain has at most as many clusters as the volume. -/
theorem length_le (hs : Sound g) (h : FileChain g m first l) : l.length ≤ g.lastCluster - 1 := by
  have hsub : l.toFinset ⊆ Finset.Icc 2 g.lastCluster := by
    intro c hc
    rw [List.mem_toFinset] at hc
    exact Finset.mem_Icc.mpr (h.range c hc)
  have hcard := Finset.card_le_card hsub
  rw [List.toFinset_card_of_nodup (h.nodup hs), Nat.card_Icc] at hcard
  omega

end FileChain

/-! ## Values of entries -/

theorem extend_cluster (h : Spacious g) (hc : c ≤ g.lastCluster) : g.extend (c % g.bound) = c := by
  have hlt := hc.trans_lt h.lastCluster
  rw [Nat.mod_eq_of_lt (hlt.trans g.badMark_lt_bound), g.extend_of_lt hlt]

theorem extend_clusterLast (g : Geometry) : g.extend (g.clusterLast % g.bound) = g.clusterLast := by
  have := g.arch.two_pow_32_le
  refine g.extend_special ?_ ?_
  · unfold Geometry.special Geometry.clusterLast
    omega
  · unfold Geometry.clusterLast
    omega

/-! ## Bytes of a file -/

/-- Where the byte of a file is on the disk. -/
def Geometry.bytePos (g : Geometry) (l : List Nat) (n : Nat) : Option Nat :=
  l[n / g.clusterSize]?.map fun c =>
    g.firstClusterPos + (c - 2) * g.clusterSize + n % g.clusterSize

/-- Where a cluster begins; the clusters behind it are behind. -/
theorem Spacious.cluster_le (h : Spacious g) (hc : 2 ≤ c) (hlast : c ≤ g.lastCluster) :
    g.firstClusterPos + (c - 2) * g.clusterSize + g.clusterSize ≤ g.volSize := by
  have hmul : (c - 2 + 1) * g.clusterSize ≤ (g.lastCluster - 1) * g.clusterSize :=
    Nat.mul_le_mul_right _ (by omega)
  rw [Nat.add_mul, Nat.one_mul] at hmul
  have := h.inside
  omega

end EfiCore.Fat
