import EfiCore.Fat.Chain

/-! # Seeking

`FatOFilePosition` goes to the cluster of a position, from where it was before if it can, and takes
the consecutive clusters from there on.
-/

namespace EfiCore.Fat

open EfiCore.Disk (driverLibDivU64x32 driverLibMultU64x32)
open EfiCore.Lib

variable {g : Geometry} {v v' : FlatVol} {f f' : OFile} {c i n position fuel : Nat}
  {l : List Nat}

/-- The volume is healthy and its clusters are on it. -/
structure Regular (g : Geometry) : Prop extends Healthy g, Spacious g

theorem Regular.read (h : Regular g) (hc : c ≤ g.lastCluster) (v : FlatVol) :
    (Vol.fatGetFatEntry flat g c v).1 = g.fatEntry v.disk c ∧
      Alike v (Vol.fatGetFatEntry flat g c v).2 := by
  obtain ⟨hread, halike⟩ := h.get c v
  exact ⟨hread.trans (h.read_of_le hc _), halike⟩

theorem FileChain.alike (h : FileChain g v.disk c l) (halike : Alike v v') :
    FileChain g v'.disk c l := h.congr fun _ _ => by rw [halike.disk]

/-- The bytes of a chain are not so many that a sum of them is cut off. -/
theorem FileChain.size_lt (h : Regular g) {m : Nat → Byte} (hl : FileChain g m c l) :
    (l.length + 1) * g.clusterSize < 2 ^ 63 := by
  have hlen := hl.length_le h.sound
  have hlast := h.sound.lastCluster
  calc (l.length + 1) * g.clusterSize
      ≤ (2 ^ 32) * g.clusterSize := Nat.mul_le_mul_right _ (by omega)
    _ ≤ (2 ^ 32) * 2 ^ 24 := Nat.mul_le_mul_left _ (Nat.le_of_lt h.clusterSize)
    _ < 2 ^ 63 := by decide

/-- The loop that goes to the cluster of a position. -/
theorem seek_eq (h : Regular g) {first : Nat} (hl : FileChain g v.disk first l)
    (hc : l[i]? = some c) (hfrom : i * g.clusterSize ≤ position)
    (hto : position < l.length * g.clusterSize) :
    ∃ fuel v' d, Alike v v' ∧ l[position / g.clusterSize]? = some d ∧
      Vol.seek flat g position fuel (i * g.clusterSize) c v =
        (some (some (d, position / g.clusterSize * g.clusterSize), v')) := by
  have hsize := hl.size_lt h
  have hpos := h.sound.clusterSize
  have hindex : i ≤ position / g.clusterSize := (Nat.le_div_iff_mul_le hpos).mpr hfrom
  have hlen : position / g.clusterSize < l.length := (Nat.div_lt_iff_lt_mul hpos).mpr hto
  obtain ⟨k, hk⟩ : ∃ k, k = position / g.clusterSize - i := ⟨_, rfl⟩
  induction k generalizing i c v with
  | zero =>
    -- the cluster of the position is reached
    have hi : i = position / g.clusterSize := by omega
    have hrange := hl.range c (List.mem_of_getElem? hc)
    have hlt := Nat.lt_div_mul_add hpos (a := position)
    refine ⟨1, v, c, .refl v, hi ▸ hc, ?_⟩
    rw [hi] at hfrom ⊢
    rw [Nat.add_mul] at hsize
    rw [Vol.seek, if_neg (not_corrupt h.sound hrange.1 hrange.2), if_pos]
    rw [Nat.mod_eq_of_lt (by omega)]
    exact hlt
  | succ k ih =>
    have hi : i < position / g.clusterSize := by omega
    have hrange := hl.range c (List.mem_of_getElem? hc)
    obtain ⟨hread, halike⟩ := h.read hrange.2 v
    have hnext : l[i + 1]? = some (g.fatEntry v.disk c) := by
      rcases hl.next_eq hc with hnext | ⟨hend, -⟩
      · exact hnext
      · omega
    have hle : (i + 1) * g.clusterSize ≤ position := (Nat.le_div_iff_mul_le hpos).mp hi
    obtain ⟨fuel, v', d, halike', hd, hseek⟩ := ih (hl.alike halike) hnext hle (by omega) (by omega)
    refine ⟨fuel + 1, v', d, halike.trans halike', hd, ?_⟩
    rw [Nat.add_mul] at hsize
    rw [Nat.add_mul, Nat.one_mul] at hle
    rw [Vol.seek, if_neg (not_corrupt h.sound hrange.1 hrange.2),
      Nat.mod_eq_of_lt (by omega), if_neg (by omega)]
    dsimp only
    rw [hread, show i * g.clusterSize + g.clusterSize = (i + 1) * g.clusterSize by
      rw [Nat.add_mul, Nat.one_mul]]
    exact hseek

/-- The loop over the consecutive clusters. -/
theorem extendRun_eq (h : Regular g) {first : Nat} (hl : FileChain g v.disk first l)
    (hc : l[i]? = some c) :
    ∃ fuel v' k, Alike v v' ∧ i + k < l.length ∧ (∀ j ≤ k, l[i + j]? = some (c + j)) ∧
      Vol.extendRun flat g fuel ((i + 1) * g.clusterSize) c v =
        some ((i + k + 1) * g.clusterSize, v') := by
  have hsize := hl.size_lt h
  have hlt : i < l.length := (List.getElem?_eq_some_iff.mp hc).1
  obtain ⟨n, hn⟩ : ∃ n, n = l.length - i := ⟨_, rfl⟩
  induction n generalizing i c v with
  | zero => omega
  | succ n ih =>
    have hrange := hl.range c (List.mem_of_getElem? hc)
    have hlast := h.sound.lastCluster
    have hbits := g.arch.two_pow_32_le
    obtain ⟨hread, halike⟩ := h.read hrange.2 v
    have hadd : g.arch.add c 1 = c + 1 := Nat.mod_eq_of_lt (by omega)
    by_cases hnext : g.fatEntry v.disk c = c + 1
    · have hc' : l[i + 1]? = some (c + 1) := by
        rcases hl.next_eq hc with hsome | ⟨-, hend⟩
        · rw [hsome, hnext]
        · -- the next cluster would be an end mark
          have := h.sound.last_lt
          rw [hnext] at hend
          unfold Geometry.EndOfFatChain at hend
          omega
      obtain ⟨fuel, v', k, halike', hk, hrun, hextend⟩ := ih (hl.alike halike) hc'
        (List.getElem?_eq_some_iff.mp hc').1 (by omega)
      have hstep : (i + 1) * g.clusterSize + g.clusterSize = (i + 1 + 1) * g.clusterSize := by
        rw [Nat.add_mul (i + 1), Nat.one_mul]
      have hle : (i + 1 + 1) * g.clusterSize ≤ (l.length + 1) * g.clusterSize :=
        Nat.mul_le_mul_right _ (by omega)
      refine ⟨fuel + 1, v', k + 1, halike.trans halike', by omega, fun j hj => ?_, ?_⟩
      · cases j with
        | zero => exact hc
        | succ j =>
          rw [show i + (j + 1) = i + 1 + j by omega, show c + (j + 1) = c + 1 + j by omega]
          exact hrun j (by omega)
      · rw [Vol.extendRun, hread, hnext, hadd, if_pos rfl, hstep, Nat.mod_eq_of_lt (by omega), hextend,
          show i + 1 + k + 1 = i + (k + 1) + 1 by omega]
    · refine ⟨1, _, 0, halike, hlt, fun j hj => ?_, ?_⟩
      · rw [Nat.le_zero.mp hj]
        exact hc
      · rw [Vol.extendRun, hread, hadd, if_neg hnext]

theorem seek_mono {σ : Type} {F : Store σ} {v : Vol σ} {pos : Nat}
    {r : Option (Nat × Nat) × Vol σ} (h : Vol.seek F g position fuel pos c v = some r) (k : Nat) :
    Vol.seek F g position (fuel + k) pos c v = some r := by
  induction fuel generalizing pos c v with
  | zero => cases h
  | succ fuel ih =>
    rw [Nat.succ_add]
    rw [Vol.seek] at h ⊢
    split
    · rename_i hcorrupt
      rwa [if_pos hcorrupt] at h
    · rename_i hcorrupt
      rw [if_neg hcorrupt] at h
      split
      · rename_i hfound
        rwa [if_pos hfound] at h
      · rename_i hfound
        rw [if_neg hfound] at h
        exact ih h

theorem extendRun_mono {σ : Type} {F : Store σ} {v : Vol σ} {run : Nat} {r : Nat × Vol σ}
    (h : Vol.extendRun F g fuel run c v = some r) (k : Nat) :
    Vol.extendRun F g (fuel + k) run c v = some r := by
  induction fuel generalizing run c v with
  | zero => cases h
  | succ fuel ih =>
    rw [Nat.succ_add]
    rw [Vol.extendRun] at h ⊢
    split
    · rename_i hnext
      rw [if_pos hnext] at h
      exact ih h
    · rename_i hnext
      rwa [if_neg hnext] at h

/-! ## FatOFilePosition -/

/-- The position and the current cluster belong together, or the current cluster is the first one. -/
def Coupled (g : Geometry) (l : List Nat) (f : OFile) : Prop :=
  f.fileCurrentCluster = f.fileCluster ∨
    l[f.position / g.clusterSize]? = some f.fileCurrentCluster

/-- The file is at the position, and so many bytes of it follow on the disk. -/
structure Positioned (g : Geometry) (l : List Nat) (position : Nat) (f f' : OFile) : Prop where
  file : f' = { f with
    posDisk := f'.posDisk
    position := position
    fileCurrentCluster := f'.fileCurrentCluster
    posRem := f'.posRem }
  cluster : l[position / g.clusterSize]? = some f'.fileCurrentCluster
  posRem : 0 < f'.posRem
  run : ∀ k < f'.posRem, g.bytePos l (position + k) = some (f'.posDisk + k)

/-- Where the walk begins, it is at a cluster of the chain. -/
theorem seekStart_eq (h : Regular g) {m : Nat → Byte} (hl : FileChain g m f.fileCluster l)
    (hcoupled : Coupled g l f) (hto : position < l.length * g.clusterSize) :
    ∃ i c, Vol.seekStart g f position = (i * g.clusterSize, c) ∧ l[i]? = some c ∧
      i * g.clusterSize ≤ position := by
  have hsize := hl.size_lt h
  rw [Nat.add_mul] at hsize
  unfold Vol.seekStart
  split
  · refine ⟨0, f.fileCluster, by rw [Nat.zero_mul], hl.first_eq fun hnil => ?_, by omega⟩
    rw [hnil] at hto
    simp at hto
  · rename_i hfrom
    rw [not_or] at hfrom
    have hcurrent := hcoupled.resolve_left fun heq => hfrom.2 heq.symm
    have hdiv := (Disk.driverLibDivU64x32_spec g.arch h.sound.clusterSize
      (show f.position < 2 ^ 64 by omega)).2.2 (.inr (.inl (by have := h.clusterSize; omega)))
    have hmod := Nat.div_add_mod f.position g.clusterSize
    rw [Nat.mul_comm] at hmod
    refine ⟨f.position / g.clusterSize, f.fileCurrentCluster, ?_, hcurrent, by omega⟩
    rw [hdiv, Prod.mk.injEq]
    exact ⟨by omega, rfl⟩

/-- The bytes of consecutive clusters are consecutive. -/
theorem bytePos_run (hpos : 0 < g.clusterSize) {k j : Nat} (hc : 2 ≤ c)
    (hrun : ∀ t ≤ k, l[position / g.clusterSize + t]? = some (c + t))
    (hj : position + j < (position / g.clusterSize + k + 1) * g.clusterSize) :
    g.bytePos l (position + j) =
      some (g.firstClusterPos + (c - 2) * g.clusterSize + position % g.clusterSize + j) := by
  obtain ⟨t, ht⟩ : ∃ t, t = (position + j) / g.clusterSize - position / g.clusterSize := ⟨_, rfl⟩
  have hle : position / g.clusterSize ≤ (position + j) / g.clusterSize :=
    Nat.div_le_div_right (Nat.le_add_right position j)
  have hlt : (position + j) / g.clusterSize < position / g.clusterSize + k + 1 :=
    (Nat.div_lt_iff_lt_mul hpos).mpr hj
  have hindex : (position + j) / g.clusterSize = position / g.clusterSize + t := by omega
  have hsum := Nat.div_add_mod (position + j) g.clusterSize
  have hstart := Nat.div_add_mod position g.clusterSize
  rw [hindex, Nat.mul_add] at hsum
  have hmul : (c + t - 2) * g.clusterSize = (c - 2) * g.clusterSize + g.clusterSize * t := by
    rw [show c + t - 2 = c - 2 + t by omega, Nat.add_mul, Nat.mul_comm t]
  rw [Geometry.bytePos, hindex, hrun t (by omega), Option.map_some, hmul]
  congr 1
  omega

/-- The file is taken to a position of its chain. -/
theorem fatOFilePosition_eq (h : Regular g) (hl : FileChain g v.disk f.fileCluster l)
    (hroot : f.isFixedRootDir = false) (hcoupled : Coupled g l f)
    (hto : position < l.length * g.clusterSize) :
    ∃ fuel f' v', Alike v v' ∧ Positioned g l position f f' ∧
      Vol.fatOFilePosition flat g fuel position f v = some (.success, f', v') := by
  have hsize := hl.size_lt h
  have hpos := h.sound.clusterSize
  obtain ⟨i, c, hstart, hc, hfrom⟩ := seekStart_eq h hl hcoupled hto
  obtain ⟨fuel, v₁, d, halike, hd, hseek⟩ := seek_eq h hl hc hfrom hto
  obtain ⟨fuel', v₂, k, halike', hk, hrun, hextend⟩ := extendRun_eq h (hl.alike halike) hd
  obtain ⟨hd2, hdlast⟩ := hl.range d (List.mem_of_getElem? hd)
  have hcluster := h.cluster_le hd2 hdlast
  have hvol := h.sound.volSize
  have hmod := Nat.div_add_mod position g.clusterSize
  have hrem := Nat.mod_lt position hpos
  rw [Nat.mul_comm] at hmod
  have hend : (position / g.clusterSize + k + 1) * g.clusterSize ≤
      (l.length + 1) * g.clusterSize := Nat.mul_le_mul_right _ (by omega)
  have hbehind : (position / g.clusterSize + 1) * g.clusterSize ≤
      (position / g.clusterSize + k + 1) * g.clusterSize := Nat.mul_le_mul_right _ (by omega)
  have hnext : position / g.clusterSize * g.clusterSize + g.clusterSize =
      (position / g.clusterSize + 1) * g.clusterSize := by rw [Nat.add_mul, Nat.one_mul]
  -- where the position is on the disk, and how far the consecutive clusters go
  have hdisk : (g.firstClusterPos + driverLibMultU64x32 (d - 2) g.clusterSize + position + 2 ^ 64 -
      position / g.clusterSize * g.clusterSize) % 2 ^ 64 =
      g.firstClusterPos + (d - 2) * g.clusterSize + position % g.clusterSize := by
    rw [Disk.driverLibMultU64x32_of_lt (by omega)]
    omega
  have hlen : ((position / g.clusterSize + k + 1) * g.clusterSize + 2 ^ 64 - position) % 2 ^ 64 =
      (position / g.clusterSize + k + 1) * g.clusterSize - position := by omega
  have hfirst : (position / g.clusterSize + 1) * g.clusterSize % 2 ^ 64 =
      (position / g.clusterSize + 1) * g.clusterSize := Nat.mod_eq_of_lt (by omega)
  have hmax : 0 < Vol.maxAddress g.arch := by cases g.arch <;> decide
  have hroot' : ¬f.isFixedRootDir = true := by rw [hroot]; exact Bool.false_ne_true
  refine ⟨fuel + fuel', { f with
    posDisk := g.firstClusterPos + (d - 2) * g.clusterSize + position % g.clusterSize
    position := position
    fileCurrentCluster := d
    posRem := min ((position / g.clusterSize + k + 1) * g.clusterSize - position)
      (Vol.maxAddress g.arch) }, v₂, halike.trans halike', ?_, ?_⟩
  · refine ⟨rfl, hd, by dsimp only; omega, fun j hj => ?_⟩
    dsimp only at hj ⊢
    exact bytePos_run hpos hd2 hrun (by omega)
  · rw [Vol.fatOFilePosition, if_neg hroot', hstart]
    dsimp only
    rw [seek_mono hseek, Option.bind_some, Option.elim_some]
    dsimp only
    rw [if_neg (by omega), hnext, hfirst, Nat.add_comm fuel,
      extendRun_mono hextend, Option.map_some, hdisk, hlen]

end EfiCore.Fat
