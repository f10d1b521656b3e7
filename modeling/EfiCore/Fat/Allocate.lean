import EfiCore.Fat.SetEntry

/-! # Finding a free cluster

`FatComputeFreeInfo` counts the free clusters and `FatAllocateCluster` takes the first one from the
hint on.  Behind the last cluster it has them counted, and begins again, but only if this was not
done before.
-/

namespace EfiCore.Fat

open EfiCore.Lib

variable {g : Geometry} {v v' v'' : FlatVol} {m : Nat → Byte} {c i n fuel : Nat}

/-- The free clusters up to `n`. -/
def Geometry.freeUpTo (g : Geometry) (m : Nat → Byte) (n : Nat) : Finset Nat :=
  (Finset.range (n + 1)).filter fun j => 2 ≤ j ∧ g.fatEntry m j = 0

/-- The free clusters. -/
def Geometry.freeSet (g : Geometry) (m : Nat → Byte) : Finset Nat := g.freeUpTo m g.lastCluster

@[simp] theorem mem_freeUpTo {j : Nat} :
    j ∈ g.freeUpTo m n ↔ 2 ≤ j ∧ j ≤ n ∧ g.fatEntry m j = 0 := by
  simp only [Geometry.freeUpTo, Finset.mem_filter, Finset.mem_range, Nat.lt_succ_iff]
  exact and_left_comm

@[simp] theorem mem_freeSet {j : Nat} :
    j ∈ g.freeSet m ↔ 2 ≤ j ∧ j ≤ g.lastCluster ∧ g.fatEntry m j = 0 := mem_freeUpTo

theorem card_freeUpTo_le (g : Geometry) (m : Nat → Byte) (n : Nat) :
    (g.freeUpTo m n).card ≤ n + 1 :=
  (Finset.card_filter_le _ _).trans_eq (Finset.card_range _)

theorem card_freeUpTo_succ (hn : 2 ≤ n + 1) (h : g.fatEntry m (n + 1) = 0) :
    (g.freeUpTo m (n + 1)).card = (g.freeUpTo m n).card + 1 := by
  have hnot : n + 1 ∉ g.freeUpTo m n := by
    rw [mem_freeUpTo]
    omega
  have hinsert : g.freeUpTo m (n + 1) = insert (n + 1) (g.freeUpTo m n) := by
    ext j
    rw [Finset.mem_insert, mem_freeUpTo, mem_freeUpTo]
    constructor
    · intro ⟨hj, hle, hfree⟩
      by_cases hjn : j = n + 1
      · exact .inl hjn
      · exact .inr ⟨hj, by omega, hfree⟩
    · rintro (rfl | ⟨hj, hle, hfree⟩)
      · exact ⟨hn, le_refl _, h⟩
      · exact ⟨hj, by omega, hfree⟩
  rw [hinsert, Finset.card_insert_of_notMem hnot]

theorem freeUpTo_succ_of_used (h : g.fatEntry m (n + 1) ≠ 0) :
    g.freeUpTo m (n + 1) = g.freeUpTo m n := by
  ext j
  rw [mem_freeUpTo, mem_freeUpTo]
  constructor
  · intro ⟨hj, hle, hfree⟩
    by_cases hjn : j = n + 1
    · exact absurd (hjn ▸ hfree) h
    · exact ⟨hj, by omega, hfree⟩
  · exact fun ⟨hj, hle, hfree⟩ => ⟨hj, by omega, hfree⟩

theorem freeUpTo_of_lt_two (hn : n < 2) : g.freeUpTo m n = ∅ := by
  ext j
  simp only [mem_freeUpTo, Finset.notMem_empty, iff_false]
  omega

/-- The volumes only differ in the free info and in the entry that was loaded last. -/
structure SameDisk (v v' : FlatVol) : Prop where
  disk : v'.disk = v.disk
  diskError : v'.diskError = v.diskError
  fatDirty : v'.fatDirty = v.fatDirty
  dirtyValue : v'.dirtyValue = v.dirtyValue

theorem SameDisk.refl (v : FlatVol) : SameDisk v v := ⟨rfl, rfl, rfl, rfl⟩

theorem SameDisk.trans (h : SameDisk v v') (h' : SameDisk v' v'') : SameDisk v v'' :=
  ⟨h'.disk.trans h.disk, h'.diskError.trans h.diskError, h'.fatDirty.trans h.fatDirty,
    h'.dirtyValue.trans h.dirtyValue⟩

theorem Alike.sameDisk (h : Alike v v') (free : FreeInfo) :
    SameDisk v { v' with free := free } := ⟨h.disk, h.diskError, h.fatDirty, h.dirtyValue⟩

/-! ## Counting -/

/-- What the loop of `FatComputeFreeInfo` does, down from cluster `n`. -/
structure Counted (g : Geometry) (n : Nat) (v v' : FlatVol) : Prop where
  same : SameDisk v v'
  valid : v'.free.valid = v.free.valid
  count : v'.free.clusterCount = v.free.clusterCount + (g.freeUpTo v.disk n).card
  least : v'.free.nextCluster ∈ g.freeUpTo v.disk n ∨
    g.freeUpTo v.disk n = ∅ ∧ v'.free.nextCluster = v.free.nextCluster
  le : ∀ j ∈ g.freeUpTo v.disk n, v'.free.nextCluster ≤ j

theorem Counted.empty (h : g.freeUpTo v.disk n = ∅) : Counted g n v v := by
  refine ⟨.refl v, rfl, ?_, .inr ⟨h, rfl⟩, ?_⟩
  · rw [h]
    rfl
  · rw [h]
    exact fun j hj => absurd hj (Finset.notMem_empty j)

/-- A turn for a cluster that is free. -/
theorem Counted.free (hfree : g.fatEntry v.disk (n + 1) = 0) (hn : 2 ≤ n + 1)
    (hsame : SameDisk v v') (hvalid : v'.free.valid = v.free.valid)
    (hcount : v'.free.clusterCount = v.free.clusterCount + 1)
    (hnext : v'.free.nextCluster = n + 1) (h : Counted g n v' v'') : Counted g (n + 1) v v'' := by
  have hdisk := hsame.disk
  refine ⟨hsame.trans h.same, h.valid.trans hvalid, ?_, ?_, fun j hj => ?_⟩
  · rw [h.count, hcount, hdisk, card_freeUpTo_succ hn hfree]
    omega
  · rcases h.least with hmem | ⟨hempty, hkeep⟩
    · rw [hdisk, mem_freeUpTo] at hmem
      exact .inl (mem_freeUpTo.mpr ⟨hmem.1, by omega, hmem.2.2⟩)
    · rw [hkeep, hnext]
      exact .inl (mem_freeUpTo.mpr ⟨hn, le_refl _, hfree⟩)
  · by_cases hjn : j = n + 1
    · rcases h.least with hmem | ⟨-, hkeep⟩
      · rw [mem_freeUpTo] at hmem
        omega
      · omega
    · rw [mem_freeUpTo] at hj
      exact h.le j (mem_freeUpTo.mpr ⟨hj.1, by omega, by rw [hdisk]; exact hj.2.2⟩)

/-- A turn for a cluster that is in use. -/
theorem Counted.used (hused : g.fatEntry v.disk (n + 1) ≠ 0) (hsame : SameDisk v v')
    (hfree : v'.free = v.free) (h : Counted g n v' v'') : Counted g (n + 1) v v'' := by
  have hset := freeUpTo_succ_of_used (g := g) hused
  rw [← hsame.disk] at hset
  exact ⟨hsame.trans h.same, by rw [h.valid, hfree], by rw [h.count, hfree, ← hset, hsame.disk],
    by rw [← hfree, ← hsame.disk, hset]; exact h.least,
    by rw [← hsame.disk, hset]; exact h.le⟩

theorem countFree_counted (h : Healthy g) (hn : n ≤ g.lastCluster) (herror : v.diskError = false)
    (hcount : v.free.clusterCount + n < 2 ^ 32) :
    Counted g n v (Vol.countFree flat g n v) := by
  have hlast := h.sound.lastCluster
  induction n generalizing v with
  | zero => exact .empty (freeUpTo_of_lt_two (by decide))
  | succ n ih =>
    by_cases hlow : n + 1 < 2
    · rw [Vol.countFree, if_pos (.inl hlow)]
      exact .empty (freeUpTo_of_lt_two hlow)
    obtain ⟨hread, halike⟩ := h.get (n + 1) v
    rw [Vol.countFree, if_neg (not_or.mpr ⟨hlow, by rw [herror]; exact Bool.false_ne_true⟩)]
    dsimp only
    rw [hread, h.read_of_le hn]
    by_cases hfree : g.fatEntry v.disk (n + 1) = 0
    · rw [if_pos hfree, halike.free, Nat.mod_eq_of_lt (by omega), Nat.mod_eq_of_lt (by omega)]
      refine .free hfree (by omega) (halike.sameDisk ⟨v.free.clusterCount + 1, n + 1, v.free.valid⟩)
        rfl rfl rfl (ih (by omega) (halike.diskError.trans herror) ?_)
      show v.free.clusterCount + 1 + n < 2 ^ 32
      omega
    · rw [if_neg hfree]
      refine .used hfree (halike.sameDisk _) halike.free
        (ih (by omega) (halike.diskError.trans herror) ?_)
      rw [halike.free]
      omega

/-- What `FatComputeFreeInfo` does if the info is not valid. -/
structure Computed (g : Geometry) (v v' : FlatVol) : Prop where
  same : SameDisk v v'
  valid : v'.free.valid = true
  count : v'.free.clusterCount = (g.freeSet v.disk).card
  least : v'.free.nextCluster ∈ g.freeSet v.disk ∨
    g.freeSet v.disk = ∅ ∧ v'.free.nextCluster = v.free.nextCluster
  le : ∀ j ∈ g.freeSet v.disk, v'.free.nextCluster ≤ j

theorem fatComputeFreeInfo_computed (h : Healthy g) (herror : v.diskError = false)
    (hvalid : v.free.valid = false) : Computed g v (Vol.fatComputeFreeInfo flat g v) := by
  have hlast := h.sound.lastCluster
  rw [Vol.fatComputeFreeInfo, if_neg (by rw [hvalid]; exact Bool.false_ne_true)]
  have hcounted := countFree_counted h (le_refl g.lastCluster)
    (v := { v with free := { v.free with valid := true, clusterCount := 0 } }) herror
    (show 0 + g.lastCluster < 2 ^ 32 by omega)
  exact ⟨⟨hcounted.same.disk, hcounted.same.diskError, hcounted.same.fatDirty,
    hcounted.same.dirtyValue⟩, hcounted.valid, hcounted.count.trans (Nat.zero_add _),
    hcounted.least, hcounted.le⟩

theorem fatComputeFreeInfo_of_valid (hvalid : v.free.valid = true) :
    Vol.fatComputeFreeInfo flat g v = v := if_pos hvalid

/-! ## Searching -/

/-- What `FatAllocateCluster` returns, and what it makes of the volume. -/
inductive Allocated (g : Geometry) (v : FlatVol) : Nat → FlatVol → Prop
  /-- The first free cluster from the hint on. -/
  | found {c : Nat} {v' : FlatVol} (free : c ∈ g.freeSet v.disk) (from_hint : v.free.nextCluster ≤ c)
      (first : ∀ j ∈ g.freeSet v.disk, v.free.nextCluster ≤ j → c ≤ j) (same : SameDisk v v')
      (info : v'.free = { v.free with nextCluster := c + 1 }) : Allocated g v c v'
  /-- There is none from the hint on; the free clusters are counted and the first one is taken. -/
  | counted {c : Nat} {v' : FlatVol} (free : c ∈ g.freeSet v.disk)
      (first : ∀ j ∈ g.freeSet v.disk, c ≤ j)
      (below : ∀ j ∈ g.freeSet v.disk, j < v.free.nextCluster) (invalid : v.free.valid = false)
      (same : SameDisk v v') (info : v'.free = ⟨(g.freeSet v.disk).card, c + 1, true⟩) :
      Allocated g v c v'
  /-- There is none. -/
  | none {v' : FlatVol} (below : ∀ j ∈ g.freeSet v.disk, j < v.free.nextCluster)
      (empty : v.free.valid = false → g.freeSet v.disk = ∅) (same : SameDisk v v')
      (count : v'.free.clusterCount = if v.free.valid then v.free.clusterCount else 0)
      (next : v'.free.nextCluster = max v.free.nextCluster (g.lastCluster + 1))
      (valid : v'.free.valid = true) : Allocated g v g.clusterLast v'

/-- A turn for a cluster that is in use. -/
theorem Allocated.next (hused : v.free.nextCluster ∉ g.freeSet v.disk)
    (hle : v.free.nextCluster ≤ g.lastCluster) (hsame : SameDisk v v')
    (hfree : v'.free = { v.free with nextCluster := v.free.nextCluster + 1 })
    (h : Allocated g v' c v'') : Allocated g v c v'' := by
  have hdisk := hsame.disk
  have hnext : v'.free.nextCluster = v.free.nextCluster + 1 := by rw [hfree]
  have hvalid : v'.free.valid = v.free.valid := by rw [hfree]
  have hcount : v'.free.clusterCount = v.free.clusterCount := by rw [hfree]
  -- a free cluster from the hint on is behind the hint
  have hbehind : ∀ j ∈ g.freeSet v.disk, v.free.nextCluster ≤ j → v.free.nextCluster + 1 ≤ j := by
    intro j hj hjle
    have hne : v.free.nextCluster ≠ j := fun heq => hused (heq ▸ hj)
    omega
  have hbelow : (∀ j ∈ g.freeSet v'.disk, j < v'.free.nextCluster) →
      ∀ j ∈ g.freeSet v.disk, j < v.free.nextCluster := by
    intro hall j hj
    by_contra hge
    have hlt := hall j (hdisk ▸ hj)
    have := hbehind j hj (Nat.not_lt.mp hge)
    omega
  cases h with
  | found free from_hint first same info =>
    rw [hdisk] at free first
    refine .found free (by omega) (fun j hj hjle => ?_) (hsame.trans same) (by rw [info, hfree])
    exact first j hj (by rw [hnext]; exact hbehind j hj hjle)
  | counted free first below invalid same info =>
    have hbelow := hbelow below
    rw [hdisk] at free first info
    exact .counted free first hbelow (hvalid.symm.trans invalid) (hsame.trans same) info
  | none below empty same count next valid =>
    have hbelow := hbelow below
    rw [hdisk, hvalid] at empty
    rw [hvalid, hcount] at count
    rw [hnext, Nat.max_eq_right (by omega)] at next
    exact .none hbelow empty (hsame.trans same) count (by rw [next, Nat.max_eq_right (by omega)])
      valid

/-- The turn for a cluster that is free. -/
theorem allocateLoop_free (h : Healthy g) (hfree : v.free.nextCluster ∈ g.freeSet v.disk)
    (fuel : Nat) : ∃ v', Vol.allocateLoop flat g (fuel + 1) v = some (v.free.nextCluster, v') ∧
      SameDisk v v' ∧ v'.free = { v.free with nextCluster := v.free.nextCluster + 1 } := by
  have hlast := h.sound.lastCluster
  obtain ⟨hread, halike⟩ := h.get v.free.nextCluster v
  rw [mem_freeSet] at hfree
  have hin : ¬g.lastCluster < v.free.nextCluster := by omega
  rw [Vol.allocateLoop]
  dsimp only
  rw [if_neg hin, if_neg hin, hread, h.read_of_le (by omega), if_pos hfree.2.2, halike.free]
  refine ⟨_, rfl, halike.sameDisk _, ?_⟩
  dsimp only
  rw [Nat.mod_eq_of_lt (by omega)]

/-- The free clusters were counted, and the search is behind the last one. -/
theorem allocateLoop_full (hvalid : v.free.valid = true)
    (hbeyond : g.lastCluster < v.free.nextCluster) (fuel : Nat) :
    Vol.allocateLoop flat g (fuel + 1) v = some (g.clusterLast, v) := by
  rw [Vol.allocateLoop]
  dsimp only
  rw [if_pos hbeyond, fatComputeFreeInfo_of_valid hvalid, if_pos hbeyond]

/-- The end of the search, behind the last cluster. -/
theorem allocateLoop_beyond (h : Healthy g) (herror : v.diskError = false)
    (hbeyond : g.lastCluster < v.free.nextCluster) (fuel : Nat) :
    ∃ c v', Vol.allocateLoop flat g (fuel + 1) v = some (c, v') ∧ Allocated g v c v' := by
  have hlast := h.sound.lastCluster
  have hbelow : ∀ j ∈ g.freeSet v.disk, j < v.free.nextCluster := by
    intro j hj
    rw [mem_freeSet] at hj
    omega
  cases hvalid : v.free.valid with
  | true =>
    refine ⟨_, _, allocateLoop_full hvalid hbeyond fuel,
      .none hbelow (fun hno => ?_) (.refl v) (by rw [hvalid]; rfl) ?_ hvalid⟩
    · rw [hvalid] at hno
      cases hno
    · rw [Nat.max_eq_left (by omega)]
  | false =>
    have hcomputed := fatComputeFreeInfo_computed h herror hvalid
    rcases hcomputed.least with hmem | ⟨hempty, hkeep⟩
    · -- the first free cluster
      have hmem' : (Vol.fatComputeFreeInfo flat g v).free.nextCluster ∈
          g.freeSet (Vol.fatComputeFreeInfo flat g v).disk := by
        rw [hcomputed.same.disk]
        exact hmem
      obtain ⟨v', hloop, hsame, hfree⟩ := allocateLoop_free h hmem' fuel
      have hstart : Vol.allocateLoop flat g (fuel + 1) v =
          Vol.allocateLoop flat g (fuel + 1) (Vol.fatComputeFreeInfo flat g v) := by
        have hin : ¬g.lastCluster < (Vol.fatComputeFreeInfo flat g v).free.nextCluster := by
          rw [mem_freeSet] at hmem
          omega
        rw [Vol.allocateLoop, Vol.allocateLoop]
        simp only [if_pos hbeyond, if_neg hin]
      rw [hstart]
      refine ⟨_, v', hloop, .counted hmem hcomputed.le hbelow hvalid (hcomputed.same.trans hsame) ?_⟩
      rw [hfree]
      dsimp only
      rw [hcomputed.count, hcomputed.valid]
    · rw [Vol.allocateLoop]
      dsimp only
      rw [if_pos hbeyond, hkeep, if_pos hbeyond]
      refine ⟨_, _, rfl, .none hbelow (fun _ => hempty) hcomputed.same ?_ ?_ hcomputed.valid⟩
      · rw [hcomputed.count, hempty, hvalid]
        rfl
      · rw [hkeep, Nat.max_eq_left (by omega)]

/-- The search ends, and finds what it is to find. -/
theorem allocateLoop_allocated (h : Healthy g) (herror : v.diskError = false)
    (hhint : 2 ≤ v.free.nextCluster) :
    ∃ fuel c v', Vol.allocateLoop flat g fuel v = some (c, v') ∧ Allocated g v c v' := by
  have hlast := h.sound.lastCluster
  obtain ⟨n, hn⟩ : ∃ n, n = g.lastCluster + 1 - v.free.nextCluster := ⟨_, rfl⟩
  induction n generalizing v with
  | zero => exact ⟨1, allocateLoop_beyond h herror (by omega) 0⟩
  | succ n ih =>
    by_cases hfree : v.free.nextCluster ∈ g.freeSet v.disk
    · obtain ⟨v', hloop, hsame, hinfo⟩ := allocateLoop_free h hfree 0
      exact ⟨1, _, v', hloop, .found hfree (le_refl _) (fun j _ hj => hj) hsame hinfo⟩
    · obtain ⟨hread, halike⟩ := h.get v.free.nextCluster v
      have hin : ¬g.lastCluster < v.free.nextCluster := by omega
      have hused : g.fatEntry v.disk v.free.nextCluster ≠ 0 :=
        fun hzero => hfree (mem_freeSet.mpr ⟨hhint, by omega, hzero⟩)
      have hmod : (v.free.nextCluster + 1) % 2 ^ 32 = v.free.nextCluster + 1 :=
        Nat.mod_eq_of_lt (by omega)
      obtain ⟨fuel, c, v', hloop, hallocated⟩ := ih
        (v := { (Vol.fatGetFatEntry flat g v.free.nextCluster v).2 with
          free := { v.free with nextCluster := v.free.nextCluster + 1 } })
        (halike.diskError.trans herror) (show 2 ≤ v.free.nextCluster + 1 by omega)
        (show n = g.lastCluster + 1 - (v.free.nextCluster + 1) by omega)
      refine ⟨fuel + 1, c, v', ?_, hallocated.next hfree (by omega) (halike.sameDisk _) rfl⟩
      rw [Vol.allocateLoop]
      dsimp only
      rw [if_neg hin, if_neg hin, hread, h.read_of_le (by omega), if_neg hused, halike.free,
        hmod]
      exact hloop

theorem fatAllocateCluster_allocated (h : Healthy g) (herror : v.diskError = false)
    (hhint : 2 ≤ v.free.nextCluster) :
    ∃ fuel c v', Vol.fatAllocateCluster flat g fuel v = some (c, v') ∧ Allocated g v c v' := by
  obtain ⟨fuel, c, v', hloop, hallocated⟩ := allocateLoop_allocated h herror hhint
  refine ⟨fuel, c, v', ?_, hallocated⟩
  rw [Vol.fatAllocateCluster, if_neg (by rw [herror]; exact Bool.false_ne_true), hloop]

/-- The bound on the turns does not matter. -/
theorem allocateLoop_succ {r : Nat × FlatVol} (h : Vol.allocateLoop flat g fuel v = some r) :
    Vol.allocateLoop flat g (fuel + 1) v = some r := by
  induction fuel generalizing v with
  | zero => cases h
  | succ fuel ih =>
    rw [Vol.allocateLoop] at h ⊢
    dsimp only at h ⊢
    generalize (if g.lastCluster < v.free.nextCluster then Vol.fatComputeFreeInfo flat g v else v) = w
      at h ⊢
    split
    · rename_i hbeyond
      rwa [if_pos hbeyond] at h
    · rename_i hbeyond
      rw [if_neg hbeyond] at h
      split
      · rename_i hfree
        rwa [if_pos hfree] at h
      · rename_i hused
        rw [if_neg hused] at h
        exact ih h

theorem allocateLoop_mono {r : Nat × FlatVol} (h : Vol.allocateLoop flat g fuel v = some r) (k : Nat) :
    Vol.allocateLoop flat g (fuel + k) v = some r := by
  induction k with
  | zero => exact h
  | succ k ih => exact allocateLoop_succ ih

theorem fatAllocateCluster_mono {r : Nat × FlatVol} (h : Vol.fatAllocateCluster flat g fuel v = some r)
    (k : Nat) : Vol.fatAllocateCluster flat g (fuel + k) v = some r := by
  unfold Vol.fatAllocateCluster at h ⊢
  split
  · rename_i herror
    rwa [if_pos herror] at h
  · rename_i herror
    rw [if_neg herror] at h
    exact allocateLoop_mono h k

/-- Whatever `FatAllocateCluster` returns is so. -/
theorem Allocated.of_eq (h : Healthy g) (herror : v.diskError = false)
    (hhint : 2 ≤ v.free.nextCluster)
    (heq : Vol.fatAllocateCluster flat g fuel v = some (c, v')) : Allocated g v c v' := by
  obtain ⟨fuel', c', w, heq', hallocated⟩ := fatAllocateCluster_allocated h herror hhint
  have hleft := fatAllocateCluster_mono heq fuel'
  have hright := fatAllocateCluster_mono heq' fuel
  rw [Nat.add_comm, hright] at hleft
  cases hleft
  exact hallocated

end EfiCore.Fat
