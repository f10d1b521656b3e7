import EfiCore.Fat.SetEntry
import EfiCore.Fat.Space
import EfiCore.Fat.Transparent
import EfiCore.Lib.Fuel

/-! # Volumes on the cache

The requests for entries are short, and for short requests the cache of a volume is as good as the
bytes that it shows.  So the functions of a volume do on its cache what they do on these bytes.
-/

namespace EfiCore.Fat

open EfiCore.Lib

variable {σ : Type} {F : Store σ} {g : Geometry} {good : σ → Prop} {bytes : σ → Nat → Byte}
  {v : Vol σ} {w : FlatVol} {s : σ}

/-! ## What a store shows -/

/-- Short requests inside the volume are answered as the bytes are that the store shows. -/
structure Shows (F : Store σ) (g : Geometry) (good : σ → Prop) (bytes : σ → Nat → Byte) : Prop where
  valid : ∀ s, good s → F.valid s = true
  read : ∀ s offset n, good s → n ≤ 4 → offset + n ≤ g.volSize → ∃ s',
    F.read offset n s = (.success, bytesAt (bytes s) offset n, s') ∧ good s' ∧ bytes s' = bytes s
  write : ∀ s offset bs, good s → bs.length ≤ 4 → offset + bs.length ≤ g.volSize → ∃ s',
    F.write offset bs s = (.success, s') ∧ good s' ∧ bytes s' = putBytes (bytes s) offset bs
  flush : ∀ s, good s → ∃ s', F.flush s = (.success, s') ∧ good s' ∧ bytes s' = bytes s

/-- Nothing that is computed for an entry is cut off at 64 bits. -/
structure NoWrap (g : Geometry) : Prop where
  entry : ∀ i ≤ g.lastCluster, g.fatPos + g.entryOffset i < 2 ^ 62
  fats : g.noFats * g.fatSize < 2 ^ 62

theorem fatEntrySize_le (g : Geometry) : g.fatEntrySize ≤ 4 := by
  unfold Geometry.fatEntrySize
  cases g.fatType <;> decide

theorem entryOffset_le (g : Geometry) (i : Nat) : g.entryOffset i ≤ i * 4 := by
  unfold Geometry.entryOffset
  cases g.fatType with
  | fat12 =>
    have := Nat.mod_le (i * 3) (2 ^ g.arch.bits)
    dsimp only
    omega
  | fat16 =>
    have := Nat.mod_le (i * 2) (2 ^ g.arch.bits)
    dsimp only
    omega
  | fat32 => exact Nat.mod_le ..

/-- Nothing is cut off on a volume that is mounted, if the FATs and the root directory are within
    its sectors. -/
theorem fatLocations_noWrap {A : Arch} {b : BootSector} (h : fatLocations A b = .ok g)
    (hroom : b.reservedSectors.toNat + b.noFats.toNat * b.volSectorsPerFat + b.rootDirSectors ≤
      b.volSectors) : NoWrap g := by
  have hbits := A.two_pow_32_le
  have hsectors := b.volSectors_lt
  have hB := b.sectorSize.isLt
  have hr := b.reservedSectors.isLt
  unfold fatLocations at h
  dsimp only at h
  rw [← BootSector.rootDirSectors] at h
  split at h
  · cases h
  split at h
  · cases h
  have hfirst : A.add ((b.noFats.toNat * b.volSectorsPerFat + b.reservedSectors.toNat) %
      2 ^ A.bits) b.rootDirSectors =
      b.noFats.toNat * b.volSectorsPerFat + b.reservedSectors.toNat + b.rootDirSectors := by
    rw [Nat.mod_eq_of_lt (by omega), Arch.add_of_lt (by omega)]
  rw [hfirst, Arch.sub_of_le (by omega) hsectors] at h
  split at h
  · cases h
  have hg := Except.ok.inj h
  have hfatPos : g.fatPos < 2 ^ 32 := by
    rw [← hg]
    exact (Nat.mod_le ..).trans_lt ((Nat.mul_lt_mul'' hr hB).trans_le (by decide))
  have hlast : g.lastCluster ≤ 2 ^ 32 := by
    rw [← hg]
    refine (Nat.mod_le ..).trans (Nat.succ_le_of_lt ?_)
    exact (Nat.div_le_self ..).trans_lt (by omega)
  refine ⟨fun i hi => ?_, ?_⟩
  · have hoffset := entryOffset_le g i
    omega
  · have hfat := Nat.mul_le_mul_left b.noFats.toNat
      (Nat.mod_le (b.volSectorsPerFat * b.sectorSize.toNat) (2 ^ A.bits))
    have hall : b.noFats.toNat * b.volSectorsPerFat * b.sectorSize.toNat < 2 ^ 48 :=
      (Nat.mul_lt_mul'' (show b.noFats.toNat * b.volSectorsPerFat < 2 ^ 32 by omega) hB).trans_le
        (by decide)
    rw [← Nat.mul_assoc] at hfat
    rw [← hg]
    exact hfat.trans_lt (hall.trans (by decide))

/-- The volume on the bytes that its store shows. -/
def Vol.view (bytes : σ → Nat → Byte) (v : Vol σ) : FlatVol where
  disk := bytes v.disk
  diskError := v.diskError
  fatDirty := v.fatDirty
  dirtyValue := v.dirtyValue
  free := v.free
  fatEntryPos := v.fatEntryPos
  fatEntryBuffer := v.fatEntryBuffer

/-- The volume is as good as the one on bytes. -/
structure Sees (good : σ → Prop) (bytes : σ → Nat → Byte) (v : Vol σ) (w : FlatVol) : Prop where
  good : good v.disk
  entryPos : v.fatEntryPos < 2 ^ 62
  view : w = v.view bytes

/-- What a volume needs for that: its store, and the position of the entry that was loaded last. -/
structure Usable (good : σ → Prop) (v : Vol σ) : Prop where
  good : good v.disk
  entryPos : v.fatEntryPos < 2 ^ 62

theorem Usable.sees (h : Usable good v) (bytes : σ → Nat → Byte) :
    Sees good bytes v (v.view bytes) := ⟨h.good, h.entryPos, rfl⟩

theorem Sees.usable (h : Sees good bytes v w) : Usable good v := ⟨h.good, h.entryPos⟩

section Fields

variable (h : Sees good bytes v w)

include h

theorem Sees.diskError : v.diskError = w.diskError := by rw [h.view]; rfl

theorem Sees.fatDirty : v.fatDirty = w.fatDirty := by rw [h.view]; rfl

theorem Sees.dirtyValue : v.dirtyValue = w.dirtyValue := by rw [h.view]; rfl

theorem Sees.free : v.free = w.free := by rw [h.view]; rfl

theorem Sees.fatEntryPos : v.fatEntryPos = w.fatEntryPos := by rw [h.view]; rfl

theorem Sees.fatEntryBuffer : v.fatEntryBuffer = w.fatEntryBuffer := by rw [h.view]; rfl

end Fields

/-- A result and a volume, and those on bytes. -/
def SeesPair {α : Type} (good : σ → Prop) (bytes : σ → Nat → Byte) (r : α × Vol σ)
    (r' : α × FlatVol) : Prop := r.1 = r'.1 ∧ Sees good bytes r.2 r'.2

/-- A status, a file and a volume, and those on bytes. -/
def SeesFile {α β : Type} (good : σ → Prop) (bytes : σ → Nat → Byte) (r : α × β × Vol σ)
    (r' : α × β × FlatVol) : Prop := r.1 = r'.1 ∧ r.2.1 = r'.2.1 ∧ Sees good bytes r.2.2 r'.2.2

section Table

variable (hF : Shows F g good bytes) (hg : NoWrap g) (h : Sees good bytes v w)

include hF h

theorem Sees.fatDiskIoRead {offset n : Nat} (hn : n ≤ 4) (hwrap : offset + n < 2 ^ 64) :
    SeesFile good bytes (Vol.fatDiskIoRead F g offset n v) (Vol.fatDiskIoRead flat g offset n w) := by
  obtain ⟨hgood, hpos, rfl⟩ := h
  rw [Vol.fatDiskIoRead, Vol.fatDiskIoRead, if_neg (not_not.mpr (hF.valid _ hgood)),
    if_neg (flat_valid _)]
  by_cases hout : Vol.Outside g offset n
  · rw [if_pos hout, if_pos hout]
    exact ⟨rfl, rfl, hgood, hpos, rfl⟩
  · have hin : offset + n ≤ g.volSize := by
      unfold Vol.Outside at hout
      rw [Nat.mod_eq_of_lt hwrap] at hout
      omega
    obtain ⟨s', hread, hgood', hbytes⟩ := hF.read v.disk offset n hgood hn hin
    rw [if_neg hout, if_neg hout, hread]
    exact ⟨rfl, rfl, hgood', hpos, by unfold Vol.view; rw [hbytes]; rfl⟩

theorem Sees.fatDiskIoWrite {offset : Nat} {bs : List Byte} (hn : bs.length ≤ 4)
    (hwrap : offset + bs.length < 2 ^ 64) :
    SeesPair good bytes (Vol.fatDiskIoWrite F g offset bs v)
      (Vol.fatDiskIoWrite flat g offset bs w) := by
  obtain ⟨hgood, hpos, rfl⟩ := h
  rw [Vol.fatDiskIoWrite, Vol.fatDiskIoWrite, if_neg (not_not.mpr (hF.valid _ hgood)),
    if_neg (flat_valid _)]
  by_cases hout : Vol.Outside g offset bs.length
  · rw [if_pos hout, if_pos hout]
    exact ⟨rfl, hgood, hpos, rfl⟩
  · have hin : offset + bs.length ≤ g.volSize := by
      unfold Vol.Outside at hout
      rw [Nat.mod_eq_of_lt hwrap] at hout
      omega
    obtain ⟨s', hwrite, hgood', hbytes⟩ := hF.write v.disk offset bs hgood hn hin
    rw [if_neg hout, if_neg hout, hwrite]
    exact ⟨rfl, hgood', hpos, by unfold Vol.view; rw [hbytes]; rfl⟩

include hg

theorem Sees.fatLoadFatEntry (i : Nat) :
    Sees good bytes (Vol.fatLoadFatEntry F g i v) (Vol.fatLoadFatEntry flat g i w) := by
  unfold Vol.fatLoadFatEntry
  split
  · exact ⟨h.good, h.entryPos, by rw [h.view]; rfl⟩
  · have hentry := hg.entry i (by omega)
    have hsize := fatEntrySize_le g
    dsimp only
    generalize hp : (g.fatPos + g.entryOffset i) % 2 ^ 64 = p
    rw [Nat.mod_eq_of_lt (by omega)] at hp
    have hmoved : Sees good bytes { v with fatEntryPos := p } { w with fatEntryPos := p } :=
      ⟨h.good, show p < 2 ^ 62 by omega, by rw [h.view]; rfl⟩
    have hin : p + g.fatEntrySize < 2 ^ 64 := by omega
    obtain ⟨hstatus, hread, hsees⟩ := hmoved.fatDiskIoRead hF hsize hin
    rw [hstatus, hread]
    split
    · exact ⟨hsees.good, hsees.entryPos, by rw [hsees.view]; rfl⟩
    · exact ⟨hsees.good, hsees.entryPos, by rw [hsees.view]; rfl⟩

theorem Sees.fatGetFatEntry (i : Nat) :
    SeesPair good bytes (Vol.fatGetFatEntry F g i v) (Vol.fatGetFatEntry flat g i w) := by
  have hload := h.fatLoadFatEntry hF hg i
  unfold Vol.fatGetFatEntry
  dsimp only
  split
  · exact ⟨rfl, hload⟩
  · refine ⟨?_, hload⟩
    rw [hload.view]
    rfl

theorem Sees.fatSetVolumeDirty :
    Sees good bytes (Vol.fatSetVolumeDirty F g v).2 (Vol.fatSetVolumeDirty flat g w).2 := by
  have hpos := hg.entry 0 (Nat.zero_le _)
  -- the flush does not change what is shown
  have hflush : ∀ {r : Status × Vol σ} {r' : Status × FlatVol}, Sees good bytes r.2 r'.2 →
      Sees good bytes
        (if F.valid r.2.disk then
          ((F.flush r.2.disk).1, { r.2 with disk := (F.flush r.2.disk).2 }) else r).2
        (if flat.valid r'.2.disk then
          ((flat.flush r'.2.disk).1, { r'.2 with disk := (flat.flush r'.2.disk).2 }) else r').2 := by
    intro r r' hr
    obtain ⟨s', hflush, hgood', hbytes⟩ := hF.flush _ hr.good
    rw [if_pos (hF.valid _ hr.good), if_pos (show flat.valid r'.2.disk = true from rfl), hflush]
    refine ⟨hgood', hr.entryPos, ?_⟩
    rw [hr.view]
    unfold Vol.view
    rw [hbytes]
    rfl
  unfold Vol.fatSetVolumeDirty
  refine hflush ?_
  rw [h.dirtyValue]
  cases g.fatType with
  | fat12 => exact h
  | fat16 =>
    exact (h.fatDiskIoWrite hF (by rw [length_leBytes]; decide) (by rw [length_leBytes]; omega)).2
  | fat32 =>
    exact (h.fatDiskIoWrite hF (by rw [length_leBytes]) (by rw [length_leBytes]; omega)).2

omit hg in
theorem Sees.writeFats (n : Nat) {pos : Nat} (hwrap : pos + n * g.fatSize + 4 < 2 ^ 64) :
    SeesPair good bytes (Vol.writeFats F g n pos v) (Vol.writeFats flat g n pos w) := by
  induction n generalizing pos v w with
  | zero => exact ⟨rfl, h⟩
  | succ n ih =>
    have hsize := fatEntrySize_le g
    rw [Nat.succ_mul] at hwrap
    have hin : pos + (leBytes g.fatEntrySize w.fatEntryBuffer).length < 2 ^ 64 := by
      rw [length_leBytes]
      omega
    obtain ⟨hstatus, hsees⟩ := h.fatDiskIoWrite hF (by rwa [length_leBytes]) hin
    rw [Vol.writeFats, Vol.writeFats, h.fatEntryBuffer]
    dsimp only
    rw [hstatus]
    split
    · exact ⟨rfl, hsees.good, hsees.entryPos, by rw [hsees.view]; rfl⟩
    · split
      · exact ⟨hstatus, hsees⟩
      · rw [Nat.mod_eq_of_lt (by omega)]
        exact ih hsees (by omega)

theorem Sees.fatSetFatEntry (i value : Nat) :
    SeesPair good bytes (Vol.fatSetFatEntry F g i value v) (Vol.fatSetFatEntry flat g i value w) := by
  have hfats := hg.fats
  unfold Vol.fatSetFatEntry
  split
  · exact ⟨rfl, h⟩
  obtain ⟨hread, hget⟩ := h.fatGetFatEntry hF hg i
  dsimp only
  rw [hread]
  have hnoted : Sees good bytes
      { (Vol.fatGetFatEntry F g i v).2 with
        free := FreeInfo.note (Vol.fatGetFatEntry F g i v).2.free i value
          (Vol.fatGetFatEntry flat g i w).1 }
      { (Vol.fatGetFatEntry flat g i w).2 with
        free := FreeInfo.note (Vol.fatGetFatEntry flat g i w).2.free i value
          (Vol.fatGetFatEntry flat g i w).1 } :=
    ⟨hget.good, hget.entryPos, by rw [hget.view]; rfl⟩
  have hload := hnoted.fatLoadFatEntry hF hg i
  generalize Vol.fatLoadFatEntry F g i { (Vol.fatGetFatEntry F g i v).2 with
    free := FreeInfo.note (Vol.fatGetFatEntry F g i v).2.free i value
      (Vol.fatGetFatEntry flat g i w).1 } = x at hload ⊢
  generalize Vol.fatLoadFatEntry flat g i { (Vol.fatGetFatEntry flat g i w).2 with
    free := FreeInfo.note (Vol.fatGetFatEntry flat g i w).2.free i value
      (Vol.fatGetFatEntry flat g i w).1 } = y at hload ⊢
  -- whether or not the volume is marked first, the buffer is written to the FATs
  have hwrite : ∀ {x' : Vol σ} {y' : FlatVol}, Sees good bytes x' y' →
      SeesPair good bytes
        (Vol.writeFats F g g.noFats (x'.fatEntryPos % 2 ^ g.arch.bits) x')
        (Vol.writeFats flat g g.noFats (y'.fatEntryPos % 2 ^ g.arch.bits) y') := by
    intro x' y' hsees
    have hlt := hsees.entryPos
    have hmod := Nat.mod_le y'.fatEntryPos (2 ^ g.arch.bits)
    rw [hsees.fatEntryPos] at hlt ⊢
    exact hsees.writeFats hF _ (by omega)
  have hpatched : Sees good bytes { x with fatEntryBuffer := g.patch i value y.fatEntryBuffer }
      { y with fatEntryBuffer := g.patch i value y.fatEntryBuffer } :=
    ⟨hload.good, hload.entryPos, by rw [hload.view]; rfl⟩
  have hmarked := Sees.fatSetVolumeDirty hF hg
    (v := { x with fatEntryBuffer := g.patch i value y.fatEntryBuffer, fatDirty := true })
    (w := { y with fatEntryBuffer := g.patch i value y.fatEntryBuffer, fatDirty := true })
    ⟨hload.good, hload.entryPos, by rw [hload.view]; rfl⟩
  rw [hload.fatEntryBuffer]
  by_cases hclean : x.fatDirty = true
  · rw [if_pos hclean, if_pos (hload.fatDirty ▸ hclean)]
    exact hwrite hpatched
  · rw [if_neg hclean, if_neg (hload.fatDirty ▸ hclean)]
    exact hwrite hmarked

/-! ## Free clusters -/

theorem Sees.countFree (n : Nat) :
    Sees good bytes (Vol.countFree F g n v) (Vol.countFree flat g n w) := by
  induction n generalizing v w with
  | zero => exact h
  | succ n ih =>
    rw [Vol.countFree, Vol.countFree, h.diskError]
    split
    · exact h
    · obtain ⟨hread, hget⟩ := h.fatGetFatEntry hF hg (n + 1)
      dsimp only
      rw [hread]
      refine ih ?_
      split
      · exact ⟨hget.good, hget.entryPos, by rw [hget.view]; rfl⟩
      · exact hget

theorem Sees.fatComputeFreeInfo :
    Sees good bytes (Vol.fatComputeFreeInfo F g v) (Vol.fatComputeFreeInfo flat g w) := by
  rw [Vol.fatComputeFreeInfo, Vol.fatComputeFreeInfo, h.free]
  split
  · exact h
  · refine Sees.countFree hF hg ?_ g.lastCluster
    exact ⟨h.good, h.entryPos, by rw [h.view]; rfl⟩

theorem Sees.allocateLoop (fuel : Nat) :
    Option.Rel (SeesPair good bytes) (Vol.allocateLoop F g fuel v)
      (Vol.allocateLoop flat g fuel w) := by
  induction fuel generalizing v w with
  | zero => exact .none
  | succ fuel ih =>
    have hstart : Sees good bytes
        (if g.lastCluster < v.free.nextCluster then Vol.fatComputeFreeInfo F g v else v)
        (if g.lastCluster < w.free.nextCluster then Vol.fatComputeFreeInfo flat g w else w) := by
      rw [h.free]
      split
      · exact h.fatComputeFreeInfo hF hg
      · exact h
    rw [Vol.allocateLoop, Vol.allocateLoop]
    dsimp only
    generalize (if g.lastCluster < v.free.nextCluster then Vol.fatComputeFreeInfo F g v else v) = x
      at hstart ⊢
    generalize (if g.lastCluster < w.free.nextCluster then Vol.fatComputeFreeInfo flat g w else w) =
      y at hstart ⊢
    obtain ⟨hread, hget⟩ := hstart.fatGetFatEntry hF hg y.free.nextCluster
    rw [hstart.free]
    split
    · exact .some ⟨rfl, hstart⟩
    · rw [hread, hget.free]
      have hmoved : Sees good bytes
          { (Vol.fatGetFatEntry F g y.free.nextCluster x).2 with
            free := { (Vol.fatGetFatEntry flat g y.free.nextCluster y).2.free with
              nextCluster := ((Vol.fatGetFatEntry flat g y.free.nextCluster y).2.free.nextCluster +
                1) % 2 ^ 32 } }
          { (Vol.fatGetFatEntry flat g y.free.nextCluster y).2 with
            free := { (Vol.fatGetFatEntry flat g y.free.nextCluster y).2.free with
              nextCluster := ((Vol.fatGetFatEntry flat g y.free.nextCluster y).2.free.nextCluster +
                1) % 2 ^ 32 } } :=
        ⟨hget.good, hget.entryPos, by rw [hget.view]; rfl⟩
      split
      · exact .some ⟨rfl, hmoved⟩
      · exact ih hmoved

theorem Sees.fatAllocateCluster (fuel : Nat) :
    Option.Rel (SeesPair good bytes) (Vol.fatAllocateCluster F g fuel v)
      (Vol.fatAllocateCluster flat g fuel w) := by
  rw [Vol.fatAllocateCluster, Vol.fatAllocateCluster, h.diskError]
  split
  · exact .some ⟨rfl, h⟩
  · exact h.allocateLoop hF hg fuel

/-! ## The chain of a file -/

theorem Sees.findLast (n last c : Nat) :
    SeesPair good bytes (Vol.findLast F g n last c v) (Vol.findLast flat g n last c w) := by
  induction n generalizing last c v w with
  | zero => exact ⟨rfl, h⟩
  | succ n ih =>
    rw [Vol.findLast, Vol.findLast]
    split
    · exact ⟨rfl, h⟩
    · obtain ⟨hread, hget⟩ := h.fatGetFatEntry hF hg c
      dsimp only
      rw [hread]
      exact ih hget ..

theorem Sees.freeChain (fuel c : Nat) :
    Option.Rel (SeesPair good bytes) (Vol.freeChain F g fuel c v) (Vol.freeChain flat g fuel c w) := by
  induction fuel generalizing c v w with
  | zero => exact .none
  | succ fuel ih =>
    rw [Vol.freeChain, Vol.freeChain]
    split
    · exact .some ⟨rfl, h⟩
    · split
      · exact .some ⟨rfl, h⟩
      · obtain ⟨hread, hget⟩ := h.fatGetFatEntry hF hg c
        dsimp only
        rw [hread]
        exact ih (hget.fatSetFatEntry hF hg c 0).2 _

theorem Sees.fatShrinkEof (fuel : Nat) (f : OFile) :
    Option.Rel (SeesFile good bytes) (Vol.fatShrinkEof F g fuel f v)
      (Vol.fatShrinkEof flat g fuel f w) := by
  unfold Vol.fatShrinkEof
  dsimp only
  split
  · obtain ⟨hfound, hfind⟩ := h.findLast hF hg (g.fatSizeToClusters f.fileSize) 0 f.fileCluster
    rw [hfound]
    cases (Vol.findLast flat g (g.fatSizeToClusters f.fileSize) 0 f.fileCluster w).1 with
    | none => exact .some ⟨rfl, rfl, hfind⟩
    | some found =>
      refine (Sees.freeChain hF hg (hfind.fatSetFatEntry hF hg ..).2 ..).map fun _ _ hr => ?_
      exact ⟨hr.1, rfl, hr.2⟩
  · split
    · exact .some ⟨rfl, rfl, h⟩
    · exact (h.freeChain hF hg ..).map fun _ _ hr => ⟨hr.1, rfl, hr.2⟩

theorem Sees.findEnd (fuel last count c : Nat) :
    Option.Rel (SeesPair good bytes) (Vol.findEnd F g fuel last count c v)
      (Vol.findEnd flat g fuel last count c w) := by
  induction fuel generalizing last count c v w with
  | zero => exact .none
  | succ fuel ih =>
    rw [Vol.findEnd, Vol.findEnd]
    split
    · exact .some ⟨rfl, h⟩
    · split
      · exact .some ⟨rfl, h⟩
      · obtain ⟨hread, hget⟩ := h.fatGetFatEntry hF hg c
        dsimp only
        rw [hread]
        exact ih hget ..

theorem Sees.growChain (fuel n last : Nat) (f : OFile) :
    Option.Rel (SeesFile good bytes) (Vol.growChain F g fuel n last f v)
      (Vol.growChain flat g fuel n last f w) := by
  induction n generalizing last f v w with
  | zero => exact .some ⟨rfl, rfl, (h.fatSetFatEntry hF hg ..).2⟩
  | succ n ih =>
    rw [Vol.growChain, Vol.growChain]
    refine (h.fatAllocateCluster hF hg fuel).bind fun r r' ⟨hcluster, hr⟩ => ?_
    rw [hcluster]
    split
    · split
      · exact .some ⟨rfl, rfl, (hr.fatSetFatEntry hF hg ..).2⟩
      · exact .some ⟨rfl, rfl, hr⟩
    · split
      · exact ih (hr.fatSetFatEntry hF hg ..).2 ..
      · exact ih hr ..

theorem Sees.fatGrowEof (fuel newSize : Nat) (f : OFile) :
    Option.Rel (SeesFile good bytes) (Vol.fatGrowEof F g fuel newSize f v)
      (Vol.fatGrowEof flat g fuel newSize f w) := by
  unfold Vol.fatGrowEof
  dsimp only
  split
  · exact .some ⟨rfl, rfl, h⟩
  · split
    · refine (h.findEnd hF hg ..).bind fun r r' ⟨hend, hr⟩ => ?_
      rw [hend]
      split
      · exact .some ⟨rfl, rfl, hr⟩
      · exact hr.growChain hF hg ..
    · exact h.growChain hF hg ..

theorem Sees.addClusters (fuel size c : Nat) :
    Option.Rel (SeesPair good bytes) (Vol.addClusters F g fuel size c v)
      (Vol.addClusters flat g fuel size c w) := by
  induction fuel generalizing size c v w with
  | zero => exact .none
  | succ fuel ih =>
    rw [Vol.addClusters, Vol.addClusters]
    split
    · exact .some ⟨rfl, h⟩
    · split
      · exact .some ⟨rfl, h⟩
      · obtain ⟨hread, hget⟩ := h.fatGetFatEntry hF hg c
        dsimp only
        rw [hread]
        exact ih hget ..

theorem Sees.fatDirSize (fuel : Nat) (f : OFile) :
    Option.Rel (SeesPair good bytes) (Vol.fatDirSize F g fuel f v)
      (Vol.fatDirSize flat g fuel f w) := by
  unfold Vol.fatDirSize
  split
  · exact .some ⟨rfl, h⟩
  · split
    · exact .some ⟨rfl, h⟩
    · exact h.addClusters hF hg ..

theorem Sees.seek (position fuel pos c : Nat) :
    Option.Rel (SeesPair good bytes) (Vol.seek F g position fuel pos c v)
      (Vol.seek flat g position fuel pos c w) := by
  induction fuel generalizing pos c v w with
  | zero => exact .none
  | succ fuel ih =>
    rw [Vol.seek, Vol.seek]
    split
    · exact .some ⟨rfl, h⟩
    · split
      · exact .some ⟨rfl, h⟩
      · obtain ⟨hread, hget⟩ := h.fatGetFatEntry hF hg c
        dsimp only
        rw [hread]
        exact ih hget ..

theorem Sees.extendRun (fuel run c : Nat) :
    Option.Rel (SeesPair good bytes) (Vol.extendRun F g fuel run c v)
      (Vol.extendRun flat g fuel run c w) := by
  induction fuel generalizing run c v w with
  | zero => exact .none
  | succ fuel ih =>
    obtain ⟨hread, hget⟩ := h.fatGetFatEntry hF hg c
    rw [Vol.extendRun, Vol.extendRun]
    rw [hread]
    split
    · exact ih hget ..
    · exact .some ⟨rfl, hget⟩

theorem Sees.fatOFilePosition (fuel position : Nat) (f : OFile) :
    Option.Rel (SeesFile good bytes) (Vol.fatOFilePosition F g fuel position f v)
      (Vol.fatOFilePosition flat g fuel position f w) := by
  unfold Vol.fatOFilePosition
  split
  · exact .some ⟨rfl, rfl, h⟩
  · refine (h.seek hF hg ..).bind fun r r' ⟨hfound, hr⟩ => ?_
    rw [hfound]
    cases r'.1 with
    | none => exact .some ⟨rfl, rfl, hr⟩
    | some found =>
      dsimp only [Option.elim_some]
      split
      · exact .some ⟨rfl, rfl, hr⟩
      · refine (hr.extendRun hF hg ..).map fun e e' ⟨hrun, he⟩ => ⟨rfl, ?_, he⟩
        rw [hrun]

end Table

/-! ## Short requests of the cache -/

section Cache

variable {D : Drive} {L : Layout} {x y : Volume} {bs cs : List Byte} {offset n : Nat}

/-- The byte that a volume shows: that of its page in the cache, if there is one, or that of the
    device. -/
def Volume.byte (v : Volume) (k : Nat) : Byte :=
  match v.cache.find? fun c => c.valid && c.pageNo == k / v.cachePageSize with
  | some c => c.data.getD (k % v.cachePageSize) 0
  | none => v.device.disk.getD k 0

/-- The cache and the device agree on the bytes of the volume. -/
def Coherent (D : Drive) (L : Layout) (v : Volume) : Prop := ∃ bytes, Holds D L v bytes

theorem Fresh.coherent (h : Fresh D L x) : Coherent D L x := ⟨x.device.disk, h.holds⟩

theorem Volume.entry_eq {i : Nat} (hi : i < x.cache.length) : x.entry i = x.cache[i] := by
  rw [Volume.entry, List.getD_eq_getElem?_getD, List.getElem?_eq_getElem hi, Option.getD_some]

theorem Holds.byte_eq (h : Holds D L x bs) : x.byte = fun k => bs.getD k 0 := by
  funext k
  have hmod := Nat.mod_lt k L.pageSize_pos
  have hdiv := Nat.div_add_mod' k L.pageSize
  have hpage : ∀ l : List Byte, (page L.pageSize l (k / L.pageSize)).getD (k % L.pageSize) 0 =
      l.getD k 0 := by
    intro l
    rw [page, getD_slice hmod, hdiv]
  rw [Volume.byte, h.pageSize]
  cases hfind : x.cache.find? fun c => c.valid && c.pageNo == k / L.pageSize with
  | some c =>
    obtain ⟨i, hi, rfl⟩ := List.mem_iff_getElem.mp (List.mem_of_find?_eq_some hfind)
    have hc := List.find?_some hfind
    rw [Bool.and_eq_true, beq_iff_eq, ← Volume.entry_eq hi] at hc
    have hdata := (h.cached i (h.entries ▸ hi) hc.1).2
    rw [hc.2] at hdata
    dsimp only
    rw [← Volume.entry_eq hi, hdata]
    exact hpage bs
  | none =>
    by_cases hk : k < L.size
    · have hlt : k / L.pageSize < L.pages := (Nat.div_lt_iff_lt_mul L.pageSize_pos).mpr hk
      -- the page is not in the cache
      have hclean := h.clean (k / L.pageSize) hlt fun i hi hvalid _ heq => by
        have hmem : x.entry i ∈ x.cache := by
          rw [Volume.entry_eq (h.entry_lt hi)]
          exact List.getElem_mem _
        have hno := List.find?_eq_none.mp hfind _ hmem
        rw [hvalid, heq, beq_self_eq_true] at hno
        exact hno rfl
      dsimp only
      rw [← hpage, hclean, hpage]
    · have hdrop : ∀ l : List Byte, (l.drop L.size).getD (k - L.size) 0 = l.getD k 0 := by
        intro l
        rw [List.getD_eq_getElem?_getD, List.getElem?_drop, List.getD_eq_getElem?_getD,
          Nat.add_sub_cancel' (Nat.not_lt.mp hk)]
      dsimp only
      rw [← hdrop, h.behind, hdrop]

/-- The device does not fail and can be written, and the pages of the cache divide the volume and are
    longer than the requests for entries. -/
structure Regime (D : Drive) (g : Geometry) (L : Layout) : Prop where
  size : L.size = g.volSize
  pageSize : 4 < L.pageSize
  reliable : ∀ n, D.fate n = none
  writable : D.readOnly = false

theorem not_failed (hfate : ∀ n, D.fate n = none) {m n : Nat} : ¬D.Failed m n := by
  rintro ⟨k, -, -, hk⟩
  rw [hfate k] at hk
  cases hk

theorem evictsSafely (hfate : ∀ n, D.fate n = none) {x : Volume} {pageNo : Nat} :
    x.EvictsSafely D pageNo := fun _ _ _ _ => hfate _

theorem readsSafely (hfate : ∀ n, D.fate n = none) (hshort : n < x.cachePageSize) (pageNo : Nat) :
    x.ReadsSafely D pageNo n where
  direct hle := absurd hle (Nat.not_le.mpr hshort)
  reports hle := absurd hle (Nat.not_le.mpr hshort)
  evicts _ := evictsSafely hfate

theorem writesSafely (hfate : ∀ n, D.fate n = none) (hshort : n < x.cachePageSize) (pageNo : Nat) :
    x.WritesSafely D pageNo n where
  direct hle := absurd hle (Nat.not_le.mpr hshort)
  reports hle := absurd hle (Nat.not_le.mpr hshort)
  evicts _ := evictsSafely hfate

theorem Holds.pageSize_get (h : Holds D L x bs) (hfate : ∀ n, D.fate n = none) {pageNo : Nat}
    (hpage : pageNo < L.pages) : (x.fatGetCacheBuffer D pageNo).2.cachePageSize = L.pageSize := by
  obtain ⟨i, y, hget, hgot, -⟩ | ⟨status, y, -, -, hfailed⟩ :=
    h.fatGetCacheBuffer hpage (evictsSafely hfate)
  · rw [hget]
    exact hgot.holds.pageSize
  · exact absurd hfailed (not_failed hfate)

theorem Holds.read_short (h : Holds D L x bs) (hfate : ∀ n, D.fate n = none)
    (hshort : n < L.pageSize) (hinside : offset + n ≤ L.size) :
    ∃ y, x.fatDiskIoReadVolume D offset (List.replicate n 0) = (.success, slice bs offset n, y) ∧
      Holds D L y bs := by
  have hdiv := Nat.div_add_mod' offset L.pageSize
  have hcareful : (Request.read offset (List.replicate n 0)).Careful D x := by
    rw [Request.Careful, h.split (by omega), List.length_replicate, h.pageSize]
    dsimp only
    split
    · exact readsSafely hfate (by rwa [h.pageSize]) _
    · rename_i hzero
      refine ⟨evictsSafely hfate, fun _ => readsSafely hfate ?_ _⟩
      rw [h.pageSize_get hfate (L.page_lt hzero (by omega))]
      omega
  have hdone := h.fatDiskIoReadVolume (by rwa [List.length_replicate]) hcareful
  rw [List.length_replicate] at hdone
  cases hdone with
  | fine _ hsuccess hgood => exact ⟨_, Prod.ext hsuccess (Prod.ext hgood.1 rfl), hgood.2⟩
  | reported hfailed _ => exact absurd hfailed (not_failed hfate)

theorem Holds.write_short (h : Holds D L x bs) (hfate : ∀ n, D.fate n = none)
    (hwrite : D.readOnly = false) (hshort : cs.length < L.pageSize)
    (hinside : offset + cs.length ≤ L.size) :
    ∃ y, x.fatDiskIoWriteVolume D offset cs = (.success, y) ∧
      Holds D L y (splice bs offset cs) := by
  have hdiv := Nat.div_add_mod' offset L.pageSize
  have hcareful : (Request.write offset cs).Careful D x := by
    rw [Request.Careful, h.split (by omega), h.pageSize]
    dsimp only
    split
    · exact writesSafely hfate (by rwa [h.pageSize]) _
    · rename_i hzero
      refine ⟨evictsSafely hfate, fun _ i _ => writesSafely hfate ?_ _⟩
      show _ < (x.fatGetCacheBuffer D _).2.cachePageSize
      rw [h.pageSize_get hfate (L.page_lt hzero (by omega))]
      omega
  cases h.fatDiskIoWriteVolume hwrite hinside hcareful with
  | fine _ hsuccess hgood => exact ⟨_, Prod.ext hsuccess rfl, hgood⟩
  | reported hfailed _ => exact absurd hfailed (not_failed hfate)

/-- An entry after it was written back. -/
def CacheBuffer.flushed (c : CacheBuffer) : CacheBuffer :=
  if c.valid && c.dirty then { c with dirty := false } else c

theorem flushed_fields (c : CacheBuffer) : c.flushed.valid = c.valid ∧
    c.flushed.pageNo = c.pageNo ∧ c.flushed.data = c.data := by
  unfold CacheBuffer.flushed
  split <;> exact ⟨rfl, rfl, rfl⟩

theorem flushEntries_cache (hfate : ∀ n, D.fate n = none) (size : Nat) (cache : List CacheBuffer)
    (d : Device) :
    (Volume.flushEntries D size cache d).2.1 = cache.map CacheBuffer.flushed := by
  induction cache generalizing d with
  | nil => rfl
  | cons c cache ih =>
    rw [Volume.flushEntries, List.map_cons, CacheBuffer.flushed]
    split
    · rw [Device.writeDisk, hfate]
      exact congrArg _ (ih _)
    · exact congrArg _ (ih _)

theorem Holds.flush (h : Holds D L x bs) (hfate : ∀ n, D.fate n = none) :
    ∃ y, x.fatVolumeFlushCache D = (.success, y) ∧ Holds D L y bs := by
  have hcache : (x.fatVolumeFlushCache D).2.cache = x.cache.map CacheBuffer.flushed := by
    rw [Volume.fatVolumeFlushCache, if_pos h.valid]
    exact flushEntries_cache hfate ..
  cases h.fatVolumeFlushCache with
  | reported hfailed _ => exact absurd hfailed (not_failed hfate)
  | fine _ hsuccess hdisk =>
    have hentry : ∀ i < fatCacheSize,
        (x.fatVolumeFlushCache D).2.entry i = (x.entry i).flushed := by
      intro i hi
      rw [Volume.entry, hcache, Volume.entry_eq (h.entry_lt hi), List.getD_eq_getElem?_getD,
        List.getElem?_map, List.getElem?_eq_getElem (h.entry_lt hi), Option.map_some,
        Option.getD_some]
    refine ⟨_, Prod.ext hsuccess rfl, ?_⟩
    have hrest : (x.fatVolumeFlushCache D).2 = { x with
        cache := (x.fatVolumeFlushCache D).2.cache
        device := (x.fatVolumeFlushCache D).2.device } := by
      rw [Volume.fatVolumeFlushCache, if_pos h.valid]
    constructor
    · exact (congrArg Volume.valid hrest).trans h.valid
    · exact (congrArg Volume.mediaId hrest).trans h.media
    · exact (congrArg Volume.cachePageSize hrest).trans h.pageSize
    · rw [hcache, List.length_map, h.entries]
    · rw [hdisk]
    · exact h.inside
    · intro i hi
      rw [hentry i hi, (flushed_fields _).2.2]
      exact h.data i hi
    · intro i hi
      rw [hentry i hi, (flushed_fields _).1, (flushed_fields _).2.1, (flushed_fields _).2.2]
      exact h.cached i hi
    · intro i hi j hj
      rw [hentry i hi, hentry j hj, (flushed_fields _).1, (flushed_fields _).1,
        (flushed_fields _).2.1, (flushed_fields _).2.1]
      exact h.distinct i hi j hj
    · intro p _ _
      rw [hdisk]
    · rw [hdisk]

/-- The cache of a volume shows the bytes of the volume. -/
theorem Regime.shows (h : Regime D g L) : Shows (cached D) g (Coherent D L) Volume.byte where
  valid := fun _ ⟨_, hholds⟩ => hholds.valid
  read := by
    rintro x offset n ⟨bs, hholds⟩ hn hin
    rw [← h.size] at hin
    have hpage := h.pageSize
    obtain ⟨y, hread, hholds'⟩ := hholds.read_short h.reliable (by omega) hin
    refine ⟨y, ?_, ⟨bs, hholds'⟩, hholds'.byte_eq.trans hholds.byte_eq.symm⟩
    rw [hholds.byte_eq, bytesAt_getD (hin.trans hholds.inside)]
    exact hread
  write := by
    rintro x offset cs ⟨bs, hholds⟩ hn hin
    rw [← h.size] at hin
    have hpage := h.pageSize
    obtain ⟨y, hwrite, hholds'⟩ := hholds.write_short h.reliable h.writable (by omega) hin
    refine ⟨y, hwrite, ⟨_, hholds'⟩, ?_⟩
    rw [hholds'.byte_eq, hholds.byte_eq]
    funext k
    exact getD_splice (hin.trans hholds.inside) k 0
  flush := by
    rintro x ⟨bs, hholds⟩
    obtain ⟨y, hflush, hholds'⟩ := hholds.flush h.reliable
    exact ⟨y, hflush, ⟨bs, hholds'⟩, hholds'.byte_eq.trans hholds.byte_eq.symm⟩

/-- Nothing is cut off on a volume that has a cache. -/
theorem Regime.noWrap (h : Regime D g L) (hg : Sound g) : NoWrap g := by
  have hsize := L.size_lt
  have hvol := h.size
  have hinside := hg.inside
  have hfats : g.fatSize ≤ g.noFats * g.fatSize := Nat.le_mul_of_pos_left _ hg.noFats
  refine ⟨fun i hi => ?_, by omega⟩
  have hplace := hg.place_add_le hi
  rw [hg.entryOffset_eq hi]
  omega

/-! ## The pages of a mounted volume -/

/-- The loop of `FatAllocateVolume` for the sectors of a page.  It divides by 0 if a sector is longer
    than a page can be. -/
def cachePageSectors (sectors sectorSize : Nat) : Nat → Option Nat
  | 0 => none
  | n + 1 =>
    if sectors % (n + 1) ≠ 0 ∨ fatCachePageMaxSize < (n + 1) * sectorSize then
      cachePageSectors sectors sectorSize ((n + 1) / 2)
    else some (n + 1)

theorem cachePageSectors_some {sectors sectorSize n c : Nat}
    (h : cachePageSectors sectors sectorSize n = some c) :
    0 < c ∧ sectors % c = 0 ∧ c * sectorSize ≤ fatCachePageMaxSize := by
  fun_induction cachePageSectors sectors sectorSize n with
  | case1 => cases h
  | case2 _ _ ih => exact ih h
  | case3 n hfits =>
    cases h
    rw [not_or, not_not, Nat.not_lt] at hfits
    exact ⟨Nat.succ_pos n, hfits⟩

/-- The pages of a volume that is mounted divide it. -/
theorem fatLocations_layout {A : Arch} {b : BootSector} {c : Nat} (h : fatLocations A b = .ok g)
    (hpages : cachePageSectors b.volSectors b.sectorSize.toNat b.sectorsPerCluster.toNat = some c) :
    ∃ L : Layout, L.pageSize = c * b.sectorSize.toNat ∧ L.size = g.volSize := by
  obtain ⟨hc, hdvd, hle⟩ := cachePageSectors_some hpages
  have hsectors := b.volSectors_lt
  have hsize := b.sectorSize.isLt
  unfold fatLocations at h
  dsimp only at h
  split at h
  · cases h
  split at h
  · cases h
  rename_i hzero
  split at h
  · cases h
  cases h
  have hdiv := Nat.div_mul_cancel (Nat.dvd_of_mod_eq_zero hdvd)
  refine ⟨⟨c * b.sectorSize.toNat, b.volSectors / c, Nat.mul_pos hc (Nat.pos_of_ne_zero hzero), hle,
    (Nat.div_le_self ..).trans_lt hsectors⟩, rfl, ?_⟩
  have hvol : b.volSectors * b.sectorSize.toNat < 2 ^ 48 :=
    (Nat.mul_lt_mul'' hsectors hsize).trans_le (by decide)
  dsimp only [Layout.size]
  rw [Disk.driverLibMultU64x32_of_lt (by omega), ← Nat.mul_assoc, hdiv]

/-- A volume on a disk, with nothing in its cache. -/
def mountedVolume (L : Layout) (disk : List Byte) : Volume where
  valid := true
  mediaId := 0
  cachePageSize := L.pageSize
  cache := List.replicate fatCacheSize ⟨false, false, 0, 0, List.replicate L.pageSize 0⟩
  device := ⟨disk, 0⟩

theorem mountedVolume_fresh {disk : List Byte} (hmedia : D.mediaId = 0) (h : L.size ≤ disk.length) :
    Fresh D L (mountedVolume L disk) := by
  have hentry : ∀ i < fatCacheSize, (mountedVolume L disk).entry i =
      ⟨false, false, 0, 0, List.replicate L.pageSize 0⟩ := by
    intro i hi
    rw [Volume.entry, mountedVolume, List.getD_eq_getElem?_getD, List.getElem?_replicate, if_pos hi,
      Option.getD_some]
  exact
    { valid := rfl
      media := hmedia.symm
      pageSize := rfl
      entries := List.length_replicate
      inside := h
      data := fun i hi => by rw [hentry i hi, List.length_replicate]
      empty := fun i hi => by rw [hentry i hi] }

/-- The bytes of a disk. -/
structure Medium (disk : List Byte) (size : Nat) (m : Nat → Byte) : Prop where
  length : disk.length = size
  bytes : (fun k => disk.getD k 0) = m

theorem Medium.blank (size : Nat) : Medium (List.replicate size 0) size fun _ => 0 := by
  refine ⟨List.length_replicate, funext fun k => ?_⟩
  rw [List.getD_eq_getElem?_getD, List.getElem?_replicate]
  split <;> rfl

theorem Medium.splice {disk : List Byte} {size : Nat} {m : Nat → Byte} (h : Medium disk size m)
    (hinside : offset + cs.length ≤ size) :
    Medium (splice disk offset cs) size (putBytes m offset cs) := by
  rw [← h.length] at hinside
  refine ⟨(length_splice hinside).trans h.length, ?_⟩
  rw [← h.bytes]
  exact funext fun k => getD_splice hinside k 0

theorem Medium.coherent {disk : List Byte} {m : Nat → Byte} (h : Medium disk L.size m)
    (hmedia : D.mediaId = 0) : Coherent D L (mountedVolume L disk) :=
  (mountedVolume_fresh hmedia h.length.ge).coherent

theorem Medium.byte {disk : List Byte} {m : Nat → Byte} (h : Medium disk L.size m) :
    (mountedVolume L disk).byte = m :=
  (mountedVolume_fresh (D := reliable) rfl h.length.ge).holds.byte_eq.trans h.bytes

/-- The volume on such a disk, with nothing in its cache. -/
def FlatVol.mounted (w : FlatVol) (L : Layout) (disk : List Byte) : Vol Volume where
  disk := mountedVolume L disk
  diskError := w.diskError
  fatDirty := w.fatDirty
  dirtyValue := w.dirtyValue
  free := w.free
  fatEntryPos := w.fatEntryPos
  fatEntryBuffer := w.fatEntryBuffer

theorem FlatVol.mounted_sees {disk : List Byte} (h : Medium disk L.size w.disk)
    (hpos : w.fatEntryPos < 2 ^ 62) :
    Sees (Coherent reliable L) Volume.byte (w.mounted L disk) w := by
  refine ⟨h.coherent rfl, hpos, ?_⟩
  unfold Vol.view mounted
  rw [h.byte]

/-- The pages of the volume of four clusters. -/
def smallPages : Layout :=
  { twoPages with
    pages := 7
    pages_lt := Nat.le_of_ble_eq_true rfl }

theorem smallFat_regime : Regime reliable smallFat smallPages :=
  ⟨rfl, by decide, fun _ => rfl, rfl⟩

/-- A device whose first two calls fail. -/
def firstFail : Drive :=
  ⟨.efi64, 0, false, fun n => if n < 2 then some ⟨.deviceError, id, rfl, fun _ => rfl⟩ else none⟩

/-- A volume of four free clusters. -/
def smallVol : Vol Volume := blankVol.mounted smallPages (List.replicate 3584 0)

theorem small_medium : Medium (List.replicate 3584 0) smallPages.size blankVol.disk := .blank 3584

end Cache

end EfiCore.Fat
