import EfiCore.Fat.Entry

/-! # Getting and setting entries

What `FatGetFatEntry` and `FatSetFatEntry` do on bytes that are read and written without a failure,
for a table that is whole.
-/

namespace EfiCore.Fat

open EfiCore.Lib

variable {g : Geometry} {v v' v'' : FlatVol} {i j k n pos value word c : Nat} {m : Nat → Byte}

/-! ## Requests -/

theorem flat_valid (m : Nat → Byte) : ¬¬flat.valid m = true := fun h => h rfl

namespace Vol

theorem fatDiskIoRead_flat (h : ¬Outside g pos n) (v : FlatVol) :
    fatDiskIoRead flat g pos n v = (.success, bytesAt v.disk pos n, v) := by
  rw [fatDiskIoRead, if_neg (flat_valid v.disk), if_neg h]
  rfl

theorem fatDiskIoRead_outside (h : Outside g pos n) (v : FlatVol) :
    fatDiskIoRead flat g pos n v = (.volumeCorrupted, [], v) := by
  rw [fatDiskIoRead, if_neg (flat_valid v.disk), if_pos h]

theorem fatDiskIoWrite_flat {bs : List Byte} (h : ¬Outside g pos bs.length) (v : FlatVol) :
    fatDiskIoWrite flat g pos bs v = (.success, { v with disk := putBytes v.disk pos bs }) := by
  rw [fatDiskIoWrite, if_neg (flat_valid v.disk), if_neg h]
  rfl

end Vol

/-! ## Getting -/

/-- Where `FatLoadFatEntry` looks for an entry. -/
def Geometry.loadPos (g : Geometry) (i : Nat) : Nat := (g.fatPos + g.entryOffset i) % 2 ^ 64

/-- What `FatLoadFatEntry` makes of the buffer. -/
def Geometry.loadWord (g : Geometry) (m : Nat → Byte) (i : Nat) : Nat :=
  if Vol.Outside g (g.loadPos i) g.fatEntrySize then g.allOnes
  else numAt m (g.loadPos i) g.fatEntrySize

/-- What `FatGetFatEntry` returns. -/
def Geometry.read (g : Geometry) (m : Nat → Byte) (c : Nat) : Nat :=
  if g.lastCluster < c then g.clusterLast else g.extend (g.entryValue c (g.loadWord m c))

/-- Reading does not change the disk. -/
theorem fatGetFatEntry_read (g : Geometry) (c : Nat) (v : FlatVol) :
    (Vol.fatGetFatEntry flat g c v).1 = g.read v.disk c ∧
      (Vol.fatGetFatEntry flat g c v).2.disk = v.disk := by
  by_cases hc : g.lastCluster < c
  · rw [Vol.fatGetFatEntry, Vol.fatLoadFatEntry, if_pos hc, if_pos hc, Geometry.read, if_pos hc]
    exact ⟨rfl, rfl⟩
  · rw [Vol.fatGetFatEntry, Vol.fatLoadFatEntry, if_neg hc, if_neg hc, Geometry.read, if_neg hc,
      Geometry.loadWord]
    dsimp only
    rw [← Geometry.loadPos]
    by_cases hout : Vol.Outside g (g.loadPos c) g.fatEntrySize
    · rw [Vol.fatDiskIoRead_outside hout, if_pos hout]
      exact ⟨rfl, rfl⟩
    · rw [Vol.fatDiskIoRead_flat hout, if_neg hout]
      exact ⟨rfl, rfl⟩

theorem Geometry.extend_lt {accum : Nat} (h : accum < g.bound) :
    g.extend accum < 2 ^ g.arch.bits := by
  have := g.bound_lt
  have := g.arch.two_pow_32_le
  unfold extend
  split <;> omega

theorem loadWord_lt (g : Geometry) (m : Nat → Byte) (i : Nat) :
    g.loadWord m i < 256 ^ g.fatEntrySize := by
  unfold Geometry.loadWord
  split
  · exact Nat.sub_lt (Nat.pow_pos (by decide)) Nat.one_pos
  · exact numAt_lt ..

theorem Geometry.read_lt (g : Geometry) (m : Nat → Byte) (c : Nat) :
    g.read m c < 2 ^ g.arch.bits := by
  unfold read
  split
  · exact Nat.sub_lt (Nat.two_pow_pos _) Nat.one_pos
  · exact g.extend_lt (entryValue_lt (loadWord_lt ..))

theorem Geometry.read_of_gt (h : g.lastCluster < c) (m : Nat → Byte) : g.read m c = g.clusterLast :=
  if_pos h

/-! ## Entries of a table that is whole -/

theorem Sound.place_inside (h : Sound g) (hi : i ≤ g.lastCluster) :
    ¬Vol.Outside g (g.fatPos + g.place i) g.fatEntrySize := by
  have hplace := h.place_add_le hi
  have hfats : g.fatSize ≤ g.noFats * g.fatSize := Nat.le_mul_of_pos_left _ h.noFats
  have hinside := h.inside
  have hvol := h.volSize
  unfold Vol.Outside
  rw [Nat.mod_eq_of_lt (by omega)]
  omega

theorem Sound.loadPos_eq (h : Sound g) (hi : i ≤ g.lastCluster) :
    g.loadPos i = g.fatPos + g.place i := by
  have hplace := h.place_add_le hi
  have hfats : g.fatSize ≤ g.noFats * g.fatSize := Nat.le_mul_of_pos_left _ h.noFats
  have hinside := h.inside
  have hvol := h.volSize
  have hsize := g.fatEntrySize_pos
  rw [Geometry.loadPos, h.entryOffset_eq hi, Nat.mod_eq_of_lt (by omega)]

theorem Sound.loadWord_eq (h : Sound g) (hi : i ≤ g.lastCluster) (m : Nat → Byte) :
    g.loadWord m i = g.wordAt m g.fatPos i := by
  rw [Geometry.loadWord, h.loadPos_eq hi, if_neg (h.place_inside hi), Geometry.wordAt]

theorem Sound.read_eq (h : Sound g) (hi : i ≤ g.lastCluster) (m : Nat → Byte) :
    g.read m i = g.fatEntry m i := by
  rw [Geometry.read, if_neg (by omega), h.loadWord_eq hi]
  rfl

/-- What `FatLoadFatEntry` does, for an entry of the table. -/
theorem Sound.fatLoadFatEntry_eq (h : Sound g) (hi : i ≤ g.lastCluster) (v : FlatVol) :
    Vol.fatLoadFatEntry flat g i v =
      { v with
        fatEntryPos := g.fatPos + g.place i
        fatEntryBuffer := g.wordAt v.disk g.fatPos i } := by
  have hpos := h.loadPos_eq hi
  unfold Geometry.loadPos at hpos
  rw [Vol.fatLoadFatEntry, if_neg (by omega)]
  dsimp only
  rw [hpos, Vol.fatDiskIoRead_flat (h.place_inside hi)]
  rfl

/-! ## Setting -/

/-- The disk once the volume is marked: the mark is entry 1 of the first FAT. -/
def Geometry.mark (g : Geometry) (dirtyValue : Nat) (m : Nat → Byte) : Nat → Byte :=
  match g.fatType with
  | .fat12 => m
  | .fat16 | .fat32 => putNum m (g.fatPos + g.place 1) g.fatEntrySize dirtyValue

theorem Sound.fatSetVolumeDirty_eq (h : Sound g) (hone : 1 ≤ g.lastCluster) (v : FlatVol) :
    (Vol.fatSetVolumeDirty flat g v).2 = { v with disk := g.mark v.dirtyValue v.disk } := by
  have hin := h.place_inside hone
  unfold Vol.fatSetVolumeDirty Geometry.mark
  unfold Geometry.place Geometry.fatEntrySize at *
  cases htype : g.fatType with
  | fat12 => rfl
  | fat16 =>
    simp only [htype, Nat.one_mul] at hin ⊢
    rw [Vol.fatDiskIoWrite_flat (by rwa [length_leBytes])]
    rfl
  | fat32 =>
    simp only [htype, Nat.one_mul] at hin ⊢
    rw [Vol.fatDiskIoWrite_flat (by rwa [length_leBytes])]
    rfl

/-- The mark is in the bytes of entry 1. -/
theorem mark_of_out (h : k < g.fatPos + g.place 1 ∨ g.fatPos + g.place 1 + g.fatEntrySize ≤ k) :
    g.mark value m k = m k := by
  unfold Geometry.mark
  cases g.fatType with
  | fat12 => rfl
  | fat16 => exact putNum_of_out h
  | fat32 => exact putNum_of_out h

theorem mark_fat12 (htype : g.fatType = .fat12) : g.mark value m = m := by
  rw [Geometry.mark, htype]

theorem wordAt_mark_one (htype : g.fatType ≠ .fat12) :
    g.wordAt (g.mark value m) g.fatPos 1 = value % 256 ^ g.fatEntrySize := by
  unfold Geometry.mark Geometry.wordAt
  cases htype' : g.fatType with
  | fat12 => exact absurd htype' htype
  | fat16 => exact numAt_putNum ..
  | fat32 => exact numAt_putNum ..

/-- The disk before the entry is written to the FATs. -/
def Vol.marked (g : Geometry) (v : FlatVol) : Nat → Byte :=
  if v.fatDirty then v.disk else g.mark v.dirtyValue v.disk

theorem marked_of_out (h : k < g.fatPos + g.place 1 ∨ g.fatPos + g.place 1 + g.fatEntrySize ≤ k)
    (v : FlatVol) : v.marked g k = v.disk k := by
  unfold Vol.marked
  split
  · rfl
  · exact mark_of_out h

theorem marked_clean (h : v.fatDirty = true ∨ g.fatType = .fat12) : v.marked g = v.disk := by
  unfold Vol.marked
  split
  · rfl
  · rename_i hdirty
    exact mark_fat12 (h.resolve_left hdirty)

/-- The loop of `FatSetFatEntry`, inside the volume. -/
theorem writeFats_eq (hn : 0 < n) (hvol : g.volSize < 2 ^ 63)
    (hpos : pos + (n - 1) * g.fatSize + g.fatEntrySize ≤ g.volSize) (v : FlatVol) :
    Vol.writeFats flat g n pos v =
      (.success,
        { v with disk := stamp g.fatSize (leBytes g.fatEntrySize v.fatEntryBuffer) n pos v.disk }) := by
  induction n generalizing pos v with
  | zero => exact absurd hn (Nat.lt_irrefl 0)
  | succ n ih =>
    have hin : ¬Vol.Outside g pos (leBytes g.fatEntrySize v.fatEntryBuffer).length := by
      unfold Vol.Outside
      rw [length_leBytes, Nat.mod_eq_of_lt (by omega)]
      omega
    rw [Nat.add_sub_cancel] at hpos
    rw [Vol.writeFats, Vol.fatDiskIoWrite_flat hin]
    dsimp only
    rw [if_neg (by decide)]
    by_cases hlast : n = 0
    · subst hlast
      rw [if_pos rfl]
      rfl
    · have hsplit : n * g.fatSize = (n - 1) * g.fatSize + g.fatSize := by
        rw [← Nat.succ_mul, Nat.succ_eq_add_one, Nat.sub_add_cancel (Nat.pos_of_ne_zero hlast)]
      rw [if_neg hlast, Nat.mod_eq_of_lt (by omega), ih (Nat.pos_of_ne_zero hlast) (by omega)]
      rfl

/-- The address of the entry in the first FAT, as far as a `UINTN` holds it. -/
def Geometry.writePos (g : Geometry) (i : Nat) : Nat := (g.fatPos + g.place i) % 2 ^ g.arch.bits

/-- The word that is written for an entry. -/
def Geometry.newWord (g : Geometry) (m : Nat → Byte) (i value : Nat) : Nat :=
  g.patch i value (g.wordAt m g.fatPos i)

/-- The disk after an entry was set. -/
def Vol.written (g : Geometry) (i value : Nat) (v : FlatVol) : Nat → Byte :=
  stamp g.fatSize (leBytes g.fatEntrySize (g.newWord v.disk i value)) g.noFats (g.writePos i)
    (v.marked g)

/-- What `FatSetFatEntry` does, for an entry of the table. -/
theorem Sound.fatSetFatEntry_eq (h : Sound g) (hi : 2 ≤ i) (hlast : i ≤ g.lastCluster)
    (value : Nat) (v : FlatVol) :
    Vol.fatSetFatEntry flat g i value v =
      (.success,
        { disk := v.written g i value
          diskError := v.diskError
          fatDirty := true
          dirtyValue := v.dirtyValue
          free := FreeInfo.note v.free i value (g.fatEntry v.disk i)
          fatEntryPos := g.fatPos + g.place i
          fatEntryBuffer := g.newWord v.disk i value }) := by
  have hplace := h.place_add_le hlast
  have hinside := h.inside
  have hmod : g.writePos i ≤ g.fatPos + g.place i := Nat.mod_le ..
  have hsplit : g.noFats * g.fatSize = (g.noFats - 1) * g.fatSize + g.fatSize := by
    rw [← Nat.succ_mul, Nat.succ_eq_add_one, Nat.sub_add_cancel h.noFats]
  have hpos : g.writePos i + (g.noFats - 1) * g.fatSize + g.fatEntrySize ≤ g.volSize := by omega
  have hwrite := writeFats_eq h.noFats h.volSize hpos
  rw [Vol.fatSetFatEntry, if_neg (by omega), Vol.fatGetFatEntry, if_neg (by omega),
    h.fatLoadFatEntry_eq hlast]
  dsimp only
  rw [h.fatLoadFatEntry_eq hlast]
  dsimp only
  cases hdirty : v.fatDirty with
  | true =>
    rw [if_pos rfl, ← Geometry.writePos, hwrite]
    dsimp only
    rw [Vol.written, marked_clean (.inl hdirty)]
    rfl
  | false =>
    rw [if_neg Bool.false_ne_true, h.fatSetVolumeDirty_eq (by omega)]
    dsimp only
    rw [← Geometry.writePos, hwrite, Vol.written, Vol.marked, if_neg (by rw [hdirty]; decide)]
    rfl

theorem Vol.fatSetFatEntry_reserved (hi : i < 2) :
    fatSetFatEntry flat g i value v = (.volumeCorrupted, v) := if_pos hi

/-! ## The FATs after a write -/

theorem newWord_lt (g : Geometry) (m : Nat → Byte) (i value : Nat) :
    g.newWord m i value < 256 ^ g.fatEntrySize := patch_lt (wordAt_lt ..)

theorem Geometry.copy_end (g : Geometry) {c : Nat} (hc : c < g.noFats) :
    c * g.fatSize + g.fatSize ≤ g.noFats * g.fatSize := by
  have := Nat.mul_le_mul_right g.fatSize hc
  rwa [Nat.succ_mul] at this

theorem Sound.stamp_copy (h : Sound g) (hi : i ≤ g.lastCluster) {bs : List Byte}
    (hbs : bs.length = g.fatEntrySize) {c o : Nat} (hc : c < g.noFats) (ho : o < g.fatSize) :
    stamp g.fatSize bs g.noFats (g.fatPos + g.place i) m (g.fatPos + c * g.fatSize + o) =
      if g.place i ≤ o ∧ o < g.place i + g.fatEntrySize then bs.getD (o - g.place i) 0
      else m (g.fatPos + c * g.fatSize + o) := by
  have hplace := h.place_add_le hi
  by_cases hin : g.place i ≤ o ∧ o < g.place i + g.fatEntrySize
  · rw [if_pos hin]
    have hpos : g.fatPos + c * g.fatSize + o =
        g.fatPos + g.place i + c * g.fatSize + (o - g.place i) := by omega
    rw [hpos, stamp_of_in (by omega) hc (by omega)]
  · rw [if_neg hin]
    refine stamp_of_out fun c' _ => ?_
    rcases Nat.lt_trichotomy c' c with hlt | rfl | hgt
    · have := Nat.mul_le_mul_right g.fatSize hlt
      rw [Nat.succ_mul] at this
      omega
    · omega
    · have := Nat.mul_le_mul_right g.fatSize hgt
      rw [Nat.succ_mul] at this
      omega

theorem Sound.stamp_outside (h : Sound g) (hi : i ≤ g.lastCluster) {bs : List Byte}
    (hbs : bs.length = g.fatEntrySize) (hk : k < g.fatPos ∨ g.fatPos + g.noFats * g.fatSize ≤ k) :
    stamp g.fatSize bs g.noFats (g.fatPos + g.place i) m k = m k := by
  refine stamp_of_out fun c hc => ?_
  have hplace := h.place_add_le hi
  have := g.copy_end hc
  omega

/-- The word of the entry, and the words of the others, as they are in a FAT. -/
theorem Sound.wordAt_stamp (h : Sound g) (hi : i ≤ g.lastCluster) (hj : j ≤ g.lastCluster)
    (hc : c < g.noFats) :
    g.wordAt (stamp g.fatSize (leBytes g.fatEntrySize word) g.noFats (g.fatPos + g.place i) m)
        (g.fatPos + c * g.fatSize) j =
      g.wordAt (g.putWord m (g.fatPos + c * g.fatSize) i word) (g.fatPos + c * g.fatSize) j := by
  have hplace := h.place_add_le hj
  refine numAt_congr fun o ho => ?_
  rw [Nat.add_assoc _ (g.place j), h.stamp_copy hi (length_leBytes ..) hc (by omega)]
  unfold Geometry.putWord putNum putBytes
  rw [length_leBytes]
  by_cases hin : g.place i ≤ g.place j + o ∧ g.place j + o < g.place i + g.fatEntrySize
  · rw [if_pos hin, if_pos (by omega)]
    congr 1
    omega
  · rw [if_neg hin, if_neg (by omega)]

theorem Sound.wordAt_stamp_first (h : Sound g) (hi : i ≤ g.lastCluster) (hj : j ≤ g.lastCluster) :
    g.wordAt (stamp g.fatSize (leBytes g.fatEntrySize word) g.noFats (g.fatPos + g.place i) m)
        g.fatPos j =
      g.wordAt (g.putWord m g.fatPos i word) g.fatPos j := by
  have hfirst : g.wordAt (stamp g.fatSize (leBytes g.fatEntrySize word) g.noFats
      (g.fatPos + g.place i) m) (g.fatPos + 0 * g.fatSize) j = _ := h.wordAt_stamp hi hj h.noFats
  rwa [Nat.zero_mul, Nat.add_zero] at hfirst

theorem Geometry.place_one (g : Geometry) (htype : g.fatType ≠ .fat12) (hj : 2 ≤ j) :
    g.place 1 + g.fatEntrySize ≤ g.place j := by
  unfold Geometry.place Geometry.fatEntrySize
  cases htype' : g.fatType with
  | fat12 => exact absurd htype' htype
  | fat16 => dsimp only; omega
  | fat32 => dsimp only; omega

/-- The mark is beside the entries of the clusters, in every FAT. -/
theorem wordAt_marked (hj : 2 ≤ j) (c : Nat) (v : FlatVol) :
    g.wordAt (v.marked g) (g.fatPos + c * g.fatSize) j =
      g.wordAt v.disk (g.fatPos + c * g.fatSize) j := by
  by_cases htype : g.fatType = .fat12
  · rw [marked_clean (.inr htype)]
  · have hone := g.place_one htype hj
    exact numAt_congr fun o _ => marked_of_out (.inr (by omega)) v

theorem wordAt_marked_first (hj : 2 ≤ j) (v : FlatVol) :
    g.wordAt (v.marked g) g.fatPos j = g.wordAt v.disk g.fatPos j := by
  have hfirst := wordAt_marked (g := g) hj 0 v
  rwa [Nat.zero_mul, Nat.add_zero] at hfirst

/-! ## Healthy volumes -/

/-- Each cluster has an entry of its own, at an address that a `UINTN` holds. -/
structure Healthy (g : Geometry) : Prop where
  sound : Sound g
  addressable : Addressable g

theorem smallFat_addressable : Addressable smallFat := by
  unfold Addressable
  decide

theorem smallFat_healthy : Healthy smallFat := ⟨smallFat_sound, smallFat_addressable⟩

/-- The volumes only differ in the entry that was loaded last. -/
structure Alike (v v' : FlatVol) : Prop where
  disk : v'.disk = v.disk
  free : v'.free = v.free
  diskError : v'.diskError = v.diskError
  fatDirty : v'.fatDirty = v.fatDirty
  dirtyValue : v'.dirtyValue = v.dirtyValue

theorem Alike.refl (v : FlatVol) : Alike v v := ⟨rfl, rfl, rfl, rfl, rfl⟩

theorem Alike.trans (h : Alike v v') (h' : Alike v' v'') : Alike v v'' :=
  ⟨h'.disk.trans h.disk, h'.free.trans h.free, h'.diskError.trans h.diskError,
    h'.fatDirty.trans h.fatDirty, h'.dirtyValue.trans h.dirtyValue⟩

theorem Healthy.get (h : Healthy g) (c : Nat) (v : FlatVol) :
    (Vol.fatGetFatEntry flat g c v).1 = g.read v.disk c ∧
      Alike v (Vol.fatGetFatEntry flat g c v).2 := by
  refine ⟨(fatGetFatEntry_read g c v).1, ?_⟩
  by_cases hc : g.lastCluster < c
  · rw [Vol.fatGetFatEntry, if_pos hc, Vol.fatLoadFatEntry, if_pos hc]
    exact ⟨rfl, rfl, rfl, rfl, rfl⟩
  · rw [Vol.fatGetFatEntry, if_neg hc, h.sound.fatLoadFatEntry_eq (Nat.not_lt.mp hc)]
    exact ⟨rfl, rfl, rfl, rfl, rfl⟩

theorem Healthy.read_of_le (h : Healthy g) (hc : c ≤ g.lastCluster) (m : Nat → Byte) :
    g.read m c = g.fatEntry m c := h.sound.read_eq hc m

/-- Entry 1, once the volume is marked. -/
def Vol.markedOne (g : Geometry) (v : FlatVol) : Nat :=
  if v.fatDirty = true ∨ g.fatType = .fat12 then g.fatEntry v.disk 1
  else g.extend (g.entryValue 1 (v.dirtyValue % 256 ^ g.fatEntrySize))

theorem marked_one (g : Geometry) (v : FlatVol) : g.fatEntry (v.marked g) 1 = v.markedOne g := by
  unfold Vol.markedOne
  by_cases hclean : v.fatDirty = true ∨ g.fatType = .fat12
  · rw [if_pos hclean, marked_clean hclean]
  · rw [if_neg hclean, Geometry.fatEntry, Geometry.entryAt, Vol.marked,
      if_neg fun hdirty => hclean (.inl hdirty), wordAt_mark_one fun htype => hclean (.inr htype)]

/-- What `FatSetFatEntry` does to a healthy volume. -/
structure WasSet (g : Geometry) (i value : Nat) (v v' : FlatVol) : Prop where
  set : g.fatEntry v'.disk i = g.extend (value % g.bound)
  others : ∀ j, 2 ≤ j → j ≤ g.lastCluster → j ≠ i → g.fatEntry v'.disk j = g.fatEntry v.disk j
  one : g.fatEntry v'.disk 1 = v.markedOne g
  outside : ∀ k, k < g.fatPos ∨ g.fatPos + g.noFats * g.fatSize ≤ k → v'.disk k = v.disk k
  free : v'.free = FreeInfo.note v.free i value (g.fatEntry v.disk i)
  diskError : v'.diskError = v.diskError
  fatDirty : v'.fatDirty = true

theorem Healthy.writePos_eq (h : Healthy g) (hi : i ≤ g.lastCluster) :
    g.writePos i = g.fatPos + g.place i := by
  have hplace := h.sound.place_add_le hi
  have haddress := h.addressable
  have hsize := g.fatEntrySize_pos
  unfold Addressable at haddress
  exact Nat.mod_eq_of_lt (by omega)

theorem Healthy.set (h : Healthy g) (hi : 2 ≤ i) (hlast : i ≤ g.lastCluster) (value : Nat)
    (v : FlatVol) :
    (Vol.fatSetFatEntry flat g i value v).1 = .success ∧
      WasSet g i value v (Vol.fatSetFatEntry flat g i value v).2 := by
  have hword := newWord_lt g v.disk i value
  have hbeside : g.besides i (g.newWord v.disk i value) =
      g.besides i (g.wordAt (v.marked g) g.fatPos i) := by
    rw [wordAt_marked_first hi]
    exact besides_patch ..
  rw [h.sound.fatSetFatEntry_eq hi hlast, Vol.written, h.writePos_eq hlast]
  -- the entries beside `i` are those of the volume that was marked
  have hother : ∀ j, j ≤ g.lastCluster → j ≠ i →
      g.fatEntry (stamp g.fatSize (leBytes g.fatEntrySize (g.newWord v.disk i value)) g.noFats
        (g.fatPos + g.place i) (v.marked g)) j = g.fatEntry (v.marked g) j := by
    intro j hj hji
    rw [Geometry.fatEntry, Geometry.entryAt, h.sound.wordAt_stamp_first hlast hj, ← Geometry.entryAt,
      entryAt_putWord_of_ne hji hword hbeside]
    rfl
  refine ⟨rfl, ?_, fun j hj hjlast hji => ?_, ?_, fun k hk => ?_, rfl, rfl, rfl⟩
  · dsimp only
    rw [Geometry.fatEntry, Geometry.entryAt, h.sound.wordAt_stamp_first hlast hlast,
      wordAt_putWord hword, Geometry.newWord, entryValue_patch]
  · dsimp only
    rw [hother j hjlast hji, Geometry.fatEntry, Geometry.entryAt,
      wordAt_marked_first hj]
    rfl
  · dsimp only
    rw [hother 1 (by omega) (by omega), marked_one]
  · have hone := h.sound.place_add_le (show 1 ≤ g.lastCluster by omega)
    have hfats : g.fatSize ≤ g.noFats * g.fatSize := Nat.le_mul_of_pos_left _ h.sound.noFats
    exact (h.sound.stamp_outside hlast (length_leBytes ..) hk).trans (marked_of_out (by omega) v)

theorem WasSet.of_alike {i value : Nat} {v'' : FlatVol} (h : Alike v v')
    (hset : WasSet g i value v' v'') : WasSet g i value v v'' where
  set := hset.set
  others j hj hlast hji := by rw [hset.others j hj hlast hji, h.disk]
  one := by
    rw [hset.one]
    unfold Vol.markedOne
    rw [h.fatDirty, h.disk, h.dirtyValue]
  outside k hk := by rw [hset.outside k hk, h.disk]
  free := by rw [hset.free, h.free, h.disk]
  diskError := hset.diskError.trans h.diskError
  fatDirty := hset.fatDirty

theorem extend_zero (g : Geometry) : g.extend (0 % g.bound) = 0 := by
  rw [Nat.zero_mod, g.extend_of_lt (by unfold Geometry.badMark; cases g.fatType <;> decide)]

/-- A volume as it is after mounting, on an empty disk. -/
def blankVol : FlatVol where
  disk _ := 0
  diskError := false
  fatDirty := false
  dirtyValue := 0xfff
  free := ⟨0, 2, false⟩
  fatEntryPos := 0
  fatEntryBuffer := 0

end EfiCore.Fat
