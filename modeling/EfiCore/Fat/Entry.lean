import EfiCore.Fat.Table

/-! # Entries of the table

An entry of a FAT is some bits of the two or four bytes at its position.  What is written for one
entry is read for it, and the entries beside it are what they were, also where two entries share a
byte.
-/

namespace EfiCore.Fat

open EfiCore.Lib

variable {g : Geometry} {m m' : Nat → Byte} {i j k value buffer base : Nat}

namespace Geometry

/-! ## Positions -/

theorem fatEntrySize_pos (g : Geometry) : 0 < g.fatEntrySize := by
  unfold fatEntrySize
  cases g.fatType <;> decide

theorem entriesEnd_mono (g : Geometry) (h : i ≤ j) : g.entriesEnd i ≤ g.entriesEnd j := by
  unfold entriesEnd
  cases g.fatType <;> dsimp only <;> omega

/-- The position of an entry, if nothing is cut off. -/
def place (g : Geometry) (index : Nat) : Nat :=
  match g.fatType with
  | .fat12 => index * 3 / 2
  | .fat16 => index * 2
  | .fat32 => index * 4

theorem place_add_le (g : Geometry) (i : Nat) : g.place i + g.fatEntrySize ≤ g.entriesEnd i := by
  unfold place fatEntrySize entriesEnd
  cases g.fatType <;> dsimp only <;> omega

/-- Entries of which none is of a FAT12 are apart. -/
theorem place_apart (g : Geometry) (h : g.fatType ≠ .fat12) (hij : i ≠ j) :
    g.place i + g.fatEntrySize ≤ g.place j ∨ g.place j + g.fatEntrySize ≤ g.place i := by
  unfold place fatEntrySize
  cases htype : g.fatType with
  | fat12 => exact absurd htype h
  | fat16 => dsimp only; omega
  | fat32 => dsimp only; omega

end Geometry

theorem Sound.place_add_le (h : Sound g) (hi : i ≤ g.lastCluster) :
    g.place i + g.fatEntrySize ≤ g.fatSize :=
  (g.place_add_le i).trans ((g.entriesEnd_mono hi).trans h.entries)

theorem Sound.entryOffset_eq (h : Sound g) (hi : i ≤ g.lastCluster) :
    g.entryOffset i = g.place i := by
  have hplace := h.place_add_le hi
  have hsize := h.fatSize
  have hfat12 := h.fat12
  have hbits := g.arch.two_pow_32_le
  unfold Geometry.place Geometry.fatEntrySize at hplace
  unfold Geometry.entryOffset Geometry.place
  cases htype : g.fatType with
  | fat12 =>
    have := hfat12 htype
    dsimp only
    rw [Nat.mod_eq_of_lt (by omega)]
  | fat16 =>
    rw [htype] at hplace
    exact Nat.mod_eq_of_lt (by dsimp only at hplace ⊢; omega)
  | fat32 =>
    rw [htype] at hplace
    exact Nat.mod_eq_of_lt (by dsimp only at hplace ⊢; omega)

/-! ## Values -/

namespace Geometry

variable (g : Geometry)

/-- The number of values that an entry has room for. -/
def bound : Nat :=
  match g.fatType with
  | .fat12 => 4096
  | .fat16 => 2 ^ 16
  | .fat32 => 2 ^ 28

/-- The values that an entry can be given: those that it has room for, and those that end a chain
    or mark a cluster. -/
def ValidValue (value : Nat) : Prop :=
  value < g.bound ∨ g.special ≤ value ∧ value < 2 ^ g.arch.bits

theorem extend_of_lt (h : value < g.badMark) : g.extend value = value :=
  if_neg (by omega)

theorem badMark_lt_bound : g.badMark < g.bound := by
  unfold badMark bound
  cases g.fatType <;> decide

theorem bound_lt : g.bound < 2 ^ g.arch.bits - 16 := by
  have := g.arch.two_pow_32_le
  unfold bound
  cases g.fatType <;> dsimp only <;> omega

/-- A special value is what its low bits are extended to. -/
theorem extend_special (h : g.special ≤ value) (hlt : value < 2 ^ g.arch.bits) :
    g.extend (value % g.bound) = value := by
  have hbits : 2 ^ g.arch.bits = 2 ^ 32 ∨ 2 ^ g.arch.bits = 2 ^ 64 := by
    cases g.arch
    · exact .inl rfl
    · exact .inr rfl
  unfold special at h
  unfold extend badMark bound
  cases g.fatType <;> dsimp only
  all_goals
    obtain hbits | hbits := hbits <;> rw [hbits] at h hlt ⊢
    all_goals rw [if_pos (by omega)]; omega

end Geometry

/-! ## The entry in the buffer -/

theorem entryValue_lt (h : buffer < 256 ^ g.fatEntrySize) : g.entryValue i buffer < g.bound := by
  unfold Geometry.fatEntrySize at h
  unfold Geometry.entryValue Geometry.bound
  cases htype : g.fatType <;> rw [htype] at h <;> dsimp only at h ⊢
  · split <;> omega
  · omega
  · omega

theorem patch_lt (h : buffer < 256 ^ g.fatEntrySize) :
    g.patch i value buffer < 256 ^ g.fatEntrySize := by
  unfold Geometry.fatEntrySize at h ⊢
  unfold Geometry.patch
  cases htype : g.fatType <;> rw [htype] at h <;> dsimp only at h ⊢
  · split <;> omega
  · omega
  · omega

/-- The buffer has the new value. -/
theorem entryValue_patch (g : Geometry) (i value buffer : Nat) :
    g.entryValue i (g.patch i value buffer) = value % g.bound := by
  unfold Geometry.entryValue Geometry.patch Geometry.bound
  cases g.fatType with
  | fat12 => dsimp only; split <;> omega
  | fat16 => rfl
  | fat32 => dsimp only; omega

/-- The bits that the buffer of an entry has beside it. -/
def Geometry.besides (g : Geometry) (index buffer : Nat) : Nat :=
  match g.fatType with
  | .fat12 => if index % 2 = 1 then buffer % 16 else buffer / 4096
  | .fat16 => 0
  | .fat32 => buffer / 2 ^ 28

theorem besides_patch (g : Geometry) (i value buffer : Nat) :
    g.besides i (g.patch i value buffer) = g.besides i buffer := by
  unfold Geometry.besides Geometry.patch
  cases g.fatType with
  | fat12 => dsimp only; split <;> omega
  | fat16 => rfl
  | fat32 => dsimp only; omega

/-! ## The entries of a FAT -/

/-- The bytes of the entry `i` of the FAT at `base`. -/
def Geometry.wordAt (g : Geometry) (m : Nat → Byte) (base i : Nat) : Nat :=
  numAt m (base + g.place i) g.fatEntrySize

/-- The entry `i` of the FAT at `base`. -/
def Geometry.entryAt (g : Geometry) (m : Nat → Byte) (base i : Nat) : Nat :=
  g.entryValue i (g.wordAt m base i)

/-- What `FatGetFatEntry` returns, if it can read the entry. -/
def Geometry.fatEntry (g : Geometry) (m : Nat → Byte) (i : Nat) : Nat :=
  g.extend (g.entryAt m g.fatPos i)

theorem wordAt_lt (g : Geometry) (m : Nat → Byte) (base i : Nat) :
    g.wordAt m base i < 256 ^ g.fatEntrySize := numAt_lt ..

/-- The bytes of the entry are written. -/
def Geometry.putWord (g : Geometry) (m : Nat → Byte) (base i word : Nat) : Nat → Byte :=
  putNum m (base + g.place i) g.fatEntrySize word

variable {word : Nat}

theorem wordAt_putWord (hword : word < 256 ^ g.fatEntrySize) :
    g.wordAt (g.putWord m base i word) base i = word := by
  rw [Geometry.wordAt, Geometry.putWord, numAt_putNum, Nat.mod_eq_of_lt hword]

theorem putNum_two_low (m : Nat → Byte) (pos x : Nat) : (putNum m pos 2 x pos).toNat = x % 256 := by
  have h : putBytes m pos (leBytes 2 x) (pos + 0) = (leBytes 2 x).getD 0 0 :=
    putBytes_of_in (by simp)
  rw [Nat.add_zero] at h
  rw [putNum, h]
  simp [leBytes]

theorem putNum_two_high (m : Nat → Byte) (pos x : Nat) :
    (putNum m pos 2 x (pos + 1)).toNat = x / 256 % 256 := by
  have h : putBytes m pos (leBytes 2 x) (pos + 1) = (leBytes 2 x).getD 1 0 :=
    putBytes_of_in (by simp)
  rw [putNum, h]
  simp [leBytes]

/-- An entry of a FAT12 is not touched by a write for another one that keeps what is beside it. -/
theorem entryAt_putWord_fat12 (htype : g.fatType = .fat12) (hij : j ≠ i) (hword : word < 256 ^ 2)
    (hbesides : g.besides i word = g.besides i (g.wordAt m base i)) :
    g.entryAt (g.putWord m base i word) base j = g.entryAt m base j := by
  unfold Geometry.besides Geometry.wordAt Geometry.fatEntrySize Geometry.place at hbesides
  unfold Geometry.entryAt Geometry.entryValue Geometry.wordAt Geometry.putWord
    Geometry.fatEntrySize Geometry.place
  simp only [htype, numAt_two] at hbesides ⊢
  have hlow := putNum_two_low m (base + i * 3 / 2) word
  have hhigh := putNum_two_high m (base + i * 3 / 2) word
  have h0 := (m (base + i * 3 / 2)).isLt
  have h1 := (m (base + i * 3 / 2 + 1)).isLt
  -- the bytes of `j` that are not bytes of `i` are the old ones
  have hout : ∀ k, k ≠ base + i * 3 / 2 → k ≠ base + i * 3 / 2 + 1 →
      putNum m (base + i * 3 / 2) 2 word k = m k := fun k hk hk' => putNum_of_out (by omega)
  by_cases hnext : j = i + 1
  · subst hnext
    by_cases hodd : i % 2 = 1
    · rw [hout _ (by omega) (by omega), hout _ (by omega) (by omega)]
    · have hpos : base + (i + 1) * 3 / 2 = base + i * 3 / 2 + 1 := by omega
      rw [hpos, hhigh, hout _ (by omega) (by omega)]
      have := (m (base + i * 3 / 2 + 1 + 1)).isLt
      split at hbesides <;> split <;> omega
  · by_cases hprev : i = j + 1
    · subst hprev
      by_cases hodd : j % 2 = 1
      · rw [hout _ (by omega) (by omega), hout _ (by omega) (by omega)]
      · have hpos : base + (j + 1) * 3 / 2 = base + j * 3 / 2 + 1 := by omega
        rw [hout (base + j * 3 / 2) (by omega) (by omega)]
        rw [hpos] at hlow hbesides ⊢
        rw [hlow]
        split at hbesides <;> split <;> omega
    · rw [hout _ (by omega) (by omega), hout _ (by omega) (by omega)]

theorem entryAt_putWord_of_ne (hij : j ≠ i) (hword : word < 256 ^ g.fatEntrySize)
    (hbesides : g.besides i word = g.besides i (g.wordAt m base i)) :
    g.entryAt (g.putWord m base i word) base j = g.entryAt m base j := by
  by_cases htype : g.fatType = .fat12
  · refine entryAt_putWord_fat12 htype hij ?_ hbesides
    unfold Geometry.fatEntrySize at hword
    rwa [htype] at hword
  · have hapart := g.place_apart htype hij
    unfold Geometry.entryAt Geometry.wordAt Geometry.putWord
    rw [numAt_putNum_of_disjoint (by omega)]

end EfiCore.Fat
