import EfiCore.Mem.Carve
import EfiCore.Mem.Edit

/-! # What the pool owns

`PoolSound` ties the free lists, the headers in memory and the units to each other and to the
memory map: every block on a free list is a block of a unit of its type, every descriptor and
every `POOL` record lives in an allocated block, and the pages of a unit have its type.

An address is `Loose` for a set of types when it is free memory or belongs to a unit of such
a type.  `Traffic` is what the pool may do to the map behind the back of a caller: it moves
loose addresses around among themselves and leaves all others as they are.
-/

namespace EfiCore.Mem

open EfiCore.Lib

namespace PoolUnit

/-- The last address of the unit. -/
def last (u : PoolUnit) : Nat := u.base + u.pages * 4096 - 1

def Covers (u : PoolUnit) (a : Nat) : Prop := u.base ≤ a ∧ a ≤ u.last

/-- `b` is where the unit has a block of list `index`. -/
def Block (A : Arch) (u : PoolUnit) (b : Nat) (index : Nat) : Prop :=
  ∃ i, u.index = some i ∧ ∃ offset, (offset, index) ∈ carve A i 0 ∧ b = u.base + offset

structure Shaped (A : Arch) (u : PoolUnit) : Prop where
  pages : 0 < u.pages
  aligned : u.base % defaultPageAllocation A = 0
  pos : 0 < u.base
  fits : u.base + u.pages * 4096 ≤ 2 ^ A.bits
  below : u.base + u.pages * 4096 < 2 ^ 64
  carved : ∀ i, u.index = some i →
    i < maxPoolList A ∧ u.pages = sizeToPages (defaultPageAllocation A)

end PoolUnit

namespace MemState

variable {A : Arch}

/-- `h` is the header of an allocated block of the unit `u`, of `n` bytes. -/
def Head (s : MemState A) (u : PoolUnit) (h : Nat) (n : Nat) : Prop :=
  u ∈ s.poolUnits ∧ s.cell h = .head u.type n ∧
    (u.Block A h (sizeToList n) ∨
      u.index = none ∧ h = u.base ∧ maxPoolList A ≤ sizeToList n ∧ u.pages = poolPages A n)

/-- `buffer` was allocated from a unit of type `t`. -/
def Allocated (s : MemState A) (t : MemoryType) (buffer : Nat) : Prop :=
  ∃ u h n, buffer = h + sizeOfPoolHead ∧ u.type = t ∧ s.Head u h n

structure PoolSound (s : MemState A) : Prop where
  units : Spans PoolUnit.base PoolUnit.base PoolUnit.last s.poolUnits
  shaped : ∀ u ∈ s.poolUnits, u.Shaped A
  notFree : ∀ u ∈ s.poolUnits, u.type ≠ .conventionalMemory
  typed : ∀ u ∈ s.poolUnits, ∀ a, u.Covers a → ∃ attr, s.view a = some (u.type, attr)
  carved : ∀ u ∈ s.poolUnits, ∀ b i, u.Block A b i →
    s.cell b = .free i ∨ ∃ n, s.cell b = .head u.type n ∧ sizeToList n = i
  large : ∀ u ∈ s.poolUnits, u.index = none → ∃ n, s.cell u.base = .head u.type n ∧
    maxPoolList A ≤ sizeToList n ∧ u.pages = poolPages A n
  listed : ∀ t i b, b ∈ (s.pool t).freeList i →
    ∃ u ∈ s.poolUnits, u.type = t ∧ u.Block A b i ∧ s.cell b = .free i
  nodup : ∀ t i, ((s.pool t).freeList i).Nodup
  homes : ∀ buffer, s.IsHome buffer → s.Allocated .runtimeServicesData buffer
  records : ∀ r ∈ s.poolHeadList,
    (∃ code, r.1 = .osSpecific code) ∧ s.Allocated .bootServicesData r.2
  recordsDistinct : (s.poolHeadList.map Prod.snd).Nodup

/-- `a` is free memory. -/
def Free (s : MemState A) (a : Nat) : Prop := ∃ attr, s.view a = some (.conventionalMemory, attr)

/-- `a` belongs to a pool unit. -/
def Owned (s : MemState A) (a : Nat) : Prop := ∃ u ∈ s.poolUnits, u.Covers a

/-- `a` is free or belongs to a pool unit of one of the types `T`. -/
def Loose (T : MemoryType → Prop) (s : MemState A) (a : Nat) : Prop :=
  s.Free a ∨ ∃ u ∈ s.poolUnits, T u.type ∧ u.Covers a

/-- What pool operations on the types `T` may do: nothing outside the loose addresses, the
    exempt range `R` and the exempt block headers `X`. -/
structure Traffic (T : MemoryType → Prop) (R : Nat → Prop) (X : Nat → Prop)
    (s s' : MemState A) : Prop where
  sound : s'.Sound
  pool : s'.PoolSound
  loose : ∀ a, ¬ R a → (s'.Loose T a ↔ s.Loose T a)
  view : ∀ a, ¬ R a → ¬ s.Loose T a → s'.view a = s.view a
  units : ∀ u, ¬ T u.type → (u ∈ s'.poolUnits ↔ u ∈ s.poolUnits)
  heads : ∀ u h n, s.Head u h n → ¬ s.IsHome (h + sizeOfPoolHead) → ¬ X h →
    s'.Head u h n ∧ ¬ s'.IsHome (h + sizeOfPoolHead)
  records : s'.poolHeadList = s.poolHeadList

/-- Nothing is exempt. -/
abbrev nothing : Nat → Prop := fun _ => False

/-- The types of the units that hold descriptors. -/
abbrev descriptorTypes : MemoryType → Prop := (· = .runtimeServicesData)

namespace Traffic

variable {T T' : MemoryType → Prop} {R R' : Nat → Prop} {X X' : Nat → Prop}
variable {s s' s'' : MemState A}

theorem refl (hs : s.Sound) (hp : s.PoolSound) : Traffic T R X s s :=
  ⟨hs, hp, fun _ _ => Iff.rfl, fun _ _ _ => rfl, fun _ _ => Iff.rfl, fun _ _ _ h h' _ => ⟨h, h'⟩,
    rfl⟩

theorem trans (h : Traffic T R X s s') (h' : Traffic T R X s' s'') : Traffic T R X s s'' where
  sound := h'.sound
  pool := h'.pool
  loose a ha := (h'.loose a ha).trans (h.loose a ha)
  view a ha hl := (h'.view a ha (mt (h.loose a ha).mp hl)).trans (h.view a ha hl)
  units u hu := (h'.units u hu).trans (h.units u hu)
  heads u x n hh hk hx := by
    obtain ⟨hh', hk'⟩ := h.heads u x n hh hk hx
    exact h'.heads u x n hh' hk' hx
  records := h'.records.trans h.records

theorem exempt (h : Traffic T R X s s') (hR : ∀ a, R a → R' a) (hX : ∀ a, X a → X' a) :
    Traffic T R' X' s s' where
  sound := h.sound
  pool := h.pool
  loose a ha := h.loose a (mt (hR a) ha)
  view a ha := h.view a (mt (hR a) ha)
  units := h.units
  heads u x n hh hk hx := h.heads u x n hh hk (mt (hX x) hx)
  records := h.records

theorem loose_widen (h : Traffic T R X s s') (hT : ∀ t, T t → T' t) {a : Nat} (ha : ¬ R a) :
    s'.Loose T' a ↔ s.Loose T' a := by
  have split : ∀ r : MemState A, r.Loose T' a ↔
      r.Loose T a ∨ ∃ u ∈ r.poolUnits, ¬ T u.type ∧ T' u.type ∧ u.Covers a := by
    intro r
    constructor
    · rintro (hf | ⟨u, hu, ht, hc⟩)
      · exact .inl (.inl hf)
      · by_cases htu : T u.type
        · exact .inl (.inr ⟨u, hu, htu, hc⟩)
        · exact .inr ⟨u, hu, htu, ht, hc⟩
    · rintro ((hf | ⟨u, hu, ht, hc⟩) | ⟨u, hu, _, ht, hc⟩)
      · exact .inl hf
      · exact .inr ⟨u, hu, hT _ ht, hc⟩
      · exact .inr ⟨u, hu, ht, hc⟩
  rw [split, split, h.loose a ha]
  refine or_congr_right ⟨?_, ?_⟩
  · rintro ⟨u, hu, htu, hrest⟩
    exact ⟨u, (h.units u htu).mp hu, htu, hrest⟩
  · rintro ⟨u, hu, htu, hrest⟩
    exact ⟨u, (h.units u htu).mpr hu, htu, hrest⟩

/-- Traffic of fewer types is traffic of more. -/
theorem widen (h : Traffic T R X s s') (hT : ∀ t, T t → T' t) : Traffic T' R X s s' where
  sound := h.sound
  pool := h.pool
  loose _ ha := h.loose_widen hT ha
  view a ha hl := h.view a ha fun hl' => hl <| hl'.imp_right fun ⟨u, hu, ht, hc⟩ =>
    ⟨u, hu, hT _ ht, hc⟩
  units u hu := h.units u (mt (hT _) hu)
  heads := h.heads
  records := h.records

end Traffic

/-! ## Blocks and units -/

theorem defaultPageAllocation_pos (A : Arch) : 0 < defaultPageAllocation A := by
  cases A <;> decide

theorem unit_bytes (A : Arch) :
    sizeToPages (defaultPageAllocation A) * 4096 = defaultPageAllocation A := by
  cases A <;> rfl

/-- A block lies in its unit, and the unit is found from the block by clearing low bits. -/
theorem block_covers {u : PoolUnit} (hu : u.Shaped A) {b i : Nat} (hb : u.Block A b i) :
    u.Covers b ∧ b - b % defaultPageAllocation A = u.base := by
  obtain ⟨j, hj, offset, hmem, rfl⟩ := hb
  have hin : offset + listToSize i ≤ defaultPageAllocation A := (carve_mem hmem).2
  have hsize : 0 < listToSize i := Nat.mul_pos (Nat.succ_pos _) (by decide)
  have hpages := (hu.carved j hj).2
  have hbytes := unit_bytes A
  have hD := defaultPageAllocation_pos A
  rw [PoolUnit.Covers, PoolUnit.last, hpages, hbytes]
  refine ⟨by omega, ?_⟩
  have hmod : (u.base + offset) % defaultPageAllocation A = offset := by
    rw [Nat.add_mod, hu.aligned, Nat.zero_add, Nat.mod_mod, Nat.mod_eq_of_lt (by omega)]
  rw [hmod]
  omega

theorem base_covers {u : PoolUnit} (hu : u.Shaped A) : u.Covers u.base := by
  have := hu.pages
  rw [PoolUnit.Covers, PoolUnit.last]
  omega

namespace PoolSound

variable {s : MemState A}

theorem unit_eq (h : s.PoolSound) {u u' : PoolUnit} (hu : u ∈ s.poolUnits)
    (hu' : u' ∈ s.poolUnits) {a : Nat} (ha : u.Covers a) (ha' : u'.Covers a) : u = u' :=
  h.units.eq_of_occupies hu hu' ha ha'

theorem head_covers (h : s.PoolSound) {u : PoolUnit} {x : Nat} {n : Nat} (hh : s.Head u x n) :
    u.Covers x := by
  obtain ⟨hu, _, hb | ⟨_, rfl, _⟩⟩ := hh
  · exact (block_covers (h.shaped u hu) hb).1
  · exact base_covers (h.shaped u hu)

/-- The unit and the size of an allocated block are determined by its address. -/
theorem head_unique (h : s.PoolSound) {u u' : PoolUnit} {x : Nat} {n n' : Nat}
    (hh : s.Head u x n) (hh' : s.Head u' x n') : u = u' ∧ n = n' := by
  refine ⟨h.unit_eq hh.1 hh'.1 (h.head_covers hh) (h.head_covers hh'), ?_⟩
  have := hh.2.1.symm.trans hh'.2.1
  injection this

theorem block_unique (h : s.PoolSound) {u u' : PoolUnit} (hu : u ∈ s.poolUnits)
    (hu' : u' ∈ s.poolUnits) {b i i' : Nat} (hb : u.Block A b i) (hb' : u'.Block A b i') :
    u = u' ∧ i = i' := by
  obtain rfl := h.unit_eq hu hu' (block_covers (h.shaped u hu) hb).1
    (block_covers (h.shaped u' hu') hb').1
  obtain ⟨j, hj, offset, hmem, hoff⟩ := hb
  obtain ⟨j', hj', offset', hmem', hoff'⟩ := hb'
  rw [hj] at hj'
  cases hj'
  have : offset = offset' := by omega
  exact ⟨rfl, congrArg Prod.snd (carve_eq_of_offset hmem hmem' this)⟩

/-- A listed block is not an allocated one. -/
theorem not_head_of_listed (h : s.PoolSound) {t : MemoryType} {i : Nat} {b : Nat}
    (hb : b ∈ (s.pool t).freeList i) (u : PoolUnit) (n : Nat) : ¬ s.Head u b n := by
  rintro ⟨_, hcell, _⟩
  obtain ⟨_, _, _, _, hfree⟩ := h.listed t i b hb
  rw [hfree] at hcell
  cases hcell

theorem owned_not_free (h : s.PoolSound) {u : PoolUnit} (hu : u ∈ s.poolUnits) {a : Nat}
    (ha : u.Covers a) : ¬ s.Free a := by
  rintro ⟨attr, hv⟩
  obtain ⟨attr', hv'⟩ := h.typed u hu a ha
  have heq := hv.symm.trans hv'
  injection heq with heq
  exact h.notFree u hu (congrArg Prod.fst heq).symm

end PoolSound

end MemState

end EfiCore.Mem
