import EfiCore.Ebc.Ia32Math
import EfiCore.Ebc.Memory
import EfiCore.Lib.Memory

/-! # Encoded offsets

Reads from the code stream, and the indices of `VmReadIndex16`, `VmReadIndex32` and
`VmReadIndex64`: a sign, constant units and natural units in one number.
-/

namespace EfiCore.Ebc

open EfiCore.Lib
open EfiCore.Lib.Words

/-! ## The code stream -/

section Code

variable (m : Nat → Byte) (ip offset : Nat)

/-- `VmReadCode16`. An address that is not aligned gives a warning and is read all the same. -/
def vmReadCode16 : BitVec 16 :=
  if isAligned (ip + offset) 2 then BitVec.ofNat 16 (numAt m (ip + offset) 2)
  else BitVec.ofNat 16 ((m (ip + offset)).toNat + (m (ip + offset + 1)).toNat * 2 ^ 8)

/-- `VmReadCode32`, and `VmReadImmed32`, which reads the same as a signed number. -/
def vmReadCode32 : BitVec 32 :=
  if isAligned (ip + offset) 4 then BitVec.ofNat 32 (numAt m (ip + offset) 4)
  else (vmReadCode16 m ip offset).setWidth 32 |||
    ((vmReadCode16 m ip (offset + 2)).setWidth 32 <<< 16)

/-- `VmReadCode64` -/
def vmReadCode64 : BitVec 64 :=
  if isAligned (ip + offset) 8 then BitVec.ofNat 64 (numAt m (ip + offset) 8)
  else vmReadCode32 m ip (offset + 4) ++ vmReadCode32 m ip offset

theorem vmReadCode16_toNat : (vmReadCode16 m ip offset).toNat = numAt m (ip + offset) 2 := by
  have hlt := numAt_lt m (ip + offset) 2
  have htwo := numAt_two m (ip + offset)
  rw [vmReadCode16]
  split
  · exact Nat.mod_eq_of_lt hlt
  · rw [BitVec.toNat_ofNat, Nat.mod_eq_of_lt (by omega)]
    omega

theorem vmReadCode32_toNat : (vmReadCode32 m ip offset).toNat = numAt m (ip + offset) 4 := by
  have hlt := numAt_lt m (ip + offset) 4
  rw [vmReadCode32]
  split
  · exact Nat.mod_eq_of_lt hlt
  · have hlow := (vmReadCode16 m ip offset).isLt
    have hhigh := (vmReadCode16 m ip (offset + 2)).isLt
    rw [BitVec.toNat_or, BitVec.toNat_shiftLeft, BitVec.toNat_setWidth, BitVec.toNat_setWidth,
      Nat.mod_eq_of_lt (by omega : (vmReadCode16 m ip offset).toNat < 2 ^ 32),
      Nat.mod_eq_of_lt (by omega : (vmReadCode16 m ip (offset + 2)).toNat < 2 ^ 32),
      Nat.mod_eq_of_lt (by rw [Nat.shiftLeft_eq]; omega), Nat.or_comm,
      ← Nat.shiftLeft_add_eq_or_of_lt hlow, Nat.shiftLeft_eq, vmReadCode16_toNat,
      vmReadCode16_toNat, ← Nat.add_assoc, numAt_add m _ 2 2]
    omega

theorem vmReadCode64_toNat : (vmReadCode64 m ip offset).toNat = numAt m (ip + offset) 8 := by
  have hlt := numAt_lt m (ip + offset) 8
  rw [vmReadCode64]
  split
  · exact Nat.mod_eq_of_lt hlt
  · have happend := toNat_append (vmReadCode32 m ip (offset + 4)) (vmReadCode32 m ip offset)
    rw [vmReadCode32_toNat, vmReadCode32_toNat, ← Nat.add_assoc] at happend
    rw [numAt_add m _ 4 4]
    exact happend

end Code

/-! ## Indices -/

section Indices

variable (A : Arch) (bit63 : BitVec 32) (m : Nat → Byte) (ip codeOffset : Nat)

def vmReadIndex16 : BitVec 16 :=
  let index := vmReadCode16 m ip codeOffset
  let nBits := ((index &&& 0x7000#16) >>> 12).toNat * 2
  let mask : BitVec 16 := ((BitVec.allOnes 32) <<< nBits).setWidth 16
  let n : BitVec 16 := (index.setWidth 32 &&& ~~~mask.signExtend 32).setWidth 16
  let c : BitVec 16 :=
    ((index.setWidth 32 &&& ~~~0xF000#32 &&& mask.signExtend 32).sshiftRight nBits).setWidth 16
  let offset : BitVec 16 :=
    (n.signExtend A.bits * BitVec.ofNat A.bits A.pointerSize + c.signExtend A.bits).setWidth 16
  if index &&& 0x8000#16 ≠ 0#16 then (offset.signExtend 32 * -1#32).setWidth 16 else offset

def vmReadIndex32 : BitVec 32 :=
  let index := vmReadCode32 m ip codeOffset
  let nBits := ((index &&& 0x70000000#32) >>> 28).toNat * 4
  let mask : BitVec 32 := BitVec.allOnes 32 <<< nBits
  let n := index &&& ~~~mask
  let c := (index &&& ~~~0xF0000000#32 &&& mask) >>> nBits
  let offset : BitVec 32 :=
    (n.signExtend A.bits * BitVec.ofNat A.bits A.pointerSize + c.signExtend A.bits).setWidth 32
  if index &&& 0x80000000#32 ≠ 0#32 then offset * -1#32 else offset

def vmReadIndex64 : BitVec 64 :=
  let index := vmReadCode64 m ip codeOffset
  let nBits := rightShiftU64 (index &&& 0x7000000000000000#64) 60#64
  let nBits := leftShiftU64 nBits 3#64
  let mask := leftShiftU64 (BitVec.allOnes 64) nBits
  let n := index &&& ~~~mask
  let c := aRightShift64 bit63 (index &&& ~~~0xF000000000000000#64 &&& mask) nBits
  let offset := (mulU64x64 n (BitVec.ofNat 64 A.pointerSize)).1 + c
  if index &&& 0x8000000000000000#64 ≠ 0#64 then (mulS64x64 offset (-1#64)).1 else offset

end Indices

/-- The offset that an index of `w` bits stands for: its sign, then three bits with the width of the
natural units, counted in `unit` bits, then the constant and the natural units. -/
def indexOffset (A : Arch) (w unit index : Nat) : ℤ :=
  let width := unit * (index / 2 ^ (w - 4) % 8)
  let natural := index % 2 ^ width
  let constant := index % 2 ^ (w - 4) / 2 ^ width
  (if index / 2 ^ (w - 1) % 2 = 1 then -1 else 1) * (constant + natural * A.pointerSize)

/-! ## Masks -/

section Masks

variable {w : Nat} {x : BitVec w} {k : Nat}

/-- The bits below a mask. -/
theorem toNat_and_not_mask (x : BitVec w) (k : Nat) :
    (x &&& ~~~(BitVec.allOnes w <<< k)).toNat = x.toNat % 2 ^ k := by
  refine Nat.eq_of_testBit_eq fun i => ?_
  rw [Nat.testBit_mod_two_pow, BitVec.testBit_toNat, BitVec.testBit_toNat, BitVec.getLsbD_and]
  by_cases hw : i < w
  · by_cases hk : i < k <;> simp [hw, hk]
  · simp [BitVec.getLsbD_of_ge _ i (Nat.not_lt.mp hw)]

/-- The bits from a mask on. -/
theorem toNat_and_mask_shift (x : BitVec w) (k : Nat) :
    ((x &&& BitVec.allOnes w <<< k) >>> k).toNat = x.toNat / 2 ^ k := by
  refine Nat.eq_of_testBit_eq fun i => ?_
  rw [Nat.testBit_div_two_pow, BitVec.testBit_toNat, BitVec.testBit_toNat,
    BitVec.getLsbD_ushiftRight, BitVec.getLsbD_and, Nat.add_comm]
  by_cases hw : i + k < w
  · simp [hw]
  · simp [BitVec.getLsbD_of_ge _ (i + k) (Nat.not_lt.mp hw)]

theorem toNat_width (x : BitVec w) (k : Nat) (hk : k + 3 ≤ w) :
    ((x &&& 7#w <<< k) >>> k).toNat = x.toNat / 2 ^ k % 8 := by
  have hseven : 7 % 2 ^ w = 7 :=
    Nat.mod_eq_of_lt (Nat.lt_of_lt_of_le (by decide) (Nat.pow_le_pow_right (by decide)
      (by omega : 3 ≤ w)))
  have hfits : 7 * 2 ^ k < 2 ^ w := by
    have hpow : 2 ^ 3 * 2 ^ k ≤ 2 ^ w := by
      rw [← Nat.pow_add]
      exact Nat.pow_le_pow_right (by decide) (by omega)
    have hpos := Nat.two_pow_pos k
    omega
  rw [BitVec.toNat_ushiftRight, BitVec.toNat_and, BitVec.toNat_shiftLeft, BitVec.toNat_ofNat,
    hseven, Nat.shiftLeft_eq, Nat.mod_eq_of_lt hfits, Nat.shiftRight_and_distrib,
    ← Nat.shiftLeft_eq, Nat.shiftLeft_shiftRight, Nat.shiftRight_eq_div_pow]
  exact Nat.and_two_pow_sub_one_eq_mod _ 3

theorem and_twoPow_ne_zero_iff (x : BitVec w) {i : Nat} (hi : i < w) :
    x &&& BitVec.twoPow w i ≠ 0#w ↔ x.toNat / 2 ^ i % 2 = 1 := by
  have hbit : x.getLsbD i = decide (x.toNat / 2 ^ i % 2 = 1) := by
    rw [← BitVec.testBit_toNat, Nat.testBit_eq_decide_div_mod_eq]
  have hne : BitVec.twoPow w i ≠ 0#w := by
    intro hzero
    have hself := congrArg (BitVec.getLsbD · i) hzero
    simp [hi] at hself
  rw [BitVec.and_twoPow, hbit]
  by_cases h : x.toNat / 2 ^ i % 2 = 1 <;> simp [h, hne]

/-- The units of an index do not overflow: what one field has more the other has less. -/
theorem units_lt {A : Arch} {field width : Nat} (h : width ≤ field) (index : Nat) :
    index % 2 ^ field / 2 ^ width + index % 2 ^ width * A.pointerSize < 2 ^ (field + 3) := by
  obtain ⟨k, rfl⟩ : ∃ k, field = width + k := ⟨field - width, by omega⟩
  have hnatural := Nat.mod_lt index (Nat.two_pow_pos width)
  have hconstant : index % 2 ^ (width + k) / 2 ^ width < 2 ^ k := by
    rw [Nat.div_lt_iff_lt_mul (Nat.two_pow_pos _), ← Nat.pow_add, Nat.add_comm k]
    exact Nat.mod_lt _ (Nat.two_pow_pos _)
  have hsize : A.pointerSize ≤ 8 := by cases A <;> decide
  have hmul : index % 2 ^ width * A.pointerSize ≤ (2 ^ width - 1) * 8 :=
    Nat.mul_le_mul (by omega) hsize
  obtain ⟨n, hn⟩ : ∃ n, 2 ^ width = n + 1 := ⟨2 ^ width - 1, by have := Nat.two_pow_pos width; omega⟩
  obtain ⟨c, hc⟩ : ∃ c, 2 ^ k = c + 1 := ⟨2 ^ k - 1, by have := Nat.two_pow_pos k; omega⟩
  have hpow : 2 ^ (width + k + 3) = 8 * (n * c) + 8 * n + 8 * c + 8 := by
    rw [Nat.pow_add, Nat.pow_add, hn, hc]
    ring
  omega

/-- Nothing is lost when the units are added up in a `UINTN`. -/
theorem toNat_units {A : Arch} {n c : BitVec w} (hw : 0 < w) (hw32 : w ≤ 32)
    (hlt : c.toNat + n.toNat * A.pointerSize < 2 ^ (w - 1)) :
    ((n.signExtend A.bits * BitVec.ofNat A.bits A.pointerSize + c.signExtend A.bits).setWidth w).toNat =
      c.toNat + n.toNat * A.pointerSize := by
  have hsize : 1 ≤ A.pointerSize ∧ A.pointerSize ≤ 8 := by cases A <;> decide
  have hn : n.toNat ≤ n.toNat * A.pointerSize := Nat.le_mul_of_pos_right _ hsize.1
  have hsmall : 2 ^ (w - 1) ≤ 2 ^ 31 := Nat.pow_le_pow_right (by decide) (by omega)
  have hwide := A.two_pow_32_le
  have hhalf : 2 ^ (w - 1) ≤ 2 ^ w := Nat.pow_le_pow_right (by decide) (by omega)
  have hnmsb : n.msb = false := by
    rw [BitVec.msb_eq_decide]
    exact decide_eq_false (by omega)
  have hcmsb : c.msb = false := by
    rw [BitVec.msb_eq_decide]
    exact decide_eq_false (by omega)
  rw [BitVec.signExtend_eq_setWidth_of_msb_false hnmsb,
    BitVec.signExtend_eq_setWidth_of_msb_false hcmsb, BitVec.toNat_setWidth, BitVec.toNat_add,
    BitVec.toNat_mul, BitVec.toNat_setWidth, BitVec.toNat_setWidth, BitVec.toNat_ofNat,
    Nat.mod_eq_of_lt (by omega : n.toNat < 2 ^ A.bits),
    Nat.mod_eq_of_lt (by omega : c.toNat < 2 ^ A.bits),
    Nat.mod_eq_of_lt (by omega : A.pointerSize < 2 ^ A.bits),
    Nat.mod_eq_of_lt (by omega : n.toNat * A.pointerSize < 2 ^ A.bits), Nat.add_comm,
    Nat.mod_eq_of_lt (by omega : c.toNat + n.toNat * A.pointerSize < 2 ^ A.bits),
    Nat.mod_eq_of_lt (by omega)]

/-- The sign is set last. -/
theorem toInt_signed {negative : Prop} [Decidable negative] {k : Nat}
    (hx : x.toNat = k) (hk : k < 2 ^ (w - 1)) :
    (if negative then -x else x).toInt = (if negative then -1 else 1) * (k : ℤ) := by
  have hmsb : x.msb = false := by
    rw [BitVec.msb_eq_decide, hx]
    simpa using hk
  split
  · rw [BitVec.toInt_neg_eq_of_msb hmsb, BitVec.toInt_eq_toNat_of_msb hmsb, hx]
    omega
  · rw [BitVec.toInt_eq_toNat_of_msb hmsb, hx, Int.one_mul]

end Masks

section Spec

variable (A : Arch) (bit63 : BitVec 32) (m : Nat → Byte) (ip codeOffset : Nat)

theorem vmReadIndex32_toInt : (vmReadIndex32 A m ip codeOffset).toInt =
    indexOffset A 32 4 (numAt m (ip + codeOffset) 4) := by
  rw [← vmReadCode32_toNat]
  simp only [vmReadIndex32]
  generalize vmReadCode32 m ip codeOffset = index
  have hwidth := toNat_width index 28 (by decide)
  have hseven : 7#32 <<< 28 = 0x70000000#32 := by decide
  have hsign := and_twoPow_ne_zero_iff index (i := 31) (by decide)
  have htwo : BitVec.twoPow 32 31 = 0x80000000#32 := by decide
  have hfield : ~~~0xF0000000#32 = ~~~(BitVec.allOnes 32 <<< 28) := by decide
  rw [hseven] at hwidth
  rw [htwo] at hsign
  rw [hfield, hwidth, Nat.mul_comm _ 4]
  have hlt : 4 * (index.toNat / 2 ^ 28 % 8) ≤ 28 := by omega
  have hn := toNat_and_not_mask index (4 * (index.toNat / 2 ^ 28 % 8))
  have hc := toNat_and_mask_shift (index &&& ~~~(BitVec.allOnes 32 <<< 28))
    (4 * (index.toNat / 2 ^ 28 % 8))
  rw [toNat_and_not_mask] at hc
  have hunits := units_lt (A := A) hlt index.toNat
  rw [← hn, ← hc] at hunits
  have hoffset := toNat_units (A := A) (by decide) (by decide) hunits
  have hneg : ∀ x : BitVec 32, x * -1#32 = -x := fun x => by rw [BitVec.mul_neg, BitVec.mul_one]
  simp only [hsign, hneg]
  rw [toInt_signed hoffset hunits, hn, hc]
  rfl

theorem vmReadIndex16_toInt (h : 2 * (numAt m (ip + codeOffset) 2 / 2 ^ 12 % 8) ≤ 12) :
    (vmReadIndex16 A m ip codeOffset).toInt =
      indexOffset A 16 2 (numAt m (ip + codeOffset) 2) := by
  rw [← vmReadCode16_toNat] at h ⊢
  simp only [vmReadIndex16, indexOffset]
  generalize vmReadCode16 m ip codeOffset = index at *
  have hindex := index.isLt
  have hwidth := toNat_width index 12 (by decide)
  have hseven : 7#16 <<< 12 = 0x7000#16 := by decide
  have hsign := and_twoPow_ne_zero_iff index (i := 15) (by decide)
  have htwo : BitVec.twoPow 16 15 = 0x8000#16 := by decide
  rw [hseven] at hwidth
  rw [htwo] at hsign
  -- the mask is an `int` again when it is used
  have hmask : ∀ k ≤ 12, ((BitVec.allOnes 32 <<< k).setWidth 16).signExtend 32 =
      BitVec.allOnes 32 <<< k := by decide
  rw [hwidth, Nat.mul_comm _ 2, hmask _ h]
  have hwide : (index.setWidth 32).toNat = index.toNat := by
    rw [BitVec.toNat_setWidth, Nat.mod_eq_of_lt (Nat.lt_of_lt_of_le hindex (by decide))]
  have hfield : index.setWidth 32 &&& ~~~0xF000#32 =
      index.setWidth 32 &&& ~~~(BitVec.allOnes 32 <<< 12) := by
    refine BitVec.eq_of_getLsbD_eq fun i hi => ?_
    rw [BitVec.getLsbD_and, BitVec.getLsbD_and]
    by_cases h16 : i < 16
    · have hbits : ∀ i < 16, (~~~0xF000#32).getLsbD i =
          (~~~(BitVec.allOnes 32 <<< 12)).getLsbD i := by decide
      rw [hbits i h16]
    · have hzero : (index.setWidth 32).getLsbD i = false := by
        rw [BitVec.getLsbD_setWidth, BitVec.getLsbD_of_ge _ _ (by omega), Bool.and_false]
      rw [hzero, Bool.false_and, Bool.false_and]
  have hn32 := toNat_and_not_mask (index.setWidth 32) (2 * (index.toNat / 2 ^ 12 % 8))
  have hc32 := toNat_and_mask_shift (index.setWidth 32 &&& ~~~(BitVec.allOnes 32 <<< 12))
    (2 * (index.toNat / 2 ^ 12 % 8))
  have hlow := toNat_and_not_mask (index.setWidth 32) 12
  rw [hlow, hwide] at hc32
  rw [hwide] at hn32 hlow
  have hpositive : (index.setWidth 32 &&& ~~~(BitVec.allOnes 32 <<< 12) &&&
      BitVec.allOnes 32 <<< (2 * (index.toNat / 2 ^ 12 % 8))).msb = false := by
    have hmsb : (index.setWidth 32 &&& ~~~(BitVec.allOnes 32 <<< 12)).msb = false := by
      rw [BitVec.msb_eq_decide, hlow]
      have hlt := Nat.mod_lt index.toNat (Nat.two_pow_pos 12)
      exact decide_eq_false (by omega)
    rw [BitVec.msb_and, hmsb, Bool.false_and]
  rw [hfield, BitVec.sshiftRight_eq_of_msb_false hpositive]
  have hunits := units_lt (A := A) h index.toNat
  generalize 2 * (index.toNat / 2 ^ 12 % 8) = nBits at *
  have hnle : index.toNat % 2 ^ nBits ≤ index.toNat := Nat.mod_le _ _
  have hcle : index.toNat % 2 ^ 12 / 2 ^ nBits ≤ index.toNat :=
    (Nat.div_le_self _ _).trans (Nat.mod_le _ _)
  have hn : ((index.setWidth 32 &&& ~~~(BitVec.allOnes 32 <<< nBits)).setWidth 16).toNat =
      index.toNat % 2 ^ nBits := by
    rw [BitVec.toNat_setWidth, hn32, Nat.mod_eq_of_lt (by omega)]
  have hc : (((index.setWidth 32 &&& ~~~(BitVec.allOnes 32 <<< 12) &&&
      BitVec.allOnes 32 <<< nBits) >>> nBits).setWidth 16).toNat =
      index.toNat % 2 ^ 12 / 2 ^ nBits := by
    rw [BitVec.toNat_setWidth, hc32, Nat.mod_eq_of_lt (by omega)]
  rw [← hn, ← hc] at hunits
  have hoffset := toNat_units (A := A) (by decide) (by decide) hunits
  have hneg : ∀ x : BitVec 16, (x.signExtend 32 * -1#32).setWidth 16 = -x := by
    intro x
    have hback : (x.signExtend 32).setWidth 16 = x := by
      refine BitVec.eq_of_getLsbD_eq fun i hi => ?_
      have h32 : i < 32 := by omega
      rw [BitVec.getLsbD_setWidth, BitVec.getLsbD_signExtend]
      simp only [hi, h32, decide_true, Bool.true_and, if_true]
    rw [BitVec.mul_neg, BitVec.mul_one, BitVec.setWidth_neg_of_le (by decide), hback]
  simp only [hsign, hneg]
  rw [toInt_signed hoffset hunits, hn, hc]
  push_cast
  rfl

theorem vmReadIndex64_toInt : (vmReadIndex64 A bit63 m ip codeOffset).toInt =
    indexOffset A 64 8 (numAt m (ip + codeOffset) 8) := by
  rw [← vmReadCode64_toNat]
  simp only [vmReadIndex64]
  generalize vmReadCode64 m ip codeOffset = index
  have hwidth := toNat_width index 60 (by decide)
  have hseven : 7#64 <<< 60 = 0x7000000000000000#64 := by decide
  have hsign := and_twoPow_ne_zero_iff index (i := 63) (by decide)
  have htwo : BitVec.twoPow 64 63 = 0x8000000000000000#64 := by decide
  have hfield : ~~~0xF000000000000000#64 = ~~~(BitVec.allOnes 64 <<< 60) := by decide
  rw [hseven] at hwidth
  rw [htwo] at hsign
  have hlt : 8 * (index.toNat / 2 ^ 60 % 8) ≤ 60 := by omega
  have hbits : (leftShiftU64 (rightShiftU64 (index &&& 0x7000000000000000#64) 60#64) 3#64).toNat =
      8 * (index.toNat / 2 ^ 60 % 8) := by
    have h60 : (60#64).toNat = 60 := rfl
    have h3 : (3#64).toNat = 3 := rfl
    rw [leftShiftU64_toNat, rightShiftU64_eq, h60, h3, hwidth]
    omega
  generalize leftShiftU64 (rightShiftU64 (index &&& 0x7000000000000000#64) 60#64) 3#64 = nBits at *
  have hn := toNat_and_not_mask index nBits.toNat
  have hc := toNat_and_mask_shift (index &&& ~~~(BitVec.allOnes 64 <<< 60)) nBits.toNat
  have hlow := toNat_and_not_mask index 60
  rw [hlow] at hc
  have hpositive : (index &&& ~~~(BitVec.allOnes 64 <<< 60) &&&
      BitVec.allOnes 64 <<< nBits.toNat).msb = false := by
    have hmsb : (index &&& ~~~(BitVec.allOnes 64 <<< 60)).msb = false := by
      rw [BitVec.msb_eq_decide, hlow]
      have hlt := Nat.mod_lt index.toNat (Nat.two_pow_pos 60)
      exact decide_eq_false (by omega)
    rw [BitVec.msb_and, hmsb, Bool.false_and]
  rw [leftShiftU64_eq, hfield, aRightShift64_eq _ _ (by omega),
    BitVec.sshiftRight_eq_of_msb_false hpositive]
  have hunits := units_lt (A := A) hlt index.toNat
  rw [← hbits, ← hn, ← hc] at hunits
  have hsize : A.pointerSize ≤ 8 := by cases A <;> decide
  have hproduct := mulU64x64_toNat (index &&& ~~~(BitVec.allOnes 64 <<< nBits.toNat))
    (BitVec.ofNat 64 A.pointerSize)
  rw [BitVec.toNat_ofNat, Nat.mod_eq_of_lt (by omega)] at hproduct
  have hoffset : ((mulU64x64 (index &&& ~~~(BitVec.allOnes 64 <<< nBits.toNat))
      (BitVec.ofNat 64 A.pointerSize)).1 + (index &&& ~~~(BitVec.allOnes 64 <<< 60) &&&
        BitVec.allOnes 64 <<< nBits.toNat) >>> nBits.toNat).toNat =
      ((index &&& ~~~(BitVec.allOnes 64 <<< 60) &&&
        BitVec.allOnes 64 <<< nBits.toNat) >>> nBits.toNat).toNat +
      (index &&& ~~~(BitVec.allOnes 64 <<< nBits.toNat)).toNat * A.pointerSize := by
    rw [BitVec.toNat_add]
    omega
  have hneg : ∀ x : BitVec 64, (mulS64x64 x (-1#64)).1 = -x := by
    intro x
    have hexact := mulS64x64_toInt x (-1#64)
    have hone : (-1#64).toInt = -1 := by decide
    rw [hone] at hexact
    have hlt := (mulS64x64 x (-1#64)).1.isLt
    have hx := BitVec.toInt_eq_toNat_cond x
    refine BitVec.eq_of_toNat_eq ?_
    rw [BitVec.toNat_neg]
    split at hx <;> omega
  simp only [hsign, hneg]
  rw [toInt_signed hoffset hunits, hn, hc, hbits]
  rfl

end Spec

/-! ## Exactness -/

/-- What the arithmetic is for, on two operands, a count and an index. -/
structure Exact (A : Arch) (bit63 : BitVec 32) (op1 op2 count : BitVec 64) (m : Nat → Byte)
    (ip codeOffset : Nat) : Prop where
  mulU : (mulU64x64 op1 op2).1.toNat + 2 ^ 64 * (mulU64x64 op1 op2).2.toNat =
    op1.toNat * op2.toNat
  mulS : ((mulS64x64 op1 op2).1.toNat : ℤ) + 2 ^ 64 * (mulS64x64 op1 op2).2.toInt =
    op1.toInt * op2.toInt
  divU : op2 ≠ 0#64 →
    op1.toNat = (divU64x64 op1 op2).1.toNat * op2.toNat + (divU64x64 op1 op2).2.1.toNat ∧
      (divU64x64 op1 op2).2.1.toNat < op2.toNat
  divS : op2 ≠ 0#64 → (divS64x64 op1 op2).1 = BitVec.ofInt 64 (op1.toInt.tdiv op2.toInt) ∧
    op1.toInt = op1.toInt.tdiv op2.toInt * op2.toInt + (divS64x64 op1 op2).2.1.toInt
  remainder : op2 ≠ 0#64 → (divS64x64 op1 op2).2.1.toInt.natAbs < op2.toInt.natAbs ∧
    (0 ≤ op1.toInt → 0 ≤ (divS64x64 op1 op2).2.1.toInt) ∧
    (op1.toInt ≤ 0 → (divS64x64 op1 op2).2.1.toInt ≤ 0)
  left : (leftShiftU64 op1 count).toNat = op1.toNat * 2 ^ count.toNat % 2 ^ 64
  right : (rightShiftU64 op1 count).toNat = op1.toNat / 2 ^ count.toNat
  arithmetic : (aRightShift64 bit63 op1 count).toInt = op1.toInt / 2 ^ count.toNat
  index16 : 2 * (numAt m (ip + codeOffset) 2 / 2 ^ 12 % 8) ≤ 12 →
    (vmReadIndex16 A m ip codeOffset).toInt = indexOffset A 16 2 (numAt m (ip + codeOffset) 2)
  index32 : (vmReadIndex32 A m ip codeOffset).toInt =
    indexOffset A 32 4 (numAt m (ip + codeOffset) 4)
  index64 : (vmReadIndex64 A bit63 m ip codeOffset).toInt =
    indexOffset A 64 8 (numAt m (ip + codeOffset) 8)

/-- All of it is exact but the arithmetic shift by more places than there are, which needs a mask
that selects the operand's sign. -/
theorem exact_iff (A : Arch) (bit63 : BitVec 32) (op1 op2 count : BitVec 64) (m : Nat → Byte)
    (ip codeOffset : Nat) :
    Exact A bit63 op1 op2 count m ip codeOffset ↔
      count.toNat ≤ 63 ∨ (op1 &&& bit63.signExtend 64 ≠ 0#64 ↔ op1.msb = true) := by
  rw [← aRightShift64_toInt_iff]
  refine ⟨fun h => h.arithmetic, fun h => ?_⟩
  exact {
    mulU := mulU64x64_toNat op1 op2
    mulS := mulS64x64_toInt op1 op2
    divU := by
      intro hne
      have hpos : 0 < op2.toNat := Nat.pos_of_ne_zero fun hz => hne (BitVec.eq_of_toNat_eq hz)
      obtain ⟨hq, hr, -⟩ := divU64x64_spec op1 hne
      rw [hq, hr, Nat.mul_comm, Nat.div_add_mod]
      exact ⟨rfl, Nat.mod_lt _ hpos⟩
    divS := by
      intro hne
      obtain ⟨hq, hr, -⟩ := divS64x64_spec op1 hne
      rw [hr]
      exact ⟨hq, (Int.tdiv_mul_add_tmod _ _).symm⟩
    remainder := by
      intro hne
      have hpos : 0 < op2.toInt.natAbs := by
        rw [Int.natAbs_pos]
        exact fun hzero => hne (BitVec.toInt_inj.mp hzero)
      obtain ⟨-, hr, -⟩ := divS64x64_spec op1 hne
      rw [hr, Int.natAbs_tmod]
      refine ⟨Nat.mod_lt _ hpos, fun h0 => Int.tmod_nonneg _ h0, fun h0 => ?_⟩
      have hneg := Int.tmod_nonneg op2.toInt (by omega : 0 ≤ -op1.toInt)
      rw [Int.neg_tmod] at hneg
      omega
    left := leftShiftU64_toNat op1 count
    right := rightShiftU64_toNat op1 count
    arithmetic := h
    index16 := vmReadIndex16_toInt A m ip codeOffset
    index32 := vmReadIndex32_toInt A m ip codeOffset
    index64 := vmReadIndex64_toInt A bit63 m ip codeOffset }

/-- No `int` is the mask: either its sign does not reach the operand's, or it brings the bits below
along. -/
theorem aRightShift64_wrong : ¬∃ bit63 : BitVec 32,
    Exact .efi32 bit63 0x8000000000000000 1 64 (fun _ => 0) 0 0 ∧
      Exact .efi32 bit63 0x80000000 1 64 (fun _ => 0) 0 0 := by
  rintro ⟨bit63, hsign, hbelow⟩
  have hbig : ¬(64 : BitVec 64).toNat ≤ 63 := by decide
  have hsign' := ((aRightShift64_toInt_iff _ _ _).mp hsign.arithmetic).resolve_left hbig
  have hbelow' := ((aRightShift64_toInt_iff _ _ _).mp hbelow.arithmetic).resolve_left hbig
  have h63 : (0x8000000000000000 : BitVec 64) = BitVec.twoPow 64 63 := by decide
  have h31 : (0x80000000 : BitVec 64) = BitVec.twoPow 64 31 := by decide
  rw [h63, BitVec.and_comm, BitVec.and_twoPow, BitVec.getLsbD_signExtend] at hsign'
  rw [h31, BitVec.and_comm, BitVec.and_twoPow, BitVec.getLsbD_signExtend] at hbelow'
  have hlast : bit63.msb = bit63.getLsbD 31 := BitVec.msb_eq_getLsbD_last ..
  cases hmsb : bit63.msb with
  | true =>
    rw [hlast] at hmsb
    revert hbelow'
    simp [hmsb]
    decide
  | false =>
    revert hsign'
    simp [hmsb]

end EfiCore.Ebc
