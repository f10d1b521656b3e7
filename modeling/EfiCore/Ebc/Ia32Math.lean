import EfiCore.Lib.Words
import EfiCore.Types
import Mathlib.Logic.Function.Iterate

/-! # 64-bit arithmetic on IA-32

`Ia32Math.c`: shifts, products and quotients of 64-bit numbers from 32-bit instructions.
-/

namespace EfiCore.Ebc

open EfiCore.Lib.Words

abbrev Reg := BitVec 32

/-! ## Shifts -/

/-- `shld dst, src, cl`; the processor masks the count. -/
def shld (dst src : Reg) (ecx : Nat) : Reg :=
  if ecx % 32 = 0 then dst else (dst <<< (ecx % 32)) ||| (src >>> (32 - ecx % 32))

/-- `shrd dst, src, cl` -/
def shrd (dst src : Reg) (ecx : Nat) : Reg :=
  if ecx % 32 = 0 then dst else (dst >>> (ecx % 32)) ||| (src <<< (32 - ecx % 32))

/-- `shl dst, cl` -/
def shl (dst : Reg) (ecx : Nat) : Reg := dst <<< (ecx % 32)

/-- `shr dst, cl` -/
def shr (dst : Reg) (ecx : Nat) : Reg := dst >>> (ecx % 32)

/-- `sar dst, cl` -/
def sar (dst : Reg) (ecx : Nat) : Reg := dst.sshiftRight (ecx % 32)

def leftShiftU64 (operand countIn : BitVec 64) : BitVec 64 :=
  if countIn.toNat > 63 then 0
  else
    let eax : Reg := lo operand
    let edx : Reg := hi operand
    let ecx := countIn.toNat
    let edx := shld edx eax ecx
    let eax := shl eax ecx
    if ecx < 32 then edx ++ eax else eax ++ 0#32

def rightShiftU64 (operand countIn : BitVec 64) : BitVec 64 :=
  if countIn.toNat > 63 then 0
  else
    let eax : Reg := lo operand
    let edx : Reg := hi operand
    let ecx := countIn.toNat
    let eax := shrd eax edx ecx
    let edx := shr edx ecx
    if ecx < 32 then edx ++ eax else 0#32 ++ edx

/-- `ARightShift64`. `bit63` is what the compiler makes of `0x01 << 63`, the shift of an `int` by
more places than it has, which the language leaves open. -/
def aRightShift64 (bit63 : BitVec 32) (operand countIn : BitVec 64) : BitVec 64 :=
  if countIn.toNat > 63 then
    if operand &&& bit63.signExtend 64 ≠ 0#64 then BitVec.allOnes 64 else 0
  else
    let eax : Reg := lo operand
    let edx : Reg := hi operand
    let ecx := countIn.toNat
    let eax := shrd eax edx ecx
    let edx := sar edx ecx
    if ecx < 32 then edx ++ eax else sar edx 31 ++ edx

section Shifts

variable {dst src : Reg} {i n : Nat}

theorem getLsbD_shld (h : i < 32) : (shld dst src n).getLsbD i =
    if i < n % 32 then src.getLsbD (32 - n % 32 + i) else dst.getLsbD (i - n % 32) := by
  rw [shld]
  by_cases hzero : n % 32 = 0
  · simp [hzero]
  · rw [if_neg hzero]
    by_cases hlt : i < n % 32
    · simp [hlt, h]
    · rw [BitVec.getLsbD_or, BitVec.getLsbD_shiftLeft, BitVec.getLsbD_ushiftRight,
        BitVec.getLsbD_of_ge src _ (by omega)]
      simp only [hlt, h, decide_true, decide_false, Bool.not_false, Bool.true_and, Bool.or_false,
        if_false]

theorem getLsbD_shrd (h : i < 32) : (shrd dst src n).getLsbD i =
    if i + n % 32 < 32 then dst.getLsbD (n % 32 + i) else src.getLsbD (i + n % 32 - 32) := by
  rw [shrd]
  by_cases hzero : n % 32 = 0
  · simp [hzero, h]
  · rw [if_neg hzero]
    by_cases hlt : i + n % 32 < 32
    · have hlow : i < 32 - n % 32 := by omega
      simp [hlt, hlow]
    · have hge : ¬i < 32 - n % 32 := by omega
      have hplace : i - (32 - n % 32) = i + n % 32 - 32 := by omega
      rw [BitVec.getLsbD_or, BitVec.getLsbD_ushiftRight, BitVec.getLsbD_shiftLeft,
        BitVec.getLsbD_of_ge dst _ (by omega), hplace]
      simp only [hlt, h, hge, decide_true, decide_false, Bool.not_false, Bool.true_and,
        Bool.false_or, if_false]

end Shifts

theorem msb_hi (v : BitVec 64) : (hi v : Reg).msb = v.msb := by
  rw [BitVec.msb_eq_getLsbD_last, BitVec.msb_eq_getLsbD_last, getLsbD_hi _ (by decide)]

theorem leftShiftU64_eq (operand countIn : BitVec 64) :
    leftShiftU64 operand countIn = operand <<< countIn.toNat := by
  rw [leftShiftU64]
  by_cases hbig : countIn.toNat > 63
  · rw [if_pos hbig, BitVec.shiftLeft_eq_zero (by omega)]
    rfl
  · rw [if_neg hbig]
    refine BitVec.eq_of_getLsbD_eq fun i hi64 => ?_
    -- the bit's place in the operand, which the count puts into one of the halves
    by_cases hsmall : countIn.toNat < 32
    · have hmod : countIn.toNat % 32 = countIn.toNat := Nat.mod_eq_of_lt hsmall
      simp only [if_pos hsmall, BitVec.getLsbD_append, shl, BitVec.getLsbD_shiftLeft, hmod, hi64,
        decide_true, Bool.true_and]
      by_cases hlow : i < 32
      · rw [if_pos hlow, getLsbD_lo _ (by omega)]
        simp [hlow]
      · rw [if_neg hlow, getLsbD_shld (by omega), hmod]
        by_cases hcross : i - 32 < countIn.toNat
        · have hplace : 32 - countIn.toNat + (i - 32) = i - countIn.toNat := by omega
          have hle : ¬i < countIn.toNat := by omega
          rw [if_pos hcross, hplace, getLsbD_lo _ (by omega)]
          simp [hle]
        · have hplace : 32 + (i - 32 - countIn.toNat) = i - countIn.toNat := by omega
          have hle : ¬i < countIn.toNat := by omega
          rw [if_neg hcross, getLsbD_hi _ (by omega), hplace]
          simp [hle]
    · have hmod : countIn.toNat % 32 = countIn.toNat - 32 := by omega
      simp only [if_neg hsmall, BitVec.getLsbD_append, shl, BitVec.getLsbD_shiftLeft, hmod, hi64,
        decide_true, Bool.true_and]
      by_cases hlow : i < 32
      · have hlt : i < countIn.toNat := by omega
        simp [hlow, hlt]
      · have hin : i - 32 < 32 := by omega
        by_cases hcross : i < countIn.toNat
        · have hlt : i - 32 < countIn.toNat - 32 := by omega
          simp [hlow, hcross, hlt]
        · have hlt : ¬i - 32 < countIn.toNat - 32 := by omega
          have hplace : i - 32 - (countIn.toNat - 32) = i - countIn.toNat := by omega
          rw [if_neg hlow, hplace, getLsbD_lo _ (by omega)]
          simp [hin, hcross, hlt]

/-- Both shifts to the right, which differ in the bit that they fill up with. -/
theorem getLsbD_shiftRight (operand : BitVec 64) (fill : Bool) {n i : Nat} {shifted rest : Reg}
    (hn : n ≤ 63) (hi64 : i < 64)
    (hshifted : ∀ i < 32, shifted.getLsbD i =
      if n % 32 + i < 32 then (hi operand : Reg).getLsbD (n % 32 + i) else fill)
    (hrest : ∀ i < 32, rest.getLsbD i = fill) :
    (if n < 32 then shifted ++ shrd (lo operand) (hi operand) n else rest ++ shifted).getLsbD i =
      if n + i < 64 then operand.getLsbD (n + i) else fill := by
  by_cases hsmall : n < 32
  · have hmod : n % 32 = n := Nat.mod_eq_of_lt hsmall
    rw [if_pos hsmall, BitVec.getLsbD_append]
    by_cases hlow : i < 32
    · rw [if_pos hlow, getLsbD_shrd hlow, hmod, if_pos (by omega : n + i < 64)]
      by_cases hcross : i + n < 32
      · rw [if_pos hcross, getLsbD_lo _ (by omega)]
      · have hplace : 32 + (i + n - 32) = n + i := by omega
        rw [if_neg hcross, getLsbD_hi _ (by omega), hplace]
    · rw [if_neg hlow, hshifted _ (by omega), hmod]
      by_cases hin : n + (i - 32) < 32
      · have hplace : 32 + (n + (i - 32)) = n + i := by omega
        rw [if_pos hin, if_pos (by omega), getLsbD_hi _ hin, hplace]
      · rw [if_neg hin, if_neg (by omega)]
  · have hmod : n % 32 = n - 32 := by omega
    rw [if_neg hsmall, BitVec.getLsbD_append]
    by_cases hlow : i < 32
    · rw [if_pos hlow, hshifted _ hlow, hmod]
      by_cases hin : n - 32 + i < 32
      · have hplace : 32 + (n - 32 + i) = n + i := by omega
        rw [if_pos hin, if_pos (by omega), getLsbD_hi _ hin, hplace]
      · rw [if_neg hin, if_neg (by omega)]
    · rw [if_neg hlow, hrest _ (by omega), if_neg (by omega)]

theorem rightShiftU64_eq (operand countIn : BitVec 64) :
    rightShiftU64 operand countIn = operand >>> countIn.toNat := by
  rw [rightShiftU64]
  by_cases hbig : countIn.toNat > 63
  · rw [if_pos hbig]
    refine BitVec.eq_of_getLsbD_eq fun i _ => ?_
    rw [BitVec.getLsbD_ushiftRight, BitVec.getLsbD_of_ge operand _ (by omega)]
    exact BitVec.getLsbD_zero
  · rw [if_neg hbig]
    refine BitVec.eq_of_getLsbD_eq fun i hi64 => ?_
    rw [BitVec.getLsbD_ushiftRight]
    refine (getLsbD_shiftRight operand false (by omega) hi64 (fun i _ => ?_)
      (fun i _ => BitVec.getLsbD_zero)).trans ?_
    · rw [shr, BitVec.getLsbD_ushiftRight]
      split
      · rfl
      · exact BitVec.getLsbD_of_ge _ _ (by omega)
    · split
      · rfl
      · exact (BitVec.getLsbD_of_ge _ _ (by omega)).symm

theorem aRightShift64_eq (bit63 : BitVec 32) (operand : BitVec 64) {countIn : BitVec 64}
    (h : countIn.toNat ≤ 63) :
    aRightShift64 bit63 operand countIn = operand.sshiftRight countIn.toNat := by
  rw [aRightShift64, if_neg (by omega)]
  have hsar : ∀ (r : Reg) (n : Nat), ∀ i < 32, (sar r n).getLsbD i =
      if n % 32 + i < 32 then r.getLsbD (n % 32 + i) else r.msb := by
    intro r n i hin
    rw [sar, BitVec.getLsbD_sshiftRight]
    simp [hin]
  refine BitVec.eq_of_getLsbD_eq fun i hi64 => ?_
  rw [BitVec.getLsbD_sshiftRight, decide_eq_false (by omega), Bool.not_false, Bool.true_and]
  refine getLsbD_shiftRight operand _ h hi64 (fun i hin => ?_) (fun i hin => ?_)
  · rw [hsar _ _ i hin, msb_hi]
  · rw [hsar _ _ i hin, ← msb_hi]
    have hkeep : (sar (hi operand) countIn.toNat).msb = (hi operand : Reg).msb := by
      rw [sar, BitVec.msb_sshiftRight]
    split
    · have hzero : i = 0 := by omega
      rw [hzero, ← hkeep, BitVec.msb_eq_getLsbD_last]
    · exact hkeep

theorem leftShiftU64_toNat (operand countIn : BitVec 64) :
    (leftShiftU64 operand countIn).toNat = operand.toNat * 2 ^ countIn.toNat % 2 ^ 64 := by
  rw [leftShiftU64_eq, BitVec.toNat_shiftLeft, Nat.shiftLeft_eq]

theorem rightShiftU64_toNat (operand countIn : BitVec 64) :
    (rightShiftU64 operand countIn).toNat = operand.toNat / 2 ^ countIn.toNat := by
  rw [rightShiftU64_eq, BitVec.toNat_ushiftRight, Nat.shiftRight_eq_div_pow]

/-- The division rounds down, and a number shifted out leaves its sign. -/
theorem aRightShift64_toInt_iff (bit63 : BitVec 32) (operand countIn : BitVec 64) :
    (aRightShift64 bit63 operand countIn).toInt = operand.toInt / 2 ^ countIn.toNat ↔
      countIn.toNat ≤ 63 ∨ (operand &&& bit63.signExtend 64 ≠ 0#64 ↔ operand.msb = true) := by
  by_cases hbig : countIn.toNat > 63
  · have hlow := BitVec.le_toInt operand
    have hhigh := BitVec.toInt_lt (x := operand)
    have hpow : (2 : ℤ) ^ 64 ≤ 2 ^ countIn.toNat := by
      exact_mod_cast Nat.pow_le_pow_right (by decide : 0 < 2) (by omega : 64 ≤ countIn.toNat)
    have hfloor : operand.toInt / 2 ^ countIn.toNat = if operand.msb then -1 else 0 := by
      cases hmsb : operand.msb with
      | true =>
        have hneg := BitVec.toInt_neg_of_msb_true hmsb
        have hup : (operand.toInt + 2 ^ countIn.toNat) / 2 ^ countIn.toNat = 0 :=
          Int.ediv_eq_zero_of_lt (by omega) (by omega)
        rw [Int.add_ediv_of_dvd_right (dvd_refl _), Int.ediv_self (by omega)] at hup
        rw [if_pos rfl]
        omega
      | false =>
        have hpos := BitVec.toInt_nonneg_of_msb_false hmsb
        exact Int.ediv_eq_zero_of_lt hpos (by omega)
    have hsmall : ¬countIn.toNat ≤ 63 := by omega
    have hones : (BitVec.allOnes 64).toInt = -1 := by decide
    rw [hfloor, aRightShift64, if_pos hbig, or_iff_right hsmall]
    by_cases hbit : operand &&& bit63.signExtend 64 ≠ 0#64
    · rw [if_pos hbit, hones]
      cases operand.msb <;> simp [hbit]
    · rw [if_neg hbit]
      cases operand.msb <;> simp [hbit]
  · rw [aRightShift64_eq _ _ (by omega), BitVec.toInt_sshiftRight, Int.shiftRight_eq_div_pow]
    exact iff_of_true (by norm_cast) (.inl (by omega))

/-! ## Products -/

def mulU64x64 (value1 value2 : BitVec 64) : BitVec 64 × BitVec 64 :=
  let ll := mul (lo value1 : Reg) (lo value2)
  let hl := mul (hi value1 : Reg) (lo value2)
  let first := adc hl.2 ll.1 false
  let resHi0 := adc hl.1 0#32 first.2
  let lh := mul (lo value1 : Reg) (hi value2)
  let result4 := adc lh.2 first.1 false
  let ecx := adc lh.1 0#32 result4.2
  let hh := mul (hi value1 : Reg) (hi value2)
  let eax := adc hh.2 ecx.1 false
  let edx := adc hh.1 0#32 eax.2
  let resHi0 := adc resHi0.1 eax.1 false
  let edx := adc edx.1 0#32 resHi0.2
  (result4.1 ++ ll.2, edx.1 ++ resHi0.1)

theorem mulU64x64_toNat (value1 value2 : BitVec 64) :
    (mulU64x64 value1 value2).1.toNat + 2 ^ 64 * (mulU64x64 value1 value2).2.toNat =
      value1.toNat * value2.toNat := by
  have h1 : (lo value1 : Reg).toNat + 2 ^ 32 * (hi value1 : Reg).toNat = value1.toNat :=
    toNat_lo_hi (w := 32) value1
  have h2 : (lo value2 : Reg).toNat + 2 ^ 32 * (hi value2 : Reg).toNat = value2.toNat :=
    toNat_lo_hi (w := 32) value2
  have hlt : value1.toNat * value2.toNat < 2 ^ 64 * 2 ^ 64 :=
    Nat.mul_lt_mul'' value1.isLt value2.isLt
  rw [← h1, ← h2] at hlt ⊢
  simp only [mulU64x64, toNat_append (w := 32)]
  generalize (lo value1 : Reg) = al at *
  generalize (hi value1 : Reg) = ah at *
  generalize (lo value2 : Reg) = bl at *
  generalize (hi value2 : Reg) = bh at *
  have hexpand : (al.toNat + 2 ^ 32 * ah.toNat) * (bl.toNat + 2 ^ 32 * bh.toNat) =
      al.toNat * bl.toNat + 2 ^ 32 * (ah.toNat * bl.toNat) + 2 ^ 32 * (al.toNat * bh.toNat) +
        2 ^ 64 * (ah.toNat * bh.toNat) := by ring
  rw [hexpand, ← mul_toNat al bl, ← mul_toNat ah bl, ← mul_toNat al bh, ← mul_toNat ah bh] at hlt
  rw [hexpand, ← mul_toNat al bl, ← mul_toNat ah bl, ← mul_toNat al bh, ← mul_toNat ah bh]
  clear hexpand
  -- no carry is lost within a product, and the last one is none since the whole fits
  have hhl := adc_mul_fst ah bl (adc (mul ah bl).2 (mul al bl).1 false).2 (by decide)
  have hfirst := adc_toNat (mul ah bl).2 (mul al bl).1 false
  generalize adc (mul ah bl).2 (mul al bl).1 false = first at *
  have hlh := adc_mul_fst al bh (adc (mul al bh).2 first.1 false).2 (by decide)
  have hresult4 := adc_toNat (mul al bh).2 first.1 false
  generalize adc (mul al bh).2 first.1 false = result4 at *
  generalize (adc (mul al bh).1 0#32 result4.2).1 = ecx at *
  have hhh := adc_mul_fst ah bh (adc (mul ah bh).2 ecx false).2 (by decide)
  have heax := adc_toNat (mul ah bh).2 ecx false
  generalize adc (mul ah bh).2 ecx false = eax at *
  generalize (adc (mul ah bl).1 0#32 first.2).1 = resHi0 at *
  have hresHi0 := adc_toNat resHi0 eax.1 false
  generalize adc resHi0 eax.1 false = resHi at *
  generalize (adc (mul ah bh).1 0#32 eax.2).1 = edx at *
  have hedx := adc_toNat edx 0#32 resHi.2
  simp only [Bool.toNat_false, BitVec.toNat_zero, Nat.add_zero] at *
  omega

/-- `not`, `not`, `add`, `adc` on the two halves. -/
def negate64 (v : BitVec 64) : BitVec 64 :=
  let eax := adc (~~~lo v : Reg) 1#32 false
  let ebx := adc (~~~hi v : Reg) 0#32 eax.2
  ebx.1 ++ eax.1

/-- The same on four words; the lower number first. -/
def negate128 (v : BitVec 64 × BitVec 64) : BitVec 64 × BitVec 64 :=
  let eax := adc (~~~lo v.1 : Reg) 1#32 false
  let ebx := adc (~~~hi v.1 : Reg) 0#32 eax.2
  let ecx := adc (~~~lo v.2 : Reg) 0#32 ebx.2
  let edx := adc (~~~hi v.2 : Reg) 0#32 ecx.2
  (ebx.1 ++ eax.1, edx.1 ++ ecx.1)

/-- `MulS64x64`. Between the signs' treatment stand the instructions of `MulU64x64`. -/
def mulS64x64 (value1 value2 : BitVec 64) : BitVec 64 × BitVec 64 :=
  let sign1 := (hi value1 : Reg).msb
  let value1 := if sign1 then negate64 value1 else value1
  let sign2 := (hi value2 : Reg).msb
  let value2 := if sign2 then negate64 value2 else value2
  let product := mulU64x64 value1 value2
  if sign1 ^^ sign2 then negate128 product else product

theorem negate64_toNat (v : BitVec 64) : (negate64 v).toNat = (2 ^ 64 - v.toNat) % 2 ^ 64 := by
  have hv : (lo v : Reg).toNat + 2 ^ 32 * (hi v : Reg).toNat = v.toNat := toNat_lo_hi (w := 32) v
  simp only [negate64, toNat_append (w := 32)]
  have hlow := adc_toNat (~~~lo v : Reg) 1#32 false
  generalize adc (~~~lo v : Reg) 1#32 false = eax at *
  have hhigh := adc_toNat (~~~hi v : Reg) 0#32 eax.2
  simp only [BitVec.toNat_not, Bool.toNat_false, BitVec.toNat_ofNat] at hlow hhigh
  omega

theorem negate128_toNat (v : BitVec 64 × BitVec 64) :
    (negate128 v).1.toNat + 2 ^ 64 * (negate128 v).2.toNat =
      (2 ^ 128 - (v.1.toNat + 2 ^ 64 * v.2.toNat)) % 2 ^ 128 := by
  have h1 : (lo v.1 : Reg).toNat + 2 ^ 32 * (hi v.1 : Reg).toNat = v.1.toNat :=
    toNat_lo_hi (w := 32) v.1
  have h2 : (lo v.2 : Reg).toNat + 2 ^ 32 * (hi v.2 : Reg).toNat = v.2.toNat :=
    toNat_lo_hi (w := 32) v.2
  simp only [negate128, toNat_append (w := 32)]
  have heax := adc_toNat (~~~lo v.1 : Reg) 1#32 false
  generalize adc (~~~lo v.1 : Reg) 1#32 false = eax at *
  have hebx := adc_toNat (~~~hi v.1 : Reg) 0#32 eax.2
  generalize adc (~~~hi v.1 : Reg) 0#32 eax.2 = ebx at *
  have hecx := adc_toNat (~~~lo v.2 : Reg) 0#32 ebx.2
  generalize adc (~~~lo v.2 : Reg) 0#32 ebx.2 = ecx at *
  have hedx := adc_toNat (~~~hi v.2 : Reg) 0#32 ecx.2
  simp only [BitVec.toNat_not, Bool.toNat_false, BitVec.toNat_ofNat] at heax hebx hecx hedx
  omega

/-- The magnitude, also of the most negative number. -/
theorem magnitude_toNat (v : BitVec 64) :
    (if v.msb then negate64 v else v).toNat = v.toInt.natAbs := by
  cases hmsb : v.msb with
  | true =>
    have hneg := BitVec.toInt_neg_of_msb_true hmsb
    have hlow := BitVec.le_toInt v
    have htoInt := BitVec.toInt_eq_msb_cond v
    rw [hmsb, if_pos rfl] at htoInt
    rw [if_pos rfl, negate64_toNat]
    omega
  | false =>
    rw [if_neg Bool.false_ne_true, BitVec.toInt_eq_toNat_of_msb hmsb]
    rfl

theorem mulS64x64_toInt (value1 value2 : BitVec 64) :
    ((mulS64x64 value1 value2).1.toNat : ℤ) + 2 ^ 64 * (mulS64x64 value1 value2).2.toInt =
      value1.toInt * value2.toInt := by
  simp only [mulS64x64, msb_hi]
  have hproduct := mulU64x64_toNat (if value1.msb then negate64 value1 else value1)
    (if value2.msb then negate64 value2 else value2)
  rw [magnitude_toNat, magnitude_toNat, ← Int.natAbs_mul] at hproduct
  generalize mulU64x64 (if value1.msb then negate64 value1 else value1)
    (if value2.msb then negate64 value2 else value2) = product at *
  have hbound : (value1.toInt * value2.toInt).natAbs ≤ 2 ^ 63 * 2 ^ 63 := by
    rw [Int.natAbs_mul]
    refine Nat.mul_le_mul ?_ ?_
    · have hlow := BitVec.le_toInt value1
      have hhigh := BitVec.toInt_lt (x := value1)
      omega
    · have hlow := BitVec.le_toInt value2
      have hhigh := BitVec.toInt_lt (x := value2)
      omega
  -- the sign of the exact product is the one that the code keeps
  have hsign : if (value1.msb ^^ value2.msb) = true then value1.toInt * value2.toInt ≤ 0
      else 0 ≤ value1.toInt * value2.toInt := by
    cases h1 : value1.msb with
    | true =>
      have hneg1 := BitVec.toInt_neg_of_msb_true h1
      cases h2 : value2.msb with
      | true =>
        have hneg2 := BitVec.toInt_neg_of_msb_true h2
        exact Int.mul_nonneg_of_nonpos_of_nonpos (by omega) (by omega)
      | false =>
        have hpos2 := BitVec.toInt_nonneg_of_msb_false h2
        exact Int.mul_nonpos_of_nonpos_of_nonneg (by omega) hpos2
    | false =>
      have hpos1 := BitVec.toInt_nonneg_of_msb_false h1
      cases h2 : value2.msb with
      | true =>
        have hneg2 := BitVec.toInt_neg_of_msb_true h2
        exact Int.mul_nonpos_of_nonneg_of_nonpos hpos1 (by omega)
      | false =>
        have hpos2 := BitVec.toInt_nonneg_of_msb_false h2
        exact Int.mul_nonneg hpos1 hpos2
  generalize value1.toInt * value2.toInt = exact at *
  have hlow := product.1.isLt
  cases hxor : value1.msb ^^ value2.msb with
  | true =>
    rw [hxor, if_pos rfl] at hsign
    have hnegated := negate128_toNat product
    rw [if_pos rfl]
    have hlow' := (negate128 product).1.isLt
    have htoInt := BitVec.toInt_eq_toNat_cond (negate128 product).2
    split at htoInt <;> omega
  | false =>
    rw [hxor, if_neg Bool.false_ne_true] at hsign
    rw [if_neg Bool.false_ne_true]
    have htoInt := BitVec.toInt_eq_toNat_cond product.2
    split at htoInt <;> omega

/-! ## Quotients -/

/-- A turn of the loop of `DivU64x64`. -/
def divStep (divisor : BitVec 64) (state : BitVec 64 × BitVec 64) : BitVec 64 × BitVec 64 :=
  let dividend0 := rcl (lo state.1 : Reg) false
  let dividend4 := rcl (hi state.1 : Reg) dividend0.2
  let rem0 := rcl (lo state.2 : Reg) dividend4.2
  let rem4 := rcl (hi state.2 : Reg) rem0.2
  let dividend : BitVec 64 := dividend4.1 ++ dividend0.1
  let rem : BitVec 64 := rem4.1 ++ rem0.1
  if divisor ≤ rem then (dividend ||| 1#64, rem - divisor) else (dividend, rem)

/-- `DivU64x64`: quotient, remainder and error. -/
def divU64x64 (dividend divisor : BitVec 64) : BitVec 64 × BitVec 64 × Bool :=
  if divisor = 0#64 then (0x8000000000000000, 0x8000000000000000, true)
  else
    let state := (divStep divisor)^[64] (dividend, 0)
    (state.1, state.2, false)

/-- `DivS64x64` -/
def divS64x64 (dividend divisor : BitVec 64) : BitVec 64 × BitVec 64 × Bool :=
  let remainderNegative := dividend.slt 0#64
  let negative := dividend.slt 0#64 ^^ divisor.slt 0#64
  let dividend := if dividend.slt 0#64 then -dividend else dividend
  let divisor := if divisor.slt 0#64 then -divisor else divisor
  let result := divU64x64 dividend divisor
  if result.2.2 then result
  else
    let quotient := if negative then -result.1 else result.1
    let remainder := if remainderNegative then -result.2.1 else result.2.1
    (quotient, remainder, false)

/-- The state of the loop when `j` bits of the dividend are to come. -/
structure Divided (dividend divisor j : Nat) (state : BitVec 64 × BitVec 64) : Prop where
  quotient : state.1.toNat = dividend % 2 ^ j * 2 ^ (64 - j) + dividend / 2 ^ j / divisor
  remainder : state.2.toNat = dividend / 2 ^ j % divisor

theorem divStep_toNat (divisor : BitVec 64) (state : BitVec 64 × BitVec 64)
    (hroom : 2 * state.2.toNat + 1 < 2 ^ 64) :
    let carry := state.1.toNat / 2 ^ 63
    let shifted := 2 * state.1.toNat % 2 ^ 64
    let rem := 2 * state.2.toNat + carry
    (divStep divisor state).1.toNat = (if divisor.toNat ≤ rem then shifted + 1 else shifted) ∧
      (divStep divisor state).2.toNat =
        (if divisor.toNat ≤ rem then rem - divisor.toNat else rem) := by
  have h1 : (lo state.1 : Reg).toNat + 2 ^ 32 * (hi state.1 : Reg).toNat = state.1.toNat :=
    toNat_lo_hi (w := 32) state.1
  have h2 : (lo state.2 : Reg).toNat + 2 ^ 32 * (hi state.2 : Reg).toNat = state.2.toNat :=
    toNat_lo_hi (w := 32) state.2
  simp only [divStep]
  have hdividend0 := rcl_toNat (lo state.1 : Reg) false (by decide)
  generalize rcl (lo state.1 : Reg) false = dividend0 at *
  have hdividend4 := rcl_toNat (hi state.1 : Reg) dividend0.2 (by decide)
  generalize rcl (hi state.1 : Reg) dividend0.2 = dividend4 at *
  have hrem0 := rcl_toNat (lo state.2 : Reg) dividend4.2 (by decide)
  generalize rcl (lo state.2 : Reg) dividend4.2 = rem0 at *
  have hrem4 := rcl_toNat (hi state.2 : Reg) rem0.2 (by decide)
  generalize rcl (hi state.2 : Reg) rem0.2 = rem4 at *
  rw [Bool.toNat_false, Nat.add_zero] at hdividend0
  have hd : (dividend4.1 ++ dividend0.1 : BitVec 64).toNat =
      dividend0.1.toNat + 2 ^ 32 * dividend4.1.toNat := toNat_append (w := 32) _ _
  have hr : (rem4.1 ++ rem0.1 : BitVec 64).toNat = rem0.1.toNat + 2 ^ 32 * rem4.1.toNat :=
    toNat_append (w := 32) _ _
  have hcarry := Bool.toNat_le dividend4.2
  have hrem : (rem4.1 ++ rem0.1 : BitVec 64).toNat =
      2 * state.2.toNat + state.1.toNat / 2 ^ 63 := by
    have hlost := Bool.toNat_le rem4.2
    omega
  have hdividend : (dividend4.1 ++ dividend0.1 : BitVec 64).toNat =
      2 * state.1.toNat % 2 ^ 64 := by
    omega
  generalize (rem4.1 ++ rem0.1 : BitVec 64) = rem at *
  generalize (dividend4.1 ++ dividend0.1 : BitVec 64) = dividend at *
  have hone : (dividend ||| 1#64).toNat = dividend.toNat + 1 := by
    have heven : dividend.toNat = (dividend.toNat / 2) <<< 1 := by
      rw [Nat.shiftLeft_eq]
      omega
    have hbit : (1#64).toNat = 1 := rfl
    rw [BitVec.toNat_or, hbit, heven]
    exact (Nat.shiftLeft_add_eq_or_of_lt (by decide) _).symm
  by_cases hle : divisor ≤ rem
  · have hnat : divisor.toNat ≤ rem.toNat := hle
    rw [if_pos hle, if_pos (by omega), if_pos (by omega), hone, hdividend,
      BitVec.toNat_sub_of_le hle, hrem]
    exact ⟨rfl, rfl⟩
  · have hnat : ¬divisor.toNat ≤ rem.toNat := hle
    rw [if_neg hle, if_neg (by omega), if_neg (by omega)]
    exact ⟨hdividend, hrem⟩

theorem divStep_divided {n divisor : BitVec 64} {j : Nat} {state : BitVec 64 × BitVec 64}
    (hj : j < 64) (hdivisor : divisor ≠ 0#64) (h : Divided n.toNat divisor.toNat (j + 1) state) :
    Divided n.toNat divisor.toNat j (divStep divisor state) := by
  have hpos : 0 < divisor.toNat :=
    Nat.pos_of_ne_zero fun hzero => hdivisor (BitVec.eq_of_toNat_eq hzero)
  have hn := n.isLt
  obtain ⟨k, hk⟩ : ∃ k, k + j = 63 := ⟨63 - j, by omega⟩
  have hsub : 64 - (j + 1) = k := by omega
  have hsub' : 64 - j = k + 1 := by omega
  have hpow : 2 ^ k * 2 ^ j = 2 ^ 63 := by rw [← Nat.pow_add, hk]
  -- the bit that comes next
  have hnext : n.toNat / 2 ^ j = 2 * (n.toNat / 2 ^ (j + 1)) + n.toNat / 2 ^ j % 2 := by
    rw [Nat.pow_succ, ← Nat.div_div_eq_div_mul]
    omega
  have hmod : n.toNat % 2 ^ (j + 1) = n.toNat % 2 ^ j + 2 ^ j * (n.toNat / 2 ^ j % 2) := by
    rw [Nat.pow_succ, Nat.mod_mul]
  have hq : n.toNat / 2 ^ (j + 1) < 2 ^ k := by
    rw [Nat.div_lt_iff_lt_mul (Nat.two_pow_pos _), Nat.pow_succ, ← Nat.mul_assoc, hpow]
    exact hn
  have hdiv := Nat.div_add_mod (n.toNat / 2 ^ (j + 1)) divisor.toNat
  have hlt := Nat.mod_lt (n.toNat / 2 ^ (j + 1)) hpos
  have hle : n.toNat / 2 ^ (j + 1) % divisor.toNat ≤ n.toNat / 2 ^ (j + 1) := Nat.mod_le _ _
  have hqle : n.toNat / 2 ^ (j + 1) / divisor.toNat ≤ n.toNat / 2 ^ (j + 1) := Nat.div_le_self _ _
  have hk63 : 2 ^ k ≤ 2 ^ 63 := Nat.pow_le_pow_right (by decide) (by omega)
  have hquotient := h.quotient
  have hremainder := h.remainder
  rw [hsub, hmod] at hquotient
  have hstep := divStep_toNat divisor state (by omega)
  have hlow : n.toNat % 2 ^ j < 2 ^ j := Nat.mod_lt _ (Nat.two_pow_pos _)
  have hrest : n.toNat % 2 ^ j * 2 ^ k + n.toNat / 2 ^ (j + 1) / divisor.toNat < 2 ^ 63 := by
    have hmul : (n.toNat % 2 ^ j + 1) * 2 ^ k ≤ 2 ^ j * 2 ^ k := Nat.mul_le_mul_right _ hlow
    rw [Nat.mul_comm (2 ^ j), hpow, Nat.add_mul, Nat.one_mul] at hmul
    omega
  have htop : 2 ^ j * (n.toNat / 2 ^ j % 2) * 2 ^ k = 2 ^ 63 * (n.toNat / 2 ^ j % 2) := by
    rw [← hpow]
    ring
  have hdouble : n.toNat % 2 ^ j * 2 ^ (k + 1) = 2 * (n.toNat % 2 ^ j * 2 ^ k) := by ring
  rw [Nat.add_mul, htop] at hquotient
  have hbit : n.toNat / 2 ^ j % 2 < 2 := Nat.mod_lt _ (by decide)
  have hunique : ∀ c r : Nat, r + divisor.toNat * c = n.toNat / 2 ^ j → r < divisor.toNat →
      n.toNat / 2 ^ j / divisor.toNat = c ∧ n.toNat / 2 ^ j % divisor.toNat = r :=
    fun c r hsum hr => (Nat.div_mod_unique hpos).mpr ⟨hsum, hr⟩
  generalize n.toNat / 2 ^ j % 2 = bit at *
  generalize n.toNat % 2 ^ j * 2 ^ k = rest at *
  generalize n.toNat / 2 ^ (j + 1) = whole at *
  generalize whole / divisor.toNat = quot at *
  generalize whole % divisor.toNat = rem at *
  have hcarry : state.1.toNat / 2 ^ 63 = bit := by omega
  have hshifted : 2 * state.1.toNat % 2 ^ 64 = 2 * (rest + quot) := by omega
  obtain ⟨hfst, hsnd⟩ := hstep
  rw [hcarry, hshifted, hremainder] at hfst
  rw [hcarry, hremainder] at hsnd
  have hdouble' : divisor.toNat * (2 * quot) =
      2 * (divisor.toNat * quot) := by ring
  by_cases hge : divisor.toNat ≤ 2 * rem + bit
  · rw [if_pos hge] at hfst hsnd
    have hsum : 2 * rem + bit - divisor.toNat +
        divisor.toNat * (2 * quot + 1) = n.toNat / 2 ^ j := by
      rw [Nat.mul_add, hdouble', Nat.mul_one]
      omega
    obtain ⟨hq', hr'⟩ := hunique _ _ hsum (by omega)
    refine ⟨?_, hsnd.trans hr'.symm⟩
    rw [hsub', hdouble, hq']
    omega
  · rw [if_neg hge] at hfst hsnd
    have hsum : 2 * rem + bit +
        divisor.toNat * (2 * quot) = n.toNat / 2 ^ j := by
      rw [hdouble']
      omega
    obtain ⟨hq', hr'⟩ := hunique _ _ hsum (by omega)
    refine ⟨?_, hsnd.trans hr'.symm⟩
    rw [hsub', hdouble, hq']
    omega

theorem divU64x64_spec (dividend : BitVec 64) {divisor : BitVec 64} (hdivisor : divisor ≠ 0#64) :
    (divU64x64 dividend divisor).1.toNat = dividend.toNat / divisor.toNat ∧
      (divU64x64 dividend divisor).2.1.toNat = dividend.toNat % divisor.toNat ∧
      (divU64x64 dividend divisor).2.2 = false := by
  have hrun : ∀ k ≤ 64,
      Divided dividend.toNat divisor.toNat (64 - k) ((divStep divisor)^[k] (dividend, 0)) := by
    intro k hk
    induction k with
    | zero =>
      have hzero : dividend.toNat / 2 ^ 64 = 0 := Nat.div_eq_of_lt dividend.isLt
      refine ⟨?_, ?_⟩
      · rw [Nat.sub_zero, hzero, Nat.mod_eq_of_lt dividend.isLt, Nat.sub_self, Nat.zero_div]
        exact (Nat.mul_one _).symm
      · rw [Nat.sub_zero, hzero, Nat.zero_mod]
        rfl
    | succ k ih =>
      rw [Function.iterate_succ_apply']
      have hsucc : 64 - (k + 1) + 1 = 64 - k := by omega
      exact divStep_divided (by omega) hdivisor (hsucc ▸ ih (by omega))
  have hlast := hrun 64 (Nat.le_refl _)
  rw [divU64x64, if_neg hdivisor]
  refine ⟨?_, ?_, rfl⟩
  · simpa [Nat.mod_one] using hlast.quotient
  · simpa using hlast.remainder

theorem negate64_eq (v : BitVec 64) : negate64 v = -v :=
  BitVec.eq_of_toNat_eq (by rw [negate64_toNat, BitVec.toNat_neg])

theorem toInt_eq_natAbs (v : BitVec 64) :
    v.toInt = if v.msb then -(v.toInt.natAbs : ℤ) else v.toInt.natAbs := by
  cases hmsb : v.msb with
  | true =>
    have hneg := BitVec.toInt_neg_of_msb_true hmsb
    rw [if_pos rfl]
    omega
  | false =>
    have hpos := BitVec.toInt_nonneg_of_msb_false hmsb
    rw [if_neg Bool.false_ne_true]
    omega

/-- The quotient is cut off towards zero, and wraps for the one that does not fit. -/
theorem divS64x64_spec (dividend : BitVec 64) {divisor : BitVec 64} (hdivisor : divisor ≠ 0#64) :
    (divS64x64 dividend divisor).1 = BitVec.ofInt 64 (dividend.toInt.tdiv divisor.toInt) ∧
      (divS64x64 dividend divisor).2.1.toInt = dividend.toInt.tmod divisor.toInt ∧
      (divS64x64 dividend divisor).2.2 = false := by
  have hslt : ∀ v : BitVec 64, v.slt 0#64 = v.msb := fun v => BitVec.slt_zero_eq_msb
  simp only [divS64x64, hslt, ← negate64_eq]
  have hne : (if divisor.msb then negate64 divisor else divisor) ≠ 0#64 := by
    intro hzero
    have hmagnitude := magnitude_toNat divisor
    rw [hzero] at hmagnitude
    exact hdivisor (BitVec.toInt_inj.mp (Int.natAbs_eq_zero.mp hmagnitude.symm))
  obtain ⟨hq, hr, herror⟩ := divU64x64_spec (if dividend.msb then negate64 dividend else dividend) hne
  rw [magnitude_toNat, magnitude_toNat] at hq hr
  have hlt : divisor.toInt.natAbs ≤ 2 ^ 63 := by
    have hlow := BitVec.le_toInt divisor
    have hhigh := BitVec.toInt_lt (x := divisor)
    omega
  have hpos : 0 < divisor.toInt.natAbs := by
    rw [Int.natAbs_pos]
    exact fun hzero => hdivisor (BitVec.toInt_inj.mp hzero)
  have hmod := Nat.mod_lt dividend.toInt.natAbs hpos
  have hdividend := toInt_eq_natAbs dividend
  have hdivisor' := toInt_eq_natAbs divisor
  generalize divU64x64 (if dividend.msb then negate64 dividend else dividend)
    (if divisor.msb then negate64 divisor else divisor) = result at *
  generalize dividend.toInt.natAbs = a at *
  generalize divisor.toInt.natAbs = b at *
  rw [herror, if_neg Bool.false_ne_true, hdividend, hdivisor']
  simp only [negate64_eq]
  have hq' : result.1 = BitVec.ofInt 64 ((a / b : Nat) : ℤ) := by
    rw [BitVec.ofInt_natCast, ← hq, BitVec.ofNat_toNat, BitVec.setWidth_eq]
  have hrmsb : result.2.1.msb = false := by
    rw [BitVec.msb_eq_decide]
    simp
    omega
  have hr' : result.2.1.toInt = ((a % b : Nat) : ℤ) := by
    rw [BitVec.toInt_eq_toNat_of_msb hrmsb, hr]
  have hrneg : (-result.2.1).toInt = -((a % b : Nat) : ℤ) := by
    rw [BitVec.toInt_neg_eq_of_msb hrmsb, hr']
  have htdiv : (a : ℤ).tdiv b = ((a / b : Nat) : ℤ) := rfl
  have htmod : (a : ℤ).tmod b = ((a % b : Nat) : ℤ) := rfl
  refine ⟨?_, ?_, trivial⟩
  · cases dividend.msb <;> cases divisor.msb <;>
      simp only [Bool.xor_false, Bool.xor_true, Bool.not_false, Bool.not_true, if_true, if_false,
        Bool.false_eq_true, Int.neg_tdiv, Int.tdiv_neg, Int.neg_neg, BitVec.ofInt_neg, htdiv, hq']
  · cases dividend.msb <;> cases divisor.msb <;>
      simp only [if_true, if_false, Bool.false_eq_true, Int.neg_tmod, Int.tmod_neg, htmod, hr',
        hrneg]

end EfiCore.Ebc
