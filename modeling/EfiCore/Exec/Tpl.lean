import EfiCore.Types
import Mathlib.Data.Nat.Bitwise
import Mathlib.Data.Nat.Log
import Mathlib.Tactic.IntervalCases

/-! # The pending word and its scan

`EventPending` holds one bit for each priority level with queued notifications.  The
sources build its masks from `int` expressions (`1 << Priority`, `-2 << NewTpl`) that are
converted to `UINTN` by sign extension, and find the highest set bit through the byte
table `HSB`.  The lemmas below say what the masks and the scan compute, as long as no bit
from 32 on is set; `EFI64` and level 31 are where that fails.
-/

namespace EfiCore.Exec

/-- `TPL_APPLICATION` -/
def tplApplication : Nat := 4

/-- `TPL_HIGH_LEVEL` -/
def tplHighLevel : Nat := 31

/-- `1 << Priority`, as it reaches a `UINTN`. -/
def levelBit (A : Arch) (priority : Nat) : Uintn A := A.ofInt (1#32 <<< priority)

/-- `~(1 << Priority)`, as it reaches a `UINTN`. -/
def levelMask (A : Arch) (priority : Nat) : Uintn A := A.ofInt (~~~(1#32 <<< priority))

/-- `-2 << NewTpl`, as it reaches a `UINTN`: the levels above `NewTpl`. -/
def aboveMask (A : Arch) (newTpl : Nat) : Uintn A := A.ofInt ((-2#32) <<< newTpl)

/-- The table `HSB`. -/
def hsb : List Nat := [
    0, 0, 1, 1, 2, 2, 2, 2, 3, 3, 3, 3, 3, 3, 3, 3,
    4, 4, 4, 4, 4, 4, 4, 4, 4, 4, 4, 4, 4, 4, 4, 4,
    5, 5, 5, 5, 5, 5, 5, 5, 5, 5, 5, 5, 5, 5, 5, 5,
    5, 5, 5, 5, 5, 5, 5, 5, 5, 5, 5, 5, 5, 5, 5, 5,
    6, 6, 6, 6, 6, 6, 6, 6, 6, 6, 6, 6, 6, 6, 6, 6,
    6, 6, 6, 6, 6, 6, 6, 6, 6, 6, 6, 6, 6, 6, 6, 6,
    6, 6, 6, 6, 6, 6, 6, 6, 6, 6, 6, 6, 6, 6, 6, 6,
    6, 6, 6, 6, 6, 6, 6, 6, 6, 6, 6, 6, 6, 6, 6, 6,
    7, 7, 7, 7, 7, 7, 7, 7, 7, 7, 7, 7, 7, 7, 7, 7,
    7, 7, 7, 7, 7, 7, 7, 7, 7, 7, 7, 7, 7, 7, 7, 7,
    7, 7, 7, 7, 7, 7, 7, 7, 7, 7, 7, 7, 7, 7, 7, 7,
    7, 7, 7, 7, 7, 7, 7, 7, 7, 7, 7, 7, 7, 7, 7, 7,
    7, 7, 7, 7, 7, 7, 7, 7, 7, 7, 7, 7, 7, 7, 7, 7,
    7, 7, 7, 7, 7, 7, 7, 7, 7, 7, 7, 7, 7, 7, 7, 7,
    7, 7, 7, 7, 7, 7, 7, 7, 7, 7, 7, 7, 7, 7, 7, 7,
    7, 7, 7, 7, 7, 7, 7, 7, 7, 7, 7, 7, 7, 7, 7, 7]

variable {A : Arch}

/-- The shift `HighestSetBit` settles on from its three mask tests. -/
def hsbShift (i : Uintn A) : Nat :=
  if i &&& BitVec.ofNat _ 0xFFFF0000 ≠ 0 then
    if i &&& BitVec.ofNat _ 0xFF000000 ≠ 0 then 24 else 16
  else
    if i &&& BitVec.ofNat _ 0xFF00 ≠ 0 then 8 else 0

/-- The index `HighestSetBit` reads `HSB` at. -/
def hsbIndex (i : Uintn A) : Nat := (i >>> hsbShift i).toNat

/-- `HighestSetBit`; `none` when the index is outside `HSB`. -/
def highestSetBit (i : Uintn A) : Option Nat := hsb[hsbIndex i]?.map (· + hsbShift i)

/-! ## The masks -/

theorem bits_ge (A : Arch) : 32 ≤ A.bits := by cases A <;> decide

theorem getLsbD_ofInt (x : BitVec 32) (q : Nat) :
    (A.ofInt x).getLsbD q =
      (decide (q < A.bits) && if q < 32 then x.getLsbD q else x.getLsbD 31) := by
  simp only [Arch.ofInt, BitVec.getLsbD_signExtend]
  congr 1

theorem getLsbD_levelBit {p : Nat} (hp : p ≤ 31) (q : Nat) :
    (levelBit A p).getLsbD q =
      decide (q = p ∨ (p = 31 ∧ 31 ≤ q ∧ q < A.bits)) := by
  have hA := bits_ge A
  simp only [levelBit, getLsbD_ofInt, BitVec.getLsbD_shiftLeft, BitVec.getLsbD_one]
  by_cases hq : q < 32
  · simp only [hq, if_true]
    grind
  · simp only [hq, if_false]
    grind

theorem getLsbD_levelMask {p : Nat} (hp : p ≤ 31) (q : Nat) :
    (levelMask A p).getLsbD q =
      decide (q < A.bits ∧ q ≠ p ∧ ¬ (p = 31 ∧ 31 ≤ q)) := by
  have hA := bits_ge A
  simp only [levelMask, getLsbD_ofInt, BitVec.getLsbD_not, BitVec.getLsbD_shiftLeft,
    BitVec.getLsbD_one]
  by_cases hq : q < 32
  · simp only [hq, if_true]
    grind
  · simp only [hq, if_false]
    grind

theorem getLsbD_minusTwo (k : Nat) : (-2#32).getLsbD k = decide (1 ≤ k ∧ k < 32) := by
  by_cases hk : k < 32
  · interval_cases k <;> decide
  · rw [BitVec.getLsbD_of_ge _ _ (by omega)]
    simp [hk]

theorem getLsbD_aboveMask {t : Nat} (ht : t ≤ 31) (q : Nat) :
    (aboveMask A t).getLsbD q = decide (t < q ∧ q < A.bits ∧ t < 31) := by
  have hA := bits_ge A
  simp only [aboveMask, getLsbD_ofInt, BitVec.getLsbD_shiftLeft, getLsbD_minusTwo]
  by_cases hq : q < 32
  · simp only [hq, if_true]
    grind
  · simp only [hq, if_false]
    grind

/-- A word is non-zero exactly when some bit is set. -/
theorem bitVec_ne_zero_iff {w : Nat} {x : BitVec w} : x ≠ 0 ↔ ∃ q, x.getLsbD q = true := by
  constructor
  · intro h
    by_contra hno
    apply h
    ext q hq
    have := not_exists.mp hno q
    simpa [BitVec.getLsbD_eq_getElem hq] using this
  · rintro ⟨q, hq⟩ rfl
    simp at hq

/-- `(-2 << NewTpl) & EventPending` tests for a pending level above `NewTpl`. -/
theorem aboveMask_and_ne_zero {t : Nat} (ht : t ≤ 31) {x : Uintn A}
    (hx : ∀ q, 32 ≤ q → x.getLsbD q = false) :
    aboveMask A t &&& x ≠ 0 ↔ ∃ q, t < q ∧ x.getLsbD q = true := by
  have hA := bits_ge A
  rw [bitVec_ne_zero_iff]
  simp only [BitVec.getLsbD_and, getLsbD_aboveMask ht, Bool.and_eq_true, decide_eq_true_eq]
  constructor
  · rintro ⟨q, ⟨h, _, _⟩, hq⟩
    exact ⟨q, h, hq⟩
  · rintro ⟨q, h, hq⟩
    have : q < 32 := by
      by_contra hge
      simp [hx q (by omega)] at hq
    exact ⟨q, ⟨h, by omega, by omega⟩, hq⟩

/-! ## The scan -/

theorem and_mask_ne_zero_iff {x lo hi : Nat} (hx : x < 2 ^ hi) (h : lo ≤ hi) :
    x &&& (2 ^ hi - 2 ^ lo) ≠ 0 ↔ 2 ^ lo ≤ x := by
  have hmask : ∀ i, (2 ^ hi - 2 ^ lo).testBit i = decide (lo ≤ i ∧ i < hi) := by
    intro i
    have hsplit : 2 ^ hi - 2 ^ lo = (2 ^ (hi - lo) - 1) <<< lo := by
      rw [Nat.shiftLeft_eq, Nat.sub_mul, ← pow_add]
      congr 2 <;> omega
    rw [hsplit, Nat.testBit_shiftLeft, Nat.testBit_two_pow_sub_one]
    grind
  constructor
  · intro hne
    by_contra hlt
    apply hne
    apply Nat.eq_of_testBit_eq
    intro i
    rw [Nat.testBit_and, hmask, Nat.zero_testBit]
    by_cases hi' : lo ≤ i
    · rw [Nat.testBit_lt_two_pow (lt_of_lt_of_le (by omega) (Nat.pow_le_pow_right (by omega) hi'))]
      simp
    · simp [hi']
  · intro hle hzero
    have hx0 : x ≠ 0 := by
      have := Nat.two_pow_pos lo
      omega
    have hbit : (x &&& (2 ^ hi - 2 ^ lo)).testBit x.log2 = true := by
      rw [Nat.testBit_and, hmask, Nat.testBit_log2 hx0]
      have h1 : lo ≤ x.log2 := (Nat.le_log2 hx0).mpr hle
      have h2 : x.log2 < hi := (Nat.log2_lt hx0).mpr hx
      simp [h1, h2]
    rw [hzero, Nat.zero_testBit] at hbit
    exact absurd hbit (by decide)

theorem and_ne_zero_iff_toNat {i : Uintn A} {m : Nat} (hm : m < 2 ^ 32) :
    i &&& BitVec.ofNat _ m ≠ 0 ↔ i.toNat &&& m ≠ 0 := by
  have hA : 2 ^ 32 ≤ 2 ^ A.bits := Nat.pow_le_pow_right (by omega) (bits_ge A)
  have hand : (i &&& BitVec.ofNat _ m).toNat = i.toNat &&& m := by
    rw [BitVec.toNat_and, BitVec.toNat_ofNat, Nat.mod_eq_of_lt (by omega)]
  rw [← hand, ne_eq, ne_eq, ← BitVec.toNat_inj]
  exact Iff.rfl

/-- Below 2^32 the scan settles on the byte that holds the highest set bit. -/
theorem hsbShift_eq {i : Uintn A} (h : i.toNat < 2 ^ 32) :
    hsbShift i = if 2 ^ 16 ≤ i.toNat then (if 2 ^ 24 ≤ i.toNat then 24 else 16)
      else (if 2 ^ 8 ≤ i.toNat then 8 else 0) := by
  unfold hsbShift
  have h16 := @and_mask_ne_zero_iff _ 16 32 h (by omega)
  have h24 := @and_mask_ne_zero_iff _ 24 32 h (by omega)
  simp only [and_ne_zero_iff_toNat (show 0xFFFF0000 < 2 ^ 32 by decide),
    and_ne_zero_iff_toNat (show 0xFF000000 < 2 ^ 32 by decide),
    and_ne_zero_iff_toNat (show 0xFF00 < 2 ^ 32 by decide)]
  simp only [show (2 ^ 32 - 2 ^ 16 : Nat) = 0xFFFF0000 by decide] at h16
  simp only [show (2 ^ 32 - 2 ^ 24 : Nat) = 0xFF000000 by decide] at h24
  rw [if_congr h16 rfl rfl, if_congr h24 rfl rfl]
  by_cases hlow : 2 ^ 16 ≤ i.toNat
  · rw [if_pos hlow, if_pos hlow]
  · have h8 := @and_mask_ne_zero_iff i.toNat 8 16 (by omega) (by omega)
    simp only [show (2 ^ 16 - 2 ^ 8 : Nat) = 0xFF00 by decide] at h8
    rw [if_congr h8 rfl rfl]

theorem hsb_eq_log2 : ∀ k < 256, 0 < k → hsb[k]? = some k.log2 := by decide +kernel

theorem log2_shiftRight {x s : Nat} (h : 2 ^ s ≤ x) : (x >>> s).log2 + s = x.log2 := by
  have hx : x ≠ 0 := by
    have := Nat.two_pow_pos s
    omega
  have hd : x >>> s ≠ 0 := by
    rw [Nat.shiftRight_eq_div_pow]
    exact Nat.ne_of_gt (Nat.div_pos h (Nat.two_pow_pos s))
  apply le_antisymm
  · rw [Nat.le_log2 hx, pow_add]
    have := (Nat.le_log2 hd).mp le_rfl
    rw [Nat.shiftRight_eq_div_pow] at this ⊢
    exact (Nat.mul_le_mul_right _ this).trans (Nat.div_mul_le_self x (2 ^ s))
  · rw [← Nat.lt_succ_iff, Nat.log2_lt hx, Nat.succ_eq_add_one,
      show (x >>> s).log2 + s + 1 = ((x >>> s).log2 + 1) + s by omega, pow_add]
    have := (Nat.log2_lt hd).mp (Nat.lt_succ_self _)
    rw [Nat.shiftRight_eq_div_pow] at this ⊢
    exact (Nat.div_lt_iff_lt_mul (Nat.two_pow_pos s)).mp this

/-- Below 2^32 `HighestSetBit` stays inside `HSB`. -/
theorem hsbIndex_lt {i : Uintn A} (h : i.toNat < 2 ^ 32) : hsbIndex i < 256 := by
  unfold hsbIndex
  rw [BitVec.toNat_ushiftRight, hsbShift_eq h, Nat.shiftRight_eq_div_pow]
  split_ifs <;> omega

/-- Below 2^32 `HighestSetBit` is the position of the highest set bit. -/
theorem highestSetBit_eq {i : Uintn A} (h : i.toNat < 2 ^ 32) (h0 : i ≠ 0) :
    highestSetBit i = some i.toNat.log2 := by
  have hpos : 0 < i.toNat := by
    rw [Nat.pos_iff_ne_zero]
    exact fun hz => h0 (BitVec.eq_of_toNat_eq (by simpa using hz))
  have hle : 2 ^ hsbShift i ≤ i.toNat := by
    rw [hsbShift_eq h]
    split_ifs <;> omega
  have hidx : 0 < hsbIndex i := by
    unfold hsbIndex
    rw [BitVec.toNat_ushiftRight, Nat.shiftRight_eq_div_pow]
    exact Nat.div_pos hle (Nat.two_pow_pos _)
  unfold highestSetBit
  rw [hsb_eq_log2 _ (hsbIndex_lt h) hidx]
  simp only [Option.map_some, Option.some.injEq]
  unfold hsbIndex
  rw [BitVec.toNat_ushiftRight, log2_shiftRight hle]

/-- A word without bits from 32 on is below 2^32. -/
theorem toNat_lt_of_getLsbD {i : Uintn A} (h : ∀ q, 32 ≤ q → i.getLsbD q = false) :
    i.toNat < 2 ^ 32 := by
  apply Nat.lt_pow_two_of_testBit
  intro q hq
  simpa [BitVec.getLsbD] using h q hq

/-- What `HighestSetBit` returns on a non-zero word below 2^32. -/
theorem highestSetBit_spec {i : Uintn A} (h : ∀ q, 32 ≤ q → i.getLsbD q = false) (h0 : i ≠ 0) :
    ∃ p, highestSetBit i = some p ∧ p ≤ 31 ∧ i.getLsbD p = true ∧
      ∀ q, p < q → i.getLsbD q = false := by
  have hlt := toNat_lt_of_getLsbD h
  have hne : i.toNat ≠ 0 := fun hz => h0 (BitVec.eq_of_toNat_eq (by simpa using hz))
  refine ⟨_, highestSetBit_eq hlt h0, ?_, ?_, ?_⟩
  · exact Nat.lt_succ_iff.mp ((Nat.log2_lt hne).mpr hlt)
  · exact Nat.testBit_log2 hne
  · intro q hq
    have : i.toNat < 2 ^ q := (Nat.log2_lt hne).mp hq
    simpa [BitVec.getLsbD] using Nat.testBit_lt_two_pow this

end EfiCore.Exec
