import Mathlib.Data.BitVec
import Mathlib.Tactic.Ring

/-! # Arithmetic on halves

Numbers of twice the width of a register, in two registers: what the operations of a processor
leave in its registers and its carry, and what the two are together.
-/

namespace EfiCore.Lib.Words

variable {w : Nat} {a b : BitVec w} {cf : Bool}

/-! ## Registers -/

/-- Addition with the carry in and out. -/
def adc (a b : BitVec w) (cf : Bool) : BitVec w × Bool :=
  let sum := a.toNat + b.toNat + cf.toNat
  (BitVec.ofNat w sum, decide (2 ^ w ≤ sum))

/-- Multiplication, with the higher half first. -/
def mul (a b : BitVec w) : BitVec w × BitVec w :=
  let product := a.toNat * b.toNat
  (BitVec.ofNat w (product / 2 ^ w), BitVec.ofNat w product)

/-- Rotation to the left by one place, through the carry. -/
def rcl (a : BitVec w) (cf : Bool) : BitVec w × Bool := ((a.concat cf).setWidth w, a.msb)

theorem adc_toNat (a b : BitVec w) (cf : Bool) :
    (adc a b cf).1.toNat + 2 ^ w * (adc a b cf).2.toNat = a.toNat + b.toNat + cf.toNat := by
  have ha := a.isLt
  have hb := b.isLt
  have hcf : cf.toNat ≤ 1 := Bool.toNat_le cf
  simp only [adc, BitVec.toNat_ofNat]
  by_cases hcarry : 2 ^ w ≤ a.toNat + b.toNat + cf.toNat
  · rw [decide_eq_true hcarry, Bool.toNat_true, Nat.mul_one, Nat.mod_eq_sub_mod hcarry,
      Nat.mod_eq_of_lt (by omega)]
    omega
  · rw [decide_eq_false hcarry, Bool.toNat_false, Nat.mul_zero, Nat.mod_eq_of_lt (by omega)]
    rfl

theorem mul_toNat (a b : BitVec w) :
    (mul a b).2.toNat + 2 ^ w * (mul a b).1.toNat = a.toNat * b.toNat := by
  have hlt : a.toNat * b.toNat / 2 ^ w < 2 ^ w := by
    rw [Nat.div_lt_iff_lt_mul (Nat.two_pow_pos w)]
    exact Nat.mul_lt_mul'' a.isLt b.isLt
  simp only [mul, BitVec.toNat_ofNat]
  rw [Nat.mod_eq_of_lt hlt, Nat.add_comm]
  exact Nat.div_add_mod ..

/-- The higher half of a product leaves room for a carry. -/
theorem mul_fst_lt (a b : BitVec w) : (mul a b).1.toNat + 1 < 2 ^ w ∨ w = 0 := by
  rcases Nat.eq_zero_or_pos w with hw | hw
  · exact .inr hw
  · refine .inl ?_
    have hmul := mul_toNat a b
    have hbound : a.toNat * b.toNat ≤ (2 ^ w - 1) * (2 ^ w - 1) :=
      Nat.mul_le_mul (Nat.le_sub_one_of_lt a.isLt) (Nat.le_sub_one_of_lt b.isLt)
    by_contra hge
    have htwo : 2 ≤ 2 ^ w := Nat.le_self_pow (by omega) 2
    obtain ⟨n, hn⟩ : ∃ n, 2 ^ w = n + 2 := ⟨2 ^ w - 2, by omega⟩
    have hhigh : 2 ^ w * (n + 1) ≤ 2 ^ w * (mul a b).1.toNat := Nat.mul_le_mul_left _ (by omega)
    have hexpand : (n + 2) * (n + 1) = (n + 1) * (n + 1) + (n + 1) := by ring
    rw [hn] at hbound hhigh hmul
    have hpred : n + 2 - 1 = n + 1 := rfl
    rw [hpred] at hbound
    omega

/-- A carry into the higher half of a product is not lost. -/
theorem adc_mul_fst (a b : BitVec w) (cf : Bool) (hw : 0 < w) :
    (adc (mul a b).1 0#w cf).1.toNat = (mul a b).1.toNat + cf.toNat := by
  have hcf : cf.toNat ≤ 1 := Bool.toNat_le cf
  have hlt := (mul_fst_lt a b).resolve_right (by omega)
  rw [adc, BitVec.toNat_ofNat, BitVec.toNat_zero, Nat.mod_eq_of_lt (by omega), Nat.add_zero]

theorem rcl_toNat (a : BitVec w) (cf : Bool) (hw : 0 < w) :
    (rcl a cf).1.toNat + 2 ^ w * (rcl a cf).2.toNat = 2 * a.toNat + cf.toNat := by
  have ha := a.isLt
  have hcf : cf.toNat ≤ 1 := Bool.toNat_le cf
  have hhalf : 2 * 2 ^ (w - 1) = 2 ^ w := by rw [← Nat.pow_succ']; congr 1; omega
  simp only [rcl, BitVec.toNat_setWidth, BitVec.toNat_concat, BitVec.msb_eq_decide]
  by_cases hmsb : 2 ^ (w - 1) ≤ a.toNat
  · rw [decide_eq_true hmsb, Bool.toNat_true, Nat.mul_one, Nat.mod_eq_sub_mod (by omega),
      Nat.mod_eq_of_lt (by omega)]
    omega
  · rw [decide_eq_false hmsb, Bool.toNat_false, Nat.mul_zero, Nat.mod_eq_of_lt (by omega)]
    omega

/-! ## Pairs of registers -/

section Pair

def lo (v : BitVec (w + w)) : BitVec w := v.setWidth w

def hi (v : BitVec (w + w)) : BitVec w := (v >>> w).setWidth w

theorem toNat_append (high low : BitVec w) :
    (high ++ low).toNat = low.toNat + 2 ^ w * high.toNat := by
  rw [BitVec.toNat_append, ← Nat.shiftLeft_add_eq_or_of_lt low.isLt, Nat.shiftLeft_eq]
  ring

theorem append_lo_hi (v : BitVec (w + w)) : hi v ++ lo v = v := by
  refine BitVec.eq_of_getLsbD_eq fun i hi => ?_
  rw [BitVec.getLsbD_append]
  by_cases h : i < w
  · simp [h, lo]
  · have hsub : i - w < w := by omega
    have hback : w + (i - w) = i := by omega
    simp [h, Words.hi, hsub, hback]

theorem getLsbD_lo (v : BitVec (w + w)) {i : Nat} (h : i < w) : (lo v).getLsbD i = v.getLsbD i := by
  simp [lo, h]

theorem getLsbD_hi (v : BitVec (w + w)) {i : Nat} (h : i < w) :
    (hi v).getLsbD i = v.getLsbD (w + i) := by
  simp [hi, h]

theorem toNat_lo_hi (v : BitVec (w + w)) : (lo v).toNat + 2 ^ w * (hi v).toNat = v.toNat := by
  rw [← toNat_append, append_lo_hi]

end Pair

end EfiCore.Lib.Words
