import EfiCore.Types
import Mathlib.Logic.Function.Iterate

/-! # 64-bit arithmetic of the driver library

`DriverLibMultU64x32` and `DriverLibDivU64x32`.  On Itanium these are operators of the language;
on IA-32 the division brings down one bit of the dividend at a time, and its remainder has 32
bits, so that it is only good for divisors of 31 bits.
-/

namespace EfiCore.Disk

/-- `DriverLibMultU64x32` -/
def driverLibMultU64x32 (multiplicand multiplier : Nat) : Nat :=
  multiplicand * multiplier % 2 ^ 64

/-- One turn of the loop, on the remainder and on the dividend, which becomes the quotient. -/
def divStep (divisor : Nat) (s : Nat × Nat) : Nat × Nat :=
  let rem := (2 * s.1 + s.2 / 2 ^ 63) % 2 ^ 32
  let dividend := 2 * s.2 % 2 ^ 64
  if divisor ≤ rem then (rem - divisor, dividend + 1) else (rem, dividend)

/-- `DriverLibDivU64x32`: the quotient and the remainder. -/
def driverLibDivU64x32 (A : Arch) (dividend divisor : Nat) : Nat × Nat :=
  match A with
  | .efi32 => ((divStep divisor)^[64] (0, dividend)).swap
  | .efi64 => (dividend / divisor, dividend % divisor)

theorem driverLibMultU64x32_of_lt {a b : Nat} (h : a * b < 2 ^ 64) :
    driverLibMultU64x32 a b = a * b := Nat.mod_eq_of_lt h

/-! ## The division of IA-32 -/

/-- What the loop has done with the top `i` bits of the dividend: they are divided, perhaps with
    too small a quotient, and the other bits are still to be brought down. -/
structure DivInv (dividend divisor i : Nat) (s : Nat × Nat) : Prop where
  rem_lt : s.1 < divisor
  quotient : ∃ q, s.2 = dividend % 2 ^ (64 - i) * 2 ^ i + q ∧
    q * divisor + s.1 ≤ dividend / 2 ^ (64 - i) ∧
    (divisor ≤ 2 ^ 31 ∨ dividend < 2 ^ 32 → q * divisor + s.1 = dividend / 2 ^ (64 - i))

theorem DivInv.step {dividend divisor i : Nat} {s : Nat × Nat} (hdividend : dividend < 2 ^ 64)
    (hi : i < 64) (h : DivInv dividend divisor i s) :
    DivInv dividend divisor (i + 1) (divStep divisor s) := by
  obtain ⟨hrem, q, hs, hle, hexact⟩ := h
  obtain ⟨m, hm⟩ : ∃ m, 64 = i + m + 1 := ⟨63 - i, by omega⟩
  have hsub : 64 - i = m + 1 := by omega
  have hsub' : 64 - (i + 1) = m := by omega
  rw [hsub] at hs hle hexact
  -- the bit that comes down, and the bits below it
  have hbit : dividend / 2 ^ m = 2 * (dividend / 2 ^ (m + 1)) + dividend / 2 ^ m % 2 := by
    rw [Nat.pow_succ, ← Nat.div_div_eq_div_mul]
    omega
  have hlow : dividend % 2 ^ (m + 1) = 2 ^ m * (dividend / 2 ^ m % 2) + dividend % 2 ^ m := by
    rw [Nat.pow_succ, Nat.mod_mul, Nat.add_comm]
  have hlowlt : dividend % 2 ^ m < 2 ^ m := Nat.mod_lt _ (Nat.two_pow_pos m)
  have hpow : 2 ^ m * 2 ^ i = 2 ^ 63 := by
    rw [← Nat.pow_add]
    congr 1
    omega
  have htop : dividend / 2 ^ (m + 1) < 2 ^ i := by
    apply Nat.div_lt_of_lt_mul
    rw [← Nat.pow_add, show m + 1 + i = 64 by omega]
    exact hdividend
  have hq : q < 2 ^ i := by
    have : q ≤ q * divisor := Nat.le_mul_of_pos_right q (by omega)
    omega
  have hb : dividend / 2 ^ m % 2 < 2 := Nat.mod_lt _ (by decide)
  generalize dividend / 2 ^ m % 2 = b at *
  generalize hlowdef : dividend % 2 ^ m = low at *
  generalize dividend / 2 ^ (m + 1) = p at *
  have hbelow : low * 2 ^ i + q < 2 ^ 63 := by
    have : (low + 1) * 2 ^ i ≤ 2 ^ m * 2 ^ i := Nat.mul_le_mul_right _ hlowlt
    rw [Nat.add_mul, Nat.one_mul, hpow] at this
    omega
  have hsplit : s.2 = 2 ^ 63 * b + (low * 2 ^ i + q) := by
    rw [hs, hlow, Nat.add_mul, Nat.mul_right_comm, hpow, Nat.add_assoc]
  have hdown : s.2 / 2 ^ 63 = b := by
    rw [hsplit, Nat.mul_add_div (by decide), Nat.div_eq_of_lt hbelow, Nat.add_zero]
  have hshift : 2 * s.2 % 2 ^ 64 = low * 2 ^ (i + 1) + 2 * q := by
    have hdouble : low * 2 ^ (i + 1) = 2 * (low * 2 ^ i) := by
      rw [Nat.pow_succ, ← Nat.mul_assoc, Nat.mul_comm]
    rw [hsplit, hdouble]
    omega
  have hwrap : (2 * s.1 + b) % 2 ^ 32 ≤ 2 * s.1 + b := Nat.mod_le _ _
  have hnowrap : divisor ≤ 2 ^ 31 ∨ dividend < 2 ^ 32 → (2 * s.1 + b) % 2 ^ 32 = 2 * s.1 + b := by
    intro hsmall
    apply Nat.mod_eq_of_lt
    have hp : 2 * p + b ≤ dividend := hbit ▸ Nat.div_le_self dividend (2 ^ m)
    have := hexact hsmall
    omega
  rw [divStep, hdown, hshift]
  generalize (2 * s.1 + b) % 2 ^ 32 = rem at *
  split
  · refine ⟨by dsimp only; omega, 2 * q + 1, ?_, ?_, ?_⟩
    · rw [hsub', hlowdef, Nat.add_assoc]
    · rw [hsub', hbit, Nat.add_mul, Nat.one_mul, Nat.mul_assoc]
      dsimp only
      omega
    · intro hsmall
      have h1 := hexact hsmall
      have h2 := hnowrap hsmall
      rw [hsub', hbit, Nat.add_mul, Nat.one_mul, Nat.mul_assoc]
      dsimp only
      omega
  · refine ⟨by dsimp only; omega, 2 * q, ?_, ?_, ?_⟩
    · rw [hsub', hlowdef]
    · rw [hsub', hbit, Nat.mul_assoc]
      dsimp only
      omega
    · intro hsmall
      have h1 := hexact hsmall
      have h2 := hnowrap hsmall
      rw [hsub', hbit, Nat.mul_assoc]
      dsimp only
      omega

theorem divInv_iterate {dividend divisor : Nat} (hdivisor : 0 < divisor)
    (hdividend : dividend < 2 ^ 64) {i : Nat} (hi : i ≤ 64) :
    DivInv dividend divisor i ((divStep divisor)^[i] (0, dividend)) := by
  induction i with
  | zero =>
    refine ⟨hdivisor, 0, ?_, ?_, fun _ => ?_⟩
    · rw [Nat.pow_zero, Nat.mul_one]
      exact (Nat.mod_eq_of_lt hdividend).symm
    · rw [Nat.zero_mul]
      exact Nat.zero_le _
    · rw [Nat.zero_mul]
      exact (Nat.div_eq_of_lt hdividend).symm
  | succ i ih =>
    rw [Function.iterate_succ_apply']
    exact (ih (by omega)).step hdividend (by omega)

/-- The division never gives too much, and it is exact where the remainder has room. -/
theorem driverLibDivU64x32_spec (A : Arch) {dividend divisor : Nat} (hdivisor : 0 < divisor)
    (hdividend : dividend < 2 ^ 64) :
    (driverLibDivU64x32 A dividend divisor).2 < divisor ∧
      (driverLibDivU64x32 A dividend divisor).1 * divisor +
        (driverLibDivU64x32 A dividend divisor).2 ≤ dividend ∧
      (A = .efi64 ∨ divisor ≤ 2 ^ 31 ∨ dividend < 2 ^ 32 →
        driverLibDivU64x32 A dividend divisor = (dividend / divisor, dividend % divisor)) := by
  cases A with
  | efi64 =>
    refine ⟨Nat.mod_lt _ hdivisor, ?_, fun _ => rfl⟩
    exact Nat.le_of_eq (Nat.div_add_mod' dividend divisor)
  | efi32 =>
    obtain ⟨hrem, q, hq, hle, hexact⟩ := divInv_iterate hdivisor hdividend (Nat.le_refl 64)
    rw [Nat.sub_self, Nat.pow_zero, Nat.mod_one, Nat.zero_mul, Nat.zero_add] at hq
    rw [Nat.sub_self, Nat.pow_zero, Nat.div_one, ← hq] at hle hexact
    refine ⟨hrem, hle, ?_⟩
    rintro (harch | hsmall)
    · cases harch
    · have heq := hexact hsmall
      rw [Nat.add_comm, Nat.mul_comm] at heq
      obtain ⟨hdiv, hmod⟩ := (Nat.div_mod_unique hdivisor).mpr ⟨heq, hrem⟩
      rw [hdiv, hmod]
      rfl

end EfiCore.Disk
