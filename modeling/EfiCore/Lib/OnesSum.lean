import EfiCore.Lib.Bytes

/-! # Sums in ones' complement

The internet checksum: the sum of the little-endian words of some bytes with the carries added
back, which is the sum modulo `0xffff`.
-/

namespace EfiCore.Lib

/-- The sum of the words; an odd byte at the end counts as it is. -/
def wordSum : List Byte → Nat
  | low :: high :: rest => low.toNat + 256 * high.toNat + wordSum rest
  | [b] => b.toNat
  | [] => 0

/-- The carries added back, twice. -/
def onesFold (x : Nat) : Nat :=
  let s := x % 65536 + x / 65536
  (s + s / 65536) % 65536

/-- The complement of the folded sum. -/
def onesCheck (x : Nat) : Nat := 65535 - onesFold x

section Sum

variable {l m : List Byte} {b c : Byte} {x stale : Nat}

theorem wordSum_le (l : List Byte) : 2 * wordSum l ≤ 65535 * (l.length + 1) := by
  induction l using wordSum.induct with
  | case1 low high rest ih =>
    have hlow := low.isLt
    have hhigh := high.isLt
    rw [wordSum, List.length_cons, List.length_cons]
    omega
  | case2 b =>
    have hb := b.isLt
    rw [wordSum, List.length_singleton]
    omega
  | case3 => exact Nat.zero_le _

theorem wordSum_pos (hb : b ∈ l) (hne : b ≠ 0) : 0 < wordSum l := by
  have hpos : 0 < b.toNat := by
    rw [Nat.pos_iff_ne_zero]
    exact fun h => hne (BitVec.eq_of_toNat_eq h)
  induction l using wordSum.induct with
  | case1 low high rest ih =>
    rw [wordSum]
    rcases List.mem_cons.mp hb with rfl | hb
    · omega
    rcases List.mem_cons.mp hb with rfl | hb
    · omega
    · have hrest := ih hb
      omega
  | case2 d =>
    rw [wordSum, ← List.mem_singleton.mp hb]
    exact hpos
  | case3 => exact absurd hb List.not_mem_nil

/-! ## Folding -/

theorem onesFold_le (x : Nat) : onesFold x ≤ 65535 :=
  Nat.le_of_lt_succ (Nat.mod_lt _ (by decide))

/-- What the folding takes away, which is nothing from an empty sum only. -/
theorem onesFold_eq (hx : x < 2 ^ 32) :
    ∃ q, x = onesFold x + 65535 * q ∧ (onesFold x = 0 → q = 0) := by
  have hs : x % 65536 + x / 65536 ≤ 131070 := by omega
  have hsplit : x = x % 65536 + x / 65536 + 65535 * (x / 65536) := by omega
  simp only [onesFold]
  generalize x % 65536 + x / 65536 = s at *
  by_cases hcarry : s < 65536
  · rw [Nat.div_eq_of_lt hcarry, Nat.add_zero, Nat.mod_eq_of_lt hcarry]
    exact ⟨x / 65536, hsplit, by omega⟩
  · have hone : s / 65536 = 1 := by omega
    have hfold : (s + 1) % 65536 = s - 65535 := by omega
    rw [hone, hfold]
    exact ⟨x / 65536 + 1, by omega, by omega⟩

theorem onesFold_mod (hx : x < 2 ^ 32) : onesFold x % 65535 = x % 65535 := by
  obtain ⟨q, hq, -⟩ := onesFold_eq hx
  omega

theorem onesFold_eq_zero (hx : x < 2 ^ 32) : onesFold x = 0 ↔ x = 0 := by
  obtain ⟨q, hq, hzero⟩ := onesFold_eq hx
  constructor
  · intro h
    have := hzero h
    omega
  · intro h
    omega

/-- Sums that are folded before they are added. -/
theorem onesFold_add {y : Nat} (h : x + y < 2 ^ 32) :
    onesFold (onesFold x + onesFold y) = onesFold (x + y) := by
  have hle := onesFold_le x
  have hle' := onesFold_le y
  obtain ⟨p, hp, hpzero⟩ := onesFold_eq (x := x) (by omega)
  obtain ⟨q, hq, hqzero⟩ := onesFold_eq (x := y) (by omega)
  have hleft := onesFold_mod (x := onesFold x + onesFold y) (by omega)
  have hleftZero := onesFold_eq_zero (x := onesFold x + onesFold y) (by omega)
  have hright := onesFold_mod h
  have hrightZero := onesFold_eq_zero h
  have hleftLe := onesFold_le (onesFold x + onesFold y)
  have hrightLe := onesFold_le (x + y)
  have hsame : (onesFold x + onesFold y) % 65535 = (x + y) % 65535 := by omega
  have hzero : onesFold x + onesFold y = 0 ↔ x + y = 0 := by omega
  omega

theorem onesCheck_le (x : Nat) : onesCheck x ≤ 65535 := Nat.sub_le _ _

/-- A sum that is not empty checks exactly if it vanishes modulo `0xffff`. -/
theorem onesCheck_eq_zero (hx : x < 2 ^ 32) (hpos : 0 < x) :
    onesCheck x = 0 ↔ x % 65535 = 0 := by
  have hle := onesFold_le x
  have hmod := onesFold_mod hx
  have hzero := onesFold_eq_zero hx
  simp only [onesCheck]
  omega

theorem onesCheck_mod (hx : x < 2 ^ 32) : (x + onesCheck x) % 65535 = 0 := by
  have hle := onesFold_le x
  have hmod := onesFold_mod hx
  simp only [onesCheck]
  omega

/-- The complement of zero is only that of nothing. -/
theorem onesCheck_lt (hx : x < 2 ^ 32) (hpos : 0 < x) : onesCheck x < 65535 := by
  have hzero := onesFold_eq_zero hx
  simp only [onesCheck]
  omega

/-- A check that was computed over a field that was not cleared passes only if what the field had
held was zero. -/
theorem stale_check (hsum : x + 65535 < 2 ^ 32) (hpos : 0 < x) (hstale : stale ≤ 65535) :
    onesCheck (x + onesCheck (x + stale)) = 0 ↔ stale % 65535 = 0 := by
  have hle := onesCheck_le (x + stale)
  have hmod := onesCheck_mod (x := x + stale) (by omega)
  rw [onesCheck_eq_zero (by omega) (by omega)]
  omega

theorem check_passes (hsum : x + 65535 < 2 ^ 32) (hpos : 0 < x) :
    onesCheck (x + onesCheck x) = 0 :=
  (stale_check hsum hpos (Nat.zero_le _)).mpr rfl

end Sum

end EfiCore.Lib
