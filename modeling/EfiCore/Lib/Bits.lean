import EfiCore.Lib.Bytes
import Mathlib.Data.Nat.Bitwise

/-! # Streams of bits

Words and bytes as lists of bits, with the bit of most weight first, and the endless stream of the
bits that a list of bytes begins with zeros behind it.
-/

namespace EfiCore.Lib

variable {n m x y i : Nat}

/-- The `n` rightmost bits. -/
def wordBits : Nat → Nat → List Bool
  | 0, _ => []
  | n + 1, x => x.testBit n :: wordBits n x

@[simp] theorem wordBits_zero (x : Nat) : wordBits 0 x = [] := rfl

theorem wordBits_succ (n x : Nat) : wordBits (n + 1) x = x.testBit n :: wordBits n x := rfl

@[simp] theorem length_wordBits (n x : Nat) : (wordBits n x).length = n := by
  induction n with
  | zero => rfl
  | succ n ih => simp [wordBits_succ, ih]

theorem getElem?_wordBits (h : i < n) : (wordBits n x)[i]? = some (x.testBit (n - 1 - i)) := by
  induction n generalizing i with
  | zero => omega
  | succ n ih =>
    cases i with
    | zero => simp [wordBits_succ]
    | succ i =>
      rw [wordBits_succ, List.getElem?_cons_succ, ih (by omega)]
      congr 2
      omega

theorem wordBits_congr (h : ∀ i < n, x.testBit i = y.testBit i) : wordBits n x = wordBits n y := by
  induction n with
  | zero => rfl
  | succ n ih =>
    rw [wordBits_succ, wordBits_succ, h n n.lt_succ_self, ih fun i hi => h i (by omega)]

theorem wordBits_mod (n x : Nat) : wordBits n (x % 2 ^ n) = wordBits n x :=
  wordBits_congr fun i hi => by simp [Nat.testBit_mod_two_pow, hi]

theorem wordBits_add (n m x : Nat) :
    wordBits (n + m) x = wordBits n (x >>> m) ++ wordBits m x := by
  induction n with
  | zero => simp
  | succ n ih =>
    rw [Nat.add_right_comm, wordBits_succ, ih, wordBits_succ, List.cons_append,
      Nat.testBit_shiftRight, Nat.add_comm m n]

theorem wordBits_eq_zeros (n : Nat) : wordBits n 0 = List.replicate n false := by
  induction n with
  | zero => rfl
  | succ n ih => rw [wordBits_succ, ih, Nat.zero_testBit, List.replicate_succ]

/-- Bits of a word of `w` bits that is shifted. -/
theorem testBit_shiftLeft_mod (w x c i : Nat) :
    ((x <<< c) % 2 ^ w).testBit i = (decide (i < w) && (decide (c ≤ i) && x.testBit (i - c))) := by
  rw [Nat.testBit_mod_two_pow, Nat.testBit_shiftLeft]

theorem testBit_of_lt (hx : x < 2 ^ n) (hi : n ≤ i) : x.testBit i = false :=
  Nat.testBit_lt_two_pow (hx.trans_le (Nat.pow_le_pow_right (by omega) hi))

/-- The bits of bytes. -/
def byteBits (bs : List Byte) : List Bool := bs.flatMap fun b => wordBits 8 b.toNat

@[simp] theorem byteBits_nil : byteBits [] = [] := rfl

theorem byteBits_cons (b : Byte) (bs : List Byte) :
    byteBits (b :: bs) = wordBits 8 b.toNat ++ byteBits bs := rfl

theorem byteBits_append (bs cs : List Byte) : byteBits (bs ++ cs) = byteBits bs ++ byteBits cs :=
  List.flatMap_append

theorem byteBits_snoc (bs : List Byte) (x : Nat) :
    byteBits (bs ++ [BitVec.ofNat 8 x]) = byteBits bs ++ wordBits 8 x := by
  rw [byteBits_append, byteBits_cons, byteBits_nil, List.append_nil, BitVec.toNat_ofNat,
    wordBits_mod]

@[simp] theorem length_byteBits (bs : List Byte) : (byteBits bs).length = 8 * bs.length := by
  induction bs with
  | nil => rfl
  | cons b bs ih => simp [byteBits_cons, ih, Nat.mul_add, Nat.add_comm]

/-! ## Streams -/

/-- The bits of a list, and zeros behind them. -/
def streamOf (bits : List Bool) (i : Nat) : Bool := bits.getD i false

theorem streamOf_append_left {bs cs : List Bool} (h : i < bs.length) :
    streamOf (bs ++ cs) i = streamOf bs i := by
  rw [streamOf, streamOf, List.getD_append _ _ _ _ h]

theorem streamOf_append_right (bs cs : List Bool) (i : Nat) :
    streamOf (bs ++ cs) (bs.length + i) = streamOf cs i := by
  rw [streamOf, streamOf, List.getD_append_right _ _ _ _ (Nat.le_add_right _ _),
    Nat.add_sub_cancel_left]

theorem streamOf_wordBits (h : i < n) : streamOf (wordBits n x) i = x.testBit (n - 1 - i) := by
  rw [streamOf, List.getD_eq_getElem?_getD, getElem?_wordBits h, Option.getD_some]

/-- Zeros at the end make no difference. -/
theorem streamOf_zeros (bits : List Bool) (n : Nat) :
    streamOf (bits ++ List.replicate n false) = streamOf bits := by
  funext i
  by_cases hi : i < bits.length
  · exact streamOf_append_left hi
  · obtain ⟨j, rfl⟩ := Nat.exists_eq_add_of_le (Nat.not_lt.mp hi)
    rw [streamOf_append_right, streamOf, streamOf, List.getD_eq_default _ _ (Nat.le_add_right _ _)]
    by_cases hj : j < n
    · rw [List.getD_eq_getElem?_getD, List.getElem?_replicate, if_pos hj, Option.getD_some]
    · exact List.getD_eq_default _ _ (by simpa using hj)

theorem streamOf_byteBits (bs : List Byte) (i : Nat) :
    streamOf (byteBits bs) i = (bs.getD (i / 8) 0).toNat.testBit (7 - i % 8) := by
  induction bs generalizing i with
  | nil => simp [streamOf]
  | cons b bs ih =>
    rw [byteBits_cons]
    by_cases hi : i < 8
    · rw [streamOf_append_left (by simpa using hi), streamOf_wordBits hi, Nat.div_eq_of_lt hi,
        Nat.mod_eq_of_lt hi]
      rfl
    · obtain ⟨j, rfl⟩ := Nat.exists_eq_add_of_le (Nat.not_lt.mp hi)
      have hstep := streamOf_append_right (wordBits 8 b.toNat) (byteBits bs) j
      rw [length_wordBits] at hstep
      rw [hstep, ih, Nat.add_div_left j (by omega), Nat.add_mod_left]
      rfl

end EfiCore.Lib
