import Mathlib.Data.BitVec

/-! # Byte buffers

Little-endian numbers of a fixed width, and the part of a buffer from an offset on.
-/

namespace EfiCore.Lib

abbrev Byte := BitVec 8

/-! ## Little-endian numbers -/

/-- The `n` little-endian bytes of `x`; what does not fit is dropped. -/
def leBytes : Nat → Nat → List Byte
  | 0, _ => []
  | n + 1, x => BitVec.ofNat 8 x :: leBytes n (x / 256)

def leNat : List Byte → Nat
  | [] => 0
  | b :: bs => b.toNat + 256 * leNat bs

@[simp] theorem length_leBytes (n x : Nat) : (leBytes n x).length = n := by
  induction n generalizing x with
  | zero => rfl
  | succ n ih => simp [leBytes, ih]

theorem leNat_leBytes (n x : Nat) : leNat (leBytes n x) = x % 256 ^ n := by
  induction n generalizing x with
  | zero => simp [leBytes, leNat, Nat.mod_one]
  | succ n ih =>
    have hlow : (BitVec.ofNat 8 x).toNat = x % 256 := BitVec.toNat_ofNat x 8
    rw [leBytes, leNat, ih, hlow, Nat.pow_succ, Nat.mul_comm (256 ^ n), Nat.mod_mul]

theorem leNat_lt (bs : List Byte) : leNat bs < 256 ^ bs.length := by
  induction bs with
  | nil => simp [leNat]
  | cons b bs ih =>
    have := b.isLt
    rw [leNat, List.length_cons, Nat.pow_succ]
    omega

theorem leBytes_leNat (bs : List Byte) : leBytes bs.length (leNat bs) = bs := by
  induction bs with
  | nil => rfl
  | cons b bs ih =>
    have hb := b.isLt
    have hlow : BitVec.ofNat 8 (b.toNat + 256 * leNat bs) = b := by
      apply BitVec.eq_of_toNat_eq
      rw [BitVec.toNat_ofNat]
      omega
    have hhigh : (b.toNat + 256 * leNat bs) / 256 = leNat bs := by omega
    rw [List.length_cons, leNat, leBytes, hlow, hhigh, ih]

theorem leNat_append (bs cs : List Byte) :
    leNat (bs ++ cs) = leNat bs + 256 ^ bs.length * leNat cs := by
  induction bs with
  | nil => simp [leNat]
  | cons b bs ih =>
    rw [List.cons_append, leNat, leNat, ih, List.length_cons, Nat.pow_succ, Nat.mul_add,
      ← Nat.mul_assoc, Nat.mul_comm 256 (256 ^ bs.length), Nat.add_assoc]

theorem leBytes_add (m n x : Nat) : leBytes (m + n) x = leBytes m x ++ leBytes n (x / 256 ^ m) := by
  induction m generalizing x with
  | zero => simp [leBytes]
  | succ m ih =>
    rw [Nat.succ_add, leBytes, leBytes, ih, List.cons_append, Nat.div_div_eq_div_mul, Nat.pow_succ,
      Nat.mul_comm 256]

/-! ## Parts of a buffer -/

variable {α : Type*}

/-- The `n` elements of `l` from the offset `off` on. -/
def slice (l : List α) (off n : Nat) : List α := (l.drop off).take n

/-- `l` with `bs` in place of what it had from the offset `off` on. -/
def splice (l : List α) (off : Nat) (bs : List α) : List α :=
  l.take off ++ bs ++ l.drop (off + bs.length)

theorem length_slice {l : List α} {off n : Nat} (h : off + n ≤ l.length) :
    (slice l off n).length = n := by
  simp only [slice, List.length_take, List.length_drop]
  omega

theorem slice_append_left {l m : List α} {off n : Nat} (h : off + n ≤ l.length) :
    slice (l ++ m) off n = slice l off n := by
  have hoff : off ≤ l.length := by omega
  have hn : n ≤ (l.drop off).length := by
    rw [List.length_drop]
    omega
  rw [slice, slice, List.drop_append_of_le_length hoff, List.take_append_of_le_length hn]

theorem slice_append_right (l m : List α) (off n : Nat) :
    slice (l ++ m) (l.length + off) n = slice m off n := by
  rw [slice, slice, List.drop_length_add_append]

theorem length_splice {l : List α} {off : Nat} {bs : List α} (h : off + bs.length ≤ l.length) :
    (splice l off bs).length = l.length := by
  simp only [splice, List.length_append, List.length_take, List.length_drop]
  omega

theorem splice_append_left {l m bs : List α} {off : Nat} (h : off + bs.length ≤ l.length) :
    splice (l ++ m) off bs = splice l off bs ++ m := by
  have hoff : off ≤ l.length := by omega
  rw [splice, splice, List.take_append_of_le_length hoff, List.drop_append_of_le_length h,
    List.append_assoc, List.append_assoc, List.append_assoc]

theorem splice_append_right (l m bs : List α) (off : Nat) :
    splice (l ++ m) (l.length + off) bs = l ++ splice m off bs := by
  have hdrop : l.length + off + bs.length = l.length + (off + bs.length) := by omega
  rw [splice, splice, List.take_length_add_append, hdrop, List.drop_length_add_append,
    List.append_assoc, List.append_assoc, List.append_assoc]

theorem slice_splice {l bs : List α} {off : Nat} (h : off + bs.length ≤ l.length) :
    slice (splice l off bs) off bs.length = bs := by
  have hoff : (l.take off).length = off := by
    rw [List.length_take]
    omega
  rw [slice, splice, List.append_assoc, List.drop_left' hoff, List.take_left]

/-- Writing what is there anyway behind `bs` as well. -/
theorem splice_append_slice (l bs : List α) (off n : Nat) (h : off + bs.length + n ≤ l.length) :
    splice l off (bs ++ slice l (off + bs.length) n) = splice l off bs := by
  have hn : (slice l (off + bs.length) n).length = n := length_slice h
  have hrest := List.take_append_drop n (l.drop (off + bs.length))
  rw [List.drop_drop, ← slice] at hrest
  rw [splice, splice, List.length_append, hn, ← hrest, ← List.append_assoc, List.append_assoc,
    Nat.add_assoc]

/-- Two writes, the second inside the first. -/
theorem splice_splice {l bs cs : List α} {off i : Nat} (h : off + bs.length ≤ l.length)
    (hin : i + cs.length ≤ bs.length) :
    splice (splice l off bs) (off + i) cs = splice l off (splice bs i cs) := by
  have hoff : (l.take off).length = off := by
    rw [List.length_take]
    omega
  have hlen : (splice bs i cs).length = bs.length := length_splice hin
  have hinner : splice (l.take off ++ bs) (off + i) cs = l.take off ++ splice bs i cs := by
    have hright := splice_append_right (l.take off) bs cs i
    rwa [hoff] at hright
  have hsplit : splice l off bs = (l.take off ++ bs) ++ l.drop (off + bs.length) := rfl
  have hwhole : splice l off (splice bs i cs) =
      (l.take off ++ splice bs i cs) ++ l.drop (off + bs.length) := by
    rw [← hlen]
    rfl
  rw [hsplit, splice_append_left, hinner, hwhole]
  rw [List.length_append, hoff]
  omega

theorem getD_splice {l bs : List α} {off : Nat} (h : off + bs.length ≤ l.length) (i : Nat) (d : α) :
    (splice l off bs).getD i d =
      if off ≤ i ∧ i < off + bs.length then bs.getD (i - off) d else l.getD i d := by
  have hoff : (l.take off).length = off := by
    rw [List.length_take]
    omega
  simp only [List.getD_eq_getElem?_getD, splice, List.append_assoc]
  by_cases hbefore : i < off
  · rw [if_neg (by omega), List.getElem?_append_left (by omega), List.getElem?_take_of_lt hbefore]
  · rw [List.getElem?_append_right (by omega), hoff]
    by_cases hin : i < off + bs.length
    · rw [if_pos (by omega), List.getElem?_append_left (by omega)]
    · rw [if_neg (by omega), List.getElem?_append_right (by omega), List.getElem?_drop,
        show off + bs.length + (i - off - bs.length) = i by omega]

theorem getD_slice {l : List α} {off n i : Nat} (h : i < n) (d : α) :
    (slice l off n).getD i d = l.getD (off + i) d := by
  rw [slice, List.getD_eq_getElem?_getD, List.getD_eq_getElem?_getD, List.getElem?_take_of_lt h,
    List.getElem?_drop]

theorem getElem?_slice (l : List α) (off n i : Nat) :
    (slice l off n)[i]? = if i < n then l[off + i]? else none := by
  rw [slice, List.getElem?_take]
  split
  · rw [List.getElem?_drop]
  · rfl

theorem getElem?_splice {l bs : List α} {off : Nat} (h : off + bs.length ≤ l.length) (i : Nat) :
    (splice l off bs)[i]? =
      if off ≤ i ∧ i < off + bs.length then bs[i - off]? else l[i]? := by
  have hoff : (l.take off).length = off := by
    rw [List.length_take]
    omega
  rw [splice, List.append_assoc]
  by_cases hbefore : i < off
  · rw [if_neg (by omega), List.getElem?_append_left (by omega), List.getElem?_take_of_lt hbefore]
  · rw [List.getElem?_append_right (by omega), hoff]
    by_cases hin : i < off + bs.length
    · rw [if_pos (by omega), List.getElem?_append_left (by omega)]
    · rw [if_neg (by omega), List.getElem?_append_right (by omega), List.getElem?_drop,
        show off + bs.length + (i - off - bs.length) = i by omega]

theorem slice_zero (l : List α) (off : Nat) : slice l off 0 = [] := List.take_zero

theorem slice_all (l : List α) : slice l 0 l.length = l := by
  rw [slice, List.drop_zero, List.take_length]

/-- A slice of a slice. -/
theorem slice_slice (l : List α) {off n i k : Nat} (h : i + k ≤ n) :
    slice (slice l off n) i k = slice l (off + i) k := by
  apply List.ext_getElem?
  intro j
  simp only [getElem?_slice]
  split
  · rw [if_pos (by omega), Nat.add_assoc]
  · rfl

/-- Two slices, one behind the other. -/
theorem slice_append_slice (l : List α) (off n k : Nat) :
    slice l off (n + k) = slice l off n ++ slice l (off + n) k := by
  rw [slice, slice, slice, List.take_add, List.drop_drop]

/-- A write does not show in a slice that lies outside of it. -/
theorem slice_splice_of_disjoint {l bs : List α} {off i n : Nat} (h : off + bs.length ≤ l.length)
    (hout : i + n ≤ off ∨ off + bs.length ≤ i) : slice (splice l off bs) i n = slice l i n := by
  apply List.ext_getElem?
  intro j
  simp only [getElem?_slice]
  split
  · rw [getElem?_splice h, if_neg (by omega)]
  · rfl

/-- A slice around a write. -/
theorem slice_splice_of_within (l cs : List α) (off : Nat) {n i : Nat} (h : off + n ≤ l.length)
    (hin : i + cs.length ≤ n) :
    slice (splice l (off + i) cs) off n = splice (slice l off n) i cs := by
  have hn := length_slice h
  apply List.ext_getElem?
  intro j
  rw [getElem?_slice, getElem?_splice (by omega), getElem?_splice (by omega), getElem?_slice]
  by_cases hj : i ≤ j ∧ j < i + cs.length
  · rw [if_pos (by omega), if_pos (by omega), if_pos hj]
    congr 1
    omega
  · rw [if_neg hj]
    split
    · rw [if_neg (by omega)]
    · rfl

/-- Writing back what a slice held, with a write inside it. -/
theorem splice_slice {l cs : List α} {off n i : Nat} (h : off + n ≤ l.length)
    (hin : i + cs.length ≤ n) :
    splice l off (splice (slice l off n) i cs) = splice l (off + i) cs := by
  have hn := length_slice h
  have hlen : (splice (slice l off n) i cs).length = n := by
    rw [length_splice (by omega), hn]
  apply List.ext_getElem?
  intro j
  rw [getElem?_splice (by omega), getElem?_splice (by omega), getElem?_splice (by omega), hlen]
  by_cases hj : off + i ≤ j ∧ j < off + i + cs.length
  · rw [if_pos (by omega), if_pos (by omega), if_pos hj]
    congr 1
    omega
  · rw [if_neg hj]
    split
    · rw [if_neg (by omega), getElem?_slice, if_pos (by omega)]
      congr 1
      omega
    · rfl

/-- Two writes, one behind the other. -/
theorem splice_append (l bs cs : List α) (off : Nat)
    (h : off + bs.length + cs.length ≤ l.length) :
    splice (splice l off bs) (off + bs.length) cs = splice l off (bs ++ cs) := by
  have hlen : (splice l off bs).length = l.length := length_splice (by omega)
  apply List.ext_getElem?
  intro j
  rw [getElem?_splice (by omega), getElem?_splice (by omega),
    getElem?_splice (by rw [List.length_append]; omega), List.length_append]
  by_cases hj : off + bs.length ≤ j ∧ j < off + bs.length + cs.length
  · rw [if_pos hj, if_pos (by omega), List.getElem?_append_right (by omega)]
    congr 1
    omega
  · rw [if_neg hj]
    split
    · rw [if_pos (by omega), List.getElem?_append_left (by omega)]
    · rw [if_neg (by omega)]

/-- The next `n` elements of a buffer, behind the `done` that are written. -/
theorem splice_next {l bs : List α} {off done n : Nat} (hroom : off + (done + n) ≤ l.length)
    (hlen : done + n ≤ bs.length) :
    splice (splice l off (slice bs 0 done)) (off + done) (slice bs done n) =
      splice l off (slice bs 0 (done + n)) := by
  have hdone : (slice bs 0 done).length = done := length_slice (by omega)
  have hn : (slice bs done n).length = n := length_slice (by omega)
  have happend := splice_append l (slice bs 0 done) (slice bs done n) off (by omega)
  rw [hdone] at happend
  rw [happend, slice_append_slice, Nat.zero_add]

theorem splice_nil (l : List α) (off : Nat) : splice l off [] = l := by
  rw [splice, List.append_nil, List.length_nil, Nat.add_zero, List.take_append_drop]

/-- A write does not show behind it. -/
theorem drop_splice {l bs : List α} {off n : Nat} (h : off + bs.length ≤ l.length)
    (hn : off + bs.length ≤ n) : (splice l off bs).drop n = l.drop n := by
  apply List.ext_getElem?
  intro j
  rw [List.getElem?_drop, List.getElem?_drop, getElem?_splice h, if_neg (by omega)]

/-- Writing all of a buffer. -/
theorem splice_all {l bs : List α} (h : bs.length = l.length) : splice l 0 bs = bs := by
  rw [splice, List.take_zero, List.nil_append, Nat.zero_add, h, List.drop_length, List.append_nil]

end EfiCore.Lib
