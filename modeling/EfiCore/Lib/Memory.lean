import EfiCore.Lib.Bytes
import Mathlib.Data.List.Range

/-! # Memory

A medium or a memory as a function of the address, with the bytes of an area and the number that
they are.
-/

namespace EfiCore.Lib

/-- The `n` bytes from the address `pos` on. -/
def bytesAt (m : Nat → Byte) (pos n : Nat) : List Byte := (List.range n).map fun i => m (pos + i)

/-- The memory after the bytes are written to the address `pos`. -/
def putBytes (m : Nat → Byte) (pos : Nat) (bs : List Byte) : Nat → Byte := fun k =>
  if pos ≤ k ∧ k < pos + bs.length then bs.getD (k - pos) 0 else m k

variable {m m' : Nat → Byte} {pos off n k : Nat} {bs : List Byte}

@[simp] theorem length_bytesAt (m : Nat → Byte) (pos n : Nat) : (bytesAt m pos n).length = n := by
  simp [bytesAt]

theorem getD_bytesAt (h : k < n) : (bytesAt m pos n).getD k 0 = m (pos + k) := by
  simp [bytesAt, List.getD_eq_getElem?_getD, h]

theorem bytesAt_congr (h : ∀ i < n, m (pos + i) = m' (off + i)) :
    bytesAt m pos n = bytesAt m' off n := by
  refine List.map_congr_left fun i hi => h i (List.mem_range.mp hi)

theorem bytesAt_zero (m : Nat → Byte) (pos : Nat) : bytesAt m pos 0 = [] := rfl

theorem bytesAt_succ (m : Nat → Byte) (pos n : Nat) :
    bytesAt m pos (n + 1) = m pos :: bytesAt m (pos + 1) n := by
  rw [bytesAt, List.range_succ_eq_map, List.map_cons, List.map_map]
  refine congrArg (m pos :: ·) (List.map_congr_left fun i _ => ?_)
  exact congrArg m (by omega : pos + (i + 1) = pos + 1 + i)

theorem bytesAt_add {l : Nat} : bytesAt m pos (n + l) = bytesAt m pos n ++ bytesAt m (pos + n) l := by
  simp only [bytesAt, List.range_add, List.map_append, List.map_map, Function.comp_def,
    Nat.add_assoc]

theorem bytesAt_getD {l : List Byte} (h : pos + n ≤ l.length) :
    bytesAt (fun i => l.getD i 0) pos n = slice l pos n := by
  refine List.ext_getElem (by rw [length_bytesAt, length_slice h]) fun i hi _ => ?_
  rw [length_bytesAt] at hi
  have hin : pos + i < l.length := by omega
  simp [bytesAt, slice, List.getD_eq_getElem?_getD, List.getElem?_eq_getElem hin]

/-! ## Writes -/

theorem putBytes_of_out (h : k < pos ∨ pos + bs.length ≤ k) : putBytes m pos bs k = m k :=
  if_neg (by omega)

theorem putBytes_of_in (h : k < bs.length) : putBytes m pos bs (pos + k) = bs.getD k 0 := by
  rw [putBytes, if_pos (by omega), Nat.add_sub_cancel_left]

/-- What was written is read. -/
theorem bytesAt_putBytes (m : Nat → Byte) (pos : Nat) (bs : List Byte) :
    bytesAt (putBytes m pos bs) pos bs.length = bs := by
  refine List.ext_getElem (length_bytesAt ..) fun i hi hi' => ?_
  simp only [bytesAt, List.getElem_map, List.getElem_range]
  rw [putBytes_of_in hi', List.getD_eq_getElem?_getD, List.getElem?_eq_getElem hi',
    Option.getD_some]

/-- What is read beside a write is what was there. -/
theorem bytesAt_putBytes_of_disjoint (h : off + n ≤ pos ∨ pos + bs.length ≤ off) :
    bytesAt (putBytes m pos bs) off n = bytesAt m off n :=
  bytesAt_congr fun i hi => putBytes_of_out (by omega)

/-- Bytes that are there already. -/
theorem putBytes_bytesAt (m : Nat → Byte) (pos n : Nat) : putBytes m pos (bytesAt m pos n) = m := by
  funext k
  by_cases hk : pos ≤ k ∧ k < pos + n
  · have heq : k = pos + (k - pos) := by omega
    rw [heq, putBytes_of_in (by rw [length_bytesAt]; omega), getD_bytesAt (by omega)]
  · exact putBytes_of_out (by rw [length_bytesAt]; omega)

/-! ## Numbers -/

/-- The number that the `n` bytes from `pos` on are. -/
def numAt (m : Nat → Byte) (pos n : Nat) : Nat := leNat (bytesAt m pos n)

/-- The memory after the number is written to the `n` bytes from `pos` on. -/
def putNum (m : Nat → Byte) (pos n x : Nat) : Nat → Byte := putBytes m pos (leBytes n x)

variable {x : Nat}

theorem numAt_lt (m : Nat → Byte) (pos n : Nat) : numAt m pos n < 256 ^ n := by
  have h := leNat_lt (bytesAt m pos n)
  rwa [length_bytesAt] at h

theorem numAt_congr (h : ∀ i < n, m (pos + i) = m' (off + i)) : numAt m pos n = numAt m' off n :=
  congrArg leNat (bytesAt_congr h)

theorem numAt_putNum (m : Nat → Byte) (pos n x : Nat) :
    numAt (putNum m pos n x) pos n = x % 256 ^ n := by
  have h := bytesAt_putBytes m pos (leBytes n x)
  rw [length_leBytes] at h
  rw [numAt, putNum, h, leNat_leBytes]

theorem putNum_of_out (h : k < pos ∨ pos + n ≤ k) : putNum m pos n x k = m k :=
  putBytes_of_out (by rwa [length_leBytes])

theorem numAt_putNum_of_disjoint {l : Nat} (h : off + l ≤ pos ∨ pos + n ≤ off) :
    numAt (putNum m pos n x) off l = numAt m off l :=
  congrArg leNat (bytesAt_putBytes_of_disjoint (by rwa [length_leBytes]))

/-- A number from its parts. -/
theorem numAt_add (m : Nat → Byte) (pos k l : Nat) :
    numAt m pos (k + l) = numAt m pos k + 256 ^ k * numAt m (pos + k) l := by
  rw [numAt, bytesAt_add, leNat_append, length_bytesAt]
  rfl

theorem numAt_two (m : Nat → Byte) (pos : Nat) :
    numAt m pos 2 = (m pos).toNat + 256 * (m (pos + 1)).toNat := by
  simp [numAt, bytesAt, leNat, List.range_succ]

/-! ## Simultaneous copies -/

/-- The memory after the `n` bytes from `src` on are copied to `dest`, all of them read first. -/
def copied (m : Nat → Byte) (dest src n : Nat) : Nat → Byte := putBytes m dest (bytesAt m src n)

variable {dest src a b : Nat}

theorem copied_apply (m : Nat → Byte) (dest src n k : Nat) :
    copied m dest src n k = if dest ≤ k ∧ k < dest + n then m (src + (k - dest)) else m k := by
  rw [copied, putBytes, length_bytesAt]
  by_cases hk : dest ≤ k ∧ k < dest + n
  · rw [if_pos hk, if_pos hk, getD_bytesAt (by omega)]
  · rw [if_neg hk, if_neg hk]

@[simp] theorem copied_zero (m : Nat → Byte) (dest src : Nat) : copied m dest src 0 = m := by
  funext k
  rw [copied_apply, if_neg (by omega)]

@[simp] theorem copied_self (m : Nat → Byte) (dest n : Nat) : copied m dest dest n = m :=
  putBytes_bytesAt m dest n

/-- A copy in two pieces, the first one first: it must not overwrite what the second reads. -/
theorem copied_append (h : dest ≤ src ∨ src + a + b ≤ dest) :
    copied (copied m dest src a) (dest + a) (src + a) b = copied m dest src (a + b) := by
  funext k
  simp only [copied_apply]
  by_cases hk : dest + a ≤ k ∧ k < dest + a + b
  · have hread : src + a + (k - (dest + a)) = src + (k - dest) := by omega
    rw [if_pos hk, hread, if_neg (by omega), if_pos (by omega)]
  · rw [if_neg hk]
    by_cases hk' : dest ≤ k ∧ k < dest + a
    · rw [if_pos hk', if_pos (by omega)]
    · rw [if_neg hk', if_neg (by omega)]

/-- The other order. -/
theorem copied_prepend (h : src ≤ dest ∨ dest + a + b ≤ src) :
    copied (copied m (dest + a) (src + a) b) dest src a = copied m dest src (a + b) := by
  funext k
  simp only [copied_apply]
  by_cases hk : dest ≤ k ∧ k < dest + a
  · rw [if_pos hk, if_neg (by omega), if_pos (by omega)]
  · rw [if_neg hk]
    by_cases hk' : dest + a ≤ k ∧ k < dest + a + b
    · have hread : src + a + (k - (dest + a)) = src + (k - dest) := by omega
      rw [if_pos hk', hread, if_pos (by omega)]
    · rw [if_neg hk', if_neg (by omega)]

/-! ## Copies of one text -/

/-- The memory after the bytes are written `n` times, `stride` apart, from `pos` on. -/
def stamp (stride : Nat) (bs : List Byte) : Nat → Nat → (Nat → Byte) → Nat → Byte
  | 0, _, m => m
  | n + 1, pos, m => stamp stride bs n (pos + stride) (putBytes m pos bs)

variable {stride c : Nat}

theorem stamp_of_lt (h : k < pos) : stamp stride bs n pos m k = m k := by
  induction n generalizing pos m with
  | zero => rfl
  | succ n ih => rw [stamp, ih (by omega), putBytes_of_out (.inl h)]

theorem stamp_of_out (h : ∀ c < n, k < pos + c * stride ∨ pos + c * stride + bs.length ≤ k) :
    stamp stride bs n pos m k = m k := by
  induction n generalizing pos m with
  | zero => rfl
  | succ n ih =>
    have hnow := h 0 (Nat.succ_pos n)
    rw [stamp, ih fun c hc => ?_, putBytes_of_out (by omega)]
    have hlater := h (c + 1) (Nat.succ_lt_succ hc)
    rwa [Nat.succ_mul, ← Nat.add_assoc, Nat.add_right_comm] at hlater

/-- The first copy is not touched by the others. -/
theorem stamp_first (hk : k < pos + stride) (hn : 0 < n) :
    stamp stride bs n pos m k = putBytes m pos bs k := by
  obtain ⟨n, rfl⟩ := Nat.exists_eq_succ_of_ne_zero (Nat.pos_iff_ne_zero.mp hn)
  rw [stamp, stamp_of_lt hk]

/-- Each copy has the bytes. -/
theorem stamp_of_in (hlen : bs.length ≤ stride) (hc : c < n) (hk : k < bs.length) :
    stamp stride bs n pos m (pos + c * stride + k) = bs.getD k 0 := by
  induction c generalizing n pos m with
  | zero =>
    rw [Nat.zero_mul, Nat.add_zero, stamp_first (by omega) hc, putBytes_of_in hk]
  | succ c ih =>
    obtain ⟨n, rfl⟩ := Nat.exists_eq_succ_of_ne_zero (Nat.ne_of_gt (Nat.zero_lt_of_lt hc))
    have hpos : pos + (c + 1) * stride + k = pos + stride + c * stride + k := by
      rw [Nat.succ_mul]
      omega
    rw [hpos, stamp, ih (Nat.lt_of_succ_lt_succ hc)]

end EfiCore.Lib
