import EfiCore.Lib.Bytes

/-! # Bit-serial remainders

A reflected cyclic redundancy check: the register is shifted down by one place for each bit of the
message, and the polynomial is added whenever the bit that leaves it differs from the message's.
The polynomial's highest bit is its constant term; a register that is clear at the end then says
what the last bits of the message were.
-/

namespace EfiCore.Lib.Crc

variable {w : Nat} {p c d : BitVec w} {x y : Bool} {xs ys : List Bool} {bs cs : List Byte}

/-- One bit of the message. -/
def bitStep (p c : BitVec w) (x : Bool) : BitVec w :=
  (c >>> 1) ^^^ if c.getLsbD 0 ^^ x then p else 0#w

def serial (p c : BitVec w) (xs : List Bool) : BitVec w := xs.foldl (bitStep p) c

/-- The bits of the bytes, each byte's lowest bit first. -/
def bitsOf (bs : List Byte) : List Bool := bs.flatMap fun b => (List.range 8).map b.getLsbD

@[simp] theorem serial_nil : serial p c [] = c := rfl

@[simp] theorem serial_cons : serial p c (x :: xs) = serial p (bitStep p c x) xs := rfl

theorem serial_append : serial p c (xs ++ ys) = serial p (serial p c xs) ys := List.foldl_append

@[simp] theorem bitsOf_nil : bitsOf [] = [] := rfl

theorem bitsOf_cons (b : Byte) (bs : List Byte) :
    bitsOf (b :: bs) = (List.range 8).map b.getLsbD ++ bitsOf bs := rfl

@[simp] theorem length_bitsOf (bs : List Byte) : (bitsOf bs).length = 8 * bs.length := by
  induction bs with
  | nil => rfl
  | cons b bs ih => simp [bitsOf_cons, ih]; omega

theorem getD_bitsOf (bs : List Byte) (i : Nat) :
    (bitsOf bs).getD i false = (bs.getD (i / 8) 0).getLsbD (i % 8) := by
  induction bs generalizing i with
  | nil => simp
  | cons b bs ih =>
    rw [bitsOf_cons]
    by_cases hi : i < 8
    · rw [List.getD_eq_getElem?_getD, List.getElem?_append_left (by simpa using hi),
        Nat.div_eq_of_lt hi, Nat.mod_eq_of_lt hi]
      simp [hi]
    · obtain ⟨k, rfl⟩ : ∃ k, i = k + 8 := ⟨i - 8, by omega⟩
      rw [List.getD_eq_getElem?_getD, List.getElem?_append_right (by simp), List.length_map,
        List.length_range, Nat.add_sub_cancel, ← List.getD_eq_getElem?_getD, ih,
        Nat.add_div_right _ (by omega), Nat.add_mod_right, List.getD_cons_succ]

/-! ## Linearity -/

/-- Two registers and two bits added are a register and a bit. -/
theorem bitStep_xor : bitStep p (c ^^^ d) (x ^^ y) = bitStep p c x ^^^ bitStep p d y := by
  have hbit : ((c ^^^ d).getLsbD 0 ^^ (x ^^ y)) = ((c.getLsbD 0 ^^ x) ^^ (d.getLsbD 0 ^^ y)) := by
    rw [BitVec.getLsbD_xor]
    cases c.getLsbD 0 <;> cases d.getLsbD 0 <;> cases x <;> cases y <;> rfl
  have hpoly : ∀ a b : Bool, (if a ^^ b then p else 0#w) =
      (if a then p else 0#w) ^^^ (if b then p else 0#w) := by
    intro a b
    cases a <;> cases b <;> simp
  simp only [bitStep]
  rw [hbit, hpoly, BitVec.ushiftRight_xor_distrib]
  ac_rfl

theorem serial_xor (h : xs.length = ys.length) :
    serial p (c ^^^ d) (List.zipWith Bool.xor xs ys) = serial p c xs ^^^ serial p d ys := by
  induction xs generalizing c d ys with
  | nil =>
    obtain rfl := List.length_eq_zero_iff.mp h.symm
    rfl
  | cons x xs ih =>
    cases ys with
    | nil => simp at h
    | cons y ys =>
      rw [List.zipWith_cons_cons, serial_cons, serial_cons, serial_cons, bitStep_xor]
      exact ih (by simpa using h)

/-- What a register gains by the addition of another does not depend on the message. -/
theorem serial_xor_left : serial p (c ^^^ d) xs =
    serial p c (List.replicate xs.length false) ^^^ serial p d xs := by
  induction xs generalizing c d with
  | nil => rfl
  | cons x xs ih =>
    have hstep : bitStep p (c ^^^ d) x = bitStep p c false ^^^ bitStep p d x := by
      rw [← bitStep_xor, Bool.false_xor]
    rw [List.length_cons, List.replicate_succ, serial_cons, serial_cons, serial_cons, hstep, ih]

/-! ## A clear register -/

theorem bitStep_of_same (h : c.getLsbD 0 = x) : bitStep p c x = c >>> 1 := by
  simp [bitStep, h]

/-- The bit that leaves differs from the message's exactly if the highest bit is set afterwards. -/
theorem msb_bitStep (hp : p.msb = true) : (bitStep p c x).msb = (c.getLsbD 0 ^^ x) := by
  have hw : 0 < w := by
    rcases Nat.eq_zero_or_pos w with rfl | hw
    · simp [BitVec.msb, BitVec.getMsbD] at hp
    · exact hw
  have hshift : (c >>> 1).msb = false := by
    rw [BitVec.msb_eq_getLsbD_last, BitVec.getLsbD_ushiftRight]
    exact BitVec.getLsbD_of_ge _ _ (by omega)
  rw [bitStep, BitVec.msb_xor, hshift, Bool.false_xor]
  cases c.getLsbD 0 ^^ x with
  | true => simpa using hp
  | false => simp

/-- A register that holds the whole message is clear afterwards. -/
theorem serial_of_bits (hbits : ∀ i, c.getLsbD i = xs.getD i false) : serial p c xs = 0#w := by
  induction xs generalizing c with
  | nil =>
    refine BitVec.eq_of_getLsbD_eq fun i _ => ?_
    simpa using hbits i
  | cons x xs ih =>
    have hlow : c.getLsbD 0 = x := by simpa using hbits 0
    rw [serial_cons, bitStep_of_same hlow]
    refine ih fun i => ?_
    rw [BitVec.getLsbD_ushiftRight, Nat.add_comm]
    simpa using hbits (i + 1)

/-- And no other: the polynomial is never added when the register is to become clear, since the
highest bit would not leave it in time. -/
theorem bits_of_serial (hp : p.msb = true) (hlen : xs.length ≤ w) (hzero : serial p c xs = 0#w)
    (i : Nat) : c.getLsbD i = xs.getD i false := by
  induction xs generalizing c i with
  | nil =>
    rw [serial_nil] at hzero
    simp [hzero]
  | cons x xs ih =>
    rw [List.length_cons] at hlen
    have hnext := ih (by omega) hzero
    have hmsb : (bitStep p c x).msb = false := by
      rw [BitVec.msb_eq_getLsbD_last, hnext]
      simp [List.getD_eq_getElem?_getD, List.getElem?_eq_none (by omega : xs.length ≤ w - 1)]
    have hlow : c.getLsbD 0 = x := by
      rw [msb_bitStep hp] at hmsb
      revert hmsb
      cases c.getLsbD 0 <;> cases x <;> simp
    cases i with
    | zero => simpa using hlow
    | succ i =>
      have hbit := hnext i
      rw [bitStep_of_same hlow, BitVec.getLsbD_ushiftRight, Nat.add_comm] at hbit
      simpa using hbit

theorem serial_zeros (n : Nat) : serial p 0#w (List.replicate n false) = 0#w := by
  refine serial_of_bits fun i => ?_
  by_cases hi : i < n <;> simp [List.getD_eq_getElem?_getD, hi]

theorem eq_zero_of_bitStep (hp : p.msb = true) (hzero : bitStep p c false = 0#w) : c = 0#w := by
  have hw : 1 ≤ w := by
    rcases Nat.eq_zero_or_pos w with rfl | hw
    · simp [BitVec.msb, BitVec.getMsbD] at hp
    · exact hw
  refine BitVec.eq_of_getLsbD_eq fun i _ => ?_
  have hserial : serial p c [false] = 0#w := hzero
  have hlen : [false].length ≤ w := hw
  have hbit := bits_of_serial hp hlen hserial i
  rw [hbit]
  cases i <;> simp

/-- No message of clear bits clears a register. -/
theorem eq_zero_of_serial_zeros (hp : p.msb = true) {n : Nat}
    (hzero : serial p c (List.replicate n false) = 0#w) : c = 0#w := by
  induction n generalizing c with
  | zero => exact hzero
  | succ n ih => exact eq_zero_of_bitStep hp (ih hzero)

/-! ## Bursts -/

theorem eq_replicate_of_getD (h : ∀ i, xs.getD i false = false) :
    xs = List.replicate xs.length false := by
  refine List.eq_replicate_iff.mpr ⟨rfl, fun b hb => ?_⟩
  obtain ⟨i, hi, rfl⟩ := List.getElem_of_mem hb
  simpa [List.getD_eq_getElem?_getD, List.getElem?_eq_getElem hi] using h i

/-- A message whose set bits lie within as many consecutive ones as the register has, and that
leaves the register clear, has none. -/
theorem burst (hp : p.msb = true) {s : Nat}
    (hin : ∀ i, xs.getD i false = true → s ≤ i ∧ i < s + w) (hzero : serial p 0#w xs = 0#w) :
    ∀ i, xs.getD i false = false := by
  have hfalse : ∀ i, ¬(s ≤ i ∧ i < s + w) → xs.getD i false = false := by
    intro i hi
    by_contra htrue
    exact hi (hin i (by simpa using htrue))
  have htake : xs.take s = List.replicate (xs.take s).length false := by
    refine eq_replicate_of_getD fun i => ?_
    by_cases hi : i < s
    · simpa [List.getD_eq_getElem?_getD, List.getElem?_take, hi] using hfalse i (by omega)
    · simp [List.getD_eq_getElem?_getD, hi]
  have hdrop : xs.drop (s + w) = List.replicate (xs.drop (s + w)).length false := by
    refine eq_replicate_of_getD fun i => ?_
    simpa [List.getD_eq_getElem?_getD, List.getElem?_drop] using hfalse (s + w + i) (by omega)
  have hsplit : xs = xs.take s ++ ((xs.drop s).take w ++ xs.drop (s + w)) := by
    rw [← List.drop_drop, List.take_append_drop, List.take_append_drop]
  -- the clear bits before the burst leave the register clear, those after it change no clear one
  rw [hsplit, serial_append, htake, serial_zeros, serial_append, hdrop] at hzero
  have hmid := bits_of_serial hp (by simp) (eq_zero_of_serial_zeros hp hzero)
  intro i
  by_cases hi : s ≤ i ∧ i < s + w
  · have hbit := hmid (i - s)
    have hlt : i - s < w := by omega
    have heq : s + (i - s) = i := by omega
    rw [BitVec.getLsbD_zero] at hbit
    simpa [List.getD_eq_getElem?_getD, List.getElem?_take, List.getElem?_drop, hlt, heq]
      using hbit.symm
  · exact hfalse i hi

/-- Two messages of one length that leave one register alike, and differ only within as many
consecutive bits as it has, are the same. -/
theorem eq_of_serial (hp : p.msb = true) {s : Nat} (hlen : xs.length = ys.length)
    (hin : ∀ i, xs.getD i false ≠ ys.getD i false → s ≤ i ∧ i < s + w)
    (hserial : serial p c xs = serial p c ys) : xs = ys := by
  have hdiff : ∀ i, (List.zipWith Bool.xor xs ys).getD i false =
      (xs.getD i false ^^ ys.getD i false) := by
    intro i
    simp only [List.getD_eq_getElem?_getD, List.getElem?_zipWith]
    by_cases hi : i < xs.length
    · simp [List.getElem?_eq_getElem hi, List.getElem?_eq_getElem (hlen ▸ hi)]
    · simp [List.getElem?_eq_none (Nat.not_lt.mp hi),
        List.getElem?_eq_none (hlen ▸ Nat.not_lt.mp hi)]
  have hzero : serial p 0#w (List.zipWith Bool.xor xs ys) = 0#w := by
    have hxor := serial_xor (p := p) (c := c) (d := c) hlen
    rwa [hserial, BitVec.xor_self, BitVec.xor_self] at hxor
  have hburst : ∀ i, (List.zipWith Bool.xor xs ys).getD i false = true → s ≤ i ∧ i < s + w := by
    intro i hi
    apply hin i
    rw [hdiff] at hi
    revert hi
    cases xs.getD i false <;> simp
  have hsame := burst hp hburst hzero
  refine List.ext_getElem hlen fun i hi hi' => ?_
  have hbit := hsame i
  rw [hdiff] at hbit
  simpa [List.getD_eq_getElem?_getD, List.getElem?_eq_getElem hi, List.getElem?_eq_getElem hi']
    using hbit

/-- The same for bytes. -/
theorem bytes_eq_of_serial (hp : p.msb = true) {s : Nat} (hlen : bs.length = cs.length)
    (hin : ∀ i, (bs.getD (i / 8) 0).getLsbD (i % 8) ≠ (cs.getD (i / 8) 0).getLsbD (i % 8) →
      s ≤ i ∧ i < s + w)
    (hserial : serial p c (bitsOf bs) = serial p c (bitsOf cs)) : bs = cs := by
  have hbits : bitsOf bs = bitsOf cs :=
    eq_of_serial hp (by simp [hlen]) (fun i hi => hin i (by simpa only [getD_bitsOf] using hi))
      hserial
  refine List.ext_getElem hlen fun k hk hk' => BitVec.eq_of_getLsbD_eq fun j hj => ?_
  have hbit := congrArg (List.getD · (8 * k + j) false) hbits
  simp only [getD_bitsOf, Nat.mul_add_div (by omega : 0 < 8), Nat.mul_add_mod,
    Nat.div_eq_of_lt hj, Nat.mod_eq_of_lt hj, Nat.add_zero] at hbit
  simpa [List.getD_eq_getElem?_getD, List.getElem?_eq_getElem hk, List.getElem?_eq_getElem hk']
    using hbit

/-! ## Bytes at a time -/

/-- Clear bits only move a register down whose low ones are clear. -/
theorem serial_shift {n : Nat} (h : ∀ i < n, c.getLsbD i = false) :
    serial p c (List.replicate n false) = c >>> n := by
  induction n generalizing c with
  | zero => simp
  | succ n ih =>
    rw [List.replicate_succ, serial_cons, bitStep_of_same (h 0 (by omega)), ih fun i hi => ?_,
      ← BitVec.shiftRight_add, Nat.add_comm]
    rw [BitVec.getLsbD_ushiftRight]
    exact h _ (by omega)

/-- A byte is taken from a table of the registers that eight shifts leave of its values. -/
theorem serial_byte (c : BitVec w) (b : Byte) (hw : 8 ≤ w) :
    serial p c ((List.range 8).map b.getLsbD) =
      (c >>> 8) ^^^ serial p ((c.setWidth 8 ^^^ b).setWidth w) (List.replicate 8 false) := by
  -- the register in three parts: what is above the low byte, the table's index, and the message
  let high : BitVec w := (c >>> 8) <<< 8
  let low : BitVec w := (c.setWidth 8 ^^^ b).setWidth w
  have hsplit : c = high ^^^ (low ^^^ b.setWidth w) := by
    refine BitVec.eq_of_getLsbD_eq fun i hi => ?_
    by_cases h8 : i < 8
    · simp [high, low, h8, hi]
    · have hback : 8 + (i - 8) = i := by omega
      simp [high, low, h8, hi, hback]
  have hhigh : serial p high (List.replicate 8 false) = c >>> 8 := by
    rw [serial_shift fun i hi => by simp [high, hi]]
    refine BitVec.eq_of_getLsbD_eq fun i hi => ?_
    simp only [high, BitVec.getLsbD_ushiftRight, BitVec.getLsbD_shiftLeft, Nat.add_sub_cancel_left]
    by_cases h8 : 8 + i < w
    · simp [h8]
    · simp [h8, BitVec.getLsbD_of_ge c (8 + i) (by omega)]
  have hbyte : serial p (b.setWidth w) ((List.range 8).map b.getLsbD) = 0#w := by
    refine serial_of_bits fun i => ?_
    by_cases hi : i < 8
    · simp [List.getD_eq_getElem?_getD, hi, Nat.lt_of_lt_of_le hi hw]
    · simp [List.getD_eq_getElem?_getD, hi, BitVec.getLsbD_of_ge b i (by omega)]
  have hlow : serial p (low ^^^ b.setWidth w) ((List.range 8).map b.getLsbD) =
      serial p low (List.replicate 8 false) := by
    rw [serial_xor_left, hbyte, BitVec.xor_zero, List.length_map, List.length_range]
  rw [hsplit, serial_xor_left, hlow, List.length_map, List.length_range, hhigh, ← hsplit]

end EfiCore.Lib.Crc
