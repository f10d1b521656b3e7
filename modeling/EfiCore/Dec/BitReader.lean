import EfiCore.Dec.Decompress
import EfiCore.Lib.Bits

/-! # What the decompressor reads

The registers of `FillBuf` as a position in an endless stream: the bits of the compressed data, and
zeros behind them.
-/

namespace EfiCore.Dec

open EfiCore.Lib

variable {src : Nat → Byte} {total p n : Nat} {sd : ScratchData} {bits rest : List Bool}

/-! ## Registers -/

/-- The scratch data with the registers of `sd'`. -/
def ScratchData.withRegisters (sd sd' : ScratchData) : ScratchData :=
  { sd with
    bitCount := sd'.bitCount
    bitBuf := sd'.bitBuf
    subBitBuf := sd'.subBitBuf
    compSize := sd'.compSize
    inBuf := sd'.inBuf }

theorem fillLoop_registers (src : Nat → Byte) (fuel : Nat) (sd : ScratchData) (numOfBits : Nat) :
    (fillLoop src fuel sd numOfBits).1 =
      sd.withRegisters (fillLoop src fuel sd numOfBits).1 := by
  induction fuel generalizing sd numOfBits with
  | zero => rfl
  | succ fuel ih =>
    rw [fillLoop]
    split
    · rfl
    · dsimp only
      split
      · rw [ih]
        rfl
      · rw [ih]
        rfl

/-- Only the registers change. -/
theorem fillBuf_registers (src : Nat → Byte) (sd : ScratchData) (numOfBits : Nat) :
    fillBuf src sd numOfBits = sd.withRegisters (fillBuf src sd numOfBits) := by
  conv_lhs => rw [fillBuf, fillLoop_registers]
  rfl

section Frame

variable (src : Nat → Byte) (sd : ScratchData) (n : Nat)

@[simp] theorem fillBuf_cLen : (fillBuf src sd n).cLen = sd.cLen := by
  rw [fillBuf_registers]
  rfl

@[simp] theorem fillBuf_ptLen : (fillBuf src sd n).ptLen = sd.ptLen := by
  rw [fillBuf_registers]
  rfl

@[simp] theorem fillBuf_cTable : (fillBuf src sd n).cTable = sd.cTable := by
  rw [fillBuf_registers]
  rfl

@[simp] theorem fillBuf_ptTable : (fillBuf src sd n).ptTable = sd.ptTable := by
  rw [fillBuf_registers]
  rfl

@[simp] theorem fillBuf_left : (fillBuf src sd n).left = sd.left := by
  rw [fillBuf_registers]
  rfl

@[simp] theorem fillBuf_right : (fillBuf src sd n).right = sd.right := by
  rw [fillBuf_registers]
  rfl

end Frame

/-! ## Positions -/

/-- The bits of the compressed data behind 16 zeros, which the registers hold at first. -/
def stream (src : Nat → Byte) (total i : Nat) : Bool :=
  if i < 16 then false else streamOf (byteBits ((List.range total).map src)) (i - 16)

/-- The registers hold the stream from the position `p` on: 16 bits in `mBitBuf`, and the byte behind
    them, whose first bits `mBitBuf` has already, in `mSubBitBuf`. -/
structure ScratchData.At (src : Nat → Byte) (total p : Nat) (sd : ScratchData) (k : Nat) : Prop where
  taken : 2 ≤ k
  place : p + 16 + sd.bitCount = 8 * k
  count : sd.bitCount ≤ 8
  buf : ∀ i, sd.bitBuf.testBit i = (decide (i < 16) && stream src total (p + 15 - i))
  sub : ∀ i, sd.subBitBuf.testBit i = (decide (i < 8) && stream src total (8 * k - 1 - i))
  inBuf : 0 < sd.compSize → sd.inBuf = k - 2
  left : sd.compSize = total - (k - 2)

theorem stream_byte (h : k - 2 < total) (hk : 2 ≤ k) {i : Nat} :
    (src (k - 2)).toNat.testBit i = (decide (i < 8) && stream src total (8 * (k + 1) - 1 - i)) := by
  by_cases hi : i < 8
  · have hplace : 8 * (k + 1) - 1 - i - 16 = 8 * (k - 2) + (7 - i) := by omega
    have hdiv : (8 * (k - 2) + (7 - i)) / 8 = k - 2 := by omega
    have hmod : 7 - (8 * (k - 2) + (7 - i)) % 8 = i := by omega
    rw [stream, if_neg (by omega), hplace, streamOf_byteBits, hdiv, hmod, decide_eq_true hi,
      Bool.true_and, List.getD_eq_getElem?_getD, List.getElem?_map, List.getElem?_range h]
    rfl
  · have hlt := (src (k - 2)).isLt
    rw [decide_eq_false hi, Bool.false_and]
    exact Nat.testBit_lt_two_pow (hlt.trans_le (Nat.pow_le_pow_right (by omega) (by omega)))

theorem stream_end (h : total ≤ k - 2) (hk : 2 ≤ k) {i : Nat} (hi : i < 8) :
    stream src total (8 * (k + 1) - 1 - i) = false := by
  have hplace : 8 * (k + 1) - 1 - i - 16 = 8 * (k - 2) + (7 - i) := by omega
  rw [stream, if_neg (by omega), hplace, streamOf]
  refine List.getD_eq_default _ _ ?_
  rw [length_byteBits, List.length_map, List.length_range]
  omega

/-- Within `FillBuf`: of the 16 bits from `p` on the last `m` are missing. -/
structure Filling (src : Nat → Byte) (total p : Nat) (sd : ScratchData) (m k : Nat) : Prop where
  taken : 2 ≤ k
  place : p + 16 + sd.bitCount = 8 * k + m
  count : sd.bitCount ≤ 8
  buf : ∀ i, sd.bitBuf.testBit i =
    (decide (m ≤ i) && decide (i < 16) && stream src total (p + 15 - i))
  sub : ∀ i, sd.subBitBuf.testBit i = (decide (i < 8) && stream src total (8 * k - 1 - i))
  inBuf : 0 < sd.compSize → sd.inBuf = k - 2
  left : sd.compSize = total - (k - 2)

/-- The bits of `mSubBitBuf` that `mBitBuf` has already are the same ones. -/
theorem Filling.insert {m k : Nat} (h : Filling src total p sd m k) (hm : sd.bitCount ≤ m)
    (i : Nat) :
    (sd.bitBuf ||| (sd.subBitBuf <<< (m - sd.bitCount)) % 2 ^ 16).testBit i =
      (decide (m - sd.bitCount ≤ i) && decide (i < 16) && stream src total (p + 15 - i)) := by
  have hplace := h.place
  have hcount := h.count
  rw [Nat.testBit_or, h.buf, Nat.testBit_mod_two_pow, Nat.testBit_shiftLeft, h.sub]
  by_cases hi : i < 16
  · by_cases hlow : m - sd.bitCount ≤ i
    · by_cases hnew : i - (m - sd.bitCount) < 8
      · have hat : 8 * k - 1 - (i - (m - sd.bitCount)) = p + 15 - i := by omega
        rw [hat]
        simp [hi, hlow, hnew]
      · have hold : m ≤ i := by omega
        simp [hi, hlow, hnew, hold]
    · have hold : ¬ m ≤ i := by omega
      simp [hlow, hold]
  · simp [hi]

/-- The next byte, or a zero behind the last one. -/
theorem Filling.next {m k : Nat} (h : Filling src total p sd m k) (hm : sd.bitCount ≤ m)
    (htotal : total < 2 ^ 32) :
    let bitBuf := sd.bitBuf ||| (sd.subBitBuf <<< (m - sd.bitCount)) % 2 ^ 16
    (0 < sd.compSize → Filling src total p
      { sd with
        bitBuf := bitBuf
        compSize := sd.compSize - 1
        subBitBuf := (src sd.inBuf).toNat
        inBuf := (sd.inBuf + 1) % 2 ^ 32
        bitCount := 8 } (m - sd.bitCount) (k + 1)) ∧
    (¬ 0 < sd.compSize → Filling src total p
      { sd with bitBuf := bitBuf, subBitBuf := 0, bitCount := 8 } (m - sd.bitCount) (k + 1)) := by
  have hplace := h.place
  have htaken := h.taken
  have hleft := h.left
  refine ⟨fun hmore => ⟨by omega, ?_, Nat.le_refl 8, h.insert hm, ?_, ?_, ?_⟩,
    fun hdone => ⟨by omega, ?_, Nat.le_refl 8, h.insert hm, ?_, ?_, ?_⟩⟩
  · show p + 16 + 8 = 8 * (k + 1) + (m - sd.bitCount)
    omega
  · intro i
    rw [h.inBuf hmore]
    exact stream_byte (by omega) htaken
  · intro _
    show (sd.inBuf + 1) % 2 ^ 32 = k + 1 - 2
    rw [h.inBuf hmore]
    omega
  · show sd.compSize - 1 = total - (k + 1 - 2)
    omega
  · show p + 16 + 8 = 8 * (k + 1) + (m - sd.bitCount)
    omega
  · intro i
    show (0 : Nat).testBit i = _
    rw [Nat.zero_testBit]
    by_cases hi : i < 8
    · rw [stream_end (by omega) htaken hi, Bool.and_false]
    · rw [decide_eq_false hi, Bool.false_and]
  · exact fun hmore => absurd hmore hdone
  · show sd.compSize = total - (k + 1 - 2)
    omega

/-- The loop ends with no more bits missing than `mSubBitBuf` has. -/
theorem Filling.fillLoop {m k fuel : Nat} (h : Filling src total p sd m k)
    (htotal : total < 2 ^ 32) (hfuel : m ≤ fuel) (hempty : sd.bitCount = 0 → m < fuel) :
    (fillLoop src fuel sd m).2 ≤ (fillLoop src fuel sd m).1.bitCount ∧
      ∃ k', Filling src total p (fillLoop src fuel sd m).1 (fillLoop src fuel sd m).2 k' := by
  induction fuel generalizing sd m k with
  | zero =>
    obtain rfl : m = 0 := Nat.le_zero.mp hfuel
    exact ⟨Nat.zero_le _, k, h⟩
  | succ fuel ih =>
    rw [Dec.fillLoop]
    by_cases henough : m ≤ sd.bitCount
    · rw [if_pos henough]
      exact ⟨henough, k, h⟩
    · rw [if_neg henough]
      dsimp only
      have hnext := h.next (Nat.le_of_not_le henough) htotal
      by_cases hmore : 0 < sd.compSize
      · rw [if_pos hmore]
        exact ih (hnext.1 hmore) (by omega) (by simp)
      · rw [if_neg hmore]
        exact ih (hnext.2 hmore) (by omega) (by simp)

/-- The position behind `n` bits. -/
theorem ScratchData.At.fillBuf {k : Nat} (h : sd.At src total p k) (hn : n ≤ 16)
    (htotal : total < 2 ^ 32) : ∃ k', (fillBuf src sd n).At src total (p + n) k' := by
  have hplace := h.place
  have hshift : Filling src total (p + n) { sd with bitBuf := (sd.bitBuf <<< n) % 2 ^ 16 } n k := by
    refine ⟨h.taken, ?_, h.count, ?_, h.sub, h.inBuf, h.left⟩
    · show p + n + 16 + sd.bitCount = 8 * k + n
      omega
    · intro i
      show ((sd.bitBuf <<< n) % 2 ^ 16).testBit i = _
      rw [Nat.testBit_mod_two_pow, Nat.testBit_shiftLeft, h.buf]
      by_cases hi : n ≤ i
      · have hat : p + 15 - (i - n) = p + n + 15 - i := by omega
        rw [hat]
        by_cases hword : i < 16
        · have hback : i - n < 16 := by omega
          simp [hi, hword, hback]
        · simp [hword]
      · simp [hi]
  obtain ⟨henough, k', hfilled⟩ :=
    hshift.fillLoop htotal (Nat.le_succ n) fun _ => Nat.lt_succ_self n
  rw [Dec.fillBuf]
  generalize fillLoop src (n + 1) { sd with bitBuf := (sd.bitBuf <<< n) % 2 ^ 16 } n = r
    at henough hfilled
  have hplace' := hfilled.place
  have hcount' := hfilled.count
  refine ⟨k', hfilled.taken, ?_, ?_, ?_, hfilled.sub, hfilled.inBuf, hfilled.left⟩
  · show p + n + 16 + (r.1.bitCount - r.2) = 8 * k'
    omega
  · show r.1.bitCount - r.2 ≤ 8
    omega
  · intro i
    show (r.1.bitBuf ||| r.1.subBitBuf >>> (r.1.bitCount - r.2)).testBit i = _
    rw [Nat.testBit_or, Nat.testBit_shiftRight, hfilled.buf, hfilled.sub]
    by_cases hi : r.1.bitCount - r.2 + i < 8
    · have hat : 8 * k' - 1 - (r.1.bitCount - r.2 + i) = p + n + 15 - i := by omega
      have hword : i < 16 := by omega
      rw [hat]
      simp [hi, hword]
    · have hold : r.2 ≤ i := by omega
      simp [hi, hold]

/-! ## What comes next -/

/-- What the decompressor reads next are these bits, and zeros behind them. -/
def ScratchData.Ahead (src : Nat → Byte) (total : Nat) (sd : ScratchData) (bits : List Bool) : Prop :=
  ∃ p k, sd.At src total p k ∧ ∀ i, stream src total (p + i) = streamOf bits i

/-- It depends on the registers only. -/
theorem ScratchData.Ahead.congr {sd' : ScratchData} (h : sd.Ahead src total bits)
    (hsame : sd' = sd'.withRegisters sd) : sd'.Ahead src total bits := by
  obtain ⟨p, k, hat, hbits⟩ := h
  refine ⟨p, k, ?_, hbits⟩
  rw [hsame]
  exact ⟨hat.taken, hat.place, hat.count, hat.buf, hat.sub, hat.inBuf, hat.left⟩

theorem ScratchData.Ahead.zeros (n : Nat) (h : sd.Ahead src total bits) :
    sd.Ahead src total (bits ++ List.replicate n false) := by
  rw [Ahead, streamOf_zeros]
  exact h

theorem ScratchData.Ahead.dropZeros {n : Nat}
    (h : sd.Ahead src total (bits ++ List.replicate n false)) : sd.Ahead src total bits := by
  rw [Ahead, streamOf_zeros] at h
  exact h

/-- The bits of a word are at the head. -/
theorem ScratchData.Ahead.peek {x : Nat} (h : sd.Ahead src total (wordBits n x ++ rest))
    (hn : n ≤ 16) (hx : x < 2 ^ n) : sd.bitBuf >>> (16 - n) = x := by
  obtain ⟨p, k, hat, hbits⟩ := h
  refine Nat.eq_of_testBit_eq fun i => ?_
  rw [Nat.testBit_shiftRight, hat.buf]
  by_cases hi : i < n
  · have hplace : p + 15 - (16 - n + i) = p + (n - 1 - i) := by omega
    have hback : n - 1 - (n - 1 - i) = i := by omega
    have hword : 16 - n + i < 16 := by omega
    rw [hplace, hbits, streamOf_append_left (by simp; omega), streamOf_wordBits (by omega), hback,
      decide_eq_true hword, Bool.true_and]
  · have hword : ¬ 16 - n + i < 16 := by omega
    rw [decide_eq_false hword, Bool.false_and]
    exact (Nat.testBit_lt_two_pow (hx.trans_le (Nat.pow_le_pow_right (by omega) (by omega)))).symm

/-- The bits that are taken. -/
theorem ScratchData.Ahead.fillBuf {taken : List Bool} (h : sd.Ahead src total (taken ++ rest))
    (hlen : taken.length = n) (hn : n ≤ 16) (htotal : total < 2 ^ 32) :
    (fillBuf src sd n).Ahead src total rest := by
  obtain ⟨p, k, hat, hbits⟩ := h
  obtain ⟨k', hat'⟩ := hat.fillBuf hn htotal
  refine ⟨p + n, k', hat', fun i => ?_⟩
  rw [Nat.add_assoc, hbits, ← hlen, streamOf_append_right]

theorem ScratchData.Ahead.getBits {x : Nat} (h : sd.Ahead src total (wordBits n x ++ rest))
    (hn : n ≤ 16) (hx : x < 2 ^ n) (htotal : total < 2 ^ 32) :
    getBits src sd n = (Dec.fillBuf src sd n, x) ∧ (Dec.fillBuf src sd n).Ahead src total rest := by
  rw [Dec.getBits, h.peek hn hx]
  exact ⟨rfl, h.fillBuf (length_wordBits n x) hn htotal⟩

/-- The scratch data at first, behind the `FillBuf` of `Decompress`. -/
theorem clearScratch_ahead (src : Nat → Byte) (origSize : Nat) (htotal : total < 2 ^ 32) :
    (fillBuf src (clearScratch total origSize) 16).Ahead src total
      (byteBits ((List.range total).map src)) := by
  have hat : (clearScratch total origSize).At src total 0 2 := by
    refine ⟨Nat.le_refl 2, rfl, Nat.zero_le 8, fun i => ?_, fun i => ?_, fun _ => rfl, rfl⟩
    · show (0 : Nat).testBit i = _
      rw [Nat.zero_testBit, stream]
      simp
      omega
    · show (0 : Nat).testBit i = _
      rw [Nat.zero_testBit, stream]
      simp
      omega
  obtain ⟨k', hat'⟩ := hat.fillBuf (n := 16) (Nat.le_refl 16) htotal
  refine ⟨0 + 16, k', hat', fun i => ?_⟩
  rw [stream, if_neg (by omega)]
  congr 1
  omega

end EfiCore.Dec
