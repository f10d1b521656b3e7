import EfiCore.Lib.Bits

/-! # The bits that the compressor writes

`PutBits` and `PutDword` of `compress.c`.  The buffer keeps its size, and what does not fit is
counted and dropped.
-/

namespace EfiCore.Enc

open EfiCore.Lib

/-- `DstBuffer`, with `mDst` as a place in it, and the variables of `PutBits`. -/
structure Sink where
  dst : List Byte
  pos : Nat
  bitCount : Nat
  subBitBuf : Nat
  compSize : Nat
  deriving DecidableEq, Repr

/-- `*mDst++ = x`, below `mDstUpperLimit`. -/
def Sink.store (s : Sink) (x : Nat) : Sink :=
  if s.pos < s.dst.length then
    { s with dst := s.dst.set s.pos (BitVec.ofNat 8 x), pos := s.pos + 1 }
  else s

/-- `PutDword` -/
def putDword (s : Sink) (data : Nat) : Sink :=
  (((s.store data).store (data >>> 8)).store (data >>> 16)).store (data >>> 24)

/-- A byte that counts. -/
def Sink.emit (s : Sink) (temp : Nat) : Sink :=
  { s.store temp with compSize := (s.compSize + 1) % 2 ^ 32 }

/-- `InitPutBits` -/
def initPutBits (s : Sink) : Sink := { s with bitCount := 8, subBitBuf := 0 }

/-- `PutBits` -/
def putBits (s : Sink) (n x : Nat) : Sink :=
  if n < s.bitCount then
    { s with
      subBitBuf := s.subBitBuf ||| (x <<< (s.bitCount - n)) % 2 ^ 32
      bitCount := s.bitCount - n }
  else
    let s' := s.emit (s.subBitBuf ||| x >>> (n - s.bitCount))
    let n := n - s.bitCount
    if n < 8 then { s' with subBitBuf := (x <<< (8 - n)) % 2 ^ 32, bitCount := 8 - n }
    else
      { s'.emit (x >>> (n - 8)) with
        subBitBuf := (x <<< (16 - n)) % 2 ^ 32
        bitCount := 16 - n }

/-- A call of `PutBits`. -/
structure Put where
  n : Nat
  x : Nat
  deriving DecidableEq, Repr

/-- The number has no more bits than are put. -/
structure Put.Fits (p : Put) : Prop where
  n : p.n ≤ 16
  x : p.x < 2 ^ p.n

/-- The calls, one after the other. -/
def putAll (s : Sink) (puts : List Put) : Sink := puts.foldl (fun s p => putBits s p.n p.x) s

/-- The bits that the calls put. -/
def putsBits (puts : List Put) : List Bool := puts.flatMap fun p => wordBits p.n p.x

@[simp] theorem putAll_nil (s : Sink) : putAll s [] = s := rfl

theorem putAll_cons (s : Sink) (p : Put) (puts : List Put) :
    putAll s (p :: puts) = putAll (putBits s p.n p.x) puts := rfl

@[simp] theorem putsBits_nil : putsBits [] = [] := rfl

@[simp] theorem putsBits_cons (p : Put) (puts : List Put) :
    putsBits (p :: puts) = wordBits p.n p.x ++ putsBits puts := rfl

@[simp] theorem putsBits_append (puts puts' : List Put) :
    putsBits (puts ++ puts') = putsBits puts ++ putsBits puts' := List.flatMap_append

/-! ## Bytes -/

/-- What has been written, as far as there is room. -/
structure Sink.Wrote (s : Sink) (written : List Byte) : Prop where
  pos : s.pos = min written.length s.dst.length
  dst : s.dst.take s.pos = written.take s.dst.length

section Bytes

variable {s : Sink} {written : List Byte} {x : Nat}

theorem Sink.Wrote.store (h : s.Wrote written) (x : Nat) :
    (s.store x).Wrote (written ++ [BitVec.ofNat 8 x]) := by
  have hpos := h.pos
  rw [Sink.store]
  by_cases hroom : s.pos < s.dst.length
  · rw [if_pos hroom]
    have hlen : written.length = s.pos := by omega
    have hall := h.dst
    rw [List.take_of_length_le (by omega : written.length ≤ s.dst.length)] at hall
    refine ⟨?_, ?_⟩
    · show s.pos + 1 = _
      rw [List.length_set, List.length_append, List.length_singleton]
      omega
    · show (s.dst.set s.pos (BitVec.ofNat 8 x)).take (s.pos + 1) =
        (written ++ [BitVec.ofNat 8 x]).take (s.dst.set s.pos (BitVec.ofNat 8 x)).length
      rw [List.length_set, List.take_of_length_le (i := s.dst.length) (by simp; omega), List.take_add_one,
        List.take_set_of_le (Nat.le_refl _), hall, List.getElem?_set_self hroom]
      rfl
  · rw [if_neg hroom]
    have hlong : s.dst.length ≤ written.length := by omega
    refine ⟨?_, ?_⟩
    · simp
      omega
    · rw [h.dst, List.take_append_of_le_length hlong]

theorem Sink.store_length (s : Sink) (x : Nat) : (s.store x).dst.length = s.dst.length := by
  unfold Sink.store
  split
  · simp
  · rfl

theorem Sink.Wrote.putDword (h : s.Wrote written) (data : Nat) :
    (putDword s data).Wrote (written ++ leBytes 4 data) := by
  have hstored := (((h.store data).store (data >>> 8)).store (data >>> 16)).store (data >>> 24)
  have hbytes : leBytes 4 data = [BitVec.ofNat 8 data, BitVec.ofNat 8 (data >>> 8),
      BitVec.ofNat 8 (data >>> 16), BitVec.ofNat 8 (data >>> 24)] := by
    simp [leBytes, Nat.shiftRight_eq_div_pow, Nat.div_div_eq_div_mul]
  rw [hbytes]
  simpa [Enc.putDword, List.append_assoc] using hstored

end Bytes

/-! ## Bits -/

/-- These bits have been put behind `header`, the last ones of which are still in `mSubBitBuf`. -/
structure Sink.Holds (s : Sink) (header : List Byte) (bits : List Bool) (bytes : List Byte) : Prop where
  bits : bits = byteBits bytes ++ wordBits (8 - s.bitCount) (s.subBitBuf >>> s.bitCount)
  pos : 1 ≤ s.bitCount
  le : s.bitCount ≤ 8
  low : ∀ i < s.bitCount, s.subBitBuf.testBit i = false
  size : s.compSize = bytes.length % 2 ^ 32
  wrote : s.Wrote (header ++ bytes)

section Bits

variable {s : Sink} {header bytes : List Byte} {bits : List Bool} {n x : Nat}

theorem Sink.Wrote.emit (h : s.Wrote (header ++ bytes)) (x : Nat) :
    (s.emit x).Wrote (header ++ (bytes ++ [BitVec.ofNat 8 x])) := by
  have hstored := h.store x
  rw [List.append_assoc] at hstored
  exact ⟨hstored.pos, hstored.dst⟩

theorem Sink.emit_size (hsize : s.compSize = bytes.length % 2 ^ 32) (x : Nat) :
    (s.emit x).compSize = (bytes ++ [BitVec.ofNat 8 x]).length % 2 ^ 32 := by
  show (s.compSize + 1) % 2 ^ 32 = _
  rw [hsize, List.length_append, List.length_singleton]
  omega

/-- The bits go behind those that are there. -/
theorem Sink.Holds.putBits (h : s.Holds header bits bytes) (hn : n ≤ 16) (hx : x < 2 ^ n) :
    ∃ bytes', (putBits s n x).Holds header (bits ++ wordBits n x) bytes' := by
  have hpos := h.pos
  have hle := h.le
  rw [Enc.putBits]
  by_cases hfew : n < s.bitCount
  · -- all of them fit in `mSubBitBuf`
    rw [if_pos hfew]
    have hsum : 8 - (s.bitCount - n) = 8 - s.bitCount + n := by omega
    refine ⟨bytes, ?_, Nat.sub_pos_of_lt hfew, (Nat.sub_le _ _).trans hle, ?_, h.size,
      ⟨h.wrote.pos, h.wrote.dst⟩⟩
    · show bits ++ wordBits n x = byteBits bytes ++ wordBits (8 - (s.bitCount - n))
        ((s.subBitBuf ||| (x <<< (s.bitCount - n)) % 2 ^ 32) >>> (s.bitCount - n))
      rw [h.bits, List.append_assoc, hsum, wordBits_add]
      congr 2
      · refine wordBits_congr fun i hi => ?_
        have hat : s.bitCount - n + (n + i) = s.bitCount + i := by omega
        have hback : s.bitCount + i - (s.bitCount - n) = n + i := by omega
        rw [Nat.testBit_shiftRight, Nat.testBit_shiftRight, Nat.testBit_shiftRight, Nat.testBit_or,
          hat, testBit_shiftLeft_mod, hback, testBit_of_lt hx (Nat.le_add_right n i), Bool.and_false,
          Bool.and_false, Bool.or_false]
      · refine wordBits_congr fun i hi => ?_
        have hword : s.bitCount - n + i < 32 := by omega
        rw [Nat.testBit_shiftRight, Nat.testBit_or, testBit_shiftLeft_mod, decide_eq_true hword,
          h.low (s.bitCount - n + i) (by omega), Nat.add_sub_cancel_left]
        simp
    · intro i hi
      replace hi : i < s.bitCount - n := hi
      have hnot : ¬ s.bitCount - n ≤ i := by omega
      show (s.subBitBuf ||| (x <<< (s.bitCount - n)) % 2 ^ 32).testBit i = false
      rw [Nat.testBit_or, testBit_shiftLeft_mod, h.low i (by omega), decide_eq_false hnot]
      simp
  · -- a byte is full
    rw [if_neg hfew]
    dsimp only
    obtain ⟨more, rfl⟩ := Nat.exists_eq_add_of_le (Nat.not_lt.mp hfew)
    have hmore : s.bitCount + more - s.bitCount = more := Nat.add_sub_cancel_left _ _
    rw [hmore, wordBits_add]
    have hfirst : wordBits (8 - s.bitCount) (s.subBitBuf >>> s.bitCount) ++
        wordBits s.bitCount (x >>> more) = wordBits 8 (s.subBitBuf ||| x >>> more) := by
      have hsum : 8 = 8 - s.bitCount + s.bitCount := by omega
      conv_rhs => rw [hsum, wordBits_add]
      congr 1
      · refine wordBits_congr fun i hi => ?_
        have hat : more + (s.bitCount + i) = s.bitCount + more + i := by omega
        simp [Nat.testBit_shiftRight, hat, testBit_of_lt hx (Nat.le_add_right _ i)]
      · refine wordBits_congr fun i hi => ?_
        simp [h.low i hi]
    have hrest : ∀ {sub c : Nat}, sub = (x <<< c) % 2 ^ 32 → ∀ i < c, sub.testBit i = false := by
      rintro sub c rfl i hi
      have hnot : ¬ c ≤ i := by omega
      rw [testBit_shiftLeft_mod, decide_eq_false hnot]
      simp
    have hkept : ∀ {c k : Nat}, c + k ≤ 8 →
        wordBits k (((x <<< c) % 2 ^ 32) >>> c) = wordBits k x := by
      intro c k hck
      refine wordBits_congr fun i hi => ?_
      have hword : c + i < 32 := by omega
      rw [Nat.testBit_shiftRight, testBit_shiftLeft_mod, decide_eq_true hword,
        Nat.add_sub_cancel_left]
      simp
    by_cases hshort : more < 8
    · rw [if_pos hshort]
      have hsub : 8 - (8 - more) = more := by omega
      refine ⟨bytes ++ [BitVec.ofNat 8 (s.subBitBuf ||| x >>> more)], ?_, Nat.sub_pos_of_lt hshort,
        Nat.sub_le _ _, hrest rfl, s.emit_size h.size _,
        ⟨(h.wrote.emit _).pos, (h.wrote.emit _).dst⟩⟩
      show bits ++ (wordBits s.bitCount (x >>> more) ++ wordBits more x) = _ ++
        wordBits (8 - (8 - more)) (((x <<< (8 - more)) % 2 ^ 32) >>> (8 - more))
      rw [hsub, hkept (by omega), byteBits_snoc, ← hfirst, h.bits]
      simp only [List.append_assoc]
    · -- and one more
      rw [if_neg hshort]
      have hsplit : more = 8 + (more - 8) := by omega
      have hsub : 8 - (16 - more) = more - 8 := by omega
      refine ⟨bytes ++ [BitVec.ofNat 8 (s.subBitBuf ||| x >>> more)] ++
        [BitVec.ofNat 8 (x >>> (more - 8))], ?_, by show 1 ≤ 16 - more; omega,
        by show 16 - more ≤ 8; omega, hrest rfl,
        (s.emit _).emit_size (s.emit_size h.size _) _,
        ⟨((h.wrote.emit _).emit _).pos, ((h.wrote.emit _).emit _).dst⟩⟩
      show bits ++ (wordBits s.bitCount (x >>> more) ++ wordBits more x) = _ ++
        wordBits (8 - (16 - more)) (((x <<< (16 - more)) % 2 ^ 32) >>> (16 - more))
      have hsecond : wordBits more x = wordBits 8 (x >>> (more - 8)) ++ wordBits (more - 8) x := by
        conv_lhs => rw [hsplit, wordBits_add]
      rw [hsub, hkept (by omega), byteBits_snoc, byteBits_snoc, ← hfirst, hsecond, h.bits]
      simp only [List.append_assoc]

theorem Sink.Holds.putAll {puts : List Put} (h : s.Holds header bits bytes)
    (hfits : ∀ p ∈ puts, p.Fits) :
    ∃ bytes', (putAll s puts).Holds header (bits ++ putsBits puts) bytes' := by
  induction puts generalizing s bits bytes with
  | nil => exact ⟨bytes, by simpa using h⟩
  | cons p puts ih =>
    have hp := hfits p List.mem_cons_self
    obtain ⟨bytes', hput⟩ := h.putBits hp.n hp.x
    obtain ⟨bytes'', hall⟩ := ih hput fun q hq => hfits q (List.mem_cons_of_mem p hq)
    exact ⟨bytes'', by simpa [putAll_cons, List.append_assoc] using hall⟩

end Bits

end EfiCore.Enc
