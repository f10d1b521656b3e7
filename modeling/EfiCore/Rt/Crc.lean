import EfiCore.Disk.Crc
import EfiCore.Lib.Crc
import EfiCore.Lib.Memory
import EfiCore.Types
import Mathlib.Data.List.GetD

/-! # Checksums in memory

`RtCalculateCrc32` as it runs, with its accumulator in the caller's `*Crc`, and the helpers that
seal and check a table with it.
-/

namespace EfiCore.Rt

open EfiCore.Disk (crcTable crcStep calculateCrc32)
open EfiCore.Lib
open EfiCore.Lib.Crc

/-! ## The table -/

/-- The reflected polynomial of the CRC-32. -/
def polynomial : BitVec 32 := 0xEDB88320

/-- The register after the bytes, one bit after the other. -/
def remainder (bs : List Byte) : BitVec 32 := serial polynomial 0xffffffff (bitsOf bs)

/-- The CRC-32 of the bytes. -/
def crc32 (bs : List Byte) : BitVec 32 := ~~~remainder bs

theorem msb_polynomial : polynomial.msb = true := by decide

theorem crcTable_eq (b : Byte) :
    crcTable.getD b.toNat 0 = serial polynomial (b.setWidth 32) (List.replicate 8 false) := by
  revert b
  decide +kernel

theorem crcStep_eq (c : BitVec 32) (b : Byte) :
    crcStep c b = serial polynomial c ((List.range 8).map b.getLsbD) := by
  rw [crcStep, crcTable_eq, serial_byte c b (by decide)]

theorem foldl_crcStep (c : BitVec 32) (bs : List Byte) :
    bs.foldl crcStep c = serial polynomial c (bitsOf bs) := by
  induction bs generalizing c with
  | nil => rfl
  | cons b bs ih => rw [List.foldl_cons, ih, crcStep_eq, bitsOf_cons, serial_append]

/-- The checksum of a buffer that is not written to is the CRC-32. -/
theorem calculateCrc32_eq {bs : List Byte} (hne : bs ≠ []) :
    calculateCrc32 bs = some (crc32 bs) := by
  rw [calculateCrc32, if_neg hne, foldl_crcStep, crc32, remainder]
  exact congrArg some (BitVec.xor_allOnes (w := 32))

/-! ## The loop -/

/-- The loop of `RtCalculateCrc32`. -/
def crcLoop : Nat → Nat → Nat → (Nat → Byte) → Nat → Byte
  | 0, _, _, m => m
  | size + 1, buffer, crc, m =>
    let step := crcStep (BitVec.ofNat 32 (numAt m crc 4)) (m buffer)
    crcLoop size (buffer + 1) crc (putNum m crc 4 step.toNat)

/-- `RtCalculateCrc32` -/
def rtCalculateCrc32 (pt size crc : Nat) (m : Nat → Byte) : Status × (Nat → Byte) :=
  if pt = 0 ∨ size = 0 ∨ crc = 0 then (.invalidParameter, m)
  else
    let m := crcLoop size pt crc (putNum m crc 4 0xffffffff)
    (.success, putNum m crc 4 (numAt m crc 4 ^^^ 0xffffffff))

variable {m m' : Nat → Byte} {pt size crc : Nat}

/-- The bytes that the loop reads, with the accumulator in `*Crc`. -/
def fed (m : Nat → Byte) (crc : Nat) : Nat → Nat → BitVec 32 → List Byte
  | 0, _, _ => []
  | n + 1, buffer, c =>
    let b := putNum m crc 4 c.toNat buffer
    b :: fed m crc n (buffer + 1) (crcStep c b)

theorem putNum_putNum {n x y : Nat} : putNum (putNum m pt n x) pt n y = putNum m pt n y := by
  funext k
  by_cases hk : pt ≤ k ∧ k < pt + n
  · simp [putNum, putBytes, hk]
  · rw [putNum_of_out (by omega), putNum_of_out (by omega), putNum_of_out (by omega)]

theorem numAt_putNum_word (c : BitVec 32) : numAt (putNum m pt 4 c.toNat) pt 4 = c.toNat := by
  have hlt : c.toNat < 256 ^ 4 := c.isLt
  rw [numAt_putNum, Nat.mod_eq_of_lt hlt]

theorem crcLoop_eq (n buffer : Nat) (c : BitVec 32) :
    crcLoop n buffer crc (putNum m crc 4 c.toNat) =
      putNum m crc 4 ((fed m crc n buffer c).foldl crcStep c).toNat := by
  induction n generalizing buffer c with
  | zero => rfl
  | succ n ih =>
    have hread : BitVec.ofNat 32 (numAt (putNum m crc 4 c.toNat) crc 4) = c := by
      rw [numAt_putNum_word, BitVec.ofNat_toNat, BitVec.setWidth_eq]
    rw [crcLoop, hread, putNum_putNum, ih]
    rfl

@[simp] theorem length_fed (n buffer : Nat) (c : BitVec 32) : (fed m crc n buffer c).length = n := by
  induction n generalizing buffer c with
  | zero => rfl
  | succ n ih => rw [fed, List.length_cons, ih]

/-- Away from the output location the loop reads what the buffer held. -/
theorem getD_fed_of_out {n buffer : Nat} {c : BitVec 32} {i : Nat} (hi : i < n)
    (hout : buffer + i < crc ∨ crc + 4 ≤ buffer + i) :
    (fed m crc n buffer c).getD i 0 = m (buffer + i) := by
  induction n generalizing buffer c i with
  | zero => omega
  | succ n ih =>
    cases i with
    | zero => exact putNum_of_out hout
    | succ i =>
      rw [fed, List.getD_cons_succ, ih (by omega) (by omega), Nat.add_right_comm, Nat.add_assoc]

/-- The loop reads the buffer as it was, if each byte of it is read as it was while all before it
were. -/
theorem fed_eq_iff {n buffer : Nat} {c : BitVec 32} :
    fed m crc n buffer c = bytesAt m buffer n ↔
      ∀ i < n, putNum m crc 4 ((bytesAt m buffer i).foldl crcStep c).toNat (buffer + i) =
        m (buffer + i) := by
  induction n generalizing buffer c with
  | zero => simp [fed, bytesAt]
  | succ n ih =>
    rw [fed, bytesAt_succ, List.cons_eq_cons]
    constructor
    · rintro ⟨hfirst, hrest⟩ i hi
      cases i with
      | zero => exact hfirst
      | succ i =>
        rw [hfirst] at hrest
        have hnow := ih.mp hrest i (by omega)
        rw [bytesAt_succ, List.foldl_cons, ← Nat.add_assoc, Nat.add_right_comm]
        exact hnow
    · intro h
      have hfirst : putNum m crc 4 c.toNat buffer = m buffer := h 0 (by omega)
      refine ⟨hfirst, ?_⟩
      rw [hfirst]
      refine ih.mpr fun i hi => ?_
      have hnow := h (i + 1) (by omega)
      rwa [bytesAt_succ, List.foldl_cons, ← Nat.add_assoc, Nat.add_right_comm] at hnow

/-! ## What is stored -/

/-- The output location holds the CRC-32 of the bytes that the buffer held, and nothing beside it
has changed. -/
def Stores (m : Nat → Byte) (pt size crc : Nat) : Prop :=
  numAt (rtCalculateCrc32 pt size crc m).2 crc 4 = (crc32 (bytesAt m pt size)).toNat ∧
    ∀ k, k < crc ∨ crc + 4 ≤ k → (rtCalculateCrc32 pt size crc m).2 k = m k

/-- Each byte of the buffer that the output location covers held the byte that the accumulator has
in its place when the loop comes to it. -/
def HeldRemainder (m : Nat → Byte) (pt size crc : Nat) : Prop :=
  ∀ k < size, crc ≤ pt + k → pt + k < crc + 4 →
    m (pt + k) = (leBytes 4 (remainder (bytesAt m pt k)).toNat).getD (pt + k - crc) 0

theorem heldRemainder_of_apart (h : crc + 4 ≤ pt ∨ pt + size ≤ crc) :
    HeldRemainder m pt size crc := fun k hk _ _ => by omega

theorem fed_eq_bytesAt_iff :
    fed m crc size pt 0xffffffff = bytesAt m pt size ↔ HeldRemainder m pt size crc := by
  rw [fed_eq_iff]
  refine forall₂_congr fun k hk => ?_
  rw [foldl_crcStep, ← remainder]
  by_cases hin : crc ≤ pt + k ∧ pt + k < crc + 4
  · have hplace : pt + k = crc + (pt + k - crc) := by omega
    have hread : putNum m crc 4 (remainder (bytesAt m pt k)).toNat (pt + k) =
        (leBytes 4 (remainder (bytesAt m pt k)).toNat).getD (pt + k - crc) 0 := by
      conv_lhs => rw [hplace]
      exact putBytes_of_in (by rw [length_leBytes]; omega)
    rw [hread]
    exact ⟨fun h _ _ => h.symm, fun h => (h hin.1 hin.2).symm⟩
  · rw [putNum_of_out (by omega)]
    exact ⟨fun _ hle hlt => absurd ⟨hle, hlt⟩ hin, fun _ => rfl⟩

/-- What the call leaves. -/
theorem rtCalculateCrc32_eq (hpt : pt ≠ 0) (hsize : size ≠ 0) (hcrc : crc ≠ 0) :
    rtCalculateCrc32 pt size crc m =
      (.success, putNum m crc 4 (crc32 (fed m crc size pt 0xffffffff)).toNat) := by
  have hloop : crcLoop size pt crc (putNum m crc 4 (0xffffffff : BitVec 32).toNat) = _ :=
    crcLoop_eq size pt 0xffffffff
  rw [foldl_crcStep, ← remainder] at hloop
  have hnum : ∀ c : BitVec 32, c.toNat ^^^ 0xffffffff = (~~~c).toNat := by
    intro c
    rw [← BitVec.xor_allOnes, BitVec.toNat_xor]
    rfl
  rw [rtCalculateCrc32, if_neg (by simp [hpt, hsize, hcrc])]
  have hinit : (0xffffffff : Nat) = (0xffffffff : BitVec 32).toNat := rfl
  simp only
  rw [hinit, hloop, numAt_putNum_word, putNum_putNum, ← hinit, hnum]
  rfl

/-- Bytes that are read as another byte are four at the most, and those the CRC tells apart. -/
theorem stores_iff (hpt : pt ≠ 0) (hsize : size ≠ 0) (hcrc : crc ≠ 0) :
    Stores m pt size crc ↔ HeldRemainder m pt size crc := by
  rw [← fed_eq_bytesAt_iff, Stores, rtCalculateCrc32_eq hpt hsize hcrc, numAt_putNum_word]
  constructor
  · rintro ⟨hsame, -⟩
    have hserial : remainder (fed m crc size pt 0xffffffff) = remainder (bytesAt m pt size) :=
      BitVec.not_inj.mp (BitVec.eq_of_toNat_eq hsame)
    refine bytes_eq_of_serial msb_polynomial (by simp) (s := 8 * (crc - pt)) (fun i hdiff => ?_)
      hserial
    by_contra hout
    refine hdiff ?_
    by_cases hi : i / 8 < size
    · rw [getD_fed_of_out hi (by omega), getD_bytesAt hi]
    · rw [List.getD_eq_default _ _ (by simpa using hi), List.getD_eq_default _ _ (by simpa using hi)]
  · intro hsame
    rw [hsame]
    exact ⟨rfl, fun k hk => putNum_of_out hk⟩

/-- The pointer to the system table, with its checksum in place. -/
def initializeSystemTablePointerStructure (st mem : Nat) (m : Nat → Byte) : Nat → Byte :=
  let m := putNum m mem 8 0x5453595320494249
  let m := putNum m (mem + 8) 8 st
  let m := putNum m (mem + 16) 4 0
  (rtCalculateCrc32 mem 24 (mem + 16) m).2

/-! ## Tables -/

/-- `Hdr->HeaderSize` -/
def headerSize (hdr : Nat) (m : Nat → Byte) : Nat := numAt m (hdr + 12) 4

/-- `SetCrcAltSize`, with its local `Crc` at `stack`. -/
def setCrcAltSize (stack size hdr : Nat) (m : Nat → Byte) : Nat → Byte :=
  let m := putNum m (hdr + 16) 4 0
  let m := (rtCalculateCrc32 hdr size stack m).2
  putNum m (hdr + 16) 4 (numAt m stack 4)

/-- `SetCrc` -/
def setCrc (stack hdr : Nat) (m : Nat → Byte) : Nat → Byte :=
  setCrcAltSize stack (headerSize hdr m) hdr m

/-- `CheckCrcAltSize` -/
def checkCrcAltSize (stack maxSize size hdr : Nat) (m : Nat → Byte) : Bool × (Nat → Byte) :=
  if size = 0 then (false, m)
  else if maxSize ≠ 0 ∧ size > maxSize then (false, m)
  else
    let orgCrc := numAt m (hdr + 16) 4
    let m := putNum m (hdr + 16) 4 0
    let m := (rtCalculateCrc32 hdr size stack m).2
    let m := putNum m (hdr + 16) 4 orgCrc
    (orgCrc == numAt m stack 4, m)

/-- `CheckCrc` -/
def checkCrc (stack maxSize hdr : Nat) (m : Nat → Byte) : Bool × (Nat → Byte) :=
  checkCrcAltSize stack maxSize (headerSize hdr m) hdr m

/-- A local variable is no part of the caller's table. -/
structure Apart (stack size hdr : Nat) : Prop where
  hdr_ne : hdr ≠ 0
  stack_ne : stack ≠ 0
  size_ne : size ≠ 0
  header : stack + 4 ≤ hdr ∨ hdr + 24 ≤ stack
  table : stack + 4 ≤ hdr ∨ hdr + size ≤ stack

/-- The bytes that a table is summed over, its own checksum counted as zero. -/
def tableBytes (m : Nat → Byte) (size hdr : Nat) : List Byte :=
  bytesAt (putNum m (hdr + 16) 4 0) hdr size

/-- A table of the size is small enough and holds its checksum. -/
def Sealed (m : Nat → Byte) (maxSize size hdr : Nat) : Prop :=
  (maxSize = 0 ∨ size ≤ maxSize) ∧ numAt m (hdr + 16) 4 = (crc32 (tableBytes m size hdr)).toNat

variable {stack hdr maxSize : Nat}

theorem rtCalculateCrc32_of_apart (ha : Apart stack size hdr) :
    rtCalculateCrc32 hdr size stack m =
      (.success, putNum m stack 4 (crc32 (bytesAt m hdr size)).toNat) := by
  rw [rtCalculateCrc32_eq ha.hdr_ne ha.size_ne ha.stack_ne,
    fed_eq_bytesAt_iff.mpr (heldRemainder_of_apart ha.table)]

theorem checkCrcAltSize_iff (ha : Apart stack size hdr) :
    (checkCrcAltSize stack maxSize size hdr m).1 = true ↔ Sealed m maxSize size hdr := by
  have hheader := ha.header
  rw [checkCrcAltSize, if_neg ha.size_ne, Sealed]
  by_cases hmax : maxSize ≠ 0 ∧ size > maxSize
  · rw [if_pos hmax]
    simp
    omega
  · rw [if_neg hmax]
    simp only [rtCalculateCrc32_of_apart ha, beq_iff_eq]
    rw [numAt_putNum_of_disjoint (by omega), numAt_putNum_word, tableBytes]
    exact ⟨fun h => ⟨by omega, h⟩, fun h => h.2⟩

theorem setCrcAltSize_eq (ha : Apart stack size hdr) :
    setCrcAltSize stack size hdr m =
      putNum (putNum (putNum m (hdr + 16) 4 0) stack 4 (crc32 (tableBytes m size hdr)).toNat)
        (hdr + 16) 4 (crc32 (tableBytes m size hdr)).toNat := by
  rw [setCrcAltSize, rtCalculateCrc32_of_apart ha]
  simp only
  rw [numAt_putNum_word, tableBytes]

/-- Beside the field and the local variable the table stays as it was. -/
theorem setCrcAltSize_of_out (ha : Apart stack size hdr) {k : Nat}
    (hfield : k < hdr + 16 ∨ hdr + 20 ≤ k) (hstack : k < stack ∨ stack + 4 ≤ k) :
    setCrcAltSize stack size hdr m k = m k := by
  rw [setCrcAltSize_eq ha, putNum_of_out (by omega), putNum_of_out hstack, putNum_of_out (by omega)]

theorem headerSize_setCrcAltSize (ha : Apart stack size hdr) :
    headerSize hdr (setCrcAltSize stack size hdr m) = headerSize hdr m := by
  have hheader := ha.header
  exact numAt_congr fun i hi => setCrcAltSize_of_out ha (by omega) (by omega)

theorem tableBytes_congr (h : ∀ k < size, k < 16 ∨ 20 ≤ k → m (hdr + k) = m' (hdr + k)) :
    tableBytes m size hdr = tableBytes m' size hdr := by
  refine bytesAt_congr fun k hk => ?_
  by_cases hin : 16 ≤ k ∧ k < 20
  · have hplace : hdr + k = hdr + 16 + (k - 16) := by omega
    rw [hplace, putNum, putNum, putBytes_of_in (by simp; omega), putBytes_of_in (by simp; omega)]
  · rw [putNum_of_out (by omega), putNum_of_out (by omega)]
    exact h k hk (by omega)

/-- A table that was sealed is. -/
theorem sealed_setCrcAltSize (ha : Apart stack size hdr) :
    Sealed (setCrcAltSize stack size hdr m) maxSize size hdr ↔ maxSize = 0 ∨ size ≤ maxSize := by
  have htable := ha.table
  have hbytes : tableBytes (setCrcAltSize stack size hdr m) size hdr = tableBytes m size hdr :=
    tableBytes_congr fun k hk hout => setCrcAltSize_of_out ha (by omega) (by omega)
  have hfield : numAt (setCrcAltSize stack size hdr m) (hdr + 16) 4 =
      (crc32 (tableBytes m size hdr)).toNat := by
    rw [setCrcAltSize_eq ha, numAt_putNum_word]
  rw [Sealed, hbytes, hfield]
  exact and_iff_left rfl

/-- The table is changed within 32 consecutive bits, none of them in the checksum. -/
structure Burst (m m' : Nat → Byte) (size hdr s : Nat) : Prop where
  window : ∀ i < 8 * size, (m (hdr + i / 8)).getLsbD (i % 8) ≠ (m' (hdr + i / 8)).getLsbD (i % 8) →
    s ≤ i ∧ i < s + 32
  changed : ∃ k < size, m (hdr + k) ≠ m' (hdr + k)
  field : ∀ o < 4, m (hdr + 16 + o) = m' (hdr + 16 + o)

/-- A changed table is not sealed. -/
theorem Burst.not_sealed {s : Nat} (hb : Burst m m' size hdr s) (hs : Sealed m 0 size hdr) :
    ¬Sealed m' maxSize size hdr := by
  intro hs'
  have hnum : numAt m (hdr + 16) 4 = numAt m' (hdr + 16) 4 := numAt_congr hb.field
  have hserial : remainder (tableBytes m size hdr) = remainder (tableBytes m' size hdr) := by
    refine BitVec.not_inj.mp (BitVec.eq_of_toNat_eq ?_)
    rw [← crc32, ← crc32, ← hs.2, ← hs'.2, hnum]
  have hread : ∀ k, (tableBytes m size hdr).getD k 0 ≠ (tableBytes m' size hdr).getD k 0 →
      k < size ∧ (tableBytes m size hdr).getD k 0 = m (hdr + k) ∧
        (tableBytes m' size hdr).getD k 0 = m' (hdr + k) := by
    intro k hne
    have hk : k < size := by
      by_contra hk
      refine hne ?_
      rw [tableBytes, tableBytes, List.getD_eq_default _ _ (by simpa using hk),
        List.getD_eq_default _ _ (by simpa using hk)]
    rw [tableBytes, tableBytes, getD_bytesAt hk, getD_bytesAt hk] at hne ⊢
    by_cases hin : 16 ≤ k ∧ k < 20
    · have hplace : hdr + k = hdr + 16 + (k - 16) := by omega
      rw [hplace, putNum, putNum, putBytes_of_in (by simp; omega),
        putBytes_of_in (by simp; omega)] at hne
      exact absurd rfl hne
    · exact ⟨hk, putNum_of_out (by omega), putNum_of_out (by omega)⟩
  have hsame : tableBytes m size hdr = tableBytes m' size hdr := by
    refine bytes_eq_of_serial msb_polynomial (by simp [tableBytes]) (s := s) (fun i hne => ?_)
      hserial
    obtain ⟨hk, hm, hm'⟩ := hread (i / 8) fun h => hne (by rw [h])
    rw [hm, hm'] at hne
    exact hb.window i (by omega) hne
  obtain ⟨k, hk, hne⟩ := hb.changed
  have hbyte := congrArg (List.getD · k 0) hsame
  by_cases hin : 16 ≤ k ∧ k < 20
  · have hplace : hdr + k = hdr + 16 + (k - 16) := by omega
    exact hne (hplace ▸ hb.field (k - 16) (by omega))
  · simp only [tableBytes] at hbyte
    rw [getD_bytesAt hk, getD_bytesAt hk, putNum_of_out (by omega), putNum_of_out (by omega)]
      at hbyte
    exact hne hbyte

theorem check_of_burst {s : Nat} (ha : Apart stack size hdr)
    (hb : Burst (setCrcAltSize stack size hdr m) m' size hdr s) :
    (checkCrcAltSize stack maxSize size hdr m').1 = false := by
  rw [Bool.eq_false_iff, Ne, checkCrcAltSize_iff ha]
  exact hb.not_sealed ((sealed_setCrcAltSize ha).mpr (.inl rfl))

/-- The stored checksum is the buffer's exactly if the buffer held what the accumulator puts in its
place. The helpers, whose output is a local variable, seal every table, and see every burst; under
the size that the header says, one that changes this size is missed where the new size happens to
be sealed. -/
theorem rtCalculateCrc32_exact (m : Nat → Byte) (maxSize : Nat) {pt size crc stack n hdr : Nat}
    (hpt : pt ≠ 0) (hsize : size ≠ 0) (hcrc : crc ≠ 0) (ha : Apart stack n hdr) :
    (Stores m pt size crc ↔ HeldRemainder m pt size crc) ∧
      ((checkCrcAltSize stack maxSize n hdr (setCrcAltSize stack n hdr m)).1 = true ↔
        maxSize = 0 ∨ n ≤ maxSize) ∧
      (∀ m' s, Burst (setCrcAltSize stack n hdr m) m' n hdr s →
        (checkCrcAltSize stack maxSize n hdr m').1 = false) ∧
      (headerSize hdr m = n →
        ((checkCrc stack maxSize hdr (setCrc stack hdr m)).1 = true ↔
          maxSize = 0 ∨ n ≤ maxSize) ∧
        ∀ m' s, Burst (setCrc stack hdr m) m' n hdr s →
          (headerSize hdr m' ≠ 0 → Apart stack (headerSize hdr m') hdr) →
          ((checkCrc stack maxSize hdr m').1 = false ↔
            headerSize hdr m' = n ∨ headerSize hdr m' = 0 ∨
              ¬Sealed m' maxSize (headerSize hdr m') hdr)) := by
  have hcheck : (checkCrcAltSize stack maxSize n hdr (setCrcAltSize stack n hdr m)).1 = true ↔
      maxSize = 0 ∨ n ≤ maxSize := by
    rw [checkCrcAltSize_iff ha, sealed_setCrcAltSize ha]
  refine ⟨stores_iff hpt hsize hcrc, hcheck, fun m' s hb => check_of_burst ha hb, fun hn => ?_⟩
  rw [setCrc, hn]
  constructor
  · rw [checkCrc, headerSize_setCrcAltSize ha, hn]
    exact hcheck
  · intro m' s hb hnew
    rw [checkCrc]
    by_cases hsame : headerSize hdr m' = n
    · rw [hsame]
      exact iff_of_true (check_of_burst ha hb) (.inl rfl)
    · by_cases hzero : headerSize hdr m' = 0
      · rw [checkCrcAltSize, if_pos hzero]
        exact iff_of_true rfl (.inr (.inl hzero))
      · rw [Bool.eq_false_iff, Ne, checkCrcAltSize_iff (hnew hzero)]
        simp [hsame, hzero]

/-- The pointer structure's checksum is summed up over itself. -/
theorem initializeSystemTablePointerStructure_wrong :
    let m := putNum (putNum (putNum (fun _ => 0) 0x3c00000 8 0x5453595320494249)
      0x3c00008 8 0x3f7d000) 0x3c00010 4 0
    initializeSystemTablePointerStructure 0x3f7d000 0x3c00000 (fun _ => 0) =
        (rtCalculateCrc32 0x3c00000 24 0x3c00010 m).2 ∧ ¬Stores m 0x3c00000 24 0x3c00010 := by
  refine ⟨rfl, fun h => ?_⟩
  have hheld := (stores_iff (by decide) (by decide) (by decide)).mp h 16 (by decide) (by decide)
    (by decide)
  revert hheld
  decide +kernel

/-- A header of 24 bytes. -/
def header : Nat → Byte := putNum (fun _ => 0) 0x100c 4 24

/-- Two neighbouring bytes of it have changed. -/
theorem header_burst : Burst (setCrc 0x3000 0x1000 header)
    (putNum (setCrc 0x3000 0x1000 header) 0x1014 2 0xa55a) 24 0x1000 160 := by
  refine ⟨fun i hi hne => ?_, ⟨20, by decide, by decide +kernel⟩, fun o ho => ?_⟩
  · by_contra hout
    have hplace : 0x1000 + i / 8 < 0x1014 ∨ 0x1014 + 2 ≤ 0x1000 + i / 8 := by omega
    exact hne (by rw [putNum_of_out hplace])
  · rw [putNum_of_out (by omega)]

/-- A buffer of 40 bytes beside the header, and the header before and after the burst. -/
theorem rtCalculateCrc32_header :
    Stores header 0x2000 40 0x3000 ∧
      (checkCrc 0x3000 0 0x1000 (setCrc 0x3000 0x1000 header)).1 = true ∧
      (checkCrc 0x3000 0 0x1000
        (putNum (setCrc 0x3000 0x1000 header) 0x1014 2 0xa55a)).1 = false := by
  have hpt : 0x2000 ≠ 0 := by decide
  have hsize : 40 ≠ 0 := by decide
  have hcrc : 0x3000 ≠ 0 := by decide
  have hapart : Apart 0x3000 24 0x1000 := ⟨by decide, by decide, by decide, by decide, by decide⟩
  have hall := rtCalculateCrc32_exact header 0 hpt hsize hcrc hapart
  have hkept : headerSize 0x1000 (putNum (setCrc 0x3000 0x1000 header) 0x1014 2 0xa55a) = 24 := by
    decide +kernel
  have hheader := hall.2.2.2 (by decide +kernel)
  exact ⟨hall.1.mpr (heldRemainder_of_apart (by decide)), hheader.1.mpr (.inl rfl),
    (hheader.2 _ 160 header_burst fun _ => hkept ▸ hapart).mpr (.inl hkept)⟩

end EfiCore.Rt
