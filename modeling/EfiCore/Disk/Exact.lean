import EfiCore.Disk.Transfer
import Mathlib.Data.Nat.Factorization.Basic

/-! # Exactness of disk I/O

A transfer is exact when the bytes it moves are those of the request and nothing else changes, and
when the device is only asked for blocks it can deliver.  It is exact for every content of the
device if and only if the temporary buffer is large enough for it and the library divides its
offset correctly.
-/

namespace EfiCore.Disk

open EfiCore.Lib

/-- A request to the protocol that stays within the device. -/
structure Transfer where
  arch : Arch
  media : Media
  offset : Nat
  size : Nat
  /-- The address of the caller's buffer. -/
  buffer : Addr
  preData : PoolBlock
  offset_lt : offset < 2 ^ 64
  size_lt : size < 2 ^ arch.bits
  inside : offset + size ≤ media.size

namespace Transfer

variable (t : Transfer)

def context : Context := ⟨t.arch, t.media, t.buffer, t.preData⟩

/-- The block the code takes the request to begin in, and the offset in that block. -/
def begin : Nat × Nat := driverLibDivU64x32 t.arch t.offset t.media.blockSize

/-- Where on the device that is. -/
def start : Nat := t.begin.1 * t.media.blockSize + t.begin.2

/-- Reads deliver the bytes of the request. -/
def ReadsExactly : Prop :=
  ∀ content bytes, content.length = t.media.size → bytes.length = t.size →
    ∃ w, diskIoReadDisk t.arch t.media (some t.preData) t.media.mediaId t.offset t.buffer bytes
        ⟨content, []⟩ = .ok w ∧
      w.buffer = slice content t.offset t.size ∧ w.device.content = content ∧
      ∀ r ∈ w.device.requests, r.WellFormed t.media

/-- Writes change the bytes of the request and no others. -/
def WritesExactly : Prop :=
  t.media.readOnly = false → ∀ content bytes, content.length = t.media.size →
    bytes.length = t.size →
    ∃ w, diskIoWriteDisk t.arch t.media (some t.preData) t.media.mediaId t.offset t.buffer bytes
        ⟨content, []⟩ = .ok w ∧
      w.device.content = splice content t.offset bytes ∧ w.buffer = bytes ∧
      ∀ r ∈ w.device.requests, r.WellFormed t.media

/-- The temporary buffer is large enough and the offset is divided correctly. -/
structure Suits : Prop where
  fits : t.context.Fits t.size t.begin.2
  start : t.size = 0 ∨ t.start = t.offset

theorem begin_lt : t.begin.2 < t.media.blockSize :=
  (driverLibDivU64x32_spec t.arch t.media.blockSize_pos t.offset_lt).1

theorem start_le : t.start ≤ t.offset :=
  (driverLibDivU64x32_spec t.arch t.media.blockSize_pos t.offset_lt).2.1

end Transfer

/-! ## Large enough is exact -/

section Sufficient

variable {t : Transfer}

theorem Transfer.read_start (hfits : t.context.Fits t.size t.begin.2) {content bytes : List Byte}
    (hcontent : content.length = t.media.size) (hbytes : bytes.length = t.size) :
    ∃ w, diskIoReadDisk t.arch t.media (some t.preData) t.media.mediaId t.offset t.buffer bytes
        ⟨content, []⟩ = .ok w ∧
      w.buffer = slice content t.start t.size ∧ w.device.content = content ∧
      ∀ r ∈ w.device.requests, r.WellFormed t.media := by
  have hfilled : Work.Filled t.context content t.start t.size 0
      ⟨⟨content, []⟩, bytes, t.context.initialData⟩ :=
    { held := rfl
      requests := fun r hr => by cases hr
      data := t.context.length_initialData
      buffer := hbytes
      filled := by rw [slice_zero, slice_zero] }
  have hinside := t.inside
  have hstart := t.start_le
  obtain ⟨w, hw, h⟩ := hfilled.readFrom
    (show t.begin.1 * t.media.blockSize + t.begin.2 = t.start from rfl) t.begin_lt t.size_lt
    (show t.start + t.size ≤ t.media.size by omega) hcontent hfits
  refine ⟨w, ?_, ?_, h.held, h.requests⟩
  · rw [diskIoReadDisk, if_neg (fun hne => hne rfl)]
    exact hw
  · have hall := h.filled
    rwa [← h.buffer, slice_all, h.buffer] at hall

theorem Transfer.write_start (hfits : t.context.Fits t.size t.begin.2)
    (hwrite : t.media.readOnly = false) {content bytes : List Byte}
    (hcontent : content.length = t.media.size) (hbytes : bytes.length = t.size) :
    ∃ w, diskIoWriteDisk t.arch t.media (some t.preData) t.media.mediaId t.offset t.buffer bytes
        ⟨content, []⟩ = .ok w ∧
      w.device.content = splice content t.start bytes ∧ w.buffer = bytes ∧
      ∀ r ∈ w.device.requests, r.WellFormed t.media := by
  have hstored : Work.Stored t.context content bytes t.start 0
      ⟨⟨content, []⟩, bytes, t.context.initialData⟩ :=
    { held := by rw [slice_zero, splice_nil]
      requests := fun r hr => by cases hr
      data := t.context.length_initialData
      buffer := rfl }
  have hinside := t.inside
  have hstart := t.start_le
  have hbits := t.size_lt
  rw [← hbytes] at hfits hbits
  obtain ⟨w, hw, h⟩ := hstored.writeFrom
    (show t.begin.1 * t.media.blockSize + t.begin.2 = t.start from rfl) t.begin_lt hbits
    (show t.start + bytes.length ≤ t.media.size by omega) hcontent hfits
  refine ⟨w, ?_, ?_, h.buffer, h.requests⟩
  · rw [diskIoWriteDisk, hwrite, if_neg Bool.false_ne_true, if_neg (fun hne => hne rfl)]
    exact hw
  · have hall := h.held
    rwa [slice_all] at hall

end Sufficient

/-! ## Exact is large enough -/

namespace Work

variable {c : Context} {size : Nat} {w : Work}

/-- The buffers and the device have their sizes. -/
structure Sized (c : Context) (size : Nat) (w : Work) : Prop where
  content : w.device.content.length = c.media.size
  data : w.data.length = c.capacity
  buffer : w.buffer.length = size

theorem Sized.readData (h : w.Sized c size) (lba n : Nat) :
    Ensures (w.readData c lba n) fun w' =>
      w'.Sized c size ∧ n ≤ c.capacity ∧ n % c.media.blockSize = 0 := by
  rw [Work.readData, Device.readBlocks]
  by_cases hwf : (⟨.read, lba, n, c.dataAddress⟩ : Request).WellFormed c.media
  · rw [if_pos hwf]
    refine Ensures.ite (fun hcap => Ensures.ok ⟨⟨h.content, ?_, h.buffer⟩, ?_, hwf.whole⟩)
      fun _ => Ensures.error
    · have hinside := hwf.inside
      have hdata := h.data
      dsimp only at hinside
      rw [← h.content] at hinside
      rw [length_splice (by rw [length_slice hinside]; omega), hdata]
    · rw [← h.data]
      exact hcap
  · rw [if_neg hwf]
    exact Ensures.error

theorem Sized.copyOut (h : w.Sized c size) (source done n : Nat) :
    Ensures (w.copyOut source done n) fun w' => w'.Sized c size := by
  refine Ensures.ite (fun hfits => Ensures.ok ⟨h.content, h.data, ?_⟩) fun _ => Ensures.error
  rw [length_splice (by rw [length_slice hfits.1]; exact hfits.2), h.buffer]

theorem Sized.readBuffer (h : w.Sized c size) (lba n done : Nat) :
    Ensures (w.readBuffer c lba n done) fun w' => w'.Sized c size := by
  rw [Work.readBuffer, Device.readBlocks]
  by_cases hwf : (⟨.read, lba, n, c.buffer + done⟩ : Request).WellFormed c.media
  · rw [if_pos hwf]
    refine Ensures.ite (fun hfits => Ensures.ok ⟨h.content, h.data, ?_⟩) fun _ => Ensures.error
    have hinside := hwf.inside
    dsimp only at hinside
    rw [← h.content] at hinside
    rw [length_splice (by rw [length_slice hinside]; exact hfits), h.buffer]
  · rw [if_neg hwf]
    exact Ensures.error

/-- With a buffer of no size at all the loop does not end. -/
theorem readLoop_hangs (hzero : c.dataBufferSize = 0) {fuel lba done n : Nat} (hn : n ≠ 0)
    (h : w.Sized c size) : Ensures (w.readLoop c fuel lba done n) fun _ => False := by
  induction fuel generalizing lba done n w with
  | zero => exact Ensures.error
  | succ fuel ih =>
    rw [readLoop, hzero, if_neg (by omega)]
    refine Ensures.bind (h.readData lba 0) fun w1 h1 => ?_
    refine Ensures.bind (h1.1.copyOut 0 done 0) fun w2 h2 => ?_
    exact ih (by omega) h2

theorem Sized.readLoop (h : w.Sized c size) {fuel lba done n : Nat} (hn : n ≠ 0) :
    Ensures (w.readLoop c fuel lba done n) fun w' => w'.Sized c size ∧
      if n ≤ c.dataBufferSize then n ≤ c.capacity
      else c.dataBufferSize ≤ c.capacity ∧ c.dataBufferSize ≠ 0 ∧
        c.dataBufferSize % c.media.blockSize = 0 := by
  induction fuel generalizing lba done n w with
  | zero => exact Ensures.error
  | succ fuel ih =>
    by_cases hzero : c.dataBufferSize = 0
    · exact (readLoop_hangs hzero hn h).mono fun _ hfalse => hfalse.elim
    · rw [Work.readLoop]
      by_cases hlast : n ≤ c.dataBufferSize
      · rw [if_pos hlast, if_pos hlast]
        refine Ensures.bind (h.readData lba n) fun w1 h1 => ?_
        exact (h1.1.copyOut 0 done n).mono fun w2 h2 => ⟨h2, h1.2.1⟩
      · rw [if_neg hlast, if_neg hlast]
        refine Ensures.bind (h.readData lba c.dataBufferSize) fun w1 h1 => ?_
        refine Ensures.bind (h1.1.copyOut 0 done c.dataBufferSize) fun w2 h2 => ?_
        exact (ih h2 (by omega)).mono fun w3 h3 => ⟨h3.1, h1.2.1, hzero, h1.2.2⟩

/-- The size of the temporary buffer is a number of blocks only when its product did not wrap. -/
theorem dataBufferSize_eq (hzero : c.dataBufferSize ≠ 0)
    (hwhole : c.dataBufferSize % c.media.blockSize = 0) :
    c.dataBufferSize = c.media.blockSize * dataBufferBlockNum := by
  have hpos := c.media.blockSize_pos
  have hlt := c.media.blockSize_lt
  rw [Context.dataBufferSize, dataBufferBlockNum] at *
  generalize c.media.blockSize = bs at *
  obtain ⟨m, hm⟩ := Nat.dvd_of_mod_eq_zero hwhole
  have hdiv := Nat.div_add_mod (bs * 64) (2 ^ 32)
  have hle := Nat.mod_le (bs * 64) (2 ^ 32)
  have hmle : m ≤ 64 := by
    rw [hm] at hle
    exact Nat.le_of_mul_le_mul_left hle hpos
  by_contra hne
  -- the blocks that are missing are a multiple of 2^32 bytes, and fewer than 64
  obtain ⟨j, hj⟩ : ∃ j, 64 = m + j := ⟨64 - m, by omega⟩
  have hmissing : bs * j = 2 ^ 32 * (bs * 64 / 2 ^ 32) := by
    rw [hm] at hdiv
    have hsplit : bs * 64 = bs * m + bs * j := by rw [hj, Nat.mul_add]
    omega
  have hjpos : j ≠ 0 := by
    rintro rfl
    rw [Nat.add_zero] at hj
    apply hne
    rw [hm, hj]
  have hmpos : m ≠ 0 := by
    rintro rfl
    exact hzero hm
  obtain ⟨a, r, hodd, hjr⟩ := Nat.exists_eq_two_pow_mul_odd hjpos
  have ha : a ≤ 5 := by
    by_contra hlarge
    have hpow : 2 ^ 6 ≤ 2 ^ a := Nat.pow_le_pow_right (by decide) (by omega)
    have hrpos : 0 < r := Odd.pos hodd
    have : 2 ^ a ≤ 2 ^ a * r := Nat.le_mul_of_pos_right _ hrpos
    omega
  have hdvd : 2 ^ 27 ∣ bs := by
    have hsplit : 2 ^ a * (bs * r) = 2 ^ a * (2 ^ (32 - a) * (bs * 64 / 2 ^ 32)) := by
      have hpow : 2 ^ a * 2 ^ (32 - a) = 2 ^ 32 := by
        rw [← Nat.pow_add]
        congr 1
        omega
      rw [← Nat.mul_assoc, ← Nat.mul_assoc, hpow, ← hmissing, hjr, Nat.mul_comm (2 ^ a) bs,
        Nat.mul_assoc]
    have hcancel := Nat.eq_of_mul_eq_mul_left (Nat.two_pow_pos a) hsplit
    have hdvd' : 2 ^ (32 - a) ∣ bs * r := ⟨_, hcancel⟩
    have hcoprime : Nat.Coprime (2 ^ (32 - a)) r :=
      Nat.Coprime.pow_left _ (Nat.coprime_two_left.mpr hodd)
    exact Nat.dvd_trans (Nat.pow_dvd_pow 2 (by omega)) (hcoprime.dvd_of_dvd_mul_right hdvd')
  obtain ⟨k, rfl⟩ := hdvd
  apply hzero
  omega

theorem Sized.readAligned (h : w.Sized c size) {lba done n : Nat} :
    Ensures (w.readAligned c lba done n) fun w' => w'.Sized c size ∧
      (n ≠ 0 → c.isBufferAligned done = false →
        if n ≤ c.dataBufferSize then n ≤ c.capacity
        else c.dataBufferSize ≤ c.capacity ∧
          c.dataBufferSize = c.media.blockSize * dataBufferBlockNum) := by
  rw [Work.readAligned]
  refine Ensures.ite (fun hn => Ensures.ok ⟨h, fun hne => absurd hn hne⟩) fun hn => ?_
  refine Ensures.ite (fun haligned => ?_) fun _ => ?_
  · refine (h.readBuffer lba n done).mono fun w' h' => ⟨h', fun _ hnot => ?_⟩
    rw [haligned] at hnot
    cases hnot
  · refine (h.readLoop hn).mono fun w' h' => ⟨h'.1, fun _ _ => ?_⟩
    have hcap := h'.2
    split
    · rename_i hlast
      rwa [if_pos hlast] at hcap
    · rename_i hlast
      rw [if_neg hlast] at hcap
      exact ⟨hcap.1, dataBufferSize_eq hcap.2.1 hcap.2.2⟩

theorem Sized.readRest (h : w.Sized c size) (hsize : size < 2 ^ c.arch.bits) {lba done : Nat} :
    Ensures (w.readRest c lba done) fun _ => FitsRest c (size - done) done := by
  have hpos := c.media.blockSize_pos
  rw [Work.readRest, h.buffer, div_size c.media (by omega)]
  dsimp only
  rw [aligned_eq _ hpos]
  refine Ensures.bind h.readAligned fun w1 h1 => ?_
  rw [Work.readOverRun]
  refine Ensures.ite (fun hlast => ?_) fun hlast => Ensures.ok ⟨fun hne => absurd hne hlast, h1.2⟩
  refine Ensures.bind (h1.1.readData _ _) fun w2 h2 => ?_
  exact (h2.1.copyOut _ _ _).mono fun w3 _ => ⟨fun _ => h2.2.1, h1.2⟩

theorem Sized.readFrom (h : w.Sized c size) (hsize : size < 2 ^ c.arch.bits)
    (lba underRun : Nat) :
    Ensures (w.readFrom c lba underRun) fun _ => c.Fits size underRun := by
  have hpos := c.media.blockSize_pos
  rw [Work.readFrom]
  refine Ensures.ite (fun hunder => ?_) fun hunder => ?_
  · rw [h.buffer]
    have hfirst : c.first size underRun = min (c.media.blockSize - underRun) size := if_neg hunder
    refine Ensures.bind (h.readData lba _) fun w1 h1 => ?_
    refine Ensures.bind (h1.1.copyOut _ _ _) fun w2 h2 => ?_
    rw [h2.buffer]
    refine Ensures.ite (fun hdone => Ensures.ok ⟨fun _ => h1.2.1, fun hmiddle => ?_⟩) fun hdone => ?_
    · rw [Context.middle, hfirst, hdone, Nat.zero_sub] at hmiddle
      exact absurd rfl hmiddle
    · rw [← hfirst]
      exact (h2.readRest hsize).mono fun w3 h3 => ⟨fun _ => h1.2.1, h3.blocks⟩
  · have hzero : underRun = 0 := not_not.mp hunder
    have hfirst : c.first size underRun = 0 := if_pos hzero
    rw [← hfirst]
    exact (h.readRest hsize).mono fun w3 h3 =>
      ⟨fun hor => h3.block (hor.resolve_left hunder), h3.blocks⟩

end Work

namespace Transfer

variable {t : Transfer}

theorem suits_of_readsExactly (h : t.ReadsExactly) : t.Suits := by
  have hstart := t.start_le
  have hinside := t.inside
  -- a device with a single byte on, the first of the request
  have hcontent : ((List.replicate t.media.size (0 : Byte)).set t.offset 1).length =
      t.media.size := by rw [List.length_set, List.length_replicate]
  have hbytes : (List.replicate t.size (0 : Byte)).length = t.size := List.length_replicate
  obtain ⟨w, hw, hbuffer, -⟩ := h _ _ hcontent hbytes
  have hsized : Work.Sized t.context t.size
      ⟨⟨(List.replicate t.media.size (0 : Byte)).set t.offset 1, []⟩, List.replicate t.size 0,
        t.context.initialData⟩ := ⟨hcontent, t.context.length_initialData, hbytes⟩
  have hfits : t.context.Fits t.size t.begin.2 := by
    apply hsized.readFrom t.size_lt t.begin.1 t.begin.2 w
    rw [diskIoReadDisk, if_neg (fun hne => hne rfl)] at hw
    exact hw
  refine ⟨hfits, ?_⟩
  obtain ⟨w', hw', hbuffer', -⟩ := read_start hfits hcontent hbytes
  rw [hw] at hw'
  cases hw'
  rw [hbuffer] at hbuffer'
  by_contra hnot
  rw [not_or] at hnot
  have hfirst := congrArg (fun l => l[0]?) hbuffer'
  simp only [getElem?_slice, Nat.add_zero] at hfirst
  rw [if_pos (by omega), if_pos (by omega), List.getElem?_set_self (by
    rw [List.length_replicate]
    omega), List.getElem?_set_ne (fun heq => hnot.2 heq.symm), List.getElem?_replicate,
    if_pos (by omega)] at hfirst
  cases hfirst

theorem readsExactly_of_suits (h : t.Suits) : t.ReadsExactly := by
  intro content bytes hcontent hbytes
  obtain ⟨w, hw, hbuffer, hrest⟩ := read_start h.fits hcontent hbytes
  refine ⟨w, hw, ?_, hrest⟩
  rcases h.start with hzero | hstart
  · rw [hbuffer, hzero, slice_zero, slice_zero]
  · rw [hbuffer, hstart]

theorem writesExactly_of_suits (h : t.Suits) : t.WritesExactly := by
  intro hwrite content bytes hcontent hbytes
  obtain ⟨w, hw, hheld, hrest⟩ := write_start h.fits hwrite hcontent hbytes
  refine ⟨w, hw, ?_, hrest⟩
  rcases h.start with hzero | hstart
  · rw [hzero, List.length_eq_zero_iff] at hbytes
    rw [hheld, hbytes, splice_nil, splice_nil]
  · rw [hheld, hstart]

theorem exact_iff_suits (t : Transfer) : t.ReadsExactly ∧ t.WritesExactly ↔ t.Suits :=
  ⟨fun h => suits_of_readsExactly h.1,
    fun h => ⟨readsExactly_of_suits h, writesExactly_of_suits h⟩⟩

end Transfer

/-- A device with one block of 64 MB: `BlockSize * DATA_BUFFER_BLOCK_NUM` is 0 in 32 bits. -/
def largeBlock : Media where
  mediaId := 0
  readOnly := false
  blockSize := 2 ^ 26
  ioAlign := 1
  lastBlock := 0
  blockSize_pos := by decide
  blockSize_lt := by decide
  ioAlign_eq := .inr ⟨0, by decide, rfl⟩
  lastBlock_lt := by decide

/-- One byte out of its middle. -/
def largeBlockByte : Transfer where
  arch := .efi64
  media := largeBlock
  offset := 1
  size := 1
  buffer := 0x100000
  preData := ⟨0x200000, fun _ => 0⟩
  offset_lt := by decide
  size_lt := by decide
  inside := by decide

theorem not_alwaysExact : ¬ ∀ t : Transfer, t.ReadsExactly ∧ t.WritesExactly := by
  intro h
  have hfits := (Transfer.suits_of_readsExactly (h largeBlockByte).1).fits
  exact absurd hfits (by decide)

end EfiCore.Disk
