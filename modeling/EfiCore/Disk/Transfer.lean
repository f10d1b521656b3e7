import EfiCore.Disk.DiskIo
import EfiCore.Lib.Ensures

/-! # Transfers through the temporary buffer

What one step of a transfer does to the part of the request that is already done: for a read,
`Filled`; for a write, `Stored`.  Both hold from the first byte to the last when the temporary
buffer is large enough, which `Context.Fits` says; and a transfer that comes to its end shows that
it was.
-/

namespace EfiCore.Disk

open EfiCore.Lib

namespace Context

variable (c : Context)

/-- How much of a request lies in the block it begins in, if it does not begin with that block. -/
def first (size underRun : Nat) : Nat :=
  if underRun = 0 then 0 else min (c.media.blockSize - underRun) size

/-- How much of it lies in the block it ends in. -/
def last (size underRun : Nat) : Nat := (size - c.first size underRun) % c.media.blockSize

/-- The whole blocks in between. -/
def middle (size underRun : Nat) : Nat :=
  size - c.first size underRun - c.last size underRun

/-- The temporary buffer is large enough for what a request needs of it. -/
structure Fits (size underRun : Nat) : Prop where
  block : underRun ≠ 0 ∨ c.last size underRun ≠ 0 → c.media.blockSize ≤ c.capacity
  blocks : c.middle size underRun ≠ 0 → c.isBufferAligned (c.first size underRun) = false →
    if c.middle size underRun ≤ c.dataBufferSize then c.middle size underRun ≤ c.capacity
    else c.dataBufferSize ≤ c.capacity ∧
      c.dataBufferSize = c.media.blockSize * dataBufferBlockNum

instance (size underRun : Nat) : Decidable (c.Fits size underRun) :=
  decidable_of_iff
    ((underRun ≠ 0 ∨ c.last size underRun ≠ 0 → c.media.blockSize ≤ c.capacity) ∧
      (c.middle size underRun ≠ 0 → c.isBufferAligned (c.first size underRun) = false →
        if c.middle size underRun ≤ c.dataBufferSize then c.middle size underRun ≤ c.capacity
        else c.dataBufferSize ≤ c.capacity ∧
          c.dataBufferSize = c.media.blockSize * dataBufferBlockNum))
    ⟨fun h => ⟨h.1, h.2⟩, fun h => ⟨h.block, h.blocks⟩⟩

variable {c}

theorem aligned_of_isBufferAligned {done : Nat} (h : c.isBufferAligned done = true) :
    c.media.ioAlign ≤ 1 ∨ (c.buffer + done) % c.media.ioAlign = 0 := by
  rw [isBufferAligned, Bool.or_eq_true, decide_eq_true_eq, decide_eq_true_eq] at h
  rcases h with h | h
  · exact .inl h
  · rcases c.media.ioAlign_eq with hzero | ⟨k, -, hk⟩
    · exact .inl (by omega)
    · rw [hk, Nat.and_two_pow_sub_one_eq_mod] at h
      rw [hk]
      exact .inr h

/-- The next multiple of `u`. -/
theorem add_sub_mod (x : Nat) {u : Nat} (hu : 0 < u) : x + (u - x % u) = u * (x / u + 1) := by
  have hrem := Nat.mod_lt x hu
  have hmul := Nat.div_add_mod x u
  rw [Nat.mul_add, Nat.mul_one]
  omega

theorem dataAddress_aligned (c : Context) :
    c.media.ioAlign ≤ 1 ∨ c.dataAddress % c.media.ioAlign = 0 := by
  by_cases hone : 1 < c.media.ioAlign
  · rcases c.media.ioAlign_eq with hzero | ⟨k, hk, heq⟩
    · omega
    · right
      rw [dataAddress, dataOffset, if_pos hone, heq, Nat.and_two_pow_sub_one_eq_mod]
      have hbits : k ≤ c.arch.bits := by
        cases c.arch with
        | efi32 => exact Nat.le_of_lt hk
        | efi64 => exact Nat.le_trans (Nat.le_of_lt hk) (by decide)
      rw [Nat.mod_mod_of_dvd _ (Nat.pow_dvd_pow 2 hbits)]
      rw [add_sub_mod _ (Nat.two_pow_pos k), Nat.mul_mod_right]
  · exact .inl (by omega)

@[simp] theorem length_initialData (c : Context) : c.initialData.length = c.capacity := by
  rw [initialData, List.length_map, List.length_range]

end Context

namespace Work

variable {c : Context} {content : List Byte} {start size done : Nat} {w : Work}

/-- A read of whole blocks into the temporary buffer. -/
theorem readData_eq {lba n : Nat} (hwhole : n % c.media.blockSize = 0)
    (hinside : lba * c.media.blockSize + n ≤ c.media.size)
    (hsize : w.device.content.length = c.media.size) (hcap : n ≤ w.data.length) :
    (⟨.read, lba, n, c.dataAddress⟩ : Request).WellFormed c.media ∧
      w.readData c lba n = .ok
        { w with
          device := w.device.issue ⟨.read, lba, n, c.dataAddress⟩
          data := splice w.data 0 (slice w.device.content (lba * c.media.blockSize) n) } ∧
      slice (splice w.data 0 (slice w.device.content (lba * c.media.blockSize) n)) 0 n =
        slice w.device.content (lba * c.media.blockSize) n := by
  have hwf : (⟨.read, lba, n, c.dataAddress⟩ : Request).WellFormed c.media :=
    ⟨hwhole, hinside, c.dataAddress_aligned⟩
  have hn : (slice w.device.content (lba * c.media.blockSize) n).length = n :=
    length_slice (by omega)
  refine ⟨hwf, ?_, ?_⟩
  · rw [Work.readData, Device.readBlocks, if_pos hwf]
    exact if_pos hcap
  · have hfits : 0 + (slice w.device.content (lba * c.media.blockSize) n).length ≤
        w.data.length := by omega
    have hslice := slice_splice hfits
    rwa [hn] at hslice

/-! ## Reading -/

/-- The first `done` bytes of a read of the bytes from `start` on are in the caller's buffer. -/
structure Filled (c : Context) (content : List Byte) (start size done : Nat) (w : Work) : Prop where
  held : w.device.content = content
  requests : ∀ r ∈ w.device.requests, r.WellFormed c.media
  data : w.data.length = c.capacity
  buffer : w.buffer.length = size
  filled : slice w.buffer 0 done = slice content start done

theorem Filled.readData (h : w.Filled c content start size done) {lba n : Nat}
    (hwhole : n % c.media.blockSize = 0) (hinside : lba * c.media.blockSize + n ≤ c.media.size)
    (hsize : content.length = c.media.size) (hcap : n ≤ c.capacity) :
    ∃ w', w.readData c lba n = .ok w' ∧ w'.Filled c content start size done ∧
      slice w'.data 0 n = slice content (lba * c.media.blockSize) n := by
  obtain ⟨hwf, hread, hslice⟩ := readData_eq (w := w) hwhole hinside (h.held ▸ hsize)
    (show n ≤ w.data.length by rw [h.data]; exact hcap)
  have hcapacity := h.data
  have hcontent := h.held
  refine ⟨_, hread, ?_, ?_⟩
  · exact
      { held := h.held
        requests := by
          intro r hr
          rcases List.mem_cons.mp hr with rfl | hr
          · exact hwf
          · exact h.requests r hr
        data := (length_splice (by
          rw [length_slice (by rw [hcontent]; omega)]
          omega)).trans h.data
        buffer := h.buffer
        filled := h.filled }
  · rw [← h.held]
    exact hslice

theorem Filled.copyOut (h : w.Filled c content start size done) {source n : Nat}
    (hdata : slice w.data source n = slice content (start + done) n)
    (hcap : source + n ≤ c.capacity) (hsize : done + n ≤ size) :
    ∃ w', w.copyOut source done n = .ok w' ∧ w'.Filled c content start size (done + n) := by
  have hcap' : source + n ≤ w.data.length := by rw [h.data]; exact hcap
  have hn : (slice w.data source n).length = n := length_slice hcap'
  have hfits : done + (slice w.data source n).length ≤ w.buffer.length := by
    rw [hn, h.buffer]
    exact hsize
  refine ⟨_, if_pos ⟨hcap', by rw [h.buffer]; exact hsize⟩, ?_⟩
  have hslice := slice_splice hfits
  rw [hn] at hslice
  exact
    { held := h.held
      requests := h.requests
      data := h.data
      buffer := (length_splice hfits).trans h.buffer
      filled := by
        rw [slice_append_slice, slice_append_slice, Nat.zero_add, hslice,
          slice_splice_of_disjoint hfits (.inl (by omega)), h.filled, hdata] }

theorem Filled.readBuffer (h : w.Filled c content start size done) {lba n : Nat}
    (hstart : lba * c.media.blockSize = start + done) (hwhole : n % c.media.blockSize = 0)
    (hinside : start + done + n ≤ c.media.size) (hcontent : content.length = c.media.size)
    (hsize : done + n ≤ size) (haligned : c.isBufferAligned done = true) :
    ∃ w', w.readBuffer c lba n done = .ok w' ∧ w'.Filled c content start size (done + n) := by
  have hwf : (⟨.read, lba, n, c.buffer + done⟩ : Request).WellFormed c.media :=
    ⟨hwhole, by rw [hstart]; exact hinside, Context.aligned_of_isBufferAligned haligned⟩
  have hn : (slice w.device.content (lba * c.media.blockSize) n).length = n := by
    rw [length_slice]
    rw [h.held]
    omega
  have hfits : done + (slice w.device.content (lba * c.media.blockSize) n).length ≤
      w.buffer.length := by
    rw [hn, h.buffer]
    exact hsize
  refine ⟨_, by
    rw [Work.readBuffer, Device.readBlocks, if_pos hwf]
    exact if_pos (by rw [h.buffer]; exact hsize), ?_⟩
  have hslice := slice_splice hfits
  rw [hn] at hslice
  exact
    { held := h.held
      requests := by
        intro r hr
        rcases List.mem_cons.mp hr with rfl | hr
        · exact hwf
        · exact h.requests r hr
      data := h.data
      buffer := (length_splice hfits).trans h.buffer
      filled := by
        rw [slice_append_slice, slice_append_slice, Nat.zero_add, hslice,
          slice_splice_of_disjoint hfits (.inl (by omega)), h.filled, h.held, hstart] }

theorem Filled.readLoop {fuel lba n : Nat} (h : w.Filled c content start size done)
    (hfuel : n < fuel) (hstart : lba * c.media.blockSize = start + done) (hn : n ≠ 0)
    (hwhole : n % c.media.blockSize = 0) (hinside : start + done + n ≤ c.media.size)
    (hcontent : content.length = c.media.size) (hsize : done + n ≤ size)
    (hcap : if n ≤ c.dataBufferSize then n ≤ c.capacity
      else c.dataBufferSize ≤ c.capacity ∧
        c.dataBufferSize = c.media.blockSize * dataBufferBlockNum) :
    ∃ w', w.readLoop c fuel lba done n = .ok w' ∧ w'.Filled c content start size (done + n) := by
  induction fuel generalizing lba done n w with
  | zero => omega
  | succ fuel ih =>
    rw [Work.readLoop]
    by_cases hlast : n ≤ c.dataBufferSize
    · rw [if_pos hlast] at hcap ⊢
      obtain ⟨w1, hw1, h1, hdata⟩ := h.readData hwhole (by rw [hstart]; exact hinside) hcontent hcap
      obtain ⟨w2, hw2, h2⟩ := h1.copyOut (by rw [hdata, hstart])
        (by rw [Nat.zero_add]; exact hcap) hsize
      refine ⟨w2, ?_, h2⟩
      rw [hw1]
      exact hw2
    · rw [if_neg hlast] at hcap ⊢
      obtain ⟨hcap, hD⟩ := hcap
      have hpos := c.media.blockSize_pos
      have hlarge : c.media.blockSize ≤ c.dataBufferSize := by
        rw [hD, dataBufferBlockNum]
        omega
      have hDwhole : c.dataBufferSize % c.media.blockSize = 0 := by
        rw [hD, Nat.mul_mod_right]
      have hrest : (n - c.dataBufferSize) % c.media.blockSize = 0 :=
        Nat.sub_mod_eq_zero_of_mod_eq (by rw [hwhole, hDwhole])
      have hnext : (lba + dataBufferBlockNum) * c.media.blockSize =
          start + (done + c.dataBufferSize) := by
        rw [Nat.add_mul, hstart, hD, Nat.mul_comm dataBufferBlockNum, Nat.add_assoc]
      -- there is a block of the device behind the ones that are read now
      have hlba : lba + dataBufferBlockNum < 2 ^ 64 := by
        have hblock : (lba + dataBufferBlockNum) * c.media.blockSize <
            (c.media.lastBlock + 1) * c.media.blockSize := by
          rw [hnext, ← Media.size]
          omega
        have := Nat.lt_of_mul_lt_mul_right hblock
        have := c.media.lastBlock_lt
        omega
      obtain ⟨w1, hw1, h1, hdata⟩ := h.readData hDwhole
        (by rw [hstart]; omega) hcontent hcap
      obtain ⟨w2, hw2, h2⟩ := h1.copyOut (by rw [hdata, hstart])
        (by rw [Nat.zero_add]; exact hcap) (by omega)
      obtain ⟨w3, hw3, h3⟩ := ih h2 (by omega) hnext (by omega) hrest (by omega) (by omega) (by
        split
        · omega
        · exact ⟨hcap, hD⟩)
      rw [show done + c.dataBufferSize + (n - c.dataBufferSize) = done + n by omega] at h3
      refine ⟨w3, ?_, h3⟩
      rw [hw1]
      simp only [bind, Except.bind]
      rw [hw2, Nat.mod_eq_of_lt hlba]
      exact hw3

/-- A size of the caller's is divided exactly on either architecture. -/
theorem div_size {A : Arch} {n : Nat} (m : Media) (hn : n < 2 ^ A.bits) :
    driverLibDivU64x32 A n m.blockSize = (n / m.blockSize, n % m.blockSize) := by
  have hlarge : n < 2 ^ 64 := by
    cases A with
    | efi32 => exact Nat.lt_trans hn (by decide)
    | efi64 => exact hn
  apply (driverLibDivU64x32_spec A m.blockSize_pos hlarge).2.2
  cases A with
  | efi32 => exact .inr (.inr hn)
  | efi64 => exact .inl rfl

/-- A block that holds a byte of the device has a number of 64 bits. -/
theorem lba_lt {m : Media} {lba off : Nat} (hle : lba * m.blockSize ≤ off) (hlt : off < m.size) :
    lba < 2 ^ 64 := by
  have hblock : lba * m.blockSize < (m.lastBlock + 1) * m.blockSize := Nat.lt_of_le_of_lt hle hlt
  have := Nat.lt_of_mul_lt_mul_right hblock
  have := m.lastBlock_lt
  omega

/-- The block a byte of the device is in lies in the device. -/
theorem block_inside {m : Media} {lba off : Nat} (hle : lba * m.blockSize ≤ off)
    (hlt : off < m.size) : lba * m.blockSize + m.blockSize ≤ m.size := by
  have hblock : lba * m.blockSize < (m.lastBlock + 1) * m.blockSize := Nat.lt_of_le_of_lt hle hlt
  have hlba := Nat.lt_of_mul_lt_mul_right hblock
  have hmul := Nat.mul_le_mul_right m.blockSize hlba
  rw [Nat.succ_mul] at hmul
  exact hmul

theorem Filled.readAligned {lba n : Nat} (h : w.Filled c content start size done)
    (hstart : lba * c.media.blockSize = start + done)
    (hwhole : n % c.media.blockSize = 0) (hinside : start + done + n ≤ c.media.size)
    (hcontent : content.length = c.media.size) (hsize : done + n ≤ size)
    (hcap : n ≠ 0 → c.isBufferAligned done = false →
      if n ≤ c.dataBufferSize then n ≤ c.capacity
      else c.dataBufferSize ≤ c.capacity ∧
        c.dataBufferSize = c.media.blockSize * dataBufferBlockNum) :
    ∃ w', w.readAligned c lba done n = .ok w' ∧ w'.Filled c content start size (done + n) := by
  rw [Work.readAligned]
  by_cases hn : n = 0
  · rw [if_pos hn, hn]
    exact ⟨w, rfl, h⟩
  · rw [if_neg hn]
    cases haligned : c.isBufferAligned done with
    | true =>
      rw [if_pos rfl]
      exact h.readBuffer hstart hwhole hinside hcontent hsize haligned
    | false =>
      rw [if_neg Bool.false_ne_true]
      exact h.readLoop (Nat.lt_succ_self n) hstart hn hwhole hinside hcontent hsize
        (hcap hn haligned)

theorem Filled.readOverRun {lba n : Nat} (h : w.Filled c content start size done)
    (hstart : lba * c.media.blockSize = start + done) (hn : n < c.media.blockSize)
    (hinside : start + done + n ≤ c.media.size) (hcontent : content.length = c.media.size)
    (hsize : done + n ≤ size) (hcap : n ≠ 0 → c.media.blockSize ≤ c.capacity) :
    ∃ w', w.readOverRun c (lba % 2 ^ 64) done n = .ok w' ∧
      w'.Filled c content start size (done + n) := by
  rw [Work.readOverRun]
  by_cases hzero : n = 0
  · rw [if_neg (fun hne => hne hzero), hzero]
    exact ⟨w, rfl, h⟩
  · rw [if_pos hzero]
    have hlba := lba_lt (Nat.le_of_eq hstart) (by omega)
    have hblock := block_inside (Nat.le_of_eq hstart) (by omega)
    obtain ⟨w1, hw1, h1, hdata⟩ := h.readData (Nat.mod_self _) hblock hcontent (hcap hzero)
    -- of the block only the start is wanted
    have hprefix : slice w1.data 0 n = slice content (start + done) n := by
      have hslice := congrArg (fun l => slice l 0 n) hdata
      have hle : 0 + n ≤ c.media.blockSize := by omega
      simpa only [slice_slice _ hle, Nat.add_zero, hstart] using hslice
    obtain ⟨w2, hw2, h2⟩ := h1.copyOut hprefix (by
      have := hcap hzero
      omega) hsize
    refine ⟨w2, ?_, h2⟩
    rw [Nat.mod_eq_of_lt hlba, hw1]
    exact hw2

/-- What `Context.Fits` asks for the blocks of a request behind the first `done` bytes. -/
structure FitsRest (c : Context) (rest done : Nat) : Prop where
  block : rest % c.media.blockSize ≠ 0 → c.media.blockSize ≤ c.capacity
  blocks : rest - rest % c.media.blockSize ≠ 0 → c.isBufferAligned done = false →
    if rest - rest % c.media.blockSize ≤ c.dataBufferSize then
      rest - rest % c.media.blockSize ≤ c.capacity
    else c.dataBufferSize ≤ c.capacity ∧
      c.dataBufferSize = c.media.blockSize * dataBufferBlockNum

/-- How the rest of a request falls into blocks. -/
theorem rest_blocks (rest : Nat) {bs : Nat} (hpos : 0 < bs) :
    (rest - rest % bs) % bs = 0 ∧ (bs ≤ rest ↔ rest - rest % bs ≠ 0) ∧
      rest / bs * bs = rest - rest % bs ∧ rest % bs ≤ rest := by
  have hmod := Nat.mod_le rest bs
  have hlt := Nat.mod_lt rest hpos
  have hdiv := Nat.div_add_mod' rest bs
  refine ⟨Nat.sub_mod_eq_zero_of_mod_eq (by rw [Nat.mod_mod]), ?_, by omega, hmod⟩
  constructor
  · intro hle
    omega
  · intro hne
    by_contra hlt'
    rw [Nat.mod_eq_of_lt (by omega)] at hne
    omega

theorem aligned_eq (rest : Nat) {bs : Nat} (hpos : 0 < bs) :
    (if bs ≤ rest then rest - rest % bs else 0) = rest - rest % bs := by
  split
  · rfl
  · rename_i hsmall
    by_contra hne
    exact hsmall ((rest_blocks rest hpos).2.1.mpr fun hzero => hne hzero.symm)

theorem Filled.readRest {lba : Nat} (h : w.Filled c content start size done)
    (hstart : lba * c.media.blockSize = start + done) (hdone : done ≤ size)
    (hbits : size < 2 ^ c.arch.bits) (hinside : start + size ≤ c.media.size)
    (hcontent : content.length = c.media.size) (hfits : FitsRest c (size - done) done) :
    ∃ w', w.readRest c lba done = .ok w' ∧ w'.Filled c content start size size := by
  have hpos := c.media.blockSize_pos
  obtain ⟨hwhole, hsome, hblocks, hle⟩ := rest_blocks (size - done) hpos
  rw [Work.readRest, h.buffer, div_size c.media (by omega)]
  dsimp only
  rw [aligned_eq _ hpos]
  have hlt := Nat.mod_lt (size - done) hpos
  obtain ⟨w1, hw1, h1⟩ := h.readAligned hstart hwhole (by omega) hcontent (by omega) hfits.blocks
  have hlast : (lba + (size - done) / c.media.blockSize) * c.media.blockSize =
      start + (done + (size - done - (size - done) % c.media.blockSize)) := by
    rw [Nat.add_mul, hstart, hblocks, Nat.add_assoc]
  obtain ⟨w2, hw2, h2⟩ := h1.readOverRun hlast hlt (by omega) hcontent (by omega) hfits.block
  rw [show done + (size - done - (size - done) % c.media.blockSize) +
    (size - done) % c.media.blockSize = size by omega] at h2
  refine ⟨w2, ?_, h2⟩
  simp only [bind, Except.bind]
  rw [hw1]
  exact hw2

theorem fitsRest_of_fits {underRun : Nat} (h : c.Fits size underRun) :
    FitsRest c (size - c.first size underRun) (c.first size underRun) :=
  ⟨fun hlast => h.block (.inr hlast), h.blocks⟩

/-- The block a request begins in the middle of. -/
theorem underRun_inside {m : Media} {lba underRun : Nat} (hunder : underRun ≠ 0)
    (hinside : lba * m.blockSize + underRun ≤ m.size) :
    lba * m.blockSize + m.blockSize ≤ m.size := by
  have hlt : lba * m.blockSize < (m.lastBlock + 1) * m.blockSize := by
    rw [← Media.size]
    omega
  have hmul := Nat.mul_le_mul_right m.blockSize (Nat.lt_of_mul_lt_mul_right hlt)
  rw [Nat.succ_mul] at hmul
  exact hmul

theorem Filled.readFrom {lba underRun : Nat} (h : w.Filled c content start size 0)
    (hstart : lba * c.media.blockSize + underRun = start) (hunder : underRun < c.media.blockSize)
    (hbits : size < 2 ^ c.arch.bits) (hinside : start + size ≤ c.media.size)
    (hcontent : content.length = c.media.size) (hfits : c.Fits size underRun) :
    ∃ w', w.readFrom c lba underRun = .ok w' ∧ w'.Filled c content start size size := by
  have hrest := fitsRest_of_fits hfits
  rw [Work.readFrom]
  by_cases hzero : underRun = 0
  · rw [if_neg (fun hne => hne hzero)]
    rw [Context.first, if_pos hzero] at hrest
    subst hzero
    exact h.readRest hstart (Nat.zero_le _) hbits hinside hcontent hrest
  · rw [if_pos hzero, h.buffer]
    rw [Context.first, if_neg hzero] at hrest
    have hcap := hfits.block (.inl hzero)
    have hblock : lba * c.media.blockSize + c.media.blockSize ≤ c.media.size :=
      underRun_inside hzero (by omega)
    obtain ⟨w1, hw1, h1, hdata⟩ := h.readData (Nat.mod_self _) hblock hcontent hcap
    have hle : underRun + min (c.media.blockSize - underRun) size ≤ c.media.blockSize := by omega
    have hpart : slice w1.data underRun (min (c.media.blockSize - underRun) size) =
        slice content (start + 0) (min (c.media.blockSize - underRun) size) := by
      have hslice := congrArg
        (fun l => slice l underRun (min (c.media.blockSize - underRun) size)) hdata
      simpa only [slice_slice _ hle, Nat.zero_add, Nat.add_zero, hstart] using hslice
    obtain ⟨w2, hw2, h2⟩ := h1.copyOut hpart (by omega) (by omega)
    rw [Nat.zero_add] at h2
    simp only [bind, Except.bind]
    rw [hw1]
    dsimp only
    rw [hw2]
    dsimp only
    rw [h2.buffer]
    by_cases hdone : size - min (c.media.blockSize - underRun) size = 0
    · rw [if_pos hdone]
      refine ⟨w2, rfl, ?_⟩
      rw [show min (c.media.blockSize - underRun) size = size by omega] at h2
      exact h2
    · rw [if_neg hdone]
      have hnext : (lba + 1) * c.media.blockSize =
          start + min (c.media.blockSize - underRun) size := by
        rw [Nat.succ_mul]
        omega
      have hlba := lba_lt (Nat.le_of_eq hnext) (by omega)
      rw [Nat.mod_eq_of_lt hlba]
      exact h2.readRest hnext (by omega) hbits hinside hcontent hrest

/-! ## Writing -/

/-- The first `done` bytes of a write from `start` on are on the device, which held `content`. -/
structure Stored (c : Context) (content bytes : List Byte) (start done : Nat) (w : Work) :
    Prop where
  held : w.device.content = splice content start (slice bytes 0 done)
  requests : ∀ r ∈ w.device.requests, r.WellFormed c.media
  data : w.data.length = c.capacity
  buffer : w.buffer = bytes

variable {bytes : List Byte}

theorem Stored.length_content (h : w.Stored c content bytes start done)
    (hdone : done ≤ bytes.length) (hinside : start + bytes.length ≤ content.length) :
    w.device.content.length = content.length := by
  have hn : (slice bytes 0 done).length = done := length_slice (by omega)
  rw [h.held, length_splice (by omega)]

theorem Stored.writeBuffer (h : w.Stored c content bytes start done) {lba n : Nat}
    (hstart : lba * c.media.blockSize = start + done) (hwhole : n % c.media.blockSize = 0)
    (hinside : start + bytes.length ≤ c.media.size) (hcontent : content.length = c.media.size)
    (hsize : done + n ≤ bytes.length) (haligned : c.isBufferAligned done = true) :
    ∃ w', w.writeBuffer c lba n done = .ok w' ∧ w'.Stored c content bytes start (done + n) := by
  have hn : (slice w.buffer done n).length = n := length_slice (by rw [h.buffer]; exact hsize)
  have hwf : (⟨.write, lba, (slice w.buffer done n).length, c.buffer + done⟩ : Request).WellFormed
      c.media := by
    rw [hn]
    exact ⟨hwhole, by dsimp only; rw [hstart]; omega,
      Context.aligned_of_isBufferAligned haligned⟩
  refine ⟨_, by
    rw [Work.writeBuffer, if_pos (by rw [h.buffer]; exact hsize), Device.writeBlocks, if_pos hwf],
    ?_⟩
  exact
    { held := by
        dsimp only
        rw [h.held, hstart, h.buffer, splice_next (by omega) hsize]
      requests := by
        intro r hr
        rcases List.mem_cons.mp hr with rfl | hr
        · exact hwf
        · exact h.requests r hr
      data := h.data
      buffer := h.buffer }

/-- Part of a block, or whole blocks, that lie in the temporary buffer go to the device. -/
theorem Stored.writeData (h : w.Stored c content bytes start done) {lba n target length : Nat}
    (hdata : slice w.data 0 n =
      splice (slice w.device.content (lba * c.media.blockSize) n) target (slice bytes done length))
    (hstart : lba * c.media.blockSize + target = start + done)
    (htarget : target + length ≤ n) (hwhole : n % c.media.blockSize = 0)
    (hblocks : lba * c.media.blockSize + n ≤ c.media.size) (hcap : n ≤ c.capacity)
    (hinside : start + bytes.length ≤ c.media.size) (hcontent : content.length = c.media.size)
    (hsize : done + length ≤ bytes.length) :
    ∃ w', w.writeData c lba n = .ok w' ∧ w'.Stored c content bytes start (done + length) := by
  have hcap' : n ≤ w.data.length := by rw [h.data]; exact hcap
  have hn : (slice w.data 0 n).length = n := length_slice (by omega)
  have hlen := h.length_content (by omega) (by omega)
  have hpart : (slice bytes done length).length = length := length_slice hsize
  have hwf : (⟨.write, lba, (slice w.data 0 n).length, c.dataAddress⟩ : Request).WellFormed
      c.media := by
    rw [hn]
    exact ⟨hwhole, hblocks, c.dataAddress_aligned⟩
  refine ⟨_, by rw [Work.writeData, if_pos hcap', Device.writeBlocks, if_pos hwf], ?_⟩
  exact
    { held := by
        dsimp only
        rw [hdata, splice_slice (by omega) (by omega), hstart, h.held,
          splice_next (by omega) hsize]
      requests := by
        intro r hr
        rcases List.mem_cons.mp hr with rfl | hr
        · exact hwf
        · exact h.requests r hr
      data := h.data
      buffer := h.buffer }

theorem Stored.copyIn (h : w.Stored c content bytes start done) {n : Nat} (hcap : n ≤ c.capacity)
    (target length : Nat) (htarget : target + length ≤ n) (hlength : done + length ≤ bytes.length) :
    ∃ w', w.copyIn target done length = .ok w' ∧ w'.Stored c content bytes start done ∧
      w'.device = w.device ∧
      slice w'.data 0 n = splice (slice w.data 0 n) target (slice bytes done length) := by
  have hbuffer := h.buffer
  have hdata := h.data
  have hn : (slice bytes done length).length = length := length_slice hlength
  refine ⟨_, if_pos ⟨by omega, by rw [hbuffer]; exact hlength⟩, ?_, rfl, ?_⟩
  · exact
      { held := h.held
        requests := h.requests
        data := by
          dsimp only
          rw [hbuffer, length_splice (by omega), hdata]
        buffer := hbuffer }
  · dsimp only
    rw [hbuffer]
    have hwithin := slice_splice_of_within w.data (slice bytes done length) 0
      (show 0 + n ≤ _ by omega) (show target + _ ≤ n by omega)
    rwa [Nat.zero_add] at hwithin

theorem Stored.writeLoop {fuel lba n : Nat} (h : w.Stored c content bytes start done)
    (hfuel : n < fuel) (hstart : lba * c.media.blockSize = start + done) (hn : n ≠ 0)
    (hwhole : n % c.media.blockSize = 0) (hinside : start + bytes.length ≤ c.media.size)
    (hcontent : content.length = c.media.size) (hsize : done + n ≤ bytes.length)
    (hcap : if n ≤ c.dataBufferSize then n ≤ c.capacity
      else c.dataBufferSize ≤ c.capacity ∧
        c.dataBufferSize = c.media.blockSize * dataBufferBlockNum) :
    ∃ w', w.writeLoop c fuel lba done n = .ok w' ∧ w'.Stored c content bytes start (done + n) := by
  induction fuel generalizing lba done n w with
  | zero => omega
  | succ fuel ih =>
    rw [Work.writeLoop]
    -- the next blocks, as many as fit into the temporary buffer
    have hnext : ∀ k, k ≤ n → k % c.media.blockSize = 0 → k ≤ c.capacity →
        ∃ w1 w2, w.copyIn 0 done k = .ok w1 ∧ w1.writeData c lba k = .ok w2 ∧
          w2.Stored c content bytes start (done + k) := by
      intro k hk hkwhole hkcap
      obtain ⟨w1, hw1, h1, hdevice, hdata⟩ := h.copyIn hkcap 0 k (by omega)
        (by omega)
      have hlen := h1.length_content (by omega) (by omega)
      have hbytes : (slice bytes done k).length = k := length_slice (by omega)
      have hall : slice w1.data 0 k =
          splice (slice w1.device.content (lba * c.media.blockSize) k) 0 (slice bytes done k) := by
        have hcap1 := h1.data
        have hcap0 := h.data
        rw [hdata, splice_all, splice_all]
        · rw [hbytes, length_slice (by omega)]
        · rw [hbytes, length_slice (by omega)]
      obtain ⟨w2, hw2, h2⟩ := h1.writeData hall (by omega) (by omega) hkwhole (by omega) hkcap
        hinside hcontent (by omega)
      exact ⟨w1, w2, hw1, hw2, h2⟩
    by_cases hlast : n ≤ c.dataBufferSize
    · rw [if_pos hlast] at hcap ⊢
      obtain ⟨w1, w2, hw1, hw2, h2⟩ := hnext n (Nat.le_refl n) hwhole hcap
      refine ⟨w2, ?_, h2⟩
      rw [hw1]
      exact hw2
    · rw [if_neg hlast] at hcap ⊢
      obtain ⟨hcap, hD⟩ := hcap
      have hpos := c.media.blockSize_pos
      have hlarge : c.media.blockSize ≤ c.dataBufferSize := by
        rw [hD, dataBufferBlockNum]
        omega
      have hDwhole : c.dataBufferSize % c.media.blockSize = 0 := by
        rw [hD, Nat.mul_mod_right]
      have hrest : (n - c.dataBufferSize) % c.media.blockSize = 0 :=
        Nat.sub_mod_eq_zero_of_mod_eq (by rw [hwhole, hDwhole])
      have hstart' : (lba + dataBufferBlockNum) * c.media.blockSize =
          start + (done + c.dataBufferSize) := by
        rw [Nat.add_mul, hstart, hD, Nat.mul_comm dataBufferBlockNum, Nat.add_assoc]
      have hlba := lba_lt (Nat.le_of_eq hstart') (by omega)
      obtain ⟨w1, w2, hw1, hw2, h2⟩ := hnext c.dataBufferSize (by omega) hDwhole hcap
      obtain ⟨w3, hw3, h3⟩ := ih h2 (by omega) hstart' (by omega) hrest (by omega) (by
        split
        · omega
        · exact ⟨hcap, hD⟩)
      rw [show done + c.dataBufferSize + (n - c.dataBufferSize) = done + n by omega] at h3
      refine ⟨w3, ?_, h3⟩
      rw [hw1]
      simp only [bind, Except.bind]
      rw [hw2, Nat.mod_eq_of_lt hlba]
      exact hw3

theorem Stored.writeAligned {lba n : Nat} (h : w.Stored c content bytes start done)
    (hstart : lba * c.media.blockSize = start + done)
    (hwhole : n % c.media.blockSize = 0) (hinside : start + bytes.length ≤ c.media.size)
    (hcontent : content.length = c.media.size) (hsize : done + n ≤ bytes.length)
    (hcap : n ≠ 0 → c.isBufferAligned done = false →
      if n ≤ c.dataBufferSize then n ≤ c.capacity
      else c.dataBufferSize ≤ c.capacity ∧
        c.dataBufferSize = c.media.blockSize * dataBufferBlockNum) :
    ∃ w', w.writeAligned c lba done n = .ok w' ∧ w'.Stored c content bytes start (done + n) := by
  rw [Work.writeAligned]
  by_cases hn : n = 0
  · rw [if_pos hn, hn]
    exact ⟨w, rfl, h⟩
  · rw [if_neg hn]
    cases haligned : c.isBufferAligned done with
    | true =>
      rw [if_pos rfl]
      exact h.writeBuffer hstart hwhole hinside hcontent hsize haligned
    | false =>
      rw [if_neg Bool.false_ne_true]
      exact h.writeLoop (Nat.lt_succ_self n) hstart hn hwhole hinside hcontent hsize
        (hcap hn haligned)

/-- Part of a block is written by way of the whole block. -/
theorem Stored.modifyBlock {lba : Nat} (h : w.Stored c content bytes start done)
    (target length : Nat)
    (hstart : lba * c.media.blockSize + target = start + done)
    (htarget : target + length ≤ c.media.blockSize)
    (hblock : lba * c.media.blockSize + c.media.blockSize ≤ c.media.size)
    (hcap : c.media.blockSize ≤ c.capacity) (hinside : start + bytes.length ≤ c.media.size)
    (hcontent : content.length = c.media.size) (hsize : done + length ≤ bytes.length) :
    ∃ w', w.modifyBlock c lba target done length = .ok w' ∧
      w'.Stored c content bytes start (done + length) := by
  have hlen := h.length_content (by omega) (by omega)
  obtain ⟨hwf, hread, hslice⟩ := readData_eq (w := w) (Nat.mod_self _) hblock
    (hlen.trans hcontent) (show c.media.blockSize ≤ w.data.length by rw [h.data]; exact hcap)
  obtain ⟨w1, hw1, h1, hdata1, hdevice1⟩ : ∃ w1, w.readData c lba c.media.blockSize = .ok w1 ∧
      w1.Stored c content bytes start done ∧
      slice w1.data 0 c.media.blockSize =
        slice w.device.content (lba * c.media.blockSize) c.media.blockSize ∧
      w1.device.content = w.device.content := by
    refine ⟨_, hread, ?_, hslice, ?_⟩
    · exact
        { held := h.held
          requests := by
            intro r hr
            rcases List.mem_cons.mp hr with rfl | hr
            · exact hwf
            · exact h.requests r hr
          data := (length_splice (by
            rw [length_slice (by omega), h.data]
            omega)).trans h.data
          buffer := h.buffer }
    · rfl
  obtain ⟨w2, hw2, h2, hdevice2, hdata2⟩ := h1.copyIn hcap target length htarget hsize
  obtain ⟨w3, hw3, h3⟩ := h2.writeData (by rw [hdata2, hdata1, hdevice2, hdevice1]) hstart htarget
    (Nat.mod_self _) hblock hcap hinside hcontent hsize
  refine ⟨w3, ?_, h3⟩
  rw [Work.modifyBlock, hw1]
  simp only [bind, Except.bind]
  rw [hw2]
  exact hw3

theorem Stored.writeRest {lba : Nat} (h : w.Stored c content bytes start done)
    (hstart : lba * c.media.blockSize = start + done) (hdone : done ≤ bytes.length)
    (hbits : bytes.length < 2 ^ c.arch.bits) (hinside : start + bytes.length ≤ c.media.size)
    (hcontent : content.length = c.media.size)
    (hfits : FitsRest c (bytes.length - done) done) :
    ∃ w', w.writeRest c lba done = .ok w' ∧ w'.Stored c content bytes start bytes.length := by
  have hpos := c.media.blockSize_pos
  obtain ⟨hwhole, hsome, hblocks, hle⟩ := rest_blocks (bytes.length - done) hpos
  rw [Work.writeRest, h.buffer, div_size c.media (by omega)]
  dsimp only
  rw [aligned_eq _ hpos]
  have hlt := Nat.mod_lt (bytes.length - done) hpos
  obtain ⟨w1, hw1, h1⟩ := h.writeAligned hstart hwhole hinside hcontent (by omega) hfits.blocks
  have hlast : (lba + (bytes.length - done) / c.media.blockSize) * c.media.blockSize =
      start + (done + (bytes.length - done - (bytes.length - done) % c.media.blockSize)) := by
    rw [Nat.add_mul, hstart, hblocks, Nat.add_assoc]
  simp only [bind, Except.bind]
  rw [hw1]
  dsimp only
  by_cases hzero : (bytes.length - done) % c.media.blockSize = 0
  · rw [if_neg (fun hne => hne hzero)]
    refine ⟨w1, rfl, ?_⟩
    rw [hzero, show done + (bytes.length - done - 0) = bytes.length by omega] at h1
    exact h1
  · rw [if_pos hzero]
    have hlba := lba_lt (Nat.le_of_eq hlast) (by omega)
    have hblock := block_inside (Nat.le_of_eq hlast) (by omega)
    obtain ⟨w2, hw2, h2⟩ := h1.modifyBlock 0
      ((bytes.length - done) % c.media.blockSize) hlast (by omega) hblock
      (hfits.block hzero) hinside hcontent (by omega)
    rw [show done + (bytes.length - done - (bytes.length - done) % c.media.blockSize) +
      (bytes.length - done) % c.media.blockSize = bytes.length by omega] at h2
    rw [Nat.mod_eq_of_lt hlba]
    exact ⟨w2, hw2, h2⟩

theorem Stored.writeFrom {lba underRun : Nat} (h : w.Stored c content bytes start 0)
    (hstart : lba * c.media.blockSize + underRun = start) (hunder : underRun < c.media.blockSize)
    (hbits : bytes.length < 2 ^ c.arch.bits) (hinside : start + bytes.length ≤ c.media.size)
    (hcontent : content.length = c.media.size) (hfits : c.Fits bytes.length underRun) :
    ∃ w', w.writeFrom c lba underRun = .ok w' ∧ w'.Stored c content bytes start bytes.length := by
  have hrest := fitsRest_of_fits hfits
  rw [Work.writeFrom]
  by_cases hzero : underRun = 0
  · rw [if_neg (fun hne => hne hzero)]
    rw [Context.first, if_pos hzero] at hrest
    subst hzero
    exact h.writeRest hstart (Nat.zero_le _) hbits hinside hcontent hrest
  · rw [if_pos hzero, h.buffer]
    rw [Context.first, if_neg hzero] at hrest
    have hcap := hfits.block (.inl hzero)
    have hblock : lba * c.media.blockSize + c.media.blockSize ≤ c.media.size :=
      underRun_inside hzero (by omega)
    obtain ⟨w1, hw1, h1⟩ := h.modifyBlock underRun
      (min (c.media.blockSize - underRun) bytes.length) hstart (by omega) hblock hcap
      hinside hcontent (by omega)
    rw [Nat.zero_add] at h1
    simp only [bind, Except.bind]
    rw [hw1]
    dsimp only
    rw [h1.buffer]
    by_cases hdone : bytes.length - min (c.media.blockSize - underRun) bytes.length = 0
    · rw [if_pos hdone]
      refine ⟨w1, rfl, ?_⟩
      rw [show min (c.media.blockSize - underRun) bytes.length = bytes.length by omega] at h1
      exact h1
    · rw [if_neg hdone]
      have hnext : (lba + 1) * c.media.blockSize =
          start + min (c.media.blockSize - underRun) bytes.length := by
        rw [Nat.succ_mul]
        omega
      have hlba := lba_lt (Nat.le_of_eq hnext) (by omega)
      rw [Nat.mod_eq_of_lt hlba]
      exact h1.writeRest hnext (by omega) hbits hinside hcontent hrest

end Work

end EfiCore.Disk
