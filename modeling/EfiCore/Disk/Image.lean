import EfiCore.Disk.BlockIo

/-! # Media that are written

The bytes of a medium, for a sequence of reads and writes.  A write may fail; what the blocks that
it is for hold then is up to the device.  The blocks that a write is for are kept.
-/

namespace EfiCore.Disk

open EfiCore.Lib

/-- How a write ends. -/
inductive WriteResult where
  | done
  /-- The write fails and leaves this in the blocks it is for. -/
  | failed (damage : Nat → Byte)

/-- The bytes of a medium, with the writes that it was sent: where they begin, and how many bytes
    they are for. -/
structure Image (m : Media) where
  bytes : List Byte
  written : List (Nat × Nat)
  length_eq : bytes.length = m.size

variable {m : Media}

/-- The block `b` has bytes among the `len` bytes from the offset `off` on. -/
def Media.Touches (m : Media) (off len b : Nat) : Prop :=
  0 < len ∧ b * m.blockSize < off + len ∧ off < (b + 1) * m.blockSize

instance (m : Media) (off len b : Nat) : Decidable (m.Touches off len b) :=
  inferInstanceAs (Decidable (_ ∧ _))

/-- The bytes after a write that has failed. -/
def damaged (m : Media) (bytes : List Byte) (off len : Nat) (damage : Nat → Byte) : List Byte :=
  bytes.mapIdx fun i b => if m.Touches off len (i / m.blockSize) then damage i else b

/-- A write that leaves the medium, or fails and changes none of its blocks. -/
def WriteResult.Refused (result : WriteResult) (img : Image m) (off len : Nat) :
    Prop :=
  m.size < off + len ∨ ∃ damage, result = .failed damage ∧
    ∀ i b, img.bytes[i]? = some b → m.Touches off len (i / m.blockSize) → damage i = b

namespace Image

/-- `ReadBlocks` and `ReadDisk`: the bytes, if they are on the medium. -/
def read (img : Image m) (off len : Nat) : Option (List Byte) :=
  if off + len ≤ m.size then some (slice img.bytes off len) else none

theorem length_splice {img : Image m} {off : Nat} {bs : List Byte} (h : off + bs.length ≤ m.size) :
    (splice img.bytes off bs).length = m.size := by
  rw [Lib.length_splice (by rw [img.length_eq]; exact h), img.length_eq]

theorem length_damaged (img : Image m) (off len : Nat) (damage : Nat → Byte) :
    (damaged m img.bytes off len damage).length = m.size := by
  rw [damaged, List.length_mapIdx, img.length_eq]

/-- `WriteBlocks` and `WriteDisk`, with whether they succeed.  A write that leaves the medium is
    refused. -/
def write (img : Image m) (off : Nat) (bs : List Byte) (result : WriteResult) : Image m × Bool :=
  if h : off + bs.length ≤ m.size then
    match result with
    | .done => (⟨splice img.bytes off bs, (off, bs.length) :: img.written, length_splice h⟩, true)
    | .failed damage =>
      (⟨damaged m img.bytes off bs.length damage, (off, bs.length) :: img.written,
        length_damaged img off bs.length damage⟩, false)
  else (img, false)

variable {img : Image m} {off len off' : Nat} {bs : List Byte} {result : WriteResult}

theorem length_of_read {r : List Byte} (h : img.read off len = some r) : r.length = len := by
  unfold read at h
  by_cases hsize : off + len ≤ m.size
  · rw [if_pos hsize] at h
    cases h
    exact length_slice (by rw [img.length_eq]; exact hsize)
  · rw [if_neg hsize] at h
    cases h

theorem on_medium_of_read {r : List Byte} (h : img.read off len = some r) : off + len ≤ m.size := by
  by_contra hout
  rw [read, if_neg hout] at h
  cases h

/-- What a write is for, if it succeeds. -/
theorem read_write (h : (img.write off bs result).2 = true) :
    (img.write off bs result).1.read off bs.length = some bs := by
  unfold write at h ⊢
  by_cases hsize : off + bs.length ≤ m.size
  · rw [dif_pos hsize] at h ⊢
    cases result with
    | done =>
      rw [read, if_pos hsize]
      exact congrArg some (slice_splice (by rw [img.length_eq]; exact hsize))
    | failed damage => cases h
  · rw [dif_neg hsize] at h
    cases h

theorem write_snd_iff :
    (img.write off bs result).2 = true ↔ off + bs.length ≤ m.size ∧ result = .done := by
  unfold write
  by_cases hsize : off + bs.length ≤ m.size
  · rw [dif_pos hsize]
    cases result <;> simp [hsize]
  · rw [dif_neg hsize]
    simp [hsize]

/-- The other blocks are not changed. -/
theorem getElem?_write (i : Nat) (h : ¬ m.Touches off bs.length (i / m.blockSize)) :
    (img.write off bs result).1.bytes[i]? = img.bytes[i]? := by
  unfold write
  by_cases hsize : off + bs.length ≤ m.size
  · rw [dif_pos hsize]
    cases result with
    | done =>
      rw [getElem?_splice (by rw [img.length_eq]; exact hsize)]
      rw [if_neg]
      rintro ⟨hle, hlt⟩
      have hdiv := Nat.div_mul_le_self i m.blockSize
      have hmod := Nat.lt_div_mul_add m.blockSize_pos (a := i)
      refine h ⟨by omega, by omega, ?_⟩
      rw [Nat.add_mul]
      omega
    | failed damage =>
      change (damaged m img.bytes off bs.length damage)[i]? = _
      rw [damaged, List.getElem?_mapIdx]
      simp only [if_neg h, Option.map_id']
  · rw [dif_neg hsize]

/-- What is read is not changed by a write for other blocks. -/
theorem read_write_of_untouched
    (h : ∀ b, m.Touches off' len b → ¬ m.Touches off bs.length b) :
    (img.write off bs result).1.read off' len = img.read off' len := by
  unfold read
  by_cases hsize : off' + len ≤ m.size
  · rw [if_pos hsize, if_pos hsize]
    refine congrArg some (List.ext_getElem? fun i => ?_)
    rw [getElem?_slice, getElem?_slice]
    by_cases hi : i < len
    · rw [if_pos hi, if_pos hi]
      refine getElem?_write _ (h _ ?_)
      have hdiv := Nat.div_mul_le_self (off' + i) m.blockSize
      have hmod := Nat.lt_div_mul_add m.blockSize_pos (a := off' + i)
      refine ⟨by omega, by omega, ?_⟩
      rw [Nat.add_mul]
      omega
    · rw [if_neg hi, if_neg hi]
  · rw [if_neg hsize, if_neg hsize]

/-- What a write that has failed leaves. -/
theorem read_write_failed {damage : Nat → Byte} (h : off + bs.length ≤ m.size) :
    (img.write off bs (.failed damage)).1.read off bs.length =
      some ((List.range bs.length).map fun i => damage (off + i)) := by
  rw [write, dif_pos h, read, if_pos h]
  refine congrArg some (List.ext_getElem? fun i => ?_)
  change (slice (damaged m img.bytes off bs.length damage) off bs.length)[i]? = _
  rw [getElem?_slice]
  by_cases hi : i < bs.length
  · have hin : off + i < img.bytes.length := by
      rw [img.length_eq]
      omega
    have htouches : m.Touches off bs.length ((off + i) / m.blockSize) := by
      have hdiv := Nat.div_mul_le_self (off + i) m.blockSize
      have hmod := Nat.lt_div_mul_add m.blockSize_pos (a := off + i)
      refine ⟨by omega, by omega, ?_⟩
      rw [Nat.add_mul]
      omega
    rw [if_pos hi, List.getElem?_map, List.getElem?_range hi, damaged, List.getElem?_mapIdx,
      List.getElem?_eq_getElem hin]
    simp only [Option.map_some, if_pos htouches]
  · rw [if_neg hi, List.getElem?_map, List.getElem?_eq_none (by simpa using hi), Option.map_none]

theorem bytes_write_refused (h : result.Refused img off bs.length) :
    (img.write off bs result).1.bytes = img.bytes := by
  unfold write
  by_cases hsize : off + bs.length ≤ m.size
  · obtain hlt | ⟨damage, rfl, hsame⟩ := h
    · omega
    rw [dif_pos hsize]
    refine List.ext_getElem? fun i => ?_
    change (damaged m img.bytes off bs.length damage)[i]? = _
    rw [damaged, List.getElem?_mapIdx]
    cases hi : img.bytes[i]? with
    | none => rfl
    | some b =>
      rw [Option.map_some]
      refine congrArg some ?_
      split
      · exact hsame i b hi ‹_›
      · rfl
  · rw [dif_neg hsize]

theorem read_congr {img' : Image m} (h : img'.bytes = img.bytes) :
    img'.read off len = img.read off len := by
  rw [read, read, h]

theorem written_write (r : Nat × Nat) (h : r ∈ (img.write off bs result).1.written) :
    r ∈ img.written ∨ r = (off, bs.length) := by
  unfold write at h
  by_cases hsize : off + bs.length ≤ m.size
  · rw [dif_pos hsize] at h
    cases result <;> exact (List.mem_cons.mp h).symm
  · rw [dif_neg hsize] at h
    exact .inl h

end Image

end EfiCore.Disk
