import EfiCore.Disk.Gpt

/-! # Valid tables

What `PartitionValidGptTable` has found if it accepts a table, and how the header that
`PartitionRestoreGptTable` writes differs from the one it is made from.
-/

namespace EfiCore.Disk

open EfiCore.Lib

variable {m : Media} {hdr : List Byte} {off n x y i k : Nat}

/-! ## Fields -/

theorem length_setLe (h : off + n ≤ hdr.length) : (setLe hdr off n x).length = hdr.length := by
  rw [setLe, length_splice (by rw [length_leBytes]; exact h)]

theorem le_setLe (h : off + n ≤ hdr.length) : le (setLe hdr off n x) off n = x % 256 ^ n := by
  have hslice : slice (splice hdr off (leBytes n x)) off (leBytes n x).length = leBytes n x :=
    slice_splice (by rw [length_leBytes]; exact h)
  rw [length_leBytes] at hslice
  rw [le, setLe, hslice, leNat_leBytes]

theorem slice_setLe (h : off + n ≤ hdr.length) (hout : i + k ≤ off ∨ off + n ≤ i) :
    slice (setLe hdr off n x) i k = slice hdr i k :=
  slice_splice_of_disjoint (by rw [length_leBytes]; exact h) (by rw [length_leBytes]; exact hout)

/-- The last write of a field counts. -/
theorem setLe_setLe (h : off + n ≤ hdr.length) :
    setLe (setLe hdr off n x) off n y = setLe hdr off n y := by
  have hsplice : splice (splice hdr off (leBytes n x)) (off + 0) (leBytes n y) =
      splice hdr off (splice (leBytes n x) 0 (leBytes n y)) :=
    splice_splice (by rw [length_leBytes]; exact h) (by simp)
  rwa [Nat.add_zero, splice_all (by simp)] at hsplice

/-- Writing back what a field holds. -/
theorem setLe_le (h : off + n ≤ hdr.length) : setLe hdr off n (le hdr off n) = hdr := by
  have hlen := length_slice h
  have hback := leBytes_leNat (slice hdr off n)
  rw [hlen] at hback
  have hsplice : splice hdr off (splice (slice hdr off n) 0 []) = splice hdr (off + 0) [] :=
    splice_slice h (by simp)
  rw [splice_nil, splice_nil] at hsplice
  rw [setLe, le, hback, hsplice]

theorem le_lt (h : off + n ≤ hdr.length) : le hdr off n < 256 ^ n := by
  have hlt := leNat_lt (slice hdr off n)
  rwa [length_slice h] at hlt

theorem le_slice (h : i + n ≤ k) : le (slice hdr 0 k) i n = le hdr i n := by
  rw [le, le, slice_slice hdr h, Nat.zero_add]

/-! ## Checksums -/

/-- The checksum of a header is right. -/
structure ChecksumOk (maxSize : Nat) (hdr : List Byte) : Prop where
  size_pos : headerSize hdr ≠ 0
  size_le : maxSize = 0 ∨ headerSize hdr ≤ maxSize
  crc : ∃ crc, calculateCrc32 (slice (setLe hdr 16 4 0) 0 (headerSize hdr)) = some crc ∧
    crc32 hdr = crc.toNat

theorem partitionCheckCrc_iff {maxSize : Nat} :
    (partitionCheckCrc maxSize hdr).1 = true ↔ ChecksumOk maxSize hdr := by
  unfold partitionCheckCrc partitionCheckCrcAltSize
  by_cases hzero : headerSize hdr = 0
  · rw [if_pos hzero]
    exact iff_of_false Bool.false_ne_true fun hok => hok.size_pos hzero
  rw [if_neg hzero]
  by_cases hmax : maxSize ≠ 0 ∧ maxSize < headerSize hdr
  · rw [if_pos hmax]
    refine iff_of_false Bool.false_ne_true fun hok => ?_
    exact hok.size_le.elim hmax.1 (Nat.not_le.mpr hmax.2)
  rw [if_neg hmax]
  have hle : maxSize = 0 ∨ headerSize hdr ≤ maxSize := by omega
  cases hcrc : calculateCrc32 (slice (setLe hdr 16 4 0) 0 (headerSize hdr)) with
  | none =>
    dsimp only
    rw [hcrc]
    refine iff_of_false Bool.false_ne_true fun hok => ?_
    obtain ⟨crc, hsome, -⟩ := hok.crc
    rw [hcrc] at hsome
    cases hsome
  | some crc =>
    dsimp only
    rw [hcrc]
    simp only [decide_eq_true_eq]
    refine ⟨fun heq => ⟨hzero, hle, crc, hcrc, heq⟩, fun hok => ?_⟩
    obtain ⟨crc', hsome, heq⟩ := hok.crc
    rw [hcrc] at hsome
    cases hsome
    exact heq

/-- A header that is accepted is left as it is. -/
theorem partitionCheckCrc_snd {maxSize : Nat} (h : 20 ≤ hdr.length)
    (hok : ChecksumOk maxSize hdr) : (partitionCheckCrc maxSize hdr).2 = hdr := by
  have hfield : 16 + 4 ≤ hdr.length := h
  obtain ⟨crc, hcrc, heq⟩ := hok.crc
  have hmax : ¬ (maxSize ≠ 0 ∧ maxSize < headerSize hdr) := by
    have := hok.size_le
    omega
  unfold partitionCheckCrc partitionCheckCrcAltSize
  rw [if_neg hok.size_pos, if_neg hmax]
  dsimp only
  rw [hcrc]
  dsimp only
  rw [← heq, setLe_setLe hfield]
  exact setLe_le hfield

theorem calculateCrc32_some {buffer : List Byte} (h : buffer ≠ []) :
    ∃ crc, calculateCrc32 buffer = some crc := by
  rw [calculateCrc32, if_neg h]
  exact ⟨_, rfl⟩

/-- What `PartitionSetCrc` makes. -/
theorem checksumOk_partitionSetCrc {maxSize : Nat} (h : 20 ≤ hdr.length)
    (hpos : headerSize hdr ≠ 0) (hle : headerSize hdr ≤ maxSize) :
    ChecksumOk maxSize (partitionSetCrc hdr) := by
  have hfield : 16 + 4 ≤ hdr.length := h
  have hsize : headerSize (partitionSetCrc hdr) = headerSize hdr := by
    unfold partitionSetCrc partitionSetCrcAltSize
    dsimp only
    rw [setLe_setLe hfield, headerSize, le, slice_setLe hfield (.inl (by omega))]
    rfl
  have hcleared : setLe (partitionSetCrc hdr) 16 4 0 = setLe hdr 16 4 0 := by
    unfold partitionSetCrc partitionSetCrcAltSize
    dsimp only
    rw [setLe_setLe hfield, setLe_setLe hfield]
  have hnonempty : slice (setLe hdr 16 4 0) 0 (headerSize hdr) ≠ [] := by
    refine List.ne_nil_of_length_pos ?_
    rw [slice, List.drop_zero, List.length_take, length_setLe hfield]
    omega
  obtain ⟨crc, hcrc⟩ := calculateCrc32_some hnonempty
  refine ⟨by rw [hsize]; exact hpos, .inr (by rw [hsize]; exact hle), crc, ?_, ?_⟩
  · rw [hcleared, hsize]
    exact hcrc
  · unfold partitionSetCrc partitionSetCrcAltSize
    dsimp only
    rw [setLe_setLe hfield, hcrc, crc32, le_setLe hfield]
    exact Nat.mod_eq_of_lt crc.isLt

/-! ## Tables -/

/-- The array of a table. -/
def entryArray (img : Image m) (hdr : List Byte) : Option (List Byte) :=
  img.read (arrayOffset m hdr) (arraySize hdr)

/-- The table with its header in the block `lba` is valid. -/
structure ValidTable (img : Image m) (lba : Nat) (hdr : List Byte) : Prop where
  header : ∃ block, img.read (lba * m.blockSize) m.blockSize = some block ∧
    hdr = slice block 0 partHeaderSize ∧ slice block 0 8 = efiPtabHeaderId ∧
    ChecksumOk m.blockSize block ∧ myLBA block = lba
  array : ∃ array crc, entryArray img hdr = some array ∧ calculateCrc32 array = some crc ∧
    partitionEntryArrayCRC32 hdr = crc.toNat

theorem partitionCheckGptEntryArrayCRC_iff {t : ValidTry} {img : Image m} :
    partitionCheckGptEntryArrayCRC t img hdr = true ↔
      (t.arrayMemory = true ∧ t.readArray = true) ∧
      ∃ array crc, entryArray img hdr = some array ∧ calculateCrc32 array = some crc ∧
        partitionEntryArrayCRC32 hdr = crc.toNat := by
  unfold partitionCheckGptEntryArrayCRC entryArray
  by_cases htry : t.arrayMemory = false ∨ t.readArray = false
  · rw [if_pos htry]
    refine iff_of_false Bool.false_ne_true ?_
    rintro ⟨⟨hmemory, hread⟩, -⟩
    rw [hmemory, hread] at htry
    simp at htry
  rw [if_neg htry]
  obtain ⟨hmemory, hread⟩ := not_or.mp htry
  simp only [Bool.not_eq_false] at hmemory hread
  cases img.read (arrayOffset m hdr) (arraySize hdr) with
  | none => simp
  | some array =>
    dsimp only
    cases hcrc : calculateCrc32 array with
    | none => simp [hcrc]
    | some crc => simp [hmemory, hread, hcrc]

/-- Nothing fails, so that it depends on the medium alone. -/
theorem partitionValidGptTable_true {t : ValidTry} {img : Image m} {lba : Nat}
    {partHeader : List Byte} (hblock : partHeaderSize ≤ m.blockSize)
    (h : partitionValidGptTable t img lba partHeader = (true, hdr)) : ValidTable img lba hdr := by
  unfold partitionValidGptTable at h
  by_cases htry : t.memory = false ∨ t.readHeader = false
  · rw [if_pos htry] at h
    cases h
  rw [if_neg htry] at h
  cases hread : img.read (lba * m.blockSize) m.blockSize with
  | none =>
    rw [hread] at h
    cases h
  | some block =>
    rw [hread] at h
    dsimp only at h
    have hlen : 20 ≤ block.length := by
      rw [Image.length_of_read hread]
      exact Nat.le_trans (by decide) hblock
    by_cases hbad : slice block 0 8 ≠ efiPtabHeaderId ∨
        (partitionCheckCrc m.blockSize block).1 = false ∨
        myLBA (partitionCheckCrc m.blockSize block).2 ≠ lba
    · rw [if_pos hbad] at h
      cases h
    rw [if_neg hbad] at h
    obtain ⟨hid, hbad⟩ := not_or.mp hbad
    obtain ⟨hcrc, hlba⟩ := not_or.mp hbad
    have hok := partitionCheckCrc_iff.mp (Bool.eq_true_of_not_eq_false hcrc)
    rw [partitionCheckCrc_snd hlen hok] at h hlba
    obtain ⟨harray, rfl⟩ := Prod.mk.inj h
    exact ⟨⟨block, hread, rfl, not_not.mp hid, hok, not_not.mp hlba⟩,
      (partitionCheckGptEntryArrayCRC_iff.mp harray).2⟩

theorem ValidTable.accepted {img : Image m} {lba : Nat} (h : ValidTable img lba hdr)
    (hblock : partHeaderSize ≤ m.blockSize) (partHeader : List Byte) :
    partitionValidGptTable .ok img lba partHeader = (true, hdr) := by
  obtain ⟨⟨block, hread, rfl, hid, hok, hlba⟩, harray⟩ := h
  have hlen : 20 ≤ block.length := by
    rw [Image.length_of_read hread]
    exact Nat.le_trans (by decide) hblock
  unfold partitionValidGptTable
  rw [if_neg (by decide), hread]
  dsimp only
  rw [partitionCheckCrc_snd hlen hok, if_neg]
  · exact congrArg (·, _) (partitionCheckGptEntryArrayCRC_iff.mpr ⟨⟨rfl, rfl⟩, harray⟩)
  · rw [partitionCheckCrc_iff.mpr hok]
    simp [hid, hlba]

/-- The block holds a header for the place `lba`: its signature, its checksum and its place are
    right. -/
structure HeaderOk (m : Media) (lba : Nat) (block : List Byte) : Prop where
  signature : slice block 0 8 = efiPtabHeaderId
  checksum : ChecksumOk m.blockSize block
  place : myLBA block = lba

/-- The header in the block `lba`. -/
def HeaderAt (img : Image m) (lba : Nat) (hdr : List Byte) : Prop :=
  ∃ block, img.read (lba * m.blockSize) m.blockSize = some block ∧ HeaderOk m lba block ∧
    hdr = slice block 0 partHeaderSize

theorem ValidTable.headerAt {img : Image m} {lba : Nat} (h : ValidTable img lba hdr) :
    HeaderAt img lba hdr := by
  obtain ⟨⟨block, hread, hhdr, hid, hok, hlba⟩, -⟩ := h
  exact ⟨block, hread, ⟨hid, hok, hlba⟩, hhdr⟩

/-- Where no header is read, the buffer stays as it is. -/
theorem partitionValidGptTable_noHeader {t : ValidTry} {img : Image m} {lba : Nat}
    (hblock : partHeaderSize ≤ m.blockSize) (partHeader : List Byte)
    (h : t.memory = true → t.readHeader = true → ∀ hdr, ¬ HeaderAt img lba hdr) :
    partitionValidGptTable t img lba partHeader = (false, partHeader) := by
  unfold partitionValidGptTable
  by_cases htry : t.memory = false ∨ t.readHeader = false
  · rw [if_pos htry]
  rw [if_neg htry]
  obtain ⟨hmemory, hheader⟩ := not_or.mp htry
  have hnone := h (Bool.eq_true_of_not_eq_false hmemory) (Bool.eq_true_of_not_eq_false hheader)
  cases hread : img.read (lba * m.blockSize) m.blockSize with
  | none => rfl
  | some block =>
    have hlen : 20 ≤ block.length := by
      rw [Image.length_of_read hread]
      exact Nat.le_trans (by decide) hblock
    dsimp only
    rw [if_pos]
    by_contra hgood
    obtain ⟨hid, hgood⟩ := not_or.mp hgood
    obtain ⟨hcrc, hlba⟩ := not_or.mp hgood
    have hok := partitionCheckCrc_iff.mp (Bool.eq_true_of_not_eq_false hcrc)
    rw [partitionCheckCrc_snd hlen hok] at hlba
    exact hnone _ ⟨block, hread, ⟨not_not.mp hid, hok, not_not.mp hlba⟩, rfl⟩

/-- The header that is read is left in the buffer, whether its array is right or not. -/
theorem partitionValidGptTable_headerAt {t : ValidTry} {img : Image m} {lba : Nat}
    (hblock : partHeaderSize ≤ m.blockSize) (hmemory : t.memory = true)
    (hheader : t.readHeader = true) (h : HeaderAt img lba hdr) (partHeader : List Byte) :
    (partitionValidGptTable t img lba partHeader).2 = hdr := by
  obtain ⟨block, hread, ⟨hid, hok, hlba⟩, rfl⟩ := h
  have hlen : 20 ≤ block.length := by
    rw [Image.length_of_read hread]
    exact Nat.le_trans (by decide) hblock
  unfold partitionValidGptTable
  rw [if_neg (by simp [hmemory, hheader]), hread]
  dsimp only
  rw [partitionCheckCrc_snd hlen hok, if_neg]
  rw [partitionCheckCrc_iff.mpr hok]
  simp [hid, hlba]

/-- A table whose blocks are not written stays valid. -/
theorem ValidTable.congr {img img' : Image m} {lba : Nat} (h : ValidTable img lba hdr)
    (hheader : img'.read (lba * m.blockSize) m.blockSize =
      img.read (lba * m.blockSize) m.blockSize)
    (harray : entryArray img' hdr = entryArray img hdr) : ValidTable img' lba hdr := by
  obtain ⟨hblock, harray'⟩ := h
  exact ⟨by rw [hheader]; exact hblock, by rw [harray]; exact harray'⟩

end EfiCore.Disk
