import EfiCore.Disk.GptTable

/-! # Restoring a table

`PartitionRestoreGptTable` takes the place of the other table from the header, and does not look
whether the blocks there are others than those of its source and of the partitions.  Where the
layout is right, the source stays as it is, whatever fails.
-/

namespace EfiCore.Disk

open EfiCore.Lib

variable {m : Media} {img : Image m} {hdr : List Byte} {lba : Nat}

/-! ## The header of the other table -/

/-- The header before its checksum is set. -/
def draftHeader (m : Media) (partHeader : List Byte) : List Byte :=
  setLe (setLe (setLe (splice (List.replicate m.blockSize 0) 0 partHeader) 24 8
    (alternateLBA partHeader)) 32 8 (myLBA partHeader)) 72 8 (pEntryLBA partHeader)

theorem restoredHeader_eq : restoredHeader m hdr = partitionSetCrc (draftHeader m hdr) := rfl

/-- What is in the header of the other table: it tells its own place, and the rest is a copy. -/
structure RestoredHeader (m : Media) (hdr block : List Byte) : Prop where
  length : block.length = m.blockSize
  myLBA : myLBA block = alternateLBA hdr
  entryLBA : partitionEntryLBA block = pEntryLBA hdr
  copied : ∀ i k, i + k ≤ 16 ∨ 40 ≤ i ∧ i + k ≤ 72 ∨ 80 ≤ i ∧ i + k ≤ partHeaderSize →
    slice block i k = slice hdr i k

theorem alternateLBA_lt (hlen : hdr.length = partHeaderSize) : alternateLBA hdr < 256 ^ 8 :=
  le_lt (by rw [hlen]; decide)

theorem pEntryLBA_lt (hdr : List Byte) : pEntryLBA hdr < 256 ^ 8 := by
  unfold pEntryLBA
  split
  · exact Nat.mod_lt _ (by decide)
  · decide

theorem draftHeader_spec (hlen : hdr.length = partHeaderSize)
    (hblock : partHeaderSize ≤ m.blockSize) : RestoredHeader m hdr (draftHeader m hdr) := by
  have hsize : 92 ≤ m.blockSize := hblock
  have hfits : 0 + hdr.length ≤ (List.replicate m.blockSize (0 : Byte)).length := by
    rw [List.length_replicate, hlen, Nat.zero_add]
    exact hblock
  have hcopy : ∀ i k, i + k ≤ 92 →
      slice (splice (List.replicate m.blockSize 0) 0 hdr) i k = slice hdr i k := by
    intro i k hik
    have hwhole := slice_splice hfits
    rw [hlen] at hwhole
    conv_rhs => rw [← hwhole]
    rw [slice_slice _ (show i + k ≤ partHeaderSize from hik), Nat.zero_add]
  unfold draftHeader
  have h0 := length_splice hfits
  rw [List.length_replicate] at h0
  generalize splice (List.replicate m.blockSize (0 : Byte)) 0 hdr = copy at h0 hcopy ⊢
  have h1 : (setLe copy 24 8 (EfiCore.Disk.alternateLBA hdr)).length = m.blockSize := by
    rw [length_setLe (by omega), h0]
  have h2 : (setLe (setLe copy 24 8 (EfiCore.Disk.alternateLBA hdr)) 32 8
      (EfiCore.Disk.myLBA hdr)).length = m.blockSize := by
    rw [length_setLe (by omega), h1]
  refine ⟨by rw [length_setLe (by omega), h2], ?_, ?_, fun i k hik => ?_⟩
  · rw [EfiCore.Disk.myLBA, le, slice_setLe (by omega) (.inl (by omega)),
      slice_setLe (by omega) (.inl (by omega)), ← le, le_setLe (by omega)]
    exact Nat.mod_eq_of_lt (alternateLBA_lt hlen)
  · rw [partitionEntryLBA, le_setLe (by omega)]
    exact Nat.mod_eq_of_lt (pEntryLBA_lt hdr)
  · unfold partHeaderSize at hik
    rw [slice_setLe (by omega) (by omega), slice_setLe (by omega) (by omega),
      slice_setLe (by omega) (by omega), hcopy i k (by omega)]

theorem restoredHeader_spec (hlen : hdr.length = partHeaderSize)
    (hblock : partHeaderSize ≤ m.blockSize) : RestoredHeader m hdr (restoredHeader m hdr) := by
  obtain ⟨hlength, hmyLBA, hentryLBA, hcopied⟩ := draftHeader_spec hlen hblock
  rw [restoredHeader_eq]
  unfold partitionSetCrc partitionSetCrcAltSize
  generalize draftHeader m hdr = draft at *
  have hfield : 16 + 4 ≤ draft.length := by
    rw [hlength]
    exact Nat.le_trans (by decide) hblock
  dsimp only
  rw [setLe_setLe hfield]
  refine ⟨by rw [length_setLe hfield, hlength], ?_, ?_, fun i k hik => ?_⟩
  · rw [myLBA, le, slice_setLe hfield (.inr (by omega)), ← hmyLBA]
    rfl
  · rw [partitionEntryLBA, le, slice_setLe hfield (.inr (by omega)), ← hentryLBA]
    rfl
  · rw [slice_setLe hfield (by omega), hcopied i k hik]

/-! ## The source -/

theorem ValidTable.myLBA (h : ValidTable img lba hdr) : EfiCore.Disk.myLBA hdr = lba := by
  obtain ⟨⟨block, -, rfl, -, -, hlba⟩, -⟩ := h
  rw [EfiCore.Disk.myLBA, le_slice (by decide)]
  exact hlba

section Restored

variable {img' : Image m} (h : HeaderAt img lba hdr) (hblock : partHeaderSize ≤ m.blockSize)

theorem HeaderAt.length (h : HeaderAt img lba hdr) (hblock : partHeaderSize ≤ m.blockSize) :
    hdr.length = partHeaderSize := by
  obtain ⟨block, hread, -, rfl⟩ := h
  exact length_slice (by rw [Image.length_of_read hread, Nat.zero_add]; exact hblock)

include h hblock

/-- The header that is written passes the check of its place. -/
theorem headerAt_restored (hheader : img'.read (alternateLBA hdr * m.blockSize) m.blockSize =
      some (restoredHeader m hdr)) :
    HeaderAt img' (alternateLBA hdr) (slice (restoredHeader m hdr) 0 partHeaderSize) := by
  have hlen := h.length hblock
  have hspec := restoredHeader_spec hlen hblock
  have hdraft := draftHeader_spec hlen hblock
  obtain ⟨block, hread, ⟨hid, hok, -⟩, rfl⟩ := h
  refine ⟨_, hheader, ⟨?_, ?_, hspec.myLBA⟩, rfl⟩
  · rw [hspec.copied 0 8 (.inl (by decide)), slice_slice block (by decide), Nat.zero_add]
    exact hid
  · have hheaderSize : headerSize (draftHeader m (slice block 0 partHeaderSize)) =
        headerSize block := by
      rw [headerSize, le, hdraft.copied 12 4 (.inl (by decide)), slice_slice block (by decide)]
      rfl
    have hsizeLe := hok.size_le.resolve_left (Nat.pos_iff_ne_zero.mp m.blockSize_pos)
    rw [restoredHeader_eq]
    refine checksumOk_partitionSetCrc ?_ (by rw [hheaderSize]; exact hok.size_pos)
      (by rw [hheaderSize]; exact hsizeLe)
    rw [hdraft.length]
    exact Nat.le_trans (by decide) hblock

/-- The numbers that the array depends on are copied. -/
theorem le_restored {i k : Nat} (hik : 80 ≤ i ∧ i + k ≤ partHeaderSize) :
    le (slice (restoredHeader m hdr) 0 partHeaderSize) i k = le hdr i k := by
  have hspec := restoredHeader_spec (h.length hblock) hblock
  rw [le_slice hik.2, le, hspec.copied i k (.inr (.inr hik)), le]

theorem entryArray_restored : entryArray img' (slice (restoredHeader m hdr) 0 partHeaderSize) =
    img'.read (driverLibMultU64x32 (pEntryLBA hdr) m.blockSize) (arraySize hdr) := by
  have hsize : arraySize (slice (restoredHeader m hdr) 0 partHeaderSize) = arraySize hdr := by
    unfold arraySize numberOfPartitionEntries sizeOfPartitionEntry
    rw [le_restored h hblock (by decide), le_restored h hblock (by decide)]
  have hentryLBA : partitionEntryLBA (slice (restoredHeader m hdr) 0 partHeaderSize) =
      pEntryLBA hdr := by
    rw [partitionEntryLBA, le_slice (by decide)]
    exact (restoredHeader_spec (h.length hblock) hblock).entryLBA
  rw [entryArray, arrayOffset, hentryLBA, hsize]

/-- The table that is written passes the check, where its blocks hold the header and an array with
    its checksum. -/
theorem validTable_restored {array : List Byte} {crc : BitVec 32}
    (hheader : img'.read (alternateLBA hdr * m.blockSize) m.blockSize =
      some (restoredHeader m hdr))
    (htarget : img'.read (driverLibMultU64x32 (pEntryLBA hdr) m.blockSize) (arraySize hdr) =
      some array)
    (hcrc : calculateCrc32 array = some crc) (hfield : partitionEntryArrayCRC32 hdr = crc.toNat) :
    ValidTable img' (alternateLBA hdr) (slice (restoredHeader m hdr) 0 partHeaderSize) := by
  obtain ⟨block, hread, ⟨hid, hok, hlba⟩, hhdr⟩ := headerAt_restored h hblock hheader
  refine ⟨⟨block, hread, hhdr, hid, hok, hlba⟩, array, crc, ?_, hcrc, ?_⟩
  · rw [entryArray_restored h hblock]
    exact htarget
  · rw [partitionEntryArrayCRC32, le_restored h hblock (by decide)]
    exact hfield

end Restored

/-! ## PartitionRestoreGptTable -/

/-- The blocks of the other table are on their own: not those of the source, and not for
    partitions. -/
structure Layout (m : Media) (lba : Nat) (hdr : List Byte) : Prop where
  header : partHeaderSize ≤ m.blockSize
  alternate_usable : ¬ (firstUsableLBA hdr ≤ alternateLBA hdr ∧ alternateLBA hdr ≤ lastUsableLBA hdr)
  alternate_ne : alternateLBA hdr ≠ lba
  alternate_source : ¬ m.Touches (arrayOffset m hdr) (arraySize hdr) (alternateLBA hdr)
  target_alternate : ¬ m.Touches (driverLibMultU64x32 (pEntryLBA hdr) m.blockSize) (arraySize hdr)
    (alternateLBA hdr)
  target_usable : ∀ b, firstUsableLBA hdr ≤ b → b ≤ lastUsableLBA hdr →
    ¬ m.Touches (driverLibMultU64x32 (pEntryLBA hdr) m.blockSize) (arraySize hdr) b
  target_ne : ¬ m.Touches (driverLibMultU64x32 (pEntryLBA hdr) m.blockSize) (arraySize hdr) lba
  target_source : ∀ b, m.Touches (arrayOffset m hdr) (arraySize hdr) b →
    ¬ m.Touches (driverLibMultU64x32 (pEntryLBA hdr) m.blockSize) (arraySize hdr) b

/-- A header is for one block. -/
theorem touches_block {b : Nat} : m.Touches (lba * m.blockSize) m.blockSize b ↔ b = lba := by
  have hpos := m.blockSize_pos
  unfold Media.Touches
  constructor
  · rintro ⟨-, hlt, hgt⟩
    rw [← Nat.succ_mul] at hlt
    have hle := Nat.lt_of_mul_lt_mul_right hlt
    have hge := Nat.lt_of_mul_lt_mul_right hgt
    omega
  · rintro rfl
    exact ⟨hpos, by omega, by rw [Nat.add_mul]; omega⟩

/-- What holds after a restore from the table at `lba`. -/
structure Restores (img : Image m) (lba : Nat) (hdr : List Byte) (out : Image m × Bool) :
    Prop where
  /-- The other table is valid, with the same array. -/
  restored : out.2 = true → ∃ hdr',
    partitionValidGptTable .ok out.1 (alternateLBA hdr) zeroHeader = (true, hdr') ∧
      entryArray out.1 hdr' = entryArray img hdr
  unchanged : out.2 = true →
    out.1.read (lba * m.blockSize) m.blockSize = img.read (lba * m.blockSize) m.blockSize ∧
      entryArray out.1 hdr = entryArray img hdr
  /-- No usable block is written. -/
  usable : ∀ w ∈ out.1.written, w ∈ img.written ∨
    ∀ b, firstUsableLBA hdr ≤ b → b ≤ lastUsableLBA hdr → ¬ m.Touches w.1 w.2 b
  source : partitionValidGptTable .ok out.1 lba zeroHeader = (true, hdr)

/-- The write of the header. -/
def writeRestored (t : RestoreTry) (img : Image m) (hdr : List Byte) : Image m × Bool :=
  img.write (alternateLBA hdr * m.blockSize) (restoredHeader m hdr) t.writeHeader

/-- The function gives up before or after the write of the header, or it writes the array. -/
theorem partitionRestoreGptTable_cases (t : RestoreTry) (img : Image m) (hdr : List Byte) :
    t.memory = false ∧ partitionRestoreGptTable t img hdr = (img, false) ∨
      partitionRestoreGptTable t img hdr = ((writeRestored t img hdr).1, false) ∨
      (t.arrayMemory = true ∧ t.readArray = true) ∧ ∃ array, (writeRestored t img hdr).2 = true ∧
        entryArray (writeRestored t img hdr).1 hdr = some array ∧
        partitionRestoreGptTable t img hdr = (writeRestored t img hdr).1.write
          (driverLibMultU64x32 (pEntryLBA hdr) m.blockSize) array t.writeArray := by
  unfold partitionRestoreGptTable writeRestored
  generalize img.write (alternateLBA hdr * m.blockSize) (restoredHeader m hdr) t.writeHeader = header
  by_cases hmemory : t.memory = false
  · rw [if_pos hmemory]
    exact .inl ⟨hmemory, rfl⟩
  rw [if_neg hmemory]
  dsimp only
  by_cases hfails : header.2 = false ∨ t.arrayMemory = false ∨ t.readArray = false
  · rw [if_pos hfails]
    exact .inr (.inl rfl)
  rw [if_neg hfails]
  cases hread : header.1.read (arrayOffset m hdr) (arraySize hdr) with
  | none => exact .inr (.inl rfl)
  | some array =>
    simp only [not_or, Bool.not_eq_false] at hfails
    exact .inr (.inr ⟨hfails.2, array, hfails.1, hread, rfl⟩)

/-- The restore gets to the write of the array. -/
structure RestoreTry.WritesArray (t : RestoreTry) (m : Media) (hdr : List Byte) : Prop where
  memory : t.memory = true
  alternate : alternateLBA hdr * m.blockSize + m.blockSize ≤ m.size
  writeHeader : t.writeHeader = .done
  arrayMemory : t.arrayMemory = true
  readArray : t.readArray = true
  target : driverLibMultU64x32 (pEntryLBA hdr) m.blockSize + arraySize hdr ≤ m.size

theorem partitionRestoreGptTable_noMemory {t : RestoreTry} (h : t.memory = false) :
    partitionRestoreGptTable t img hdr = (img, false) := by
  unfold partitionRestoreGptTable
  rw [if_pos h]

section Steps

variable (t : RestoreTry) (hheader : (restoredHeader m hdr).length = m.blockSize)
include hheader

/-- The write of the header leaves the other blocks. -/
theorem writeRestored_read {off len : Nat} (h : ¬ m.Touches off len (alternateLBA hdr)) :
    (writeRestored t img hdr).1.read off len = img.read off len := by
  unfold writeRestored
  refine Image.read_write_of_untouched fun b hb => ?_
  rw [hheader, touches_block]
  rintro rfl
  exact h hb

theorem writeRestored_done
    (hfits : alternateLBA hdr * m.blockSize + m.blockSize ≤ m.size) (hdone : t.writeHeader = .done) :
    (writeRestored t img hdr).1.read (alternateLBA hdr * m.blockSize) m.blockSize =
      some (restoredHeader m hdr) := by
  have hok : (writeRestored t img hdr).2 = true :=
    Image.write_snd_iff.mpr ⟨by rw [hheader]; exact hfits, hdone⟩
  have hread := Image.read_write hok
  rwa [hheader] at hread

/-- What a failed write of the header leaves in its block. -/
theorem writeRestored_failed {damage : Nat → Byte}
    (hfits : alternateLBA hdr * m.blockSize + m.blockSize ≤ m.size)
    (hfailed : t.writeHeader = .failed damage) :
    (writeRestored t img hdr).1.read (alternateLBA hdr * m.blockSize) m.blockSize =
      some ((List.range m.blockSize).map fun i => damage (alternateLBA hdr * m.blockSize + i)) := by
  unfold writeRestored
  rw [hfailed]
  generalize restoredHeader m hdr = block at *
  rw [← hheader] at hfits ⊢
  exact Image.read_write_failed hfits

/-- A write for other blocks that is refused is so behind the write of the header. -/
theorem writeRestored_keepsRefused {result : WriteResult} {off len n : Nat}
    (hapart : ¬ m.Touches off len (alternateLBA hdr)) (h : result.Refused img off len)
    (hn : n = len) : result.Refused (writeRestored t img hdr).1 off n := by
  subst hn
  refine h.imp_right fun ⟨damage, hfailed, hsame⟩ => ⟨damage, hfailed, fun i b hi htouches => ?_⟩
  refine hsame i b ?_ htouches
  rw [← hi]
  unfold writeRestored
  refine (Image.getElem?_write i ?_).symm
  rw [hheader, touches_block]
  intro halternate
  exact hapart (halternate ▸ htouches)

theorem writeRestored_refused
    (h : t.writeHeader.Refused img (alternateLBA hdr * m.blockSize) m.blockSize) :
    (writeRestored t img hdr).1.bytes = img.bytes := by
  unfold writeRestored
  refine Image.bytes_write_refused ?_
  rwa [hheader]

/-- What is in other blocks stays as it is. -/
theorem partitionRestoreGptTable_read {off len : Nat} (halternate : ¬ m.Touches off len (alternateLBA hdr))
    (htarget : ∀ b, m.Touches off len b →
      ¬ m.Touches (driverLibMultU64x32 (pEntryLBA hdr) m.blockSize) (arraySize hdr) b) :
    (partitionRestoreGptTable t img hdr).1.read off len = img.read off len := by
  have hfirst : (writeRestored t img hdr).1.read off len = img.read off len :=
    writeRestored_read t hheader halternate
  rcases partitionRestoreGptTable_cases t img hdr with
    ⟨-, hcase⟩ | hcase | ⟨-, array, -, hread, hcase⟩
  · rw [hcase]
  · rw [hcase]
    dsimp only
    exact hfirst
  · have hsize := Image.length_of_read hread
    rw [hcase, ← hfirst]
    refine Image.read_write_of_untouched ?_
    rw [hsize]
    exact htarget

/-- The blocks that are written. -/
theorem partitionRestoreGptTable_written {w : Nat × Nat}
    (hw : w ∈ (partitionRestoreGptTable t img hdr).1.written) :
    w ∈ img.written ∨ w = (alternateLBA hdr * m.blockSize, m.blockSize) ∨
      w = (driverLibMultU64x32 (pEntryLBA hdr) m.blockSize, arraySize hdr) := by
  have hfirst : w ∈ (writeRestored t img hdr).1.written →
      w ∈ img.written ∨ w = (alternateLBA hdr * m.blockSize, m.blockSize) := by
    intro hw
    unfold writeRestored at hw
    have hcases := Image.written_write w hw
    rw [hheader] at hcases
    exact hcases
  rcases partitionRestoreGptTable_cases t img hdr with
    ⟨-, hcase⟩ | hcase | ⟨-, array, -, hread, hcase⟩
  · rw [hcase] at hw
    exact .inl hw
  · rw [hcase] at hw
    dsimp only at hw
    exact (hfirst hw).imp_right .inl
  · rw [hcase] at hw
    have hsize := Image.length_of_read hread
    rcases Image.written_write w hw with hw | hw
    · exact (hfirst hw).imp_right .inl
    · rw [hsize] at hw
      exact .inr (.inr hw)

/-- Where the array is not written, the header may be all that is. -/
theorem partitionRestoreGptTable_noArray (hmemory : t.memory = true) (h : ¬ t.WritesArray m hdr) :
    (partitionRestoreGptTable t img hdr).1 = (writeRestored t img hdr).1 := by
  rcases partitionRestoreGptTable_cases t img hdr with
    ⟨hnone, -⟩ | hcase | ⟨⟨harrayMemory, hreadArray⟩, array, hdone, hread, hcase⟩
  · rw [hmemory] at hnone
    cases hnone
  · rw [hcase]
  · rw [hcase, Image.write, dif_neg]
    intro htarget
    obtain ⟨halternate, hwriteHeader⟩ := Image.write_snd_iff.mp hdone
    rw [hheader] at halternate
    rw [Image.length_of_read hread] at htarget
    exact h ⟨hmemory, halternate, hwriteHeader, harrayMemory, hreadArray, htarget⟩

/-- Where the array is written, it is as it is read behind the write of the header. -/
theorem partitionRestoreGptTable_array (h : t.WritesArray m hdr) {array : List Byte}
    (hread : entryArray (writeRestored t img hdr).1 hdr = some array) :
    partitionRestoreGptTable t img hdr = (writeRestored t img hdr).1.write
      (driverLibMultU64x32 (pEntryLBA hdr) m.blockSize) array t.writeArray := by
  have hdone : (writeRestored t img hdr).2 = true :=
    Image.write_snd_iff.mpr ⟨by rw [hheader]; exact h.alternate, h.writeHeader⟩
  unfold partitionRestoreGptTable
  unfold writeRestored entryArray at *
  generalize img.write (alternateLBA hdr * m.blockSize) (restoredHeader m hdr) t.writeHeader = header
    at *
  rw [if_neg (by simp [h.memory])]
  dsimp only
  rw [if_neg (by simp [hdone, h.arrayMemory, h.readArray]), hread]

theorem partitionRestoreGptTable_done (h : t.WritesArray m hdr) (hdone : t.writeArray = .done)
    {array : List Byte} (hread : entryArray (writeRestored t img hdr).1 hdr = some array) :
    (partitionRestoreGptTable t img hdr).2 = true ∧
      (partitionRestoreGptTable t img hdr).1.read
        (driverLibMultU64x32 (pEntryLBA hdr) m.blockSize) (arraySize hdr) = some array := by
  have hsize := Image.length_of_read hread
  have htarget := h.target
  rw [← hsize] at htarget
  rw [partitionRestoreGptTable_array t hheader h hread, ← hsize]
  have hok : ((writeRestored t img hdr).1.write (driverLibMultU64x32 (pEntryLBA hdr) m.blockSize)
      array t.writeArray).2 = true := Image.write_snd_iff.mpr ⟨htarget, hdone⟩
  exact ⟨hok, Image.read_write hok⟩

/-- A restore that succeeds has written both the header and the array. -/
theorem partitionRestoreGptTable_restored
    (hsource : ¬ m.Touches (arrayOffset m hdr) (arraySize hdr) (alternateLBA hdr))
    (htarget : ¬ m.Touches (driverLibMultU64x32 (pEntryLBA hdr) m.blockSize) (arraySize hdr)
      (alternateLBA hdr))
    (hok : (partitionRestoreGptTable t img hdr).2 = true) :
    ∃ array, entryArray img hdr = some array ∧
      (partitionRestoreGptTable t img hdr).1.read (alternateLBA hdr * m.blockSize) m.blockSize =
        some (restoredHeader m hdr) ∧
      (partitionRestoreGptTable t img hdr).1.read
        (driverLibMultU64x32 (pEntryLBA hdr) m.blockSize) (arraySize hdr) = some array := by
  rcases partitionRestoreGptTable_cases t img hdr with
    ⟨-, hcase⟩ | hcase | ⟨-, array, hdone, hread, hcase⟩
  · rw [hcase] at hok
    cases hok
  · rw [hcase] at hok
    cases hok
  · have hsize := Image.length_of_read hread
    have hwritten : (writeRestored t img hdr).1.read (alternateLBA hdr * m.blockSize) m.blockSize =
        some (restoredHeader m hdr) := by
      unfold writeRestored at hdone ⊢
      have hall := Image.read_write hdone
      rwa [hheader] at hall
    have hsame : (writeRestored t img hdr).1.read (arrayOffset m hdr) (arraySize hdr) =
        img.read (arrayOffset m hdr) (arraySize hdr) := by
      unfold writeRestored
      refine Image.read_write_of_untouched fun b hb => ?_
      rw [hheader, touches_block]
      rintro rfl
      exact hsource hb
    rw [hcase] at hok ⊢
    refine ⟨array, hsame.symm.trans hread, ?_, ?_⟩
    · rw [← hwritten]
      refine Image.read_write_of_untouched fun b hb => ?_
      rw [hsize, touches_block.mp hb]
      exact htarget
    · rw [← hsize]
      exact Image.read_write hok

end Steps

theorem partitionRestoreGptTable_restores (img : Image m) (lba : Nat) (hdr : List Byte)
    (t : RestoreTry) (hsource : partitionValidGptTable .ok img lba zeroHeader = (true, hdr))
    (hlayout : Layout m lba hdr) :
    Restores img lba hdr (partitionRestoreGptTable t img hdr) := by
  have hvalid := partitionValidGptTable_true hlayout.header hsource
  have hlen := (restoredHeader_spec (hvalid.headerAt.length hlayout.header) hlayout.header).length
  have hheader : (partitionRestoreGptTable t img hdr).1.read (lba * m.blockSize) m.blockSize =
      img.read (lba * m.blockSize) m.blockSize := by
    refine partitionRestoreGptTable_read t hlen ?_ fun b hb => ?_
    · rw [touches_block]
      exact hlayout.alternate_ne
    · rw [touches_block.mp hb]
      exact hlayout.target_ne
  have harray : entryArray (partitionRestoreGptTable t img hdr).1 hdr = entryArray img hdr :=
    partitionRestoreGptTable_read t hlen hlayout.alternate_source hlayout.target_source
  refine ⟨fun hok => ?_, fun _ => ⟨hheader, harray⟩, fun w hw => ?_, ?_⟩
  · obtain ⟨array, hentries, hrestored, htarget⟩ := partitionRestoreGptTable_restored t hlen
      hlayout.alternate_source hlayout.target_alternate hok
    obtain ⟨array', crc, hentries', hcrc, hfield⟩ := hvalid.array
    obtain rfl := Option.some.inj (hentries.symm.trans hentries')
    have htable := validTable_restored hvalid.headerAt hlayout.header hrestored htarget hcrc hfield
    refine ⟨_, htable.accepted hlayout.header zeroHeader, ?_⟩
    rw [entryArray_restored hvalid.headerAt hlayout.header, htarget, hentries]
  · rcases partitionRestoreGptTable_written t hlen hw with hw | rfl | rfl
    · exact .inl hw
    · refine .inr fun b hfirst hlast => ?_
      rw [touches_block]
      rintro rfl
      exact hlayout.alternate_usable ⟨hfirst, hlast⟩
    · exact .inr hlayout.target_usable
  · exact (hvalid.congr hheader harray).accepted hlayout.header zeroHeader

/-! ## A small disk -/

/-- A medium of 8 blocks. -/
def eightBlocks : Media where
  mediaId := 0
  readOnly := false
  blockSize := 512
  ioAlign := 0
  lastBlock := 7
  blockSize_pos := by decide
  blockSize_lt := by decide
  ioAlign_eq := .inl rfl
  lastBlock_lt := by decide

/-- An entry for the block 3. -/
def oneEntry : List Byte :=
  List.replicate 32 1 ++ leBytes 8 3 ++ leBytes 8 3 ++ List.replicate 80 0

/-- The header of a primary table with one entry, for the blocks 3 to 5, with its array in the
    block 2.  `size` is the size of the entry, at most that of two of them. -/
def smallHeader (alternate size : Nat) : List Byte :=
  partitionSetCrc (efiPtabHeaderId ++ leBytes 4 0x10000 ++ leBytes 4 92 ++ leBytes 4 0 ++
    leBytes 4 0 ++ leBytes 8 1 ++ leBytes 8 alternate ++ leBytes 8 3 ++ leBytes 8 5 ++
    List.replicate 16 0 ++ leBytes 8 2 ++ leBytes 4 1 ++ leBytes 4 size ++
    leBytes 4 ((calculateCrc32 ((oneEntry ++ List.replicate 128 0).take size)).elim 0 BitVec.toNat))

/-- A disk with a protective master boot record and this table. -/
def smallDisk (alternate size : Nat) : List Byte :=
  List.replicate 450 0 ++ [0xEE, 0, 0, 0] ++ leBytes 4 1 ++ leBytes 4 7 ++ List.replicate 48 0 ++
    [0x55, 0xAA] ++ smallHeader alternate size ++ List.replicate 420 0 ++ oneEntry ++
    List.replicate (5 * 512 + 384) 0

theorem length_smallDisk (alternate size : Nat) :
    (smallDisk alternate size).length = eightBlocks.size := by
  have hheader : (smallHeader alternate size).length = 92 := by
    unfold smallHeader partitionSetCrc partitionSetCrcAltSize
    dsimp only
    have hfield : ∀ hdr : List Byte, hdr.length = 92 → ∀ x y,
        (setLe (setLe hdr 16 4 x) 16 4 y).length = 92 := by
      intro hdr hlen x y
      rw [setLe_setLe (by omega), length_setLe (by omega), hlen]
    refine hfield _ ?_ _ _
    simp only [List.length_append, List.length_replicate, length_leBytes, efiPtabHeaderId,
      List.length_cons, List.length_nil]
  unfold smallDisk oneEntry
  simp only [List.length_append, List.length_replicate, length_leBytes, hheader, List.length_cons,
    List.length_nil]
  rfl

def smallImage (alternate size : Nat) : Image eightBlocks :=
  ⟨smallDisk alternate size, [], length_smallDisk alternate size⟩

/-- Nothing fails. -/
def RestoreTry.ok : RestoreTry := ⟨true, .done, true, true, .done⟩

/-- The other header in the last block, and its array in the block before. -/
theorem layout_smallHeader : Layout eightBlocks 1 (smallHeader 7 128) := by
  have hfirst : firstUsableLBA (smallHeader 7 128) = 3 := by decide +kernel
  have hlast : lastUsableLBA (smallHeader 7 128) = 5 := by decide +kernel
  have halternate : alternateLBA (smallHeader 7 128) = 7 := by decide +kernel
  have hsource : arrayOffset eightBlocks (smallHeader 7 128) = 1024 := by decide +kernel
  have hsize : arraySize (smallHeader 7 128) = 128 := by decide +kernel
  have htarget : driverLibMultU64x32 (pEntryLBA (smallHeader 7 128)) 512 = 3072 := by
    decide +kernel
  have hblock : eightBlocks.blockSize = 512 := rfl
  constructor <;> simp only [hfirst, hlast, halternate, hsource, hsize, htarget, Media.Touches,
    hblock, partHeaderSize] <;> omega

theorem partitionRestoreGptTable_restores_smallImage :
    Restores (smallImage 7 128) 1 (smallHeader 7 128)
      (partitionRestoreGptTable .ok (smallImage 7 128) (smallHeader 7 128)) :=
  partitionRestoreGptTable_restores _ _ _ _ (by decide +kernel) layout_smallHeader

/-- The other header is in a block for partitions. -/
theorem not_restores_usable :
    partitionValidGptTable .ok (smallImage 4 128) 1 zeroHeader = (true, smallHeader 4 128) ∧
      ¬ Restores (smallImage 4 128) 1 (smallHeader 4 128)
        (partitionRestoreGptTable .ok (smallImage 4 128) (smallHeader 4 128)) := by
  refine ⟨by decide +kernel, fun h => ?_⟩
  have hwritten : (2048, 512) ∈
      (partitionRestoreGptTable .ok (smallImage 4 128) (smallHeader 4 128)).1.written := by
    decide +kernel
  have hfirst : firstUsableLBA (smallHeader 4 128) = 3 := by decide +kernel
  have hlast : lastUsableLBA (smallHeader 4 128) = 5 := by decide +kernel
  rcases h.usable _ hwritten with hbefore | husable
  · cases hbefore
  · refine husable 4 (by rw [hfirst]; decide) (by rw [hlast]; decide) ?_
    decide

end EfiCore.Disk
