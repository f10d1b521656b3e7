import EfiCore.Disk.GptRestore

/-! # The children of a table

`PartitionInstallGptChildHandles` goes on with the header that the checks have left in its buffer,
whether the last of them has accepted it or not, and takes its entries to have 128 bytes.
-/

namespace EfiCore.Disk

open EfiCore.Lib

variable {m : Media} {hdr : List Byte} {entry : Nat → GptEntry}

/-! ## PartitionCheckGptEntry -/

/-- What is marked stays marked. -/
structure Statuses.Later (s s' : Statuses) : Prop where
  outOfRange : ∀ k, (s k).outOfRange = true → (s' k).outOfRange = true
  overlap : ∀ k, (s k).overlap = true → (s' k).overlap = true

namespace Statuses

variable {s s' s'' : Statuses} {i : Nat}

theorem Later.refl (s : Statuses) : s.Later s := ⟨fun _ h => h, fun _ h => h⟩

theorem Later.trans (h : s.Later s') (h' : s'.Later s'') : s.Later s'' :=
  ⟨fun k hk => h'.outOfRange k (h.outOfRange k hk), fun k hk => h'.overlap k (h.overlap k hk)⟩

theorem later_markOutOfRange (s : Statuses) (i : Nat) : s.Later (s.markOutOfRange i) := by
  unfold markOutOfRange
  constructor <;> intro k hk <;> rcases eq_or_ne k i with rfl | hki
  · rw [Function.update_self]
  · rwa [Function.update_of_ne hki]
  · rwa [Function.update_self]
  · rwa [Function.update_of_ne hki]

theorem later_markOverlap (s : Statuses) (i : Nat) : s.Later (s.markOverlap i) := by
  unfold markOverlap
  constructor <;> intro k hk <;> rcases eq_or_ne k i with rfl | hki
  · rwa [Function.update_self]
  · rwa [Function.update_of_ne hki]
  · rw [Function.update_self]
  · rwa [Function.update_of_ne hki]

theorem markOutOfRange_self (s : Statuses) (i : Nat) :
    (s.markOutOfRange i i).outOfRange = true := by
  simp [markOutOfRange]

theorem markOverlap_self (s : Statuses) (i : Nat) : (s.markOverlap i i).overlap = true := by
  simp [markOverlap]

end Statuses

theorem markOverlaps_later (entry : Nat → GptEntry) (i : Nat) (js : List Nat) (s : Statuses) :
    s.Later (markOverlaps entry i js s) := by
  induction js generalizing s with
  | nil => exact .refl s
  | cons j rest ih =>
    rw [markOverlaps]
    split
    · exact ih s
    · split
      · have hmarks := (s.later_markOverlap i).trans ((s.markOverlap i).later_markOverlap j)
        exact hmarks.trans (ih _)
      · exact ih s

/-- Both entries of a pair that overlaps are marked. -/
theorem markOverlaps_marks (i : Nat) (js : List Nat) (s : Statuses) {j : Nat} (hj : j ∈ js)
    (hused : ¬ (entry j).Unused) (hoverlaps : (entry i).Overlaps (entry j)) :
    (markOverlaps entry i js s i).overlap = true ∧ (markOverlaps entry i js s j).overlap = true := by
  induction js generalizing s with
  | nil => cases hj
  | cons k rest ih =>
    rw [markOverlaps]
    rcases List.mem_cons.mp hj with rfl | hj
    · rw [if_neg hused, if_pos hoverlaps]
      have hlater := markOverlaps_later entry i rest ((s.markOverlap i).markOverlap j)
      refine ⟨hlater.overlap i ?_, hlater.overlap j (Statuses.markOverlap_self _ j)⟩
      exact ((s.markOverlap i).later_markOverlap j).overlap i (s.markOverlap_self i)
    · split
      · exact ih s hj
      · split
        · exact ih _ hj
        · exact ih s hj

/-- An entry that is not marked may be used: its region is usable, and it does not overlap with
    those behind it. -/
structure Accepted (hdr : List Byte) (entry : Nat → GptEntry) (n i : Nat) (s : Statuses) :
    Prop where
  inRange : (s i).outOfRange = false → (entry i).InRange hdr
  apart : (s i).outOfRange = false → (s i).overlap = false → ∀ j, i < j → j < n →
    ¬ (entry j).Unused → ¬ (entry i).Overlaps (entry j)

theorem Accepted.later {n i : Nat} {s s' : Statuses} (h : Accepted hdr entry n i s)
    (hlater : s.Later s') : Accepted hdr entry n i s' := by
  have houtOfRange : (s' i).outOfRange = false → (s i).outOfRange = false := by
    intro h'
    by_contra hmarked
    rw [hlater.outOfRange i (Bool.eq_true_of_not_eq_false hmarked)] at h'
    cases h'
  have hoverlap : (s' i).overlap = false → (s i).overlap = false := by
    intro h'
    by_contra hmarked
    rw [hlater.overlap i (Bool.eq_true_of_not_eq_false hmarked)] at h'
    cases h'
  exact ⟨fun h' => h.inRange (houtOfRange h'), fun h' h'' =>
    h.apart (houtOfRange h') (hoverlap h'')⟩

theorem checkEntries_spec (n : Nat) (is : List Nat) (s : Statuses) :
    s.Later (checkEntries hdr entry n is s) ∧
      ∀ i ∈ is, ¬ (entry i).Unused → Accepted hdr entry n i (checkEntries hdr entry n is s) := by
  induction is generalizing s with
  | nil => exact ⟨.refl s, by simp⟩
  | cons i rest ih =>
    rw [checkEntries]
    by_cases hunused : (entry i).Unused
    · rw [if_pos hunused]
      refine ⟨(ih s).1, fun i' hi' hused => ?_⟩
      rcases List.mem_cons.mp hi' with rfl | hi'
      · exact absurd hunused hused
      · exact (ih s).2 i' hi' hused
    rw [if_neg hunused]
    by_cases hrange : (entry i).InRange hdr
    · rw [if_neg (not_not_intro hrange)]
      obtain ⟨hlater, hrest⟩ :=
        ih (markOverlaps entry i (List.range' (i + 1) (n - (i + 1))) s)
      refine ⟨(markOverlaps_later entry i _ s).trans hlater, fun i' hi' hused => ?_⟩
      rcases List.mem_cons.mp hi' with rfl | hi'
      · refine Accepted.later ⟨fun _ => hrange, fun _ hclear j hij hjn hused' hoverlaps => ?_⟩ hlater
        have hmem : j ∈ List.range' (i' + 1) (n - (i' + 1)) := by
          rw [List.mem_range'_1]
          omega
        rw [(markOverlaps_marks i' _ s hmem hused' hoverlaps).1] at hclear
        cases hclear
      · exact hrest i' hi' hused
    · rw [if_pos hrange]
      obtain ⟨hlater, hrest⟩ := ih (s.markOutOfRange i)
      refine ⟨(s.later_markOutOfRange i).trans hlater, fun i' hi' hused => ?_⟩
      rcases List.mem_cons.mp hi' with rfl | hi'
      · -- it is marked, so there is nothing to show
        have hmarked := s.markOutOfRange_self i'
        refine Accepted.later ⟨fun h => ?_, fun h => ?_⟩ hlater <;>
        · rw [hmarked] at h
          cases h
      · exact hrest i' hi' hused

theorem partitionCheckGptEntry_accepted {i : Nat} (hi : i < numberOfPartitionEntries hdr)
    (hused : ¬ (entry i).Unused) :
    Accepted hdr entry (numberOfPartitionEntries hdr) i (partitionCheckGptEntry hdr entry) :=
  (checkEntries_spec _ _ _).2 i (List.mem_range.mpr hi) hused

/-! ## The loop over the entries -/

/-- The loop installs a child for the entry. -/
def Installs (entry : Nat → GptEntry) (status : Statuses) (index : Nat) : Prop :=
  ¬ ((entry index).Unused ∨ (status index).outOfRange = true ∨ (status index).overlap = true)

instance (entry : Nat → GptEntry) (status : Statuses) (index : Nat) :
    Decidable (Installs entry status index) := inferInstanceAs (Decidable (¬ _))

theorem installGptEntries_eq (status : Statuses) (indices : List Nat) :
    installGptEntries m entry status indices =
      (indices.filter fun index => Installs entry status index).map fun index =>
        gptChild m index (entry index) := by
  induction indices with
  | nil => rfl
  | cons index rest ih =>
    rw [installGptEntries]
    by_cases h : (entry index).Unused ∨ (status index).outOfRange = true ∨
        (status index).overlap = true
    · have hskipped : ¬ Installs entry status index := not_not_intro h
      rw [if_pos h, ih, List.filter_cons_of_neg (by simpa using hskipped)]
    · have hinstalls : Installs entry status index := h
      rw [if_neg h, ih, List.filter_cons_of_pos (by simpa using hinstalls), List.map_cons]

/-- The regions of two children have no block in common. -/
def GptChild.Disjoint (c c' : GptChild) : Prop := c.last < c'.first ∨ c'.last < c.first

/-- The region of a child is one of usable blocks. -/
def GptChild.Usable (hdr : List Byte) (c : GptChild) : Prop :=
  firstUsableLBA hdr ≤ c.first.toNat ∧ c.first ≤ c.last ∧ c.last.toNat ≤ lastUsableLBA hdr

theorem installs_usable {index : Nat} (hindex : index < numberOfPartitionEntries hdr)
    (h : Installs entry (partitionCheckGptEntry hdr entry) index) :
    (gptChild m index (entry index)).Usable hdr := by
  obtain ⟨hused, hclear⟩ := not_or.mp h
  obtain ⟨hrange, -⟩ := not_or.mp hclear
  obtain ⟨hle, hfirst, -, -, hlast⟩ := (partitionCheckGptEntry_accepted hindex hused).inRange
    (Bool.eq_false_of_not_eq_true hrange)
  exact ⟨hfirst, hle, hlast⟩

theorem installs_disjoint {i j : Nat} (hij : i < j) (hj : j < numberOfPartitionEntries hdr)
    (h : Installs entry (partitionCheckGptEntry hdr entry) i)
    (h' : Installs entry (partitionCheckGptEntry hdr entry) j) :
    (gptChild m i (entry i)).Disjoint (gptChild m j (entry j)) := by
  obtain ⟨hused, hclear⟩ := not_or.mp h
  obtain ⟨hrange, hoverlap⟩ := not_or.mp hclear
  obtain ⟨hused', -⟩ := not_or.mp h'
  have hapart := (partitionCheckGptEntry_accepted (hij.trans hj) hused).apart
    (Bool.eq_false_of_not_eq_true hrange) (Bool.eq_false_of_not_eq_true hoverlap) j hij hj hused'
  rcases not_and_or.mp hapart with hlt | hlt
  · exact .inr (BitVec.not_le.mp hlt)
  · exact .inl (BitVec.not_le.mp hlt)

/-! ## One table -/

/-- The bytes of an entry that the function uses. -/
def usedEntrySize : Nat := 48

/-- The entries are where the function takes them to be: they have the size of
    `EFI_PARTITION_ENTRY`, and the size of the array does not wrap; or there is one only. -/
def SizesOk (hdr : List Byte) : Prop :=
  numberOfPartitionEntries hdr = 0 ∨
    numberOfPartitionEntries hdr = 1 ∧ usedEntrySize ≤ sizeOfPartitionEntry hdr ∧
      sizeOfPartitionEntry hdr ≤ partEntrySize ∨
    sizeOfPartitionEntry hdr = partEntrySize ∧
      numberOfPartitionEntries hdr * partEntrySize < 2 ^ 32

instance (hdr : List Byte) : Decidable (SizesOk hdr) := inferInstanceAs (Decidable (_ ∨ _ ∨ _))

/-- The sizes are right as far as the function gets: the array fits in the buffer, and the entries
    are where they are taken to be if they are looked at. -/
structure Sizes (A : Arch) (t : InstallTry) (hdr : List Byte) : Prop where
  buffer : arraySize hdr ≤ numberOfPartitionEntries hdr * partEntrySize % 2 ^ A.bits
  entries : t.readEntries = true → t.statusMemory = true → SizesOk hdr

theorem Sizes.congr {A : Arch} {t : InstallTry} {hdr' : List Byte} (h : Sizes A t hdr)
    (hnumber : numberOfPartitionEntries hdr' = numberOfPartitionEntries hdr)
    (hsize : sizeOfPartitionEntry hdr' = sizeOfPartitionEntry hdr) : Sizes A t hdr' := by
  obtain ⟨hbuffer, hentries⟩ := h
  constructor
  · rw [arraySize, hnumber, hsize]
    exact hbuffer
  · rw [SizesOk, hnumber, hsize]
    exact hentries

theorem Sizes.of_sizesOk (A : Arch) (t : InstallTry) (h : SizesOk hdr) : Sizes A t hdr := by
  refine ⟨?_, fun _ _ => h⟩
  have hbits := A.two_pow_32_le
  unfold arraySize
  obtain hzero | ⟨hone, -, hle⟩ | ⟨hsize, hlt⟩ := h
  · simp [hzero]
  · have hsmall : partEntrySize < 2 ^ 32 := by decide
    rw [hone, Nat.one_mul, Nat.one_mul, Nat.mod_eq_of_lt (by omega), Nat.mod_eq_of_lt (by omega)]
    exact hle
  · rw [hsize, Nat.mod_eq_of_lt hlt, Nat.mod_eq_of_lt (by omega)]

theorem GptEntry.ofBytes_slice (bytes : List Byte) {k : Nat} (h : usedEntrySize ≤ k) :
    GptEntry.ofBytes (slice bytes 0 k) = .ofBytes bytes := by
  unfold usedEntrySize at h
  unfold GptEntry.ofBytes
  rw [slice_slice bytes (by omega), slice_slice bytes (by omega), le_slice (by omega),
    le_slice (by omega), Nat.zero_add, Nat.zero_add]

theorem GptEntry.ofBytes_append {bytes : List Byte} (h : usedEntrySize ≤ bytes.length)
    (junk : List Byte) : GptEntry.ofBytes (bytes ++ junk) = .ofBytes bytes := by
  rw [← ofBytes_slice (bytes ++ junk) le_rfl, slice_append_left (by rw [Nat.zero_add]; exact h),
    ofBytes_slice bytes le_rfl]

/-- The child is that of its entry of the array, as the header divides it, and its region is
    usable. -/
structure GptChild.Decoded (m : Media) (hdr array : List Byte) (c : GptChild) : Prop where
  index_lt : c.index < numberOfPartitionEntries hdr
  eq : c = gptChild m c.index (GptEntry.ofBytes
    (slice array (c.index * sizeOfPartitionEntry hdr) (sizeOfPartitionEntry hdr)))
  usable : c.Usable hdr

/-- What is installed from an array. -/
structure TableOk (m : Media) (hdr array : List Byte) (cs : List GptChild) : Prop where
  decoded : ∀ c ∈ cs, c.Decoded m hdr array
  disjoint : cs.Pairwise GptChild.Disjoint

theorem installGptEntries_ok {array junk : List Byte} (hsizes : SizesOk hdr)
    (hlen : array.length = arraySize hdr)
    (hentry : ∀ index, entry index =
      .ofBytes (slice (array ++ junk) (partEntrySize * index) partEntrySize)) :
    TableOk m hdr array (installGptEntries m entry (partitionCheckGptEntry hdr entry)
      (List.range (numberOfPartitionEntries hdr))) := by
  rw [installGptEntries_eq]
  constructor
  · intro c hc
    obtain ⟨index, hmem, rfl⟩ := List.mem_map.mp hc
    obtain ⟨hrange, hinstalls⟩ := List.mem_filter.mp hmem
    have hindex := List.mem_range.mp hrange
    have hdecoded : entry index = .ofBytes
        (slice array (index * sizeOfPartitionEntry hdr) (sizeOfPartitionEntry hdr)) := by
      rw [hentry]
      obtain hzero | ⟨hone, hused, hle⟩ | ⟨hsize, hlt⟩ := hsizes
      · omega
      · -- there is only the first entry, and its size does not matter
        have hlength : array.length = sizeOfPartitionEntry hdr := by
          rw [hlen, arraySize, hone, Nat.one_mul]
          exact Nat.mod_eq_of_lt (Nat.lt_of_le_of_lt hle (by decide))
        obtain rfl : index = 0 := by omega
        rw [Nat.mul_zero, Nat.zero_mul, GptEntry.ofBytes_slice _ (by decide),
          GptEntry.ofBytes_append (by rw [hlength]; exact hused), GptEntry.ofBytes_slice _ hused]
      · -- the entry is among the bytes that are read
        have hwithin : partEntrySize * index + partEntrySize ≤ array.length := by
          rw [hlen, arraySize, hsize, Nat.mod_eq_of_lt hlt, ← Nat.mul_succ, Nat.mul_comm]
          exact Nat.mul_le_mul_right _ hindex
        rw [slice_append_left hwithin, hsize, Nat.mul_comm]
    exact ⟨hindex, congrArg (gptChild m index) hdecoded,
      installs_usable hindex (of_decide_eq_true hinstalls)⟩
  · rw [List.pairwise_map]
    refine List.Pairwise.imp_of_mem ?_ ((List.pairwise_lt_range).filter _)
    intro i j hi hj hij
    obtain ⟨-, hinstalls⟩ := List.mem_filter.mp hi
    obtain ⟨hrange, hinstalls'⟩ := List.mem_filter.mp hj
    exact installs_disjoint hij (List.mem_range.mp hrange) (of_decide_eq_true hinstalls)
      (of_decide_eq_true hinstalls')

/-- What is right for a run of the function on a table. -/
structure InstallsOk (img : Image m) (hdr : List Byte) (run : GptRun) : Prop where
  inside : run ≠ .overrun
  children : ∀ cs, run = .installs cs →
    ∃ array, entryArray img hdr = some array ∧ TableOk m hdr array cs

theorem installTable_ok {A : Arch} {t : InstallTry} (img : Image m) (hsizes : Sizes A t hdr) :
    InstallsOk img hdr (installTable A t img hdr) := by
  have hnothing : InstallsOk img hdr .nothing :=
    ⟨GptRun.noConfusion, fun _ h => GptRun.noConfusion h⟩
  have hbits := A.two_pow_32_le
  unfold installTable
  dsimp only
  by_cases hmemory : t.entriesMemory = false
  · rw [if_pos hmemory]
    exact hnothing
  rw [if_neg hmemory, if_neg (Nat.not_lt.mpr hsizes.buffer)]
  by_cases hread : t.readEntries = false
  · rw [if_pos hread]
    exact hnothing
  rw [if_neg hread]
  cases hbytes : img.read (arrayOffset m hdr) (arraySize hdr) with
  | none => exact hnothing
  | some array =>
    dsimp only
    by_cases hmemory : t.statusMemory = false
    · rw [if_pos hmemory]
      exact hnothing
    have hok := hsizes.entries (Bool.eq_true_of_not_eq_false hread)
      (Bool.eq_true_of_not_eq_false hmemory)
    -- the buffers are as long as they are meant to be
    have hsmall : numberOfPartitionEntries hdr * partEntrySize < 2 ^ 32 := by
      obtain hzero | ⟨hone, -⟩ | ⟨-, hlt⟩ := hok
      · rw [hzero]
        decide
      · rw [hone]
        decide
      · exact hlt
    have hfew : numberOfPartitionEntries hdr * 2 ≤ numberOfPartitionEntries hdr * partEntrySize :=
      Nat.mul_le_mul_left _ (by decide)
    rw [if_neg hmemory, Nat.mod_eq_of_lt (by omega), Nat.mod_eq_of_lt (by omega),
      if_neg (by omega)]
    refine ⟨GptRun.noConfusion, fun cs hcs => ⟨array, hbytes, ?_⟩⟩
    cases hcs
    exact installGptEntries_ok hok (Image.length_of_read hbytes) fun _ => rfl

theorem installTable_noMemory {A : Arch} {t : InstallTry} {img : Image m}
    (h : t.entriesMemory = false) : installTable A t img hdr = .nothing := if_pos h

/-- Something is installed only where the entries are read and the statuses have memory. -/
theorem installTable_reads {A : Arch} {t : InstallTry} {img : Image m} {cs : List GptChild}
    (h : installTable A t img hdr = .installs cs) :
    t.readEntries = true ∧ t.statusMemory = true := by
  unfold installTable at h
  dsimp only at h
  by_cases hread : t.readEntries = false
  · split_ifs at h
  by_cases hmemory : t.statusMemory = false
  · cases hbytes : img.read (arrayOffset m hdr) (arraySize hdr) <;>
    · rw [hbytes] at h
      simp only [if_pos hmemory] at h
      split_ifs at h
  exact ⟨Bool.eq_true_of_not_eq_false hread, Bool.eq_true_of_not_eq_false hmemory⟩

/-! ## PartitionInstallGptChildHandles -/

/-- The function gets to the buffer for the entries, if it finds a table. -/
structure Goes (t : InstallTry) (img : Image m) : Prop where
  mbrMemory : t.mbrMemory = true
  readMbr : t.readMbr = true
  protectiveMbr : ∀ block, img.read 0 m.blockSize = some block → ProtectiveMbr block
  headerMemory : t.headerMemory = true
  entriesMemory : t.entriesMemory = true

/-- A restore from this table writes none of the blocks of its array, or writes the array to where
    it is. -/
structure KeepsArray (t : RestoreTry) (m : Media) (hdr : List Byte) : Prop where
  header : t.memory = true → ¬ m.Touches (arrayOffset m hdr) (arraySize hdr) (alternateLBA hdr)
  array : t.WritesArray m hdr →
    t.writeArray = .done ∧
      driverLibMultU64x32 (pEntryLBA hdr) m.blockSize = arrayOffset m hdr ∨
    ∀ b, m.Touches (arrayOffset m hdr) (arraySize hdr) b →
      ¬ m.Touches (driverLibMultU64x32 (pEntryLBA hdr) m.blockSize) (arraySize hdr) b

/-- The first check leaves a header without entries in `PrimaryHeader`: it reads none in block 1,
    or one that has none. -/
def LeavesEmpty (t : InstallTry) (img : Image m) : Prop :=
  t.primary.memory = true → t.primary.readHeader = true →
    ∀ hdr, HeaderAt img primaryPartHeaderLba hdr → numberOfPartitionEntries hdr = 0

/-- The restore from this table does not change the medium. -/
def Unwritten (t : RestoreTry) (img : Image m) (source : List Byte) : Prop :=
  t.memory = false ∨ t.writeHeader.Refused img (alternateLBA source * m.blockSize) m.blockSize

/-- The restore from this table writes the header, and the blocks for its array stay as they
    are. -/
structure WritesHeaderOnly (t : RestoreTry) (img : Image m) (source : List Byte) : Prop where
  memory : t.memory = true
  alternate : alternateLBA source * m.blockSize + m.blockSize ≤ m.size
  writeHeader : t.writeHeader = .done
  array : t.arrayMemory = false ∨ t.readArray = false ∨ t.writeArray.Refused img
    (driverLibMultU64x32 (pEntryLBA source) m.blockSize) (arraySize source)

/-- Only the backup is accepted, with the header `source`: after the restore `PrimaryHeader` has no
    entries, or is the header of a table that is accepted. -/
inductive Restored (A : Arch) (t : InstallTry) (img : Image m) (source : List Byte) : Prop where
  /-- The check does not get to read a header. -/
  | unread (htry : t.again.memory = false ∨ t.again.readHeader = false)
      (hempty : LeavesEmpty t img)
  /-- Nothing is written, and there is no header. -/
  | absent (hunwritten : Unwritten t.restore img source)
      (hnone : ∀ hdr, ¬ HeaderAt img (alternateLBA source) hdr) (hempty : LeavesEmpty t img)
  /-- Nothing is written, and the table that is there is valid. -/
  | found (hunwritten : Unwritten t.restore img source) {hdr : List Byte}
      (hvalid : ValidTable img (alternateLBA source) hdr) (htry : t.again = .ok)
      (hsizes : Sizes A t hdr)
  /-- The write of the header fails, and leaves none. -/
  | damaged {damage : Nat → Byte} (hmemory : t.restore.memory = true)
      (hwrite : t.restore.writeHeader = .failed damage)
      (hnone : ¬ HeaderOk m (alternateLBA source) ((List.range m.blockSize).map fun i =>
        damage (alternateLBA source * m.blockSize + i))) (hempty : LeavesEmpty t img)
  /-- The header is written, and there is an array for it. -/
  | headerOnly (hwrite : WritesHeaderOnly t.restore img source)
      (hapart : ¬ m.Touches (driverLibMultU64x32 (pEntryLBA source) m.blockSize)
        (arraySize source) (alternateLBA source)) {array : List Byte} {crc : BitVec 32}
      (harray : img.read (driverLibMultU64x32 (pEntryLBA source) m.blockSize)
        (arraySize source) = some array) (hcrc : calculateCrc32 array = some crc)
      (hfield : partitionEntryArrayCRC32 source = crc.toNat) (htry : t.again = .ok)
      (hsizes : Sizes A t source)
  /-- The header and the array are written, and do not meet. -/
  | whole (hwrite : t.restore.WritesArray m source) (hdone : t.restore.writeArray = .done)
      (hsource : ¬ m.Touches (arrayOffset m source) (arraySize source) (alternateLBA source))
      (htarget : ¬ m.Touches (driverLibMultU64x32 (pEntryLBA source) m.blockSize)
        (arraySize source) (alternateLBA source))
      (htry : t.again = .ok) (hsizes : Sizes A t source)

/-- What the function relies on, where it gets so far.  A block has room for a master boot record.
    A primary table that is accepted has the right sizes, and keeps its array while the backup is
    restored from it; if only the backup is accepted, the table that takes the place of the primary
    one is accepted, or there are no entries. -/
structure Trusted (A : Arch) (t : InstallTry) (img : Image m) : Prop where
  block : t.mbrMemory = true → t.readMbr = true → mbrSize ≤ m.blockSize
  primary : Goes t img → ∀ hdr,
    partitionValidGptTable t.primary img primaryPartHeaderLba zeroHeader = (true, hdr) →
    Sizes A t hdr ∧ (t.readEntries = true → t.statusMemory = true →
      (partitionValidGptTable t.backup img (alternateLBA hdr) zeroHeader).1 = false →
      KeepsArray t.restore m hdr)
  backup : Goes t img → ∀ source,
    (partitionValidGptTable t.primary img primaryPartHeaderLba zeroHeader).1 = false →
    partitionValidGptTable t.backup img m.lastBlock zeroHeader = (true, source) →
    Restored A t img source

/-- The table is verified, on the disk as it was found or as it is after a restore, and this is its
    array. -/
structure VerifiedTable (t : InstallTry) (img : Image m) (hdr array : List Byte) : Prop where
  valid : ∃ img' lba,
    (img' = img ∨ ∃ source, img' = (partitionRestoreGptTable t.restore img source).1) ∧
      partitionValidGptTable .ok img' lba zeroHeader = (true, hdr) ∧
      entryArray img' hdr = some array

/-- The property of a run: all accesses are inside of the buffers, and what is installed comes from
    a verified table. -/
structure GptChildrenOk (t : InstallTry) (img : Image m) (run : GptRun) : Prop where
  inside : run ≠ .overrun
  verified : ∀ cs, run = .installs cs → cs ≠ [] →
    ∃ hdr array, VerifiedTable t img hdr array ∧ TableOk m hdr array cs

section Run

variable {A : Arch} {t : InstallTry} {img img' : Image m}

/-- The array is still the one that was verified. -/
theorem gptChildrenOk_installTable {img₀ : Image m} {lba : Nat} (hsizes : Sizes A t hdr)
    (hblock : partHeaderSize ≤ m.blockSize)
    (hdisk : img₀ = img ∨ ∃ source, img₀ = (partitionRestoreGptTable t.restore img source).1)
    (hvalid : ValidTable img₀ lba hdr)
    (hsame : t.readEntries = true → t.statusMemory = true →
      entryArray img' hdr = entryArray img₀ hdr) :
    GptChildrenOk t img (installTable A t img' hdr) := by
  obtain ⟨hinside, hchildren⟩ := installTable_ok img' hsizes
  refine ⟨hinside, fun cs hcs _ => ?_⟩
  obtain ⟨array, harray, htable⟩ := hchildren cs hcs
  obtain ⟨hread, hmemory⟩ := installTable_reads hcs
  exact ⟨hdr, array, ⟨img₀, lba, hdisk, hvalid.accepted hblock zeroHeader,
    (hsame hread hmemory).symm.trans harray⟩, htable⟩

/-- A table without entries. -/
theorem gptChildrenOk_empty (hzero : numberOfPartitionEntries hdr = 0) :
    GptChildrenOk t img (installTable A t img' hdr) := by
  obtain ⟨hinside, hchildren⟩ := installTable_ok img' (.of_sizesOk A t (.inl hzero))
  refine ⟨hinside, fun cs hcs hne => ?_⟩
  obtain ⟨array, -, htable⟩ := hchildren cs hcs
  obtain ⟨c, hc⟩ := List.exists_mem_of_ne_nil cs hne
  have hlt := (htable.decoded c hc).index_lt
  omega

theorem restore_keepsArray {lba : Nat} {r : RestoreTry} (hvalid : ValidTable img lba hdr)
    (hblock : partHeaderSize ≤ m.blockSize) (hkeeps : KeepsArray r m hdr) :
    entryArray (partitionRestoreGptTable r img hdr).1 hdr = entryArray img hdr := by
  have hlen := (restoredHeader_spec (hvalid.headerAt.length hblock) hblock).length
  by_cases hmemory : r.memory = false
  · rw [partitionRestoreGptTable_noMemory hmemory]
  replace hmemory := Bool.eq_true_of_not_eq_false hmemory
  have hheader : entryArray (writeRestored r img hdr).1 hdr = entryArray img hdr :=
    writeRestored_read r hlen (hkeeps.header hmemory)
  by_cases hwrites : r.WritesArray m hdr
  · obtain ⟨hdone, hplace⟩ | hapart := hkeeps.array hwrites
    · -- the array is written to where it is
      obtain ⟨array, -, hentries, -⟩ := hvalid.array
      rw [hentries, entryArray, ← hplace]
      exact (partitionRestoreGptTable_done r hlen hwrites hdone (hheader.trans hentries)).2
    · exact partitionRestoreGptTable_read r hlen (hkeeps.header hmemory) hapart
  · rw [partitionRestoreGptTable_noArray r hlen hmemory hwrites, hheader]

/-- Where the header comes from, and what the disk is then. -/
theorem checkTables_cases (h : checkTables t img = some (img', hdr)) :
    (partitionValidGptTable t.primary img primaryPartHeaderLba zeroHeader = (true, hdr) ∧
      (img' = img ∨
        (partitionValidGptTable t.backup img (alternateLBA hdr) zeroHeader).1 = false ∧
          img' = (partitionRestoreGptTable t.restore img hdr).1)) ∨
    ∃ old source valid,
      partitionValidGptTable t.primary img primaryPartHeaderLba zeroHeader = (false, old) ∧
      partitionValidGptTable t.backup img m.lastBlock zeroHeader = (true, source) ∧
      img' = (partitionRestoreGptTable t.restore img source).1 ∧
      partitionValidGptTable t.again img' (alternateLBA source) old = (valid, hdr) := by
  unfold checkTables at h
  cases hprimary : partitionValidGptTable t.primary img primaryPartHeaderLba zeroHeader with
  | mk primaryValid primary =>
    rw [hprimary] at h
    dsimp only at h
    cases primaryValid with
    | false =>
      rw [if_pos rfl] at h
      cases hbackup : partitionValidGptTable t.backup img m.lastBlock zeroHeader with
      | mk backupValid source =>
        rw [hbackup] at h
        dsimp only at h
        cases backupValid with
        | false =>
          rw [if_pos rfl] at h
          cases h
        | true =>
          rw [if_neg (by decide)] at h
          obtain ⟨rfl, rfl⟩ := Prod.mk.inj (Option.some.inj h)
          exact .inr ⟨primary, source, _, rfl, rfl, rfl, rfl⟩
    | true =>
      rw [if_neg (by decide)] at h
      by_cases hbackup : (partitionValidGptTable t.backup img (alternateLBA primary)
          zeroHeader).1 = false
      · rw [if_pos hbackup] at h
        obtain ⟨rfl, rfl⟩ := Prod.mk.inj (Option.some.inj h)
        exact .inl ⟨rfl, .inr ⟨hbackup, rfl⟩⟩
      · rw [if_neg hbackup] at h
        obtain ⟨rfl, rfl⟩ := Prod.mk.inj (Option.some.inj h)
        exact .inl ⟨rfl, .inl rfl⟩

theorem numberOfPartitionEntries_leavesEmpty (hblock : partHeaderSize ≤ m.blockSize)
    (hempty : LeavesEmpty t img) : numberOfPartitionEntries
      (partitionValidGptTable t.primary img primaryPartHeaderLba zeroHeader).2 = 0 := by
  by_cases hnone : t.primary.memory = true → t.primary.readHeader = true →
      ∀ hdr, ¬ HeaderAt img primaryPartHeaderLba hdr
  · rw [partitionValidGptTable_noHeader hblock zeroHeader hnone]
    decide
  · push Not at hnone
    obtain ⟨hmemory, hheader, hdr, hhdr⟩ := hnone
    rw [partitionValidGptTable_headerAt hblock hmemory hheader hhdr]
    exact hempty hmemory hheader hdr hhdr

/-- What is written is not seen where the restore changes nothing. -/
theorem Unwritten.read {source : List Byte} (h : Unwritten t.restore img source)
    (hlen : (restoredHeader m source).length = m.blockSize) (off len : Nat) :
    (partitionRestoreGptTable t.restore img source).1.read off len = img.read off len := by
  obtain hmemory | hrefused := h
  · rw [partitionRestoreGptTable_noMemory hmemory]
  by_cases hmemory : t.restore.memory = false
  · rw [partitionRestoreGptTable_noMemory hmemory]
  rw [partitionRestoreGptTable_noArray t.restore hlen (Bool.eq_true_of_not_eq_false hmemory)]
  · exact Image.read_congr (writeRestored_refused t.restore hlen hrefused)
  · intro hwrites
    obtain hlt | ⟨damage, hfailed, -⟩ := hrefused
    · exact absurd hwrites.alternate (Nat.not_le.mpr hlt)
    · rw [hwrites.writeHeader] at hfailed
      cases hfailed

/-- The header that is written stays, and what is in the blocks for the array. -/
theorem WritesHeaderOnly.read {source : List Byte} (h : WritesHeaderOnly t.restore img source)
    (hlen : (restoredHeader m source).length = m.blockSize)
    (hapart : ¬ m.Touches (driverLibMultU64x32 (pEntryLBA source) m.blockSize) (arraySize source)
      (alternateLBA source)) :
    (partitionRestoreGptTable t.restore img source).1.read
        (alternateLBA source * m.blockSize) m.blockSize = some (restoredHeader m source) ∧
      (partitionRestoreGptTable t.restore img source).1.read
        (driverLibMultU64x32 (pEntryLBA source) m.blockSize) (arraySize source) =
      img.read (driverLibMultU64x32 (pEntryLBA source) m.blockSize) (arraySize source) := by
  have hheader : (writeRestored t.restore img source).1.read
      (alternateLBA source * m.blockSize) m.blockSize = some (restoredHeader m source) :=
    writeRestored_done t.restore hlen h.alternate h.writeHeader
  have htarget : (writeRestored t.restore img source).1.read
      (driverLibMultU64x32 (pEntryLBA source) m.blockSize) (arraySize source) = _ :=
    writeRestored_read t.restore hlen hapart
  rcases partitionRestoreGptTable_cases t.restore img source with
    ⟨hnone, -⟩ | hcase | ⟨⟨harrayMemory, hreadArray⟩, array, -, hread, hcase⟩
  · rw [h.memory] at hnone
    cases hnone
  · rw [hcase]
    dsimp only
    exact ⟨hheader, htarget⟩
  · have hsize := Image.length_of_read hread
    have hrefused := (h.array.resolve_left (by simp [harrayMemory])).resolve_left
      (by simp [hreadArray])
    have hsame := Image.bytes_write_refused
      (writeRestored_keepsRefused t.restore hlen hapart hrefused hsize)
    rw [hcase, Image.read_congr hsame, Image.read_congr hsame]
    exact ⟨hheader, htarget⟩

/-- After a restore from the backup, `PrimaryHeader` is that of a valid table, or has no entries. -/
theorem Restored.recheck {source : List Byte} (h : Restored A t img source)
    (hblock : partHeaderSize ≤ m.blockSize)
    (hvalid : ValidTable img m.lastBlock source) {valid : Bool}
    (hagain : partitionValidGptTable t.again (partitionRestoreGptTable t.restore img source).1
      (alternateLBA source) (partitionValidGptTable t.primary img primaryPartHeaderLba zeroHeader).2
      = (valid, hdr)) :
    ValidTable (partitionRestoreGptTable t.restore img source).1 (alternateLBA source) hdr ∧
      Sizes A t hdr ∨ numberOfPartitionEntries hdr = 0 := by
  have hlen := (restoredHeader_spec (hvalid.headerAt.length hblock) hblock).length
  have hkept : LeavesEmpty t img → (t.again.memory = true → t.again.readHeader = true → ∀ hdr,
      ¬ HeaderAt (partitionRestoreGptTable t.restore img source).1 (alternateLBA source) hdr) →
      numberOfPartitionEntries hdr = 0 := fun hempty hnone => by
    rw [partitionValidGptTable_noHeader hblock _ hnone] at hagain
    obtain ⟨-, rfl⟩ := Prod.mk.inj hagain
    exact numberOfPartitionEntries_leavesEmpty hblock hempty
  -- a valid table in the place of the primary one is read and accepted
  have haccepted : ∀ {hdr'}, t.again = .ok →
      ValidTable (partitionRestoreGptTable t.restore img source).1 (alternateLBA source) hdr' →
      hdr = hdr' := fun htry hvalid' => by
    rw [htry, hvalid'.accepted hblock] at hagain
    exact (Prod.mk.inj hagain).2.symm
  have hcopied : Sizes A t source →
      Sizes A t (slice (restoredHeader m source) 0 partHeaderSize) := fun hsizes =>
    hsizes.congr (le_restored hvalid.headerAt hblock (by decide))
      (le_restored hvalid.headerAt hblock (by decide))
  cases h with
  | unread htry hempty =>
    refine .inr (hkept hempty fun hmemory hheader => ?_)
    simp [hmemory, hheader] at htry
  | absent hunwritten hnone hempty =>
    refine .inr (hkept hempty fun _ _ hdr' hhdr' => hnone hdr' ?_)
    rwa [HeaderAt, hunwritten.read hlen] at hhdr'
  | found hunwritten hfound htry hsizes =>
    have hvalid' := hfound.congr (hunwritten.read hlen _ _) (hunwritten.read hlen _ _)
    rw [haccepted htry hvalid'] at *
    exact .inl ⟨hvalid', hsizes⟩
  | @damaged damage hmemory hwrite hnone hempty =>
    refine .inr (hkept hempty fun _ _ hdr' hhdr' => ?_)
    have hnot : ¬ t.restore.WritesArray m source := fun hwrites => by
      rw [hwrites.writeHeader] at hwrite
      cases hwrite
    obtain ⟨block, hread, hok, -⟩ := hhdr'
    have hsize := Image.on_medium_of_read hread
    rw [partitionRestoreGptTable_noArray t.restore hlen hmemory hnot,
      writeRestored_failed t.restore hlen hsize hwrite] at hread
    exact hnone (Option.some.inj hread ▸ hok)
  | headerOnly hwrite hapart harray hcrc hfield htry hsizes =>
    obtain ⟨hheader, htarget⟩ := hwrite.read hlen hapart
    have hvalid' := validTable_restored hvalid.headerAt hblock hheader (htarget.trans harray) hcrc
      hfield
    rw [haccepted htry hvalid'] at *
    exact .inl ⟨hvalid', hcopied hsizes⟩
  | whole hwrite hdone hsource htarget htry hsizes =>
    obtain ⟨array, crc, hentries, hcrc, hfield⟩ := hvalid.array
    have hread : entryArray (writeRestored t.restore img source).1 source = some array :=
      (writeRestored_read t.restore hlen hsource).trans hentries
    obtain ⟨hok, hwritten⟩ := partitionRestoreGptTable_done t.restore hlen hwrite hdone hread
    obtain ⟨-, -, hheader, -⟩ := partitionRestoreGptTable_restored t.restore hlen hsource htarget hok
    have hvalid' := validTable_restored hvalid.headerAt hblock hheader hwritten hcrc hfield
    rw [haccepted htry hvalid'] at *
    exact .inl ⟨hvalid', hcopied hsizes⟩

theorem checkTables_ok (htrusted : Trusted A t img) (hblock : partHeaderSize ≤ m.blockSize)
    (hgoes : Goes t img) (h : checkTables t img = some (img', hdr)) :
    GptChildrenOk t img (installTable A t img' hdr) := by
  rcases checkTables_cases h with
    ⟨hprimary, hdisk⟩ | ⟨old, source, valid, hprimary, hbackup, rfl, hagain⟩
  · obtain ⟨hsizes, hkeeps⟩ := htrusted.primary hgoes hdr hprimary
    have hvalid := partitionValidGptTable_true hblock hprimary
    refine gptChildrenOk_installTable hsizes hblock (.inl rfl) hvalid fun hread hmemory => ?_
    rcases hdisk with rfl | ⟨hbackup, rfl⟩
    · rfl
    · exact restore_keepsArray hvalid hblock (hkeeps hread hmemory hbackup)
  · have hrestored := htrusted.backup hgoes source (by rw [hprimary]) hbackup
    have hsource := partitionValidGptTable_true hblock hbackup
    rw [show old = (partitionValidGptTable t.primary img primaryPartHeaderLba zeroHeader).2 by
      rw [hprimary]] at hagain
    obtain ⟨hvalid, hsizes⟩ | hzero := hrestored.recheck hblock hsource hagain
    · exact gptChildrenOk_installTable hsizes hblock (.inr ⟨source, rfl⟩) hvalid fun _ _ => rfl
    · exact gptChildrenOk_empty hzero

end Run

/-- Nothing fails. -/
def InstallTry.ok : InstallTry :=
  ⟨true, true, true, .ok, .ok, .ok, .ok, true, true, true, []⟩

end EfiCore.Disk
