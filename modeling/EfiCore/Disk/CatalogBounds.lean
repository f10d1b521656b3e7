import EfiCore.Disk.ElTorito

/-! # The regions of boot catalogs

`Catalog` is not put back after a catalog has been gone through, so the next one is read behind the
end of the buffer.  Where a child ends is not compared with the end of the disk.
-/

namespace EfiCore.Disk

open EfiCore.Lib

variable {A : Arch} {read : Nat → Option (List Byte)} {lastBlock : Nat}

/-! ## The children of a catalog -/

/-- The entries after the first one are numbered from `bootEntry` on. -/
theorem installEntries_eq (block : List Byte) (volSpaceSize : BitVec 32) (bootEntry : Nat)
    (indices : List Nat) (h : 1 ∉ indices) :
    installEntries A block volSpaceSize bootEntry indices =
      ((indices.map (BootEntry.ofBlock block)).filter fun e => e.Bootable).mapIdx
        fun i e => e.child A volSpaceSize (bootEntry + i) := by
  induction indices generalizing bootEntry with
  | nil => rfl
  | cons index rest ih =>
    obtain ⟨hindex, hrest⟩ := not_or.mp (mt List.mem_cons.mpr h)
    rw [installEntries, List.map_cons]
    dsimp only
    by_cases hbootable : (BootEntry.ofBlock block index).Bootable
    · rw [if_neg (not_not_intro hbootable), if_neg (Ne.symm hindex), ih _ hrest,
        List.filter_cons_of_pos (by simpa using hbootable), List.mapIdx_cons]
      simp only [Nat.add_zero, Nat.add_assoc, Nat.add_comm 1]
    · rw [if_pos hbootable, ih _ hrest, List.filter_cons_of_neg (by simpa using hbootable)]

theorem installEntries_catalog (block : List Byte) (volSpaceSize : BitVec 32) :
    installEntries A block volSpaceSize 1 (List.range' 1 (maxIndex - 1)) =
      catalogChildren A volSpaceSize block := by
  have hindices : List.range' 1 (maxIndex - 1) = 1 :: List.range' 2 62 := rfl
  have hrest : 1 ∉ List.range' 2 62 := by decide
  unfold catalogChildren bootableEntries firstNumber
  rw [hindices, installEntries, List.map_cons]
  dsimp only
  by_cases hbootable : (BootEntry.ofBlock block 1).Bootable
  · rw [if_neg (not_not_intro hbootable), if_pos rfl, if_pos hbootable,
      installEntries_eq block volSpaceSize _ _ hrest,
      List.filter_cons_of_pos (by simpa using hbootable), List.mapIdx_cons]
    simp only [Nat.zero_add, Nat.add_comm 1]
  · rw [if_pos hbootable, if_neg hbootable, installEntries_eq block volSpaceSize _ _ hrest,
      List.filter_cons_of_neg (by simpa using hbootable)]

/-! ## The region of a child -/

namespace BootEntry

variable {e : BootEntry}

/-- The blocks that the child has. -/
def blocks (e : BootEntry) (volSpaceSize : BitVec 32) : Nat :=
  if e.sectors.2 < 2 then volSpaceSize.toNat
  else (e.sectors.2 * e.sectors.1 + cdromBlockSize - 1) / cdromBlockSize

theorem sectors_lt (e : BootEntry) : e.sectors.1 ≤ 2048 ∧ 512 ≤ e.sectors.1 ∧ e.sectors.2 < 2 ^ 16 := by
  have hcount := e.sectorCount.isLt
  unfold sectors cdromBlockSize
  split <;> dsimp only <;> omega

theorem partitionSize_toNat (A : Arch) (e : BootEntry) (volSpaceSize : BitVec 32) :
    (e.partitionSize A volSpaceSize).toNat = e.blocks volSpaceSize ∧
      e.blocks volSpaceSize < 2 ^ 32 := by
  obtain ⟨hsub, -, hcount⟩ := e.sectors_lt
  have hproduct : e.sectors.2 * e.sectors.1 ≤ 2 ^ 16 * 2048 :=
    Nat.mul_le_mul (Nat.le_of_lt hcount) hsub
  have hspace := volSpaceSize.isLt
  unfold partitionSize blocks
  by_cases hfew : e.sectors.2 < 2
  · rw [if_pos hfew, if_pos hfew]
    exact ⟨BitVec.toNat_setWidth_of_le (by decide), hspace⟩
  · rw [if_neg hfew, if_neg hfew, driverLibMultU64x32_of_lt (by omega), Nat.mod_eq_of_lt (by
      unfold cdromBlockSize; omega)]
    have hdividend : e.sectors.2 * e.sectors.1 + cdromBlockSize - 1 < 2 ^ 32 := by
      unfold cdromBlockSize
      omega
    obtain ⟨-, -, hexact⟩ := driverLibDivU64x32_spec A (show 0 < cdromBlockSize by decide)
      (hdividend.trans (by decide))
    rw [hexact (.inr (.inr hdividend))]
    have hquotient := Nat.div_le_self (e.sectors.2 * e.sectors.1 + cdromBlockSize - 1) cdromBlockSize
    have hlt := hquotient.trans_lt hdividend
    exact ⟨Nat.mod_eq_of_lt (hlt.trans (by decide)), hlt⟩

/-- The blocks of the child are blocks of the disk. -/
def Fits (e : BootEntry) (lastBlock : Nat) (volSpaceSize : BitVec 32) : Prop :=
  (e.sectors.2 < 2 → volSpaceSize ≠ 0) ∧
    e.lba.toNat + e.blocks volSpaceSize ≤ lastBlock + 1

theorem blocks_pos {volSpaceSize : BitVec 32} :
    0 < e.blocks volSpaceSize ↔ (e.sectors.2 < 2 → volSpaceSize ≠ 0) := by
  unfold blocks
  by_cases hfew : e.sectors.2 < 2
  · rw [if_pos hfew, Nat.pos_iff_ne_zero]
    refine ⟨fun h _ h0 => h (congrArg BitVec.toNat h0), fun h h0 => h hfew ?_⟩
    exact BitVec.eq_of_toNat_eq h0
  · rw [if_neg hfew]
    have hproduct := Nat.mul_le_mul (Nat.le_of_not_lt hfew) e.sectors_lt.2.1
    refine iff_of_true (Nat.div_pos ?_ (by decide)) fun h => absurd h hfew
    omega

end BootEntry

/-- The region of a child is not empty and ends on the disk. -/
structure CdChild.InBounds (lastBlock : Nat) (c : CdChild) : Prop where
  ordered : c.first.toNat ≤ c.last.toNat
  onParent : c.last.toNat ≤ lastBlock

theorem child_inBounds {e : BootEntry} (hbootable : e.Bootable) (volSpaceSize : BitVec 32)
    (bootEntry : Nat) :
    (e.child A volSpaceSize bootEntry).InBounds lastBlock ↔ e.Fits lastBlock volSpaceSize := by
  obtain ⟨hsize, hlt⟩ := e.partitionSize_toNat A volSpaceSize
  have hlba : 0 < e.lba.toNat := Nat.pos_of_ne_zero fun h => hbootable.2 (BitVec.eq_of_toNat_eq h)
  have hfirst : (e.child A volSpaceSize bootEntry).first.toNat = e.lba.toNat := by
    change (e.lba.setWidth 64).toNat = _
    bv_omega
  have hlast : (e.child A volSpaceSize bootEntry).last.toNat + 1 =
      e.lba.toNat + e.blocks volSpaceSize := by
    change (e.lba.setWidth 64 + e.partitionSize A volSpaceSize - 1).toNat + 1 = _
    bv_omega
  unfold BootEntry.Fits
  rw [← BootEntry.blocks_pos]
  constructor
  · rintro ⟨hordered, honParent⟩
    omega
  · rintro ⟨hpos, hfits⟩
    exact ⟨by omega, by omega⟩

/-! ## The loop over the descriptors -/

/-- The bytes are bytes of the buffer. -/
def Inside (a : BufferAccess) : Prop := a.1 + a.2 ≤ cdromBlockSize

/-- The children that a catalog on the disk is for. -/
def CatalogRef.children (A : Arch) (read : Nat → Option (List Byte)) (ref : CatalogRef) :
    Option (List CdChild) :=
  (ref.valid read).map (catalogChildren A ref.volSpaceSize)

section Turn

variable {volSpaceSize : BitVec 32} {catalog : Nat} {d : VolDescriptor}

theorem catalogTurn_unnamed (h : ¬ d.Names lastBlock) :
    catalogTurn A read lastBlock volSpaceSize catalog d = ⟨[], none, false⟩ := by
  unfold catalogTurn
  dsimp only
  by_cases hid : d.systemId.take cdvolEltoritoId.length = cdvolEltoritoId
  · rw [if_neg (not_not_intro hid), if_pos (Nat.lt_of_not_le fun hlba => h ⟨hid, hlba⟩)]
  · rw [if_pos hid]

/-- The catalog is read behind the end of the buffer. -/
theorem catalogTurn_behind (h : d.Names lastBlock) (hcatalog : 0 < catalog) :
    catalogTurn A read lastBlock volSpaceSize catalog d =
      ⟨[(eltoritoCatalogSize * catalog, cdromBlockSize)], none, true⟩ := by
  have hbehind : cdromBlockSize < eltoritoCatalogSize * catalog + cdromBlockSize := by
    have := Nat.mul_pos (show 0 < eltoritoCatalogSize by decide) hcatalog
    omega
  unfold catalogTurn
  dsimp only
  rw [if_neg (not_not_intro h.1), if_neg (Nat.not_lt.mpr h.2), if_pos hbehind]

theorem catalogTurn_first (h : d.Names lastBlock) :
    (catalogTurn A read lastBlock volSpaceSize 0 d).overrun = false ∧
      (∀ a ∈ (catalogTurn A read lastBlock volSpaceSize 0 d).accesses, Inside a) ∧
      (catalogTurn A read lastBlock volSpaceSize 0 d).children =
        CatalogRef.children A read ⟨d.eltCatalog, volSpaceSize⟩ := by
  unfold catalogTurn CatalogRef.children CatalogRef.valid
  dsimp only
  rw [if_neg (not_not_intro h.1), if_neg (Nat.not_lt.mpr h.2), if_neg (by decide)]
  have hheader : ∀ a ∈ [(eltoritoCatalogSize * 0, cdromBlockSize),
      (eltoritoCatalogSize * 0, eltoritoCatalogSize)], Inside a := by
    simp [Inside, eltoritoCatalogSize, cdromBlockSize]
  cases read d.eltCatalog.toNat with
  | none => exact ⟨rfl, fun a ha => hheader a (List.mem_cons.mpr (.inl (List.mem_singleton.mp ha))),
      rfl⟩
  | some block =>
    dsimp only
    by_cases hvalid : ValidCatalog block
    · rw [if_neg (not_not_intro hvalid), installEntries_catalog,
        Option.filter_some_pos (by simpa using hvalid)]
      refine ⟨rfl, fun a ha => ?_, rfl⟩
      rcases List.mem_append.mp ha with ha | ha
      · exact hheader a ha
      · obtain ⟨index, hindex, rfl⟩ := List.mem_map.mp ha
        have hlt := (List.mem_range'_1.mp hindex).2
        simp only [Inside, eltoritoCatalogSize, cdromBlockSize, maxIndex] at hlt ⊢
        omega
    · rw [if_pos hvalid, Option.filter_some_neg (by simpa using hvalid)]
      exact ⟨rfl, hheader, rfl⟩

end Turn

section Loop

variable (A) (fuel : Nat) (lba volSpaceSize : BitVec 32) (catalog : Nat)

/-- A turn is the last one, or it is for a descriptor. -/
theorem volDescriptors_cases :
    (volDescriptors read lastBlock (fuel + 1) lba = [] ∧
      (descriptorLoop A read lastBlock (fuel + 1) lba volSpaceSize catalog).catalogs = [] ∧
      ∀ a ∈ (descriptorLoop A read lastBlock (fuel + 1) lba volSpaceSize catalog).accesses,
        Inside a) ∨
    ∃ d turn s,
      volDescriptors read lastBlock (fuel + 1) lba =
        d :: volDescriptors read lastBlock fuel (lba + 1) ∧
      turn = catalogTurn A read lastBlock (d.spaceSize volSpaceSize) catalog d ∧
      s = descriptorLoop A read lastBlock fuel (lba + 1) (d.spaceSize volSpaceSize)
        (if turn.children.isSome then catalog + (maxIndex - 1) else catalog) ∧
      descriptorLoop A read lastBlock (fuel + 1) lba volSpaceSize catalog =
        if turn.overrun then
          ⟨[(0, cdromBlockSize), (0, volDescriptorSize)] ++ turn.accesses, [], .overrun⟩
        else
          ⟨[(0, cdromBlockSize), (0, volDescriptorSize)] ++ turn.accesses ++ s.accesses,
            turn.children.toList ++ s.catalogs, s.ending⟩ := by
  rw [volDescriptors, descriptorLoop]
  dsimp only
  by_cases hlast : lastBlock < (lba + 1).toNat
  · rw [if_pos hlast, if_pos hlast]
    exact .inl ⟨rfl, rfl, by simp⟩
  rw [if_neg hlast, if_neg hlast]
  cases read (lba + 1).toNat with
  | none => exact .inl ⟨rfl, rfl, by simp [Inside]⟩
  | some block =>
    rw [Option.map_some, Option.elim_some]
    dsimp only
    by_cases hends : (VolDescriptor.ofBlock block).Ends
    · rw [if_pos hends, if_pos hends]
      exact .inl ⟨rfl, rfl, by simp [Inside, cdromBlockSize, volDescriptorSize]⟩
    · rw [if_neg hends, if_neg hends]
      exact .inr ⟨_, _, _, rfl, rfl, rfl, rfl⟩

variable {A}

theorem descriptor_inside :
    ∀ a ∈ [(0, cdromBlockSize), (0, volDescriptorSize)], Inside a := by
  simp [Inside, cdromBlockSize, volDescriptorSize]

/-- After a catalog has been gone through, no other one may be named. -/
theorem descriptorLoop_behind (hcatalog : 0 < catalog) :
    ((∀ a ∈ (descriptorLoop A read lastBlock fuel lba volSpaceSize catalog).accesses, Inside a) ↔
        namedCatalogs lastBlock volSpaceSize (volDescriptors read lastBlock fuel lba) = []) ∧
      (descriptorLoop A read lastBlock fuel lba volSpaceSize catalog).catalogs = [] := by
  induction fuel generalizing lba volSpaceSize with
  | zero => exact ⟨iff_of_true (by simp [descriptorLoop]) rfl, rfl⟩
  | succ fuel ih =>
    rcases volDescriptors_cases A fuel lba volSpaceSize catalog with
      ⟨hnone, hcatalogs, hinside⟩ | ⟨d, turn, s, hnext, hturn, hs, hloop⟩
    · rw [hnone]
      exact ⟨iff_of_true hinside rfl, hcatalogs⟩
    rw [hloop, hnext, namedCatalogs]
    by_cases hnames : d.Names lastBlock
    · rw [catalogTurn_behind hnames hcatalog] at hturn
      rw [hturn, if_pos rfl, if_pos hnames]
      refine ⟨iff_of_false (fun hinside => ?_) (by simp), rfl⟩
      have hbehind := hinside _ (List.mem_append_right _ List.mem_cons_self)
      have := Nat.mul_pos (show 0 < eltoritoCatalogSize by decide) hcatalog
      unfold Inside at hbehind
      omega
    · rw [catalogTurn_unnamed hnames] at hturn
      rw [hturn] at hs
      obtain ⟨hiff, hcatalogs⟩ := ih (lba + 1) (d.spaceSize volSpaceSize)
      rw [if_neg (by simp)] at hs
      rw [← hs] at hiff hcatalogs
      rw [hturn, if_neg (by simp), if_neg hnames, ← hiff]
      refine ⟨?_, hcatalogs⟩
      simp only [List.append_nil, List.mem_append]
      exact ⟨fun h a ha => h a (.inr ha), fun h a ha => ha.elim (descriptor_inside a) (h a)⟩

/-- What is right for a disk that names these catalogs. -/
structure ScanOk (A : Arch) (read : Nat → Option (List Byte)) (lastBlock : Nat)
    (refs : List CatalogRef) (s : Scan) : Prop where
  inside : ∀ a ∈ s.accesses, Inside a
  installs : s.catalogs = refs.filterMap (CatalogRef.children A read)
  regions : ∀ children ∈ s.catalogs, ∀ c ∈ children, c.InBounds lastBlock

/-- No catalog is named after a valid one, and the entries of the valid one are for blocks of the
    disk. -/
structure RefsOk (read : Nat → Option (List Byte)) (lastBlock : Nat) (refs : List CatalogRef) :
    Prop where
  last : refs.Pairwise fun ref _ => ref.valid read = none
  fits : ∀ ref ∈ refs, ∀ block, ref.valid read = some block →
    ∀ e ∈ bootableEntries block, e.Fits lastBlock ref.volSpaceSize

theorem catalogChildren_inBounds (block : List Byte) :
    (∀ c ∈ catalogChildren A volSpaceSize block, c.InBounds lastBlock) ↔
      ∀ e ∈ bootableEntries block, e.Fits lastBlock volSpaceSize := by
  have hbootable : ∀ e ∈ bootableEntries block, e.Bootable := fun e he =>
    by simpa using (List.mem_filter.mp he).2
  unfold catalogChildren
  constructor
  · intro h e he
    obtain ⟨i, hi, rfl⟩ := List.getElem_of_mem he
    rw [← child_inBounds (hbootable _ he) volSpaceSize (firstNumber block + i)]
    exact h _ (List.mem_mapIdx.mpr ⟨i, hi, rfl⟩)
  · intro h c hc
    obtain ⟨i, hi, rfl⟩ := List.mem_mapIdx.mp hc
    have he := List.getElem_mem hi
    exact (child_inBounds (hbootable _ he) volSpaceSize _).mpr (h _ he)

/-- Accesses before the others. -/
theorem scanOk_after {refs : List CatalogRef} {s : Scan} {accesses : List BufferAccess}
    (h : ∀ a ∈ accesses, Inside a) :
    ScanOk A read lastBlock refs ⟨accesses ++ s.accesses, s.catalogs, s.ending⟩ ↔
      ScanOk A read lastBlock refs s := by
  constructor
  · rintro ⟨hinside, hinstalls, hregions⟩
    exact ⟨fun a ha => hinside a (List.mem_append_right _ ha), hinstalls, hregions⟩
  · rintro ⟨hinside, hinstalls, hregions⟩
    refine ⟨fun a ha => ?_, hinstalls, hregions⟩
    exact (List.mem_append.mp ha).elim (h a) (hinside a)

/-- A catalog that is not valid is neither installed from nor in the way of the next one. -/
theorem scanOk_skipped {ref : CatalogRef} {refs : List CatalogRef} {s : Scan}
    (h : ref.children A read = none) :
    ScanOk A read lastBlock (ref :: refs) s ↔ ScanOk A read lastBlock refs s := by
  have hrefs : (ref :: refs).filterMap (CatalogRef.children A read) =
      refs.filterMap (CatalogRef.children A read) := List.filterMap_cons_none h
  constructor
  · rintro ⟨hinside, hinstalls, hregions⟩
    exact ⟨hinside, hinstalls.trans hrefs, hregions⟩
  · rintro ⟨hinside, hinstalls, hregions⟩
    exact ⟨hinside, hinstalls.trans hrefs.symm, hregions⟩

theorem refsOk_skipped {ref : CatalogRef} {refs : List CatalogRef} (h : ref.valid read = none) :
    RefsOk read lastBlock (ref :: refs) ↔ RefsOk read lastBlock refs := by
  constructor
  · rintro ⟨hlast, hfits⟩
    exact ⟨hlast.of_cons, fun ref href => hfits ref (List.mem_cons_of_mem _ href)⟩
  · rintro ⟨hlast, hfits⟩
    refine ⟨hlast.cons fun _ _ => h, fun ref' href' block hblock => ?_⟩
    rcases List.mem_cons.mp href' with rfl | href'
    · rw [h] at hblock
      cases hblock
    · exact hfits ref' href' block hblock

theorem descriptorLoop_ok :
    ScanOk A read lastBlock
        (namedCatalogs lastBlock volSpaceSize (volDescriptors read lastBlock fuel lba))
        (descriptorLoop A read lastBlock fuel lba volSpaceSize 0) ↔
      RefsOk read lastBlock
        (namedCatalogs lastBlock volSpaceSize (volDescriptors read lastBlock fuel lba)) := by
  have hempty : RefsOk read lastBlock [] := ⟨.nil, by simp⟩
  induction fuel generalizing lba volSpaceSize with
  | zero => exact iff_of_true ⟨by simp [descriptorLoop], rfl, by simp [descriptorLoop]⟩ hempty
  | succ fuel ih =>
    rcases volDescriptors_cases A fuel lba volSpaceSize 0 with
      ⟨hnone, hcatalogs, hinside⟩ | ⟨d, turn, s, hnext, hturn, hs, hloop⟩
    · rw [hnone]
      exact iff_of_true ⟨hinside, hcatalogs, by simp [hcatalogs]⟩ hempty
    rw [hloop, hnext, namedCatalogs]
    by_cases hnames : d.Names lastBlock
    · obtain ⟨hoverrun, hturnInside, hchildren⟩ := catalogTurn_first hnames
      rw [← hturn] at hoverrun hturnInside hchildren
      rw [hoverrun, if_neg Bool.false_ne_true, if_pos hnames]
      have haccesses : ∀ a ∈ [(0, cdromBlockSize), (0, volDescriptorSize)] ++ turn.accesses,
          Inside a := fun a ha => (List.mem_append.mp ha).elim (descriptor_inside a) (hturnInside a)
      cases hvalid : CatalogRef.valid read ⟨d.eltCatalog, d.spaceSize volSpaceSize⟩ with
      | none =>
        have hnone : CatalogRef.children A read ⟨d.eltCatalog, d.spaceSize volSpaceSize⟩ = none := by
          rw [CatalogRef.children, hvalid, Option.map_none]
        rw [hchildren, hnone, if_neg (by simp)] at hs
        rw [hchildren, hnone, Option.toList_none, List.nil_append, scanOk_after haccesses, hs]
        exact (scanOk_skipped hnone).trans ((ih _ _).trans (refsOk_skipped hvalid).symm)
      | some block =>
        have hsome : CatalogRef.children A read ⟨d.eltCatalog, d.spaceSize volSpaceSize⟩ =
            some (catalogChildren A (d.spaceSize volSpaceSize) block) := by
          rw [CatalogRef.children, hvalid, Option.map_some]
        rw [hchildren, hsome, if_pos (by simp)] at hs
        obtain ⟨hiff, hcatalogs⟩ : ((∀ a ∈ s.accesses, Inside a) ↔ namedCatalogs lastBlock
            (d.spaceSize volSpaceSize) (volDescriptors read lastBlock fuel (lba + 1)) = []) ∧
            s.catalogs = [] := by
          rw [hs]
          exact descriptorLoop_behind fuel _ _ _ (by decide)
        rw [hchildren, hsome, Option.toList_some, hcatalogs, List.append_nil]
        constructor
        · rintro ⟨hinside, -, hregions⟩
          have hrest := hiff.mp fun a ha => hinside a (List.mem_append_right _ ha)
          rw [hrest]
          refine ⟨List.pairwise_singleton _ _, fun ref href block' hblock' => ?_⟩
          cases List.mem_singleton.mp href
          rw [hvalid] at hblock'
          cases hblock'
          exact (catalogChildren_inBounds _ _).mp (hregions _ (List.mem_singleton.mpr rfl))
        · rintro ⟨hlast, hfits⟩
          -- after a valid catalog, every name is one too many
          have hrest : namedCatalogs lastBlock (d.spaceSize volSpaceSize)
              (volDescriptors read lastBlock fuel (lba + 1)) = [] := by
            refine List.eq_nil_iff_forall_not_mem.mpr fun ref href => ?_
            have hnone := List.rel_of_pairwise_cons hlast href
            rw [hvalid] at hnone
            cases hnone
          refine ⟨fun a ha => (List.mem_append.mp ha).elim (haccesses a) (hiff.mpr hrest a), ?_, ?_⟩
          · rw [hrest, List.filterMap_cons_some hsome, List.filterMap_nil]
          · intro children hmem
            rw [List.mem_singleton.mp hmem]
            exact (catalogChildren_inBounds _ _).mpr (hfits _ List.mem_cons_self block hvalid)
    · rw [catalogTurn_unnamed hnames] at hturn
      rw [hturn] at hs
      rw [if_neg (by simp)] at hs
      rw [hturn, if_neg Bool.false_ne_true, if_neg hnames]
      refine Iff.trans ?_ (ih (lba + 1) (d.spaceSize volSpaceSize))
      rw [← hs]
      exact scanOk_after (by simpa using descriptor_inside)

end Loop

/-- The catalogs that a disk names, as far as `fuel` descriptors go. -/
def diskCatalogs (read : Nat → Option (List Byte)) (lastBlock fuel : Nat) : List CatalogRef :=
  namedCatalogs lastBlock 0 (volDescriptors read lastBlock fuel 15)

/-- The property of a call: it keeps to its buffer, and installs the children of the valid catalogs
    with regions on the disk. -/
def ElToritoInBounds (A : Arch) (read : Nat → Option (List Byte)) (blockSize lastBlock : Nat)
    (memory : Bool) (install : CdChild → Bool) : Prop :=
  ∀ fuel, ScanOk A read lastBlock
    (if blockSize = cdromBlockSize ∧ memory = true then diskCatalogs read lastBlock fuel else [])
    (partitionInstallElToritoChildHandles A read blockSize lastBlock memory install fuel).1

theorem elToritoInBounds_iff (A : Arch) (read : Nat → Option (List Byte))
    (blockSize lastBlock : Nat) (memory : Bool) (install : CdChild → Bool) :
    ElToritoInBounds A read blockSize lastBlock memory install ↔
      (blockSize = cdromBlockSize → memory = true →
        ∀ fuel, RefsOk read lastBlock (diskCatalogs read lastBlock fuel)) := by
  have hnothing : ScanOk A read lastBlock [] ⟨[], [], .finished⟩ := ⟨by simp, rfl, by simp⟩
  unfold ElToritoInBounds partitionInstallElToritoChildHandles
  by_cases hsize : blockSize = cdromBlockSize
  · cases memory with
    | false => simp [hsize, hnothing]
    | true =>
      simp only [hsize, ne_eq, not_true, if_false, Bool.true_eq_false, and_self, if_true,
        forall_const]
      exact forall_congr' fun fuel => descriptorLoop_ok fuel 15 0
  · simp [hsize, hnothing]

/-- A descriptor that names the catalog in the block 20. -/
def elToritoDescriptor : List Byte :=
  [0] ++ cdvolId ++ [1] ++ cdvolEltoritoId ++ List.replicate 41 0 ++ [20] ++ List.replicate 1976 0

/-- A catalog without bootable entries. -/
def emptyCatalog : List Byte :=
  [1] ++ List.replicate 27 0 ++ [0xAA, 0x55, 0x55, 0xAA] ++ List.replicate 2016 0

/-- A disk with two descriptors that name the same catalog. -/
def twoRecords (lba : Nat) : Option (List Byte) :=
  if lba = 16 ∨ lba = 17 then some elToritoDescriptor
  else if lba = 20 then some emptyCatalog
  else some (List.replicate 2048 0)

/-- The second one is read over the end of the buffer. -/
theorem not_elToritoInBounds_twoRecords :
    ¬ ElToritoInBounds .efi32 twoRecords 2048 100 true fun _ => true := by
  intro h
  have hrefs : diskCatalogs twoRecords 100 2 = [⟨20, 0⟩, ⟨20, 0⟩] := by decide +kernel
  have hvalid : CatalogRef.valid twoRecords ⟨20, 0⟩ ≠ none := by decide +kernel
  have hok : RefsOk twoRecords 100 (diskCatalogs twoRecords 100 2) :=
    (descriptorLoop_ok 2 15 0).mp (h 2)
  rw [hrefs] at hok
  exact hvalid (List.rel_of_pairwise_cons hok.last List.mem_cons_self)

end EfiCore.Disk
