import EfiCore.Disk.ExtendedWalk

/-! # The regions of the partitions

What `PartitionInstallMbrChildHandles` passes on as the first and the last block of a partition.
`PartitionValidMbr` compares ends that are sums of 32 bits, and the loop over the logical drives
checks only where a drive ends.
-/

namespace EfiCore.Disk

open EfiCore.Lib

variable {read : Nat → Option (List Byte)} {ext r r' : MbrPartitionRecord}

namespace MbrPartitionRecord

/-- The block after the last one of the region. -/
def stop (r : MbrPartitionRecord) : Nat := r.startingLBA.toNat + r.sizeInLBA.toNat

/-- The sum of the start and the size has more than 32 bits. -/
def Wraps (r : MbrPartitionRecord) : Prop := 2 ^ 32 < r.stop

/-- The regions have no block in common. -/
def Apart (r r' : MbrPartitionRecord) : Prop :=
  r.stop ≤ r'.startingLBA.toNat ∨ r'.stop ≤ r.startingLBA.toNat

theorem size_pos (h : ¬ r.Unused) : 0 < r.sizeInLBA.toNat := by
  refine Nat.pos_of_ne_zero fun h0 => h (.inr ?_)
  exact BitVec.eq_of_toNat_eq h0

theorem endingLBA_of_not_wraps (h : ¬ r.Unused) (hwraps : ¬ r.Wraps) :
    r.endingLBA.toNat + 1 = r.stop := by
  have hpos := size_pos h
  unfold Wraps stop at hwraps
  unfold endingLBA stop
  bv_omega

/-- `PartitionValidMbr` has found that the records do not overlap. -/
theorem apart_of_not_overlaps (h : ¬ r.Unused) (h' : ¬ r'.Unused) (hwraps : ¬ r.Wraps)
    (hwraps' : ¬ r'.Wraps) (hoverlaps : r.overlaps r' = false) : r.Apart r' := by
  have hend := endingLBA_of_not_wraps h hwraps
  have hend' := endingLBA_of_not_wraps h' hwraps'
  unfold overlaps at hoverlaps
  have hnot := of_decide_eq_false hoverlaps
  rw [not_and_or, BitVec.le_def, BitVec.le_def] at hnot
  unfold Apart
  omega

end MbrPartitionRecord

theorem validRecords_spec {lastLba : Nat} {valid : Bool} {rs : List MbrPartitionRecord}
    (h : validRecords lastLba valid rs = true) :
    (∀ r ∈ rs, ¬ r.Unused → r.endingLBA.toNat ≤ lastLba) ∧
      rs.Pairwise fun r r' => ¬ r.Unused → ¬ r'.Unused → r.overlaps r' = false := by
  induction rs generalizing valid with
  | nil => exact ⟨by simp, .nil⟩
  | cons r rest ih =>
    rw [validRecords] at h
    by_cases hunused : r.Unused
    · rw [if_pos hunused] at h
      obtain ⟨hends, hpairs⟩ := ih h
      refine ⟨fun r' hr' hused => ?_, hpairs.cons fun r' _ hused => absurd hunused hused⟩
      rcases List.mem_cons.mp hr' with rfl | hr'
      · exact absurd hunused hused
      · exact hends r' hr' hused
    rw [if_neg hunused] at h
    by_cases hlast : lastLba < r.endingLBA.toNat
    · rw [if_pos hlast] at h
      cases h
    rw [if_neg hlast] at h
    by_cases hany : (rest.any fun r' => ¬ r'.Unused ∧ r.overlaps r') = true
    · rw [if_pos hany] at h
      cases h
    rw [if_neg hany] at h
    obtain ⟨hends, hpairs⟩ := ih h
    constructor
    · intro r' hr' hused
      rcases List.mem_cons.mp hr' with rfl | hr'
      · exact Nat.le_of_not_lt hlast
      · exact hends r' hr' hused
    · refine hpairs.cons fun r' hr' _ hused => ?_
      by_contra hoverlaps
      refine hany (List.any_eq_true.mpr ⟨r', hr', ?_⟩)
      simpa using ⟨hused, Bool.eq_true_of_not_eq_false hoverlaps⟩

/-! ## The children of an extended partition -/

theorem mem_extendedLoop (fuel : Nat) (lba number : BitVec 32) {c : MbrChild}
    (hc : c ∈ (extendedLoop read ext fuel lba number).children) :
    ∃ lba' extMbr number', Relation.ReflTransGen (Leads (nextRecord read ext)) lba lba' ∧
      DriveAt read ext lba' extMbr ∧ c = logicalDrive ext extMbr lba' number' := by
  induction fuel generalizing lba number with
  | zero => cases hc
  | succ fuel ih =>
    have hspec := extendedTurn_spec read ext lba number
    rw [extendedLoop] at hc
    generalize extendedTurn read ext lba number = turn at hspec hc
    cases hspec with
    | none _ _ => cases hc
    | last hdrive _ => exact ⟨lba, _, number, .refl, hdrive, List.mem_singleton.mp hc⟩
    | more hdrive hnext =>
      rcases List.mem_cons.mp hc with rfl | hc
      · exact ⟨lba, _, number, .refl, hdrive, rfl⟩
      · obtain ⟨lba', extMbr, number', hreached, h⟩ := ih _ (number + 1) hc
        exact ⟨lba', extMbr, number', .head hnext hreached, h⟩

theorem DriveAt.unique {lba : BitVec 32} {extMbr extMbr' : MasterBootRecord}
    (h : DriveAt read ext lba extMbr) (h' : DriveAt read ext lba extMbr') : extMbr = extMbr' := by
  obtain ⟨block, hblock, rfl⟩ := h.block
  obtain ⟨block', hblock', rfl⟩ := h'.block
  rw [hblock] at hblock'
  cases hblock'
  rfl

/-- The loop comes to every drive that is reached. -/
theorem extendedLoop_reaches {lba lba' : BitVec 32} {extMbr : MasterBootRecord}
    (hreached : Relation.ReflTransGen (Leads (nextRecord read ext)) lba lba')
    (hdrive : DriveAt read ext lba' extMbr) (number : BitVec 32) :
    ∃ fuel number',
      logicalDrive ext extMbr lba' number' ∈ (extendedLoop read ext fuel lba number).children := by
  induction hreached using Relation.ReflTransGen.head_induction_on generalizing number with
  | refl =>
    refine ⟨1, number, ?_⟩
    have hspec := extendedTurn_spec read ext lba' number
    rw [extendedLoop]
    generalize extendedTurn read ext lba' number = turn at hspec ⊢
    cases hspec with
    | none _ hnone => exact absurd hdrive (hnone _)
    | last hdrive' _ =>
      rw [hdrive.unique hdrive']
      exact List.mem_singleton.mpr rfl
    | more hdrive' _ =>
      rw [hdrive.unique hdrive']
      exact List.mem_cons_self
  | @head lba next hnext _ ih =>
    obtain ⟨fuel, number', hmem⟩ := ih (number + 1)
    refine ⟨fuel + 1, number', ?_⟩
    have hspec := extendedTurn_spec read ext lba number
    rw [extendedLoop]
    generalize extendedTurn read ext lba number = turn at hspec ⊢
    cases hspec with
    | none hnone _ =>
      rw [Leads, hnone] at hnext
      cases hnext
    | last _ hnone =>
      rw [Leads, hnone] at hnext
      cases hnext
    | more _ hnext' =>
      rw [Leads, hnext'] at hnext
      cases hnext
      exact List.mem_cons_of_mem _ hmem

/-- A greater bound adds drives. -/
theorem mem_extendedLoop_mono (fuel k : Nat) (lba number : BitVec 32) {c : MbrChild}
    (hc : c ∈ (extendedLoop read ext fuel lba number).children) :
    c ∈ (extendedLoop read ext (fuel + k) lba number).children := by
  induction fuel generalizing lba number with
  | zero => cases hc
  | succ fuel ih =>
    rw [Nat.succ_add, extendedLoop]
    rw [extendedLoop] at hc
    cases hturn : extendedTurn read ext lba number with
    | inl w =>
      rw [hturn] at hc
      exact hc
    | inr r =>
      rw [hturn] at hc
      rcases List.mem_cons.mp hc with rfl | hc
      · exact List.mem_cons_self
      · exact List.mem_cons_of_mem _ (ih _ _ hc)

/-! ## Children that are in bounds -/

/-- The region of a child lies on the parent, and that of a logical drive in its extended
    partition. -/
structure MbrChild.InBounds (lastBlock : Nat) (c : MbrChild) : Prop where
  ordered : c.first.toNat ≤ c.last.toNat
  onParent : c.last.toNat ≤ lastBlock
  inside : ∀ ext, c.foundIn = some ext →
    ext.startingLBA.toNat ≤ c.first.toNat ∧ c.last.toNat < ext.stop

/-- Two children have no block in common. -/
def MbrChild.Disjoint (c c' : MbrChild) : Prop :=
  c.last.toNat < c'.first.toNat ∨ c'.last.toNat < c.first.toNat

/-- All children are in bounds, and those of primary records are disjoint. -/
structure ChildrenInBounds (lastBlock : Nat) (children : List MbrChild) : Prop where
  inBounds : ∀ c ∈ children, c.InBounds lastBlock
  disjoint : children.Pairwise fun c c' => c.foundIn = none → c'.foundIn = none → c.Disjoint c'

/-- The logical drive has a size, and its sum of 32 bits does not lead in front of the extended
    partition. -/
def GoodDrive (ext : MbrPartitionRecord) (lba : BitVec 32) (extMbr : MasterBootRecord) : Prop :=
  (extMbr.partition 0).sizeInLBA ≠ 0 ∧
    ext.startingLBA.toNat ≤ (logicalStart extMbr lba).toNat

theorem logicalDrive_inBounds {lastBlock : Nat} {lba : BitVec 32} (number : BitVec 32)
    {extMbr : MasterBootRecord} (hends : ext.endingLBA.toNat ≤ lastBlock)
    (hdrive : DriveAt read ext lba extMbr) :
    (logicalDrive ext extMbr lba number).InBounds lastBlock ↔ GoodDrive ext lba extMbr := by
  have hwithin := Nat.lt_of_not_le hdrive.within
  have hstart : (logicalStart extMbr lba).toNat < 2 ^ 32 := by
    unfold logicalStart
    bv_omega
  have hsize : (logicalSize extMbr).toNat = (extMbr.partition 0).sizeInLBA.toNat := by
    unfold logicalSize
    bv_omega
  have hlimit : ext.limit.toNat ≤ ext.stop := by
    unfold MbrPartitionRecord.limit MbrPartitionRecord.stop
    bv_omega
  have hending : 0 < ext.limit.toNat → ext.endingLBA.toNat + 1 = ext.limit.toNat := by
    unfold MbrPartitionRecord.limit MbrPartitionRecord.endingLBA
    bv_omega
  have hlt := (extMbr.partition 0).sizeInLBA.isLt
  have hlast : (logicalDrive ext extMbr lba number).last =
      logicalStart extMbr lba + logicalSize extMbr - 1 := rfl
  rw [← hlast] at hwithin
  constructor
  · intro h
    refine ⟨fun hzero => ?_, (h.inside ext rfl).1⟩
    -- the end is in front of the start
    have hordered := h.ordered
    rw [hlast] at hordered hwithin
    change (logicalStart extMbr lba).toNat ≤ _ at hordered
    rw [hzero] at hsize
    bv_omega
  · rintro ⟨hzero, hfront⟩
    have hordered : (logicalStart extMbr lba).toNat ≤
        (logicalDrive ext extMbr lba number).last.toNat := by
      rw [hlast]
      have : (extMbr.partition 0).sizeInLBA.toNat ≠ 0 :=
        fun h => hzero (BitVec.eq_of_toNat_eq h)
      bv_omega
    refine ⟨hordered, by omega, fun ext' hext => ?_⟩
    cases hext
    exact ⟨hfront, by omega⟩

/-! ## All records -/

section Records

variable {parent : Option HardDrive} {mbr : MasterBootRecord} {lastBlock : Nat}
  {seen : List MbrPartitionRecord}

theorem primaryPartition_first (mbr : MasterBootRecord) (r : MbrPartitionRecord)
    (number : BitVec 32) :
    (primaryPartition mbr r number).first.toNat = r.startingLBA.toNat := by
  change (r.startingLBA.setWidth 64).toNat = _
  bv_omega

theorem primaryPartition_last (mbr : MasterBootRecord) (number : BitVec 32) (hused : ¬ r.Unused) :
    (primaryPartition mbr r number).last.toNat + 1 = r.stop := by
  have hpos := MbrPartitionRecord.size_pos hused
  change (r.startingLBA.setWidth 64 + r.sizeInLBA.setWidth 64 - 1).toNat + 1 = _
  unfold MbrPartitionRecord.stop
  bv_omega

theorem primaryPartition_inBounds {number : BitVec 32} (hused : ¬ r.Unused) :
    (primaryPartition mbr r number).InBounds lastBlock ↔ r.stop ≤ lastBlock + 1 := by
  have hfirst := primaryPartition_first mbr r number
  have hlast := primaryPartition_last mbr number hused
  constructor
  · intro h
    have := h.onParent
    omega
  · intro h
    refine ⟨?_, by omega, fun ext hext => by cases hext⟩
    have hpos := MbrPartitionRecord.size_pos hused
    unfold MbrPartitionRecord.stop at hlast
    omega

/-- The children are in bounds, and those of primary records have no block in common with the
    regions of the records `seen`. -/
structure Clear (lastBlock : Nat) (seen : List MbrPartitionRecord) (children : List MbrChild) :
    Prop where
  bounds : ChildrenInBounds lastBlock children
  apart : ∀ r ∈ seen, ∀ c ∈ children, c.foundIn = none →
    r.stop ≤ c.first.toNat ∨ c.last.toNat < r.startingLBA.toNat

theorem clear_nil : Clear lastBlock seen [] := ⟨⟨by simp, .nil⟩, by simp⟩

/-- Logical drives in front of the other children. -/
theorem clear_drives {ws os : List MbrChild} (hws : ∀ c ∈ ws, c.foundIn ≠ none) :
    Clear lastBlock seen (ws ++ os) ↔
      (∀ c ∈ ws, c.InBounds lastBlock) ∧ Clear lastBlock seen os := by
  constructor
  · intro h
    refine ⟨fun c hc => h.bounds.inBounds c (List.mem_append_left _ hc), ⟨?_, ?_⟩, ?_⟩
    · exact fun c hc => h.bounds.inBounds c (List.mem_append_right _ hc)
    · exact (List.pairwise_append.mp h.bounds.disjoint).2.1
    · exact fun r hr c hc => h.apart r hr c (List.mem_append_right _ hc)
  · rintro ⟨hdrives, h⟩
    refine ⟨⟨fun c hc => ?_, ?_⟩, fun r hr c hc hnone => ?_⟩
    · rcases List.mem_append.mp hc with hc | hc
      · exact hdrives c hc
      · exact h.bounds.inBounds c hc
    · refine List.pairwise_append.mpr ⟨?_, h.bounds.disjoint, ?_⟩
      · exact List.pairwise_of_forall_mem_list fun c hc c' _ hnone => absurd hnone (hws c hc)
      · exact fun c hc c' _ hnone => absurd hnone (hws c hc)
    · rcases List.mem_append.mp hc with hc | hc
      · exact absurd hnone (hws c hc)
      · exact h.apart r hr c hc hnone

/-- The partition of a primary record in front of the other children. -/
theorem clear_primary {number : BitVec 32} {os : List MbrChild} (hused : ¬ r.Unused) :
    Clear lastBlock seen (primaryPartition mbr r number :: os) ↔
      r.stop ≤ lastBlock + 1 ∧ (∀ r' ∈ seen, r'.Apart r) ∧ Clear lastBlock (r :: seen) os := by
  have hfirst := primaryPartition_first mbr r number
  have hlast := primaryPartition_last mbr number hused
  constructor
  · intro h
    refine ⟨?_, fun r' hr' => ?_, ⟨⟨?_, ?_⟩, ?_⟩⟩
    · exact (primaryPartition_inBounds hused).mp (h.bounds.inBounds _ List.mem_cons_self)
    · have happart := h.apart r' hr' _ List.mem_cons_self rfl
      unfold MbrPartitionRecord.Apart
      omega
    · exact fun c hc => h.bounds.inBounds c (List.mem_cons_of_mem _ hc)
    · exact h.bounds.disjoint.of_cons
    · intro r' hr' c hc hnone
      rcases List.mem_cons.mp hr' with rfl | hr'
      · have hdisjoint := List.rel_of_pairwise_cons h.bounds.disjoint hc rfl hnone
        unfold MbrChild.Disjoint at hdisjoint
        omega
      · exact h.apart r' hr' c (List.mem_cons_of_mem _ hc) hnone
  · rintro ⟨hstop, hseen, h⟩
    refine ⟨⟨fun c hc => ?_, ?_⟩, fun r' hr' c hc hnone => ?_⟩
    · rcases List.mem_cons.mp hc with rfl | hc
      · exact (primaryPartition_inBounds hused).mpr hstop
      · exact h.bounds.inBounds c hc
    · refine h.bounds.disjoint.cons fun c hc _ hnone => ?_
      have happart := h.apart r List.mem_cons_self c hc hnone
      unfold MbrChild.Disjoint
      omega
    · rcases List.mem_cons.mp hc with rfl | hc
      · have happart := hseen r' hr'
        unfold MbrPartitionRecord.Apart at happart
        omega
      · exact h.apart r' (List.mem_cons_of_mem _ hr') c hc hnone

/-- What keeps the children in bounds, for the records that the loop comes to: no accepted record
    whose sum wraps leaves the parent or meets a record before it, and the logical drives are
    good. -/
def Sound (read : Nat → Option (List Byte)) (parent : Option HardDrive) (mbr : MasterBootRecord)
    (lastBlock : Nat) : List MbrPartitionRecord → List MbrPartitionRecord → Prop
  | _, [] => True
  | seen, r :: rest =>
    if r.Unused then Sound read parent mbr lastBlock seen rest
    else if r.Extended then
      (∀ lba extMbr, Relation.ReflTransGen (Leads (nextRecord read r)) r.startingLBA lba →
        DriveAt read r lba extMbr → GoodDrive r lba extMbr) ∧
      (NoCycle (nextRecord read r) r.startingLBA → ¬ BreaksOff read r r.startingLBA →
        Sound read parent mbr lastBlock seen rest)
    else if partOf parent (primaryPartition mbr r 0).node then
      (r.Wraps → r.stop ≤ lastBlock + 1) ∧
      (∀ r' ∈ seen, r'.Wraps ∨ r.Wraps → r'.Apart r) ∧
      Sound read parent mbr lastBlock (r :: seen) rest
    else Sound read parent mbr lastBlock seen rest

/-- What `PartitionValidMbr` has found out about the records to come. -/
structure Checked (lastBlock : Nat) (seen rest : List MbrPartitionRecord) : Prop where
  ends : ∀ r ∈ rest, ¬ r.Unused → r.endingLBA.toNat ≤ lastBlock
  pairs : rest.Pairwise fun r r' => ¬ r.Unused → ¬ r'.Unused → r.overlaps r' = false
  seen : ∀ r ∈ seen, ¬ r.Unused ∧ ∀ r' ∈ rest, ¬ r'.Unused → r.overlaps r' = false

theorem Checked.tail {rest : List MbrPartitionRecord} (h : Checked lastBlock seen (r :: rest)) :
    Checked lastBlock seen rest where
  ends r' hr' := h.ends r' (List.mem_cons_of_mem _ hr')
  pairs := h.pairs.of_cons
  seen r' hr' := ⟨(h.seen r' hr').1, fun r'' hr'' =>
    (h.seen r' hr').2 r'' (List.mem_cons_of_mem _ hr'')⟩

theorem Checked.see {rest : List MbrPartitionRecord} (h : Checked lastBlock seen (r :: rest))
    (hused : ¬ r.Unused) : Checked lastBlock (r :: seen) rest where
  ends := h.tail.ends
  pairs := h.tail.pairs
  seen r' hr' := by
    rcases List.mem_cons.mp hr' with rfl | hr'
    · exact ⟨hused, fun r'' hr'' => List.rel_of_pairwise_cons h.pairs hr'' hused⟩
    · exact h.tail.seen r' hr'

/-- Only sums that wrap have to be looked at. -/
theorem Checked.primary {rest : List MbrPartitionRecord} (h : Checked lastBlock seen (r :: rest))
    (hused : ¬ r.Unused) :
    (r.stop ≤ lastBlock + 1 ∧ ∀ r' ∈ seen, r'.Apart r) ↔
      (r.Wraps → r.stop ≤ lastBlock + 1) ∧ ∀ r' ∈ seen, r'.Wraps ∨ r.Wraps → r'.Apart r := by
  constructor
  · exact fun ⟨hstop, hseen⟩ => ⟨fun _ => hstop, fun r' hr' _ => hseen r' hr'⟩
  · rintro ⟨hstop, hseen⟩
    constructor
    · by_cases hwraps : r.Wraps
      · exact hstop hwraps
      · have := MbrPartitionRecord.endingLBA_of_not_wraps hused hwraps
        have := h.ends r List.mem_cons_self hused
        omega
    · intro r' hr'
      by_cases hwraps : r'.Wraps ∨ r.Wraps
      · exact hseen r' hr' hwraps
      · obtain ⟨hused', hoverlaps⟩ := h.seen r' hr'
        exact MbrPartitionRecord.apart_of_not_overlaps hused' hused
          (fun h' => hwraps (.inl h')) (fun h' => hwraps (.inr h'))
          (hoverlaps r List.mem_cons_self hused)

theorem partOf_primaryPartition (number : BitVec 32) :
    partOf parent (primaryPartition mbr r number).node =
      partOf parent (primaryPartition mbr r 0).node := by
  cases parent <;> rfl

/-- All children of an extended partition are logical drives. -/
theorem extendedLoop_foundIn (read : Nat → Option (List Byte)) (ext : MbrPartitionRecord)
    (fuel : Nat) (lba number : BitVec 32) :
    ∀ c ∈ (extendedLoop read ext fuel lba number).children, c.foundIn ≠ none := by
  intro c hc
  obtain ⟨lba', extMbr, number', -, -, rfl⟩ := mem_extendedLoop fuel lba number hc
  exact Option.some_ne_none _

theorem installRecords_clear (rs : List MbrPartitionRecord) (fuel : Nat) (number : BitVec 32)
    (hchecked : Checked lastBlock seen rs) (h : Sound read parent mbr lastBlock seen rs) :
    Clear lastBlock seen (installRecords read parent mbr fuel number rs).children := by
  induction rs generalizing seen number with
  | nil => exact clear_nil
  | cons r rest ih =>
    rw [Sound] at h
    rw [installRecords]
    by_cases hunused : r.Unused
    · rw [if_pos hunused] at h ⊢
      exact ih number hchecked.tail h
    rw [if_neg hunused] at h ⊢
    by_cases hext : r.Extended
    · rw [if_pos hext] at h ⊢
      obtain ⟨hdrives, hrest⟩ := h
      dsimp only
      have hfound := extendedLoop_foundIn read r fuel r.startingLBA number
      have hgood : ∀ c ∈ (extendedLoop read r fuel r.startingLBA number).children,
          c.InBounds lastBlock := by
        intro c hc
        obtain ⟨lba, extMbr, number', hreached, hdrive, rfl⟩ := mem_extendedLoop _ _ _ hc
        rw [logicalDrive_inBounds number' (hchecked.ends r List.mem_cons_self hunused) hdrive]
        exact hdrives lba extMbr hreached hdrive
      by_cases hfinished : (extendedLoop read r fuel r.startingLBA number).ending = .finished
      · rw [if_pos hfinished]
        have hends : (extendedLoop read r fuel r.startingLBA number).ending ≠ .running := by
          rw [hfinished]
          decide
        refine (clear_drives hfound).mpr ⟨hgood, ih _ hchecked.tail (hrest ?_ ?_)⟩
        · exact (walk_nodup hends).2
        · rw [← extendedLoop_ending fuel _ number hends, hfinished]
          decide
      · rw [if_neg hfinished]
        rw [← List.append_nil (extendedLoop read r fuel r.startingLBA number).children]
        exact (clear_drives hfound).mpr ⟨hgood, clear_nil⟩
    · rw [if_neg hext] at h ⊢
      dsimp only
      rw [partOf_primaryPartition]
      by_cases hpart : partOf parent (primaryPartition mbr r 0).node = true
      · rw [if_pos hpart] at h ⊢
        obtain ⟨hstop, hseen, hrest⟩ := h
        obtain ⟨hstop, hseen⟩ := (hchecked.primary hunused).mpr ⟨hstop, hseen⟩
        exact (clear_primary hunused).mpr
          ⟨hstop, hseen, ih (number + 1) (hchecked.see hunused) hrest⟩
      · rw [if_neg hpart] at h ⊢
        exact ih (number + 1) hchecked.tail h

theorem sound_of_clear (rs : List MbrPartitionRecord) (n : Nat) (number : BitVec 32)
    (hchecked : Checked lastBlock seen rs)
    (h : ∀ k, Clear lastBlock seen (installRecords read parent mbr (n + k) number rs).children) :
    Sound read parent mbr lastBlock seen rs := by
  induction rs generalizing seen number n with
  | nil => trivial
  | cons r rest ih =>
    rw [Sound]
    simp only [installRecords] at h
    by_cases hunused : r.Unused
    · simp only [if_pos hunused] at h
      rw [if_pos hunused]
      exact ih n number hchecked.tail h
    simp only [if_neg hunused] at h
    rw [if_neg hunused]
    by_cases hext : r.Extended
    · simp only [if_pos hext] at h
      rw [if_pos hext]
      have hfound := fun fuel =>
        extendedLoop_foundIn read r fuel r.startingLBA number
      constructor
      · intro lba extMbr hreached hdrive
        obtain ⟨fuel, number', hmem⟩ := extendedLoop_reaches hreached hdrive number
        -- the drive is among the children once the bound is great enough
        have hmem' := mem_extendedLoop_mono fuel n _ _ hmem
        rw [Nat.add_comm] at hmem'
        have hall := h fuel
        rw [← logicalDrive_inBounds number'
          (hchecked.ends r List.mem_cons_self hunused) hdrive]
        refine hall.bounds.inBounds _ ?_
        split
        · exact List.mem_append_left _ hmem'
        · exact hmem'
      · intro hcycle hbreaks
        obtain ⟨m, l, hl⟩ := follow_of_noCycle hcycle
        have hwalk := (extendedLoop_visited m r.startingLBA number hl).1
        have hfinished : (extendedLoop read r m r.startingLBA number).ending = .finished := by
          cases hending : (extendedLoop read r m r.startingLBA number).ending with
          | finished => rfl
          | readError => exact absurd ((extendedLoop_ending m _ number hwalk).mp hending) hbreaks
          | running => exact absurd hending hwalk
        refine ih (m + n) (extendedLoop read r m r.startingLBA number).partitionNumber
          hchecked.tail fun k => ?_
        have hall := h (m + k)
        rw [show n + (m + k) = m + (n + k) by omega, extendedLoop_mono m (n + k) _ _ hwalk,
          if_pos hfinished, ← Nat.add_assoc] at hall
        exact ((clear_drives (hfound m)).mp hall).2
    · simp only [if_neg hext, partOf_primaryPartition] at h
      rw [if_neg hext]
      by_cases hpart : partOf parent (primaryPartition mbr r 0).node = true
      · simp only [if_pos hpart] at h
        rw [if_pos hpart]
        have hall := fun k => (clear_primary hunused).mp (h k)
        obtain ⟨hstop, hseen⟩ :=
          (hchecked.primary hunused).mp ⟨(hall 0).1, (hall 0).2.1⟩
        exact ⟨hstop, hseen, ih n (number + 1) (hchecked.see hunused) fun k => (hall k).2.2⟩
      · simp only [if_neg hpart] at h
        rw [if_neg hpart]
        exact ih n (number + 1) hchecked.tail h

end Records

/-- The property of the regions: all children that the call passes on are in bounds. -/
def MbrChildrenInBounds (read : Nat → Option (List Byte)) (lastBlock : Nat) (memory : Bool)
    (parent : Option HardDrive) (install : MbrChild → Bool) : Prop :=
  ∀ fuel, ChildrenInBounds lastBlock
    (partitionInstallMbrChildHandles read lastBlock memory parent install fuel).1.children

theorem mbrChildrenInBounds_iff (read : Nat → Option (List Byte)) (lastBlock : Nat)
    (memory : Bool) (parent : Option HardDrive) (install : MbrChild → Bool) :
    MbrChildrenInBounds read lastBlock memory parent install ↔
      ∀ block, memory = true → read 0 = some block →
        partitionValidMbr (.ofBlock block) lastBlock = true →
        Sound read parent (.ofBlock block) lastBlock []
          (MasterBootRecord.ofBlock block).partitions := by
  have hchecked : ∀ block, partitionValidMbr (.ofBlock block) lastBlock = true →
      Checked lastBlock [] (MasterBootRecord.ofBlock block).partitions := by
    intro block hvalid
    obtain ⟨-, hvalid⟩ := of_decide_eq_true hvalid
    obtain ⟨hends, hpairs⟩ := validRecords_spec hvalid
    exact ⟨hends, hpairs, by simp⟩
  constructor
  · rintro h block rfl hread hvalid
    refine sound_of_clear _ 0 1 (hchecked block hvalid) fun k => ⟨?_, by simp⟩
    have hall := h (0 + k)
    rwa [partitionInstallMbrChildHandles_valid parent install hread hvalid] at hall
  · intro h fuel
    by_cases hrefused : ∀ block, memory = true → read 0 = some block →
        ¬ partitionValidMbr (.ofBlock block) lastBlock = true
    · rw [partitionInstallMbrChildHandles_refused parent install fuel hrefused]
      exact ⟨by simp, .nil⟩
    · push Not at hrefused
      obtain ⟨block, rfl, hread, hvalid⟩ := hrefused
      rw [partitionInstallMbrChildHandles_valid parent install hread hvalid]
      exact (installRecords_clear _ fuel 1 (hchecked block hvalid)
        (h block rfl hread hvalid)).bounds

/-- A medium with one primary record. -/
def onePrimary (r : MbrPartitionRecord) (lba : Nat) : Option (List Byte) :=
  if lba = 0 then some (mbrBlock r ⟨0, 0, 0⟩) else none

/-- The record leads around the end of the 32 bits, behind the last block of the parent. -/
theorem not_mbrChildrenInBounds_wraps :
    ¬ MbrChildrenInBounds (onePrimary ⟨0x83, 0xFFFFFFFF, 2⟩) 100 true none fun _ => true := by
  intro h
  have hvalid : partitionValidMbr (.ofBlock (mbrBlock ⟨0x83, 0xFFFFFFFF, 2⟩ ⟨0, 0, 0⟩)) 100 =
      true := by decide +kernel
  have hpartitions : (MasterBootRecord.ofBlock
      (mbrBlock ⟨0x83, 0xFFFFFFFF, 2⟩ ⟨0, 0, 0⟩)).partition 0 = ⟨0x83, 0xFFFFFFFF, 2⟩ := by
    decide +kernel
  have hread : onePrimary ⟨0x83, 0xFFFFFFFF, 2⟩ 0 =
    some (mbrBlock ⟨0x83, 0xFFFFFFFF, 2⟩ ⟨0, 0, 0⟩) := if_pos rfl
  have hchildren := h 0
  generalize mbrBlock ⟨0x83, 0xFFFFFFFF, 2⟩ ⟨0, 0, 0⟩ = block at hvalid hpartitions hread
  rw [partitionInstallMbrChildHandles_valid none _ hread hvalid] at hchildren
  have hmem : primaryPartition (.ofBlock block) ⟨0x83, 0xFFFFFFFF, 2⟩ 1 ∈
      (installRecords (onePrimary ⟨0x83, 0xFFFFFFFF, 2⟩) none (.ofBlock block) 0 1
        (MasterBootRecord.ofBlock block).partitions).children := by
    rw [show (MasterBootRecord.ofBlock block).partitions =
      (MasterBootRecord.ofBlock block).partition 0 ::
        [1, 2, 3].map (MasterBootRecord.ofBlock block).partition from rfl, hpartitions,
      installRecords, if_neg (by decide), if_neg (by decide)]
    exact List.mem_cons_self
  have hstop := (primaryPartition_inBounds (by decide)).mp (hchildren.inBounds _ hmem)
  revert hstop
  decide


end EfiCore.Disk
