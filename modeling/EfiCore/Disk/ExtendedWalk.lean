import EfiCore.Disk.Mbr

/-! # The walk over the logical drives

The loop over an extended partition goes from record to record on the medium.  It looks only at
where the next record is, so it ends unless the records lead back to one of them.
-/

namespace EfiCore.Disk

open EfiCore.Lib

variable {read : Nat → Option (List Byte)} {ext : MbrPartitionRecord}

/-! ## The chain of the records -/

/-- The record after the one in the block `lba`. -/
def nextRecord (read : Nat → Option (List Byte)) (ext : MbrPartitionRecord) (lba : BitVec 32) :
    Option (BitVec 32) :=
  if lba = 0 then none
  else
    (read lba.toNat).bind fun block =>
      let extMbr := MasterBootRecord.ofBlock block
      if (extMbr.partition 0).osIndicator = 0 ∨ Beyond ext extMbr lba ∨
          ¬ (extMbr.partition 1).Extended then none
      else
        let next := ext.startingLBA + (extMbr.partition 1).startingLBA
        if next < ext.limit then some next else none

/-- What the block `lba` holds is the record of a drive in the extended partition. -/
structure DriveAt (read : Nat → Option (List Byte)) (ext : MbrPartitionRecord) (lba : BitVec 32)
    (extMbr : MasterBootRecord) : Prop where
  nonzero : lba ≠ 0
  block : ∃ block, read lba.toNat = some block ∧ extMbr = .ofBlock block
  used : (extMbr.partition 0).osIndicator ≠ 0
  within : ¬ Beyond ext extMbr lba

/-- What a turn of the loop does. -/
inductive TurnSpec (read : Nat → Option (List Byte)) (ext : MbrPartitionRecord)
    (lba number : BitVec 32) : Walk ⊕ BitVec 32 × MbrChild → Prop
  /-- The block is not that of a drive. -/
  | none {number' : BitVec 32} (hnext : nextRecord read ext lba = none)
      (hnone : ∀ extMbr, ¬ DriveAt read ext lba extMbr) :
      TurnSpec read ext lba number (.inl ⟨[lba].filter (· ≠ 0), [], number',
        if lba ≠ 0 ∧ read lba.toNat = none then .readError else .finished⟩)
  /-- The drive is the last one. -/
  | last {extMbr : MasterBootRecord} (hdrive : DriveAt read ext lba extMbr)
      (hnext : nextRecord read ext lba = none) :
      TurnSpec read ext lba number
        (.inl ⟨[lba], [logicalDrive ext extMbr lba number], number + 1, .finished⟩)
  | more {extMbr : MasterBootRecord} {next : BitVec 32} (hdrive : DriveAt read ext lba extMbr)
      (hnext : nextRecord read ext lba = some next) :
      TurnSpec read ext lba number (.inr (next, logicalDrive ext extMbr lba number))

theorem extendedTurn_spec (read : Nat → Option (List Byte)) (ext : MbrPartitionRecord)
    (lba number : BitVec 32) : TurnSpec read ext lba number (extendedTurn read ext lba number) := by
  have hnone : ∀ {visited : List (BitVec 32)} {number' : BitVec 32} {ending : Ending},
      nextRecord read ext lba = none → (∀ extMbr, ¬ DriveAt read ext lba extMbr) →
      visited = [lba].filter (· ≠ 0) →
      ending = (if lba ≠ 0 ∧ read lba.toNat = none then .readError else .finished) →
      TurnSpec read ext lba number (.inl ⟨visited, [], number', ending⟩) := by
    rintro _ _ _ hnext hnone rfl rfl
    exact .none hnext hnone
  unfold extendedTurn
  by_cases hzero : lba = 0
  · rw [if_pos hzero]
    refine hnone (by rw [nextRecord, if_pos hzero]) (fun _ h => h.nonzero hzero) ?_ ?_
    · rw [hzero]
      rfl
    · rw [if_neg fun h => h.1 hzero]
  have hfilter : [lba] = [lba].filter (· ≠ 0) :=
    (List.filter_eq_self.mpr fun a ha => by simpa using List.mem_singleton.mp ha ▸ hzero).symm
  rw [if_neg hzero]
  cases hread : read lba.toNat with
  | none =>
    refine hnone (by rw [nextRecord, if_neg hzero, hread]; rfl) (fun _ h => ?_) hfilter
      (if_pos ⟨hzero, hread⟩).symm
    obtain ⟨block, hblock, -⟩ := h.block
    rw [hread] at hblock
    cases hblock
  | some block =>
    have hnext : ∀ next, nextRecord read ext lba = next ↔
        (if ((MasterBootRecord.ofBlock block).partition 0).osIndicator = 0 ∨
            Beyond ext (.ofBlock block) lba ∨
            ¬ ((MasterBootRecord.ofBlock block).partition 1).Extended then none
          else if ext.startingLBA + ((MasterBootRecord.ofBlock block).partition 1).startingLBA <
            ext.limit then
            some (ext.startingLBA + ((MasterBootRecord.ofBlock block).partition 1).startingLBA)
          else none) = next := by
      intro next
      rw [nextRecord, if_neg hzero, hread]
      rfl
    have hending : Ending.finished =
        (if lba ≠ 0 ∧ read lba.toNat = none then .readError else .finished) := by
      rw [if_neg (by simp [hread])]
    have hblock : ∀ extMbr, DriveAt read ext lba extMbr → extMbr = .ofBlock block := by
      intro extMbr h
      obtain ⟨block', hblock', rfl⟩ := h.block
      rw [hread] at hblock'
      cases hblock'
      rfl
    dsimp only
    by_cases hunused : ((MasterBootRecord.ofBlock block).partition 0).osIndicator = 0
    · rw [if_pos hunused]
      exact hnone ((hnext _).mpr (if_pos (.inl hunused)))
        (fun _ h => h.used (hblock _ h ▸ hunused)) hfilter hending
    rw [if_neg hunused]
    by_cases hbeyond : Beyond ext (.ofBlock block) lba
    · rw [if_pos hbeyond]
      exact hnone ((hnext _).mpr (if_pos (.inr (.inl hbeyond))))
        (fun _ h => h.within (hblock _ h ▸ hbeyond)) hfilter hending
    rw [if_neg hbeyond]
    have hdrive : DriveAt read ext lba (.ofBlock block) :=
      ⟨hzero, ⟨block, hread, rfl⟩, hunused, hbeyond⟩
    by_cases hlast : ¬ ((MasterBootRecord.ofBlock block).partition 1).Extended
    · rw [if_pos hlast]
      exact .last hdrive ((hnext _).mpr (if_pos (.inr (.inr hlast))))
    rw [if_neg hlast]
    have hgoes := not_or.mpr ⟨hunused, not_or.mpr ⟨hbeyond, hlast⟩⟩
    by_cases hlt : ext.startingLBA +
        ((MasterBootRecord.ofBlock block).partition 1).startingLBA < ext.limit
    · rw [if_pos hlt]
      exact .more hdrive ((hnext _).mpr (by rw [if_neg hgoes, if_pos hlt]))
    · rw [if_neg hlt]
      exact .last hdrive ((hnext _).mpr (by rw [if_neg hgoes, if_neg hlt]))

/-! ## One extended partition -/

theorem extendedLoop_visited (fuel : Nat) (lba number : BitVec 32) {l : List (BitVec 32)}
    (h : follow (nextRecord read ext) fuel lba = some l) :
    (extendedLoop read ext fuel lba number).ending ≠ .running ∧
      (extendedLoop read ext fuel lba number).visited = l.filter (· ≠ 0) := by
  induction fuel generalizing lba number l with
  | zero => cases h
  | succ fuel ih =>
    have hspec := extendedTurn_spec read ext lba number
    rw [extendedLoop]
    generalize extendedTurn read ext lba number = turn at hspec ⊢
    cases hspec with
    | none hnext _ =>
      rw [follow_end hnext] at h
      cases h
      refine ⟨?_, rfl⟩
      dsimp only
      split <;> decide
    | last hdrive hnext =>
      rw [follow_end hnext] at h
      cases h
      refine ⟨by simp, (List.filter_eq_self.mpr fun a ha => ?_).symm⟩
      simpa using List.mem_singleton.mp ha ▸ hdrive.nonzero
    | more hdrive hnext =>
      rw [follow_next hnext] at h
      obtain ⟨l', hl', rfl⟩ := Option.map_eq_some_iff.mp h
      obtain ⟨hending, hvisited⟩ := ih _ (number + 1) hl'
      refine ⟨hending, ?_⟩
      rw [List.filter_cons_of_pos (by simpa using hdrive.nonzero), ← hvisited]
      rfl

theorem follow_of_extendedLoop (fuel : Nat) (lba number : BitVec 32)
    (h : (extendedLoop read ext fuel lba number).ending ≠ .running) :
    ∃ l, follow (nextRecord read ext) fuel lba = some l := by
  induction fuel generalizing lba number with
  | zero => exact absurd rfl h
  | succ fuel ih =>
    have hspec := extendedTurn_spec read ext lba number
    rw [extendedLoop] at h
    generalize extendedTurn read ext lba number = turn at hspec h
    cases hspec with
    | none hnext _ => exact ⟨_, follow_end hnext⟩
    | last _ hnext => exact ⟨_, follow_end hnext⟩
    | more _ hnext =>
      obtain ⟨l, hl⟩ := ih _ (number + 1) h
      exact ⟨lba :: l, by rw [follow_next hnext, hl]; rfl⟩

/-- A walk that has ended is not changed by a greater bound. -/
theorem extendedLoop_mono (fuel k : Nat) (lba number : BitVec 32)
    (h : (extendedLoop read ext fuel lba number).ending ≠ .running) :
    extendedLoop read ext (fuel + k) lba number = extendedLoop read ext fuel lba number := by
  induction fuel generalizing lba number with
  | zero => exact absurd rfl h
  | succ fuel ih =>
    rw [Nat.succ_add, extendedLoop, extendedLoop]
    rw [extendedLoop] at h
    cases hturn : extendedTurn read ext lba number with
    | inl w => rfl
    | inr r =>
      rw [hturn] at h
      exact congrArg (Walk.visit lba r.2) (ih r.1 (number + 1) h)

/-- The chain of the records leads to a block that cannot be read. -/
def BreaksOff (read : Nat → Option (List Byte)) (ext : MbrPartitionRecord) (lba : BitVec 32) :
    Prop :=
  ∃ b, Relation.ReflTransGen (Leads (nextRecord read ext)) lba b ∧ b ≠ 0 ∧ read b.toNat = none

theorem breaksOff_end {lba : BitVec 32} (hnext : nextRecord read ext lba = none) :
    BreaksOff read ext lba ↔ lba ≠ 0 ∧ read lba.toNat = none := by
  constructor
  · rintro ⟨b, hb, h⟩
    rcases hb.cases_head with rfl | ⟨c, hc, -⟩
    · exact h
    · rw [Leads, hnext] at hc
      cases hc
  · exact fun h => ⟨lba, .refl, h⟩

theorem breaksOff_next {lba next : BitVec 32} (hnext : nextRecord read ext lba = some next)
    {extMbr : MasterBootRecord} (hdrive : DriveAt read ext lba extMbr) :
    BreaksOff read ext lba ↔ BreaksOff read ext next := by
  constructor
  · rintro ⟨b, hb, hzero, hread⟩
    rcases hb.cases_head with rfl | ⟨c, hc, hcb⟩
    · obtain ⟨block, hblock, -⟩ := hdrive.block
      rw [hread] at hblock
      cases hblock
    · rw [Leads, hnext] at hc
      cases hc
      exact ⟨b, hcb, hzero, hread⟩
  · rintro ⟨b, hb, h⟩
    exact ⟨b, .head hnext hb, h⟩

/-- A walk that has ended has ended with an error if the chain breaks off. -/
theorem extendedLoop_ending (fuel : Nat) (lba number : BitVec 32)
    (h : (extendedLoop read ext fuel lba number).ending ≠ .running) :
    (extendedLoop read ext fuel lba number).ending = .readError ↔ BreaksOff read ext lba := by
  induction fuel generalizing lba number with
  | zero => exact absurd rfl h
  | succ fuel ih =>
    have hspec := extendedTurn_spec read ext lba number
    rw [extendedLoop] at h ⊢
    generalize extendedTurn read ext lba number = turn at hspec h ⊢
    cases hspec with
    | none hnext _ =>
      rw [breaksOff_end hnext]
      dsimp only
      split
      · exact iff_of_true rfl ‹_›
      · exact iff_of_false (by decide) ‹_›
    | last hdrive hnext =>
      obtain ⟨block, hblock, -⟩ := hdrive.block
      rw [breaksOff_end hnext]
      refine iff_of_false (by simp) ?_
      rintro ⟨-, hread⟩
      rw [hread] at hblock
      cases hblock
    | more hdrive hnext =>
      rw [breaksOff_next hnext hdrive]
      exact ih _ (number + 1) h

/-! ## All records -/

section Records

variable {parent : Option HardDrive} {mbr : MasterBootRecord}

theorem installRecords_mono (rs : List MbrPartitionRecord) (fuel k : Nat) (number : BitVec 32)
    (h : (installRecords read parent mbr fuel number rs).ending ≠ .running) :
    installRecords read parent mbr (fuel + k) number rs =
      installRecords read parent mbr fuel number rs := by
  induction rs generalizing number with
  | nil => rfl
  | cons r rest ih =>
    rw [installRecords, installRecords]
    rw [installRecords] at h
    by_cases hunused : r.Unused
    · rw [if_pos hunused] at h ⊢
      rw [if_pos hunused]
      exact ih number h
    rw [if_neg hunused] at h ⊢
    rw [if_neg hunused]
    by_cases hext : r.Extended
    · rw [if_pos hext] at h ⊢
      rw [if_pos hext]
      dsimp only at h ⊢
      have hwalk : (extendedLoop read r fuel r.startingLBA number).ending ≠ .running := by
        intro hrunning
        rw [if_neg (by rw [hrunning]; decide)] at h
        exact h hrunning
      rw [extendedLoop_mono fuel k _ _ hwalk]
      by_cases hfinished : (extendedLoop read r fuel r.startingLBA number).ending = .finished
      · rw [if_pos hfinished] at h ⊢
        rw [if_pos hfinished, ih _ h]
      · rw [if_neg hfinished, if_neg hfinished]
    · rw [if_neg hext] at h ⊢
      rw [if_neg hext]
      dsimp only at h ⊢
      rw [ih (number + 1) (by split at h <;> exact h)]

/-- The chains of the extended partitions have no cycle, up to the first one that leads to a block
    that cannot be read. -/
def WalksEnd (read : Nat → Option (List Byte)) : List MbrPartitionRecord → Prop
  | [] => True
  | r :: rest =>
    if r.Unused ∨ ¬ r.Extended then WalksEnd read rest
    else NoCycle (nextRecord read r) r.startingLBA ∧
      (BreaksOff read r r.startingLBA ∨ WalksEnd read rest)

theorem walk_nodup {r : MbrPartitionRecord} {fuel : Nat} {lba number : BitVec 32}
    (h : (extendedLoop read r fuel lba number).ending ≠ .running) :
    (extendedLoop read r fuel lba number).visited.Nodup ∧ NoCycle (nextRecord read r) lba := by
  obtain ⟨l, hl⟩ := follow_of_extendedLoop fuel lba number h
  rw [(extendedLoop_visited fuel lba number hl).2]
  exact ⟨(follow_nodup hl).filter _, noCycle_of_follow hl⟩

theorem installRecords_ends (rs : List MbrPartitionRecord) (fuel : Nat) (number : BitVec 32)
    (h : (installRecords read parent mbr fuel number rs).ending ≠ .running) :
    (∀ visited ∈ (installRecords read parent mbr fuel number rs).walks, visited.Nodup) ∧
      WalksEnd read rs := by
  induction rs generalizing number with
  | nil => exact ⟨by simp [installRecords], trivial⟩
  | cons r rest ih =>
    rw [installRecords] at h ⊢
    rw [WalksEnd]
    by_cases hunused : r.Unused
    · rw [if_pos hunused] at h ⊢
      rw [if_pos (.inl hunused)]
      exact ih number h
    rw [if_neg hunused] at h ⊢
    by_cases hext : r.Extended
    · rw [if_pos hext] at h ⊢
      rw [if_neg (not_or.mpr ⟨hunused, not_not_intro hext⟩)]
      dsimp only at h ⊢
      have hwalk : (extendedLoop read r fuel r.startingLBA number).ending ≠ .running := by
        intro hrunning
        rw [if_neg (by rw [hrunning]; decide)] at h
        exact h hrunning
      obtain ⟨hnodup, hcycle⟩ := walk_nodup hwalk
      by_cases hfinished : (extendedLoop read r fuel r.startingLBA number).ending = .finished
      · rw [if_pos hfinished] at h ⊢
        obtain ⟨hrest, hends⟩ := ih _ h
        refine ⟨fun visited hmem => ?_, hcycle, .inr hends⟩
        rcases List.mem_cons.mp hmem with rfl | hmem
        · exact hnodup
        · exact hrest visited hmem
      · rw [if_neg hfinished]
        have herror : (extendedLoop read r fuel r.startingLBA number).ending = .readError := by
          cases he : (extendedLoop read r fuel r.startingLBA number).ending with
          | readError => rfl
          | finished => exact absurd he hfinished
          | running => exact absurd he hwalk
        refine ⟨fun visited hmem => ?_, hcycle,
          .inl ((extendedLoop_ending fuel _ number hwalk).mp herror)⟩
        rw [List.mem_singleton.mp hmem]
        exact hnodup
    · rw [if_neg hext] at h ⊢
      rw [if_pos (show r.Unused ∨ ¬ r.Extended from .inr hext)]
      dsimp only at h ⊢
      obtain ⟨hrest, hends⟩ := ih (number + 1) (by split at h <;> exact h)
      refine ⟨?_, hends⟩
      split <;> exact hrest

instance finite_sector : Finite (BitVec 32) := .of_injective BitVec.toFin fun _ _ h => BitVec.eq_of_toFin_eq h

theorem installRecords_of_walksEnd (parent : Option HardDrive) (mbr : MasterBootRecord)
    (rs : List MbrPartitionRecord) (number : BitVec 32)
    (h : WalksEnd read rs) :
    ∃ fuel, (installRecords read parent mbr fuel number rs).ending ≠ .running := by
  induction rs generalizing number with
  | nil => exact ⟨0, by simp [installRecords]⟩
  | cons r rest ih =>
    rw [WalksEnd] at h
    simp only [installRecords]
    by_cases hunused : r.Unused
    · rw [if_pos (.inl hunused)] at h
      simp only [if_pos hunused]
      exact ih number h
    simp only [if_neg hunused]
    by_cases hext : r.Extended
    · rw [if_neg (not_or.mpr ⟨hunused, not_not_intro hext⟩)] at h
      simp only [if_pos hext]
      obtain ⟨hcycle, hrest⟩ := h
      obtain ⟨n, l, hl⟩ := follow_of_noCycle hcycle
      have hwalk := (extendedLoop_visited n r.startingLBA number hl).1
      by_cases hfinished : (extendedLoop read r n r.startingLBA number).ending = .finished
      · have hbreaks : ¬ BreaksOff read r r.startingLBA := by
          rw [← extendedLoop_ending n _ number hwalk, hfinished]
          decide
        obtain ⟨m, hm⟩ := ih (extendedLoop read r n r.startingLBA number).partitionNumber
          (hrest.resolve_left hbreaks)
        refine ⟨n + m, ?_⟩
        rw [extendedLoop_mono n m _ _ hwalk, if_pos hfinished, Nat.add_comm n m,
          installRecords_mono _ _ _ _ hm]
        exact hm
      · refine ⟨n, ?_⟩
        rw [if_neg hfinished]
        exact hwalk
    · rw [if_pos (.inr hext)] at h
      simp only [if_neg hext]
      obtain ⟨m, hm⟩ := ih (number + 1) h
      refine ⟨m, ?_⟩
      split <;> exact hm

end Records

/-- There is no valid master boot record. -/
theorem partitionInstallMbrChildHandles_refused {lastBlock : Nat} {memory : Bool}
    (parent : Option HardDrive) (install : MbrChild → Bool) (fuel : Nat)
    (h : ∀ block, memory = true → read 0 = some block →
      ¬ partitionValidMbr (.ofBlock block) lastBlock = true) :
    partitionInstallMbrChildHandles read lastBlock memory parent install fuel =
      (⟨[], [], .finished⟩, false) := by
  unfold partitionInstallMbrChildHandles
  cases memory with
  | false => rfl
  | true =>
    rw [if_neg (by decide)]
    cases hread : read 0 with
    | none => rfl
    | some block =>
      dsimp only
      rw [if_neg (h block rfl hread)]

theorem partitionInstallMbrChildHandles_valid {lastBlock fuel : Nat} {block : List Byte}
    (parent : Option HardDrive) (install : MbrChild → Bool) (hread : read 0 = some block)
    (hvalid : partitionValidMbr (.ofBlock block) lastBlock = true) :
    (partitionInstallMbrChildHandles read lastBlock true parent install fuel).1 =
      installRecords read parent (.ofBlock block) fuel 1
        (MasterBootRecord.ofBlock block).partitions := by
  unfold partitionInstallMbrChildHandles
  rw [if_neg (by decide), hread]
  dsimp only
  rw [if_pos hvalid]

/-- The property of the walk: the function ends, and has read no record of a chain twice. -/
def MbrWalkEnds (read : Nat → Option (List Byte)) (lastBlock : Nat) (memory : Bool)
    (parent : Option HardDrive) (install : MbrChild → Bool) : Prop :=
  ∃ fuel,
    (partitionInstallMbrChildHandles read lastBlock memory parent install fuel).1.ending ≠ .running ∧
    ∀ visited ∈ (partitionInstallMbrChildHandles read lastBlock memory parent install fuel).1.walks,
      visited.Nodup

theorem MbrWalkEnds.walksEnd {lastBlock : Nat} {parent : Option HardDrive}
    {install : MbrChild → Bool} (h : MbrWalkEnds read lastBlock true parent install)
    {block : List Byte} (hread : read 0 = some block)
    (hvalid : partitionValidMbr (.ofBlock block) lastBlock = true) :
    WalksEnd read (MasterBootRecord.ofBlock block).partitions := by
  obtain ⟨fuel, hends, -⟩ := h
  rw [partitionInstallMbrChildHandles_valid parent install hread hvalid] at hends
  exact (installRecords_ends _ fuel 1 hends).2

theorem mbrWalkEnds_iff (read : Nat → Option (List Byte)) (lastBlock : Nat) (memory : Bool)
    (parent : Option HardDrive) (install : MbrChild → Bool) :
    MbrWalkEnds read lastBlock memory parent install ↔
      ∀ block, memory = true → read 0 = some block →
        partitionValidMbr (.ofBlock block) lastBlock = true →
        WalksEnd read (MasterBootRecord.ofBlock block).partitions := by
  by_cases hrefused : ∀ block, memory = true → read 0 = some block →
      ¬ partitionValidMbr (.ofBlock block) lastBlock = true
  · have hcall := partitionInstallMbrChildHandles_refused parent install 0 hrefused
    refine iff_of_true ⟨0, by simp [hcall], by simp [hcall]⟩ ?_
    exact fun block hmemory hread hvalid => absurd hvalid (hrefused block hmemory hread)
  · push Not at hrefused
    obtain ⟨block, rfl, hread, hvalid⟩ := hrefused
    constructor
    · intro h block' _ hread' hvalid'
      exact h.walksEnd hread' hvalid'
    · intro h
      obtain ⟨fuel, hends⟩ := installRecords_of_walksEnd parent (.ofBlock block) _ 1
        (h block rfl hread hvalid)
      refine ⟨fuel, ?_⟩
      rw [partitionInstallMbrChildHandles_valid parent install hread hvalid]
      exact ⟨hends, (installRecords_ends _ fuel 1 hends).1⟩

/-! ## Media with one extended partition -/

/-- The bytes of a record. -/
def MbrPartitionRecord.bytes (r : MbrPartitionRecord) : List Byte :=
  [0, 0, 0, 0, r.osIndicator, 0, 0, 0] ++ leBytes 4 r.startingLBA.toNat ++
    leBytes 4 r.sizeInLBA.toNat

/-- A block with two records. -/
def mbrBlock (r r' : MbrPartitionRecord) : List Byte :=
  List.replicate 446 0 ++ r.bytes ++ r'.bytes ++ List.replicate 32 0 ++ [0x55, 0xaa]

/-- An extended partition of 10 blocks.  It has one logical drive, with the record after it at
    `link`. -/
def oneDrive (link : BitVec 32) (lba : Nat) : Option (List Byte) :=
  if lba = 0 then some (mbrBlock ⟨0x05, 10, 10⟩ ⟨0, 0, 0⟩)
  else if lba = 10 then some (mbrBlock ⟨0x0B, 1, 2⟩ ⟨0x05, link, 3⟩)
  else none

/-- The record in the first block. -/
theorem oneDrive_start (link : BitVec 32) :
    oneDrive link 0 = some (mbrBlock ⟨0x05, 10, 10⟩ ⟨0, 0, 0⟩) := if_pos rfl

/-- The record is linked to itself. -/
theorem not_mbrWalkEnds_oneDrive :
    partitionValidMbr (.ofBlock (mbrBlock ⟨0x05, 10, 10⟩ ⟨0, 0, 0⟩)) 100 = true ∧
      ¬ MbrWalkEnds (oneDrive 0) 100 true none fun _ => true := by
  have hvalid : partitionValidMbr (.ofBlock (mbrBlock ⟨0x05, 10, 10⟩ ⟨0, 0, 0⟩)) 100 = true := by
    decide +kernel
  have hpartitions : (MasterBootRecord.ofBlock (mbrBlock ⟨0x05, 10, 10⟩ ⟨0, 0, 0⟩)).partitions =
      [⟨0x05, 10, 10⟩, ⟨0, 0, 0⟩, ⟨0, 0, 0⟩, ⟨0, 0, 0⟩] := by decide +kernel
  have hnext : nextRecord (oneDrive 0) ⟨0x05, 10, 10⟩ 10 = some 10 := by decide +kernel
  have hread := oneDrive_start 0
  generalize mbrBlock ⟨0x05, 10, 10⟩ ⟨0, 0, 0⟩ = block at hvalid hpartitions hread ⊢
  refine ⟨hvalid, fun hends => ?_⟩
  have hwalks := hends.walksEnd hread hvalid
  rw [hpartitions, WalksEnd, if_neg (by decide)] at hwalks
  exact hwalks.1 10 .refl (.single hnext)

end EfiCore.Disk
