import EfiCore.Lib.Run
import EfiCore.Mem.Report
import EfiCore.Mem.Respects

/-! # The map key tells the truth

`MemoryMapKey` counts the changes of the memory map.  The list is also edited where the key stays
as it is: `FreeMemoryMapStack` moves descriptors into pool and sorts them in, `RemoveMemoryMapEntry`
takes them off.  Both are only reached behind a bump of the key in the same call, so between calls
a list that was edited has a key that was bumped.
-/

namespace EfiCore.Mem

open EfiCore.Lib

namespace MemState

variable {A : Arch} {convert : Convert A} {s s' s'' : MemState A}

/-- The key goes with the number of changes. -/
structure Keyed (s s' : MemState A) : Prop where
  le : s.mapChanges ≤ s'.mapChanges
  key : s'.memoryMapKey = s.memoryMapKey + BitVec.ofNat A.bits (s'.mapChanges - s.mapChanges)

/-- There was a change. -/
structure Altered (s s' : MemState A) : Prop where
  keyed : Keyed s s'
  lt : s.mapChanges < s'.mapChanges

/-- The key goes with the number of changes, and without a change the list is as it was. -/
structure Counted (s s' : MemState A) : Prop where
  keyed : Keyed s s'
  same : s'.mapChanges = s.mapChanges → s'.memoryMap = s.memoryMap

theorem Keyed.of_eq (hk : s'.memoryMapKey = s.memoryMapKey) (hn : s'.mapChanges = s.mapChanges) :
    Keyed s s' := by
  refine ⟨by omega, ?_⟩
  rw [hk, hn, Nat.sub_self]
  simp

theorem Keyed.trans (h : Keyed s s') (h' : Keyed s' s'') : Keyed s s'' := by
  have hle := h.le
  have hle' := h'.le
  refine ⟨by omega, ?_⟩
  rw [h'.key, h.key, BitVec.add_assoc, ← BitVec.ofNat_add]
  congr 2
  omega

/-- Only the key and the number count. -/
theorem Keyed.congr_left (h : Keyed s' s'') (hk : s'.memoryMapKey = s.memoryMapKey)
    (hn : s'.mapChanges = s.mapChanges) : Keyed s s'' :=
  (Keyed.of_eq hk hn).trans h

theorem Keyed.congr_right (h : Keyed s s') (hk : s''.memoryMapKey = s'.memoryMapKey)
    (hn : s''.mapChanges = s'.mapChanges) : Keyed s s'' :=
  h.trans (.of_eq hk hn)

theorem Keyed.refl (s : MemState A) : Keyed s s := .of_eq rfl rfl

theorem Altered.then_keyed (h : Altered s s') (h' : Keyed s' s'') : Altered s s'' where
  keyed := h.keyed.trans h'
  lt := Nat.lt_of_lt_of_le h.lt h'.le

theorem Altered.counted (h : Altered s s') : Counted s s' :=
  ⟨h.keyed, fun hn => absurd hn (Nat.ne_of_gt h.lt)⟩

theorem Counted.trans (h : Counted s s') (h' : Counted s' s'') : Counted s s'' := by
  refine ⟨h.keyed.trans h'.keyed, fun hn => ?_⟩
  have hle := h.keyed.le
  have hle' := h'.keyed.le
  rw [h'.same (by omega), h.same (by omega)]

theorem bumpKey_altered (s : MemState A) : Altered s s.bumpKey := by
  refine ⟨⟨Nat.le_succ _, ?_⟩, Nat.lt_succ_self _⟩
  simp [bumpKey]

theorem keyed_poolBlind : PoolBlind (Keyed (A := A)) where
  of_sameMap h := .of_eq h.memoryMapKey h.mapChanges
  trans := Keyed.trans

theorem counted_poolBlind : PoolBlind (Counted (A := A)) where
  of_sameMap h := ⟨.of_eq h.memoryMapKey h.mapChanges, fun _ => h.memoryMap⟩
  trans := Counted.trans

/-! ## Edits after a bump -/

theorem pushEntry_keyed (t : MemoryType) (start last : Nat) (attr : BitVec 64) (s : MemState A) :
    Ensures (s.pushEntry t start last attr) fun r => Keyed s r.2 := by
  rw [pushEntry]
  exact Ensures.ite (fun _ => .ok (.of_eq rfl rfl)) fun _ => .error

theorem removeMemoryMapEntry_keyed (hc : convert.Respects Keyed) (e : MapEntry) (s : MemState A) :
    Ensures (s.removeMemoryMapEntry convert e) (Keyed s) := by
  have hunlink : Keyed s (s.unlink e.home) := .of_eq rfl rfl
  rw [removeMemoryMapEntry]
  dsimp only
  split
  · exact .pure hunlink
  · rename_i buffer _
    exact (freePoolI_respects keyed_poolBlind hc buffer _).bind fun r hr =>
      .pure (hunlink.trans hr)

theorem clip_keyed (e : MapEntry) (start rangeEnd : Nat) (s : MemState A) :
    Ensures (s.clip e start rangeEnd) fun r => Keyed s r.2 := by
  rw [clip]
  refine Ensures.ite (fun _ => .ok (.of_eq rfl rfl)) fun _ => ?_
  refine Ensures.ite (fun _ => .ok (.of_eq rfl rfl)) fun _ => ?_
  exact (pushEntry_keyed _ _ _ _ _).mono fun r hr => hr.congr_left rfl rfl

theorem removeIfEmpty_keyed (hc : convert.Respects Keyed) (e : MapEntry) (s : MemState A) :
    Ensures (s.removeIfEmpty convert e) (Keyed s) := by
  rw [removeIfEmpty]
  exact Ensures.ite (fun _ => removeMemoryMapEntry_keyed hc e s) fun _ => .ok (.refl s)

/-- `AddRange` bumps the key before it does anything. -/
theorem addRange_altered (hc : convert.Respects Keyed) (t : MemoryType) (start last : Nat)
    (attr : BitVec 64) (s : MemState A) :
    Ensures (s.addRange convert t start last attr) (Altered s) := by
  have hbump := bumpKey_altered s
  rw [addRange]
  dsimp only
  split
  · rename_i e _
    have hset : Altered s (s.bumpKey.setEntry (absorb e start last)) :=
      hbump.then_keyed (.of_eq rfl rfl)
    split
    · exact (removeMemoryMapEntry_keyed hc _ _).mono fun s' hs' =>
        hset.then_keyed (hs'.congr_left rfl rfl)
    · exact .pure hset
  · exact (pushEntry_keyed _ _ _ _ _).bind fun r hr => .pure (hbump.then_keyed hr)

theorem drainMapStack_keyed (hc : convert.Respects Keyed) (fuel : Nat) (s : MemState A) :
    Ensures (s.drainMapStack convert fuel) (Keyed s) := by
  induction fuel generalizing s with
  | zero =>
    rw [drainMapStack]
    exact Ensures.ite (fun _ => .pure (.refl s)) fun _ => .error
  | succ fuel ih =>
    rw [drainMapStack]
    refine Ensures.ite (fun _ => .pure (.refl s)) fun _ => ?_
    refine (allocatePoolI_respects keyed_poolBlind hc _ _ s).bind fun r hr => ?_
    dsimp only
    split
    · refine Ensures.ite (fun _ => .error) fun _ => ?_
      refine Ensures.ite (fun _ => .error) fun _ => ?_
      exact (ih _).mono fun s' hs' => hr.trans (hs'.congr_left rfl rfl)
    · refine (freePoolI_respects keyed_poolBlind hc _ _).bind fun r' hr' => ?_
      have hfreed : Keyed r.2 r'.2 := hr'.congr_left rfl rfl
      exact (ih _).mono fun s' hs' => hr.trans (hfreed.trans hs')

theorem freeMemoryMapStack_keyed (hc : convert.Respects Keyed) (fuel : Nat) (s : MemState A) :
    Ensures (s.freeMemoryMapStack convert fuel) (Keyed s) := by
  rw [freeMemoryMapStack]
  refine Ensures.ite (fun _ => .pure (.refl s)) fun _ => ?_
  refine (drainMapStack_keyed hc fuel _).bind fun s' hs' => .pure ?_
  have hdrained : Keyed s s' := hs'.congr_left rfl rfl
  exact hdrained.congr_right rfl rfl

/-! ## `ConvertPages` -/

/-- One turn changes nothing, or bumps the key first. -/
theorem convertRange_counted (hc : convert.Respects Counted) (fuel : Nat) (lc : Bool)
    (start last : Nat) (t : MemoryType) (s : MemState A) :
    Ensures (s.convertRange convert fuel lc start last t) fun r => Counted s r.2 := by
  have hk : convert.Respects Keyed := fun lc start n t s =>
    (hc lc start n t s).mono fun _ h => h.keyed
  rw [convertRange]
  split
  · exact .pure (counted_poolBlind.refl s)
  · rename_i e _
    refine Ensures.ite (fun _ => .pure (counted_poolBlind.refl s)) fun _ => ?_
    refine (clip_keyed e start _ _).bind fun r hr => ?_
    refine (removeIfEmpty_keyed hk r.1 r.2).bind fun s2 h2 => ?_
    refine (addRange_altered hk t start _ r.1.attr s2).bind fun s3 h3 => ?_
    refine (freeMemoryMapStack_keyed hk fuel s3).bind fun s4 h4 => .pure ?_
    have hbump := bumpKey_altered s
    exact ((hbump.then_keyed hr).then_keyed (h2.trans (h3.keyed.trans h4))).counted

theorem convertLoop_counted (hc : convert.Respects Counted) (fuel : Nat) (lc : Bool) (last : Nat)
    (t : MemoryType) (turns start : Nat) (s : MemState A) :
    Ensures (s.convertLoop convert fuel lc last t turns start) fun r => Counted s r.2 := by
  induction turns generalizing start s with
  | zero =>
    rw [convertLoop]
    exact Ensures.ite (fun _ => .error) fun _ => .pure (counted_poolBlind.refl s)
  | succ turns ih =>
    rw [convertLoop]
    refine Ensures.ite (fun _ => ?_) fun _ => .pure (counted_poolBlind.refl s)
    refine (convertRange_counted hc fuel lc start last t s).bind fun r hr => ?_
    split
    · exact .pure hr
    · exact (ih _ _).mono fun r' hr' => hr.trans hr'

end MemState

open MemState

theorem convertPages_counted {A : Arch} (fuel : Nat) :
    (convertPages (A := A) fuel).Respects Counted := by
  induction fuel with
  | zero => exact fun _ _ _ _ _ => .error
  | succ fuel ih =>
    intro lc start n t s
    change Ensures (s.convertBody (convertPages fuel) (fuel + 1) lc start n t) _
    refine Ensures.ite (fun _ => .ok (counted_poolBlind.refl s)) fun _ => ?_
    exact convertLoop_counted ih (fuel + 1) lc _ t (fuel + 1) start s

/-! ## Calls and runs -/

section Runs

variable {A : Arch}

theorem exec_counted (fuel : Nat) (s : MemState A) (a : Action A) :
    Ensures (a.exec fuel s) (Counted s) := by
  have hR := counted_poolBlind (A := A)
  have hc := convertPages_counted (A := A) fuel
  have same := hR.refl s
  cases a with
  | fwAddMemoryDescriptor type start noPages attr =>
    have hk : (convertPages (A := A) fuel).Respects Keyed := fun lc start n t s =>
      (hc lc start n t s).mono fun _ h => h.keyed
    refine (addRange_altered hk _ _ _ _ s).bind fun s1 h1 => ?_
    exact (freeMemoryMapStack_keyed hk fuel s1).mono fun s2 h2 => (h1.then_keyed h2).counted
  | allocatePages type memoryType noPages memory =>
    refine Ensures.map ?_
    rw [MemState.allocatePages]
    refine Ensures.ite (fun _ => .pure same) fun _ => ?_
    refine Ensures.ite (fun _ => .pure same) fun _ => ?_
    refine Ensures.ite (fun _ => .pure same) fun _ => ?_
    refine Ensures.ite (fun _ => .pure same) fun _ => ?_
    exact (hc _ _ _ _ s).bind fun r hr => .pure hr
  | freePages memory noPages =>
    refine Ensures.map (Ensures.ite (fun _ => .ok same) fun _ => ?_)
    split
    · exact .ok same
    · refine Ensures.ite (fun _ => .ok same) fun _ => ?_
      exact Ensures.ite (fun _ => .ok same) fun _ => hc _ _ _ _ s
  | allocatePool poolType size =>
    refine Ensures.map (Ensures.ite (fun _ => .pure same) fun _ => ?_)
    refine Ensures.ite (fun _ => .pure same) fun _ => ?_
    exact (allocatePoolI_respects hR hc _ _ s).bind fun r hr => .pure hr
  | freePool buffer =>
    refine Ensures.map (Ensures.ite (fun _ => .ok same) fun _ => ?_)
    exact freePoolI_respects hR hc _ s
  | setCodeSection base noPages memoryType => exact Ensures.map (hc _ _ _ _ s)
  | setWatermarks watermark => exact .ok (hR.of_sameMap ⟨rfl, rfl, rfl, rfl, rfl⟩)

/-- A call of a memory service, with the two that deal in map keys. -/
inductive MapAction (A : Arch) where
  | call (a : Action A)
  | getMemoryMap (memoryMapSize : Option (Uintn A)) (desc : Bool)
  | terminateMemoryMap (mapKey : Uintn A)

/-- The memory services up to the end of boot services and on. -/
def keyMachine (A : Arch) : Machine (MemState A) (MapAction A) where
  init s := s = initializeMemoryMap A
  step s a s' := match a with
    | .call a => ∃ fuel, a.exec fuel s = .ok s'
    | .getMemoryMap _ _ => s' = s
    | .terminateMemoryMap mapKey => s' = (s.terminateMemoryMap mapKey).2

/-- Whenever a key was handed out and fewer changes happened since than there are keys, the same
    key is handed out again, or accepted, only with the same map. -/
def KeySound (A : Arch) : Prop :=
  ∀ s as s', (keyMachine A).Reach Machine.anyStep s →
    (keyMachine A).Path Machine.anyStep s as s' → s'.mapChanges < s.mapChanges + 2 ^ A.bits →
      ∀ size desc, (s.getMemoryMap size desc).status = .success →
        (∀ size' desc', (s'.getMemoryMap size' desc').status = .success →
          (s'.getMemoryMap size' desc').mapKey = (s.getMemoryMap size desc).mapKey →
          (s'.getMemoryMap size' desc').descriptors = (s.getMemoryMap size desc).descriptors) ∧
        ((s'.terminateMemoryMap (s.getMemoryMap size desc).mapKey).1 = .success →
          s'.memoryMap.map MapEntry.describe = (s.getMemoryMap size desc).descriptors)

theorem MemState.getMemoryMap_success {s : MemState A} {size : Option (Uintn A)} {desc : Bool}
    (h : (s.getMemoryMap size desc).status = .success) :
    (s.getMemoryMap size desc).descriptors = s.memoryMap.map MapEntry.describe ∧
      (s.getMemoryMap size desc).mapKey = s.memoryMapKey := by
  cases size with
  | none => cases h
  | some size =>
    rw [getMemoryMap] at h ⊢
    dsimp only at h ⊢
    split at h
    · cases h
    · rename_i hsize
      split at h
      · cases h
      · rename_i hdesc
        rw [if_neg hsize, if_neg hdesc]
        exact ⟨rfl, rfl⟩

theorem MemState.terminateMemoryMap_success {s : MemState A} {mapKey : Uintn A}
    (h : (s.terminateMemoryMap mapKey).1 = .success) : mapKey = s.memoryMapKey := by
  rw [terminateMemoryMap] at h
  by_contra hne
  rw [if_neg hne] at h
  cases h

theorem keyMachine_counted {s s' : MemState A} {a : MapAction A}
    (h : (keyMachine A).step s a s') : Counted s s' := by
  have hR := counted_poolBlind (A := A)
  cases a with
  | call a =>
    obtain ⟨fuel, hexec⟩ := h
    exact exec_counted fuel s a s' hexec
  | getMemoryMap size desc =>
    have hsame : s' = s := h
    exact hsame ▸ hR.refl s
  | terminateMemoryMap mapKey =>
    have hs : s' = (s.terminateMemoryMap mapKey).2 := h
    rw [hs, terminateMemoryMap]
    split
    · split
      · exact hR.of_sameMap ⟨rfl, rfl, rfl, rfl, rfl⟩
      · exact hR.refl s
    · exact hR.refl s

theorem path_counted {s s' : MemState A} {as : List (MapAction A)}
    (h : (keyMachine A).Path Machine.anyStep s as s') : Counted s s' := by
  induction h with
  | nil => exact counted_poolBlind.refl _
  | cons _ hstep _ ih => exact (keyMachine_counted hstep).trans ih

/-- With fewer changes than keys, the same key means no change. -/
theorem MemState.Counted.memoryMap_of_key {s s' : MemState A} (h : Counted s s')
    (hlt : s'.mapChanges < s.mapChanges + 2 ^ A.bits) (hkey : s'.memoryMapKey = s.memoryMapKey) :
    s'.memoryMap = s.memoryMap := by
  have hle := h.keyed.le
  have hzero : BitVec.ofNat A.bits (s'.mapChanges - s.mapChanges) = 0 := by
    have hk := h.keyed.key
    rw [hkey] at hk
    exact left_eq_add.mp hk
  have hmod : (s'.mapChanges - s.mapChanges) % 2 ^ A.bits = 0 := by
    simpa using congrArg BitVec.toNat hzero
  rw [Nat.mod_eq_of_lt (by omega)] at hmod
  exact h.same (by omega)

theorem mapKey_sound (A : Arch) : KeySound A := by
  intro s as s' _ hpath hlt size desc hok
  have hcounted := path_counted hpath
  obtain ⟨hdescs, hkey⟩ := getMemoryMap_success hok
  rw [hdescs, hkey]
  refine ⟨fun size' desc' hok' hkey' => ?_, fun hterm => ?_⟩
  · obtain ⟨hdescs', hkey''⟩ := getMemoryMap_success hok'
    rw [hdescs', hcounted.memoryMap_of_key hlt (hkey''.symm.trans hkey')]
  · rw [hcounted.memoryMap_of_key hlt (terminateMemoryMap_success hterm).symm]

/-- The key that was handed out after both calls is accepted when a third one has failed. -/
theorem supplyTake_key : ∃ s s', take.exec 8 s = .ok s' ∧
    (s'.terminateMemoryMap (s.getMemoryMap (some 0x1000) true).mapKey).1 = .success ∧
      s'.memoryMap.map MapEntry.describe = (s.getMemoryMap (some 0x1000) true).descriptors := by
  have hrun : supplyTake (fun s => (take.exec 8 s).toOption.any fun s' =>
      decide ((s.getMemoryMap (some 0x1000) true).status = .success ∧
        (s'.terminateMemoryMap (s.getMemoryMap (some 0x1000) true).mapKey).1 = .success ∧
        s'.mapChanges = s.mapChanges)) = true := by decide +kernel
  obtain ⟨s, s', hsupply, htake, hnext⟩ := supplyTake_states hrun
  cases hcall : take.exec 8 s' with
  | ok s'' =>
    rw [hcall] at hnext
    obtain ⟨hmap, hterm, hchanges⟩ := of_decide_eq_true hnext
    have hstep : ∀ {a s s'}, Action.exec 8 s a = .ok s' →
        (keyMachine .efi64).step s (.call a) s' := fun h => ⟨8, h⟩
    have hreach : (keyMachine .efi64).Reach Machine.anyStep s' :=
      .next (.next (.start rfl) trivial (hstep hsupply)) trivial (hstep htake)
    have hpath : (keyMachine .efi64).Path Machine.anyStep s' [.call take] s'' :=
      .cons trivial (hstep hcall) .nil
    exact ⟨s', s'', hcall, hterm, (mapKey_sound .efi64 s' _ s'' hreach hpath
      (hchanges ▸ Nat.lt_add_of_pos_right (Nat.two_pow_pos _)) _ _ hmap).2 hterm⟩
  | error =>
    rw [hcall] at hnext
    cases hnext

end Runs

end EfiCore.Mem
