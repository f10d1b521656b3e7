import EfiCore.Mem.Convert

/-! # The memory map partitions what was supplied

Over whole runs of the memory services: between calls the list is sorted, its descriptors
are disjoint, on page boundaries and merged as far as they can be, and together they cover
what `FwAddMemoryDescriptor` was given, with the attributes it was given.

`AddRange` compares `Entry->End + 1` with a start in `UINT64`.  A range that ends with the
address space therefore touches one that begins it, and the two are merged into a descriptor
that starts above its end.  The invariant holds on the runs that never supply both ends of
the address space with one attribute.
-/

namespace EfiCore.Mem

open EfiCore.Lib MemState

variable {A : Arch}

/-- The attribute that the calls of a run supply for an address. -/
def Supplied (as : List (Action A)) (a : Nat) (attr : BitVec 64) : Prop :=
  ∃ type start noPages, .fwAddMemoryDescriptor type start noPages attr ∈ as ∧
    start.toNat ≤ a ∧ a < start.toNat + noPages.toNat * 4096

/-- The partition invariant after the calls `as`. -/
structure Partition (as : List (Action A)) (s : MemState A) : Prop where
  sorted : s.memoryMap.Pairwise (·.start < ·.start)
  pages : ∀ e ∈ s.memoryMap, e.start % 4096 = 0 ∧ (e.last + 1) % 4096 = 0 ∧ e.start < e.last
  disjoint : s.memoryMap.Pairwise fun e e' => e.last < e'.start ∨ e'.last < e.start
  coalesced : ∀ e ∈ s.memoryMap, ∀ e' ∈ s.memoryMap, e.last + 1 = e'.start →
    ¬ (e.type = e'.type ∧ e.attr = e'.attr)
  offStack : ∀ e ∈ s.memoryMap, e.fromPool = true
  exact : ∀ a attr, (∃ e ∈ s.memoryMap, (e.start ≤ a ∧ a ≤ e.last) ∧ e.attr = attr) ↔
    Supplied as a attr

/-- `FwAddMemoryDescriptor` is given a range of pages that is not in the map yet. -/
def SuppliesNew (s : MemState A) : Action A → Prop
  | .fwAddMemoryDescriptor _ start noPages _ =>
    start.toNat % 4096 = 0 ∧ noPages ≠ 0 ∧ start.toNat + noPages.toNat * 4096 ≤ 2 ^ 64 ∧
      ∀ a, start.toNat ≤ a → a < start.toNat + noPages.toNat * 4096 → s.view a = none
  | _ => True

/-- `FwAddMemoryDescriptor` does not supply the second end of the address space with the
    attribute that the first end has. -/
def SuppliesOneEnd (s : MemState A) : Action A → Prop
  | .fwAddMemoryDescriptor type start noPages attr =>
    (s.view.put start.toNat (start.toNat + noPages.toNat * 4096 - 1) (type, attr)).EndsApart
  | _ => True

/-- Every run of calls that meet `ok` keeps the partition invariant. -/
def KeepsPartition (A : Arch) (ok : MemState A → Action A → Prop) : Prop :=
  ∀ s as s', (machine A).init s → (machine A).Path ok s as s' → Partition as s'

/-! ## The services keep the map -/

/-- Between calls: nothing is on `MapStack`, and nobody is emptying it. -/
structure Settled (s : MemState A) : Prop where
  sound : s.Sound
  flag : s.freeMapStack = false
  depth : s.mapDepth = 0

theorem Settled.keep {s s' : MemState A} (h : Settled s) (hk : Kept s s') : Settled s' :=
  ⟨hk.sound, hk.flag.trans h.flag, hk.settled h.flag h.depth⟩

theorem initializeMemoryMap_settled : Settled (initializeMemoryMap A) where
  sound := {
    map := ⟨Spans.nil, by simp [initializeMemoryMap], by simp [initializeMemoryMap],
      List.Pairwise.nil⟩
    ends := by intro attr h; cases h
    slots := by simp [initializeMemoryMap] }
  flag := rfl
  depth := rfl

/-- Every call but `FwAddMemoryDescriptor` keeps the covered addresses. -/
theorem exec_keeps (fuel : Nat) (s : MemState A) (a : Action A)
    (h : ∀ t b n attr, a ≠ .fwAddMemoryDescriptor t b n attr) :
    Ensures (a.exec fuel s) (Keeps s) := by
  cases a with
  | fwAddMemoryDescriptor t b n attr => exact absurd rfl (h t b n attr)
  | allocatePages type memoryType noPages memory =>
    refine Ensures.map ?_
    rw [MemState.allocatePages]
    refine Ensures.ite (fun _ => .pure (Keeps.refl s)) fun _ => ?_
    refine Ensures.ite (fun _ => .pure (Keeps.refl s)) fun _ => ?_
    refine Ensures.ite (fun _ => .pure (Keeps.refl s)) fun _ => ?_
    refine Ensures.ite (fun _ => .pure (Keeps.refl s)) fun _ => ?_
    exact (convertPages_keeps fuel _ _ _ _ s).bind fun r hr => .pure hr
  | freePages memory noPages =>
    refine Ensures.map (Ensures.ite (fun _ => .ok (Keeps.refl s)) fun _ => ?_)
    split
    · exact .ok (Keeps.refl s)
    · refine Ensures.ite (fun _ => .ok (Keeps.refl s)) fun _ => ?_
      refine Ensures.ite (fun _ => .ok (Keeps.refl s)) fun _ => ?_
      exact convertPages_keeps fuel _ _ _ _ s
  | allocatePool poolType size =>
    refine Ensures.map (Ensures.ite (fun _ => .pure (Keeps.refl s)) fun _ => ?_)
    refine Ensures.ite (fun _ => .pure (Keeps.refl s)) fun _ => ?_
    exact (allocatePoolI_keeps (convertPages_keeps fuel) _ _ s).bind fun r hr => .pure hr
  | freePool buffer =>
    refine Ensures.map (Ensures.ite (fun _ => .ok (Keeps.refl s)) fun _ => ?_)
    exact freePoolI_keeps (convertPages_keeps fuel) _ s
  | setCodeSection base noPages memoryType =>
    exact Ensures.map (convertPages_keeps fuel _ _ _ _ s)
  | setWatermarks watermark => exact .ok (Keeps.of_eq rfl rfl rfl)

/-- `End` of the range that `FwAddMemoryDescriptor` is given. -/
theorem supplied_last {s : MemState A} {type : MemoryType} {start noPages attr : BitVec 64}
    (h : SuppliesNew s (.fwAddMemoryDescriptor type start noPages attr)) :
    (start.toNat + noPages.toNat * 4096 % 2 ^ 64 + (2 ^ 64 - 1)) % 2 ^ 64 =
      start.toNat + noPages.toNat * 4096 - 1 := by
  obtain ⟨_, hne, hle, _⟩ := h
  have hpos : noPages.toNat ≠ 0 := fun h0 => hne (BitVec.eq_of_toNat_eq h0)
  omega

/-- `FwAddMemoryDescriptor` adds its range with its attribute. -/
theorem fwAddMemoryDescriptor_adds (fuel : Nat) {s : MemState A} (h : Settled s)
    {type : MemoryType} {start noPages attr : BitVec 64}
    (hnew : SuppliesNew s (.fwAddMemoryDescriptor type start noPages attr))
    (hends : SuppliesOneEnd s (.fwAddMemoryDescriptor type start noPages attr)) :
    Ensures (s.fwAddMemoryDescriptor fuel type start noPages attr) fun s' => Settled s' ∧
      s'.view.attrs = (s.view.put start.toNat (start.toNat + noPages.toNat * 4096 - 1)
        (type, attr)).attrs := by
  have hlast := supplied_last hnew
  obtain ⟨halign, hne, hle, hfree⟩ := hnew
  have hpos : noPages.toNat ≠ 0 := fun h0 => hne (BitVec.eq_of_toNat_eq h0)
  have hp : PageRange start.toNat (start.toNat + noPages.toNat * 4096 - 1) :=
    ⟨halign, by omega, by omega⟩
  have hrange : ∀ a, start.toNat ≤ a → a ≤ start.toNat + noPages.toNat * 4096 - 1 →
      s.view a = none := fun a h1 h2 => hfree a h1 (by omega)
  rw [fwAddMemoryDescriptor, hlast]
  refine (addRange_adds (convertPages fuel) h.sound (by omega) hp hrange hends).bind
    fun s2 hs2 => ?_
  obtain ⟨s1, hedit, hkeep⟩ := hs2
  have kept := hkeep.keeps (convertPages_keeps fuel) hedit.sound
  have hflag : s2.freeMapStack = false := by
    rw [kept.flag, hedit.freeMapStack]
    exact h.flag
  refine (freeMemoryMapStack_keeps (convertPages_keeps fuel) fuel kept.sound).mono fun s3 hs3 => ?_
  refine ⟨⟨hs3.1.sound, hs3.1.flag.trans hflag, hs3.2 hflag⟩, ?_⟩
  rw [hs3.1.attrs, kept.attrs, hedit.view]

/-! ## Runs -/

/-- What a run knows: the map is settled and gives each address its supplied attribute. -/
structure Inv (as : List (Action A)) (s : MemState A) : Prop where
  settled : Settled s
  supplied : ∀ a attr, s.view.attrs a = some attr ↔ Supplied as a attr

theorem supplied_append_other {as : List (Action A)} {a : Action A}
    (h : ∀ t b n attr, a ≠ .fwAddMemoryDescriptor t b n attr) (x : Nat) (attr : BitVec 64) :
    Supplied (as ++ [a]) x attr ↔ Supplied as x attr := by
  simp only [Supplied, List.mem_append, List.mem_singleton]
  constructor
  · rintro ⟨t, b, n, hmem | hmem, hx⟩
    · exact ⟨t, b, n, hmem, hx⟩
    · exact absurd hmem.symm (h t b n attr)
  · rintro ⟨t, b, n, hmem, hx⟩
    exact ⟨t, b, n, .inl hmem, hx⟩

theorem Inv.step {as : List (Action A)} {s s' : MemState A} {a : Action A} (h : Inv as s)
    (hnew : SuppliesNew s a) (hends : SuppliesOneEnd s a) (hstep : (machine A).step s a s') :
    Inv (as ++ [a]) s' := by
  obtain ⟨fuel, hexec⟩ := hstep
  by_cases hadd : ∃ t b n attr, a = .fwAddMemoryDescriptor t b n attr
  · obtain ⟨t, b, n, attr, rfl⟩ := hadd
    obtain ⟨hsettled, hattrs⟩ := fwAddMemoryDescriptor_adds fuel h.settled hnew hends s' hexec
    refine ⟨hsettled, fun x attr' => ?_⟩
    have hpos : 0 < n.toNat := by
      rcases Nat.eq_zero_or_pos n.toNat with h0 | h0
      · exact absurd (BitVec.eq_of_toNat_eq h0) hnew.2.1
      · exact h0
    rw [hattrs, View.attrs, View.put]
    simp only [Supplied, List.mem_append, List.mem_singleton]
    by_cases hx : b.toNat ≤ x ∧ x ≤ b.toNat + n.toNat * 4096 - 1
    · rw [if_pos hx]
      constructor
      · rintro ⟨⟩
        exact ⟨t, b, n, .inr rfl, hx.1, by omega⟩
      · rintro ⟨t', b', n', hmem | hmem, hx'⟩
        · -- the address was free before
          have := (h.supplied x attr').mpr ⟨t', b', n', hmem, hx'⟩
          rw [View.attrs, hnew.2.2.2 x hx.1 (by omega)] at this
          cases this
        · cases hmem
          rfl
    · rw [if_neg hx]
      refine (h.supplied x attr').trans ⟨?_, ?_⟩
      · rintro ⟨t', b', n', hmem, hx'⟩
        exact ⟨t', b', n', .inl hmem, hx'⟩
      · rintro ⟨t', b', n', hmem | hmem, hx'⟩
        · exact ⟨t', b', n', hmem, hx'⟩
        · cases hmem
          omega
  · have hother : ∀ t b n attr, a ≠ .fwAddMemoryDescriptor t b n attr :=
      fun t b n attr he => hadd ⟨t, b, n, attr, he⟩
    have kept := exec_keeps fuel s a hother s' hexec h.settled.sound
    refine ⟨h.settled.keep kept, fun x attr => ?_⟩
    rw [kept.attrs, h.supplied, supplied_append_other hother]

theorem Inv.path {ok : MemState A → Action A → Prop}
    (hok : ∀ s a, ok s a → SuppliesNew s a ∧ SuppliesOneEnd s a) {s s' : MemState A}
    {as : List (Action A)} (hp : (machine A).Path ok s as s') {before : List (Action A)}
    (h : Inv before s) : Inv (before ++ as) s' := by
  induction hp generalizing before with
  | nil => rwa [List.append_nil]
  | @cons s a s' as t hguard hstep _ ih =>
    obtain ⟨hnew, hends⟩ := hok s a hguard
    have := ih (h.step hnew hends hstep)
    rwa [List.append_assoc] at this

theorem Inv.partition {as : List (Action A)} {s : MemState A} (h : Inv as s) :
    Partition as s := by
  obtain ⟨⟨⟨hwf, -, hslots⟩, -, hdepth⟩, hsupplied⟩ := h
  have hpool : ∀ e ∈ s.memoryMap, e.fromPool = true := by
    intro e he
    cases hk : e.home with
    | mapStack i =>
      have := hslots e he i hk
      omega
    | pool buffer => rw [MapEntry.fromPool, hk]; rfl
  refine ⟨?_, ?_, ?_, ?_, hpool, ?_⟩
  · exact List.Pairwise.imp_of_mem (fun ha hb hab => hab (hpool _ ha) (hpool _ hb)) hwf.sorted
  · intro e he
    have hp := hwf.pages e he
    exact ⟨hp.start_aligned, hp.last_aligned, hp.start_lt (hwf.spans.nonempty e he)⟩
  · have hne : s.memoryMap.Pairwise fun e e' => e.home ≠ e'.home :=
      List.pairwise_map.mp hwf.spans.distinct
    exact List.Pairwise.imp_of_mem (fun ha hb hab => hwf.spans.apart _ ha _ hb hab) hne
  · rintro e he e' he' hadj ⟨ht, hattr⟩
    exact hwf.coalesced e he e' he' (Prod.ext ht hattr) hadj
  · intro a attr
    rw [← hsupplied, View.attrs, Option.map_eq_some_iff]
    constructor
    · rintro ⟨e, he, ha, rfl⟩
      exact ⟨e.label, view_of_mem hwf.spans he ha, rfl⟩
    · rintro ⟨l, hl, rfl⟩
      obtain ⟨e, he, ha, rfl⟩ := (view_eq_some_iff hwf.spans).mp hl
      exact ⟨e, he, ha, rfl⟩

theorem initializeMemoryMap_inv : Inv [] (initializeMemoryMap A) where
  settled := initializeMemoryMap_settled
  supplied a attr := by
    constructor
    · rintro ⟨⟩
    · rintro ⟨_, _, _, hmem, _⟩
      cases hmem

/-- The partition invariant holds after every call of a run that supplies new ranges and never
    both ends of the address space with one attribute. -/
theorem keepsPartition_of_oneEnd (A : Arch) :
    KeepsPartition A fun s a => SuppliesNew s a ∧ SuppliesOneEnd s a := by
  rintro s as s' rfl hp
  exact (Inv.path (fun _ _ h => h) hp initializeMemoryMap_inv).partition

/-- The first range that is supplied does not reach both ends of the address space. -/
theorem supply_oneEnd : SuppliesOneEnd (initializeMemoryMap .efi64) supply := by
  intro attr h0
  simp [View.attrs, View.put, MemState.view, initializeMemoryMap, view, occupant] at h0

theorem supply_new : SuppliesNew (initializeMemoryMap .efi64) supply :=
  ⟨by decide, by decide, by decide, fun _ _ _ => rfl⟩

theorem supplyTake_partition : ∃ s, Partition [supply, take] s ∧ 2 < s.memoryMap.length := by
  have hrun : supplyTake (fun s => decide (2 < s.memoryMap.length)) = true := by decide +kernel
  obtain ⟨s, s', hsupply, htake, hlong⟩ := supplyTake_states hrun
  refine ⟨s', keepsPartition_of_oneEnd .efi64 _ [supply, take] s' rfl ?_,
    of_decide_eq_true hlong⟩
  exact .cons ⟨supply_new, supply_oneEnd⟩ ⟨8, hsupply⟩ (.cons ⟨trivial, trivial⟩ ⟨8, htake⟩ .nil)

/-! ## Both ends of the address space -/

/-- `SuppliesNew`, as a test on the list. -/
def suppliesNew (s : MemState A) : Action A → Bool
  | .fwAddMemoryDescriptor _ start noPages _ =>
    start.toNat % 4096 = 0 ∧ noPages ≠ 0 ∧ start.toNat + noPages.toNat * 4096 ≤ 2 ^ 64 ∧
      s.memoryMap.all fun e =>
        e.last < start.toNat ∨ start.toNat + noPages.toNat * 4096 ≤ e.start
  | _ => true

theorem suppliesNew_sound {s : MemState A} {a : Action A} (h : suppliesNew s a = true) :
    SuppliesNew s a := by
  cases a with
  | fwAddMemoryDescriptor type start noPages attr =>
    obtain ⟨halign, hne, hle, hall⟩ := of_decide_eq_true h
    refine ⟨halign, hne, hle, fun a h1 h2 => ?_⟩
    rw [MemState.view, view, Option.map_eq_none_iff, occupant, List.find?_eq_none]
    intro e he
    have := of_decide_eq_true (List.all_eq_true.mp hall e he)
    rw [decide_eq_true_iff]
    omega
  | _ => trivial

/-- Run the calls `as`, as long as they supply new ranges. -/
def execAll (fuel : Nat) : List (Action A) → MemState A → Option (MemState A)
  | [], s => some s
  | a :: as, s =>
    match suppliesNew s a, a.exec fuel s with
    | true, .ok s' => execAll fuel as s'
    | _, _ => none

theorem execAll_path (fuel : Nat) {as : List (Action A)} {s s' : MemState A}
    (h : execAll fuel as s = some s') : (machine A).Path SuppliesNew s as s' := by
  induction as generalizing s with
  | nil =>
    cases h
    exact .nil
  | cons a as ih =>
    rw [execAll] at h
    split at h
    · rename_i hnew hexec
      exact .cons (suppliesNew_sound hnew) ⟨fuel, hexec⟩ (ih h)
    · cases h

/-- A page at each end of the address space, with the type and attribute of the other. -/
def bothEnds : List (Action .efi64) :=
  [.fwAddMemoryDescriptor .conventionalMemory 0x100000 16 0,
   .fwAddMemoryDescriptor .reservedMemoryType 0 1 0,
   .fwAddMemoryDescriptor .reservedMemoryType 0xFFFFFFFFFFFFF000 1 0]

/-- The two pages become one descriptor that starts above its end. -/
theorem bothEnds_map : ((execAll 8 bothEnds (initializeMemoryMap .efi64)).map
    fun s => s.memoryMap.map fun e => (e.start, e.last)) =
      some [(0xFFFFFFFFFFFFF000, 0xFFF), (0x100000, 0x10DFFF), (0x10E000, 0x10FFFF)] := by
  decide +kernel

theorem not_keepsPartition : ¬ KeepsPartition .efi64 SuppliesNew := by
  intro h
  obtain ⟨s, hs, hmap⟩ := Option.map_eq_some_iff.mp bothEnds_map
  have hpart := h _ _ _ rfl (execAll_path 8 hs)
  have hmem : (0xFFFFFFFFFFFFF000, 0xFFF) ∈ s.memoryMap.map fun e => (e.start, e.last) := by
    rw [hmap]
    exact List.mem_cons_self
  obtain ⟨e, he, heq⟩ := List.mem_map.mp hmem
  have hlt := (hpart.pages e he).2.2
  obtain ⟨hstart, hlast⟩ := Prod.mk.inj heq
  omega

end EfiCore.Mem
