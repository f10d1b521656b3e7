import EfiCore.Mem.Map
import EfiCore.Mem.Report

/-! # The switch to virtual addresses

`RtSetVirtualAddressMapInternal` up to its calls of the components that convert their pointers,
and `RtConvertPointer`, which is all that these calls do to the memory map.

The loop over the operating system's descriptors gives each of them to one entry only, the first
it covers; the final check asks for an address where the entry's own `Attribute` has the runtime
bit, while `GetMemoryMap` reports that bit by type.  `Suits` says of a map and a list of
descriptors when this does not matter.
-/

namespace EfiCore.Mem

variable {A : Arch}

/-! ## State -/

/-- A descriptor of the map with its `VirtualStart`. -/
structure VirtualEntry where
  entry : MapEntry
  virtualStart : Nat
  deriving DecidableEq, Repr

structure VirtualState (A : Arch) where
  efiAtRuntime : Bool
  efiVirtualMode : Bool
  memoryMap : List VirtualEntry
  /-- `MemoryLastConvert`, unset before the switch. -/
  memoryLastConvert : Option VirtualEntry

/-! ## RtSetVirtualAddressMapInternal -/

namespace MemoryDescriptor

/-- `PhysicalEnd` -/
def physicalEnd (d : MemoryDescriptor) : Nat :=
  (d.physicalStart + d.numberOfPages * 4096 % 2 ^ 64) % 2 ^ 64

/-- The test for "this VirtEntry is for this entry". -/
def covers (d : MemoryDescriptor) (e : MapEntry) : Bool :=
  d.physicalStart ≤ e.start ∧ e.last ≤ d.physicalEnd

/-- `VirtEntry->VirtualStart + Entry->Start - VirtEntry->PhysicalStart` -/
def baseOf (d : MemoryDescriptor) (e : MapEntry) : Nat :=
  (d.virtualStart + e.start + (2 ^ 64 - d.physicalStart % 2 ^ 64)) % 2 ^ 64

/-- The inner loop: the first entry that is covered captures the address.  `none` when the walk
    comes back to the list head. -/
def capture (d : MemoryDescriptor) : List VirtualEntry → Option (List VirtualEntry)
  | [] => none
  | v :: vs =>
    if d.covers v.entry then some ({ v with virtualStart := d.baseOf v.entry } :: vs)
    else (d.capture vs).map (v :: ·)

end MemoryDescriptor

/-- The loop over the descriptors, with the `Status` so far. -/
def captureAll : List MemoryDescriptor → List VirtualEntry → Status → List VirtualEntry × Status
  | [], vs, status => (vs, status)
  | d :: ds, vs, status =>
    if d.virtualStart = 0 then captureAll ds vs status
    else
      match d.capture vs with
      | some vs => captureAll ds vs status
      | none => captureAll ds vs .notFound

/-- `Entry->Attribute & EFI_MEMORY_RUNTIME` -/
def MapEntry.runtimeAttribute (e : MapEntry) : Bool := e.attr &&& memoryRuntime ≠ 0

namespace VirtualState

/-- The descriptors the call is given: `MemoryMapSize / DescriptorSize` of them. -/
def descriptors (memoryMapSize descriptorSize : Uintn A) (virtualMap : Nat → MemoryDescriptor) :
    List MemoryDescriptor :=
  (List.range (memoryMapSize.toNat / descriptorSize.toNat)).map virtualMap

/-- `RtSetVirtualAddressMapInternal`, before it notifies anyone.  `virtualMap i` is what lies at
    `VirtualMap` plus `i * DescriptorSize`; `sizeof (EFI_MEMORY_DESCRIPTOR)` is 40. -/
def setVirtualAddressMap (s : VirtualState A) (memoryMapSize descriptorSize : Uintn A)
    (descriptorVersion : Nat) (virtualMap : Nat → MemoryDescriptor) : Status × VirtualState A :=
  if s.efiAtRuntime = false ∨ s.efiVirtualMode = true then (.unsupported, s)
  else if descriptorVersion ≠ memoryDescriptorVersion ∨ descriptorSize.toNat < 40 then
    (.invalidParameter, s)
  else
    let cleared := s.memoryMap.map fun v => { v with virtualStart := 0 }
    let (vs, status) :=
      captureAll (descriptors memoryMapSize descriptorSize virtualMap) cleared .success
    let status : Status :=
      if vs.any fun v => v.entry.runtimeAttribute && v.virtualStart = 0 then .noMapping
      else status
    if status = .success then
      (.success, { s with
        efiVirtualMode := true
        memoryMap := vs
        memoryLastConvert := vs.head? })
    else (status, { s with memoryMap := vs })

/-! ## RtConvertPointer -/

/-- `Entry->Start <= Address && Entry->End >= Address` -/
def holds (v : VirtualEntry) (address : Uintn A) : Bool :=
  v.entry.start ≤ address.toNat ∧ address.toNat ≤ v.entry.last

/-- The entry to convert by: the last one if it fits, else the first on the list that does. -/
def lookup (s : VirtualState A) (address : Uintn A) : Option VirtualEntry :=
  match s.memoryLastConvert with
  | some v => if holds v address then some v else s.memoryMap.find? (holds · address)
  | none => s.memoryMap.find? (holds · address)

/-- `RtConvertPointer`; also `*pAddress` afterwards.  `optional` is `EFI_OPTIONAL_PTR`.  For an
    address outside the map the C asserts and loops forever: `none`. -/
def convertPointer (s : VirtualState A) (optional : Bool) (pAddress : Option (Uintn A)) :
    Option (Status × Option (Uintn A) × VirtualState A) :=
  match pAddress with
  | none => some (.invalidParameter, none, s)
  | some address =>
    if address = 0 then
      some (if optional then .success else .invalidParameter, some address, s)
    else
      match s.lookup address with
      | none => none
      | some v =>
        some (.success,
          some (address - BitVec.ofNat _ v.entry.start + BitVec.ofNat _ v.virtualStart),
          { s with memoryLastConvert := some v })

end VirtualState

/-! ## What the switch promises -/

/-- The bytes of `e` are among those that `d` describes. -/
def MemoryDescriptor.Contains (d : MemoryDescriptor) (e : MapEntry) : Prop :=
  d.physicalStart ≤ e.start ∧ e.last < d.physicalStart + d.numberOfPages * 4096

/-- `GetMemoryMap` reports the entry with `EFI_MEMORY_RUNTIME`. -/
def MapEntry.ReportedRuntime (e : MapEntry) : Prop := e.describe.attr &&& memoryRuntime ≠ 0

open VirtualState in
/-- The entry got its address from `d`, and so do the addresses in it, whichever entry was
    converted by before. -/
structure MappedBy (s : VirtualState A) (v : VirtualEntry) (d : MemoryDescriptor) : Prop where
  address : d.virtualStart ≠ 0
  contains : d.Contains v.entry
  given : v.virtualStart ≠ 0
  base : v.virtualStart = (d.virtualStart + (v.entry.start - d.physicalStart)) % 2 ^ 64
  converts : ∀ last ∈ s.memoryMap, ∀ optional, ∀ a : Uintn A, v.entry.start ≤ a.toNat →
    a.toNat ≤ v.entry.last → ∃ s',
      convertPointer { s with memoryLastConvert := some last } optional (some a) =
        some (.success, some (BitVec.ofNat _ (d.virtualStart + (a.toNat - d.physicalStart))), s')

/-- Every entry reported as runtime lies in a descriptor with an address. -/
def Covered (map : List MapEntry) (ds : List MemoryDescriptor) : Prop :=
  ∀ e ∈ map, e.ReportedRuntime → ∃ d ∈ ds, d.virtualStart ≠ 0 ∧ d.Contains e

structure Switches (map : List MapEntry) (ds : List MemoryDescriptor)
    (r : Status × VirtualState A) : Prop where
  sound : r.1 = .success → ∀ v ∈ r.2.memoryMap, v.entry.ReportedRuntime →
    ∃ d ∈ ds, MappedBy r.2 v d
  complete : Covered map ds → r.1 = .success

/-! ## When it keeps the promise -/

/-- The entry that a descriptor is given to. -/
def MemoryDescriptor.target (d : MemoryDescriptor) (map : List MapEntry) : Option MapEntry :=
  map.find? d.covers

/-- The descriptor that has the last word on an entry. -/
def server (map : List MapEntry) (ds : List MemoryDescriptor) (e : MapEntry) :
    Option MemoryDescriptor :=
  ds.reverse.find? fun d => d.virtualStart ≠ 0 && d.target map = some e

/-- The last descriptor given to the entry puts it where one that contains it does, and the entry
    does not begin at the null pointer. -/
def Served (map : List MapEntry) (ds : List MemoryDescriptor) (e : MapEntry) : Prop :=
  e.start ≠ 0 ∧ ∃ d, server map ds e = some d ∧ d.baseOf e ≠ 0 ∧
    ∃ d' ∈ ds, d'.virtualStart ≠ 0 ∧ d'.Contains e ∧ d'.baseOf e = d.baseOf e

/-- If the runtime entries are covered, every descriptor finds an entry and every runtime entry is
    served; if they are not, a descriptor finds no entry or one of the entries whose `Attribute`
    has the runtime bit is left without an address. -/
structure Suits (map : List MapEntry) (ds : List MemoryDescriptor) : Prop where
  covered : Covered map ds → (∀ d ∈ ds, d.virtualStart ≠ 0 → d.target map ≠ none) ∧
    ∀ e ∈ map, e.ReportedRuntime → Served map ds e
  uncovered : ¬ Covered map ds → (∃ d ∈ ds, d.virtualStart ≠ 0 ∧ d.target map = none) ∨
    ∃ e ∈ map, e.runtimeAttribute = true ∧ ∀ d, server map ds e = some d → d.baseOf e = 0

/-! ## What the loops compute -/

theorem MemoryDescriptor.capture_eq (d : MemoryDescriptor) (vs : List VirtualEntry)
    (hnodup : (vs.map (·.entry)).Nodup) :
    d.capture vs = (d.target (vs.map (·.entry))).map fun e =>
      vs.map fun v => if v.entry = e then { v with virtualStart := d.baseOf e } else v := by
  induction vs with
  | nil => rfl
  | cons v vs ih =>
    rw [List.map_cons, List.nodup_cons] at hnodup
    have hrest : ∀ w ∈ vs, w.entry ≠ v.entry := fun w hw heq =>
      hnodup.1 (heq ▸ List.mem_map_of_mem hw)
    unfold capture target
    rw [List.map_cons, List.find?_cons]
    by_cases hc : d.covers v.entry = true
    · have hsame : vs.map (fun w => if w.entry = v.entry then
          { w with virtualStart := d.baseOf v.entry } else w) = vs := by
        conv_rhs => rw [← List.map_id vs]
        apply List.map_congr_left
        intro w hw
        rw [if_neg (hrest w hw)]
        rfl
      rw [if_pos hc, hc, Option.map_some, List.map_cons, if_pos rfl, hsame]
    · rw [if_neg hc, Bool.not_eq_true _ |>.mp hc, ih hnodup.2, Option.map_map]
      dsimp only
      unfold target
      cases hfind : (vs.map (·.entry)).find? d.covers with
      | none => rfl
      | some e =>
        -- the entry found is another than `v`
        have hne : v.entry ≠ e := fun heq => hc (heq ▸ List.find?_some hfind)
        simp only [Option.map_some, Function.comp_apply, List.map_cons, if_neg hne]

theorem server_cons (map : List MapEntry) (d : MemoryDescriptor) (ds : List MemoryDescriptor)
    (e : MapEntry) : server map (d :: ds) e = (server map ds e).or
      (if d.virtualStart ≠ 0 && d.target map = some e then some d else none) := by
  unfold server
  rw [List.reverse_cons, List.find?_append, List.find?_singleton]

/-- The loop over the descriptors: who gets an address, and when no descriptor was in vain. -/
theorem captureAll_eq (map : List MapEntry) (hnodup : map.Nodup) (ds : List MemoryDescriptor)
    (vs : List VirtualEntry) (hvs : vs.map (·.entry) = map) (status : Status) :
    (captureAll ds vs status).1 = vs.map (fun v => { v with
        virtualStart := ((server map ds v.entry).map (·.baseOf v.entry)).getD v.virtualStart }) ∧
      (captureAll ds vs status).2 =
        if ∀ d ∈ ds, d.virtualStart ≠ 0 → d.target map ≠ none then status else .notFound := by
  induction ds generalizing vs status with
  | nil =>
    constructor
    · exact (List.map_id vs).symm
    · simp [captureAll]
  | cons d ds ih =>
    have hcapture := d.capture_eq vs (by rw [hvs]; exact hnodup)
    rw [hvs] at hcapture
    unfold captureAll
    by_cases h0 : d.virtualStart = 0
    · rw [if_pos h0]
      obtain ⟨hmap, hstatus⟩ := ih vs hvs status
      refine ⟨?_, ?_⟩
      · rw [hmap]
        simp only [server_cons, h0]
        simp
      · rw [hstatus]
        simp [h0]
    · rw [if_neg h0]
      cases htarget : d.target map with
      | none =>
        rw [htarget, Option.map_none] at hcapture
        rw [hcapture]
        obtain ⟨hmap, hstatus⟩ := ih vs hvs .notFound
        refine ⟨?_, ?_⟩
        · rw [hmap]
          simp [server_cons, htarget]
        · rw [hstatus]
          simp [h0, htarget]
      | some e =>
        rw [htarget, Option.map_some] at hcapture
        rw [hcapture]
        dsimp only
        generalize hvs' : (vs.map fun v => if v.entry = e then
          { v with virtualStart := d.baseOf e } else v) = vs'
        have hentry : vs'.map (·.entry) = map := by
          rw [← hvs', List.map_map, ← hvs]
          apply List.map_congr_left
          intro v _
          dsimp only [Function.comp_apply]
          split <;> rfl
        obtain ⟨hmap, hstatus⟩ := ih vs' hentry status
        refine ⟨?_, ?_⟩
        · rw [hmap, ← hvs', List.map_map]
          apply List.map_congr_left
          intro v _
          dsimp only [Function.comp_apply]
          rw [server_cons]
          by_cases hv : v.entry = e
          · subst hv
            rw [if_pos rfl, if_pos (by simp [h0, htarget])]
            cases server map ds v.entry <;> rfl
          · rw [if_neg hv, if_neg (by simp [htarget, Ne.symm hv]), Option.or_none]
        · rw [hstatus]
          simp [htarget]

/-! ## Addresses -/

theorem MemoryDescriptor.baseOf_eq {d : MemoryDescriptor} {e : MapEntry}
    (h : d.physicalStart ≤ e.start) :
    d.baseOf e = (d.virtualStart + (e.start - d.physicalStart)) % 2 ^ 64 := by
  unfold baseOf
  omega

/-- Converting by the entry that holds the address. -/
theorem convert_value {start virtual p v : Nat} {a : Uintn A} (hstart : start ≤ a.toNat)
    (hp : p ≤ start) (hbase : virtual = (v + (start - p)) % 2 ^ 64) :
    a - BitVec.ofNat _ start + BitVec.ofNat _ virtual =
      BitVec.ofNat A.bits (v + (a.toNat - p)) := by
  apply BitVec.eq_of_toNat_eq
  have ha := a.isLt
  rw [BitVec.toNat_add, BitVec.toNat_sub, BitVec.toNat_ofNat, BitVec.toNat_ofNat,
    BitVec.toNat_ofNat]
  generalize a.toNat = x at *
  cases A with
  | efi32 =>
    simp only [Arch.bits] at *
    omega
  | efi64 =>
    simp only [Arch.bits] at *
    omega

theorem lookup_eq {s : VirtualState A} (h : MapSpans (s.memoryMap.map (·.entry)))
    {v last : VirtualEntry} (hv : v ∈ s.memoryMap) (hlast : last ∈ s.memoryMap) {a : Uintn A}
    (hin : v.entry.start ≤ a.toNat ∧ a.toNat ≤ v.entry.last) :
    ({ s with memoryLastConvert := some last } : VirtualState A).lookup a = some v := by
  have honly : ∀ w ∈ s.memoryMap, VirtualState.holds w a = true → w = v := by
    intro w hw hholds
    have hwin := of_decide_eq_true hholds
    have hentry : w.entry = v.entry :=
      h.eq_of_occupies (List.mem_map_of_mem hw) (List.mem_map_of_mem hv) hwin hin
    have hnodup : (s.memoryMap.map (·.entry)).Nodup := h.distinct.of_map _
    exact List.inj_on_of_nodup_map hnodup hw hv hentry
  have hholds : VirtualState.holds v a = true := decide_eq_true hin
  unfold VirtualState.lookup
  dsimp only
  by_cases hl : VirtualState.holds last a = true
  · rw [if_pos hl, honly last hlast hl]
  · rw [if_neg hl]
    have hfound : (s.memoryMap.find? (VirtualState.holds · a)).isSome = true :=
      List.find?_isSome.mpr ⟨v, hv, hholds⟩
    obtain ⟨w, hfind⟩ := Option.isSome_iff_exists.mp hfound
    have hw : VirtualState.holds w a = true :=
      List.find?_some (p := fun x => VirtualState.holds x a) hfind
    rw [hfind, honly w (List.mem_of_find?_eq_some hfind) hw]

theorem reportedRuntime_of_attribute {e : MapEntry} (h : e.runtimeAttribute = true) :
    e.ReportedRuntime := by
  have hattr : e.attr &&& memoryRuntime ≠ 0 := of_decide_eq_true h
  have hor : (e.attr ||| memoryRuntime) &&& memoryRuntime ≠ 0 := by
    intro heq
    refine absurd (congrArg (BitVec.getLsbD · 63) heq) ?_
    simp [memoryRuntime]
  unfold MapEntry.ReportedRuntime MapEntry.describe
  dsimp only
  split
  · exact hor
  · exact hor
  · exact hor
  · exact hattr

/-! ## The two directions -/

section Switch

variable {map : List MapEntry} {ds : List MemoryDescriptor}

/-- `VirtualStart` of an entry when the loops are done. -/
def captured (map : List MapEntry) (ds : List MemoryDescriptor) (e : MapEntry) : Nat :=
  ((server map ds e).map (·.baseOf e)).getD 0

theorem captured_ne_zero {e : MapEntry} :
    captured map ds e ≠ 0 ↔ ∃ d, server map ds e = some d ∧ d.baseOf e ≠ 0 := by
  unfold captured
  cases server map ds e <;> simp

/-- The outcome of a call that is not turned away. -/
structure Outcome (vs : List VirtualEntry) (ds : List MemoryDescriptor)
    (r : Status × VirtualState A) : Prop where
  memoryMap : r.2.memoryMap =
    vs.map fun v => { v with virtualStart := captured (vs.map (·.entry)) ds v.entry }
  success : r.1 = .success ↔
    (∀ d ∈ ds, d.virtualStart ≠ 0 → d.target (vs.map (·.entry)) ≠ none) ∧
      ∀ e ∈ vs.map (·.entry), e.runtimeAttribute = true → captured (vs.map (·.entry)) ds e ≠ 0

theorem setVirtualAddressMap_outcome {s : VirtualState A}
    (hnodup : (s.memoryMap.map (·.entry)).Nodup) {memoryMapSize descriptorSize : Uintn A}
    {virtualMap : Nat → MemoryDescriptor} (hruntime : s.efiAtRuntime = true)
    (hvirtual : s.efiVirtualMode = false) (hsize : 40 ≤ descriptorSize.toNat) :
    Outcome s.memoryMap (VirtualState.descriptors memoryMapSize descriptorSize virtualMap)
      (s.setVirtualAddressMap memoryMapSize descriptorSize memoryDescriptorVersion virtualMap) := by
  generalize hmap : s.memoryMap.map (·.entry) = map at hnodup
  unfold VirtualState.setVirtualAddressMap
  rw [if_neg (by simp [hruntime, hvirtual]), if_neg (by simp; omega)]
  generalize VirtualState.descriptors memoryMapSize descriptorSize virtualMap = ds
  have hcleared : (s.memoryMap.map fun v => { v with virtualStart := 0 }).map (·.entry) = map := by
    rw [List.map_map, ← hmap]
    rfl
  obtain ⟨hvs, hstatus⟩ := captureAll_eq map hnodup ds _ hcleared .success
  dsimp only
  generalize captureAll ds (s.memoryMap.map fun v => { v with virtualStart := 0 }) .success = r
    at hvs hstatus ⊢
  obtain ⟨vs, status⟩ := r
  dsimp only at hvs hstatus ⊢
  have hfinal : vs = s.memoryMap.map fun v => { v with virtualStart := captured map ds v.entry } := by
    rw [hvs, List.map_map]
    rfl
  -- the last check, in terms of the entries
  have hchecked : (vs.any fun v => v.entry.runtimeAttribute && v.virtualStart = 0) = false ↔
      ∀ e ∈ map, e.runtimeAttribute = true → captured map ds e ≠ 0 := by
    rw [hfinal, List.any_map, List.any_eq_false]
    constructor
    · intro h e he hattr h0
      rw [← hmap, List.mem_map] at he
      obtain ⟨v, hv, rfl⟩ := he
      exact h v hv (by simp [hattr, h0])
    · intro h v hv
      have hv' : v.entry ∈ map := hmap ▸ List.mem_map_of_mem hv
      simpa using h v.entry hv'
  constructor
  · rw [hmap]
    split <;> split <;> exact hfinal
  · rw [hmap]
    split
    · rename_i hany
      rw [if_neg (by decide)]
      refine iff_of_false nofun ?_
      rintro ⟨_, hall⟩
      rw [hchecked.mpr hall] at hany
      cases hany
    · rename_i hany
      have hall := hchecked.mp (by simpa using hany)
      rw [hstatus]
      by_cases htargets : ∀ d ∈ ds, d.virtualStart ≠ 0 → d.target map ≠ none
      · rw [if_pos htargets, if_pos rfl]
        exact iff_of_true rfl ⟨htargets, hall⟩
      · rw [if_neg htargets, if_neg (by decide)]
        exact iff_of_false nofun fun h => htargets h.1

/-- An entry of the final map is mapped by a descriptor exactly if it is served. -/
theorem mappedBy_iff_served {s : VirtualState A} (h : MapSpans (s.memoryMap.map (·.entry)))
    {v : VirtualEntry} (hv : v ∈ s.memoryMap)
    (hvalue : v.virtualStart = captured map ds v.entry) :
    (∃ d ∈ ds, MappedBy s v d) ↔ Served map ds v.entry := by
  have hle := h.nonempty v.entry (List.mem_map_of_mem hv)
  constructor
  · rintro ⟨d, hd, hmapped⟩
    constructor
    · -- the null pointer does not convert
      intro h0
      obtain ⟨s', hconvert⟩ := hmapped.converts v hv false 0 (by simp [h0]) (by simp)
      simp [VirtualState.convertPointer] at hconvert
    · have hgiven := hmapped.given
      rw [hvalue, captured_ne_zero] at hgiven
      obtain ⟨d', hserver, hbase⟩ := hgiven
      refine ⟨d', hserver, hbase, d, hd, hmapped.address, hmapped.contains, ?_⟩
      rw [MemoryDescriptor.baseOf_eq hmapped.contains.1, ← hmapped.base, hvalue, captured, hserver]
      rfl
  · rintro ⟨hstart, d', hserver, hbase, d, hd, haddress, hcontains, heq⟩
    have hgiven : v.virtualStart = d.baseOf v.entry := by
      rw [hvalue, captured, hserver, heq]
      rfl
    have hvirtual := hgiven
    rw [MemoryDescriptor.baseOf_eq hcontains.1] at hvirtual
    refine ⟨d, hd, haddress, hcontains, by rw [hgiven, heq]; exact hbase, hvirtual, ?_⟩
    intro last hlast optional a hlow hhigh
    have ha : a ≠ 0 := by
      rintro rfl
      simp at hlow
      omega
    refine ⟨{ s with memoryLastConvert := some v }, ?_⟩
    unfold VirtualState.convertPointer
    dsimp only
    rw [if_neg ha, lookup_eq h hv hlast ⟨hlow, hhigh⟩]
    dsimp only
    rw [convert_value hlow hcontains.1 hvirtual]

theorem switches_iff_of_outcome {vs : List VirtualEntry} (hmap : vs.map (·.entry) = map)
    (h : MapSpans map) {r : Status × VirtualState A} (hr : Outcome vs ds r) :
    Switches map ds r ↔ Suits map ds := by
  obtain ⟨hfinal, hsuccess⟩ := hr
  rw [hmap] at hfinal hsuccess
  have hentries : r.2.memoryMap.map (·.entry) = map := by
    rw [hfinal, List.map_map, ← hmap]
    rfl
  have hvalue : ∀ v ∈ r.2.memoryMap, v.virtualStart = captured map ds v.entry := by
    rw [hfinal]
    intro v hv
    obtain ⟨w, _, rfl⟩ := List.mem_map.mp hv
    rfl
  have hserved : ∀ v ∈ r.2.memoryMap, (∃ d ∈ ds, MappedBy r.2 v d) ↔ Served map ds v.entry :=
    fun v hv => mappedBy_iff_served (by rw [hentries]; exact h) hv (hvalue v hv)
  have hmem : ∀ e ∈ map, ∃ v ∈ r.2.memoryMap, v.entry = e := by
    intro e he
    rw [← hentries] at he
    exact List.mem_map.mp he
  constructor
  · intro hs
    constructor
    · intro hcovered
      have hok := hs.complete hcovered
      refine ⟨(hsuccess.mp hok).1, ?_⟩
      intro e he hruntime
      obtain ⟨v, hv, rfl⟩ := hmem e he
      exact (hserved v hv).mp (hs.sound hok v hv hruntime)
    · intro huncovered
      have hfails : r.1 ≠ .success := by
        intro hok
        apply huncovered
        intro e he hruntime
        obtain ⟨v, hv, rfl⟩ := hmem e he
        obtain ⟨d, hd, hmapped⟩ := hs.sound hok v hv hruntime
        exact ⟨d, hd, hmapped.address, hmapped.contains⟩
      rw [Ne, hsuccess, not_and_or] at hfails
      obtain htarget | hattr := hfails
      · push Not at htarget
        exact .inl htarget
      · push Not at hattr
        obtain ⟨e, he, hbit, hzero⟩ := hattr
        refine .inr ⟨e, he, hbit, ?_⟩
        intro d hd
        by_contra hbase
        exact captured_ne_zero.mpr ⟨d, hd, hbase⟩ hzero
  · intro hs
    have hcovered_of : r.1 = .success → Covered map ds := by
      intro hok
      by_contra huncovered
      obtain ⟨htargets, hattr⟩ := hsuccess.mp hok
      obtain ⟨d, hd, haddress, hnone⟩ | ⟨e, he, hbit, hzero⟩ := hs.uncovered huncovered
      · exact htargets d hd haddress hnone
      · obtain ⟨d, hd, hbase⟩ := captured_ne_zero.mp (hattr e he hbit)
        exact hbase (hzero d hd)
    constructor
    · intro hok v hv hruntime
      have hin : v.entry ∈ map := hentries ▸ List.mem_map_of_mem hv
      exact (hserved v hv).mpr ((hs.covered (hcovered_of hok)).2 v.entry hin hruntime)
    · intro hcovered
      obtain ⟨htargets, hall⟩ := hs.covered hcovered
      refine hsuccess.mpr ⟨htargets, ?_⟩
      intro e he hbit
      obtain ⟨_, d, hserver, hbase, _⟩ := hall e he (reportedRuntime_of_attribute hbit)
      exact captured_ne_zero.mpr ⟨d, hserver, hbase⟩

end Switch

/-- The first call at runtime, in the format that `GetMemoryMap` hands out, keeps the promise
    exactly when the map and the descriptors suit each other. -/
theorem switches_iff_suits (s : VirtualState A) (memoryMapSize descriptorSize : Uintn A)
    (virtualMap : Nat → MemoryDescriptor) (h : MapSpans (s.memoryMap.map (·.entry)))
    (hruntime : s.efiAtRuntime = true) (hvirtual : s.efiVirtualMode = false)
    (hsize : 40 ≤ descriptorSize.toNat) :
    Switches (s.memoryMap.map (·.entry))
        (VirtualState.descriptors memoryMapSize descriptorSize virtualMap)
        (s.setVirtualAddressMap memoryMapSize descriptorSize memoryDescriptorVersion virtualMap) ↔
      Suits (s.memoryMap.map (·.entry))
        (VirtualState.descriptors memoryMapSize descriptorSize virtualMap) :=
  switches_iff_of_outcome rfl h
    (setVirtualAddressMap_outcome (h.distinct.of_map _) hruntime hvirtual hsize)

/-! ## The map handed back -/

/-- The descriptor describes exactly the entry, which does not end the address space. -/
structure MemoryDescriptor.Describes (d : MemoryDescriptor) (e : MapEntry) : Prop where
  start : d.physicalStart = e.start
  pages : d.physicalStart + d.numberOfPages * 4096 = e.last + 1
  inside : e.last + 1 < 2 ^ 64

theorem MemoryDescriptor.Describes.target {d : MemoryDescriptor} {map : List MapEntry}
    {e : MapEntry} (hd : d.Describes e) (h : WellFormed map) (he : e ∈ map) :
    d.target map = some e := by
  have hend : d.physicalEnd = e.last + 1 := by
    have := hd.pages
    have := hd.inside
    unfold physicalEnd
    omega
  have honly : ∀ x ∈ map, d.covers x = true → x = e := by
    intro x hx hc
    obtain ⟨hstart, hlast⟩ := of_decide_eq_true hc
    rw [hd.start] at hstart
    rw [hend] at hlast
    have hlt := (h.pages x hx).start_lt (h.spans.nonempty x hx)
    have hle := h.spans.nonempty x hx
    by_contra hne
    have hkey : x.home ≠ e.home := fun hk => hne (h.spans.eq_of_key hx he hk)
    have := h.spans.apart x hx e he hkey
    have := (h.pages x hx).start_aligned
    have := (h.pages e he).last_aligned
    omega
  have hcovers : d.covers e = true := by
    refine decide_eq_true ⟨hd.start.le, ?_⟩
    rw [hend]
    omega
  have hfound : (map.find? d.covers).isSome = true := List.find?_isSome.mpr ⟨e, he, hcovers⟩
  obtain ⟨x, hfind⟩ := Option.isSome_iff_exists.mp hfound
  rw [MemoryDescriptor.target, hfind,
    honly x (List.mem_of_find?_eq_some hfind) (List.find?_some hfind)]

/-- An operating system that hands back the descriptors of the runtime entries, each with an
    address, is served. -/
theorem suits_of_describes {map : List MapEntry} {ds : List MemoryDescriptor} (h : WellFormed map)
    (hds : ∀ d ∈ ds, d.virtualStart ≠ 0 → d.virtualStart < 2 ^ 64 ∧ ∃ e ∈ map, d.Describes e)
    (hall : ∀ e ∈ map, e.ReportedRuntime → e.start ≠ 0 ∧
      ∃ d ∈ ds, d.virtualStart ≠ 0 ∧ d.Describes e) : Suits map ds := by
  have hcontains : ∀ (d : MemoryDescriptor) (e : MapEntry), d.Describes e → d.Contains e :=
    fun d e hd => ⟨hd.start.le, by rw [hd.pages]; exact Nat.lt_succ_self _⟩
  constructor
  · intro _
    refine ⟨?_, ?_⟩
    · intro d hd haddress
      obtain ⟨_, e, he, hdescribes⟩ := hds d hd haddress
      rw [hdescribes.target h he]
      nofun
    · intro e he hruntime
      obtain ⟨hstart, d, hd, haddress, hdescribes⟩ := hall e he hruntime
      refine ⟨hstart, ?_⟩
      have hserves : (server map ds e).isSome = true :=
        List.find?_isSome.mpr ⟨d, List.mem_reverse.mpr hd, by
          simp [haddress, hdescribes.target h he]⟩
      obtain ⟨d', hserver⟩ := Option.isSome_iff_exists.mp hserves
      have hd' : d' ∈ ds := List.mem_reverse.mp (List.mem_of_find?_eq_some hserver)
      have htest := List.find?_some hserver
      simp only [Bool.and_eq_true, decide_eq_true_eq] at htest
      obtain ⟨haddress', htarget⟩ := htest
      -- the last descriptor for `e` describes `e` too
      obtain ⟨hlt, e', he', hdescribes'⟩ := hds d' hd' haddress'
      rw [hdescribes'.target h he', Option.some.injEq] at htarget
      subst htarget
      refine ⟨d', hserver, ?_, d', hd', haddress', hcontains _ _ hdescribes', rfl⟩
      rw [MemoryDescriptor.baseOf_eq hdescribes'.start.le, hdescribes'.start, Nat.sub_self,
        Nat.add_zero, Nat.mod_eq_of_lt hlt]
      exact haddress'
  · intro huncovered
    refine absurd ?_ huncovered
    intro e he hruntime
    obtain ⟨_, d, hd, haddress, hdescribes⟩ := hall e he hruntime
    exact ⟨d, hd, haddress, hcontains _ _ hdescribes⟩

/-! ## Entries without the attribute -/

/-- Two pages of runtime data whose `Attribute` says how they can be cached, as the map has them. -/
def runtimeData : VirtualState .efi64 where
  efiAtRuntime := true
  efiVirtualMode := false
  memoryMap := [⟨⟨.pool 0x100000, .runtimeServicesData, 0x2000, 0x3fff, 0xf⟩, 0⟩]
  memoryLastConvert := none

def runtimeDataAt (virtualStart : Nat) : MemoryDescriptor :=
  ⟨.runtimeServicesData, 0x2000, virtualStart, 2, 0x800000000000000f⟩

theorem runtimeData_wellFormed : WellFormed (runtimeData.memoryMap.map (·.entry)) where
  spans := ⟨by simp [runtimeData], by simp [runtimeData], by simp [runtimeData]⟩
  pages := by
    intro e he
    obtain rfl := List.mem_singleton.mp he
    exact ⟨rfl, rfl, by decide⟩
  coalesced := by simp [runtimeData]
  sorted := List.pairwise_singleton _ _

theorem switches_runtimeData : Switches (runtimeData.memoryMap.map (·.entry))
    (VirtualState.descriptors (48 : Uintn .efi64) 48 fun _ => runtimeDataAt 0x80000000)
    (runtimeData.setVirtualAddressMap 48 48 memoryDescriptorVersion
      fun _ => runtimeDataAt 0x80000000) := by
  refine (switches_iff_suits runtimeData 48 48 (fun _ => runtimeDataAt 0x80000000)
    runtimeData_wellFormed.spans rfl rfl (by decide)).mpr ?_
  have hdescribes : (runtimeDataAt 0x80000000).Describes
      ⟨.pool 0x100000, .runtimeServicesData, 0x2000, 0x3fff, 0xf⟩ := ⟨rfl, rfl, by decide⟩
  refine suits_of_describes runtimeData_wellFormed ?_ ?_
  · intro d hd _
    obtain rfl := List.mem_singleton.mp hd
    exact ⟨by decide, _, List.mem_singleton.mpr rfl, hdescribes⟩
  · intro e he _
    obtain rfl := List.mem_singleton.mp he
    exact ⟨by decide, _, List.mem_singleton.mpr rfl, by decide, hdescribes⟩

/-- Without any descriptor the call succeeds, and the runtime entry has no address. -/
theorem not_switches : ¬ Switches (runtimeData.memoryMap.map (·.entry))
    (VirtualState.descriptors (0 : Uintn .efi64) 48 fun _ => runtimeDataAt 0)
    (runtimeData.setVirtualAddressMap 0 48 memoryDescriptorVersion fun _ => runtimeDataAt 0) := by
  intro h
  obtain ⟨d, hd, _⟩ := h.sound (by decide)
    ⟨⟨.pool 0x100000, .runtimeServicesData, 0x2000, 0x3fff, 0xf⟩, 0⟩ (by decide)
    (by unfold MapEntry.ReportedRuntime; decide)
  simp [VirtualState.descriptors] at hd

end EfiCore.Mem
