import EfiCore.Ldr.Carve

/-! # From the memory map of the BIOS to descriptors

The entries of the map have no byte in common, so nothing is taken out of a descriptor here: each
entry with a whole page becomes a descriptor of its own.
-/

namespace EfiCore.Ldr

open EfiCore.Lib
open EfiCore.Mem (MemoryType MemoryDescriptor)

namespace BiosMemoryMapEntry

variable {e e' : BiosMemoryMapEntry}

/-- The byte is in the entry. -/
def has (e : BiosMemoryMapEntry) (x : Nat) : Prop :=
  e.baseAddress ≤ x ∧ x < e.baseAddress + e.length

instance (e : BiosMemoryMapEntry) (x : Nat) : Decidable (e.has x) :=
  inferInstanceAs (Decidable (_ ∧ _))

/-- `INT15_E820_AddressRangeMemory` -/
def isMemory (e : BiosMemoryMapEntry) : Prop := e.type = 1

instance (e : BiosMemoryMapEntry) : Decidable e.isMemory :=
  inferInstanceAs (Decidable (e.type = 1))

/-- All bytes of page `p` are in the entry. -/
def Whole (e : BiosMemoryMapEntry) (p : Nat) : Prop :=
  e.baseAddress ≤ p * 4096 ∧ p * 4096 + 4096 ≤ e.baseAddress + e.length

instance (e : BiosMemoryMapEntry) (p : Nat) : Decidable (e.Whole p) :=
  inferInstanceAs (Decidable (_ ∧ _))

/-- An entry that begins inside of a page reaches its end. -/
def Long (e : BiosMemoryMapEntry) : Prop :=
  e.baseAddress % 4096 = 0 ∨ 4096 ≤ e.length + e.baseAddress % 4096

instance (e : BiosMemoryMapEntry) : Decidable e.Long := inferInstanceAs (Decidable (_ ∨ _))

theorem efiType_conventional : e.efiType.1 = .conventionalMemory ↔ e.isMemory := by
  rw [efiType, isMemory]
  by_cases h : e.type = 1
  · rw [if_pos h]
    exact iff_of_true rfl h
  · rw [if_neg h]
    refine iff_of_false ?_ h
    split_ifs
    all_goals nofun

theorem range_type : e.range.type = .conventionalMemory ↔ e.isMemory := efiType_conventional

theorem range_memory (hmem : e.isMemory) :
    e.range.baseAddress = e.inward.1 ∧ e.range.noPages = e.inward.2 / 4096 := by
  rw [range, if_pos (efiType_conventional.mpr hmem)]
  exact ⟨rfl, rfl⟩

theorem range_other (hmem : ¬e.isMemory) :
    e.range.baseAddress = e.outward.1 ∧ e.range.noPages = e.outward.2 / 4096 := by
  rw [range, if_neg fun h => hmem (efiType_conventional.mp h)]
  exact ⟨rfl, rfl⟩

/-- The descriptor of a memory entry has the whole pages of the entry. -/
theorem range_has_memory (hmem : e.isMemory) (hlong : e.Long) {x : Nat} :
    e.range.has x ↔ e.Whole (x / 4096) := by
  have hbelow := e.below
  have hlength := e.length_lt
  obtain ⟨hbase, hpages⟩ := range_memory hmem
  rw [Range.has, Range.last, hbase, hpages, inward, Whole]
  rw [Long] at hlong
  by_cases haligned : e.baseAddress % 4096 = 0
  · rw [if_neg (not_not.mpr haligned)]
    omega
  · rw [if_pos haligned]
    dsimp only
    -- the start of the next page, which may be the end of the address space
    have hlen : (e.length + e.baseAddress % 4096 + (2 ^ 32 - 4096)) % 2 ^ 32 =
        e.length + e.baseAddress % 4096 - 4096 := by omega
    rw [hlen]
    by_cases hwrap : (e.baseAddress / 4096 + 1) * 4096 = 2 ^ 32
    · rw [hwrap]
      omega
    · rw [Nat.mod_eq_of_lt (by omega)]
      omega

/-- The descriptor of another entry has the pages that the entry touches. -/
theorem range_has_other (hmem : ¬e.isMemory) (hlength : 0 < e.length) {x : Nat}
    (hx : e.range.has x) : ∃ y, y / 4096 = x / 4096 ∧ e.has y := by
  have hbelow := e.below
  obtain ⟨hbase, hpages⟩ := range_other hmem
  rw [Range.has, Range.last, hbase, hpages, outward] at hx
  dsimp only at hx
  refine ⟨max e.baseAddress (x / 4096 * 4096), ?_, ?_⟩
  · split_ifs at hx with h
    all_goals omega
  · rw [has]
    split_ifs at hx with h
    all_goals omega

theorem range_small : e.range.Small := by
  have hstart := e.baseAddress_lt
  have hlength := e.length_lt
  by_cases hmem : e.isMemory
  · obtain ⟨hbase, hpages⟩ := range_memory hmem
    rw [inward] at hbase hpages
    constructor
    · rw [hbase]
      split_ifs
      all_goals
        dsimp only
        omega
    · rw [hpages]
      split_ifs
      all_goals
        dsimp only
        omega
  · obtain ⟨hbase, hpages⟩ := range_other hmem
    rw [outward] at hbase hpages
    dsimp only at hbase hpages
    constructor
    · rw [hbase]
      omega
    · rw [hpages]
      split_ifs
      all_goals omega

/-- The byte is in a whole page of memory of the entry. -/
def reports (e : BiosMemoryMapEntry) (x : Nat) : Bool :=
  decide e.isMemory && decide (e.Whole (x / 4096))

theorem reports_iff {x : Nat} : e.reports x = true ↔ e.isMemory ∧ e.Whole (x / 4096) := by
  simp only [reports, Bool.and_eq_true, decide_eq_true_eq]

theorem Whole.has {x : Nat} (h : e.Whole (x / 4096)) : e.has x := by
  rw [Whole] at h
  rw [BiosMemoryMapEntry.has]
  omega

/-- A page with a byte of the entry, if it is a whole page of `e'`. -/
theorem Whole.has_of_page {x y : Nat} (h : e.Whole (x / 4096)) (hpage : y / 4096 = x / 4096) :
    e.has y := by
  rw [← hpage] at h
  exact h.has

theorem offers_range (hlong : e.isMemory → e.Long) (x : Nat) :
    offers e.range.descriptor x = e.reports x := by
  refine Bool.eq_iff_iff.mpr ?_
  rw [reports_iff, offers_iff]
  constructor
  · rintro ⟨htype, hx⟩
    have hmem := range_type.mp htype
    exact ⟨hmem, (range_has_memory hmem (hlong hmem)).mp hx⟩
  · rintro ⟨hmem, hwhole⟩
    exact ⟨range_type.mpr hmem, (range_has_memory hmem (hlong hmem)).mpr hwhole⟩

/-- The descriptor of a memory entry is whole pages below 4 GB. -/
theorem range_paged (hmem : e.isMemory) (hlong : e.Long) (hpos : 0 < e.range.noPages) :
    Paged e.range.descriptor := by
  have hbelow := e.below
  -- the first and the last byte of the descriptor are in whole pages of the entry
  have hfirst : e.Whole (e.range.baseAddress / 4096) := by
    refine (range_has_memory hmem hlong).mp ⟨Nat.le_refl _, ?_⟩
    rw [Range.last]
    omega
  have hlast : e.Whole ((e.range.last - 1) / 4096) := by
    refine (range_has_memory hmem hlong).mp ?_
    rw [Range.has, Range.last]
    omega
  have haligned : e.range.baseAddress % 4096 = 0 := by
    rw [(range_memory hmem).1, inward]
    split_ifs
    all_goals
      dsimp only
      omega
  refine ⟨haligned, hpos, ?_⟩
  change e.range.last ≤ 2 ^ 32
  rw [Whole] at hlast
  rw [Range.last] at hlast ⊢
  omega

end BiosMemoryMapEntry

open BiosMemoryMapEntry

variable {map : List BiosMemoryMapEntry}

/-- No two entries have a byte in common. -/
def Disjoint (map : List BiosMemoryMapEntry) : Prop :=
  map.Pairwise fun e e' => ∀ x, ¬(e.has x ∧ e'.has x)

theorem disjoint_of_sorted
    (h : map.Pairwise fun e e' => e.baseAddress + e.length ≤ e'.baseAddress ∨ e'.length = 0) :
    Disjoint map := by
  refine h.imp fun hab x => ?_
  rintro ⟨⟨hlow, hhigh⟩, hlow', hhigh'⟩
  omega

/-- What the rounding of the entries relies on. -/
structure Regular (map : List BiosMemoryMapEntry) : Prop where
  /-- A memory entry that begins inside of a page reaches its end. -/
  long : ∀ e ∈ map, e.isMemory → e.Long
  /-- An entry of no byte is not rounded to a page of memory before it. -/
  empties : map.Pairwise fun e e' =>
    e.isMemory → ¬e'.isMemory → e'.length = 0 → ∀ x, ¬(e.range.has x ∧ e'.range.has x)

/-- The descriptors of the entries. -/
def described (map : List BiosMemoryMapEntry) : List MemoryDescriptor :=
  ((map.map range).filter fun r => decide (0 < r.noPages)).map Range.descriptor

theorem mem_described {d : MemoryDescriptor} (hd : d ∈ described map) :
    ∃ e ∈ map, 0 < e.range.noPages ∧ d = e.range.descriptor := by
  obtain ⟨r, hr, rfl⟩ := List.mem_map.mp hd
  obtain ⟨hr, hpos⟩ := List.mem_filter.mp hr
  obtain ⟨e, he, rfl⟩ := List.mem_map.mp hr
  exact ⟨e, he, of_decide_eq_true hpos, rfl⟩

theorem described_paged (hlong : ∀ e ∈ map, e.isMemory → e.Long) : AllPaged (described map) := by
  intro d hd hconv
  obtain ⟨e, he, hpos, rfl⟩ := mem_described hd
  have hmem := range_type.mp hconv
  exact range_paged hmem (hlong e he hmem) hpos

/-- The descriptors offer the whole pages of memory. -/
theorem described_covers (hlong : ∀ e ∈ map, e.isMemory → e.Long) (x : Nat) :
    cover offers (described map) x = cover reports map x := by
  induction map with
  | nil => rfl
  | cons e map ih =>
    have hrest := ih fun e' he' => hlong e' (List.mem_cons_of_mem e he')
    have hfirst := offers_range (hlong e List.mem_cons_self) x
    rw [cover_cons, ← hrest, described, List.map_cons, List.filter_cons]
    by_cases hpos : 0 < e.range.noPages
    · rw [if_pos (decide_eq_true hpos), List.map_cons, cover_cons, hfirst]
      rfl
    · have hnone : ¬e.reports x = true := by
        rw [← hfirst, offers_iff]
        rintro ⟨-, hx⟩
        exact Range.not_has_empty (Nat.eq_zero_of_not_pos hpos) x hx
      rw [if_neg (by rwa [decide_eq_true_eq]), if_neg hnone]
      rfl

theorem reports_le_one (hdisjoint : Disjoint map) (x : Nat) : cover reports map x ≤ 1 := by
  refine cover_le_one_of_pairwise (hdisjoint.imp fun hab y => ?_) x
  rintro ⟨ha, hb⟩
  exact hab y ⟨(reports_iff.mp ha).2.has, (reports_iff.mp hb).2.has⟩

/-- The range of an entry has nothing of the descriptors before it. -/
theorem described_clear {done rest : List BiosMemoryMapEntry} {e : BiosMemoryMapEntry}
    (hdisjoint : Disjoint (done ++ e :: rest)) (hregular : Regular (done ++ e :: rest)) :
    e.range.Clear (described done) := by
  rintro d hd hconv x ⟨hoffers, hx⟩
  obtain ⟨e', he', -, rfl⟩ := mem_described hd
  have hmem' := range_type.mp hconv
  have hlong := fun a ha => hregular.long a (List.mem_append_left _ ha)
  have hwhole := (range_has_memory hmem' (hlong e' he' hmem')).mp (offers_iff.mp hoffers).2
  have hapart := (List.pairwise_append.mp hdisjoint).2.2 e' he' e List.mem_cons_self
  by_cases hmem : e.isMemory
  · have he := hregular.long e (List.mem_append_right _ List.mem_cons_self) hmem
    exact hapart x ⟨hwhole.has, ((range_has_memory hmem he).mp hx).has⟩
  · obtain hzero | hpos := Nat.eq_zero_or_pos e.length
    · exact (List.pairwise_append.mp hregular.empties).2.2 e' he' e List.mem_cons_self
        hmem' hmem hzero x ⟨(offers_iff.mp hoffers).2, hx⟩
    · obtain ⟨y, hpage, hy⟩ := range_has_other hmem hpos hx
      exact hapart y ⟨hwhole.has_of_page hpage, hy⟩

/-- The loop over the map. -/
theorem addAll_described (done rest : List BiosMemoryMapEntry) (hdisjoint : Disjoint (done ++ rest))
    (hregular : Regular (done ++ rest)) :
    addAll (rest.map range) (described done) = described (done ++ rest) := by
  induction rest generalizing done with
  | nil =>
    rw [List.append_nil]
    rfl
  | cons e rest ih =>
    have hall := described_paged fun a ha =>
      hregular.long a (List.mem_append_left (e :: rest) ha)
    have hnext : e.range.efiAddMemoryDescriptor (described done) = described (done ++ [e]) := by
      rw [described, described, List.map_append, List.filter_append, List.map_append]
      by_cases hpos : 0 < e.range.noPages
      · have hadd := Range.add_clear range_small hpos hall (described_clear hdisjoint hregular)
        rw [described] at hadd
        rw [hadd, List.map_cons, List.filter_cons, if_pos (decide_eq_true hpos)]
        rfl
      · rw [Range.efiAddMemoryDescriptor, if_pos (Nat.eq_zero_of_not_pos hpos), List.map_cons,
          List.filter_cons, if_neg (by rwa [decide_eq_true_eq])]
        exact (List.append_nil _).symm
    have hsplit : done ++ e :: rest = done ++ [e] ++ rest := by
      rw [List.append_assoc, List.singleton_append]
    rw [List.map_cons, addAll, List.foldl_cons, hnext, hsplit]
    exact ih (done ++ [e]) (hsplit ▸ hdisjoint) (hsplit ▸ hregular)

end EfiCore.Ldr
