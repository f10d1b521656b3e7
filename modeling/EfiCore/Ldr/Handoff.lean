import EfiCore.Ldr.Placement

/-! # What the boot loader hands to the core

`HandsOff` says what the descriptors and the chosen ranges of `EfiLoader` are to be.  The loader
checks little of what this rests on: `Orderly` collects it.
-/

namespace EfiCore.Ldr

open EfiCore.Lib
open EfiCore.Mem (MemoryType MemoryDescriptor sizeToPages)

variable {map : List BiosMemoryMapEntry} {f : EfildrFile} {c : CoreImage} {h : Handoff}
variable {taken rs : List Range} {r : Range} {ds : List MemoryDescriptor}
  {d : MemoryDescriptor}

/-! ## The table while ranges are taken out of it -/

/-- The table when the ranges of `taken` are in use: the other whole pages of memory are offered,
    once each, and each stretch of them by a descriptor of its own. -/
structure Table (map : List BiosMemoryMapEntry) (taken : List Range)
    (ds : List MemoryDescriptor) : Prop where
  paged : AllPaged ds
  covers : ∀ x, cover offers ds x =
    if ∃ r ∈ taken, r.has x then 0 else cover BiosMemoryMapEntry.reports map x
  once : ∀ x, cover offers ds x ≤ 1
  stretches : ∀ d ∈ ds, d.type = .conventionalMemory →
    ∃ e ∈ map, Stretch taken e d.physicalStart (ending d)
  length : ds.length = needed map taken

/-- A byte that the table offers is free. -/
theorem Table.free (h : Table map taken ds) (hd : d ∈ ds) {x : Nat} (hx : offers d x = true) :
    ∃ e ∈ map, Free taken e x := by
  obtain ⟨hconv, hlow, hhigh⟩ := offers_iff.mp hx
  obtain ⟨e, he, hstretch⟩ := h.stretches d hd hconv
  exact ⟨e, he, hstretch.free x hlow hhigh⟩

/-- A free byte is offered. -/
theorem Table.offers_of_free (h : Table map taken ds) {e : BiosMemoryMapEntry} (he : e ∈ map)
    {x : Nat} (hfree : Free taken e x) : ∃ d ∈ ds, offers d x = true := by
  have hcovers := h.covers x
  rw [if_neg fun ⟨r, hr, hx⟩ => hfree.2 r hr hx] at hcovers
  exact exists_of_cover_pos (hcovers ▸ cover_pos he hfree.1)

/-- The stretch of a descriptor with a free byte of the entry. -/
theorem Table.stretch (h : Table map taken ds) (hdisjoint : Disjoint map)
    {e : BiosMemoryMapEntry} (he : e ∈ map) {x : Nat} (hfree : Free taken e x) (hd : d ∈ ds)
    (hx : offers d x = true) : Stretch taken e d.physicalStart (ending d) := by
  obtain ⟨hconv, hlow, hhigh⟩ := offers_iff.mp hx
  obtain ⟨e', he', hstretch⟩ := h.stretches d hd hconv
  rwa [Free.unique hdisjoint he he' hfree (hstretch.free x hlow hhigh)]

/-- Each stretch is a descriptor. -/
theorem Table.exists_of_stretch (h : Table map taken ds) (hdisjoint : Disjoint map)
    {e : BiosMemoryMapEntry} (he : e ∈ map) {a b : Nat} (hstretch : Stretch taken e a b) :
    ∃ d ∈ ds, d.type = .conventionalMemory ∧ d.physicalStart = a ∧ ending d = b := by
  have hfree := hstretch.free a (Nat.le_refl a) hstretch.lt
  obtain ⟨d, hd, hx⟩ := h.offers_of_free he hfree
  obtain ⟨hconv, hlow, hhigh⟩ := offers_iff.mp hx
  have hsame := (h.stretch hdisjoint he hfree hd hx).unique hstretch hlow hhigh
    (Nat.le_refl a) hstretch.lt
  exact ⟨d, hd, hconv, hsame⟩

/-- The highest descriptor is the highest stretch. -/
theorem Table.top {n : Nat} (h : Table map taken ds) (hdisjoint : Disjoint map)
    (htops : Tops n ds d) : TopStretch n map taken d.physicalStart (ending d) := by
  have hending : ending d = d.physicalStart + d.numberOfPages * 4096 := rfl
  have hpages := htops.pages
  refine ⟨h.stretches d htops.mem htops.conventional, by omega, ?_⟩
  rintro a b ⟨e, he, hstretch⟩ hlong
  obtain ⟨d', hd', hconv, rfl, rfl⟩ := h.exists_of_stretch hdisjoint he hstretch
  refine htops.top d' hd' hconv ?_
  rw [ending] at hlong
  omega

/-- A range that is in memory of one entry, or in none, is one that can be taken out. -/
theorem Table.suits_of_enters (h : Table map taken ds) (hdisjoint : Disjoint map)
    (henters : r.Enters map taken) : r.Suits ds := by
  intro d hd hconv
  by_cases hcommon : ∃ x, offers d x = true ∧ r.has x
  · obtain ⟨x, hoffers, hx⟩ := hcommon
    obtain ⟨-, hlow, hhigh⟩ := offers_iff.mp hoffers
    obtain ⟨e, he, hfree⟩ := h.free hd hoffers
    obtain hnone | ⟨haligned, hall⟩ := henters e he
    · exact absurd hfree (hnone x hx)
    · obtain ⟨hstart, hlast⟩ := (h.stretch hdisjoint he hfree hd hoffers).encloses
        (fun y hlow' hhigh' => hall y ⟨hlow', hhigh'⟩) hlow hhigh hx.1 hx.2
      exact .inl ⟨haligned, hstart, hlast⟩
  · exact .inr fun x hx => hcommon ⟨x, hx⟩

/-- Where nothing is offered twice, only one descriptor has the first byte of the range. -/
theorem any_eq_of_within (hin : r.Within d) (hd : d ∈ ds) (hconv : d.type = .conventionalMemory)
    (hpos : 0 < r.noPages) (honce : ∀ x, cover offers ds x ≤ 1) {p : MemoryDescriptor → Bool}
    (hp : ∀ d', p d' = true → d'.type = .conventionalMemory ∧ d'.physicalStart ≤ r.baseAddress ∧
      r.last ≤ ending d') : ds.any p = p d := by
  have hlast : r.baseAddress < r.last := by
    rw [Range.last]
    omega
  refine Bool.eq_iff_iff.mpr ⟨fun hany => ?_, fun hpd => List.any_eq_true.mpr ⟨d, hd, hpd⟩⟩
  obtain ⟨d', hd', hpd'⟩ := List.any_eq_true.mp hany
  obtain ⟨hconv', hstart', hend'⟩ := hp d' hpd'
  have hoffers := hin.offers hconv ⟨Nat.le_refl _, hlast⟩
  have hoffers' := offers_iff.mpr ⟨hconv', hstart', hlast.trans_le hend'⟩
  rwa [eq_of_cover_le_one honce hd hd' hoffers hoffers']

/-- A range in a descriptor is appended for the memory on both sides of it. -/
theorem entries_of_within (hin : r.Within d) (hd : d ∈ ds)
    (hconv : d.type = .conventionalMemory) (hpos : 0 < r.noPages)
    (honce : ∀ x, cover offers ds x ≤ 1) :
    r.entries ds = (if d.physicalStart < r.baseAddress then 1 else 0) +
      if r.last < ending d then 1 else 0 := by
  have hfills := any_eq_of_within hin hd hconv hpos honce (p := r.fills) fun d' hd' =>
    have ⟨hconv, hstart, hend⟩ := Range.fills_iff.mp hd'
    ⟨hconv, hstart.le, hend.ge⟩
  have hinside := any_eq_of_within hin hd hconv hpos honce (p := r.inside) fun d' hd' =>
    have ⟨hconv, hstart, hend⟩ := Range.inside_iff.mp hd'
    ⟨hconv, hstart.le, hend.le⟩
  have hstart := hin.start
  have hlast := hin.last
  rw [Range.entries, if_neg hpos.ne', hfills, hinside]
  simp only [Range.fills_iff, Range.inside_iff, hconv, true_and]
  split_ifs
  all_goals omega

/-- What is appended for a range can be told from the map. -/
theorem Table.entries_eq (h : Table map taken ds) (hdisjoint : Disjoint map)
    (hsuits : r.Suits ds) : r.entries ds = r.grows map taken := by
  by_cases hzero : r.noPages = 0
  · rw [Range.entries, Range.grows, if_pos hzero, if_pos hzero]
  · have hpos := Nat.pos_of_ne_zero hzero
    have hlast : r.baseAddress < r.last := by
      rw [Range.last]
      omega
    rw [Range.grows, if_neg hzero]
    cases hfind : map.find? (fun e => decide (Free taken e r.baseAddress)) with
    | none =>
      rw [List.find?_eq_none] at hfind
      have hclear : r.Clear ds := fun d hd hconv => by
        obtain hin | hapart := hsuits d hd hconv
        · obtain ⟨e, he, hfree⟩ := h.free hd (hin.offers hconv ⟨Nat.le_refl _, hlast⟩)
          exact absurd (decide_eq_true hfree) (hfind e he)
        · exact hapart
      rw [Range.entries, if_neg hzero, hclear.fills hpos, hclear.inside hpos]
      rfl
    | some e =>
      have hfree : Free taken e r.baseAddress := by simpa using List.find?_some hfind
      have he := List.mem_of_find?_eq_some hfind
      obtain ⟨d, hd, hoffers⟩ := h.offers_of_free he hfree
      have hconv := (offers_iff.mp hoffers).1
      have hin := (hsuits d hd hconv).resolve_right fun hapart =>
        hapart _ ⟨hoffers, Nat.le_refl _, hlast⟩
      have hstretch := h.stretch hdisjoint he hfree hd hoffers
      have hstart := hin.start
      have hend := hin.last
      have hbefore : r.baseAddress ≠ 0 ∧ Free taken e (r.baseAddress - 1) ↔
          d.physicalStart < r.baseAddress := by
        refine ⟨fun hfree => Nat.lt_of_le_of_ne hstart fun heq => ?_, fun hlt =>
          ⟨by omega, hstretch.free _ (by omega) (by omega)⟩⟩
        have hne := hfree.1
        exact hstretch.before _ (by omega) hfree.2
      have hbehind : Free taken e r.last ↔ r.last < ending d := by
        refine ⟨fun hfree => Nat.lt_of_le_of_ne hend fun heq => ?_, fun hlt =>
          hstretch.free _ (by omega) hlt⟩
        exact hstretch.behind (heq ▸ hfree)
      rw [entries_of_within hin hd hconv hpos h.once]
      simp only [hbefore, hbehind]

theorem Table.add (h : Table map taken ds) (hdisjoint : Disjoint map) (hr : r.Small)
    (htype : r.type ≠ .conventionalMemory) (hsuits : r.Suits ds) :
    Table map (taken ++ [r]) (r.efiAddMemoryDescriptor ds) := by
  have hcarved := Range.add_carved hr htype h.paged hsuits h.once
  have hlength := Range.add_length hr htype h.paged hsuits h.once
  refine ⟨fun d hd hconv => (hcarved.pieces d hd hconv).1, fun x => ?_, fun x => ?_,
    fun d' hd' hconv' => ?_, ?_⟩
  · have hsplit : (∃ r' ∈ taken ++ [r], r'.has x) ↔ (∃ r' ∈ taken, r'.has x) ∨ r.has x := by
      simp only [List.mem_append, List.mem_singleton, or_and_right, exists_or, exists_eq_left]
    rw [hcarved.covers x, h.covers x]
    by_cases hx : r.has x
    · rw [if_pos hx, if_pos (hsplit.mpr (.inr hx))]
    · rw [if_neg hx]
      by_cases htaken : ∃ r' ∈ taken, r'.has x
      · rw [if_pos htaken, if_pos (hsplit.mpr (.inl htaken))]
      · rw [if_neg htaken, if_neg fun h => (hsplit.mp h).elim htaken hx]
  · rw [hcarved.covers x]
    split_ifs
    · exact Nat.zero_le 1
    · exact h.once x
  · by_cases hzero : r.noPages = 0
    · rw [Range.efiAddMemoryDescriptor, if_pos hzero] at hd'
      obtain ⟨e, he, hstretch⟩ := h.stretches d' hd' hconv'
      have hfree : ∀ x, Free (taken ++ [r]) e x ↔ Free taken e x := fun x =>
        free_concat.trans (and_iff_left (Range.not_has_empty hzero x))
      exact ⟨e, he, hstretch.lt, fun x hlow hhigh => (hfree x).mpr (hstretch.free x hlow hhigh),
        fun x hx hx' => hstretch.before x hx ((hfree x).mp hx'),
        fun hx' => hstretch.behind ((hfree _).mp hx')⟩
    · obtain ⟨hpaged, d, hd, hconv, hpiece⟩ := hcarved.pieces d' hd' hconv'
      obtain ⟨e, he, hstretch⟩ := h.stretches d hd hconv
      exact ⟨e, he, hstretch.piece hconv (Nat.pos_of_ne_zero hzero) hpiece hpaged⟩
  · rw [hlength, h.length, h.entries_eq hdisjoint hsuits, needed, needed, grown_concat,
      List.nil_append]
    omega

theorem Table.run (h : Table map taken ds) (hdisjoint : Disjoint map)
    (hrs : ∀ r ∈ rs, r.Small ∧ r.type ≠ .conventionalMemory) (henter : EnterAll map taken rs) :
    Table map (taken ++ rs) (addAll rs ds) := by
  induction rs generalizing taken ds with
  | nil => rwa [List.append_nil]
  | cons r rs ih =>
    obtain ⟨hsmall, htype⟩ := hrs r List.mem_cons_self
    have hnext := ih (h.add hdisjoint hsmall htype (h.suits_of_enters hdisjoint henter.1))
      (fun r' hr' => hrs r' (List.mem_cons_of_mem r hr')) henter.2
    rwa [List.append_assoc, List.singleton_append] at hnext

/-- The table when the map of the BIOS is read. -/
theorem described_table (hdisjoint : Disjoint map) (hregular : Regular map) :
    Table map [] (described map) where
  paged := described_paged hregular.long
  covers x := (described_covers hregular.long x).trans
    (if_neg fun ⟨_, hr, _⟩ => absurd hr List.not_mem_nil).symm
  once x := (described_covers hregular.long x).trans_le (reports_le_one hdisjoint x)
  stretches d hd hconv := by
    obtain ⟨e, he, hpos, rfl⟩ := mem_described hd
    have hmem := BiosMemoryMapEntry.range_type.mp hconv
    have hlong := hregular.long e he hmem
    have hfree : ∀ x, Free [] e x ↔ e.range.has x := fun x => by
      rw [Free, BiosMemoryMapEntry.reports_iff, BiosMemoryMapEntry.range_has_memory hmem hlong]
      exact (and_iff_left fun r hr => absurd hr List.not_mem_nil).trans (and_iff_right hmem)
    refine ⟨e, he, ?_, fun x hlow hhigh => (hfree x).mpr ⟨hlow, hhigh⟩, fun x hx hx' => ?_,
      fun hx' => ?_⟩
    · change e.range.baseAddress < e.range.baseAddress + e.range.noPages * 4096
      omega
    · have hlow := ((hfree x).mp hx').1
      change x + 1 = e.range.baseAddress at hx
      omega
    · exact absurd ((hfree _).mp hx').2 (Nat.lt_irrefl _)
  length := (Nat.add_zero _).symm

/-- A range inside of one descriptor. -/
theorem Table.suits (h : Table map taken ds) (hd : d ∈ ds)
    (hconv : d.type = .conventionalMemory) (hin : r.Within d) : r.Suits ds := by
  intro d' hd' hconv'
  by_cases hcommon : ∃ x, offers d' x = true ∧ r.has x
  · obtain ⟨x, hoffers, hx⟩ := hcommon
    obtain rfl := eq_of_cover_le_one h.once hd' hd hoffers (hin.offers hconv hx)
    exact .inl hin
  · exact .inr fun x hx => hcommon ⟨x, hx⟩

/-! ## The core, its stack and its fixup data -/

theorem CoreImage.noPages_le (c : CoreImage) : c.noPages ≤ 2 ^ 20 := by
  have hlt := (c.sizeOfImage + c.sectionAlignment + c.codeViewSize).isLt
  rw [CoreImage.noPages, sizeToPages]
  split_ifs
  all_goals omega

theorem CoreImage.noFixupPages_le (c : CoreImage) : c.noFixupPages ≤ 2 ^ 20 := by
  rw [CoreImage.noFixupPages]
  omega

theorem stackRange_base {base : Nat} (hlow : 0x20000 ≤ base) (hhigh : base < 2 ^ 32) :
    (stackRange base).baseAddress = base - 0x20000 := by
  rw [stackRange]
  dsimp only
  omega

/-- The core and its stack are at the end of the descriptor. -/
theorem core_within {base : Nat} (htops : Tops (c.noPages + stackPages + 1) ds d)
    (hpaged : Paged d) (hbase : base + (c.noPages + 1) * 4096 = ending d) :
    (imageRange base c).Within d ∧ (stackRange base).Within d ∧
      (stackRange base).last = base ∧
      ending d - (c.noPages + stackPages + 1) * 4096 = (stackRange base).baseAddress := by
  have hpages := htops.pages
  have hstart := hpaged.start
  have hbelow := hpaged.below
  have hstack : stackPages = 32 := rfl
  have hbottom : (stackRange base).baseAddress = base - 0x20000 := by
    rw [ending] at hbase hbelow
    exact stackRange_base (by omega) (by omega)
  rw [ending] at hbase hbelow
  have hlast : (stackRange base).last = base := by
    rw [Range.last, hbottom]
    change base - 0x20000 + 32 * 4096 = base
    omega
  refine ⟨⟨?_, ?_, ?_⟩, ⟨?_, ?_, ?_⟩, hlast, ?_⟩
  · change base % 4096 = 0
    omega
  · change d.physicalStart ≤ base
    omega
  · change base + c.noPages * 4096 ≤ ending d
    rw [ending]
    omega
  · rw [hbottom]
    omega
  · rw [hbottom]
    omega
  · rw [hlast, ending]
    omega
  · rw [hbottom, ending]
    omega

/-- The stack is in front of the core, in what is left of the descriptor. -/
theorem Table.suits_stack {ds' : List MemoryDescriptor} {image stack : Range}
    (h : Table map taken ds) (hd : d ∈ ds) (hconv : d.type = .conventionalMemory)
    (hcarved : Carved image ds ds') (hstack : stack.Within d)
    (hlast : stack.last = image.baseAddress) : stack.Suits ds' := by
  intro d' hd' hconv'
  obtain ⟨-, d₀, hd₀, hconv₀, hpiece⟩ := hcarved.pieces d' hd' hconv'
  by_cases hcommon : ∃ x, offers d' x = true ∧ stack.has x
  · obtain ⟨x, hoffers, hx⟩ := hcommon
    have hoffers₀ := (hpiece.offers hconv₀ hoffers).1
    obtain rfl := eq_of_cover_le_one h.once hd₀ hd hoffers₀ (hstack.offers hconv hx)
    refine .inl ⟨hstack.aligned, ?_, ?_⟩
    · cases hpiece with
      | whole heq => exact heq ▸ hstack.start
      | front _ _ hstart => exact hstart.trans_le hstack.start
      | back _ _ hstart =>
        -- the stack ends where the core begins, so it has nothing of what is behind the core
        have hlow := (offers_iff.mp hoffers).2.1
        have hhigh := hx.2
        rw [Range.last] at hstart
        omega
    · cases hpiece with
      | whole heq => exact heq ▸ hstack.last
      | front _ _ _ hend => exact (hlast.trans hend.symm).le
      | back _ _ _ hend => exact hend ▸ hstack.last
  · exact .inr fun x hx => hcommon ⟨x, hx⟩

theorem fixups_within {a : Nat} (htops : Tops c.noFixupPages ds d) (hpaged : Paged d)
    (ha : a + c.noFixupPages * 4096 = ending d) : (fixupRange a c).Within d := by
  have hpages := htops.pages
  have hstart := hpaged.start
  refine ⟨?_, ?_, ha.le⟩
  · change a % 4096 = 0
    rw [ending] at ha
    omega
  · change d.physicalStart ≤ a
    rw [ending] at ha
    omega

/-! ## The hand-off -/

/-- The ranges that the loader has chosen. -/
def Handoff.chosen (h : Handoff) : List Range := h.image :: h.stack :: h.fixups.toList

/-- The byte is one of the loader or of the EFILDR file. -/
def EfildrFile.has (f : EfildrFile) (x : Nat) : Prop :=
  (∃ image ∈ f.loader, image.1.toNat ≤ x ∧ x < image.1.toNat + image.2.toNat) ∨
    (efildrHeaderAddress ≤ x ∧ x < efildrHeaderAddress + f.fileLength)

/-- The byte is one of the decompressed core, from which the loader still reads. -/
def EfildrFile.source (f : EfildrFile) (x : Nat) : Prop :=
  efiDecompressedBufferAddress ≤ x ∧ x < efiDecompressedBufferAddress + f.destinationSize

/-- The byte is one of the loader, of the file or of what the loader has chosen. -/
def Handoff.inUse (h : Handoff) (f : EfildrFile) (x : Nat) : Prop :=
  f.has x ∨ ∃ r ∈ h.chosen, r.has x

/-- The byte is in the page of the interrupt table or in those of the GDT and the IDT. -/
def inTables (x : Nat) : Prop := interruptTable.has x ∨ descriptorTables.has x

/-- The hand-off, when the bytes of `inUse` are not to be given away. -/
structure HandsOff (map : List BiosMemoryMapEntry) (f : EfildrFile) (h : Handoff)
    (inUse : Nat → Prop) : Prop where
  room : h.descriptors.length ≤ efiMaxMemoryDescriptors
  /-- What is offered is memory, and not in use. -/
  offered : ∀ d ∈ h.descriptors, ∀ x, offers d x = true →
    (∃ e ∈ map, e.isMemory ∧ e.has x) ∧ ¬inUse x
  disjoint : h.descriptors.Pairwise fun d d' => ∀ x, ¬(offers d x = true ∧ offers d' x = true)
  /-- No whole page of memory is lost of which no byte is in use. -/
  kept : ∀ e ∈ map, e.isMemory → ∀ x, e.Whole (x / 4096) →
    (∃ d ∈ h.descriptors, offers d x = true) ∨ ∃ y, y / 4096 = x / 4096 ∧ inUse y
  apart : h.chosen.Pairwise fun r r' => ∀ x, ¬(r.has x ∧ r'.has x)
  inside : ∀ r ∈ h.chosen, ∀ x, r.has x → ∃ d ∈ descriptorsInUse map f, offers d x = true
  source : ∀ r ∈ h.chosen, ∀ x, r.has x → ¬f.source x

/-- Where the core is, when memory up to `b` is taken for it. -/
def CoreImage.baseBelow (c : CoreImage) (b : Nat) : Nat := b - (c.noPages + 1) * 4096

/-- The core and its stack there. -/
def CoreImage.rangesBelow (c : CoreImage) (b : Nat) : List Range :=
  [imageRange (c.baseBelow b) c, stackRange (c.baseBelow b)]

/-- The stretch from which the core and its stack are taken: the highest one with room for them
    and one page more. -/
def CoreStretch (map : List BiosMemoryMapEntry) (f : EfildrFile) (c : CoreImage) (a b : Nat) :
    Prop :=
  TopStretch (c.noPages + stackPages + 1) map f.used a b

/-- The one from which the fixup data is taken, when the core is not where it is linked to. -/
structure FixupStretch (map : List BiosMemoryMapEntry) (f : EfildrFile) (c : CoreImage)
    (b a' b' : Nat) : Prop where
  moved : c.baseBelow b ≠ c.imageBase.toNat
  top : TopStretch c.noFixupPages map (f.used ++ c.rangesBelow b) a' b'

/-- What the loader relies on: what the map, the file and the core are to be like. -/
structure Orderly (map : List BiosMemoryMapEntry) (f : EfildrFile) (c : CoreImage) : Prop where
  regular : Regular map
  /-- `FileLength` does not wrap when it is rounded to pages. -/
  fileLength : f.fileLength + 4096 ≤ 2 ^ 32
  /-- When `SizeOfImage` of the loader does, no memory behind its `ImageBase` is free. -/
  loader : ∀ image ∈ f.loader, 2 ^ 32 < image.2.toNat + 4096 → ∀ e ∈ map, ∀ x,
    image.1.toNat ≤ x → ¬Free f.used e x
  /-- What is in use is whole pages of one memory entry, or is in none. -/
  enters : EnterAll map [] f.used
  /-- The map and what is taken out of it do not need more entries than the table has. -/
  room : ∀ a b, CoreStretch map f c a b →
    needed map (f.used ++ c.rangesBelow b) ≤ efiMaxMemoryDescriptors
  fixupRoom : ∀ a b, CoreStretch map f c a b → ∀ a' b', FixupStretch map f c b a' b' →
    needed map (f.used ++ c.rangesBelow b ++ [fixupRange (b' - c.noFixupPages * 4096) c]) ≤
      efiMaxMemoryDescriptors
  /-- The source does not reach into the last pages of the stretch of the core. -/
  source : ∀ a b, CoreStretch map f c a b → ∀ x, f.source x →
    x < b - (c.noPages + stackPages + 1) * 4096 ∨ b - 4096 ≤ x
  /-- Nor into those of the stretch of the fixup data. -/
  fixupSource : ∀ a b, CoreStretch map f c a b → ∀ a' b', FixupStretch map f c b a' b' → ∀ x,
    f.source x → x < b' - c.noFixupPages * 4096 ∨ b' ≤ x

/-- What `EfiLoader` has done when it succeeds. -/
theorem efiLoader_some (hloaded : efiLoader map f c = some h) :
    ∃ base, imageBasePage c.noPages (descriptorsInUse map f) = some base ∧
      h.image = imageRange base c ∧ h.stack = stackRange base ∧
      h.descriptors = addAll h.chosen (descriptorsInUse map f) ∧
      ∀ r, h.fixups = some r → base % 2 ^ 32 ≠ c.imageBase.toNat ∧ ∃ a, a ≠ 0 ∧
        findSpace c.noFixupPages (addAll [h.image, h.stack] (descriptorsInUse map f)) = a ∧
        r = fixupRange a c := by
  rw [efiLoader] at hloaded
  obtain ⟨base, hbase, hloaded⟩ := Option.bind_eq_some_iff.mp hloaded
  refine ⟨base, hbase, ?_⟩
  by_cases hplace : base % 2 ^ 32 = c.imageBase.toNat
  · rw [if_pos hplace] at hloaded
    obtain rfl := Option.some.inj hloaded
    exact ⟨rfl, rfl, rfl, fun r hr => nomatch hr⟩
  · rw [if_neg hplace] at hloaded
    dsimp only at hloaded
    by_cases hspace : findSpace c.noFixupPages
        (addAll [imageRange base c, stackRange base] (descriptorsInUse map f)) = 0
    · rw [if_pos hspace] at hloaded
      cases hloaded
    · rw [if_neg hspace] at hloaded
      obtain rfl := Option.some.inj hloaded
      refine ⟨rfl, rfl, rfl, fun r hr => ⟨hplace, _, hspace, rfl, ?_⟩⟩
      exact (Option.some.inj hr).symm

theorem imageRange_type (base : Nat) (c : CoreImage) :
    (imageRange base c).type ≠ .conventionalMemory := by
  change MemoryType.runtimeServicesCode ≠ .conventionalMemory
  decide

theorem stackRange_type (base : Nat) : (stackRange base).type ≠ .conventionalMemory := by
  change MemoryType.bootServicesData ≠ .conventionalMemory
  decide

theorem roundedPages_le (n : Nat) : (n + 4096 - 1) % 2 ^ 32 / 4096 ≤ 2 ^ 20 := by omega

theorem EfildrFile.used_ranges (f : EfildrFile) :
    ∀ r ∈ f.used, r.Small ∧ r.type ≠ .conventionalMemory := by
  intro r hr
  rw [EfildrFile.used, List.mem_append, List.mem_cons, List.mem_cons, List.mem_singleton] at hr
  obtain (rfl | rfl | hr) | rfl := hr
  · exact ⟨⟨Nat.two_pow_pos 32, Nat.one_le_two_pow⟩, nofun⟩
  · exact ⟨⟨Nat.le_of_ble_eq_true rfl, Nat.le_of_ble_eq_true rfl⟩, nofun⟩
  · rw [EfildrFile.loaderRange, List.mem_map] at hr
    obtain ⟨⟨imageBase, imageSize⟩, -, rfl⟩ := hr
    exact ⟨⟨imageBase.isLt, roundedPages_le imageSize.toNat⟩, nofun⟩
  · have hbase : efildrHeaderAddress < 2 ^ 32 := Nat.le_of_ble_eq_true rfl
    exact ⟨⟨hbase, roundedPages_le f.fileLength⟩, nofun⟩

/-- A byte in use is in a range of the table, unless the size of the loader wraps. -/
theorem EfildrFile.used_of_has (hfile : f.fileLength + 4096 ≤ 2 ^ 32) {x : Nat}
    (hx : inTables x ∨ f.has x) : (∃ r ∈ f.used, r.has x) ∨
      ∃ image ∈ f.loader, 2 ^ 32 < image.2.toNat + 4096 ∧ image.1.toNat ≤ x := by
  obtain (hx | hx) | ⟨image, himage, hlow, hhigh⟩ | ⟨hlow, hhigh⟩ := hx
  · exact .inl ⟨_, List.mem_append_left _ List.mem_cons_self, hx⟩
  · exact .inl ⟨_, List.mem_append_left _ (List.mem_cons_of_mem _ List.mem_cons_self), hx⟩
  · by_cases hwraps : 2 ^ 32 < image.2.toNat + 4096
    · exact .inr ⟨image, himage, hwraps, hlow⟩
    · refine .inl ⟨_, List.mem_append_left _ (List.mem_cons_of_mem _ (List.mem_cons_of_mem _
        (List.mem_map_of_mem (Option.mem_toList.mpr himage)))), hlow, ?_⟩
      rw [Range.last]
      dsimp only
      omega
  · refine .inl ⟨_, List.mem_append_right _ (List.mem_singleton_self _), hlow, ?_⟩
    rw [Range.last]
    change x < efildrHeaderAddress + (f.fileLength + 4096 - 1) % 2 ^ 32 / 4096 * 4096
    omega

/-- What the loader's image is taken out of. -/
theorem enterAll_loader (h : EnterAll map [] f.used) (hr : r ∈ f.loaderRange) :
    r.Enters map [interruptTable, descriptorTables] := by
  rw [EfildrFile.loaderRange, List.mem_map] at hr
  obtain ⟨image, himage, rfl⟩ := hr
  have hloader := Option.mem_toList.mp himage
  rw [EfildrFile.used, EfildrFile.loaderRange, hloader] at h
  exact h.2.2.1

/-- Each page of memory with a byte of a range of the table has a byte in use. -/
theorem EfildrFile.has_of_used (henters : EnterAll map [] f.used) {e : BiosMemoryMapEntry}
    (he : e ∈ map) {x : Nat} (hreports : e.reports x = true) (hr : r ∈ f.used) (hx : r.has x) :
    ∃ y, y / 4096 = x / 4096 ∧ (inTables y ∨ f.has y) := by
  rw [EfildrFile.used, List.mem_append, List.mem_cons, List.mem_cons, List.mem_singleton] at hr
  obtain (rfl | rfl | hr) | rfl := hr
  · exact ⟨x, rfl, .inl (.inl hx)⟩
  · exact ⟨x, rfl, .inl (.inr hx)⟩
  · have henter := enterAll_loader henters hr e he
    rw [EfildrFile.loaderRange, List.mem_map] at hr
    obtain ⟨⟨imageBase, imageSize⟩, himage, rfl⟩ := hr
    obtain hnone | ⟨haligned, -⟩ := henter
    · -- not taken out of memory here, so one of the tables has the byte
      refine ⟨x, rfl, .inl ?_⟩
      by_contra htables
      refine hnone x hx ⟨hreports, fun r hr hrx => htables ?_⟩
      obtain rfl | hr := List.mem_cons.mp hr
      · exact .inl hrx
      · obtain rfl := List.mem_singleton.mp hr
        exact .inr hrx
    · obtain ⟨hlow, hhigh⟩ := hx
      have hsize := imageSize.isLt
      rw [Range.last] at hhigh
      dsimp only at haligned hlow hhigh
      refine ⟨x / 4096 * 4096, by omega, .inr (.inl ⟨_, Option.mem_toList.mp himage, ?_, ?_⟩)⟩
      · dsimp only
        omega
      · dsimp only
        omega
  · obtain ⟨hlow, hhigh⟩ := hx
    have haligned : efildrHeaderAddress % 4096 = 0 := rfl
    have hlength := f.fileLength_lt
    rw [Range.last] at hhigh
    change efildrHeaderAddress ≤ x at hlow
    change x < efildrHeaderAddress + (f.fileLength + 4096 - 1) % 2 ^ 32 / 4096 * 4096 at hhigh
    refine ⟨x / 4096 * 4096, by omega, .inr (.inr ⟨?_, ?_⟩)⟩
    · omega
    · omega

/-- The core and its stack are taken out of the table. -/
theorem Table.core {base : Nat} (h : Table map taken ds) (hdisjoint : Disjoint map)
    (hplaced : imageBasePage c.noPages ds = some base) :
    Table map (taken ++ [imageRange base c, stackRange base])
        (addAll [imageRange base c, stackRange base] ds) ∧
      ∃ d, Tops (c.noPages + stackPages + 1) ds d ∧ (imageRange base c).Within d ∧
        (stackRange base).Within d ∧ (stackRange base).last = base ∧
        base + (c.noPages + 1) * 4096 = ending d ∧
        ending d - (c.noPages + stackPages + 1) * 4096 = (stackRange base).baseAddress := by
  obtain ⟨d, htops, hbase⟩ := imageBasePage_tops c.noPages_le h.paged hplaced
  have hpaged := h.paged d htops.mem htops.conventional
  obtain ⟨himage, hstack, hlast, hbottom⟩ := core_within htops hpaged hbase
  have hsmall : (imageRange base c).Small := by
    have hbelow := hpaged.below
    refine ⟨?_, c.noPages_le⟩
    change base < 2 ^ 32
    omega
  have hstackSmall : (stackRange base).Small := by
    have hbelow := hpaged.below
    refine ⟨?_, Nat.le_of_ble_eq_true rfl⟩
    rw [Range.last] at hlast
    omega
  -- the stack is carved out of what is left of the descriptor in front of the core
  have hsuits := h.suits htops.mem htops.conventional himage
  have hcarved := Range.add_carved hsmall (imageRange_type base c) h.paged hsuits h.once
  have hcore := (h.add hdisjoint hsmall (imageRange_type base c) hsuits).add hdisjoint hstackSmall
    (stackRange_type base) (h.suits_stack htops.mem htops.conventional hcarved hstack hlast)
  rw [List.append_assoc] at hcore
  exact ⟨hcore, d, htops, himage, hstack, hlast, hbase, hbottom⟩

/-- The fixup data is taken out of the table. -/
theorem Table.fixups {a : Nat} (h : Table map taken ds) (hdisjoint : Disjoint map) (ha : a ≠ 0)
    (hfound : findSpace c.noFixupPages ds = a) :
    Table map (taken ++ [fixupRange a c]) (addAll [fixupRange a c] ds) ∧
      ∃ d, Tops c.noFixupPages ds d ∧ (fixupRange a c).Within d ∧
        (fixupRange a c).last = ending d := by
  obtain ⟨d, htops, hend⟩ := findSpace_tops h.paged (hfound ▸ ha)
  rw [hfound] at hend
  have hpaged := h.paged d htops.mem htops.conventional
  have hwithin := fixups_within htops hpaged hend
  have hsmall : (fixupRange a c).Small := by
    have hlt : a < 2 ^ 32 := by
      rw [← hfound, findSpace_eq _ h.paged]
      split_ifs
      · exact Nat.two_pow_pos 32
      · exact Nat.mod_lt _ (Nat.two_pow_pos 32)
    exact ⟨hlt, c.noFixupPages_le⟩
  exact ⟨h.add hdisjoint hsmall nofun (h.suits htops.mem htops.conventional hwithin), d, htops,
    hwithin, hend⟩

/-- What is offered when more ranges are in use was offered before. -/
theorem Table.offered_before {ds' : List MemoryDescriptor} (h : Table map taken ds)
    (h' : Table map (taken ++ rs) ds') (hd : d ∈ ds') {x : Nat} (hx : offers d x = true) :
    ∃ d ∈ ds, offers d x = true := by
  obtain ⟨e, he, hreports, hfree⟩ := h'.free hd hx
  exact h.offers_of_free he ⟨hreports, fun r hr => hfree r (List.mem_append_left rs hr)⟩

/-- What is to be shown of the ranges that are chosen. -/
structure Chosen (f : EfildrFile) (ds : List MemoryDescriptor) (rs : List Range) : Prop where
  apart : rs.Pairwise fun r r' => ∀ x, ¬(r.has x ∧ r'.has x)
  inside : ∀ r ∈ rs, ∀ x, r.has x → ∃ d ∈ ds, offers d x = true
  source : ∀ r ∈ rs, ∀ x, r.has x → ¬f.source x

/-- The core and its stack, in the descriptor that they are taken from. -/
theorem chosen_core {base : Nat} (htops : Tops (c.noPages + stackPages + 1) ds d)
    (himage : (imageRange base c).Within d) (hstack : (stackRange base).Within d)
    (hlast : (stackRange base).last = base) (hbase : base + (c.noPages + 1) * 4096 = ending d)
    (hbottom : ending d - (c.noPages + stackPages + 1) * 4096 = (stackRange base).baseAddress)
    (hclear : ∀ x, f.source x →
      x < ending d - (c.noPages + stackPages + 1) * 4096 ∨ ending d - 4096 ≤ x) :
    Chosen f ds [imageRange base c, stackRange base] := by
  have hstart : (imageRange base c).baseAddress = base := rfl
  have hend : (imageRange base c).last = base + c.noPages * 4096 := rfl
  have hle : (stackRange base).baseAddress ≤ (stackRange base).last := Nat.le_add_right _ _
  refine ⟨List.pairwise_pair.mpr ?_, fun r hr x hx => ?_, fun r hr x hx hsource => ?_⟩
  · rintro x ⟨hx, hx'⟩
    have hlow := hx.1
    have hhigh := hx'.2
    omega
  · obtain rfl | hr := List.mem_cons.mp hr
    · exact ⟨d, htops.mem, himage.offers htops.conventional hx⟩
    · obtain rfl := List.mem_singleton.mp hr
      exact ⟨d, htops.mem, hstack.offers htops.conventional hx⟩
  · obtain ⟨hlow, hhigh⟩ := hx
    have hout := hclear x hsource
    obtain rfl | hr := List.mem_cons.mp hr
    · omega
    · obtain rfl := List.mem_singleton.mp hr
      omega

/-- The fixup data lies in what is still offered. -/
theorem Chosen.fixups {a : Nat} {ds' : List MemoryDescriptor} (hchosen : Chosen f ds rs)
    (h : Table map taken ds) (h' : Table map (taken ++ rs) ds')
    (htops : Tops c.noFixupPages ds' d) (hin : (fixupRange a c).Within d)
    (hend : (fixupRange a c).last = ending d)
    (hclear : ∀ x, f.source x → x < ending d - c.noFixupPages * 4096 ∨ ending d ≤ x) :
    Chosen f ds (rs ++ [fixupRange a c]) := by
  have hoffers := fun x (hx : (fixupRange a c).has x) => hin.offers htops.conventional hx
  refine ⟨List.pairwise_append.mpr ⟨hchosen.apart, List.pairwise_singleton _ _, ?_⟩, ?_, ?_⟩
  · intro r hr r' hr' x
    obtain rfl := List.mem_singleton.mp hr'
    rintro ⟨hx, hx'⟩
    obtain ⟨-, -, -, hfree⟩ := h'.free htops.mem (hoffers x hx')
    exact hfree r (List.mem_append_right taken hr) hx
  · intro r hr x hx
    obtain hr | hr := List.mem_append.mp hr
    · exact hchosen.inside r hr x hx
    · obtain rfl := List.mem_singleton.mp hr
      exact h.offered_before h' htops.mem (hoffers x hx)
  · intro r hr x hx hsource
    obtain hr | hr := List.mem_append.mp hr
    · exact hchosen.source r hr x hx hsource
    · obtain rfl := List.mem_singleton.mp hr
      obtain ⟨hlow, hhigh⟩ := hx
      have hlast : (fixupRange a c).last =
          (fixupRange a c).baseAddress + c.noFixupPages * 4096 := rfl
      have hout := hclear x hsource
      omega

/-- The table when the core is to be loaded. -/
theorem table_inUse (hdisjoint : Disjoint map) (horderly : Orderly map f c) :
    Table map f.used (descriptorsInUse map f) := by
  have hmap := addAll_described [] map hdisjoint horderly.regular
  rw [List.nil_append] at hmap
  have hused := (described_table hdisjoint horderly.regular).run hdisjoint f.used_ranges
    horderly.enters
  rw [List.nil_append, ← hmap] at hused
  have hinUse : addAll f.used (addAll (map.map BiosMemoryMapEntry.range) []) =
      descriptorsInUse map f := List.foldl_append.symm
  exact hinUse ▸ hused

/-- The table that is handed over, and the ranges that are chosen. -/
theorem efiLoader_chosen (hdisjoint : Disjoint map) (horderly : Orderly map f c)
    (hloaded : efiLoader map f c = some h) :
    Table map (f.used ++ h.chosen) h.descriptors ∧
      Chosen f (descriptorsInUse map f) h.chosen ∧
      needed map (f.used ++ h.chosen) ≤ efiMaxMemoryDescriptors := by
  obtain ⟨base, hplaced, himage, hstack, hdescriptors, hfixups⟩ := efiLoader_some hloaded
  have hused := table_inUse hdisjoint horderly
  -- core and stack go to the top of the highest stretch with room for them
  obtain ⟨hcore, d, htops, hin, hinStack, hlast, hbase, hbottom⟩ := hused.core hdisjoint hplaced
  have hstretch : CoreStretch map f c d.physicalStart (ending d) := hused.top hdisjoint htops
  have hbelow : c.baseBelow (ending d) = base := by
    rw [CoreImage.baseBelow, ← hbase, Nat.add_sub_cancel]
  have hranges : c.rangesBelow (ending d) = [imageRange base c, stackRange base] := by
    rw [CoreImage.rangesBelow, hbelow]
  have hchosen := chosen_core htops hin hinStack hlast hbase hbottom
    (horderly.source _ _ hstretch)
  rw [Handoff.chosen, himage, hstack] at hdescriptors ⊢
  cases hsome : h.fixups with
  | none =>
    rw [hsome] at hdescriptors
    rw [hdescriptors]
    exact ⟨hcore, hchosen, hranges ▸ horderly.room _ _ hstretch⟩
  | some r =>
    obtain ⟨hmoved, a, ha, hfound, rfl⟩ := hfixups r hsome
    rw [hsome] at hdescriptors
    rw [himage, hstack] at hfound
    -- and the fixups to the top of the highest one that is left
    obtain ⟨htable, d', htops', hin', hend'⟩ := hcore.fixups hdisjoint ha hfound
    have hplace : base % 2 ^ 32 = base := Nat.mod_eq_of_lt (by
      have hpaged := (hused.paged d htops.mem htops.conventional).below
      omega)
    have hfixup : FixupStretch map f c (ending d) d'.physicalStart (ending d') := by
      refine ⟨?_, ?_⟩
      · rw [hbelow, ← hplace]
        exact hmoved
      · rw [hranges]
        exact hcore.top hdisjoint htops'
    have hroom := horderly.fixupRoom _ _ hstretch _ _ hfixup
    have haddress : ending d' - c.noFixupPages * 4096 = a := by
      rw [← hend']
      exact Nat.add_sub_cancel a _
    rw [hranges, haddress, List.append_assoc] at hroom
    rw [List.append_assoc] at htable
    rw [hdescriptors]
    exact ⟨htable, hchosen.fixups hused hcore htops' hin' hend'
      (horderly.fixupSource _ _ hstretch _ _ hfixup), hroom⟩

/-- What `EfiLoader` hands over, when what it relies on is given. -/
theorem efiLoader_handsOff (map : List BiosMemoryMapEntry) (f : EfildrFile) (c : CoreImage)
    (h : Handoff) (hdisjoint : Disjoint map) (horderly : Orderly map f c)
    (hloaded : efiLoader map f c = some h) :
    HandsOff map f h fun x => inTables x ∨ h.inUse f x := by
  obtain ⟨htable, hchosen, hroom⟩ := efiLoader_chosen hdisjoint horderly hloaded
  refine ⟨htable.length.trans_le hroom, fun d hd x hx => ?_,
    pairwise_of_cover_le_one htable.once, fun e he hmem x hwhole => ?_, hchosen.apart,
    hchosen.inside, hchosen.source⟩
  · obtain ⟨e, he, hreports, hfree⟩ := htable.free hd hx
    obtain ⟨hmem, hwhole⟩ := BiosMemoryMapEntry.reports_iff.mp hreports
    have hfreeUsed : Free f.used e x :=
      ⟨hreports, fun r hr => hfree r (List.mem_append_left _ hr)⟩
    have hused : ¬(inTables x ∨ f.has x) := fun huse => by
      obtain ⟨r, hr, hrx⟩ | ⟨image, himage, hwraps, hlow⟩ :=
        EfildrFile.used_of_has horderly.fileLength huse
      · exact hfreeUsed.2 r hr hrx
      · exact horderly.loader image himage hwraps e he x hlow hfreeUsed
    refine ⟨⟨e, he, hmem, hwhole.has⟩, ?_⟩
    rintro (htables | hhas | ⟨r, hr, hrx⟩)
    · exact hused (.inl htables)
    · exact hused (.inr hhas)
    · exact hfree r (List.mem_append_right _ hr) hrx
  · have hreports := BiosMemoryMapEntry.reports_iff.mpr ⟨hmem, hwhole⟩
    by_cases htaken : ∃ r ∈ f.used ++ h.chosen, r.has x
    · obtain ⟨r, hr, hrx⟩ := htaken
      refine .inr ?_
      obtain hr | hr := List.mem_append.mp hr
      · obtain ⟨y, hpage, htables | hhas⟩ :=
          EfildrFile.has_of_used horderly.enters he hreports hr hrx
        · exact ⟨y, hpage, .inl htables⟩
        · exact ⟨y, hpage, .inr (.inl hhas)⟩
      · exact ⟨x, rfl, .inr (.inr ⟨r, hr, hrx⟩)⟩
    · exact .inl (htable.offers_of_free he ⟨hreports, fun r hr hrx => htaken ⟨r, hr, hrx⟩⟩)

/-! ## A loader that runs -/

/-- Memory from `base` on. -/
def memoryAt (base length : Nat) (below : base + length ≤ 2 ^ 32) (hbase : base < 2 ^ 32)
    (hlength : length < 2 ^ 32) : BiosMemoryMapEntry :=
  ⟨base, length, 1, below, hbase, hlength⟩

/-- 512 KB from address zero on. -/
def lowMemory : BiosMemoryMapEntry :=
  memoryAt 0 0x80000 (Nat.le_of_ble_eq_true rfl) (Nat.le_of_ble_eq_true rfl)
    (Nat.le_of_ble_eq_true rfl)

/-- 64 MB from 1 MB on. -/
def highMemory : BiosMemoryMapEntry :=
  memoryAt 0x100000 0x4000000 (Nat.le_of_ble_eq_true rfl) (Nat.le_of_ble_eq_true rfl)
    (Nat.le_of_ble_eq_true rfl)

def plainFile : EfildrFile := ⟨0x50000, none, 0x100000, Nat.le_of_ble_eq_true rfl⟩

def plainCore : CoreImage := ⟨0, 0x100000, 0x1000, 0, 0x800⟩

/-- The file, with a loader whose image is in the ROM and does not begin with a page. -/
def romFile : EfildrFile :=
  ⟨0x50000, some (0xFFF00800, 0x8000), 0x100000, Nat.le_of_ble_eq_true rfl⟩

theorem plain_isSome : (efiLoader [lowMemory, highMemory] romFile plainCore).isSome = true := by
  decide

/-- What the loader does with low and high memory. -/
def plainHandoff : Handoff :=
  (efiLoader [lowMemory, highMemory] romFile plainCore).get plain_isSome

theorem disjoint_plain : Disjoint [lowMemory, highMemory] :=
  disjoint_of_sorted (by decide)

theorem free_low {x : Nat} : Free taken lowMemory x ↔ x < 0x80000 ∧ ∀ r ∈ taken, ¬r.has x := by
  refine and_congr_left' (BiosMemoryMapEntry.reports_iff.trans ((and_iff_right rfl).trans ?_))
  rw [BiosMemoryMapEntry.Whole, lowMemory, memoryAt]
  dsimp only
  omega

theorem free_high {x : Nat} : Free taken highMemory x ↔
    (0x100000 ≤ x ∧ x < 0x4100000) ∧ ∀ r ∈ taken, ¬r.has x := by
  refine and_congr_left' (BiosMemoryMapEntry.reports_iff.trans ((and_iff_right rfl).trans ?_))
  rw [BiosMemoryMapEntry.Whole, highMemory, memoryAt]
  dsimp only
  omega

/-- A range below 1 MB that is in low memory, and in no range before it. -/
theorem enters_low (haligned : r.baseAddress % 4096 = 0) (hlast : r.last ≤ 0x80000)
    (hapart : ∀ r' ∈ taken, r'.last ≤ r.baseAddress ∨ r.last ≤ r'.baseAddress) :
    r.Enters [lowMemory, highMemory] taken := by
  refine List.forall_mem_cons.mpr ⟨.inr ⟨haligned, fun x hx => free_low.mpr ⟨?_, ?_⟩⟩,
    List.forall_mem_singleton.mpr (.inl fun x hx hfree => ?_)⟩
  · exact hx.2.trans_le hlast
  · intro r' hr' hx'
    have hlow := hx.1
    have hhigh := hx.2
    have hlow' := hx'.1
    have hhigh' := hx'.2
    have hout := hapart r' hr'
    omega
  · have hlow := (free_high.mp hfree).1.1
    have hhigh := hx.2
    omega

/-- A range behind memory. -/
theorem enters_behind (hbase : 0x4100000 ≤ r.baseAddress) :
    r.Enters [lowMemory, highMemory] taken := by
  refine List.forall_mem_cons.mpr ⟨.inl fun x hx hfree => ?_,
    List.forall_mem_singleton.mpr (.inl fun x hx hfree => ?_)⟩
  · have hhigh := (free_low.mp hfree).1
    have hlow := hx.1
    omega
  · have hhigh := (free_high.mp hfree).1.2
    have hlow := hx.1
    omega

/-- A stretch up to the end of high memory is the highest one. -/
theorem top_ends {n a b : Nat} (a₀ : Nat) (h : TopStretch n [lowMemory, highMemory] taken a b)
    (hstart : 0x100000 ≤ a₀) (hpages : n * 4096 ≤ 0x4100000 - a₀) (hlt : a₀ < 0x4100000)
    (hfree : ∀ r ∈ taken, r.last ≤ a₀ ∨ 0x4100000 ≤ r.baseAddress)
    (hbefore : a₀ = 0x100000 ∨ ∃ r ∈ taken, r.noPages ≠ 0 ∧ r.last = a₀) : b = 0x4100000 := by
  have hstretch : Stretch taken highMemory a₀ 0x4100000 := by
    refine ⟨hlt, fun x hlow hhigh => free_high.mpr ⟨⟨hstart.trans hlow, hhigh⟩, ?_⟩,
      fun x hx hx' => ?_, fun hx => absurd (free_high.mp hx).1.2 (Nat.lt_irrefl _)⟩
    · intro r hr hrx
      have hlow' := hrx.1
      have hhigh' := hrx.2
      have hout := hfree r hr
      omega
    · obtain ⟨⟨hlow, -⟩, hnone⟩ := free_high.mp hx'
      obtain hfirst | ⟨r, hr, hpos, hlast⟩ := hbefore
      · omega
      · refine hnone r hr ⟨?_, ?_⟩
        · rw [Range.last] at hlast
          omega
        · omega
  have hhigh : highMemory ∈ [lowMemory, highMemory] := List.mem_cons_of_mem _ List.mem_cons_self
  have htop := h.top a₀ _ ⟨_, hhigh, hstretch⟩ hpages
  obtain ⟨e, he, hab⟩ := h.stretch
  have hfirst := hab.free a (Nat.le_refl a) hab.lt
  obtain rfl | he := List.mem_cons.mp he
  · have hbelow := (free_low.mp hfirst).1
    omega
  · obtain rfl := List.mem_singleton.mp he
    exact (hab.unique hstretch (Nat.le_refl a) hab.lt htop (free_high.mp hfirst).1.2).2

theorem orderly_plain : Orderly [lowMemory, highMemory] romFile plainCore := by
  have hcore : ∀ a b, CoreStretch [lowMemory, highMemory] romFile plainCore a b →
      b = 0x4100000 := fun a b h =>
    top_ends 0x100000 h (Nat.le_refl _) (by decide) (by decide) (by decide) (.inl rfl)
  have hfixups : ∀ a' b', FixupStretch [lowMemory, highMemory] romFile plainCore 0x4100000 a' b' →
      b' = 0x4100000 := fun a' b' h =>
    top_ends 0x40FF000 h.top (by decide) (by decide) (by decide) (by decide)
      (.inr (by decide))
  refine
    { regular := ⟨by decide, List.pairwise_pair.mpr fun _ h => absurd rfl h⟩
      fileLength := Nat.le_of_ble_eq_true rfl
      loader := fun image himage hwraps => ?_
      enters := ⟨enters_low rfl (by decide) (by decide), enters_low rfl (by decide) (by decide),
        enters_behind (by decide), enters_low rfl (by decide) (by decide), trivial⟩
      room := fun a b h => ?_
      fixupRoom := fun a b h a' b' h' => ?_
      source := fun a b h x hx => ?_
      fixupSource := fun a b h a' b' h' x hx => ?_ }
  · obtain rfl := Option.some.inj himage
    exact absurd hwraps (by decide)
  · obtain rfl := hcore a b h
    decide
  · obtain rfl := hcore a b h
    obtain rfl := hfixups a' b' h'
    decide
  · obtain rfl := hcore a b h
    have hbelow := hx.2
    change x < 0x600000 + 0x100000 at hbelow
    exact .inl (hbelow.trans (by decide))
  · obtain rfl := hcore a b h
    obtain rfl := hfixups a' b' h'
    have hbelow := hx.2
    change x < 0x600000 + 0x100000 at hbelow
    exact .inl (hbelow.trans (by decide))

theorem efiLoader_plain :
    efiLoader [lowMemory, highMemory] romFile plainCore = some plainHandoff ∧
      HandsOff [lowMemory, highMemory] romFile plainHandoff
        fun x => inTables x ∨ plainHandoff.inUse romFile x := by
  have hloaded : efiLoader [lowMemory, highMemory] romFile plainCore = some plainHandoff :=
    (Option.some_get plain_isSome).symm
  exact ⟨hloaded, efiLoader_handsOff _ _ plainCore _ disjoint_plain orderly_plain hloaded⟩

/-! ## Where the hand-off fails -/

/-- The hand-off, with nothing more in use than the loader, the file and what is chosen. -/
def AlwaysHandsOff : Prop :=
  ∀ map f c h, Disjoint map → efiLoader map f c = some h → HandsOff map f h (h.inUse f)

/-- The hand-off fails, the pages of the tables allowed for. -/
def Fails (map : List BiosMemoryMapEntry) (f : EfildrFile) (c : CoreImage) : Prop :=
  ∃ h, Disjoint map ∧ efiLoader map f c = some h ∧
    ¬HandsOff map f h fun x => inTables x ∨ h.inUse f x

theorem fails_of_offers {x : Nat} (hdisjoint : Disjoint map)
    (hoffers : (efiLoader map f c).any (fun h => h.descriptors.any (offers · x)) = true)
    (hbad : (∀ e ∈ map, ¬e.has x) ∨ f.has x) : Fails map f c := by
  obtain ⟨h, hloaded, hoffers⟩ := Option.any_eq_true _ _ |>.mp hoffers
  obtain ⟨d, hd, hx⟩ := List.any_eq_true.mp hoffers
  refine ⟨h, hdisjoint, hloaded, fun hoff => ?_⟩
  obtain ⟨⟨e, he, -, hhas⟩, hfree⟩ := hoff.offered d hd x hx
  obtain hnone | hused := hbad
  · exact hnone e he hhas
  · exact hfree (.inr (.inl hused))

/-- A KB of memory, inside of a page. -/
def shortMemory : BiosMemoryMapEntry :=
  memoryAt 0x90800 0x400 (Nat.le_of_ble_eq_true rfl) (Nat.le_of_ble_eq_true rfl)
    (Nat.le_of_ble_eq_true rfl)

/-- The length of a short entry wraps when it is rounded inward. -/
theorem fails_short : Fails [lowMemory, shortMemory, highMemory] plainFile plainCore :=
  fails_of_offers (x := 0x91000) (disjoint_of_sorted (by decide)) (by decide)
    (.inl (by decide))

/-- Low memory in two entries, of which the file has a part each. -/
def splitMemory : List BiosMemoryMapEntry :=
  [memoryAt 0 0x30000 (Nat.le_of_ble_eq_true rfl) (Nat.le_of_ble_eq_true rfl)
      (Nat.le_of_ble_eq_true rfl),
    memoryAt 0x30000 0x50000 (Nat.le_of_ble_eq_true rfl) (Nat.le_of_ble_eq_true rfl)
      (Nat.le_of_ble_eq_true rfl),
    highMemory]

/-- A range that lies in two descriptors is taken out of neither. -/
theorem fails_split : Fails splitMemory plainFile plainCore :=
  fails_of_offers (x := 0x22000) (disjoint_of_sorted (by decide)) (by decide)
    (.inr (.inr ⟨Nat.le_of_ble_eq_true rfl, Nat.le_of_ble_eq_true rfl⟩))

/-- The file, with the image of a loader that does not begin with a page. -/
def oddFile : EfildrFile :=
  ⟨0x50000, some (0x74800, 0x1000), 0x100000, Nat.le_of_ble_eq_true rfl⟩

/-- Behind such a range, the descriptor reaches out of memory. -/
theorem fails_odd : Fails [lowMemory, highMemory] oddFile plainCore :=
  fails_of_offers (x := 0x80000) disjoint_plain (by decide) (.inl (by decide))

/-- A file whose length wraps when it is rounded to pages. -/
def endlessFile : EfildrFile := ⟨0xFFFFFF00, none, 0x100000, Nat.le_of_ble_eq_true rfl⟩

theorem fails_length : Fails [lowMemory, highMemory] endlessFile plainCore :=
  fails_of_offers (x := 0x22000) disjoint_plain (by decide)
    (.inr (.inr ⟨Nat.le_of_ble_eq_true rfl, Nat.le_of_ble_eq_true rfl⟩))

/-- The file, with the image of a loader whose size does. -/
def endlessLoader : EfildrFile :=
  ⟨0x50000, some (0x100000, 0xFFFFFF00), 0x100000, Nat.le_of_ble_eq_true rfl⟩

theorem fails_size : Fails [lowMemory, highMemory] endlessLoader plainCore :=
  fails_of_offers (x := 0x100000) disjoint_plain (by decide)
    (.inr (.inl ⟨_, rfl, Nat.le_of_ble_eq_true rfl, Nat.le_of_ble_eq_true rfl⟩))

theorem reservedPage_below (i : Fin 64) : 0x8000000 + i.val * 0x2000 + 0x1000 ≤ 2 ^ 32 := by
  omega

/-- A reserved page, with a page between it and the next. -/
def reservedPage (i : Fin 64) : BiosMemoryMapEntry :=
  ⟨0x8000000 + i * 0x2000, 0x1000, 2, reservedPage_below i,
    (Nat.lt_add_of_pos_right (Nat.succ_pos _)).trans_le (reservedPage_below i),
    Nat.le_of_ble_eq_true rfl⟩

theorem reservedPage_sorted : ((List.finRange 64).map reservedPage).Pairwise fun e e' =>
    e.baseAddress + e.length ≤ e'.baseAddress ∨ e'.length = 0 := by
  refine List.pairwise_map.mpr ((List.pairwise_lt_finRange 64).imp fun {i j} hlt => .inl ?_)
  change 0x8000000 + i.val * 0x2000 + 0x1000 ≤ 0x8000000 + j.val * 0x2000
  have hlt' : i.val < j.val := hlt
  omega

/-- The table is not as long as the map may be. -/
theorem fails_crowded :
    Fails ([lowMemory, highMemory] ++ (List.finRange 64).map reservedPage) plainFile plainCore := by
  have hlong : (efiLoader ([lowMemory, highMemory] ++ (List.finRange 64).map reservedPage)
      plainFile plainCore).any (fun h => decide (64 < h.descriptors.length)) = true := by
    decide +kernel
  obtain ⟨h, hloaded, hlong⟩ := Option.any_eq_true _ _ |>.mp hlong
  refine ⟨h, disjoint_of_sorted (List.pairwise_append.mpr ⟨by decide, reservedPage_sorted,
    fun e he e' he' => ?_⟩), hloaded, fun hoff => ?_⟩
  · obtain ⟨i, -, rfl⟩ := List.mem_map.mp he'
    have hends : ∀ e ∈ [lowMemory, highMemory], e.baseAddress + e.length ≤ 0x8000000 := by
      decide
    exact .inl ((hends e he).trans (Nat.le_add_right _ _))
  · exact absurd hoff.room (Nat.not_le_of_lt (of_decide_eq_true hlong))

/-- 6 MB from 1 MB on. -/
def middleMemory : BiosMemoryMapEntry :=
  memoryAt 0x100000 0x600000 (Nat.le_of_ble_eq_true rfl) (Nat.le_of_ble_eq_true rfl)
    (Nat.le_of_ble_eq_true rfl)

/-- The decompressed core is not kept out of the table. -/
theorem fails_source : Fails [lowMemory, middleMemory] plainFile plainCore := by
  have hin : (efiLoader [lowMemory, middleMemory] plainFile plainCore).any
      (fun h => h.chosen.any fun r => decide (r.has 0x600000)) = true := by
    decide
  obtain ⟨h, hloaded, hin⟩ := Option.any_eq_true _ _ |>.mp hin
  obtain ⟨r, hr, hx⟩ := List.any_eq_true.mp hin
  refine ⟨h, disjoint_of_sorted (by decide), hloaded, fun hoff => ?_⟩
  exact hoff.source r hr _ (of_decide_eq_true hx)
    ⟨Nat.le_refl _, Nat.lt_add_of_pos_right (Nat.succ_pos _)⟩

/-- Page `p` is lost: not offered, and no byte of it belongs to what is chosen. -/
def Handoff.loses (h : Handoff) (p : Nat) : Bool :=
  h.descriptors.all (fun d => !offers d (p * 4096)) &&
    h.chosen.all fun r => decide (r.last ≤ p * 4096 ∨ p * 4096 + 4096 ≤ r.baseAddress)

theorem Handoff.loses_not_handsOff {p : Nat} {e : BiosMemoryMapEntry} {inUse : Nat → Prop}
    (hloses : h.loses p = true) (he : e ∈ map) (hmem : e.isMemory) (hwhole : e.Whole p)
    (huse : ∀ y, y / 4096 = p → inUse y → ∃ r ∈ h.chosen, r.has y) :
    ¬HandsOff map f h inUse := by
  rw [Handoff.loses, Bool.and_eq_true, List.all_eq_true, List.all_eq_true] at hloses
  intro hoff
  have hpage : p * 4096 / 4096 = p := Nat.mul_div_cancel p (Nat.succ_pos 4095)
  obtain ⟨d, hd, hx⟩ | ⟨y, hy, hused⟩ := hoff.kept e he hmem (p * 4096) (hpage.symm ▸ hwhole)
  · have hno := hloses.1 d hd
    rw [hx] at hno
    cases hno
  · obtain ⟨r, hr, hlow, hhigh⟩ := huse y (hy.trans hpage) hused
    have hout := of_decide_eq_true (hloses.2 r hr)
    omega

theorem plainFile_has {y : Nat} (hy : plainFile.has y) : 0x22000 ≤ y ∧ y < 0x72000 := by
  obtain ⟨_, himage, -⟩ | hfile := hy
  · cases himage
  · exact hfile

theorem not_inTables {y : Nat} (hy : 0x22000 ≤ y) : ¬inTables y := by
  rintro (⟨-, hlast⟩ | ⟨-, hlast⟩)
  · change y < 4096 at hlast
    omega
  · change y < 0x22000 at hlast
    omega

/-- An entry of the map that has no byte, inside of a page of high memory. -/
def emptyEntry : BiosMemoryMapEntry :=
  ⟨0x3000800, 0, 2, Nat.le_of_ble_eq_true rfl, Nat.le_of_ble_eq_true rfl,
    Nat.le_of_ble_eq_true rfl⟩

/-- The entry without a byte takes its page. -/
theorem fails_empty : Fails [lowMemory, highMemory, emptyEntry] plainFile plainCore := by
  have hlost : (efiLoader [lowMemory, highMemory, emptyEntry] plainFile plainCore).any
      (fun h => h.loses 0x3000) = true := by decide
  obtain ⟨h, hloaded, hlost⟩ := Option.any_eq_true _ _ |>.mp hlost
  have he : highMemory ∈ [lowMemory, highMemory, emptyEntry] :=
    List.mem_cons_of_mem _ List.mem_cons_self
  refine ⟨h, disjoint_of_sorted (by decide), hloaded,
    h.loses_not_handsOff hlost he rfl (by decide) fun y hy hused => ?_⟩
  obtain htables | hhas | hchosen := hused
  · exact absurd htables (not_inTables (by omega))
  · have hhigh := (plainFile_has hhas).2
    omega
  · exact hchosen

/-- The page of the interrupt table is taken by design; the other hand-offs fail by slips. -/
theorem not_alwaysHandsOff : ¬AlwaysHandsOff ∧
    Fails [lowMemory, shortMemory, highMemory] plainFile plainCore ∧
    Fails [lowMemory, highMemory, emptyEntry] plainFile plainCore ∧
    Fails splitMemory plainFile plainCore ∧
    Fails [lowMemory, highMemory] oddFile plainCore ∧
    Fails [lowMemory, highMemory] endlessFile plainCore ∧
    Fails [lowMemory, highMemory] endlessLoader plainCore ∧
    Fails ([lowMemory, highMemory] ++ (List.finRange 64).map reservedPage) plainFile plainCore ∧
    Fails [lowMemory, middleMemory] plainFile plainCore := by
  refine ⟨fun halways => ?_, fails_short, fails_empty, fails_split, fails_odd, fails_length,
    fails_size, fails_crowded, fails_source⟩
  have hlost : (efiLoader [lowMemory, highMemory] plainFile plainCore).any
      (fun h => h.loses 0) = true := by decide
  obtain ⟨h, hloaded, hlost⟩ := Option.any_eq_true _ _ |>.mp hlost
  have he : lowMemory ∈ [lowMemory, highMemory] := List.mem_cons_self
  refine h.loses_not_handsOff hlost he rfl (by decide) (fun y hy hused => ?_)
    (halways _ _ _ h disjoint_plain hloaded)
  obtain hhas | hchosen := hused
  · have hlow := (plainFile_has hhas).1
    omega
  · exact hchosen

end EfiCore.Ldr
