import EfiCore.Ldr.MemoryMap

/-! # Where the core is placed

`Bios32LoadPeImage` and `FindSpace` take the end of the highest descriptor of conventional memory
that is large enough: `Tops`.  What a descriptor is can be told from the memory map alone: it is a
`Stretch` of memory that is in no range in use.
-/

namespace EfiCore.Ldr

open EfiCore.Lib
open EfiCore.Mem (MemoryType MemoryDescriptor sizeToPages)

variable {ds : List MemoryDescriptor} {d : MemoryDescriptor}

/-- The highest descriptor of conventional memory with `n` pages. -/
structure Tops (n : Nat) (ds : List MemoryDescriptor) (d : MemoryDescriptor) : Prop where
  mem : d ∈ ds
  conventional : d.type = .conventionalMemory
  pages : n ≤ d.numberOfPages
  top : ∀ d' ∈ ds, d'.type = .conventionalMemory → n ≤ d'.numberOfPages →
    d'.physicalStart ≤ d.physicalStart

/-! ## The search -/

/-- What the search has found in `ds`, from `best` on. -/
structure Highest (fits : MemoryDescriptor → Bool) (ds : List MemoryDescriptor)
    (best result : Nat × Nat) : Prop where
  found : result = best ∨ ∃ d ∈ ds, d.type = .conventionalMemory ∧ fits d = true ∧
    result = (d.physicalStart, d.numberOfPages)
  above : best.1 ≤ result.1
  top : ∀ d ∈ ds, d.type = .conventionalMemory → fits d = true → d.physicalStart ≤ result.1

theorem highest_foldl (fits : MemoryDescriptor → Bool) (ds : List MemoryDescriptor)
    (best : Nat × Nat) : Highest fits ds best (ds.foldl (fun best d =>
      if d.type = .conventionalMemory ∧ fits d ∧ best.1 < d.physicalStart then
        (d.physicalStart, d.numberOfPages)
      else best) best) := by
  induction ds generalizing best with
  | nil => exact ⟨.inl rfl, Nat.le_refl _, fun d hd => absurd hd List.not_mem_nil⟩
  | cons d ds ih =>
    rw [List.foldl_cons]
    by_cases hbetter : d.type = .conventionalMemory ∧ fits d = true ∧ best.1 < d.physicalStart
    · rw [if_pos hbetter]
      obtain ⟨hfound, habove, htop⟩ := ih (d.physicalStart, d.numberOfPages)
      refine ⟨.inr ?_, hbetter.2.2.le.trans habove, ?_⟩
      · obtain hsame | ⟨d', hd', hconv, hfits, hresult⟩ := hfound
        · exact ⟨d, List.mem_cons_self, hbetter.1, hbetter.2.1, hsame⟩
        · exact ⟨d', List.mem_cons_of_mem d hd', hconv, hfits, hresult⟩
      · intro d' hd' hconv hfits
        obtain rfl | hd' := List.mem_cons.mp hd'
        · exact habove
        · exact htop d' hd' hconv hfits
    · rw [if_neg hbetter]
      obtain ⟨hfound, habove, htop⟩ := ih best
      refine ⟨?_, habove, ?_⟩
      · obtain hsame | ⟨d', hd', hconv, hfits, hresult⟩ := hfound
        · exact .inl hsame
        · exact .inr ⟨d', List.mem_cons_of_mem d hd', hconv, hfits, hresult⟩
      · intro d' hd' hconv hfits
        obtain rfl | hd' := List.mem_cons.mp hd'
        · exact (Nat.le_of_not_lt fun hlt => hbetter ⟨hconv, hfits, hlt⟩).trans habove
        · exact htop d' hd' hconv hfits

/-- The search for `n` pages, when it finds something. -/
theorem highest_tops (n : Nat) (hfound : (highest (fun d => decide (n ≤ d.numberOfPages)) ds).1 ≠ 0) :
    ∃ d, Tops n ds d ∧
      highest (fun d => decide (n ≤ d.numberOfPages)) ds = (d.physicalStart, d.numberOfPages) := by
  obtain ⟨hsome, -, htop⟩ := highest_foldl (fun d => decide (n ≤ d.numberOfPages)) ds (0, 0)
  rw [← highest] at hsome htop
  obtain hnone | ⟨d, hd, hconv, hfits, hresult⟩ := hsome
  · rw [hnone] at hfound
    exact absurd rfl hfound
  · rw [hresult] at htop
    exact ⟨d, ⟨hd, hconv, of_decide_eq_true hfits, fun d' hd' hconv' hfits' =>
      htop d' hd' hconv' (decide_eq_true hfits')⟩, hresult⟩

/-- The core ends one page below the end of the highest descriptor with room for it, the stack and
    that page. -/
theorem imageBasePage_tops {n base : Nat} (hn : n ≤ 2 ^ 20) (hall : AllPaged ds)
    (hplaced : imageBasePage n ds = some base) :
    ∃ d, Tops (n + stackPages + 1) ds d ∧ base + (n + 1) * 4096 = ending d := by
  have hstack : stackPages = 32 := rfl
  have hsum : (n + stackPages + 1) % 2 ^ 32 = n + stackPages + 1 := by omega
  rw [imageBasePage, hsum] at hplaced
  by_cases hnone : (highest (fun d => decide (n + stackPages + 1 ≤ d.numberOfPages)) ds).1 = 0
  · dsimp only at hplaced
    rw [if_pos hnone] at hplaced
    cases hplaced
  · obtain ⟨d, htops, hresult⟩ := highest_tops _ hnone
    dsimp only at hplaced
    rw [if_neg hnone, hresult] at hplaced
    have hpaged := hall d htops.mem htops.conventional
    have hbelow := hpaged.below
    have hpages := htops.pages
    rw [ending] at hbelow
    refine ⟨d, htops, ?_⟩
    obtain rfl := Option.some.inj hplaced
    rw [ending]
    dsimp only
    omega

/-- Below 4 GB, `FindSpace` looks for the same as the loop of `Bios32LoadPeImage`. -/
theorem findSpace_eq (n : Nat) (hall : AllPaged ds) :
    findSpace n ds =
      if (highest (fun d => decide (n ≤ d.numberOfPages)) ds).1 = 0 then 0
      else ((highest (fun d => decide (n ≤ d.numberOfPages)) ds).1 +
        ((highest (fun d => decide (n ≤ d.numberOfPages)) ds).2 - n) * 4096) % 2 ^ 32 := by
  have hfold : ds.foldl (fun best d =>
      if d.type = .conventionalMemory ∧ n ≤ d.numberOfPages ∧ best.1 < d.physicalStart then
        (belowFourGb n d).getD best
      else best) (0, 0) = highest (fun d => decide (n ≤ d.numberOfPages)) ds := by
    refine List.foldl_ext _ _ _ fun best d hd => ?_
    simp only [decide_eq_true_eq]
    by_cases hbetter : d.type = .conventionalMemory ∧ n ≤ d.numberOfPages ∧
        best.1 < d.physicalStart
    · have hbelow : d.physicalStart + d.numberOfPages * 4096 ≤ 0x100000000 :=
        (hall d hd hbetter.1).below
      rw [if_pos hbetter, if_pos hbetter, belowFourGb, if_pos hbelow, Option.getD_some]
    · rw [if_neg hbetter, if_neg hbetter]
  rw [findSpace, hfold]

/-- `FindSpace` takes the end of the highest descriptor with enough pages. -/
theorem findSpace_tops {n : Nat} (hall : AllPaged ds) (hfound : findSpace n ds ≠ 0) :
    ∃ d, Tops n ds d ∧ findSpace n ds + n * 4096 = ending d := by
  rw [findSpace_eq n hall] at hfound ⊢
  by_cases hnone : (highest (fun d => decide (n ≤ d.numberOfPages)) ds).1 = 0
  · rw [if_pos hnone] at hfound
    exact absurd rfl hfound
  · obtain ⟨d, htops, hresult⟩ := highest_tops n hnone
    rw [if_neg hnone, hresult] at hfound ⊢
    have hbelow := (hall d htops.mem htops.conventional).below
    have hpages := htops.pages
    refine ⟨d, htops, ?_⟩
    rw [ending] at hbelow ⊢
    dsimp only at hfound ⊢
    omega

/-! ## Stretches of free memory -/

variable {map : List BiosMemoryMapEntry} {e e' : BiosMemoryMapEntry} {taken rs : List Range}
  {r : Range} {a b a' b' x : Nat}

/-- The byte is in a whole page of memory of the entry, and in none of the ranges. -/
def Free (taken : List Range) (e : BiosMemoryMapEntry) (x : Nat) : Prop :=
  e.reports x = true ∧ ∀ r ∈ taken, ¬r.has x

instance (taken : List Range) (e : BiosMemoryMapEntry) (x : Nat) : Decidable (Free taken e x) :=
  inferInstanceAs (Decidable (_ ∧ _))

theorem free_concat : Free (taken ++ [r]) e x ↔ Free taken e x ∧ ¬r.has x := by
  simp only [Free, List.forall_mem_append, List.forall_mem_singleton, and_assoc]

/-- A byte is in one entry at most. -/
theorem Free.unique (hdisjoint : Disjoint map) (he : e ∈ map) (he' : e' ∈ map)
    (h : Free taken e x) (h' : Free taken e' x) : e = e' :=
  eq_of_cover_le_one (reports_le_one hdisjoint) he he' h.1 h'.1

/-- The free bytes of the entry from `a` up to `b`, with no more of them on either side. -/
structure Stretch (taken : List Range) (e : BiosMemoryMapEntry) (a b : Nat) : Prop where
  lt : a < b
  free : ∀ x, a ≤ x → x < b → Free taken e x
  before : ∀ x, x + 1 = a → ¬Free taken e x
  behind : ¬Free taken e b

/-- Free bytes in a row are in the stretch when one of them is. -/
theorem Stretch.encloses (h : Stretch taken e a b)
    (hfree : ∀ x, a' ≤ x → x < b' → Free taken e x) (hlow : a ≤ x) (hhigh : x < b)
    (hlow' : a' ≤ x) (hhigh' : x < b') : a ≤ a' ∧ b' ≤ b := by
  constructor
  · by_contra hlt
    exact h.before (a - 1) (by omega) (hfree (a - 1) (by omega) (by omega))
  · by_contra hlt
    exact h.behind (hfree b (by omega) (by omega))

theorem Stretch.unique (h : Stretch taken e a b) (h' : Stretch taken e a' b') (hlow : a ≤ x)
    (hhigh : x < b) (hlow' : a' ≤ x) (hhigh' : x < b') : a = a' ∧ b = b' := by
  obtain ⟨hstart, hend⟩ := h.encloses h'.free hlow hhigh hlow' hhigh'
  obtain ⟨hstart', hend'⟩ := h'.encloses h.free hlow' hhigh' hlow hhigh
  exact ⟨Nat.le_antisymm hstart hstart', Nat.le_antisymm hend' hend⟩

/-- What is left of a stretch when a range is taken out of it. -/
theorem Stretch.piece {d' : MemoryDescriptor} (h : Stretch taken e d.physicalStart (ending d))
    (hconv : d.type = .conventionalMemory) (hpos : 0 < r.noPages) (hpiece : Piece r d d')
    (hpaged : Paged d') : Stretch (taken ++ [r]) e d'.physicalStart (ending d') := by
  have hlt : d'.physicalStart < ending d' := by
    have hpages := hpaged.pages
    rw [ending]
    omega
  have hlast : r.baseAddress < r.last := by
    rw [Range.last]
    omega
  cases hpiece with
  | whole heq hapart =>
    subst heq
    refine ⟨hlt, fun x hlow hhigh => free_concat.mpr ⟨h.free x hlow hhigh, fun hx => ?_⟩,
      fun x hx hfree => h.before x hx (free_concat.mp hfree).1,
      fun hfree => h.behind (free_concat.mp hfree).1⟩
    exact hapart x ⟨offers_iff.mpr ⟨hconv, hlow, hhigh⟩, hx⟩
  | front hin hconv' hstart hend =>
    have hle := hin.last
    refine ⟨hlt, fun x hlow hhigh => free_concat.mpr ⟨h.free x ?_ ?_, fun hx => ?_⟩,
      fun x hx hfree => h.before x (hx.trans hstart) (free_concat.mp hfree).1,
      fun hfree => (free_concat.mp hfree).2 ⟨hend.ge, hend.trans_lt hlast⟩⟩
    · omega
    · omega
    · have hbase := hx.1
      omega
  | back hin hconv' hstart hend =>
    have hle := hin.start
    refine ⟨hlt, fun x hlow hhigh => free_concat.mpr ⟨h.free x ?_ ?_, fun hx => ?_⟩,
      fun x hx hfree => (free_concat.mp hfree).2 ⟨?_, ?_⟩,
      fun hfree => h.behind (hend ▸ (free_concat.mp hfree).1)⟩
    · omega
    · omega
    · have hbelow := hx.2
      omega
    · omega
    · omega

/-- The highest stretch of `n` pages. -/
structure TopStretch (n : Nat) (map : List BiosMemoryMapEntry) (taken : List Range) (a b : Nat) :
    Prop where
  stretch : ∃ e ∈ map, Stretch taken e a b
  pages : n * 4096 ≤ b - a
  top : ∀ a' b', (∃ e ∈ map, Stretch taken e a' b') → n * 4096 ≤ b' - a' → a' ≤ a

/-! ## What the ranges add to the table -/

/-- The entries by which the range makes the table longer: itself, when it is not in memory;
    else itself and the memory on either side of it, for the memory it is taken out of. -/
def Range.grows (map : List BiosMemoryMapEntry) (taken : List Range) (r : Range) : Nat :=
  if r.noPages = 0 then 0
  else
    match map.find? fun e => decide (Free taken e r.baseAddress) with
    | none => 1
    | some e =>
      (if r.baseAddress ≠ 0 ∧ Free taken e (r.baseAddress - 1) then 1 else 0) +
        if Free taken e r.last then 1 else 0

def grown (map : List BiosMemoryMapEntry) : List Range → List Range → Nat
  | _, [] => 0
  | taken, r :: rs => r.grows map taken + grown map (taken ++ [r]) rs

theorem grown_concat : grown map taken (rs ++ [r]) =
    grown map taken rs + r.grows map (taken ++ rs) := by
  induction rs generalizing taken with
  | nil =>
    rw [List.nil_append, grown, grown, grown, List.append_nil]
    omega
  | cons r' rs ih =>
    rw [List.cons_append, grown, ih, grown, List.append_assoc, List.singleton_append]
    omega

/-- The entries of the table with the whole map, and the ranges taken out of it one by one. -/
def needed (map : List BiosMemoryMapEntry) (taken : List Range) : Nat :=
  (described map).length + grown map [] taken

/-- The range lies in free memory of one entry, or has none of it. -/
def Range.Enters (map : List BiosMemoryMapEntry) (taken : List Range) (r : Range) : Prop :=
  ∀ e ∈ map, (∀ x, r.has x → ¬Free taken e x) ∨
    (r.baseAddress % 4096 = 0 ∧ ∀ x, r.has x → Free taken e x)

/-- Each range does, when those before it are in use. -/
def EnterAll (map : List BiosMemoryMapEntry) : List Range → List Range → Prop
  | _, [] => True
  | taken, r :: rs => r.Enters map taken ∧ EnterAll map (taken ++ [r]) rs

end EfiCore.Ldr
