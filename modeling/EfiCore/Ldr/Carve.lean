import EfiCore.Ldr.Loader
import EfiCore.Lib.Cover

/-! # Taking ranges out of descriptors

`EfiAddMemoryDescriptor` takes a range out of the descriptor of conventional memory that contains
it.  `Range.Suits` is what it relies on: each such descriptor contains the range or has nothing in
common with it.
-/

namespace EfiCore.Ldr

open EfiCore.Lib
open EfiCore.Mem (MemoryType MemoryDescriptor)

/-- The address behind the descriptor. -/
def ending (d : MemoryDescriptor) : Nat := d.physicalStart + d.numberOfPages * 4096

/-- The descriptor labels the byte as conventional memory. -/
def offers (d : MemoryDescriptor) (x : Nat) : Bool :=
  decide (d.type = .conventionalMemory) && (decide (d.physicalStart ≤ x) && decide (x < ending d))

theorem offers_iff {d : MemoryDescriptor} {x : Nat} :
    offers d x = true ↔ d.type = .conventionalMemory ∧ d.physicalStart ≤ x ∧ x < ending d := by
  simp only [offers, Bool.and_eq_true, decide_eq_true_eq]

theorem offers_conv {d : MemoryDescriptor} (hd : d.type = .conventionalMemory) {e : Nat}
    (he : ending d = e) (x : Nat) : offers d x = true ↔ d.physicalStart ≤ x ∧ x < e := by
  rw [offers_iff, he]
  exact and_iff_right hd

/-- Whole pages below 4 GB, and not none. -/
structure Paged (d : MemoryDescriptor) : Prop where
  start : d.physicalStart % 4096 = 0
  pages : 0 < d.numberOfPages
  below : ending d ≤ 2 ^ 32

/-- The descriptors of conventional memory are whole pages. -/
def AllPaged (ds : List MemoryDescriptor) : Prop :=
  ∀ d ∈ ds, d.type = .conventionalMemory → Paged d

namespace Range

def last (r : Range) : Nat := r.baseAddress + r.noPages * 4096

/-- The byte is in the range. -/
def has (r : Range) (x : Nat) : Prop := r.baseAddress ≤ x ∧ x < r.last

instance (r : Range) (x : Nat) : Decidable (r.has x) :=
  inferInstanceAs (Decidable (r.baseAddress ≤ x ∧ x < r.last))

/-- The descriptor contains the range. -/
structure Within (r : Range) (d : MemoryDescriptor) : Prop where
  aligned : r.baseAddress % 4096 = 0
  start : d.physicalStart ≤ r.baseAddress
  last : r.last ≤ ending d

/-- Each descriptor of conventional memory contains the range or has no byte of it. -/
def Suits (r : Range) (ds : List MemoryDescriptor) : Prop :=
  ∀ d ∈ ds, d.type = .conventionalMemory → r.Within d ∨ ∀ x, ¬(offers d x = true ∧ r.has x)

/-- The range is all of the descriptor. -/
def fills (r : Range) (d : MemoryDescriptor) : Bool :=
  decide (d.type = .conventionalMemory) &&
    (decide (d.physicalStart = r.baseAddress) && decide (ending d = r.last))

/-- The descriptor reaches out of the range on both sides. -/
def inside (r : Range) (d : MemoryDescriptor) : Bool :=
  decide (d.type = .conventionalMemory) &&
    (decide (d.physicalStart < r.baseAddress) && decide (r.last < ending d))

/-- The entries that are appended to tell the range from the rest of the table. -/
def entries (r : Range) (ds : List MemoryDescriptor) : Nat :=
  if r.noPages = 0 then 0
  else (if ds.any r.fills then 0 else 1) + if ds.any r.inside then 1 else 0

/-- The range is one of pages below 4 GB. -/
structure Small (r : Range) : Prop where
  base : r.baseAddress < 2 ^ 32
  pages : r.noPages ≤ 2 ^ 20

end Range

variable {r : Range} {d d' : MemoryDescriptor} {ds ds' : List MemoryDescriptor}

/-! ## One descriptor -/

theorem Range.temp_eq (hr : r.Small) (hle : d.physicalStart ≤ r.baseAddress) :
    r.temp d = (r.baseAddress - d.physicalStart) / 4096 + r.noPages := by
  have hbase := hr.base
  have hpages := hr.pages
  have hover : r.baseAddress + 2 ^ 64 - d.physicalStart =
      r.baseAddress - d.physicalStart + 2 ^ 64 := by omega
  rw [Range.temp, hover]
  omega

/-- A descriptor that has no byte of the range is left alone. -/
theorem Range.carve_apart (hd : Paged d) (hconv : d.type = .conventionalMemory) (hr : r.Small)
    (hpos : 0 < r.noPages) (hapart : ∀ x, ¬(offers d x = true ∧ r.has x)) :
    r.head d = d ∧ r.tail d = [] ∧ r.behind d = d ∧
      ¬(d.physicalStart = r.baseAddress ∧ d.numberOfPages = r.noPages) := by
  have hpages := hd.pages
  have hout : ending d ≤ r.baseAddress ∨ r.last ≤ d.physicalStart := by
    by_contra hboth
    refine hapart (max d.physicalStart r.baseAddress) ⟨offers_iff.mpr ⟨hconv, ?_, ?_⟩, ?_, ?_⟩
    all_goals
      rw [ending, Range.last] at *
      omega
  have hsplits : r.splits d = false := by
    rw [Range.splits]
    by_cases hlt : d.physicalStart < r.baseAddress
    · have htemp := Range.temp_eq hr (Nat.le_of_lt hlt)
      rw [ending, Range.last] at hout
      have hlong : ¬r.temp d ≤ d.numberOfPages := by
        have := hd.start
        omega
      rw [decide_eq_false hlong, Bool.and_false]
    · rw [decide_eq_false hlt, Bool.false_and]
  rw [ending, Range.last] at hout
  refine ⟨?_, ?_, ?_, ?_⟩
  · rw [Range.head, hsplits]
    rfl
  · rw [Range.tail, hsplits]
    rfl
  · rw [Range.behind, if_neg]
    omega
  · omega

/-- What is left of a descriptor that contains the range. -/
inductive Piece (r : Range) (d d' : MemoryDescriptor) : Prop
  | whole (h : d' = d) (hapart : ∀ x, ¬(offers d x = true ∧ r.has x))
  | front (hin : r.Within d) (hconv : d'.type = .conventionalMemory)
      (hstart : d'.physicalStart = d.physicalStart) (hend : ending d' = r.baseAddress)
  | back (hin : r.Within d) (hconv : d'.type = .conventionalMemory)
      (hstart : d'.physicalStart = r.last) (hend : ending d' = ending d)

theorem Piece.offers (h : Piece r d d') (hd : d.type = .conventionalMemory) {x : Nat}
    (hx : offers d' x = true) : offers d x = true ∧ ¬r.has x := by
  obtain ⟨-, hlow, hhigh⟩ := offers_iff.mp hx
  cases h with
  | whole h hapart =>
    subst h
    exact ⟨hx, fun hr => hapart x ⟨hx, hr⟩⟩
  | front hin hconv hstart hend =>
    have hlast := hin.last
    rw [Range.last] at hlast
    refine ⟨offers_iff.mpr ⟨hd, by omega, by omega⟩, ?_⟩
    rintro ⟨hbase, -⟩
    omega
  | back hin hconv hstart hend =>
    have hbase := hin.start
    rw [Range.last] at hstart
    refine ⟨offers_iff.mpr ⟨hd, by omega, by omega⟩, ?_⟩
    rintro ⟨-, hlast⟩
    rw [Range.last] at hlast
    omega

/-- What taking the range out of `ds` leaves. -/
structure Carved (r : Range) (ds ds' : List MemoryDescriptor) : Prop where
  pieces : ∀ d' ∈ ds', d'.type = .conventionalMemory →
    Paged d' ∧ ∃ d ∈ ds, d.type = .conventionalMemory ∧ Piece r d d'
  covers : ∀ x, cover offers ds' x = if r.has x then 0 else cover offers ds x

/-- The range begins behind the start of the descriptor. -/
theorem Range.carve_inner (hd : Paged d) (hr : r.Small) (hin : r.Within d)
    (hlt : d.physicalStart < r.baseAddress) :
    r.head d = { d with numberOfPages := (r.baseAddress - d.physicalStart) / 4096 } ∧
      r.tail d = (if r.last < ending d then
        [⟨.conventionalMemory, r.last, 0, (ending d - r.last) / 4096, d.attr⟩] else []) := by
  have hbase := hr.base
  have hpages := hr.pages
  have hbelow := hd.below
  have hstart := hd.start
  have haligned := hin.aligned
  have hlast := hin.last
  have htemp := Range.temp_eq hr (Nat.le_of_lt hlt)
  rw [ending, Range.last] at *
  have hle : r.temp d ≤ d.numberOfPages := by omega
  have hsplits : r.splits d = true := by
    rw [Range.splits, decide_eq_true hlt, decide_eq_true hle]
    rfl
  have hlimit : r.limit = r.baseAddress + r.noPages * 4096 := by
    rw [Range.limit]
    omega
  constructor
  · rw [Range.head, hsplits, if_pos rfl]
    congr 1
    omega
  · rw [Range.tail, hsplits, Bool.true_and, hlimit]
    by_cases hmore : r.temp d < d.numberOfPages
    · rw [decide_eq_true hmore, if_pos rfl, if_pos (by omega)]
      congr 2
      omega
    · rw [decide_eq_false hmore, if_neg Bool.false_ne_true, if_neg (by omega)]

/-- The range begins where the descriptor does. -/
theorem Range.carve_start (heq : d.physicalStart = r.baseAddress) :
    r.head d = d ∧ r.tail d = [] := by
  have hsplits : r.splits d = false := by
    rw [Range.splits, decide_eq_false (by omega), Bool.false_and]
  constructor
  · rw [Range.head, hsplits]
    rfl
  · rw [Range.tail, hsplits]
    rfl

theorem Range.carve_exact (hd : Paged d) (hr : r.Small) (hin : r.Within d)
    (hexact : (r.head d).physicalStart = r.baseAddress ∧
      (r.head d).numberOfPages = r.noPages) :
    r.tail d = [] ∧ r.baseAddress = d.physicalStart ∧ r.last = ending d := by
  obtain hlt | heq := Nat.lt_or_eq_of_le hin.start
  · rw [(Range.carve_inner hd hr hin hlt).1] at hexact
    dsimp only at hexact
    omega
  · obtain ⟨hhead, htail⟩ := Range.carve_start heq
    rw [hhead] at hexact
    refine ⟨htail, heq.symm, ?_⟩
    rw [Range.last, ending, heq, hexact.2]

theorem Range.carved_inner (hd : Paged d) (hconv : d.type = .conventionalMemory) (hr : r.Small)
    (hin : r.Within d) (hlt : d.physicalStart < r.baseAddress) :
    Carved r [d] (r.behind (r.head d) :: r.tail d) := by
  have hpages := hd.pages
  have hstart := hd.start
  have hbelow := hd.below
  have haligned := hin.aligned
  have hlast := hin.last
  have hending : ending d = d.physicalStart + d.numberOfPages * 4096 := rfl
  have hrlast : r.last = r.baseAddress + r.noPages * 4096 := rfl
  obtain ⟨hhead, htail⟩ := Range.carve_inner hd hr hin hlt
  have hbehind : r.behind (r.head d) = r.head d := by
    rw [Range.behind, hhead, if_neg]
    dsimp only
    omega
  -- the page count of the front is exact, as both addresses are aligned
  have hfront : d.physicalStart + (r.baseAddress - d.physicalStart) / 4096 * 4096 =
      r.baseAddress := by omega
  have hback : r.last + (ending d - r.last) / 4096 * 4096 = ending d := by omega
  rw [hbehind, hhead, htail]
  constructor
  · intro d' hd' hconv'
    obtain rfl | hd' := List.mem_cons.mp hd'
    · refine ⟨⟨hstart, ?_, ?_⟩, d, List.mem_singleton_self d, hconv,
        .front hin hconv' rfl hfront⟩
      · change 0 < (r.baseAddress - d.physicalStart) / 4096
        omega
      · exact hfront.trans_le (Nat.le_of_lt hr.base)
    · by_cases hmore : r.last < ending d
      · rw [if_pos hmore, List.mem_singleton] at hd'
        subst hd'
        refine ⟨⟨?_, ?_, ?_⟩, d, List.mem_singleton_self d, hconv, .back hin hconv' rfl hback⟩
        · change r.last % 4096 = 0
          omega
        · change 0 < (ending d - r.last) / 4096
          omega
        · exact hback.trans_le hbelow
      · rw [if_neg hmore] at hd'
        cases hd'
  · intro x
    have hx := offers_conv
      (d := { d with numberOfPages := (r.baseAddress - d.physicalStart) / 4096 }) hconv hfront x
    have hxd := offers_conv hconv rfl x
    have hhas : r.has x ↔ r.baseAddress ≤ x ∧ x < r.last := Iff.rfl
    by_cases hmore : r.last < ending d
    · have hxt := offers_conv (d := ⟨.conventionalMemory, r.last, 0,
        (ending d - r.last) / 4096, d.attr⟩) rfl hback x
      simp only [if_pos hmore, cover_cons, cover_nil, hx, hxd, hxt, hhas]
      split_ifs <;> omega
    · simp only [if_neg hmore, cover_cons, cover_nil, hx, hxd, hhas]
      split_ifs <;> omega

theorem Range.carved_start (hd : Paged d) (hconv : d.type = .conventionalMemory)
    (hin : r.Within d) (heq : d.physicalStart = r.baseAddress)
    (hmore : r.noPages < d.numberOfPages) :
    Carved r [d] (r.behind (r.head d) :: r.tail d) := by
  have hstart := hd.start
  have hbelow := hd.below
  have haligned := hin.aligned
  have hlast := hin.last
  have hending : ending d = d.physicalStart + d.numberOfPages * 4096 := rfl
  have hrlast : r.last = r.baseAddress + r.noPages * 4096 := rfl
  obtain ⟨hhead, htail⟩ := Range.carve_start heq
  rw [hhead, htail]
  have hbehind : r.behind d =
      { d with numberOfPages := d.numberOfPages - r.noPages, physicalStart := r.last } := by
    rw [Range.behind, if_pos ⟨heq, hmore⟩, Range.last]
    congr 1
    omega
  have hback : r.last + (d.numberOfPages - r.noPages) * 4096 = ending d := by omega
  rw [hbehind]
  constructor
  · intro d' hd' hconv'
    rw [List.mem_singleton] at hd'
    subst hd'
    refine ⟨⟨?_, ?_, ?_⟩, d, List.mem_singleton_self d, hconv, .back hin hconv' rfl hback⟩
    · change r.last % 4096 = 0
      omega
    · exact Nat.sub_pos_of_lt hmore
    · exact hback.trans_le hbelow
  · intro x
    have hx := offers_conv (d := { d with
        numberOfPages := d.numberOfPages - r.noPages, physicalStart := r.last }) hconv hback x
    have hxd := offers_conv hconv rfl x
    have hhas : r.has x ↔ r.baseAddress ≤ x ∧ x < r.last := Iff.rfl
    simp only [cover_cons, cover_nil, hx, hxd, hhas]
    split_ifs <;> omega

theorem Range.carve_within (hd : Paged d) (hconv : d.type = .conventionalMemory) (hr : r.Small)
    (hin : r.Within d)
    (hexact : ¬((r.head d).physicalStart = r.baseAddress ∧
      (r.head d).numberOfPages = r.noPages)) :
    Carved r [d] (r.behind (r.head d) :: r.tail d) := by
  obtain hlt | heq := Nat.lt_or_eq_of_le hin.start
  · exact Range.carved_inner hd hconv hr hin hlt
  · refine Range.carved_start hd hconv hin heq ?_
    have hlast := hin.last
    rw [Range.last, ending] at hlast
    rw [(Range.carve_start heq).1] at hexact
    omega

/-! ## The table -/

/-- No descriptor of conventional memory has a byte of the range. -/
def Range.Clear (r : Range) (ds : List MemoryDescriptor) : Prop :=
  ∀ d ∈ ds, d.type = .conventionalMemory → ∀ x, ¬(offers d x = true ∧ r.has x)

theorem Range.Clear.cover (h : r.Clear ds) {x : Nat} (hx : r.has x) : cover offers ds x = 0 := by
  by_contra hne
  obtain ⟨d, hd, hoffers⟩ := exists_of_cover_pos (Nat.pos_of_ne_zero hne)
  exact h d hd (offers_iff.mp hoffers).1 x ⟨hoffers, hx⟩

theorem Range.Within.offers (h : r.Within d) (hd : d.type = .conventionalMemory) {x : Nat}
    (hx : r.has x) : offers d x = true :=
  offers_iff.mpr ⟨hd, h.start.trans hx.1, hx.2.trans_le h.last⟩

/-- Where nothing is offered twice, a range is in one descriptor only. -/
theorem Range.clear_rest (hin : r.Within d) (hd : d.type = .conventionalMemory)
    (hone : ∀ x, cover offers (d :: ds) x ≤ 1) : r.Clear ds := by
  rintro d' hd' - x ⟨hoffers, hx⟩
  have hcover := hone x
  have hpos := cover_pos hd' hoffers
  rw [cover_cons, if_pos (hin.offers hd hx)] at hcover
  omega

theorem Carved.of_clear (hall : AllPaged ds) (h : r.Clear ds) : Carved r ds ds := by
  constructor
  · intro d hd hconv
    exact ⟨hall d hd hconv, d, hd, hconv, .whole rfl (h d hd hconv)⟩
  · intro x
    by_cases hx : r.has x
    · rw [if_pos hx, h.cover hx]
    · rw [if_neg hx]

theorem Carved.append {es es' : List MemoryDescriptor} (h : Carved r ds ds')
    (h' : Carved r es es') : Carved r (ds ++ es) (ds' ++ es') := by
  constructor
  · intro d hd hconv
    obtain hd | hd := List.mem_append.mp hd
    · obtain ⟨hpaged, d₀, hd₀, hconv₀, hpiece⟩ := h.pieces d hd hconv
      exact ⟨hpaged, d₀, List.mem_append_left es hd₀, hconv₀, hpiece⟩
    · obtain ⟨hpaged, d₀, hd₀, hconv₀, hpiece⟩ := h'.pieces d hd hconv
      exact ⟨hpaged, d₀, List.mem_append_right ds hd₀, hconv₀, hpiece⟩
  · intro x
    rw [cover_append, cover_append, h.covers x, h'.covers x]
    split_ifs
    · rfl
    · rfl

theorem Carved.perm {ds'' : List MemoryDescriptor} (h : Carved r ds ds') (hp : ds'.Perm ds'') :
    Carved r ds ds'' where
  pieces d hd := h.pieces d (hp.mem_iff.mpr hd)
  covers x := (hp.countP_eq _).symm.trans (h.covers x)

/-- An entry that is no conventional memory. -/
theorem Carved.other (hd : d.type ≠ .conventionalMemory) : Carved r [] [d] := by
  constructor
  · intro d' hd' hconv
    rw [List.mem_singleton] at hd'
    subst hd'
    exact absurd hconv hd
  · intro x
    have hx : ¬offers d x = true := fun h => hd (offers_iff.mp h).1
    rw [cover_cons, cover_nil, if_neg hx]
    split_ifs
    · rfl
    · rfl

theorem Range.fills_iff : r.fills d = true ↔
    d.type = .conventionalMemory ∧ d.physicalStart = r.baseAddress ∧ ending d = r.last := by
  simp only [Range.fills, Bool.and_eq_true, decide_eq_true_eq]

theorem Range.inside_iff : r.inside d = true ↔
    d.type = .conventionalMemory ∧ d.physicalStart < r.baseAddress ∧ r.last < ending d := by
  simp only [Range.inside, Bool.and_eq_true, decide_eq_true_eq]

/-- A test that only descriptors with the first byte of the range pass. -/
theorem Range.Clear.none (h : r.Clear ds) (hpos : 0 < r.noPages) {p : MemoryDescriptor → Bool}
    (hp : ∀ d, p d = true →
      d.type = .conventionalMemory ∧ d.physicalStart ≤ r.baseAddress ∧ r.last ≤ ending d) :
    ds.any p = false := by
  have hlast : r.baseAddress < r.last := by
    rw [Range.last]
    omega
  refine List.any_eq_false.mpr fun d hd hpd => ?_
  obtain ⟨hconv, hstart, hend⟩ := hp d hpd
  exact h d hd hconv r.baseAddress
    ⟨offers_iff.mpr ⟨hconv, hstart, hlast.trans_le hend⟩, Nat.le_refl _, hlast⟩

theorem Range.Clear.fills (h : r.Clear ds) (hpos : 0 < r.noPages) : ds.any r.fills = false :=
  h.none hpos fun _ hd =>
    have ⟨hconv, hstart, hend⟩ := Range.fills_iff.mp hd
    ⟨hconv, hstart.le, hend.ge⟩

theorem Range.Clear.inside (h : r.Clear ds) (hpos : 0 < r.noPages) :
    ds.any r.inside = false :=
  h.none hpos fun _ hd =>
    have ⟨hconv, hstart, hend⟩ := Range.inside_iff.mp hd
    ⟨hconv, hstart.le, hend.le⟩

/-- The loop walks past a descriptor that has no byte of the range. -/
theorem Range.carve_cons_clear (hr : r.Small) (hpos : 0 < r.noPages) (hall : AllPaged (d :: ds))
    (hclear : r.Clear [d]) :
    r.carve (d :: ds) = ((r.carve ds).1, d :: (r.carve ds).2.1, (r.carve ds).2.2) := by
  rw [Range.carve]
  by_cases hconv : d.type = .conventionalMemory
  · have hd := hall d List.mem_cons_self hconv
    obtain ⟨hhead, htail, hbehind, hexact⟩ :=
      Range.carve_apart hd hconv hr hpos (hclear d (List.mem_singleton_self d) hconv)
    rw [if_pos hconv, hhead, htail, if_neg hexact, hbehind]
    rfl
  · rw [if_neg hconv]

theorem Range.carve_clear (hr : r.Small) (hpos : 0 < r.noPages) (hall : AllPaged ds)
    (hclear : r.Clear ds) : r.carve ds = (false, ds, []) := by
  induction ds with
  | nil => rfl
  | cons d ds ih =>
    have hrest := ih (fun d' hd' => hall d' (List.mem_cons_of_mem d hd'))
      (fun d' hd' => hclear d' (List.mem_cons_of_mem d hd'))
    have hfirst : r.Clear [d] := fun d' hd' =>
      hclear d' (List.mem_singleton.mp hd' ▸ List.mem_cons_self)
    rw [Range.carve_cons_clear hr hpos hall hfirst, hrest]

/-- What the loop of `EfiAddMemoryDescriptor` does. -/
structure CarveSpec (r : Range) (ds : List MemoryDescriptor)
    (result : Bool × List MemoryDescriptor × List MemoryDescriptor) : Prop where
  carved : Carved r ds (result.2.1 ++ result.2.2)
  found : result.1 = ds.any r.fills
  length : result.2.1.length = ds.length
  tails : result.2.2.length = if ds.any r.inside then 1 else 0

/-- The range is all of the first descriptor. -/
theorem Range.carve_spec_exact (hr : r.Small) (hpos : 0 < r.noPages)
    (htype : r.type ≠ .conventionalMemory) (hall : AllPaged (d :: ds))
    (hconv : d.type = .conventionalMemory) (hin : r.Within d) (hrest : r.Clear ds)
    (hexact : (r.head d).physicalStart = r.baseAddress ∧
      (r.head d).numberOfPages = r.noPages) :
    CarveSpec r (d :: ds) (r.carve (d :: ds)) := by
  have hd := hall d List.mem_cons_self hconv
  obtain ⟨htail, hstart, hlast⟩ := Range.carve_exact hd hr hin hexact
  have hfills : r.fills d = true := Range.fills_iff.mpr ⟨hconv, hstart.symm, hlast.symm⟩
  have hinside : r.inside d = false := by
    rw [← Bool.not_eq_true, Range.inside_iff]
    omega
  rw [Range.carve, if_pos hconv, if_pos hexact, htail]
  refine ⟨?_, ?_, rfl, ?_⟩
  · rw [List.append_nil]
    have hgone : Carved r [d] [] := by
      refine ⟨fun d' hd' => absurd hd' List.not_mem_nil, fun x => ?_⟩
      by_cases hx : r.has x
      · rw [if_pos hx, cover_nil]
      · have hxd : ¬offers d x = true := by
          rw [offers_iff]
          rintro ⟨-, hlow, hhigh⟩
          exact hx ⟨hstart.trans_le hlow, hhigh.trans_eq hlast.symm⟩
        rw [if_neg hx, cover_cons, if_neg hxd]
        rfl
    have hkept : Carved r ds ds :=
      Carved.of_clear (fun d' hd' => hall d' (List.mem_cons_of_mem d hd')) hrest
    exact (Carved.other (d := { r.head d with type := r.type, attr := r.attr }) htype).append
      (hgone.append hkept)
  · rw [List.any_cons, hfills, Bool.true_or]
  · rw [List.any_cons, hinside, hrest.inside hpos]
    rfl

/-- The range is taken out of the first descriptor. -/
theorem Range.carve_spec_within (hr : r.Small) (hpos : 0 < r.noPages)
    (hall : AllPaged (d :: ds)) (hconv : d.type = .conventionalMemory) (hin : r.Within d)
    (hrest : r.Clear ds)
    (hexact : ¬((r.head d).physicalStart = r.baseAddress ∧
      (r.head d).numberOfPages = r.noPages)) :
    CarveSpec r (d :: ds) (r.carve (d :: ds)) := by
  have hd := hall d List.mem_cons_self hconv
  have hall' : AllPaged ds := fun d' hd' => hall d' (List.mem_cons_of_mem d hd')
  rw [Range.carve, if_pos hconv, if_neg hexact, Range.carve_clear hr hpos hall' hrest]
  dsimp only
  refine ⟨?_, ?_, rfl, ?_⟩
  · have hboth := (Range.carve_within hd hconv hr hin hexact).append
      (Carved.of_clear hall' hrest)
    refine hboth.perm ?_
    rw [List.append_nil]
    exact List.perm_append_comm.cons _
  · have hfills : r.fills d = false := by
      rw [← Bool.not_eq_true, Range.fills_iff]
      rintro ⟨-, hstart, hend⟩
      refine hexact ?_
      rw [(Range.carve_start hstart).1]
      rw [ending, Range.last] at hend
      omega
    rw [List.any_cons, hfills, hrest.fills hpos]
    rfl
  · rw [List.append_nil, List.any_cons, hrest.inside hpos, Bool.or_false]
    have hinside : r.inside d = true ↔ d.physicalStart < r.baseAddress ∧ r.last < ending d := by
      rw [Range.inside_iff]
      exact and_iff_right hconv
    obtain hlt | heq := Nat.lt_or_eq_of_le hin.start
    · rw [(Range.carve_inner hd hr hin hlt).2]
      by_cases hmore : r.last < ending d
      · rw [if_pos hmore, if_pos (hinside.mpr ⟨hlt, hmore⟩)]
        rfl
      · rw [if_neg hmore, if_neg fun h => hmore (hinside.mp h).2]
        rfl
    · rw [(Range.carve_start heq).2, if_neg fun h => (hinside.mp h).1.ne heq]
      rfl

theorem Range.carve_spec (hr : r.Small) (hpos : 0 < r.noPages)
    (htype : r.type ≠ .conventionalMemory) (hall : AllPaged ds) (hsuits : r.Suits ds)
    (hone : ∀ x, cover offers ds x ≤ 1) : CarveSpec r ds (r.carve ds) := by
  induction ds with
  | nil => exact ⟨Carved.of_clear hall fun d hd => absurd hd List.not_mem_nil, rfl, rfl, rfl⟩
  | cons d ds ih =>
    by_cases hin : d.type = .conventionalMemory ∧ r.Within d
    · obtain ⟨hconv, hin⟩ := hin
      -- nothing is offered twice, so the rest of the table is left alone
      have hrest := Range.clear_rest hin hconv hone
      by_cases hexact : (r.head d).physicalStart = r.baseAddress ∧
          (r.head d).numberOfPages = r.noPages
      · exact Range.carve_spec_exact hr hpos htype hall hconv hin hrest hexact
      · exact Range.carve_spec_within hr hpos hall hconv hin hrest hexact
    · have hfirst : r.Clear [d] := by
        intro d' hd' hconv
        obtain rfl := List.mem_singleton.mp hd'
        obtain hwithin | hapart := hsuits d' List.mem_cons_self hconv
        · exact absurd ⟨hconv, hwithin⟩ hin
        · exact hapart
      have hrest := ih (fun d' hd' => hall d' (List.mem_cons_of_mem d hd'))
        (fun d' hd' => hsuits d' (List.mem_cons_of_mem d hd')) fun x => by
          have hx := hone x
          rw [cover_cons] at hx
          omega
      rw [Range.carve_cons_clear hr hpos hall hfirst]
      have hall₁ : AllPaged [d] := fun d' hd' =>
        hall d' (List.mem_singleton.mp hd' ▸ List.mem_cons_self)
      have hfills := hfirst.fills hpos
      have hinside := hfirst.inside hpos
      rw [List.any_cons, List.any_nil, Bool.or_false] at hfills hinside
      refine ⟨(Carved.of_clear hall₁ hfirst).append hrest.carved, ?_, ?_, ?_⟩
      · rw [List.any_cons, hfills, hrest.found]
        rfl
      · rw [List.length_cons, hrest.length, List.length_cons]
      · rw [List.any_cons, hinside, hrest.tails]
        rfl

/-! ## Adding a descriptor -/

theorem Range.not_has_empty (hzero : r.noPages = 0) (x : Nat) : ¬r.has x := by
  rintro ⟨hlow, hhigh⟩
  rw [Range.last, hzero] at hhigh
  omega

/-- `EfiAddMemoryDescriptor` takes the range out of conventional memory, and out of nothing
    else. -/
theorem Range.add_carved (hr : r.Small) (htype : r.type ≠ .conventionalMemory)
    (hall : AllPaged ds) (hsuits : r.Suits ds) (hone : ∀ x, cover offers ds x ≤ 1) :
    Carved r ds (r.efiAddMemoryDescriptor ds) := by
  rw [Range.efiAddMemoryDescriptor]
  by_cases hzero : r.noPages = 0
  · rw [if_pos hzero]
    exact Carved.of_clear hall fun d _ _ x hx => Range.not_has_empty hzero x hx.2
  · have hspec := Range.carve_spec hr (Nat.pos_of_ne_zero hzero) htype hall hsuits hone
    rw [if_neg hzero]
    dsimp only
    by_cases hfound : (r.carve ds).1 = true
    · rw [if_pos hfound]
      exact hspec.carved
    · rw [if_neg hfound]
      have hboth := hspec.carved.append (Carved.other (r := r) (d := r.descriptor) htype)
      rwa [List.append_nil] at hboth

theorem Range.add_length (hr : r.Small) (htype : r.type ≠ .conventionalMemory)
    (hall : AllPaged ds) (hsuits : r.Suits ds) (hone : ∀ x, cover offers ds x ≤ 1) :
    (r.efiAddMemoryDescriptor ds).length = ds.length + r.entries ds := by
  rw [Range.efiAddMemoryDescriptor, Range.entries]
  by_cases hzero : r.noPages = 0
  · rw [if_pos hzero, if_pos hzero, Nat.add_zero]
  · have hspec := Range.carve_spec hr (Nat.pos_of_ne_zero hzero) htype hall hsuits hone
    rw [if_neg hzero, if_neg hzero, ← hspec.found, ← hspec.tails]
    have hlength := hspec.length
    generalize r.carve ds = result at hlength ⊢
    obtain ⟨found, ds', tails⟩ := result
    cases found with
    | true =>
      dsimp only at hlength ⊢
      rw [if_pos rfl, if_pos rfl, List.length_append]
      omega
    | false =>
      dsimp only at hlength ⊢
      rw [if_neg Bool.false_ne_true, if_neg Bool.false_ne_true, List.length_append,
        List.length_append, List.length_singleton]
      omega

/-- A range that has no byte of conventional memory is put behind the table. -/
theorem Range.add_clear (hr : r.Small) (hpos : 0 < r.noPages) (hall : AllPaged ds)
    (hclear : r.Clear ds) : r.efiAddMemoryDescriptor ds = ds ++ [r.descriptor] := by
  rw [Range.efiAddMemoryDescriptor, if_neg hpos.ne', Range.carve_clear hr hpos hall hclear]
  dsimp only
  rw [if_neg Bool.false_ne_true, List.append_nil]

end EfiCore.Ldr
