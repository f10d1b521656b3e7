import EfiCore.Mem.Quiet

/-! # Page allocation is exclusive

`AllocatePages` hands out pages that were free until its own conversion loop took them, and the
memory services keep them out of every other allocation until `FreePages` gives them back.

The page count is shifted into a `UINT64` byte count, and `ConvertPages` lets a type change to
`EfiConventionalMemory` through for memory in use.  The result is about the runs whose calls of
`AllocatePages` stay clear of both.
-/

namespace EfiCore.Mem

open EfiCore.Lib

namespace MemState

variable {A : Arch} {convert : Convert A} {s s1 s2 : MemState A}

/-! ## What a successful call promises -/

/-- The type the map gives an address. -/
def typeAt (s : MemState A) (a : Nat) : Option MemoryType := (s.view a).map Prod.fst

/-- `a` is in pool pages of the type that descriptors are allocated from. -/
def DescriptorPage (s : MemState A) (a : Nat) : Prop :=
  ∃ u ∈ s.poolUnits, u.type = .runtimeServicesData ∧ u.Covers a

/-- Turns of the loop of `ConvertPages` lead from its head with `start` and `s` to its head with
    `start'` and `s'`. -/
inductive Turns (convert : Convert A) (fuel last : Nat) (t : MemoryType) :
    Nat → MemState A → Nat → MemState A → Prop
  | refl {start s} : Turns convert fuel last t start s start s
  | turn {start s next s1 start' s'} : start < last →
      s.convertRange convert fuel false start last t = .ok (some next, s1) →
      Turns convert fuel last t next s1 start' s' → Turns convert fuel last t start s start' s'

/-- The turn that converts `a` finds it free. -/
def FreeAtTurn (convert : Convert A) (fuel last : Nat) (t : MemoryType) (start : Nat)
    (s : MemState A) (a : Nat) : Prop :=
  ∃ x s1 next s2, Turns convert fuel last t start s x s1 ∧ x < last ∧
    s1.convertRange convert fuel false x last t = .ok (some next, s2) ∧ x ≤ a ∧ a < next ∧ s1.Free a

/-- `AllocatePages` succeeded with `*Memory = start`, and did nothing else; `n` is the number of
    pages after rounding. -/
structure Granted (fuel : Nat) (type : AllocateType) (memoryType : MemoryType)
    (noPages : Uintn A) (memory : BitVec 64) (start n : Nat) (s s' : MemState A) : Prop where
  pages : noPages.toNat ≠ 0 ∧ noPages.toNat ≤ n
  noWrap : start + n * 4096 ≤ 2 ^ 64
  aligned : start % pageAllocationAlignment A memoryType = 0
  limit : type = .allocateMaxAddress → start + n * 4096 ≤ memory.toNat + 1
  address : type = .allocateAddress → start = memory.toNat
  free : ∀ a, start ≤ a → a < start + n * 4096 → ∃ depth, fuel = depth + 1 ∧
    FreeAtTurn (convertPages depth) fuel (start + n * 4096 - 1) memoryType start s a
  typed : ∀ a, start ≤ a → a < start + n * 4096 → s'.typeAt a = some memoryType
  others : ∀ a, ¬ (start ≤ a ∧ a < start + n * 4096) → s'.typeAt a ≠ s.typeAt a →
    (s.Free a ∧ s'.DescriptorPage a) ∨ (s.DescriptorPage a ∧ s'.Free a)

/-! ## The conversion -/

/-- What the loop does to an address of its range when it succeeds. -/
structure TakenAt (convert : Convert A) (fuel last : Nat) (t : MemoryType) (start : Nat)
    (s s' : MemState A) (a : Nat) : Prop where
  loose : s.Loose descriptorTypes a
  free : FreeAtTurn convert fuel last t start s a
  typed : ∃ attr, s'.view a = some (t, attr)
  unowned : ¬ s'.Owned a

/-- The loop takes what it finds free, turn by turn, and leaves what it does not. -/
theorem convertLoop_grants (hk : convert.Keeps) (hc : convert.Moves) (fuel : Nat) {last : Nat}
    {t : MemoryType} (ht : t ≠ .conventionalMemory) (hlast : (last + 1) % 4096 = 0)
    (hlt : last + 1 < 2 ^ 64) (turns : Nat) {start : Nat} (hstart : start % 4096 = 0)
    {s : MemState A} (hs : s.Sound) (hp : s.PoolSound) :
    Ensures (s.convertLoop convert fuel false last t turns start) fun r =>
      Traffic descriptorTypes
        (fun a => (start ≤ a ∧ a ≤ last) ∧ s.Loose descriptorTypes a) nothing s r.2 ∧
      (r.1 = .success → ∀ a, start ≤ a → a ≤ last →
        TakenAt convert fuel last t start s r.2 a) := by
  induction turns generalizing start s with
  | zero =>
    rw [convertLoop]
    exact Ensures.ite (fun _ => .error) fun _ => .pure ⟨.refl hs hp, fun _ a _ _ => by omega⟩
  | succ turns ih =>
    rw [convertLoop]
    refine Ensures.ite (fun hle => ?_) fun _ => .pure ⟨.refl hs hp, fun _ a _ _ => by omega⟩
    -- what a turn may convert is free, and so not the pool's
    have hfree : ∀ e, s.findEntry start = some e → incompatible false t e.type = false →
        ∀ a, start ≤ a → a ≤ e.last → a ≤ last → s.Free a := by
      intro e hfind hinc a h1 h2 _
      obtain ⟨he, hes, _⟩ := findEntry_spec hfind
      exact free_of_entry hs he (((incompatible_false_iff t _).mp hinc).mp ht) ⟨by omega, h2⟩
    have hunowned : ∀ e, s.findEntry start = some e → incompatible false t e.type = false →
        ∀ a, start ≤ a → a ≤ e.last → a ≤ last → ¬ s.Owned a := by
      intro e hfind hinc a h1 h2 h3 howned
      obtain ⟨u, hu, hcov⟩ := howned
      exact hp.owned_not_free hu hcov (hfree e hfind hinc a h1 h2 h3)
    have hrange :=
      convertRange_turns hk hc fuel false t hstart hlast (by omega) hle hs hp hunowned
    refine ((Ensures.self _).and hrange).bind fun r hr => ?_
    obtain ⟨hexec, hr⟩ := hr
    obtain ⟨o, s1⟩ := r
    rcases hr with ⟨hnone, hsame, -⟩ | ⟨e, rangeEnd, hfind, hinc, hre, hnext, hturn⟩
    · cases hnone
      dsimp only at hsame
      rw [hsame]
      exact .pure ⟨.refl hs hp, fun hsuccess => by cases hsuccess⟩
    · dsimp only at hnext hturn
      have hpe := hs.map.pages e (findEntry_spec hfind).1
      have hpe1 := hpe.last_aligned
      have hpe2 := hpe.lt
      have hel := (findEntry_spec hfind).2
      rw [Nat.mod_eq_of_lt (show rangeEnd + 1 < 2 ^ 64 by omega)] at hnext
      subst hnext
      dsimp only
      have hpiece : ∀ a, start ≤ a ∧ a ≤ rangeEnd → s.Free a := fun a ha =>
        hfree e hfind hinc a ha.1 (by omega) (by omega)
      have htraffic := hturn.traffic
      refine (ih (by omega) htraffic.sound htraffic.pool).mono fun r hr => ?_
      obtain ⟨hrest, hgranted⟩ := hr
      refine ⟨?_, fun hsuccess a h1 h2 => ?_⟩
      · refine (htraffic.exempt (fun a ha => ⟨by omega, .inl (hpiece a ha)⟩) fun _ => id).trans
          (hrest.exempt (fun a ha => ⟨by omega, ?_⟩) fun _ => id)
        exact (htraffic.loose a (by omega)).mp ha.2
      · by_cases hin : a ≤ rangeEnd
        · obtain ⟨⟨attr, hv⟩, ho⟩ := hturn.typed ht a h1 hin
          have hl : ¬ s1.Loose descriptorTypes a := by
            rintro (⟨attr', hf⟩ | ⟨u, hu, _, hcov⟩)
            · cases hv.symm.trans hf
              exact ht rfl
            · exact ho ⟨u, hu, hcov⟩
          have hout : ¬ ((rangeEnd + 1 ≤ a ∧ a ≤ last) ∧ s1.Loose descriptorTypes a) := by omega
          have hf := hpiece a ⟨h1, hin⟩
          exact ⟨.inl hf, ⟨start, s, rangeEnd + 1, s1, .refl, hle, hexec, h1, by omega, hf⟩,
            ⟨attr, (hrest.view a hout hl).trans hv⟩, hrest.unowned hout hl ho⟩
        · obtain ⟨hl, ⟨x, s2, next, s3, hturns, hfree'⟩, hv, ho⟩ :=
            hgranted hsuccess a (by omega) h2
          exact ⟨(htraffic.loose a (by omega)).mp hl,
            ⟨x, s2, next, s3, .turn hle hexec hturns, hfree'⟩, hv, ho⟩

theorem convertBody_grants (hk : convert.Keeps) (hc : convert.Moves) (fuel : Nat)
    {start n : Nat} {t : MemoryType} (ht : t ≠ .conventionalMemory)
    (hbytes : n * 4096 < 2 ^ 64) (hs : s.Sound) (hp : s.PoolSound) :
    Ensures (s.convertBody convert fuel false start n t) fun r =>
      Traffic descriptorTypes (fun a => (start ≤ a ∧ a < start + n * 4096) ∧
        s.Loose descriptorTypes a) nothing s r.2 ∧
      (r.1 = .success → 0 < n ∧ start + n * 4096 < 2 ^ 64 ∧
        ∀ a, start ≤ a → a < start + n * 4096 →
          TakenAt convert fuel (start + n * 4096 - 1) t start s r.2 a) := by
  rw [convertBody]
  refine Ensures.ite (fun _ => .ok ⟨.refl hs hp, fun h => by cases h⟩) fun hvalid => ?_
  have hn : n ≠ 0 := fun h => hvalid (.inl h)
  have hstart : start % 4096 = 0 := by
    by_contra hne
    exact hvalid (.inr (.inl hne))
  have hbelow : start + n * 4096 < 2 ^ 64 := by
    by_contra hge
    exact hvalid (.inr (.inr (by omega)))
  have hlast : (start + n * 4096 % 2 ^ 64 + (2 ^ 64 - 1)) % 2 ^ 64 = start + n * 4096 - 1 := by
    omega
  rw [hlast]
  refine (convertLoop_grants hk hc fuel ht (by omega) (by omega) fuel hstart hs hp).mono
    fun r hr => ⟨?_, fun hsuccess => ⟨by omega, hbelow, fun a h1 h2 => ?_⟩⟩
  · exact hr.1.exempt (fun a ha => ⟨by omega, ha.2⟩) fun _ => id
  · exact hr.2 hsuccess a h1 (by omega)

/-! ## The call -/

theorem pageAllocationAlignment_eq (A : Arch) (t : MemoryType) :
    pageAllocationAlignment A t = 4096 ∨ pageAllocationAlignment A t = 8192 := by
  cases A <;> cases t <;> first | exact .inl rfl | exact .inr rfl

/-- Rounding gives whole units of the alignment, and less than was asked for only when it wraps
    around to nothing. -/
theorem roundPages_spec (A : Arch) (t : MemoryType) (noPages : Uintn A) :
    roundPages A t noPages * 4096 % pageAllocationAlignment A t = 0 ∧
      (0 < roundPages A t noPages →
        noPages.toNat ≠ 0 ∧ noPages.toNat ≤ roundPages A t noPages) := by
  have hlt : noPages.toNat < 2 ^ A.bits := noPages.isLt
  have hbits : 2 ≤ 2 ^ A.bits := by cases A <;> decide
  rcases pageAllocationAlignment_eq A t with h | h
  · have hunit : sizeToPages 4096 = 1 := rfl
    rw [roundPages, h, hunit]
    rw [Nat.add_zero, Nat.mod_eq_of_lt hlt]
    omega
  · have hunit : sizeToPages 8192 = 2 := rfl
    rw [roundPages, h, hunit]
    by_cases hwrap : noPages.toNat + 1 < 2 ^ A.bits
    · rw [Nat.mod_eq_of_lt hwrap]
      omega
    · have hzero : (noPages.toNat + (2 - 1)) % 2 ^ A.bits = 0 := by
        rw [show noPages.toNat + (2 - 1) = 2 ^ A.bits by omega, Nat.mod_self]
      rw [hzero]
      omega

/-- The start that the search finds, when the range it stands for can be converted. -/
theorem findFreePages_spec (hs : s.Sound) {limit n : Nat} {t t' : MemoryType}
    (hbytes : n * 4096 < 2 ^ 64) (hdiv : n * 4096 % pageAllocationAlignment A t' = 0)
    (hfound : s.findFreePages limit n t (pageAllocationAlignment A t') ≠ 0)
    (hbelow : s.findFreePages limit n t (pageAllocationAlignment A t') + n * 4096 < 2 ^ 64) :
    let start := s.findFreePages limit n t (pageAllocationAlignment A t')
    start % pageAllocationAlignment A t' = 0 ∧ start + n * 4096 ≤ limit + 1 ∧
      (limit < 2 ^ A.bits → 0 < n ∧ ∃ e ∈ s.memoryMap, e.type = .conventionalMemory ∧
        e.start ≤ start ∧ start + n * 4096 ≤ e.last + 1) := by
  obtain ⟨limit', hlimit, hstart⟩ :=
    findFreePages_eq s limit n t (pageAllocationAlignment A t')
  dsimp only
  rw [hstart] at hfound hbelow ⊢
  have hpages : ∀ e ∈ s.memoryMap, PageRange e.start e.last := fun e he => hs.map.pages e he
  have hend := findFreePagesI_end hpages hbytes hfound
  obtain ⟨-, hn, -, -⟩ := findFreePagesI_cases s hbytes hfound
  obtain ⟨halign, hle⟩ := hend.resolve_left (by omega)
  refine ⟨?_, by omega, fun hbits => ⟨by omega, ?_⟩⟩
  · rcases pageAllocationAlignment_eq A t' with h | h <;> rw [h] at halign hdiv ⊢ <;> omega
  · have hmem := findFreePagesI_mem hpages (fun e he => hs.map.spans.nonempty e he) hbytes
      (by omega) (pageAllocationAlignment_eq A t') hfound
    exact hmem.resolve_left (by omega)

end MemState

open MemState

/-- `AllocatePages` is asked for pages whose bytes can be counted in a `UINT64`, and not to turn
    memory at a given address into free memory. -/
def CountsPages {A : Arch} (_ : MemState A) : Action A → Prop
  | .allocatePages type memoryType noPages memory =>
    roundPages A memoryType noPages * 4096 < 2 ^ 64 ∧
      (memoryType = .conventionalMemory → type ≠ .allocateAddress ∧
        (type = .allocateMaxAddress → memory.toNat < 2 ^ A.bits))
  | _ => True

namespace MemState

variable {A : Arch} {s : MemState A}

theorem findFreePages_lt {limit n alignment : Nat} {t : MemoryType} (hbytes : n * 4096 < 2 ^ 64)
    (hfound : s.findFreePages limit n t alignment ≠ 0) :
    s.findFreePages limit n t alignment < 2 ^ 64 := by
  obtain ⟨limit', _, hstart⟩ := findFreePages_eq s limit n t alignment
  rw [hstart] at hfound ⊢
  obtain ⟨-, -, -, e, _, _, _, _, heq⟩ := findFreePagesI_cases s hbytes hfound
  rw [heq]
  exact Nat.mod_lt _ (by decide)

/-- Asking for free memory fails. -/
theorem convertPages_conventional (fuel : Nat) (hs : s.Sound) (hp : s.PoolSound) {start n : Nat}
    (hbytes : n * 4096 < 2 ^ 64)
    (h : start + n * 4096 < 2 ^ 64 → 0 < n ∧ ∃ e ∈ s.memoryMap, e.type = .conventionalMemory ∧
      e.start ≤ start ∧ start + n * 4096 ≤ e.last + 1) (hstart : start < 2 ^ 64) :
    Ensures (convertPages fuel false start n .conventionalMemory s) fun r =>
      r.1 ≠ .success ∧ r.2 = s := by
  have error : ∀ r : Status × MemState A, r.1.isError = true → r.1 ≠ .success := by
    rintro ⟨status, s'⟩ he rfl
    cases he
  by_cases hbelow : start + n * 4096 < 2 ^ 64
  · obtain ⟨hn, hmem⟩ := h hbelow
    refine ((convertPages_moves fuel).take start n _ s hs hp hn hbytes hmem).mono fun r hr => ?_
    rcases hr with ⟨herr, hsame⟩ | ⟨_, htook⟩
    · exact ⟨error r herr, hsame⟩
    · exact absurd rfl htook.notFree
  · refine ((convertPages_moves fuel).refuse false start n _ s hstart hbytes (by omega)).mono
      fun r hr => ⟨error r hr.1, hr.2⟩

/-- Addresses outside the range change between free memory and descriptor pages only. -/
theorem Traffic.typeAt_ne {R X : Nat → Prop} {s' : MemState A}
    (h : Traffic descriptorTypes R X s s') (hp : s.PoolSound) {a : Nat} (ha : ¬ R a)
    (hne : s'.typeAt a ≠ s.typeAt a) :
    (s.Free a ∧ s'.DescriptorPage a) ∨ (s.DescriptorPage a ∧ s'.Free a) := by
  have free : ∀ r : MemState A, r.Free a → r.typeAt a = some .conventionalMemory := by
    rintro r ⟨attr, hv⟩
    rw [typeAt, hv]
    rfl
  have page : ∀ r : MemState A, r.PoolSound → r.DescriptorPage a →
      r.typeAt a = some .runtimeServicesData := by
    rintro r hr ⟨u, hu, ht, hc⟩
    obtain ⟨attr, hv⟩ := hr.typed u hu a hc
    rw [typeAt, hv, ht]
    rfl
  have hl : s.Loose descriptorTypes a := by
    by_contra hl
    exact hne (by rw [typeAt, typeAt, h.view a ha hl])
  have hl' : s'.Loose descriptorTypes a := (h.loose a ha).mpr hl
  rcases hl with hf | hd <;> rcases hl' with hf' | hd'
  · exact absurd ((free _ hf').trans (free _ hf).symm) hne
  · exact .inl ⟨hf, hd'⟩
  · exact .inr ⟨hd, hf'⟩
  · exact absurd ((page _ h.pool hd').trans (page _ hp hd).symm) hne

/-- Every address of the range `start`, `n` meets `P`. -/
def OnPages (start n : Nat) (P : Nat → Prop) : Prop := ∀ a, start ≤ a → a < start + n * 4096 → P a

/-- What is known of the start that `AllocatePages` hands to `ConvertPages`, as far as the range
    does not run around the end of the address space. -/
structure Chosen (s : MemState A) (type : AllocateType) (memoryType : MemoryType)
    (memory : BitVec 64) (start n : Nat) : Prop where
  lt : start < 2 ^ 64
  aligned : start + n * 4096 < 2 ^ 64 → start % pageAllocationAlignment A memoryType = 0
  limit : start + n * 4096 < 2 ^ 64 → type = .allocateMaxAddress →
    start + n * 4096 ≤ memory.toNat + 1
  address : type = .allocateAddress → start = memory.toNat
  fits : start + n * 4096 < 2 ^ 64 → type ≠ .allocateAddress →
    (type = .allocateMaxAddress → memory.toNat < 2 ^ A.bits) → 0 < n ∧
      ∃ e ∈ s.memoryMap, e.type = .conventionalMemory ∧ e.start ≤ start ∧
        start + n * 4096 ≤ e.last + 1

theorem chosen_address (s : MemState A) {memoryType : MemoryType} {memory : BitVec 64} {n : Nat}
    (h : memory.toNat % pageAllocationAlignment A memoryType = 0) :
    s.Chosen .allocateAddress memoryType memory memory.toNat n where
  lt := memory.isLt
  aligned _ := h
  limit _ hmax := by cases hmax
  address _ := rfl
  fits _ hne := absurd rfl hne

theorem chosen_search (hs : s.Sound) {type : AllocateType} {memoryType : MemoryType}
    {memory : BitVec 64} {n limit : Nat} (hne : type ≠ .allocateAddress)
    (hmax : type = .allocateMaxAddress → limit = memory.toNat)
    (hany : type ≠ .allocateMaxAddress → limit = maxAddress A) (hbytes : n * 4096 < 2 ^ 64)
    (hdiv : n * 4096 % pageAllocationAlignment A memoryType = 0)
    (hfound : s.findFreePages limit n memoryType (pageAllocationAlignment A memoryType) ≠ 0) :
    s.Chosen type memoryType memory
      (s.findFreePages limit n memoryType (pageAllocationAlignment A memoryType)) n := by
  have hspec := findFreePages_spec hs hbytes hdiv hfound
  have hlt := findFreePages_lt hbytes hfound
  dsimp only at hspec
  generalize s.findFreePages limit n memoryType (pageAllocationAlignment A memoryType) = start at *
  refine ⟨hlt, fun hb => (hspec hb).1, fun hb hm => ?_, fun h => absurd h hne, fun hb _ hbits => ?_⟩
  · rw [← hmax hm]
    exact (hspec hb).2.1
  · refine (hspec hb).2.2 ?_
    by_cases hm : type = .allocateMaxAddress
    · rw [hmax hm]
      exact hbits hm
    · have := maxAddress_succ A
      rw [hany hm]
      omega

/-- The conversion of a chosen range. -/
theorem Chosen.grants {type : AllocateType} {memoryType : MemoryType} {noPages : Uintn A}
    {memory : BitVec 64} {start : Nat} (fuel : Nat) (hs : s.Sound) (hp : s.PoolSound)
    (hok : CountsPages s (.allocatePages type memoryType noPages memory))
    (h : s.Chosen type memoryType memory start (roundPages A memoryType noPages)) :
    let n := roundPages A memoryType noPages
    Ensures (convertPages fuel false start n memoryType s) fun r =>
      Quiet s r.2 ∧ (r.1 = .success →
        Granted fuel type memoryType noPages memory start n s r.2 ∧
          OnPages start n r.2.Held ∧ OnPages start n fun a => ¬ s.Held a) := by
  obtain ⟨hbytes, hconv⟩ := hok
  obtain ⟨-, hround⟩ := roundPages_spec A memoryType noPages
  dsimp only
  generalize roundPages A memoryType noPages = n at *
  by_cases hfree : memoryType = .conventionalMemory
  · obtain ⟨hne, hmax⟩ := hconv hfree
    subst hfree
    refine (convertPages_conventional fuel hs hp hbytes (fun hb => h.fits hb hne hmax) h.lt).mono
      fun r hr => ?_
    rw [hr.2]
    exact ⟨.refl hs hp, fun hsuccess => absurd hsuccess hr.1⟩
  · cases fuel with
    | zero => exact .error
    | succ fuel =>
      refine (convertBody_grants (convertPages_keeps fuel) (convertPages_moves fuel) (fuel + 1)
        hfree hbytes hs hp).mono fun r hr => ?_
      obtain ⟨htraffic, hgrants⟩ := hr
      refine ⟨htraffic.quiet fun a ha hheld => absurd ha.2 hheld.not_loose, fun hsuccess => ?_⟩
      obtain ⟨hn, hbelow, htaken⟩ := hgrants hsuccess
      refine ⟨⟨hround hn, Nat.le_of_lt hbelow, h.aligned hbelow, h.limit hbelow, h.address,
        fun a h1 h2 => ⟨fuel, rfl, (htaken a h1 h2).free⟩, fun a h1 h2 => ?_, fun a ha hne => ?_⟩,
        fun a h1 h2 => ?_, fun a h1 h2 hheld => hheld.not_loose (htaken a h1 h2).loose⟩
      · obtain ⟨attr, hv⟩ := (htaken a h1 h2).typed
        rw [typeAt, hv]
        rfl
      · exact htraffic.typeAt_ne hp (fun hin => ha hin.1) hne
      · obtain ⟨attr, hv⟩ := (htaken a h1 h2).typed
        exact ⟨⟨memoryType, attr, hv, hfree⟩, (htaken a h1 h2).unowned⟩

theorem allocatePages_grants (fuel : Nat) (hs : s.Sound) (hp : s.PoolSound) {type : AllocateType}
    {memoryType : MemoryType} {noPages : Uintn A} {memory : BitVec 64}
    (hok : CountsPages s (.allocatePages type memoryType noPages memory)) :
    Ensures (s.allocatePages fuel type memoryType noPages memory) fun r =>
      Quiet s r.2 ∧ (r.1.1 = .success →
        let n := roundPages A memoryType noPages
        Granted fuel type memoryType noPages memory r.1.2 n s r.2 ∧
          OnPages r.1.2 n r.2.Held ∧ OnPages r.1.2 n fun a => ¬ s.Held a) := by
  have failed : ∀ status : Status, status ≠ .success →
      Ensures (ε := Fault) (.ok ((status, memory.toNat), s)) fun r => Quiet s r.2 ∧
        (r.1.1 = .success → let n := roundPages A memoryType noPages
          Granted fuel type memoryType noPages memory r.1.2 n s r.2 ∧
            OnPages r.1.2 n r.2.Held ∧ OnPages r.1.2 n fun a => ¬ s.Held a) :=
    fun status hne => .ok ⟨.refl hs hp, fun h => absurd h hne⟩
  rw [allocatePages]
  refine Ensures.ite (fun _ => failed _ (by decide)) fun _ => ?_
  refine Ensures.ite (fun _ => failed _ (by decide)) fun _ => ?_
  refine Ensures.ite (fun _ => failed _ (by decide)) fun haddress => ?_
  dsimp only
  set limit := if type = .allocateMaxAddress then memory.toNat else maxAddress A with hlimit
  have hchosen : ∀ start, start = (if type = .allocateAddress then memory.toNat
      else s.findFreePages limit (roundPages A memoryType noPages) memoryType
        (pageAllocationAlignment A memoryType)) → ¬ (type ≠ .allocateAddress ∧ start = 0) →
      s.Chosen type memoryType memory start (roundPages A memoryType noPages) := by
    rintro start rfl hfound
    by_cases hne : type = .allocateAddress
    · subst hne
      rw [if_pos rfl]
      exact chosen_address s (by_contra fun hbad => haddress ⟨rfl, hbad⟩)
    · rw [if_neg hne] at hfound ⊢
      exact chosen_search hs hne (fun hm => if_pos hm) (fun hm => if_neg hm) hok.1
        (roundPages_spec A memoryType noPages).1 fun h0 => hfound ⟨hne, h0⟩
  clear_value limit
  generalize (if type = .allocateAddress then memory.toNat
    else s.findFreePages limit (roundPages A memoryType noPages) memoryType
      (pageAllocationAlignment A memoryType)) = start at hchosen ⊢
  refine Ensures.ite (fun _ => failed _ (by decide)) fun hfound => ?_
  refine ((hchosen start rfl hfound).grants fuel hs hp hok).bind fun r hr => .pure ⟨hr.1, ?_⟩
  intro hsuccess
  have haddr : (if r.1.isError = true then memory.toNat else start) = start := by
    rw [show r.1 = .success from hsuccess]
    exact if_neg Bool.false_ne_true
  dsimp only at hsuccess ⊢
  rw [haddr]
  exact hr.2 hsuccess

/-! ## The other calls -/

/-- Converting a range that is neither free nor the pool's. -/
theorem convertPages_retypes (fuel : Nat) (lc : Bool) (hs : s.Sound) (hp : s.PoolSound)
    {start n : Nat} (t : MemoryType) (hbytes : n * 4096 < 2 ^ 64)
    (hrange : OnPages start n fun a => ¬ s.Free a ∧ ¬ s.Owned a) :
    Ensures (convertPages fuel lc start n t s) fun r => r.2.PoolSound ∧
      ∀ a, s.Held a → (t = .conventionalMemory → ¬ (start ≤ a ∧ a < start + n * 4096)) →
        r.2.Held a := by
  cases fuel with
  | zero => exact .error
  | succ fuel =>
    change Ensures (s.convertBody (convertPages fuel) (fuel + 1) lc start n t) _
    rw [convertBody]
    refine Ensures.ite (fun _ => .ok ⟨hp, fun _ h _ => h⟩) fun hvalid => ?_
    have hn : n ≠ 0 := fun h => hvalid (.inl h)
    have hstart : start % 4096 = 0 := by
      by_contra hne
      exact hvalid (.inr (.inl hne))
    have hbelow : start + n * 4096 < 2 ^ 64 := by
      by_contra hge
      exact hvalid (.inr (.inr (by omega)))
    have hlast : (start + n * 4096 % 2 ^ 64 + (2 ^ 64 - 1)) % 2 ^ 64 = start + n * 4096 - 1 := by
      omega
    rw [hlast]
    refine (convertLoop_moves (convertPages_keeps fuel) (convertPages_moves fuel) (fuel + 1) lc t
      (by omega) (by omega) (fuel + 1) hstart hs hp fun a h1 h2 => hrange a h1 (by omega)).mono
      fun r hr => ⟨hr.1.pool, fun a hheld hout => ?_⟩
    by_cases ht : t = .conventionalMemory
    · exact hr.1.held (fun hin => hout ht (by omega)) hheld
    · exact hr.2.2 ht a hheld

/-- A new range enters the map. -/
theorem fwAddMemoryDescriptor_quiet (fuel : Nat) (hs : s.Sound) (hp : s.PoolSound)
    {type : MemoryType} {start noPages attr : BitVec 64}
    (hnew : SuppliesNew s (.fwAddMemoryDescriptor type start noPages attr))
    (hends : SuppliesOneEnd s (.fwAddMemoryDescriptor type start noPages attr)) :
    Ensures (s.fwAddMemoryDescriptor fuel type start noPages attr) (Quiet s) := by
  have hc := convertPages_moves (A := A) fuel
  have hlast := supplied_last hnew
  obtain ⟨halign, hne, hle, hfree⟩ := hnew
  have hpos : noPages.toNat ≠ 0 := fun h0 => hne (BitVec.eq_of_toNat_eq h0)
  set last := start.toNat + noPages.toNat * 4096 - 1 with hl
  have hp' : PageRange start.toNat last := ⟨halign, by omega, by omega⟩
  have hrange : ∀ a, start.toNat ≤ a → a ≤ last → s.view a = none :=
    fun a h1 h2 => hfree a h1 (by omega)
  have hunowned : ∀ a, start.toNat ≤ a ∧ a ≤ last → ¬ s.Owned a := by
    rintro a ha ⟨u, hu, hcov⟩
    obtain ⟨attr', hv⟩ := hp.typed u hu a hcov
    rw [hrange a ha.1 ha.2] at hv
    cases hv
  rw [fwAddMemoryDescriptor, hlast]
  refine (addRange_adds (convertPages fuel) hs (by omega) hp' hrange hends).bind fun s2 hs2 => ?_
  obtain ⟨s1, hedit, hremoves⟩ := hs2
  have hput : Traffic descriptorTypes (fun a => start.toNat ≤ a ∧ a ≤ last) nothing s s1 :=
    .of_edit hp hedit (fun a ha => if_neg ha) hunowned
  obtain ⟨X, hremoved, hX⟩ := hremoves.traffic hc hp hedit hput.pool
  refine (freeMemoryMapStack_traffic hc fuel hremoved.sound hremoved.pool).mono fun s3 hs3 => ?_
  have hrest := hremoved.then_exempt hs3 fun _ _ _ _ _ _ => not_false
  have hall := hput.then_exempt (hrest.exempt (fun _ => False.elim) fun _ => id)
    fun u x n hx hh _ => hX u x n hx hh
  refine hall.quiet fun a ha hheld => ?_
  obtain ⟨⟨t, attr', hv, _⟩, _⟩ := hheld
  rw [hrange a ha.1 ha.2] at hv
  cases hv

end MemState

/-! ## Runs -/

section Runs

variable {A : Arch}

/-- Between calls. -/
structure Ready (s : MemState A) : Prop where
  settled : Settled s
  pool : s.PoolSound

theorem initializeMemoryMap_ready : Ready (initializeMemoryMap A) where
  settled := initializeMemoryMap_settled
  pool := {
    units := Spans.nil
    shaped := by simp [initializeMemoryMap]
    notFree := by simp [initializeMemoryMap]
    typed := by simp [initializeMemoryMap]
    carved := by simp [initializeMemoryMap]
    large := by simp [initializeMemoryMap]
    listed := by simp [initializeMemoryMap, Pool.cleared]
    nodup := by simp [initializeMemoryMap, Pool.cleared]
    homes := by simp [initializeMemoryMap, IsHome]
    records := by simp [initializeMemoryMap]
    recordsDistinct := by simp [initializeMemoryMap] }

/-- What callers owe: new ranges to `FwAddMemoryDescriptor`, not both ends of the address space;
    `FreePages` and `SetCodeSection` are called on pages in use that are not the pool's, and
    `FreePool` on the caller's own buffers. -/
def Proper (s : MemState A) : Action A → Prop
  | .freePages memory noPages => ∀ e, s.findEntry memory.toNat = some e →
      OnPages memory.toNat (roundPages A e.type noPages) fun a => ¬ s.Free a ∧ ¬ s.Owned a
  | .freePool buffer => s.Returnable buffer
  | .setCodeSection base noPages _ => noPages.toNat * 4096 < 2 ^ 64 ∧
      OnPages base.toNat noPages.toNat fun a => ¬ s.Free a ∧ ¬ s.Owned a
  | a => SuppliesNew s a ∧ SuppliesOneEnd s a

/-- The pages, as base and number, that a call gives back. -/
def released (s : MemState A) : Action A → Nat × Nat
  | .freePages memory noPages =>
    match s.findEntry memory.toNat with
    | some e => (memory.toNat, roundPages A e.type noPages)
    | none => (0, 0)
  | .setCodeSection base noPages .conventionalMemory => (base.toNat, noPages.toNat)
  | _ => (0, 0)

/-- The pages that a call allocates. -/
def allocated (fuel : Nat) (s : MemState A) : Action A → List (Nat × Nat)
  | .allocatePages type memoryType noPages memory =>
    match s.allocatePages fuel type memoryType noPages memory with
    | .ok ((.success, start), _) => [(start, roundPages A memoryType noPages)]
    | _ => []
  | _ => []

/-- Two ranges of pages have no address in common. -/
def Apart (r r' : Nat × Nat) : Prop :=
  r.1 + r.2 * 4096 ≤ r'.1 ∨ r'.1 + r'.2 * 4096 ≤ r.1

instance (r r' : Nat × Nat) : Decidable (Apart r r') := by
  unfold Apart
  infer_instance

/-- The memory services together with the live page allocations: what `AllocatePages` returned
    and no later call gave back. -/
def pageMachine (A : Arch) : Machine (MemState A × List (Nat × Nat)) (Action A) where
  init σ := σ = (initializeMemoryMap A, [])
  step σ a σ' := ∃ fuel, a.exec fuel σ.1 = .ok σ'.1 ∧
    σ'.2 = allocated fuel σ.1 a ++ σ.2.filter (Apart (released σ.1 a))

/-- In the runs of calls that meet `ok`, live page allocations do not overlap, and every
    successful `AllocatePages` does what it promises and nothing else. -/
def AllocatesExclusively (A : Arch) (ok : MemState A → Action A → Prop) : Prop :=
  ∀ σ as σ', (pageMachine A).init σ → (pageMachine A).Path (fun σ => ok σ.1) σ as σ' →
    σ'.2.Pairwise Apart ∧
    ∀ fuel type memoryType noPages memory start s',
      ok σ'.1 (.allocatePages type memoryType noPages memory) →
      σ'.1.allocatePages fuel type memoryType noPages memory = .ok ((.success, start), s') →
      Granted fuel type memoryType noPages memory start (roundPages A memoryType noPages) σ'.1 s'

/-- An address of the range `r`. -/
def InRange (r : Nat × Nat) (a : Nat) : Prop := r.1 ≤ a ∧ a < r.1 + r.2 * 4096

theorem apart_of_disjoint {r r' : Nat × Nat} (h : 0 < r.2) (h' : 0 < r'.2)
    (hd : ∀ a, InRange r a → ¬ InRange r' a) : Apart r r' := by
  by_contra hcon
  rw [Apart, not_or] at hcon
  refine hd (max r.1 r'.1) ?_ ?_ <;> simp only [InRange] <;> omega

theorem apart_not_inRange {r r' : Nat × Nat} (h : Apart r r') {a : Nat} (ha : InRange r' a) :
    ¬ InRange r a := by
  rw [Apart] at h
  simp only [InRange] at ha ⊢
  omega

/-- A call leaves the held addresses alone that it does not give back. -/
theorem exec_spares (fuel : Nat) {s : MemState A} (h : Ready s) {a : Action A} (hok : Proper s a)
    (hcount : CountsPages s a) : Ensures (a.exec fuel s) fun s' => s'.PoolSound ∧
      ∀ x, s.Held x → ¬ InRange (released s a) x → s'.Held x := by
  obtain ⟨⟨hs, -, -⟩, hp⟩ := h
  have hc := convertPages_moves (A := A) fuel
  have same : s.PoolSound ∧ ∀ x, s.Held x → ¬ InRange (released s a) x → s.Held x :=
    ⟨hp, fun _ h _ => h⟩
  have quiet : ∀ {s'}, Quiet s s' →
      s'.PoolSound ∧ ∀ x, s.Held x → ¬ InRange (released s a) x → s'.Held x :=
    fun hq => ⟨hq.pool, fun x hx _ => hq.held x hx⟩
  cases a with
  | fwAddMemoryDescriptor type start noPages attr =>
    exact (fwAddMemoryDescriptor_quiet fuel hs hp hok.1 hok.2).mono fun _ => quiet
  | allocatePages type memoryType noPages memory =>
    exact Ensures.map ((allocatePages_grants fuel hs hp hcount).mono fun _ hr => quiet hr.1)
  | freePages memory noPages =>
    refine Ensures.map (Ensures.ite (fun _ => .ok same) fun _ => ?_)
    split
    · exact .ok same
    · rename_i e hfind
      refine Ensures.ite (fun _ => .ok same) fun _ => Ensures.ite (fun _ => .ok same) fun hsize => ?_
      have hbytes : roundPages A e.type noPages * 4096 < 2 ^ 64 := by
        have := not_or.mp hsize
        omega
      refine (convertPages_retypes fuel false hs hp _ hbytes (hok e hfind)).mono fun r hr =>
        ⟨hr.1, fun x hx hout => hr.2 x hx fun _ hin => hout ?_⟩
      simpa only [released, hfind, InRange] using hin
  | allocatePool poolType size =>
    refine Ensures.map (Ensures.ite (fun _ => .pure same) fun _ => ?_)
    refine Ensures.ite (fun _ => .pure same) fun hsize => ?_
    exact (allocatePoolI_quiet hc hs hp poolType (by omega)).bind fun r hr => .pure (quiet hr)
  | freePool buffer =>
    refine Ensures.map (Ensures.ite (fun _ => .ok same) fun _ => ?_)
    exact (freePoolI_quiet hc hs hp hok).mono fun _ => quiet
  | setCodeSection base noPages memoryType =>
    refine Ensures.map ((convertPages_retypes fuel true hs hp memoryType hok.1 hok.2).mono
      fun r hr => ⟨hr.1, fun x hx hout => hr.2 x hx fun hconv hin => hout ?_⟩)
    subst hconv
    exact hin
  | setWatermarks watermark =>
    exact .ok ⟨hp.of_eq rfl rfl (fun _ _ => rfl) rfl (fun _ _ => rfl) fun _ h => h, fun _ h _ => h⟩

theorem Ready.step {fuel : Nat} {s s' : MemState A} {a : Action A} (h : Ready s)
    (hok : Proper s a) (hcount : CountsPages s a) (hstep : a.exec fuel s = .ok s') : Ready s' := by
  refine ⟨?_, (exec_spares fuel h hok hcount s' hstep).1⟩
  by_cases hadd : ∃ t b n attr, a = .fwAddMemoryDescriptor t b n attr
  · obtain ⟨t, b, n, attr, rfl⟩ := hadd
    exact (fwAddMemoryDescriptor_adds fuel h.settled hok.1 hok.2 s' hstep).1
  · exact h.settled.keep (exec_keeps fuel s a (fun t b n attr he => hadd ⟨t, b, n, attr, he⟩) s'
      hstep h.settled.sound)

/-- The live allocations are held, and apart from each other. -/
structure LiveHeld (σ : MemState A × List (Nat × Nat)) : Prop where
  ready : Ready σ.1
  pos : ∀ r ∈ σ.2, 0 < r.2
  held : ∀ r ∈ σ.2, ∀ a, InRange r a → σ.1.Held a
  apart : σ.2.Pairwise Apart

/-- What a call allocates is not part of a live allocation, and held afterwards. -/
theorem allocated_spec {fuel : Nat} {s s' : MemState A} {a : Action A} (h : Ready s)
    (hcount : CountsPages s a) (hstep : a.exec fuel s = .ok s') {r : Nat × Nat}
    (hr : r ∈ allocated fuel s a) :
    allocated fuel s a = [r] ∧ 0 < r.2 ∧ ∀ x, InRange r x → s'.Held x ∧ ¬ s.Held x := by
  cases a with
  | allocatePages type memoryType noPages memory =>
    rw [allocated] at hr ⊢
    split at hr
    · rename_i start s'' hcall
      obtain rfl := List.mem_singleton.mp hr
      have hexec : (Action.allocatePages type memoryType noPages memory).exec fuel s = .ok s'' := by
        rw [Action.exec, hcall]
        rfl
      cases hexec.symm.trans hstep
      obtain ⟨hgranted, hheld, hnew⟩ :=
        (allocatePages_grants fuel h.settled.sound h.pool hcount _ hcall).2 rfl
      have := hgranted.pages
      exact ⟨rfl, by dsimp only; omega, fun x hx => ⟨hheld x hx.1 hx.2, hnew x hx.1 hx.2⟩⟩
    · cases hr
  | _ => cases hr

theorem LiveHeld.step {σ σ' : MemState A × List (Nat × Nat)} {a : Action A} (h : LiveHeld σ)
    (hok : Proper σ.1 a) (hcount : CountsPages σ.1 a) (hstep : (pageMachine A).step σ a σ') :
    LiveHeld σ' := by
  obtain ⟨fuel, hexec, hlive⟩ := hstep
  have hspares := (exec_spares fuel h.ready hok hcount _ hexec).2
  have hmem : ∀ r ∈ σ'.2, r ∈ allocated fuel σ.1 a ∨ r ∈ σ.2 ∧ Apart (released σ.1 a) r := by
    intro r hr
    rw [hlive] at hr
    simpa using hr
  have hnew : ∀ r ∈ allocated fuel σ.1 a, _ := fun r hr =>
    allocated_spec h.ready hcount hexec hr
  refine ⟨h.ready.step hok hcount hexec, fun r hr => ?_, fun r hr x hx => ?_, ?_⟩
  · rcases hmem r hr with hr | ⟨hr, _⟩
    · exact (hnew r hr).2.1
    · exact h.pos r hr
  · rcases hmem r hr with hr | ⟨hr, hapart⟩
    · exact ((hnew r hr).2.2 x hx).1
    · exact hspares x (h.held r hr x hx) (apart_not_inRange hapart hx)
  · rw [hlive, List.pairwise_append]
    refine ⟨?_, h.apart.sublist List.filter_sublist, fun r hr r' hr' => ?_⟩
    · cases hal : allocated fuel σ.1 a with
      | nil => exact List.Pairwise.nil
      | cons r rs =>
        have := (hnew r (hal ▸ List.mem_cons_self)).1
        rw [hal] at this
        rw [this]
        exact List.pairwise_singleton _ _
    · have hr' := List.mem_of_mem_filter hr'
      exact apart_of_disjoint (hnew r hr).2.1 (h.pos r' hr')
        fun x hx hx' => ((hnew r hr).2.2 x hx).2 (h.held r' hr' x hx')

/-- Page allocation is exclusive in the runs whose callers keep their duties and whose page
    counts can be counted. -/
theorem allocatesExclusively_of_countsPages (A : Arch) :
    AllocatesExclusively A fun s a => Proper s a ∧ CountsPages s a := by
  rintro σ as σ' rfl hpath
  have hinit : LiveHeld (initializeMemoryMap A, []) :=
    ⟨initializeMemoryMap_ready, by simp, by simp, List.Pairwise.nil⟩
  have hreach : (pageMachine A).Reach (fun σ a => Proper σ.1 a ∧ CountsPages σ.1 a) σ' :=
    Machine.Reach.path (.start rfl) hpath
  have hlive : LiveHeld σ' := by
    apply hreach.rule
    · rintro σ rfl
      exact hinit
    · exact fun σ a σ' hI hok hstep => hI.step hok.1 hok.2 hstep
  refine ⟨hlive.apart, fun fuel type memoryType noPages memory start s' hok hcall => ?_⟩
  exact ((allocatePages_grants fuel hlive.ready.settled.sound hlive.ready.pool hok.2 _ hcall).2
    rfl).1

/-- Two more pages are granted while the four are live. -/
theorem supplyTake_granted : ∃ (s : MemState .efi64) (start : Nat) (s' : MemState .efi64),
    s.typeAt 0x108000 = some .loaderData ∧
    s.allocatePages 8 .allocateAnyPages .loaderData 2 0 = .ok ((.success, start), s') ∧
      Granted 8 .allocateAnyPages .loaderData 2 0 start 2 s s' := by
  have hrun : supplyTake (fun s => match s.allocatePages 8 .allocateAnyPages .loaderData 2 0 with
    | .ok ((status, _), _) => decide (status = .success ∧ s.typeAt 0x108000 = some .loaderData)
    | .error _ => false) = true := by decide +kernel
  obtain ⟨s, s', hsupply, htake, hnext⟩ := supplyTake_states hrun
  split at hnext
  · rename_i status start s'' hcall
    obtain ⟨rfl, htype⟩ := of_decide_eq_true hnext
    refine ⟨s', start, s'', htype, hcall, ?_⟩
    have hsupplied : (pageMachine .efi64).step (initializeMemoryMap .efi64, []) supply (s, _) :=
      ⟨8, hsupply, rfl⟩
    have hpath : (pageMachine .efi64).Path (fun σ a => Proper σ.1 a ∧ CountsPages σ.1 a)
        (initializeMemoryMap .efi64, []) [supply, take] (s', _) :=
      .cons ⟨⟨supply_new, supply_oneEnd⟩, trivial⟩ hsupplied
        (.cons ⟨⟨trivial, trivial⟩, by decide, nofun⟩ ⟨8, htake, rfl⟩ .nil)
    exact (allocatesExclusively_of_countsPages .efi64 _ _ _ rfl hpath).2 8 _ _ _ _ start s''
      ⟨⟨trivial, trivial⟩, by decide, nofun⟩ hcall
  · cases hnext

/-! ## A page count that does not fit -/

/-- 2^52 pages of 4096 bytes are 0 bytes in a `UINT64`: the call succeeds and takes nothing. -/
theorem hugeAllocation_succeeds :
    (match (Action.fwAddMemoryDescriptor (A := .efi64) .conventionalMemory 0x100000 16 0).exec 8
        (initializeMemoryMap .efi64) with
      | .ok s => match s.allocatePages 8 .allocateAddress .loaderData 0x10000000000000 0x100000 with
        | .ok ((status, start), _) => decide (status = .success ∧ start = 0x100000)
        | _ => false
      | _ => false) = true := by
  decide +kernel

theorem not_allocatesExclusively : ¬ AllocatesExclusively .efi64 Proper := by
  intro h
  have hrun := hugeAllocation_succeeds
  split at hrun
  · rename_i s hexec
    split at hrun
    · rename_i status start s' hcall
      obtain ⟨rfl, rfl⟩ := of_decide_eq_true hrun
      have hproper : Proper (initializeMemoryMap .efi64)
          (.fwAddMemoryDescriptor .conventionalMemory 0x100000 16 0) := by
        refine ⟨suppliesNew_sound (by decide), fun attr h0 => ?_⟩
        simp [View.attrs, View.put, MemState.view, initializeMemoryMap, view, occupant] at h0
      have hgranted := (h (initializeMemoryMap .efi64, []) [_] (s, []) rfl
        (.cons hproper ⟨8, hexec, rfl⟩ .nil)).2 8 _ _ _ _ _ _ ⟨trivial, trivial⟩ hcall
      have hwrap := hgranted.noWrap
      revert hwrap
      decide
    · cases hrun
  · cases hrun

end Runs

end EfiCore.Mem
