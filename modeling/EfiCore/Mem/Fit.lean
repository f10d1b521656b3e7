import EfiCore.Mem.Map

/-! # What the page search finds

A base that `FindFreePages` returns starts a range that ends on the asked alignment below
the asked limit, or a range around the end of the address space, which `ConvertPages`
refuses.  With a limit in the processor's own address space the range lies in one
descriptor of free memory.
-/

namespace EfiCore.Mem

open MemState

variable {A : Arch}

theorem maxAddress_succ (A : Arch) : maxAddress A + 1 = 2 ^ A.bits := by
  cases A <;> rfl

theorem clipMaxAddress_spec {n : Nat} (h : 4095 ≤ n) :
    clipMaxAddress n % 4096 = 4095 ∧ clipMaxAddress n ≤ n := by
  rw [clipMaxAddress]
  split <;> omega

/-- The search ends with nothing, or with the usable end of a descriptor that is large enough. -/
theorem search_foldl (A : Arch) (maxAddress noBytes alignment : Nat) (m : List MapEntry)
    (target : Nat) :
    let t := m.foldl (searchStep A maxAddress noBytes alignment) target
    t = target ∨ ∃ e ∈ m, e.type = .conventionalMemory ∧ e.start < maxAddress ∧
      t = descEnd A maxAddress alignment e ∧ noBytes ≤ (t + 2 ^ 64 - e.start + 1) % 2 ^ 64 := by
  induction m generalizing target with
  | nil => exact .inl rfl
  | cons e m ih =>
    rw [List.foldl_cons]
    rcases ih (searchStep A maxAddress noBytes alignment target e) with h | ⟨x, hx, h⟩
    · rw [h, searchStep]
      split
      · rename_i hconv
        dsimp only
        split
        · rename_i hfit
          exact .inr ⟨e, List.mem_cons_self, hconv.1, hconv.2, rfl, hfit.1⟩
        · exact .inl rfl
      · exact .inl rfl
    · exact .inr ⟨x, List.mem_cons_of_mem _ hx, h⟩

/-- The end of a usable part: it is aligned, or at the end of the address space. -/
theorem alignDescEnd_spec (A : Arch) (alignment : Nat) {x : Nat} (hx : x < 2 ^ 64) :
    ∃ z, z % alignment = 0 ∧ z ≤ x + 1 ∧ z < 2 ^ 64 ∧
      z = (x + 1) % 2 ^ 64 % 2 ^ A.bits - (x + 1) % 2 ^ 64 % 2 ^ A.bits % alignment ∧
      alignDescEnd A alignment x = (z + (2 ^ 64 - 1)) % 2 ^ 64 := by
  refine ⟨_, ?_, ?_, ?_, rfl, rfl⟩
  · exact Nat.sub_mod_eq_zero_of_mod_eq (Nat.mod_mod _ _).symm
  · have h1 := Nat.mod_le ((x + 1) % 2 ^ 64) (2 ^ A.bits)
    have h2 := Nat.mod_le (x + 1) (2 ^ 64)
    omega
  · have h1 := Nat.mod_le ((x + 1) % 2 ^ 64) (2 ^ A.bits)
    omega

/-- Where a search that does not fail comes from. -/
theorem findFreePagesI_cases (s : MemState A) {limit noPages alignment : Nat}
    (hbytes : noPages * 4096 < 2 ^ 64)
    (hfound : s.findFreePagesI limit noPages alignment ≠ 0) :
    4095 ≤ limit ∧ noPages ≠ 0 ∧ s.findFreePagesI limit noPages alignment % 4096 = 0 ∧
      ∃ e ∈ s.memoryMap, e.type = .conventionalMemory ∧ e.start < clipMaxAddress limit ∧
        noPages * 4096 ≤
          (descEnd A (clipMaxAddress limit) alignment e + 2 ^ 64 - e.start + 1) % 2 ^ 64 ∧
        s.findFreePagesI limit noPages alignment =
          (descEnd A (clipMaxAddress limit) alignment e + 2 ^ 64 + 1 - noPages * 4096) % 2 ^ 64 := by
  rw [findFreePagesI] at hfound ⊢
  by_cases hlow : limit < 4095
  · rw [if_pos hlow] at hfound
    exact absurd rfl hfound
  rw [if_neg hlow] at hfound ⊢
  by_cases hz : noPages = 0
  · rw [if_pos hz] at hfound
    exact absurd rfl hfound
  rw [if_neg hz] at hfound ⊢
  rw [Nat.mod_eq_of_lt hbytes] at hfound ⊢
  dsimp only at hfound ⊢
  have hfold := search_foldl A (clipMaxAddress limit) (noPages * 4096) alignment s.memoryMap 0
  dsimp only at hfold
  generalize s.memoryMap.foldl (searchStep A (clipMaxAddress limit) (noPages * 4096) alignment) 0
    = t at hfold hfound ⊢
  by_cases hpage : (t + 2 ^ 64 + 1 - noPages * 4096) % 2 ^ 64 % 4096 = 0
  · rw [if_pos hpage] at hfound ⊢
    refine ⟨by omega, hz, hpage, ?_⟩
    rcases hfold with h0 | ⟨e, he, hconv, hstart, ht, hfit⟩
    · -- "not found" is off a page boundary
      omega
    · exact ⟨e, he, hconv, hstart, ht ▸ hfit, by rw [ht]⟩
  · rw [if_neg hpage] at hfound
    exact absurd rfl hfound

/-- A found range ends aligned and below the limit, unless it runs into the end of the address
    space. -/
theorem findFreePagesI_end {s : MemState A} (hm : ∀ e ∈ s.memoryMap, PageRange e.start e.last)
    {limit noPages alignment : Nat} (hbytes : noPages * 4096 < 2 ^ 64)
    (hfound : s.findFreePagesI limit noPages alignment ≠ 0) :
    let start := s.findFreePagesI limit noPages alignment
    2 ^ 64 ≤ start + noPages * 4096 ∨
      ((start + noPages * 4096) % alignment = 0 ∧ start + noPages * 4096 ≤ limit + 1) := by
  obtain ⟨hlimit, hz, -, e, he, -, -, -, hstart⟩ := findFreePagesI_cases s hbytes hfound
  have hclip := clipMaxAddress_spec hlimit
  have hlt := (hm e he).lt
  dsimp only
  rw [hstart, descEnd]
  set x := if clipMaxAddress limit ≤ e.last then clipMaxAddress limit else e.last with hx
  have hxlt : x < 2 ^ 64 ∧ x ≤ limit := by
    rw [hx]
    split <;> omega
  obtain ⟨z, halign, hle, hzlt, -, hend⟩ := alignDescEnd_spec A alignment hxlt.1
  rw [hend]
  by_cases hz0 : z = 0
  · left
    omega
  · by_cases hbig : noPages * 4096 ≤ z
    · right
      have hsum : ((z + (2 ^ 64 - 1)) % 2 ^ 64 + 2 ^ 64 + 1 - noPages * 4096) % 2 ^ 64 +
          noPages * 4096 = z := by omega
      rw [hsum]
      exact ⟨halign, by omega⟩
    · left
      omega

/-- With a limit below `2 ^ A.bits` a found range lies in one descriptor of free memory, unless
    it runs into the end of the address space. -/
theorem findFreePagesI_mem {s : MemState A} (hm : ∀ e ∈ s.memoryMap, PageRange e.start e.last)
    (hne : ∀ e ∈ s.memoryMap, e.start ≤ e.last) {limit noPages alignment : Nat}
    (hbytes : noPages * 4096 < 2 ^ 64) (hlim : limit < 2 ^ A.bits)
    (hal : alignment = 4096 ∨ alignment = 8192)
    (hfound : s.findFreePagesI limit noPages alignment ≠ 0) :
    let start := s.findFreePagesI limit noPages alignment
    2 ^ 64 ≤ start + noPages * 4096 ∨ ∃ e ∈ s.memoryMap, e.type = .conventionalMemory ∧
      e.start ≤ start ∧ start + noPages * 4096 ≤ e.last + 1 := by
  obtain ⟨hlimit, hz, -, e, he, hconv, hbelow, hfit, hstart⟩ :=
    findFreePagesI_cases s hbytes hfound
  have hclip := clipMaxAddress_spec hlimit
  have hp := hm e he
  have h1 := hp.start_aligned
  have h2 := hp.last_aligned
  have h3 := hp.lt
  have h4 := hne e he
  have hbits : 2 ^ A.bits ≤ 2 ^ 64 := Nat.pow_le_pow_right (by decide) (by cases A <;> decide)
  dsimp only
  rw [hstart]
  rw [descEnd] at hfit ⊢
  set x := if clipMaxAddress limit ≤ e.last then clipMaxAddress limit else e.last with hx
  have hxs : x < 2 ^ A.bits ∧ x ≤ e.last ∧ (x + 1) % 4096 = 0 ∧ e.start + 4095 ≤ x := by
    rw [hx]
    split <;> omega
  obtain ⟨z, -, hle, hzlt, hzeq, hend⟩ :=
    alignDescEnd_spec A alignment (show x < 2 ^ 64 by omega)
  rw [hend] at hfit ⊢
  by_cases hz0 : z = 0
  · left
    omega
  · right
    refine ⟨e, he, hconv, ?_⟩
    have hmod : (x + 1) % 2 ^ 64 % 2 ^ A.bits = x + 1 := by
      rcases Nat.lt_or_ge (x + 1) (2 ^ A.bits) with h | h
      · rw [Nat.mod_eq_of_lt (show x + 1 < 2 ^ 64 by omega), Nat.mod_eq_of_lt h]
      · -- then the aligned end would be 0
        have hxe : x + 1 = 2 ^ A.bits := by omega
        have h0 : (x + 1) % 2 ^ 64 % 2 ^ A.bits = 0 := by
          rw [hxe]
          cases A <;> decide
        rw [h0] at hzeq
        omega
    rw [hmod] at hzeq
    rcases hal with rfl | rfl <;> omega

/-- `FindFreePages` answers with a base of `FindFreePagesI` for the same or a lower limit. -/
theorem findFreePages_eq (s : MemState A) (limit noPages : Nat) (t : MemoryType)
    (alignment : Nat) : ∃ limit' ≤ limit,
      s.findFreePages limit noPages t alignment = s.findFreePagesI limit' noPages alignment := by
  have hlimit : Watermarks.limit s.watermark limit t ≤ limit := by
    cases t <;> first | exact Nat.min_le_left _ _ | exact le_refl _
  rw [findFreePages]
  split
  · exact ⟨limit, le_refl _, rfl⟩
  · exact ⟨_, hlimit, rfl⟩

end EfiCore.Mem
