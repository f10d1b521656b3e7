import EfiCore.Mem.Fit

/-! # The page search finds the highest range

`FindFreePagesI` compares the usable ends of the free descriptors, with the alignment as a mask of
a `UINTN`.  The mask clears what does not fit into a `UINTN`, and the length of a descriptor that
is all of the address space wraps to 0; up to that the base it returns is the highest that fits.
-/

namespace EfiCore.Mem

open MemState EfiCore.Lib

variable {A : Arch}

/-- `base` may be returned: `n` free pages, aligned, in one descriptor and up to the limit. -/
structure Fits (s : MemState A) (limit n alignment base : Nat) : Prop where
  positive : 0 < base
  aligned : base % alignment = 0
  inside : ∃ e ∈ s.memoryMap, e.type = .conventionalMemory ∧ e.start ≤ base ∧
    base + n * 4096 ≤ e.last + 1
  below : base + n * 4096 ≤ limit + 1

/-- What the search of `FindFreePagesI` is for. -/
def SearchesExactly (s : MemState A) (limit n alignment : Nat) : Prop :=
  let base := s.findFreePagesI limit n alignment
  (base ≠ 0 → Fits s limit n alignment base ∧
    ∀ base', Fits s limit n alignment base' → base' ≤ base) ∧
  (base = 0 → ∀ base', ¬ Fits s limit n alignment base')

/-- A request that the search is made for. -/
structure Request (limit n alignment : Nat) : Prop where
  limit_lt : limit < 2 ^ 64
  pages : n ≠ 0
  bytes : n * 4096 < 2 ^ 64
  onePageOrTwo : alignment = 4096 ∨ alignment = 8192
  multiple : n * 4096 % alignment = 0

/-- Where the part of a descriptor that the search may use ends, as a number. -/
def usableEnd (limit alignment : Nat) (e : MapEntry) : Nat :=
  let last := if clipMaxAddress limit ≤ e.last then clipMaxAddress limit else e.last
  last + 1 - (last + 1) % alignment

/-- A free descriptor that begins below the limit. -/
def Candidate (s : MemState A) (limit : Nat) (e : MapEntry) : Prop :=
  e ∈ s.memoryMap ∧ e.type = .conventionalMemory ∧ e.start < clipMaxAddress limit

/-- The end fits into a `UINTN`, or is the end of the 64-bit address space. -/
def EndInReach (A : Arch) (start last : Nat) : Prop :=
  last < 2 ^ A.bits ∨ (last = 2 ^ 64 ∧ 0 < start)

theorem Request.alignment_dvd {limit n alignment : Nat} (h : Request limit n alignment)
    (A : Arch) : alignment ∣ 2 ^ A.bits := by
  obtain rfl | rfl := h.onePageOrTwo
  · exact Nat.pow_dvd_pow 2 (show 12 ≤ A.bits by cases A <;> decide)
  · exact Nat.pow_dvd_pow 2 (show 13 ≤ A.bits by cases A <;> decide)

theorem bits_le (A : Arch) : A.bits ≤ 64 := by cases A <;> decide

/-- Rounding down and cutting off the upper half commute. -/
theorem alignDescEnd_eq {alignment x : Nat} (hdvd : alignment ∣ 2 ^ A.bits) (hx : x < 2 ^ 64) :
    alignDescEnd A alignment x =
      ((x + 1 - (x + 1) % alignment) % 2 ^ A.bits + (2 ^ 64 - 1)) % 2 ^ 64 := by
  have hbits : 2 ^ A.bits ∣ 2 ^ 64 := Nat.pow_dvd_pow 2 (bits_le A)
  have hround : (x + 1) % 2 ^ A.bits - (x + 1) % alignment =
      (x + 1 - (x + 1) % alignment) % 2 ^ A.bits := by
    have hmod : (x + 1) % 2 ^ A.bits % alignment = (x + 1) % alignment := Nat.mod_mod_of_dvd _ hdvd
    have hle : (x + 1) % alignment ≤ (x + 1) % 2 ^ A.bits := by
      rw [← hmod]
      exact Nat.mod_le _ _
    have hlt : (x + 1) % 2 ^ A.bits < 2 ^ A.bits := Nat.mod_lt _ (Nat.two_pow_pos _)
    have hsplit := Nat.div_add_mod (x + 1) (2 ^ A.bits)
    have hwhole : x + 1 - (x + 1) % alignment =
        2 ^ A.bits * ((x + 1) / 2 ^ A.bits) + ((x + 1) % 2 ^ A.bits - (x + 1) % alignment) := by
      omega
    have hsmall : (x + 1) % 2 ^ A.bits - (x + 1) % alignment < 2 ^ A.bits :=
      Nat.lt_of_le_of_lt (Nat.sub_le _ _) hlt
    calc (x + 1) % 2 ^ A.bits - (x + 1) % alignment
      _ = ((x + 1) % 2 ^ A.bits - (x + 1) % alignment) % 2 ^ A.bits :=
          (Nat.mod_eq_of_lt hsmall).symm
      _ = (x + 1 - (x + 1) % alignment) % 2 ^ A.bits := by rw [hwhole, Nat.mul_add_mod]
  rw [alignDescEnd]
  rw [Nat.mod_mod_of_dvd _ hbits, Nat.mod_mod_of_dvd _ hdvd, hround]

/-- The search never loses a better end. -/
theorem search_foldl_max (A : Arch) (maxAddress noBytes alignment : Nat) (m : List MapEntry)
    (target : Nat) :
    target ≤ m.foldl (searchStep A maxAddress noBytes alignment) target ∧
      ∀ e ∈ m, e.type = .conventionalMemory → e.start < maxAddress →
        noBytes ≤ (descEnd A maxAddress alignment e + 2 ^ 64 - e.start + 1) % 2 ^ 64 →
        descEnd A maxAddress alignment e ≤
          m.foldl (searchStep A maxAddress noBytes alignment) target := by
  induction m generalizing target with
  | nil => exact ⟨le_refl _, by simp⟩
  | cons e m ih =>
    obtain ⟨hle, hall⟩ := ih (searchStep A maxAddress noBytes alignment target e)
    have hstep : target ≤ searchStep A maxAddress noBytes alignment target e := by
      rw [searchStep]
      split
      · dsimp only
        split
        · rename_i h
          exact h.2.le
        · exact le_refl _
      · exact le_refl _
    rw [List.foldl_cons]
    refine ⟨hstep.trans hle, fun x hx hconv hstart hfit => ?_⟩
    rcases List.mem_cons.mp hx with rfl | hx
    · refine le_trans ?_ hle
      rw [searchStep, if_pos ⟨hconv, hstart⟩]
      dsimp only
      by_cases hbest : target < descEnd A maxAddress alignment x
      · rw [if_pos ⟨hfit, hbest⟩]
      · rw [if_neg (fun h => hbest h.2)]
        exact Nat.le_of_not_lt hbest
    · exact hall x hx hconv hstart hfit

section Search

variable {s : MemState A} {limit n alignment : Nat}

/-- What is known of a free descriptor below the limit. -/
structure UsablePart (limit alignment : Nat) (e : MapEntry) : Prop where
  start_le : e.start ≤ usableEnd limit alignment e
  start_lt : alignment = 4096 → e.start < usableEnd limit alignment e
  le_last : usableEnd limit alignment e ≤ e.last + 1
  le_limit : usableEnd limit alignment e ≤ limit + 1
  aligned : usableEnd limit alignment e % alignment = 0
  highest : ∀ stop ≤ e.last + 1, stop ≤ limit + 1 → stop % alignment = 0 →
    stop ≤ usableEnd limit alignment e

theorem usablePart (hr : Request limit n alignment) (hlimit : 4095 ≤ limit) {e : MapEntry}
    (hp : PageRange e.start e.last) (hne : e.start ≤ e.last)
    (hstart : e.start < clipMaxAddress limit) : UsablePart limit alignment e := by
  obtain ⟨hclip, hle⟩ := clipMaxAddress_spec hlimit
  have hnext : limit < clipMaxAddress limit + 4096 := by
    rw [clipMaxAddress]
    split <;> omega
  have h1 := hp.start_aligned
  have h2 := hp.last_aligned
  set x := if clipMaxAddress limit ≤ e.last then clipMaxAddress limit else e.last with hx
  have hxs : (x + 1) % 4096 = 0 ∧ e.start < x ∧ x ≤ e.last ∧ x ≤ limit ∧
      (x = e.last ∨ limit < x + 4096) := by
    rw [hx]
    split <;> omega
  have hend : usableEnd limit alignment e = x + 1 - (x + 1) % alignment := rfl
  obtain rfl | rfl := hr.onePageOrTwo
  · refine ⟨?_, ?_, ?_, ?_, ?_, ?_⟩
    all_goals rw [hend]
    all_goals omega
  · refine ⟨?_, ?_, ?_, ?_, ?_, ?_⟩
    all_goals rw [hend]
    all_goals omega

theorem descEnd_eq (hr : Request limit n alignment) {e : MapEntry}
    (hp : PageRange e.start e.last) :
    descEnd A (clipMaxAddress limit) alignment e =
      (usableEnd limit alignment e % 2 ^ A.bits + (2 ^ 64 - 1)) % 2 ^ 64 := by
  have hlt := hp.lt
  rw [descEnd, alignDescEnd_eq (hr.alignment_dvd A)]
  · rfl
  · split <;> omega

/-- With its end in reach a descriptor is measured as it is. -/
theorem descEnd_inReach (hr : Request limit n alignment) {e : MapEntry}
    (hp : PageRange e.start e.last) (hu : UsablePart limit alignment e)
    (hreach : EndInReach A e.start (usableEnd limit alignment e)) :
    (n * 4096 ≤ (descEnd A (clipMaxAddress limit) alignment e + 2 ^ 64 - e.start + 1) % 2 ^ 64 ↔
      e.start + n * 4096 ≤ usableEnd limit alignment e) ∧
    (0 < usableEnd limit alignment e →
      descEnd A (clipMaxAddress limit) alignment e + 1 = usableEnd limit alignment e) := by
  have hlt := hp.lt
  have hle := hu.le_last
  have hstart := hu.start_le
  have hn := hr.bytes
  have hpos : 0 < n * 4096 := Nat.mul_pos (Nat.pos_of_ne_zero hr.pages) (by decide)
  have hbits : 2 ^ A.bits ≤ 2 ^ 64 := Nat.pow_le_pow_right (by decide) (bits_le A)
  rw [descEnd_eq hr hp]
  obtain hsmall | ⟨htop, hs⟩ := hreach
  · rw [Nat.mod_eq_of_lt hsmall]
    omega
  · have hzero : usableEnd limit alignment e % 2 ^ A.bits = 0 := by
      rw [htop]
      exact Nat.mod_eq_zero_of_dvd (Nat.pow_dvd_pow 2 (bits_le A))
    rw [hzero, htop]
    omega

/-- A base that fits lies in the usable part of a descriptor. -/
theorem Fits.candidate (hr : Request limit n alignment) (hlimit : 4095 ≤ limit)
    (hm : ∀ e ∈ s.memoryMap, PageRange e.start e.last)
    (hne : ∀ e ∈ s.memoryMap, e.start ≤ e.last) {base : Nat}
    (hf : Fits s limit n alignment base) : ∃ e, Candidate s limit e ∧
      UsablePart limit alignment e ∧ e.start ≤ base ∧
      base + n * 4096 ≤ usableEnd limit alignment e := by
  obtain ⟨hpos, haligned, ⟨e, he, hconv, hstart, hlast⟩, hbelow⟩ := hf
  have hnpos : 0 < n * 4096 := Nat.mul_pos (Nat.pos_of_ne_zero hr.pages) (by decide)
  have hpage : base % 4096 = 0 := by
    obtain rfl | rfl := hr.onePageOrTwo
    · exact haligned
    · omega
  have hclip : e.start < clipMaxAddress limit := by
    rw [clipMaxAddress]
    split <;> omega
  have hu := usablePart hr hlimit (hm e he) (hne e he) hclip
  refine ⟨e, ⟨he, hconv, hclip⟩, hu, hstart, hu.highest _ hlast hbelow ?_⟩
  rw [Nat.add_mod, haligned, hr.multiple, Nat.zero_add, Nat.zero_mod]

/-- With every end in reach, the base that is returned is the highest that fits. -/
theorem searchesExactly_of_inReach (hr : Request limit n alignment)
    (hm : ∀ e ∈ s.memoryMap, PageRange e.start e.last)
    (hne : ∀ e ∈ s.memoryMap, e.start ≤ e.last)
    (hreach : 4095 ≤ limit →
      ∀ e, Candidate s limit e → EndInReach A e.start (usableEnd limit alignment e)) :
    SearchesExactly s limit n alignment := by
  have hnpos : 0 < n * 4096 := Nat.mul_pos (Nat.pos_of_ne_zero hr.pages) (by decide)
  by_cases hlow : limit < 4095
  · have hzero : s.findFreePagesI limit n alignment = 0 := by
      rw [findFreePagesI, if_pos hlow]
    refine ⟨fun h => absurd hzero h, ?_⟩
    rintro - base' ⟨hpos, -, -, hbelow⟩
    omega
  have hlimit : 4095 ≤ limit := Nat.le_of_not_lt hlow
  replace hreach := hreach hlimit
  -- the best end is above that of every base that fits
  have hbest : ∀ base', Fits s limit n alignment base' →
      base' ≤ s.findFreePagesI limit n alignment := by
    intro base' hf
    obtain ⟨e, ⟨he, hconv, hclip⟩, hu, hstart, hroom⟩ := hf.candidate hr hlimit hm hne
    obtain ⟨hfit, hend⟩ := descEnd_inReach hr (hm e he) hu (hreach e ⟨he, hconv, hclip⟩)
    have hmax := (search_foldl_max A (clipMaxAddress limit) (n * 4096) alignment s.memoryMap 0).2
      e he hconv hclip (hfit.mpr (by omega))
    have hfold := search_foldl A (clipMaxAddress limit) (n * 4096) alignment s.memoryMap 0
    dsimp only at hfold
    rw [findFreePagesI, if_neg hlow, if_neg hr.pages, Nat.mod_eq_of_lt hr.bytes]
    dsimp only
    generalize s.memoryMap.foldl (searchStep A (clipMaxAddress limit) (n * 4096) alignment) 0 = t
      at hmax hfold ⊢
    have huse : 0 < usableEnd limit alignment e := by
      have hpos := hf.positive
      clear hmax hfold hfit hend
      omega
    have hend' := hend huse
    obtain hnone | ⟨e', he', hconv', hclip', ht, hfit'⟩ := hfold
    · omega
    · rw [ht] at hfit'
      have hu' := usablePart hr hlimit (hm e' he') (hne e' he') hclip'
      obtain ⟨hroom', hlast'⟩ := descEnd_inReach hr (hm e' he') hu'
        (hreach e' ⟨he', hconv', hclip'⟩)
      have hroom'' := hroom'.mp hfit'
      have hlast'' := hlast' (by omega)
      have haligned : usableEnd limit alignment e' % 4096 = 0 := by
        have h := hu'.aligned
        obtain rfl | rfl := hr.onePageOrTwo
        · exact h
        · omega
      have hle := hu'.le_last
      have hlt := (hm e' he').lt
      rw [if_pos (by omega)]
      omega
  refine ⟨fun hfound => ⟨?_, hbest⟩, fun hzero base' hf => ?_⟩
  · obtain ⟨-, -, -, e, he, hconv, hclip, hfit, heq⟩ := findFreePagesI_cases s hr.bytes hfound
    have hu := usablePart hr hlimit (hm e he) (hne e he) hclip
    obtain ⟨hroom, hlast⟩ := descEnd_inReach hr (hm e he) hu (hreach e ⟨he, hconv, hclip⟩)
    have hroom' := hroom.mp hfit
    have hlast' := hlast (by omega)
    have hle := hu.le_last
    have hlt := (hm e he).lt
    have hbase : s.findFreePagesI limit n alignment + n * 4096 = usableEnd limit alignment e := by
      rw [heq]
      omega
    refine ⟨Nat.pos_of_ne_zero hfound, ?_, ⟨e, he, hconv, by omega, by omega⟩, ?_⟩
    · have hsum := hu.aligned
      rw [← hbase, Nat.add_mod, hr.multiple, Nat.add_zero, Nat.mod_mod] at hsum
      exact hsum
    · have hbelow := hu.le_limit
      omega
  · have hle := hbest base' hf
    have hpos := hf.positive
    omega

/-- What the page searches are for, from one map: `FindFreePagesI` finds the highest base, and
    `FindFreePages` finds one that fits if `FindFreePagesI` would with the caller's limit. -/
def SearchesExactlyAlways (s : MemState A) : Prop :=
  ∀ limit n alignment, Request limit n alignment → SearchesExactly s limit n alignment ∧
    ∀ t, Fits s limit n alignment (s.findFreePagesI limit n alignment) →
      Fits s limit n alignment (s.findFreePages limit n t alignment)

/-- No page boundary in a free descriptor, or at its end, is out of the reach of a `UINTN`. -/
def InReach (A : Arch) (e : MapEntry) : Prop :=
  ∀ boundary, boundary % 4096 = 0 → e.start < boundary → boundary ≤ e.last + 1 →
    EndInReach A e.start boundary

/-- A descriptor in reach stays so when its end is clipped and rounded down. -/
theorem InReach.usableEnd {e : MapEntry} (h : InReach A e) (hr : Request limit n alignment)
    (hp : PageRange e.start e.last) (hne : e.start ≤ e.last)
    (hu : UsablePart limit alignment e) :
    EndInReach A e.start (usableEnd limit alignment e) := by
  have hstart := hp.start_aligned
  have hlast := hp.last_aligned
  have haligned := hu.aligned
  by_cases hlt : e.start < Mem.usableEnd limit alignment e
  · refine h _ ?_ hlt hu.le_last
    obtain h1 | h2 := hr.onePageOrTwo
    · rwa [h1] at haligned ⊢
    · rw [h2] at haligned ⊢
      omega
  · -- nothing of the descriptor is usable
    have heq : Mem.usableEnd limit alignment e = e.start := by
      have := hu.start_le
      omega
    rw [heq] at haligned ⊢
    have htwo : alignment = 8192 := hr.onePageOrTwo.resolve_left fun h1 => hlt (hu.start_lt h1)
    rw [htwo] at haligned
    obtain hsmall | ⟨htop, -⟩ := h (e.start + 4096) (by omega) (by omega) (by omega)
    · exact .inl (by omega)
    · omega

/-- A boundary out of reach is missed by the search for one page below it. -/
theorem inReach_of_searchesExactly (hspans : MapSpans s.memoryMap)
    (hm : ∀ e ∈ s.memoryMap, PageRange e.start e.last) {e : MapEntry} (he : e ∈ s.memoryMap)
    (hconv : e.type = .conventionalMemory) {boundary : Nat} (hpage : boundary % 4096 = 0)
    (hstart : e.start < boundary) (hlast : boundary ≤ e.last + 1)
    (hexact : SearchesExactly s (boundary - 1) 1 4096) : EndInReach A e.start boundary := by
  have hp := hm e he
  have h1 := hp.start_aligned
  have hlt := hp.lt
  rcases Nat.lt_or_ge boundary (2 ^ A.bits) with hsmall | hbig
  · exact .inl hsmall
  have hbits : 2 ^ 32 ≤ 2 ^ A.bits := A.two_pow_32_le
  have hr : Request (boundary - 1) 1 4096 :=
    ⟨by omega, by decide, by decide, .inl rfl, rfl⟩
  -- the page in front of the boundary is the highest that fits
  have hfits : Fits s (boundary - 1) 1 4096 (boundary - 4096) :=
    ⟨by omega, by omega, ⟨e, he, hconv, by omega, by omega⟩, by omega⟩
  obtain ⟨hfound, hnone⟩ := hexact
  have hne : s.findFreePagesI (boundary - 1) 1 4096 ≠ 0 := fun h0 => hnone h0 _ hfits
  obtain ⟨hf, hmax⟩ := hfound hne
  have hle := hmax _ hfits
  have hbelow := hf.below
  have hbase : s.findFreePagesI (boundary - 1) 1 4096 + 4096 = boundary := by omega
  obtain ⟨-, -, -, e', he', -, -, hfit, heq⟩ := findFreePagesI_cases s hr.bytes hne
  rw [descEnd_eq hr (hm e' he')] at hfit heq
  have hcut : usableEnd (boundary - 1) 4096 e' % 2 ^ A.bits < 2 ^ A.bits :=
    Nat.mod_lt _ (Nat.two_pow_pos _)
  generalize usableEnd (boundary - 1) 4096 e' % 2 ^ A.bits = cut at hcut hfit heq
  rw [heq] at hbase
  -- only the end of the 64-bit address space is left
  have htop : boundary = 2 ^ 64 ∧ cut = 0 := by
    have hbits' : 2 ^ A.bits ≤ 2 ^ 64 := Nat.pow_le_pow_right (by decide) (bits_le A)
    omega
  refine .inr ⟨htop.1, ?_⟩
  by_contra hzero
  -- a descriptor of the whole address space is alone, and its length wraps
  have hsame : e' = e := by
    by_contra hdiff
    have hkey : e'.home ≠ e.home := fun hkey =>
      hdiff (List.inj_on_of_nodup_map hspans.distinct he' he hkey)
    have hlt' := (hm e' he').lt
    have hne' := hspans.nonempty e' he'
    obtain h | h := hspans.apart e' he' e he hkey
    · omega
    · omega
  rw [hsame, htop.2] at hfit
  omega

/-- The searches on a map are exact if and only if the free memory of the map is in reach. -/
theorem searchesExactlyAlways_iff (s : MemState A) (hspans : MapSpans s.memoryMap)
    (hm : ∀ e ∈ s.memoryMap, PageRange e.start e.last) :
    SearchesExactlyAlways s ↔
      ∀ e ∈ s.memoryMap, e.type = .conventionalMemory → InReach A e := by
  constructor
  · intro h e he hconv boundary hpage hstart hlast
    have hr : Request (boundary - 1) 1 4096 := by
      have hlt := (hm e he).lt
      exact ⟨by omega, by decide, by decide, .inl rfl, rfl⟩
    exact inReach_of_searchesExactly hspans hm he hconv hpage hstart hlast (h _ _ _ hr).1
  · intro h
    have hexact : ∀ limit n alignment, Request limit n alignment →
        SearchesExactly s limit n alignment := by
      intro limit n alignment hr
      refine searchesExactly_of_inReach hr hm hspans.nonempty ?_
      rintro hlimit e ⟨he, hconv, hclip⟩
      have hu := usablePart hr hlimit (hm e he) (hspans.nonempty e he) hclip
      exact (h e he hconv).usableEnd hr (hm e he) (hspans.nonempty e he) hu
    intro limit n alignment hr
    refine ⟨hexact limit n alignment hr, fun t hf => ?_⟩
    have hlimit : Watermarks.limit s.watermark limit t ≤ limit := by
      cases t <;> first | exact Nat.min_le_left _ _ | exact le_refl _
    rw [findFreePages]
    by_cases hzero : s.findFreePagesI (Watermarks.limit s.watermark limit t) n alignment = 0
    · rw [if_pos hzero]
      exact hf
    · rw [if_neg hzero]
      have hr' : Request (Watermarks.limit s.watermark limit t) n alignment :=
        ⟨hlimit.trans_lt hr.limit_lt, hr.pages, hr.bytes, hr.onePageOrTwo, hr.multiple⟩
      obtain ⟨hf', -⟩ := (hexact _ n alignment hr').1 hzero
      exact ⟨hf'.positive, hf'.aligned, hf'.inside,
        hf'.below.trans (Nat.add_le_add_right hlimit 1)⟩

end Search

/-- Booted with one free descriptor. -/
def oneFreeRange (A : Arch) (start last : Nat) : MemState A :=
  { initializeMemoryMap A with memoryMap := [⟨.pool 0, .conventionalMemory, start, last, 0⟩] }

theorem oneFreeRange_spans (A : Arch) {start last : Nat} (hle : start ≤ last) :
    MapSpans (oneFreeRange A start last).memoryMap := by
  refine ⟨List.nodup_singleton _, fun e he => ?_, fun a ha b hb hkey => ?_⟩
  · rw [List.mem_singleton.mp he]
    exact hle
  · rw [List.mem_singleton.mp ha, List.mem_singleton.mp hb] at hkey
    exact absurd rfl hkey

theorem oneFreeRange_pages (A : Arch) {start last : Nat} (hp : PageRange start last) :
    ∀ e ∈ (oneFreeRange A start last).memoryMap, PageRange e.start e.last := by
  intro e he
  rw [List.mem_singleton.mp he]
  exact hp

/-- A megabyte of free memory at 1 MB. -/
theorem searchesExactlyAlways_oneMegabyte :
    SearchesExactlyAlways (oneFreeRange .efi32 0x100000 0x1FFFFF) := by
  refine (searchesExactlyAlways_iff _ (oneFreeRange_spans _ (by decide))
    (oneFreeRange_pages _ ⟨by decide, by decide, by decide⟩)).mpr ?_
  intro e he _ boundary _ _ hlast
  rw [List.mem_singleton.mp he] at hlast
  have hbound : boundary ≤ 0x200000 := hlast
  exact .inl (Nat.lt_of_le_of_lt hbound (by decide))

/-- With free memory up to 4 GB, a 32-bit processor is handed the last page of the 64-bit address
    space in place of the last page below 4 GB. -/
theorem not_searchesExactlyAlways_belowFourGigabytes :
    MapSpans (oneFreeRange .efi32 0x100000 0xFFFFFFFF).memoryMap ∧
      (∀ e ∈ (oneFreeRange .efi32 0x100000 0xFFFFFFFF).memoryMap, PageRange e.start e.last) ∧
      (oneFreeRange .efi32 0x100000 0xFFFFFFFF).findFreePagesI 0xFFFFFFFF 1 4096 =
        0xFFFFFFFFFFFFF000 ∧
      ¬ SearchesExactlyAlways (oneFreeRange .efi32 0x100000 0xFFFFFFFF) := by
  have hbase : (oneFreeRange .efi32 0x100000 0xFFFFFFFF).findFreePagesI 0xFFFFFFFF 1 4096 =
      0xFFFFFFFFFFFFF000 := by decide
  refine ⟨oneFreeRange_spans _ (by decide),
    oneFreeRange_pages _ ⟨by decide, by decide, by decide⟩, hbase, fun h => ?_⟩
  have hr : Request 0xFFFFFFFF 1 4096 := ⟨by decide, by decide, by decide, .inl rfl, rfl⟩
  obtain ⟨hfound, -⟩ := (h _ _ _ hr).1
  obtain ⟨hf, -⟩ := hfound (by rw [hbase]; decide)
  have hbelow := hf.below
  rw [hbase] at hbelow
  omega

end EfiCore.Mem
