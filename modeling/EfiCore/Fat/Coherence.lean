import EfiCore.Fat.Cache
import EfiCore.Lib.Paged

/-! # Coherence of the cache

`Holds` says which bytes a volume holds: those of its valid entries, and where no entry is dirty
those of the device.  What `FatGetCacheBuffer` does to a volume keeps them, unless a page that it
evicts cannot be written back.
-/

namespace EfiCore.Fat

open EfiCore.Disk (driverLibDivU64x32 driverLibDivU64x32_spec driverLibMultU64x32_of_lt)
open EfiCore.Lib

/-- The pages of a volume: they divide it, and its sectors are counted in 32 bits. -/
structure Layout where
  pageSize : Nat
  pages : Nat
  pageSize_pos : 0 < pageSize
  pageSize_le : pageSize ≤ fatCachePageMaxSize
  pages_lt : pages < 2 ^ 32

/-- `VolSize` -/
def Layout.size (L : Layout) : Nat := L.pages * L.pageSize

/-- The volume holds `bytes`. -/
structure Holds (D : Drive) (L : Layout) (v : Volume) (bytes : List Byte) : Prop where
  valid : v.valid = true
  media : v.mediaId = D.mediaId
  pageSize : v.cachePageSize = L.pageSize
  entries : v.cache.length = fatCacheSize
  disk : v.device.disk.length = bytes.length
  inside : L.size ≤ bytes.length
  data : ∀ i < fatCacheSize, (v.entry i).data.length = L.pageSize
  cached : ∀ i < fatCacheSize, (v.entry i).valid = true →
    (v.entry i).pageNo < L.pages ∧ (v.entry i).data = page L.pageSize bytes (v.entry i).pageNo
  distinct : ∀ i < fatCacheSize, ∀ j < fatCacheSize, (v.entry i).valid = true →
    (v.entry j).valid = true → (v.entry i).pageNo = (v.entry j).pageNo → i = j
  clean : ∀ p < L.pages, (∀ i < fatCacheSize, (v.entry i).valid = true →
    (v.entry i).dirty = true → (v.entry i).pageNo ≠ p) →
      page L.pageSize v.device.disk p = page L.pageSize bytes p
  behind : v.device.disk.drop L.size = bytes.drop L.size

/-- One of the calls from the `m`th to before the `n`th fails. -/
def Drive.Failed (D : Drive) (m n : Nat) : Prop := ∃ k, m ≤ k ∧ k < n ∧ (D.fate k).isSome

/-- The page in the entry can be written back, if it has to be. -/
def Volume.CanEvict (D : Drive) (v : Volume) (index : Nat) : Prop :=
  (v.entry index).valid = true → (v.entry index).dirty = true → D.fate v.device.calls = none

/-- If `FatGetCacheBuffer` evicts a dirty page, the page can be written back. -/
def Volume.EvictsSafely (D : Drive) (v : Volume) (pageNo : Nat) : Prop :=
  ∀ tally, search pageNo v.cache 0 ⟨0, 2 ^ D.arch.bits - 1, 0, none⟩ = .inr tally →
    v.CanEvict D (tally.freeIndex.getD tally.minLruIndex)

/-! ## Arithmetic of pages -/

namespace Layout

variable (L : Layout)

theorem pageSize_le_two_pow : L.pageSize ≤ 2 ^ 13 := L.pageSize_le

theorem size_lt : L.size < 2 ^ 45 := by
  have hpages := L.pages_lt
  calc L.pages * L.pageSize ≤ L.pages * 2 ^ 13 := Nat.mul_le_mul_left _ L.pageSize_le
    _ < 2 ^ 32 * 2 ^ 13 := by omega
    _ = 2 ^ 45 := by decide

theorem offset_lt {p : Nat} (hp : p ≤ L.pages) : p * L.pageSize < 2 ^ 45 :=
  Nat.lt_of_le_of_lt (Nat.mul_le_mul_right _ hp) L.size_lt

end Layout

variable {D : Drive} {L : Layout} {v v' : Volume} {bytes : List Byte}

theorem divided (A : Arch) {n : Nat} (hn : n ≤ L.size) :
    driverLibDivU64x32 A n L.pageSize = (n / L.pageSize, n % L.pageSize) ∧
      n / L.pageSize < 2 ^ 32 := by
  have hsize := L.size_lt
  have hpage := L.pageSize_le_two_pow
  refine ⟨(driverLibDivU64x32_spec A L.pageSize_pos (by omega)).2.2 (.inr (.inl (by omega))), ?_⟩
  refine Nat.lt_of_le_of_lt ?_ L.pages_lt
  rw [← Nat.mul_div_cancel L.pages L.pageSize_pos]
  exact Nat.div_le_div_right hn

namespace Holds

variable (h : Holds D L v bytes)

include h

theorem pageOffset {p : Nat} (hp : p ≤ L.pages) : v.pageOffset p = p * L.pageSize := by
  have := L.offset_lt hp
  rw [Volume.pageOffset, h.pageSize, driverLibMultU64x32_of_lt (by omega)]

theorem split {n : Nat} (hn : n ≤ L.size) :
    v.split D n = (n / L.pageSize, n % L.pageSize) := by
  obtain ⟨hdiv, hlt⟩ := divided D.arch hn
  have hbits := D.arch.two_pow_32_le
  rw [Volume.split, h.pageSize, hdiv]
  dsimp only
  rw [Nat.mod_eq_of_lt (Nat.lt_of_lt_of_le hlt hbits)]

theorem entry_lt {i : Nat} (hi : i < fatCacheSize) : i < v.cache.length := h.entries ▸ hi

end Holds

/-! ## Entries -/

theorem Volume.entry_setEntry {i : Nat} (hi : i < v.cache.length) (c : CacheBuffer) (j : Nat) :
    (v.setEntry i c).entry j = if j = i then c else v.entry j := by
  rw [Volume.entry, Volume.entry, Volume.setEntry, List.getD_eq_getElem?_getD,
    List.getD_eq_getElem?_getD, List.getElem?_set]
  by_cases hij : i = j
  · rw [if_pos hij, if_pos hij.symm, if_pos (hij ▸ hi), Option.getD_some]
  · rw [if_neg hij, if_neg (Ne.symm hij)]

/-- One more call of the device. -/
theorem Holds.called (h : Holds D L v bytes) (n : Nat) :
    Holds D L { v with device := { v.device with calls := n } } bytes where
  valid := h.valid
  media := h.media
  pageSize := h.pageSize
  entries := h.entries
  disk := h.disk
  inside := h.inside
  data := h.data
  cached := h.cached
  distinct := h.distinct
  clean := h.clean
  behind := h.behind

/-- Put an entry for a page in the place of another one. -/
theorem Holds.setEntry (h : Holds D L v bytes) {i : Nat} (hi : i < fatCacheSize) {c : CacheBuffer}
    {bytes' : List Byte} (hlen : bytes'.length = bytes.length)
    (hbehind : bytes'.drop L.size = bytes.drop L.size)
    (hpage : c.pageNo < L.pages) (hdata : c.data = page L.pageSize bytes' c.pageNo)
    (hunique : ∀ j < fatCacheSize, j ≠ i → (v.entry j).valid = true →
      (v.entry j).pageNo ≠ c.pageNo)
    (hothers : ∀ q < L.pages, q ≠ c.pageNo →
      page L.pageSize bytes' q = page L.pageSize bytes q)
    (hclean : c.valid = true ∧ c.dirty = true ∨
      page L.pageSize v.device.disk c.pageNo = page L.pageSize bytes' c.pageNo)
    (hold : (v.entry i).valid = true → (v.entry i).dirty = true → (v.entry i).pageNo ≠ c.pageNo →
      page L.pageSize v.device.disk (v.entry i).pageNo =
        page L.pageSize bytes (v.entry i).pageNo) :
    Holds D L (v.setEntry i c) bytes' := by
  have hentry := Volume.entry_setEntry (h.entry_lt hi) c
  refine
    { valid := h.valid
      media := h.media
      pageSize := h.pageSize
      entries := (List.length_set ..).trans h.entries
      disk := h.disk.trans hlen.symm
      inside := hlen ▸ h.inside
      data := ?_
      cached := ?_
      distinct := ?_
      clean := ?_
      behind := h.behind.trans hbehind.symm }
  · intro j hj
    rw [hentry]
    split
    · rw [hdata]
      exact length_page (hlen ▸ h.inside) hpage
    · exact h.data j hj
  · intro j hj
    rw [hentry]
    split
    case isTrue => exact fun _ => ⟨hpage, hdata⟩
    case isFalse hji =>
      intro hvalid
      obtain ⟨hlt, heq⟩ := h.cached j hj hvalid
      exact ⟨hlt, heq.trans (hothers _ hlt (hunique j hj hji hvalid)).symm⟩
  · intro j hj k hk hvj hvk heq
    rw [hentry] at hvj hvk heq
    rw [hentry] at heq
    by_cases hji : j = i <;> by_cases hki : k = i
    · exact hji.trans hki.symm
    · rw [if_pos hji, if_neg hki] at heq
      rw [if_neg hki] at hvk
      exact absurd heq.symm (hunique k hk hki hvk)
    · rw [if_neg hji, if_pos hki] at heq
      rw [if_neg hji] at hvj
      exact absurd heq (hunique j hj hji hvj)
    · rw [if_neg hji, if_neg hki] at heq
      rw [if_neg hji] at hvj
      rw [if_neg hki] at hvk
      exact h.distinct j hj k hk hvj hvk heq
  · intro p hp hdirty
    by_cases hpc : p = c.pageNo
    · subst hpc
      refine hclean.resolve_left fun hmod => ?_
      have hi' := hdirty i hi
      rw [hentry, if_pos rfl] at hi'
      exact hi' hmod.1 hmod.2 rfl
    · rw [hothers p hp hpc]
      by_cases hpi : (v.entry i).valid = true ∧ (v.entry i).dirty = true ∧ (v.entry i).pageNo = p
      · obtain ⟨hvalid, hmod, rfl⟩ := hpi
        exact hold hvalid hmod hpc
      · refine h.clean p hp fun j hj hvalid hmod heq => ?_
        by_cases hji : j = i
        · subst hji
          exact hpi ⟨hvalid, hmod, heq⟩
        · have hj' := hdirty j hj
          rw [hentry, if_neg hji] at hj'
          exact hj' hvalid hmod heq

/-- Write what the volume holds of a page to the device. -/
theorem Holds.wrote (h : Holds D L v bytes) {p : Nat} (hp : p < L.pages) (n : Nat) :
    Holds D L
        { v with device :=
          ⟨splice v.device.disk (p * L.pageSize) (page L.pageSize bytes p), n⟩ } bytes ∧
      page L.pageSize (splice v.device.disk (p * L.pageSize) (page L.pageSize bytes p)) p =
        page L.pageSize bytes p := by
  have hlen := length_page h.inside hp
  have hdisk : L.size ≤ v.device.disk.length := h.disk ▸ h.inside
  have hend : p * L.pageSize + L.pageSize ≤ L.size := page_end_le _ hp
  have hpages : ∀ q, page L.pageSize
      (splice v.device.disk (p * L.pageSize) (page L.pageSize bytes p)) q =
        if q = p then page L.pageSize bytes p else page L.pageSize v.device.disk q :=
    fun q => page_splice_page hdisk h.inside hp
  refine ⟨{ h with disk := ?_, clean := ?_, behind := ?_ }, (hpages p).trans (if_pos rfl)⟩
  · exact (length_splice (by omega)).trans h.disk
  · intro q hq hdirty
    refine (hpages q).trans ?_
    split
    case isTrue hqp => rw [hqp]
    case isFalse => exact h.clean q hq hdirty
  · exact (drop_splice (by omega) (by omega)).trans h.behind

/-! ## Calls that fail -/

theorem Drive.Failed.left {m n k : Nat} (h : D.Failed m n) (hk : n ≤ k) : D.Failed m k := by
  obtain ⟨i, hm, hn, hi⟩ := h
  exact ⟨i, hm, by omega, hi⟩

theorem Drive.Failed.right {m n k : Nat} (h : D.Failed n k) (hm : m ≤ n) : D.Failed m k := by
  obtain ⟨i, hn, hk, hi⟩ := h
  exact ⟨i, by omega, hk, hi⟩

theorem Drive.not_failed_append {m n k : Nat} (h : ¬D.Failed m n) (h' : ¬D.Failed n k) :
    ¬D.Failed m k := by
  rintro ⟨i, hm, hk, hi⟩
  by_cases hin : i < n
  · exact h ⟨i, hm, hin, hi⟩
  · exact h' ⟨i, by omega, hk, hi⟩

theorem Drive.not_failed_self (m : Nat) : ¬D.Failed m m := by
  rintro ⟨i, hm, hk, -⟩
  omega

theorem Drive.not_failed_succ {m : Nat} (h : D.fate m = none) : ¬D.Failed m (m + 1) := by
  rintro ⟨i, hm, hk, hi⟩
  have him : i = m := by omega
  rw [him, h] at hi
  cases hi

theorem Drive.failed_succ {m : Nat} {fault : Fault} (h : D.fate m = some fault) :
    D.Failed m (m + 1) := by
  refine ⟨m, le_refl m, Nat.lt_succ_self m, ?_⟩
  rw [h]
  rfl

/-- Either no call failed and all is well, or a call failed and the status says so. -/
inductive Outcome (D : Drive) (v v' : Volume) (status : Status) (good : Prop) : Prop
  | fine (quiet : ¬D.Failed v.device.calls v'.device.calls) (success : status = .success)
      (h : good)
  | reported (failed : D.Failed v.device.calls v'.device.calls) (error : status.isError = true)

theorem Outcome.after {v'' : Volume} {status : Status} {good : Prop}
    (h : Outcome D v' v'' status good) (hcalls : v.device.calls ≤ v'.device.calls)
    (hquiet : ¬D.Failed v.device.calls v'.device.calls) : Outcome D v v'' status good := by
  cases h with
  | fine hquiet' hsuccess hgood =>
    exact .fine (Drive.not_failed_append hquiet hquiet') hsuccess hgood
  | reported hfailed herror => exact .reported (hfailed.right hcalls) herror

theorem Volume.writeBack_calls (D : Drive) (i : Nat) (v : Volume) :
    v.device.calls ≤ (v.writeBack D i).device.calls := by
  rw [Volume.writeBack]
  split
  · rw [Device.writeDisk]
    dsimp only
    split <;> split <;> exact Nat.le_succ _
  · exact le_refl _

theorem Volume.load_calls (D : Drive) (i pageNo lru : Nat) (v : Volume) :
    v.device.calls ≤ (v.load D i pageNo lru).2.device.calls := by
  rw [Volume.load]
  split
  · rw [Device.readDisk]
    dsimp only
    split <;> split <;> exact Nat.le_succ _
  · exact le_refl _

theorem Volume.fatGetCacheBuffer_calls (D : Drive) (pageNo : Nat) (v : Volume) :
    v.device.calls ≤ (v.fatGetCacheBuffer D pageNo).2.device.calls := by
  rw [Volume.fatGetCacheBuffer]
  split
  · exact le_refl _
  · exact (Volume.writeBack_calls ..).trans (Volume.load_calls ..)

/-! ## `FatGetCacheBuffer` -/

/-- The page of the entry, if it is dirty, is on the device. -/
def Volume.Flushed (L : Layout) (v : Volume) (index : Nat) (bytes : List Byte) : Prop :=
  (v.entry index).valid = true → (v.entry index).dirty = true →
    page L.pageSize v.device.disk (v.entry index).pageNo =
      page L.pageSize bytes (v.entry index).pageNo

theorem Holds.writeBack (h : Holds D L v bytes) {i : Nat} (hi : i < fatCacheSize)
    (hevict : v.CanEvict D i) :
    Holds D L (v.writeBack D i) bytes ∧ (v.writeBack D i).Flushed L i bytes ∧
      (v.writeBack D i).cache = v.cache ∧
      ¬D.Failed v.device.calls (v.writeBack D i).device.calls := by
  rw [Volume.writeBack]
  by_cases hdirty : ((v.entry i).valid && (v.entry i).dirty) = true
  · rw [if_pos hdirty]
    obtain ⟨hvalid, hmod⟩ := Bool.and_eq_true_iff.mp hdirty
    obtain ⟨hpage, hdata⟩ := h.cached i hi hvalid
    have hfate := hevict hvalid hmod
    have hoffset := h.pageOffset (Nat.le_of_lt hpage)
    obtain ⟨hholds, hwritten⟩ := h.wrote hpage (v.device.calls + 1)
    rw [← hdata] at hholds hwritten
    simp only [Device.writeDisk, hfate, hoffset, Status.isError, ne_eq, not_true_eq_false,
      decide_false, Bool.false_eq_true, if_false]
    refine ⟨hholds, ?_, trivial, Drive.not_failed_succ hfate⟩
    intro _ _
    exact hwritten.trans hdata
  · rw [if_neg hdirty]
    refine ⟨h, ?_, rfl, Drive.not_failed_self _⟩
    intro hvalid hmod
    exact absurd (Bool.and_eq_true_iff.mpr ⟨hvalid, hmod⟩) hdirty

/-- The entry holds the page. -/
structure Got (D : Drive) (L : Layout) (v : Volume) (bytes : List Byte) (index pageNo : Nat) :
    Prop where
  holds : Holds D L v bytes
  index_lt : index < fatCacheSize
  valid : (v.entry index).valid = true
  pageNo : (v.entry index).pageNo = pageNo

theorem Holds.load (h : Holds D L v bytes) {i pageNo : Nat} (lru : Nat) (hi : i < fatCacheSize)
    (hpage : pageNo < L.pages) (hflushed : v.Flushed L i bytes)
    (hmiss : ∀ j < fatCacheSize, (v.entry j).valid = true → (v.entry j).pageNo ≠ pageNo) :
    (∃ v', v.load D i pageNo lru = (.ok i, v') ∧ Got D L v' bytes i pageNo ∧
        ¬D.Failed v.device.calls v'.device.calls) ∨
      ∃ status v', v.load D i pageNo lru = (.error status, v') ∧ status.isError = true ∧
        D.Failed v.device.calls v'.device.calls := by
  rw [Volume.load, if_pos h.valid, Device.readDisk]
  cases hfate : D.fate v.device.calls with
  | none =>
    left
    have hread : slice v.device.disk (v.pageOffset pageNo) (v.entry i).data.length =
        page L.pageSize v.device.disk pageNo := by
      rw [h.pageOffset (Nat.le_of_lt hpage), h.data i hi]
      rfl
    have hclean : page L.pageSize v.device.disk pageNo = page L.pageSize bytes pageNo :=
      h.clean pageNo hpage fun j hj hvalid _ => hmiss j hj hvalid
    have hset := (h.setEntry (c := ⟨true, false, pageNo, lru, page L.pageSize v.device.disk pageNo⟩)
      hi rfl rfl hpage hclean (fun j hj _ hvalid => hmiss j hj hvalid) (fun _ _ _ => rfl)
      (.inr hclean) fun hvalid hmod _ => hflushed hvalid hmod).called (v.device.calls + 1)
    have hentry := Volume.entry_setEntry (h.entry_lt hi)
      ⟨true, false, pageNo, lru, page L.pageSize v.device.disk pageNo⟩ i
    rw [if_pos rfl] at hentry
    simp only [hread, Status.isError, ne_eq, not_true_eq_false, decide_false, Bool.false_eq_true,
      if_false]
    refine ⟨_, rfl, ⟨hset, hi, ?_, ?_⟩, Drive.not_failed_succ hfate⟩
    · exact congrArg CacheBuffer.valid hentry
    · exact congrArg CacheBuffer.pageNo hentry
  | some fault =>
    right
    simp only [fault.isError, if_true]
    exact ⟨_, _, rfl, fault.isError, Drive.failed_succ hfate⟩

theorem search_hit {pageNo n i : Nat} {cs : List CacheBuffer} {tally : Tally}
    (h : search pageNo cs n tally = .inl i) :
    ∃ c, n ≤ i ∧ cs[i - n]? = some c ∧ c.valid = true ∧ c.pageNo = pageNo := by
  induction cs generalizing n tally with
  | nil => cases h
  | cons c cs ih =>
    rw [search] at h
    have hlater : ∀ {tally'}, search pageNo cs (n + 1) tally' = .inl i →
        ∃ c', n ≤ i ∧ (c :: cs)[i - n]? = some c' ∧ c'.valid = true ∧ c'.pageNo = pageNo := by
      intro tally' h'
      obtain ⟨c', hle, hget, hc'⟩ := ih h'
      refine ⟨c', by omega, ?_, hc'⟩
      rw [show i - n = i - (n + 1) + 1 by omega, List.getElem?_cons_succ]
      exact hget
    split at h
    case isTrue hvalid =>
      split at h
      case isTrue hpage =>
        cases h
        exact ⟨c, le_refl i, by rw [Nat.sub_self]; rfl, hvalid, hpage⟩
      case isFalse => exact hlater h
    case isFalse => exact hlater h

/-- The indices of a tally are below `n`. -/
def Tally.Below (n : Nat) (tally : Tally) : Prop :=
  tally.minLruIndex < n ∧ ∀ i ∈ tally.freeIndex, i < n

theorem Tally.Below.note {m index : Nat} {tally : Tally} (h : tally.Below m) (hindex : index < m)
    (lru : Nat) : (tally.note index lru).Below m := by
  rw [Tally.note]
  by_cases hmax : tally.maxLru < lru <;> by_cases hmin : lru < tally.minLru
  · rw [if_pos hmax, if_pos hmin]
    exact ⟨hindex, h.2⟩
  · rw [if_pos hmax, if_neg hmin]
    exact h
  · rw [if_neg hmax, if_pos hmin]
    exact ⟨hindex, h.2⟩
  · rw [if_neg hmax, if_neg hmin]
    exact h

theorem search_miss {pageNo n m : Nat} {cs : List CacheBuffer} {tally tally' : Tally}
    (h : search pageNo cs n tally = .inr tally') (hm : n + cs.length ≤ m)
    (htally : tally.Below m) :
    tally'.Below m ∧ ∀ c ∈ cs, c.valid = true → c.pageNo ≠ pageNo := by
  induction cs generalizing n tally with
  | nil =>
    cases h
    exact ⟨htally, fun c hc => by cases hc⟩
  | cons c cs ih =>
    rw [List.length_cons] at hm
    rw [search] at h
    split at h
    case isTrue =>
      split at h
      case isTrue => cases h
      case isFalse hpage =>
        obtain ⟨hbelow', hmiss⟩ := ih h (by omega) (htally.note (by omega) c.lru)
        refine ⟨hbelow', ?_⟩
        rintro d (_ | ⟨_, hd⟩)
        · exact fun _ => hpage
        · exact hmiss d hd
    case isFalse hvalid =>
      have hbelow : Tally.Below m { tally with freeIndex := some n } := by
        refine ⟨htally.1, ?_⟩
        rintro _ ⟨⟩
        omega
      obtain ⟨hbelow', hmiss⟩ := ih h (by omega) hbelow
      refine ⟨hbelow', ?_⟩
      rintro d (_ | ⟨_, hd⟩)
      · exact fun hv => absurd hv hvalid
      · exact hmiss d hd

/-- `FatGetCacheBuffer` gets the page and keeps what the volume holds, or it reports a failure. -/
theorem Holds.fatGetCacheBuffer (h : Holds D L v bytes) {pageNo : Nat} (hpage : pageNo < L.pages)
    (hevict : v.EvictsSafely D pageNo) :
    (∃ i v', v.fatGetCacheBuffer D pageNo = (.ok i, v') ∧ Got D L v' bytes i pageNo ∧
        ¬D.Failed v.device.calls v'.device.calls) ∨
      ∃ status v', v.fatGetCacheBuffer D pageNo = (.error status, v') ∧ status.isError = true ∧
        D.Failed v.device.calls v'.device.calls := by
  rw [Volume.fatGetCacheBuffer]
  cases hsearch : search pageNo v.cache 0 ⟨0, 2 ^ D.arch.bits - 1, 0, none⟩ with
  | inl i =>
    left
    obtain ⟨c, -, hget, hvalid, hno⟩ := search_hit hsearch
    rw [Nat.sub_zero] at hget
    have hi : i < fatCacheSize := h.entries ▸ (List.getElem?_eq_some_iff.mp hget).1
    have hc : v.entry i = c := by
      rw [Volume.entry, List.getD_eq_getElem?_getD, hget, Option.getD_some]
    subst hc
    obtain ⟨hlt, hdata⟩ := h.cached i hi hvalid
    have hunique : ∀ j < fatCacheSize, j ≠ i → (v.entry j).valid = true →
        (v.entry j).pageNo ≠ (v.entry i).pageNo :=
      fun j hj hji hvj heq => hji (h.distinct j hj i hi hvj hvalid heq)
    have hclean : (v.entry i).valid = true ∧ (v.entry i).dirty = true ∨
        page L.pageSize v.device.disk (v.entry i).pageNo =
          page L.pageSize bytes (v.entry i).pageNo := by
      by_cases hmod : (v.entry i).dirty = true
      · exact .inl ⟨hvalid, hmod⟩
      · refine .inr (h.clean _ hlt fun j hj hvj hmodj heq => hmod ?_)
        rw [← h.distinct j hj i hi hvj hvalid heq]
        exact hmodj
    have hset := h.setEntry
      (c := { v.entry i with lru := D.arch.add (v.entry i).lru 1 }) hi rfl rfl hlt hdata hunique
      (fun _ _ _ => rfl) hclean (fun _ _ hne => absurd rfl hne)
    have hentry := Volume.entry_setEntry (h.entry_lt hi)
      { v.entry i with lru := D.arch.add (v.entry i).lru 1 } i
    rw [if_pos rfl] at hentry
    refine ⟨i, _, rfl, ⟨hset, hi, ?_, ?_⟩, Drive.not_failed_self _⟩
    · exact (congrArg CacheBuffer.valid hentry).trans hvalid
    · exact (congrArg CacheBuffer.pageNo hentry).trans hno
  | inr tally =>
    have hstart : Tally.Below fatCacheSize ⟨0, 2 ^ D.arch.bits - 1, 0, none⟩ :=
      ⟨show 0 < fatCacheSize by decide, fun i hi => by cases hi⟩
    obtain ⟨hbelow, hmiss⟩ := search_miss (m := fatCacheSize) hsearch
      (by rw [Nat.zero_add, h.entries]) hstart
    have hi : tally.freeIndex.getD tally.minLruIndex < fatCacheSize := by
      cases hfree : tally.freeIndex with
      | none => exact hbelow.1
      | some i => exact hbelow.2 i hfree
    obtain ⟨hback, hflushed, hcache, hquiet⟩ := h.writeBack hi (hevict tally hsearch)
    have hmiss' : ∀ j < fatCacheSize,
        ((v.writeBack D (tally.freeIndex.getD tally.minLruIndex)).entry j).valid = true →
        ((v.writeBack D (tally.freeIndex.getD tally.minLruIndex)).entry j).pageNo ≠ pageNo := by
      intro j hj
      have hlt := h.entry_lt hj
      rw [Volume.entry, hcache, List.getD_eq_getElem?_getD, List.getElem?_eq_getElem hlt]
      exact hmiss _ (List.getElem_mem hlt)
    obtain ⟨v', hload, hgot, hquiet'⟩ | ⟨status, v', hload, herror, hfailed⟩ :=
      hback.load tally.maxLru hi hpage hflushed hmiss'
    · exact .inl ⟨_, v', hload, hgot, Drive.not_failed_append hquiet hquiet'⟩
    · exact .inr ⟨status, v', hload, herror, hfailed.right (Volume.writeBack_calls ..)⟩

end EfiCore.Fat
