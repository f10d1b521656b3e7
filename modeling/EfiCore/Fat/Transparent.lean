import EfiCore.Fat.Transfer

/-! # Transparency of the cache

A sequence of requests, followed by a flush, is to answer as the bytes of the volume would, to
leave these bytes on the device, and to report every failure of the device.  It does so as long as
every request is careful.
-/

namespace EfiCore.Fat

open EfiCore.Disk (driverLibMultU64x32_of_lt)
open EfiCore.Lib

variable {D : Drive} {L : Layout} {v v' : Volume} {bytes : List Byte}

/-! ## Flushing -/

theorem flushEntries_calls (D : Drive) (n : Nat) (cs : List CacheBuffer) (d : Device) :
    d.calls ≤ (Volume.flushEntries D n cs d).2.2.calls := by
  induction cs generalizing d with
  | nil => exact le_refl _
  | cons c cs ih =>
    rw [Volume.flushEntries]
    split
    · rw [Device.writeDisk]
      dsimp only
      split <;> split
      · exact Nat.le_succ _
      · exact (Nat.le_succ _).trans (ih ⟨_, d.calls + 1⟩)
      · exact Nat.le_succ _
      · exact (Nat.le_succ _).trans (ih ⟨_, d.calls + 1⟩)
    · exact ih d

theorem fatVolumeFlushCache_calls (D : Drive) (v : Volume) :
    v.device.calls ≤ (v.fatVolumeFlushCache D).2.device.calls := by
  rw [Volume.fatVolumeFlushCache]
  split
  · exact flushEntries_calls ..
  · exact le_refl _

/-- What the flush has done to the device. -/
structure Flushed (L : Layout) (bytes : List Byte) (cs : List CacheBuffer) (d d' : Device) : Prop
    where
  disk : d'.disk.length = bytes.length
  behind : d'.disk.drop L.size = bytes.drop L.size
  pages : ∀ p < L.pages, (page L.pageSize d.disk p = page L.pageSize bytes p ∨
    ∃ c ∈ cs, c.valid = true ∧ c.dirty = true ∧ c.pageNo = p) →
      page L.pageSize d'.disk p = page L.pageSize bytes p

theorem flushEntries_flushed {cs : List CacheBuffer} {d : Device} (hinside : L.size ≤ bytes.length)
    (hdisk : d.disk.length = bytes.length) (hbehind : d.disk.drop L.size = bytes.drop L.size)
    (hcached : ∀ c ∈ cs, c.valid = true →
      c.pageNo < L.pages ∧ c.data = page L.pageSize bytes c.pageNo) :
    (¬D.Failed d.calls (Volume.flushEntries D L.pageSize cs d).2.2.calls ∧
        (Volume.flushEntries D L.pageSize cs d).1 = .success ∧
        Flushed L bytes cs d (Volume.flushEntries D L.pageSize cs d).2.2) ∨
      D.Failed d.calls (Volume.flushEntries D L.pageSize cs d).2.2.calls ∧
        (Volume.flushEntries D L.pageSize cs d).1.isError = true := by
  induction cs generalizing d with
  | nil =>
    refine .inl ⟨Drive.not_failed_self _, rfl, hdisk, hbehind, ?_⟩
    rintro p hp (hpage | ⟨c, hc, -⟩)
    · exact hpage
    · cases hc
  | cons c cs ih =>
    have hcached' := fun c' hc' => hcached c' (List.mem_cons_of_mem c hc')
    rw [Volume.flushEntries]
    split
    case isTrue hdirty =>
      obtain ⟨hvalid, hmod⟩ := Bool.and_eq_true_iff.mp hdirty
      obtain ⟨hpage, hdata⟩ := hcached c List.mem_cons_self hvalid
      have hoffset := L.offset_lt (Nat.le_of_lt hpage)
      rw [Device.writeDisk, driverLibMultU64x32_of_lt (by omega)]
      cases hfate : D.fate d.calls with
      | none =>
        have hend : c.pageNo * L.pageSize + L.pageSize ≤ L.size := page_end_le _ hpage
        have hlen := length_page hinside hpage
        have hpages : ∀ q, page L.pageSize (splice d.disk (c.pageNo * L.pageSize) c.data) q =
            if q = c.pageNo then page L.pageSize bytes c.pageNo else page L.pageSize d.disk q := by
          intro q
          rw [hdata]
          exact page_splice_page (hdisk ▸ hinside) hinside hpage
        have hfits : c.pageNo * L.pageSize + c.data.length ≤ d.disk.length := by
          rw [hdata]
          omega
        have hnext := ih (d := ⟨splice d.disk (c.pageNo * L.pageSize) c.data, d.calls + 1⟩)
          ((length_splice hfits).trans hdisk)
          ((drop_splice hfits (by rw [hdata]; omega)).trans hbehind) hcached'
        simp only [Status.isError, ne_eq, not_true_eq_false, decide_false, Bool.false_eq_true,
          if_false]
        obtain ⟨hquiet, hsuccess, hflushed⟩ | ⟨hfailed, herror⟩ := hnext
        · refine .inl ⟨Drive.not_failed_append (Drive.not_failed_succ hfate) hquiet, hsuccess,
            hflushed.disk, hflushed.behind, ?_⟩
          intro p hp hwas
          apply hflushed.pages p hp
          rw [hpages]
          by_cases hpc : p = c.pageNo
          · left
            rw [if_pos hpc, hpc]
          · rw [if_neg hpc]
            refine hwas.imp id ?_
            rintro ⟨c', hc', hvalid', hmod', rfl⟩
            obtain rfl | hc' := List.mem_cons.mp hc'
            · exact absurd rfl hpc
            · exact ⟨c', hc', hvalid', hmod', rfl⟩
        · exact .inr ⟨hfailed.right (Nat.le_succ _), herror⟩
      | some fault =>
        right
        simp only [fault.isError, if_true]
        exact ⟨Drive.failed_succ hfate, trivial⟩
    case isFalse hclean =>
      obtain ⟨hquiet, hsuccess, hflushed⟩ | hfailed := ih hdisk hbehind hcached'
      · refine .inl ⟨hquiet, hsuccess, hflushed.disk, hflushed.behind, ?_⟩
        intro p hp hwas
        apply hflushed.pages p hp
        refine hwas.imp id ?_
        rintro ⟨c', hc', hvalid', hmod', rfl⟩
        obtain rfl | hc' := List.mem_cons.mp hc'
        · exact absurd (Bool.and_eq_true_iff.mpr ⟨hvalid', hmod'⟩) hclean
        · exact ⟨c', hc', hvalid', hmod', rfl⟩
      · exact .inr hfailed

/-- After the flush the device has the bytes, or a failure is reported. -/
theorem Holds.fatVolumeFlushCache (h : Holds D L v bytes) :
    Outcome D v (v.fatVolumeFlushCache D).2 (v.fatVolumeFlushCache D).1
      ((v.fatVolumeFlushCache D).2.device.disk = bytes) := by
  have hcached : ∀ c ∈ v.cache, c.valid = true →
      c.pageNo < L.pages ∧ c.data = page L.pageSize bytes c.pageNo := by
    intro c hc
    obtain ⟨i, hi, rfl⟩ := List.mem_iff_getElem.mp hc
    have hentry : v.entry i = v.cache[i] := by
      rw [Volume.entry, List.getD_eq_getElem?_getD, List.getElem?_eq_getElem hi, Option.getD_some]
    rw [← hentry]
    exact h.cached i (h.entries ▸ hi)
  have hflush := flushEntries_flushed (D := D) h.inside h.disk h.behind hcached
  rw [Volume.fatVolumeFlushCache, if_pos h.valid, h.pageSize]
  obtain ⟨hquiet, hsuccess, hflushed⟩ | ⟨hfailed, herror⟩ := hflush
  · refine .fine hquiet hsuccess (eq_of_pages (fun p hp => hflushed.pages p hp ?_) hflushed.behind)
    by_cases hdirty : ∃ i < fatCacheSize, (v.entry i).valid = true ∧ (v.entry i).dirty = true ∧
        (v.entry i).pageNo = p
    · obtain ⟨i, hi, hentry⟩ := hdirty
      refine .inr ⟨v.entry i, ?_, hentry⟩
      rw [Volume.entry, List.getD_eq_getElem?_getD, List.getElem?_eq_getElem (h.entry_lt hi),
        Option.getD_some]
      exact List.getElem_mem _
    · exact .inl (h.clean p hp fun i hi hvalid hmod heq => hdirty ⟨i, hi, hvalid, hmod, heq⟩)
  · exact .reported hfailed herror

/-! ## Sequences of requests -/

/-- What a request means. -/
def Request.effect (D : Drive) (bytes : List Byte) : Request → Answer × List Byte
  | .read offset buffer => (⟨.success, slice bytes offset buffer.length⟩, bytes)
  | .write offset bs =>
    if D.readOnly then (⟨.writeProtected, []⟩, bytes)
    else (⟨.success, []⟩, splice bytes offset bs)

def effectAll (D : Drive) : List Request → List Byte → List Answer × List Byte
  | [], bytes => ([], bytes)
  | r :: rs, bytes =>
    let (answer, bytes) := r.effect D bytes
    let (answers, bytes) := effectAll D rs bytes
    (answer :: answers, bytes)

/-- Every request is careful when it is made. -/
def CarefulAll (D : Drive) : List Request → Volume → Prop
  | [], _ => True
  | r :: rs, v => r.Careful D v ∧ CarefulAll D rs (r.perform D v).2

/-- A volume as `FatAllocateVolume` leaves it. -/
structure Fresh (D : Drive) (L : Layout) (v : Volume) : Prop where
  valid : v.valid = true
  media : v.mediaId = D.mediaId
  pageSize : v.cachePageSize = L.pageSize
  entries : v.cache.length = fatCacheSize
  inside : L.size ≤ v.device.disk.length
  data : ∀ i < fatCacheSize, (v.entry i).data.length = L.pageSize
  empty : ∀ i < fatCacheSize, (v.entry i).valid = false

theorem Fresh.holds (h : Fresh D L v) : Holds D L v v.device.disk where
  valid := h.valid
  media := h.media
  pageSize := h.pageSize
  entries := h.entries
  disk := rfl
  inside := h.inside
  data := h.data
  cached := fun i hi hvalid => absurd hvalid (Bool.eq_false_iff.mp (h.empty i hi))
  distinct := fun i hi _ _ hvalid => absurd hvalid (Bool.eq_false_iff.mp (h.empty i hi))
  clean := fun _ _ _ => rfl
  behind := rfl

theorem Holds.perform (h : Holds D L v bytes) {r : Request} (hinside : r.Inside L)
    (hcareful : r.Careful D v) :
    (¬D.Failed v.device.calls (r.perform D v).2.device.calls ∧
        (r.perform D v).1 = (r.effect D bytes).1 ∧
        Holds D L (r.perform D v).2 (r.effect D bytes).2) ∨
      D.Failed v.device.calls (r.perform D v).2.device.calls ∧
        (r.perform D v).1.status.isError = true := by
  cases r with
  | read offset buffer =>
    cases h.fatDiskIoReadVolume hinside hcareful with
    | fine hquiet hsuccess hgood =>
      left
      refine ⟨hquiet, ?_, hgood.2⟩
      rw [Request.effect, ← hgood.1, ← hsuccess]
      rfl
    | reported hfailed herror => exact .inr ⟨hfailed, herror⟩
  | write offset bs =>
    cases hreadOnly : D.readOnly with
    | true =>
      left
      rw [Request.perform, Request.effect, Volume.fatDiskIoWriteVolume, hreadOnly, if_pos rfl,
        if_pos rfl]
      exact ⟨Drive.not_failed_self _, rfl, h⟩
    | false =>
      rw [Request.effect, hreadOnly, if_neg Bool.false_ne_true]
      cases h.fatDiskIoWriteVolume hreadOnly hinside hcareful with
      | fine hquiet hsuccess hgood =>
        left
        refine ⟨hquiet, ?_, hgood⟩
        rw [← hsuccess]
        rfl
      | reported hfailed herror => exact .inr ⟨hfailed, herror⟩

theorem Holds.performAll (h : Holds D L v bytes) {rs : List Request}
    (hinside : ∀ r ∈ rs, r.Inside L) (hcareful : CarefulAll D rs v) :
    (¬D.Failed v.device.calls (performAll D rs v).2.device.calls ∧
        (performAll D rs v).1 = (effectAll D rs bytes).1 ∧
        Holds D L (performAll D rs v).2 (effectAll D rs bytes).2) ∨
      D.Failed v.device.calls (performAll D rs v).2.device.calls ∧
        ∃ answer ∈ (performAll D rs v).1, answer.status.isError = true := by
  induction rs generalizing v bytes with
  | nil => exact .inl ⟨Drive.not_failed_self _, rfl, h⟩
  | cons r rs ih =>
    obtain ⟨hr, hrs⟩ := hcareful
    have hcalls := r.perform_calls D v
    have hlater := performAll_calls D rs (r.perform D v).2
    obtain ⟨hquiet, hanswer, hholds⟩ | ⟨hfailed, herror⟩ :=
      h.perform (hinside r List.mem_cons_self) hr
    · obtain ⟨hquiet', hanswers, hholds'⟩ | ⟨hfailed, answer, hmem, herror⟩ :=
        ih hholds (fun r' hr' => hinside r' (List.mem_cons_of_mem r hr')) hrs
      · refine .inl ⟨Drive.not_failed_append hquiet hquiet', ?_, hholds'⟩
        exact congr (congrArg List.cons hanswer) hanswers
      · exact .inr ⟨hfailed.right hcalls, answer, List.mem_cons_of_mem _ hmem, herror⟩
    · exact .inr ⟨hfailed.left hlater, _, List.mem_cons_self, herror⟩

/-- The requests, and a flush behind them, are answered as the bytes of the device would be. -/
structure Transparent (D : Drive) (v : Volume) (rs : List Request) : Prop where
  answers : ¬D.Failed v.device.calls (performAll D rs v).2.device.calls →
    (performAll D rs v).1 = (effectAll D rs v.device.disk).1
  flushed : ¬D.Failed v.device.calls
      ((performAll D rs v).2.fatVolumeFlushCache D).2.device.calls →
    ((performAll D rs v).2.fatVolumeFlushCache D).1 = .success ∧
      ((performAll D rs v).2.fatVolumeFlushCache D).2.device.disk =
        (effectAll D rs v.device.disk).2
  reported : D.Failed v.device.calls
      ((performAll D rs v).2.fatVolumeFlushCache D).2.device.calls →
    (∃ answer ∈ (performAll D rs v).1, answer.status.isError = true) ∨
      ((performAll D rs v).2.fatVolumeFlushCache D).1.isError = true

/-- The cache is transparent in every run whose requests are careful. -/
theorem transparent_of_careful (D : Drive) (L : Layout) (v : Volume) (rs : List Request)
    (hfresh : Fresh D L v) (hinside : ∀ r ∈ rs, r.Inside L) (hcareful : CarefulAll D rs v) :
    Transparent D v rs := by
  have hcalls := performAll_calls D rs v
  have hflush := fatVolumeFlushCache_calls D (performAll D rs v).2
  obtain ⟨hquiet, hanswers, hholds⟩ | ⟨hfailed, herror⟩ :=
    hfresh.holds.performAll hinside hcareful
  · cases hholds.fatVolumeFlushCache with
    | fine hquiet' hsuccess hdisk =>
      exact ⟨fun _ => hanswers, fun _ => ⟨hsuccess, hdisk⟩,
        fun hfailed => absurd hfailed (Drive.not_failed_append hquiet hquiet')⟩
    | reported hfailed herror =>
      exact ⟨fun _ => hanswers, fun hnone => absurd (hfailed.right hcalls) hnone,
        fun _ => .inr herror⟩
  · exact ⟨fun hnone => absurd hfailed hnone, fun hnone => absurd (hfailed.left hflush) hnone,
      fun _ => .inl herror⟩

/-- Two pages of one sector, on a device that does not fail. -/
def twoPages : Layout where
  pageSize := 512
  pages := 2
  pageSize_pos := Nat.succ_pos 511
  pageSize_le := Nat.le_of_ble_eq_true rfl
  pages_lt := Nat.le_of_ble_eq_true rfl

def reliable : Drive := ⟨.efi64, 0, false, fun _ => none⟩

def blank : Volume where
  valid := true
  mediaId := 0
  cachePageSize := 512
  cache := List.replicate fatCacheSize ⟨false, false, 0, 0, List.replicate 512 0⟩
  device := ⟨List.replicate 1024 0, 0⟩

theorem blank_entry {i : Nat} (hi : i < fatCacheSize) :
    blank.entry i = ⟨false, false, 0, 0, List.replicate 512 0⟩ := by
  rw [Volume.entry, blank, List.getD_eq_getElem?_getD, List.getElem?_replicate, if_pos hi,
    Option.getD_some]

theorem blank_fresh : Fresh reliable twoPages blank where
  valid := rfl
  media := rfl
  pageSize := rfl
  entries := List.length_replicate
  inside := by
    rw [blank, List.length_replicate]
    decide
  data := by
    intro i hi
    rw [blank_entry hi, List.length_replicate]
    rfl
  empty := by
    intro i hi
    rw [blank_entry hi]

theorem transparent_blank : Transparent reliable blank [.write 0 [7], .read 0 [0]] := by
  refine transparent_of_careful reliable twoPages blank [.write 0 [7], .read 0 [0]] blank_fresh
    (List.forall_mem_cons.mpr ⟨show 1 ≤ 1024 by decide, List.forall_mem_singleton.mpr
      (show 1 ≤ 1024 by decide)⟩) ⟨?_, ?_, trivial⟩
  · refine ⟨fun hle => ?_, fun hle => ?_, fun _ _ _ _ _ => rfl⟩
    · exact absurd hle (by decide)
    · exact absurd hle (by decide)
  · refine ⟨fun hle => ?_, fun hle => ?_, fun _ _ _ _ _ => rfl⟩
    · exact absurd hle (by decide +kernel)
    · exact absurd hle (by decide +kernel)

/-- The cache is transparent, whatever the requests. -/
def AlwaysTransparent : Prop :=
  ∀ (D : Drive) (L : Layout) (v : Volume) (rs : List Request), Fresh D L v →
    (∀ r ∈ rs, r.Inside L) → Transparent D v rs

/-- A page that is read directly is taken from the device, though it is dirty in the cache. -/
theorem not_alwaysTransparent : ¬AlwaysTransparent := by
  intro hall
  have h := hall reliable twoPages blank [.write 0 [7], .read 0 (List.replicate 512 0)] blank_fresh
    (List.forall_mem_cons.mpr ⟨show 1 ≤ 1024 by decide, List.forall_mem_singleton.mpr
      (show 0 + (List.replicate 512 _).length ≤ 1024 by rw [List.length_replicate]; decide)⟩)
  have hanswers := h.answers fun ⟨_, _, _, hfate⟩ => Bool.false_ne_true hfate
  revert hanswers
  decide +kernel

end EfiCore.Fat
