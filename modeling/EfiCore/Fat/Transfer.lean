import EfiCore.Fat.Coherence

/-! # Reads and writes through the cache

The conditions under which a request treats the cached pages as it should, and that it then
transfers its bytes or reports a failure.
-/

namespace EfiCore.Fat

open EfiCore.Lib

/-! ## The conditions -/

namespace Volume

variable (D : Drive)

/-- One more call of the device. -/
def called (v : Volume) : Volume :=
  { v with device := { v.device with calls := v.device.calls + 1 } }

/-- Of `rest` bytes that are read from a page on, no page that is read directly is dirty in the
    cache, and no failure is hidden behind the part of the last page. -/
structure ReadsSafely (v : Volume) (pageNo rest : Nat) : Prop where
  direct : v.cachePageSize ≤ rest → ∀ i < fatCacheSize, (v.entry i).valid = true →
    (v.entry i).dirty = true → (v.entry i).pageNo < pageNo ∨
      pageNo + rest / v.cachePageSize ≤ (v.entry i).pageNo
  reports : v.cachePageSize ≤ rest → rest % v.cachePageSize ≠ 0 → D.fate v.device.calls = none
  evicts : rest % v.cachePageSize ≠ 0 →
    (if v.cachePageSize ≤ rest then v.called else v).EvictsSafely D
      (pageNo + rest / v.cachePageSize)

/-- Of `rest` bytes that are written from a page on, the page behind those that are written
    directly is not dirty in the cache, and no failure is hidden. -/
structure WritesSafely (v : Volume) (pageNo rest : Nat) : Prop where
  direct : v.cachePageSize ≤ rest → ∀ i < fatCacheSize, (v.entry i).valid = true →
    (v.entry i).dirty = true → (v.entry i).pageNo ≠ pageNo + rest / v.cachePageSize
  reports : v.cachePageSize ≤ rest → rest % v.cachePageSize ≠ 0 → D.fate v.device.calls = none
  evicts : rest % v.cachePageSize ≠ 0 →
    (if v.cachePageSize ≤ rest then
        v.called.fatCacheFlushRange pageNo (pageNo + rest / v.cachePageSize) else v).EvictsSafely D
      (pageNo + rest / v.cachePageSize)

end Volume

/-- The request treats the cached pages as it should. -/
def Request.Careful (D : Drive) (v : Volume) : Request → Prop
  | .read offset buffer =>
    let (pageNo, underRun) := v.split D offset
    if underRun = 0 then v.ReadsSafely D pageNo buffer.length
    else
      v.EvictsSafely D pageNo ∧
        let length := min (v.cachePageSize - underRun) buffer.length
        length < buffer.length →
          (v.fatGetCacheBuffer D pageNo).2.ReadsSafely D (pageNo + 1) (buffer.length - length)
  | .write offset bytes =>
    let (pageNo, underRun) := v.split D offset
    if underRun = 0 then v.WritesSafely D pageNo bytes.length
    else
      v.EvictsSafely D pageNo ∧
        let length := min (v.cachePageSize - underRun) bytes.length
        length < bytes.length → ∀ i, (v.fatGetCacheBuffer D pageNo).1 = .ok i →
          ((v.fatGetCacheBuffer D pageNo).2.modify i underRun (slice bytes 0 length)).WritesSafely D
            (pageNo + 1) (bytes.length - length)

/-- A request inside the volume. -/
def Request.Inside (L : Layout) : Request → Prop
  | .read offset buffer => offset + buffer.length ≤ L.size
  | .write offset bytes => offset + bytes.length ≤ L.size

variable {D : Drive} {L : Layout} {v v' : Volume} {bytes : List Byte}

theorem Volume.EvictsSafely.congr {pageNo : Nat} (h : v.EvictsSafely D pageNo)
    (hcache : v'.cache = v.cache) (hcalls : v'.device.calls = v.device.calls) :
    v'.EvictsSafely D pageNo := by
  intro tally hsearch
  rw [hcache] at hsearch
  have hevict := h tally hsearch
  rw [Volume.CanEvict, Volume.entry] at hevict ⊢
  rwa [hcache, hcalls]

/-! ## Calls -/

namespace Volume

variable (D)

theorem readOverRun_calls (pageNo done overRun : Nat) (status : Status) (buffer : List Byte)
    (v : Volume) :
    v.device.calls ≤ (v.readOverRun D pageNo done overRun status buffer).2.2.device.calls := by
  have hget := v.fatGetCacheBuffer_calls D pageNo
  rw [readOverRun]
  cases hresult : v.fatGetCacheBuffer D pageNo with
  | mk result v' =>
    rw [hresult] at hget
    split
    · cases result <;> exact hget
    · exact le_refl _

theorem readDirect_calls (pageNo done size : Nat) (buffer : List Byte) (v : Volume) :
    v.device.calls ≤ (v.readDirect D pageNo done size buffer).2.2.device.calls := by
  rw [readDirect, Device.readDisk]
  dsimp only
  split <;> exact Nat.le_succ _

theorem readRest_calls (pageNo done : Nat) (buffer : List Byte) (v : Volume) :
    v.device.calls ≤ (v.readRest D pageNo done buffer).2.2.device.calls := by
  rw [readRest]
  dsimp only
  split
  · refine (v.readDirect_calls D pageNo done
      (buffer.length - done - (v.split D (buffer.length - done)).2) buffer).trans ?_
    split
    · exact readOverRun_calls ..
    · exact le_refl _
  · exact readOverRun_calls ..

theorem fatDiskIoReadVolume_calls (offset : Nat) (buffer : List Byte) (v : Volume) :
    v.device.calls ≤ (v.fatDiskIoReadVolume D offset buffer).2.2.device.calls := by
  have hget := v.fatGetCacheBuffer_calls D (v.split D offset).1
  rw [fatDiskIoReadVolume]
  dsimp only
  cases hresult : v.fatGetCacheBuffer D (v.split D offset).1 with
  | mk result v' =>
    rw [hresult] at hget
    split
    · exact le_refl _
    · split
      · exact le_refl _
      · split
        · cases result with
          | error status => exact hget
          | ok index =>
            dsimp only
            split
            · exact hget
            · exact hget.trans (readRest_calls ..)
        · exact readRest_calls ..

theorem writeOverRun_calls (pageNo done overRun : Nat) (status : Status) (bytes : List Byte)
    (v : Volume) :
    v.device.calls ≤ (v.writeOverRun D pageNo done overRun status bytes).2.device.calls := by
  have hget := v.fatGetCacheBuffer_calls D pageNo
  rw [writeOverRun]
  cases hresult : v.fatGetCacheBuffer D pageNo with
  | mk result v' =>
    rw [hresult] at hget
    split
    · cases result <;> exact hget
    · exact le_refl _

theorem writeDirect_calls (pageNo done size : Nat) (bytes : List Byte) (v : Volume) :
    v.device.calls ≤ (v.writeDirect D pageNo done size bytes).2.device.calls := by
  rw [writeDirect, Device.writeDisk]
  dsimp only
  split <;> exact Nat.le_succ _

theorem writeRest_calls (pageNo done : Nat) (bytes : List Byte) (v : Volume) :
    v.device.calls ≤ (v.writeRest D pageNo done bytes).2.device.calls := by
  rw [writeRest]
  dsimp only
  split
  · refine (v.writeDirect_calls D pageNo done
      (bytes.length - done - (v.split D (bytes.length - done)).2) bytes).trans ?_
    split
    · refine le_trans ?_ (writeOverRun_calls ..)
      exact le_refl _
    · exact le_refl _
  · exact writeOverRun_calls ..

theorem fatDiskIoWriteVolume_calls (offset : Nat) (bytes : List Byte) (v : Volume) :
    v.device.calls ≤ (v.fatDiskIoWriteVolume D offset bytes).2.device.calls := by
  have hget := v.fatGetCacheBuffer_calls D (v.split D offset).1
  rw [fatDiskIoWriteVolume]
  dsimp only
  cases hresult : v.fatGetCacheBuffer D (v.split D offset).1 with
  | mk result v' =>
    rw [hresult] at hget
    split
    · exact le_refl _
    · split
      · exact le_refl _
      · split
        · exact le_refl _
        · split
          · cases result with
            | error status => exact hget
            | ok index =>
              dsimp only
              split
              · exact hget
              · refine hget.trans (le_trans ?_ (writeRest_calls ..))
                exact le_refl _
          · exact writeRest_calls ..

end Volume

theorem Request.perform_calls (D : Drive) (v : Volume) (r : Request) :
    v.device.calls ≤ (r.perform D v).2.device.calls := by
  cases r with
  | read offset buffer => exact v.fatDiskIoReadVolume_calls D offset buffer
  | write offset bytes => exact v.fatDiskIoWriteVolume_calls D offset bytes

theorem performAll_calls (D : Drive) (rs : List Request) (v : Volume) :
    v.device.calls ≤ (performAll D rs v).2.device.calls := by
  induction rs generalizing v with
  | nil => exact le_refl _
  | cons r rs ih => exact (r.perform_calls D v).trans (ih _)

/-! ## Reading -/

/-- The first `done` bytes of the buffer are those of the volume from `offset` on. -/
def Filled (bytes : List Byte) (offset done : Nat) (buffer : List Byte) : Prop :=
  slice buffer 0 done = slice bytes offset done

theorem Filled.splice {offset done n : Nat} {buffer bs : List Byte}
    (h : Filled bytes offset done buffer) (hbs : bs = slice bytes (offset + done) n)
    (hn : bs.length = n) (hroom : done + n ≤ buffer.length) :
    Filled bytes offset (done + n) (splice buffer done bs) := by
  subst hn
  rw [Filled, slice_append_slice, slice_append_slice, Nat.zero_add, slice_splice hroom,
    slice_splice_of_disjoint hroom (.inl (by omega)), h, ← hbs]

theorem Filled.all {offset : Nat} {buffer : List Byte}
    (h : Filled bytes offset buffer.length buffer) : buffer = slice bytes offset buffer.length := by
  rw [← h, slice_all]

/-- What a read is to do. -/
def ReadDone (D : Drive) (L : Layout) (v : Volume) (bytes : List Byte) (offset n : Nat)
    (result : Status × List Byte × Volume) : Prop :=
  Outcome D v result.2.2 result.1 (result.2.1 = slice bytes offset n ∧ Holds D L result.2.2 bytes)

theorem Layout.page_lt {p n : Nat} (hn : n ≠ 0) (h : p * L.pageSize + n ≤ L.size) : p < L.pages := by
  by_contra hle
  have := Nat.mul_le_mul_right L.pageSize (Nat.le_of_not_lt hle)
  rw [Layout.size] at h
  omega

theorem Holds.readOverRun (h : Holds D L v bytes) (pageNo : Nat) {offset done : Nat}
    (overRun : Nat) {buffer : List Byte} (hfilled : Filled bytes offset done buffer)
    (hstart : offset + done = pageNo * L.pageSize) (hend : done + overRun = buffer.length)
    (hlt : overRun < L.pageSize) (hinside : offset + buffer.length ≤ L.size)
    (hevict : overRun ≠ 0 → v.EvictsSafely D pageNo) :
    ReadDone D L v bytes offset buffer.length
      (v.readOverRun D pageNo done overRun .success buffer) := by
  rw [Volume.readOverRun]
  split
  case isTrue hne =>
    have hpage : pageNo < L.pages := L.page_lt hne (by omega)
    obtain ⟨i, v', hget, hgot, hquiet⟩ | ⟨status, v', hget, herror, hfailed⟩ :=
      h.fatGetCacheBuffer hpage (hevict hne)
    · rw [hget]
      dsimp only
      have hdata := (hgot.holds.cached i hgot.index_lt hgot.valid).2
      rw [hgot.pageNo] at hdata
      have hpart : slice (v'.entry i).data 0 overRun = slice bytes (offset + done) overRun := by
        rw [hdata, page, slice_slice _ (by omega), Nat.add_zero, hstart]
      have hlen : (slice bytes (offset + done) overRun).length = overRun :=
        length_slice (by have := h.inside; omega)
      rw [hpart]
      have hroom : done + (slice bytes (offset + done) overRun).length ≤ buffer.length := by omega
      have hall := hfilled.splice rfl hlen (by omega)
      rw [hend, ← length_splice hroom] at hall
      refine .fine hquiet rfl ⟨?_, hgot.holds⟩
      rw [← length_splice hroom]
      exact hall.all
    · rw [hget]
      exact .reported hfailed herror
  case isFalse hzero =>
    have hzero' : overRun = 0 := not_not.mp hzero
    rw [hzero', Nat.add_zero] at hend
    subst hend
    exact .fine (Drive.not_failed_self _) rfl ⟨hfilled.all, h⟩

/-- The whole pages are read from the device. -/
theorem Holds.read_pages (h : Holds D L v bytes) {p k : Nat} (hk : p + k ≤ L.pages)
    (hdirty : ∀ i < fatCacheSize, (v.entry i).valid = true → (v.entry i).dirty = true →
      (v.entry i).pageNo < p ∨ p + k ≤ (v.entry i).pageNo) :
    slice v.device.disk (p * L.pageSize) (k * L.pageSize) =
      slice bytes (p * L.pageSize) (k * L.pageSize) := by
  apply slice_eq_of_pages
  intro q hlow hhigh
  apply h.clean q (by omega)
  intro i hi hvalid hmod heq
  have := hdirty i hi hvalid hmod
  omega

/-- The whole pages of a request, and what is behind them. -/
theorem Layout.rest_pages {pageNo offset done n : Nat} (hstart : offset + done = pageNo * L.pageSize)
    (hdone : done ≤ n) (hinside : offset + n ≤ L.size) :
    pageNo + (n - done) / L.pageSize ≤ L.pages ∧
      (n - done) / L.pageSize * L.pageSize + (n - done) % L.pageSize = n - done ∧
      (pageNo + (n - done) / L.pageSize) * L.pageSize =
        offset + (done + (n - done) / L.pageSize * L.pageSize) := by
  have hdiv := Nat.div_add_mod' (n - done) L.pageSize
  have hmul : (pageNo + (n - done) / L.pageSize) * L.pageSize =
      offset + (done + (n - done) / L.pageSize * L.pageSize) := by
    rw [Nat.add_mul]
    omega
  refine ⟨?_, hdiv, hmul⟩
  by_contra hlt
  have hle := Nat.mul_le_mul_right L.pageSize (Nat.succ_le_of_lt (Nat.lt_of_not_le hlt))
  rw [Nat.succ_mul, hmul, ← Layout.size] at hle
  have := L.pageSize_pos
  omega

theorem Holds.readRest (h : Holds D L v bytes) {pageNo offset done : Nat} {buffer : List Byte}
    (hfilled : Filled bytes offset done buffer) (hstart : offset + done = pageNo * L.pageSize)
    (hdone : done ≤ buffer.length) (hinside : offset + buffer.length ≤ L.size)
    (hsafe : v.ReadsSafely D pageNo (buffer.length - done)) :
    ReadDone D L v bytes offset buffer.length (v.readRest D pageNo done buffer) := by
  obtain ⟨hpages, hdiv, hnext⟩ := L.rest_pages hstart hdone hinside
  have hsize := L.pages_lt
  have hmod := Nat.mod_lt (buffer.length - done) L.pageSize_pos
  have hadd : D.arch.add pageNo ((buffer.length - done) / L.pageSize) =
      pageNo + (buffer.length - done) / L.pageSize := Arch.add_of_lt (by omega)
  have hdirect := hsafe.direct
  have hreports := hsafe.reports
  have hevicts := hsafe.evicts
  rw [h.pageSize] at hdirect hreports hevicts
  rw [Volume.readRest, h.split (by omega), h.pageSize]
  dsimp only
  rw [hadd]
  generalize hk : (buffer.length - done) / L.pageSize = k at *
  generalize hover : (buffer.length - done) % L.pageSize = overRun at *
  have hwhole : buffer.length - done - overRun = k * L.pageSize := by omega
  split
  case isTrue hle =>
    rw [if_pos hle] at hevicts
    rw [hwhole, Volume.readDirect, Device.readDisk,
      length_slice (by omega : done + k * L.pageSize ≤ buffer.length),
      h.pageOffset (by omega)]
    cases hfate : D.fate v.device.calls with
    | none =>
      dsimp only
      rw [if_pos h.valid, h.read_pages hpages (hdirect hle), ← hstart]
      have hlen : (slice bytes (offset + done) (k * L.pageSize)).length = k * L.pageSize :=
        length_slice (by have := h.inside; omega)
      have hroom : done + (slice bytes (offset + done) (k * L.pageSize)).length ≤ buffer.length := by
        omega
      have hbuffer := length_splice hroom
      have hover' := (h.called (v.device.calls + 1)).readOverRun (pageNo + k)
        overRun (hfilled.splice rfl hlen (by omega)) (by omega) (by omega) hmod
        (by omega) fun hne => hevicts hne
      rw [hbuffer] at hover'
      exact hover'.after (Nat.le_succ _) (Drive.not_failed_succ hfate)
    | some fault =>
      -- a failure is reported, as nothing comes behind it
      have hzero : overRun = 0 := by
        by_contra hne
        rw [hreports hle hne] at hfate
        cases hfate
      dsimp only
      rw [if_pos h.valid, hzero, Volume.readOverRun, if_neg (fun hne => hne rfl)]
      exact .reported (Drive.failed_succ hfate) fault.isError
  case isFalse hlt =>
    rw [if_neg hlt] at hevicts
    have hk0 : k = 0 := by
      rw [← hk]
      exact Nat.div_eq_of_lt (Nat.lt_of_not_le hlt)
    subst hk0
    exact h.readOverRun _ _ hfilled (by omega) (by omega) hmod hinside hevicts

/-- A read that is careful delivers its bytes, or it reports a failure. -/
theorem Holds.fatDiskIoReadVolume (h : Holds D L v bytes) {offset : Nat} {buffer : List Byte}
    (hinside : offset + buffer.length ≤ L.size)
    (hcareful : (Request.read offset buffer).Careful D v) :
    ReadDone D L v bytes offset buffer.length (v.fatDiskIoReadVolume D offset buffer) := by
  have hpos := L.pageSize_pos
  have hdiv := Nat.div_add_mod' offset L.pageSize
  have hmod := Nat.mod_lt offset hpos
  rw [Request.Careful, h.split (by omega), h.pageSize] at hcareful
  rw [Volume.fatDiskIoReadVolume, h.split (by omega), h.media, h.valid,
    if_neg (fun hne => hne rfl), if_neg (by decide)]
  dsimp only at hcareful ⊢
  by_cases hzero : offset % L.pageSize = 0
  · rw [if_pos hzero] at hcareful
    rw [if_neg (not_not.mpr hzero)]
    refine h.readRest ?_ (by omega) (Nat.zero_le _) hinside hcareful
    rw [Filled, slice_zero, slice_zero]
  · rw [if_neg hzero] at hcareful
    rw [if_pos hzero]
    obtain ⟨hevict, hrest⟩ := hcareful
    have hpage : offset / L.pageSize < L.pages := L.page_lt hzero (by omega)
    have hlt := L.pages_lt
    obtain ⟨i, v', hget, hgot, hquiet⟩ | ⟨status, v', hget, herror, hfailed⟩ :=
      h.fatGetCacheBuffer hpage hevict
    · rw [hget] at hrest ⊢
      have hcalls := v.fatGetCacheBuffer_calls D (offset / L.pageSize)
      rw [hget] at hcalls
      have hadd : D.arch.add (offset / L.pageSize) 1 = offset / L.pageSize + 1 :=
        Arch.add_of_lt (by omega)
      dsimp only at hrest hcalls ⊢
      rw [hgot.holds.pageSize, hadd]
      have hnext : (offset / L.pageSize + 1) * L.pageSize =
          offset + (L.pageSize - offset % L.pageSize) := by
        rw [Nat.succ_mul]
        omega
      have hlength : min (L.pageSize - offset % L.pageSize) buffer.length ≤
          L.pageSize - offset % L.pageSize := Nat.min_le_left _ _
      have hshort : min (L.pageSize - offset % L.pageSize) buffer.length ≤ buffer.length :=
        Nat.min_le_right _ _
      have hwhole : min (L.pageSize - offset % L.pageSize) buffer.length < buffer.length →
          min (L.pageSize - offset % L.pageSize) buffer.length =
            L.pageSize - offset % L.pageSize := by omega
      generalize min (L.pageSize - offset % L.pageSize) buffer.length = length at *
      have hdata := (hgot.holds.cached i hgot.index_lt hgot.valid).2
      rw [hgot.pageNo] at hdata
      have hpart : slice (v'.entry i).data (offset % L.pageSize) length =
          slice bytes offset length := by
        rw [hdata, page, slice_slice _ (by omega), hdiv]
      have hlen : (slice bytes offset length).length = length :=
        length_slice (by have := h.inside; omega)
      have hroom : 0 + (slice bytes offset length).length ≤ buffer.length := by omega
      have hbuffer := length_splice hroom
      have hfilled : Filled bytes offset (0 + length) (splice buffer 0 (slice bytes offset length)) :=
        Filled.splice (by rw [Filled, slice_zero, slice_zero]) rfl hlen (by omega)
      rw [Nat.zero_add] at hfilled
      rw [hpart, hbuffer]
      split
      case isTrue heq =>
        subst heq
        exact .fine hquiet rfl ⟨splice_all hlen, hgot.holds⟩
      case isFalse hne =>
        have hdone := hgot.holds.readRest hfilled (by omega) (by omega) (by omega)
          (hbuffer.symm ▸ hrest (by omega))
        rw [hbuffer] at hdone
        exact hdone.after hcalls hquiet
    · rw [hget]
      exact .reported hfailed herror

/-! ## Writing -/

/-- What a write is to do. -/
def WriteDone (D : Drive) (L : Layout) (v : Volume) (bytes : List Byte)
    (result : Status × Volume) : Prop :=
  Outcome D v result.2 result.1 (Holds D L result.2 bytes)

theorem Got.modify {i pageNo : Nat} (h : Got D L v bytes i pageNo) (target : Nat) (bs : List Byte)
    (hfits : target + bs.length ≤ L.pageSize) :
    Holds D L (v.modify i target bs) (splice bytes (pageNo * L.pageSize + target) bs) := by
  obtain ⟨hpage, hdata⟩ := h.holds.cached i h.index_lt h.valid
  rw [h.pageNo] at hpage hdata
  have hinside := h.holds.inside
  have hend : pageNo * L.pageSize + L.pageSize ≤ L.size := page_end_le _ hpage
  refine h.holds.setEntry h.index_lt (length_splice (by omega)) (drop_splice (by omega) (by omega))
    (h.pageNo.symm ▸ hpage) ?_ ?_ ?_ (.inl ⟨h.valid, rfl⟩) fun _ _ hne => absurd rfl hne
  · dsimp only
    rw [h.pageNo, hdata, page_splice_within bs hinside hpage hfits]
  · exact fun j hj hji hvalid heq => hji (h.holds.distinct j hj i h.index_lt hvalid h.valid heq)
  · intro q _ hne
    dsimp only at hne
    rw [h.pageNo] at hne
    exact page_splice_of_ne bs hinside hpage hfits hne

theorem Volume.entry_fatCacheFlushRange {first last i : Nat} (hi : i < v.cache.length) :
    (v.fatCacheFlushRange first last).entry i =
      if first ≤ (v.entry i).pageNo ∧ (v.entry i).pageNo ≤ last then
        { v.entry i with valid := false } else v.entry i := by
  simp only [Volume.entry, Volume.fatCacheFlushRange, List.getD_eq_getElem?_getD, List.getElem?_map,
    List.getElem?_eq_getElem hi, Option.map_some, Option.getD_some]

/-- Write whole pages to the device, and forget them and the page behind them. -/
theorem Holds.writeDirect (h : Holds D L v bytes) {p k : Nat} {bs : List Byte}
    (hk : p + k ≤ L.pages) (hbs : bs.length = k * L.pageSize)
    (hdirty : ∀ i < fatCacheSize, (v.entry i).valid = true → (v.entry i).dirty = true →
      (v.entry i).pageNo ≠ p + k) (n : Nat) :
    Holds D L
      (Volume.fatCacheFlushRange p (p + k)
        { v with device := ⟨splice v.device.disk (p * L.pageSize) bs, n⟩ })
      (splice bytes (p * L.pageSize) bs) := by
  have hinside := h.inside
  have hend : p * L.pageSize + bs.length ≤ L.size := by
    rw [hbs, ← Nat.add_mul]
    exact Nat.mul_le_mul_right _ hk
  have hsize : (p + k) * L.pageSize ≤ bytes.length := by
    rw [Nat.add_mul, ← hbs]
    omega
  have hentry : ∀ i < fatCacheSize, (Volume.fatCacheFlushRange p (p + k)
      { v with device := ⟨splice v.device.disk (p * L.pageSize) bs, n⟩ }).entry i =
        if p ≤ (v.entry i).pageNo ∧ (v.entry i).pageNo ≤ p + k then
          { v.entry i with valid := false } else v.entry i :=
    fun i hi => Volume.entry_fatCacheFlushRange (h.entry_lt hi)
  -- an entry that stays valid is one of another page
  have hstays : ∀ i < fatCacheSize, ((Volume.fatCacheFlushRange p (p + k)
      { v with device := ⟨splice v.device.disk (p * L.pageSize) bs, n⟩ }).entry i).valid = true →
      (Volume.fatCacheFlushRange p (p + k)
        { v with device := ⟨splice v.device.disk (p * L.pageSize) bs, n⟩ }).entry i = v.entry i ∧
        (v.entry i).valid = true ∧ ((v.entry i).pageNo < p ∨ p + k < (v.entry i).pageNo) := by
    intro i hi hvalid
    rw [hentry i hi] at hvalid ⊢
    split at hvalid
    case isTrue => cases hvalid
    case isFalse hout => exact ⟨if_neg hout, hvalid, by omega⟩
  refine
    { valid := h.valid
      media := h.media
      pageSize := h.pageSize
      entries := (List.length_map _).trans h.entries
      disk := ?_
      inside := ?_
      data := ?_
      cached := ?_
      distinct := ?_
      clean := ?_
      behind := ?_ }
  · dsimp only [Volume.fatCacheFlushRange]
    rw [length_splice (by rw [h.disk]; omega), length_splice (by omega), h.disk]
  · rw [length_splice (by omega)]
    exact hinside
  · intro i hi
    rw [hentry i hi]
    split <;> exact h.data i hi
  · intro i hi hvalid
    obtain ⟨hsame, hvalid, hout⟩ := hstays i hi hvalid
    obtain ⟨hpage, hdata⟩ := h.cached i hi hvalid
    rw [hsame]
    exact ⟨hpage, hdata.trans (page_splice_of_out hsize hbs (by omega)).symm⟩
  · intro i hi j hj hvi hvj heq
    obtain ⟨hi', hvi, -⟩ := hstays i hi hvi
    obtain ⟨hj', hvj, -⟩ := hstays j hj hvj
    rw [hi', hj'] at heq
    exact h.distinct i hi j hj hvi hvj heq
  · intro q hq hclean
    by_cases hin : p ≤ q ∧ q < p + k
    · exact (page_splice_run (by rw [h.disk]; exact hsize) hbs hin.1 hin.2).trans
        (page_splice_run hsize hbs hin.1 hin.2).symm
    · refine (page_splice_of_out (by rw [h.disk]; exact hsize) hbs (by omega)).trans ?_
      rw [page_splice_of_out hsize hbs (by omega)]
      refine h.clean q hq fun i hi hvalid hmod heq => ?_
      have hne := hdirty i hi hvalid hmod
      have hi' := hclean i hi
      rw [hentry i hi, if_neg (by omega)] at hi'
      exact hi' hvalid hmod heq
  · exact (drop_splice (by rw [h.disk]; omega) hend).trans
      (h.behind.trans (drop_splice (by omega) hend).symm)

theorem Holds.writeOverRun {offset done : Nat} {bs : List Byte}
    (h : Holds D L v (splice bytes offset (slice bs 0 done))) (pageNo overRun : Nat)
    (hstart : offset + done = pageNo * L.pageSize) (hend : done + overRun = bs.length)
    (hlt : overRun < L.pageSize) (hinside : offset + bs.length ≤ L.size)
    (hbytes : L.size ≤ bytes.length) (hevict : overRun ≠ 0 → v.EvictsSafely D pageNo) :
    WriteDone D L v (splice bytes offset bs)
      (v.writeOverRun D pageNo done overRun .success bs) := by
  rw [Volume.writeOverRun]
  split
  case isTrue hne =>
    have hpage : pageNo < L.pages := L.page_lt hne (by omega)
    obtain ⟨i, v', hget, hgot, hquiet⟩ | ⟨status, v', hget, herror, hfailed⟩ :=
      h.fatGetCacheBuffer hpage (hevict hne)
    · rw [hget]
      have hlen : (slice bs done overRun).length = overRun := length_slice (by omega)
      have hmodify := hgot.modify 0 (slice bs done overRun) (by omega)
      rw [Nat.add_zero, ← hstart, splice_next (by omega) (by omega), hend, slice_all] at hmodify
      exact .fine hquiet rfl hmodify
    · rw [hget]
      exact .reported hfailed herror
  case isFalse hzero =>
    have hdone : done = bs.length := by omega
    rw [hdone, slice_all] at h
    exact .fine (Drive.not_failed_self _) rfl h

theorem Holds.writeRest {offset done : Nat} {bs : List Byte}
    (h : Holds D L v (splice bytes offset (slice bs 0 done))) (pageNo : Nat)
    (hstart : offset + done = pageNo * L.pageSize) (hdone : done ≤ bs.length)
    (hinside : offset + bs.length ≤ L.size) (hbytes : L.size ≤ bytes.length)
    (hsafe : v.WritesSafely D pageNo (bs.length - done)) :
    WriteDone D L v (splice bytes offset bs) (v.writeRest D pageNo done bs) := by
  obtain ⟨hpages, hdiv, hnext⟩ := L.rest_pages hstart hdone hinside
  have hsize := L.pages_lt
  have hmod := Nat.mod_lt (bs.length - done) L.pageSize_pos
  have hadd : D.arch.add pageNo ((bs.length - done) / L.pageSize) =
      pageNo + (bs.length - done) / L.pageSize := Arch.add_of_lt (by omega)
  have hdirect := hsafe.direct
  have hreports := hsafe.reports
  have hevicts := hsafe.evicts
  rw [h.pageSize] at hdirect hreports hevicts
  rw [Volume.writeRest, h.split (by omega), h.pageSize]
  dsimp only
  rw [hadd]
  generalize hk : (bs.length - done) / L.pageSize = k at *
  generalize hover : (bs.length - done) % L.pageSize = overRun at *
  have hwhole : bs.length - done - overRun = k * L.pageSize := by omega
  split
  case isTrue hle =>
    rw [if_pos hle] at hevicts
    have hlen : (slice bs done (k * L.pageSize)).length = k * L.pageSize :=
      length_slice (by omega)
    rw [hwhole, Volume.writeDirect, Device.writeDisk, h.pageOffset (by omega)]
    cases hfate : D.fate v.device.calls with
    | none =>
      dsimp only
      rw [if_pos h.valid]
      have hwritten := h.writeDirect hpages hlen (hdirect hle) (v.device.calls + 1)
      rw [← hstart, splice_next (by omega) (by omega)] at hwritten
      have hover' := hwritten.writeOverRun (pageNo + k) overRun (by omega)
        (by omega) hmod hinside hbytes fun hne => (hevicts hne).congr rfl rfl
      rw [← hstart]
      exact hover'.after (Nat.le_succ _) (Drive.not_failed_succ hfate)
    | some fault =>
      have hzero : overRun = 0 := by
        by_contra hne
        rw [hreports hle hne] at hfate
        cases hfate
      dsimp only
      rw [if_pos h.valid, hzero, Volume.writeOverRun, if_neg (fun hne => hne rfl)]
      exact .reported (Drive.failed_succ hfate) fault.isError
  case isFalse hlt =>
    rw [if_neg hlt] at hevicts
    have hk0 : k = 0 := by
      rw [← hk]
      exact Nat.div_eq_of_lt (Nat.lt_of_not_le hlt)
    subst hk0
    exact h.writeOverRun _ _ (by omega) (by omega) hmod hinside hbytes hevicts

/-- A write that is careful stores its bytes, or it reports a failure. -/
theorem Holds.fatDiskIoWriteVolume (h : Holds D L v bytes) {offset : Nat} {bs : List Byte}
    (hwrite : D.readOnly = false) (hinside : offset + bs.length ≤ L.size)
    (hcareful : (Request.write offset bs).Careful D v) :
    WriteDone D L v (splice bytes offset bs) (v.fatDiskIoWriteVolume D offset bs) := by
  have hpos := L.pageSize_pos
  have hbytes := h.inside
  have hdiv := Nat.div_add_mod' offset L.pageSize
  have hmod := Nat.mod_lt offset hpos
  rw [Request.Careful, h.split (by omega), h.pageSize] at hcareful
  rw [Volume.fatDiskIoWriteVolume, h.split (by omega), h.media, h.valid, hwrite,
    if_neg (by decide), if_neg (fun hne => hne rfl), if_neg (by decide)]
  dsimp only at hcareful ⊢
  by_cases hzero : offset % L.pageSize = 0
  · rw [if_pos hzero] at hcareful
    rw [if_neg (not_not.mpr hzero)]
    have hstart : Holds D L v (splice bytes offset (slice bs 0 0)) := by
      rw [slice_zero, splice_nil]
      exact h
    exact hstart.writeRest _ (by omega) (Nat.zero_le _) hinside hbytes hcareful
  · rw [if_neg hzero] at hcareful
    rw [if_pos hzero]
    obtain ⟨hevict, hrest⟩ := hcareful
    have hpage : offset / L.pageSize < L.pages := L.page_lt hzero (by omega)
    have hlt := L.pages_lt
    obtain ⟨i, v', hget, hgot, hquiet⟩ | ⟨status, v', hget, herror, hfailed⟩ :=
      h.fatGetCacheBuffer hpage hevict
    · rw [hget] at hrest ⊢
      have hcalls := v.fatGetCacheBuffer_calls D (offset / L.pageSize)
      rw [hget] at hcalls
      have hadd : D.arch.add (offset / L.pageSize) 1 = offset / L.pageSize + 1 :=
        Arch.add_of_lt (by omega)
      dsimp only at hrest hcalls ⊢
      rw [hgot.holds.pageSize, hadd]
      have hnext : (offset / L.pageSize + 1) * L.pageSize =
          offset + (L.pageSize - offset % L.pageSize) := by
        rw [Nat.succ_mul]
        omega
      have hlength : min (L.pageSize - offset % L.pageSize) bs.length ≤
          L.pageSize - offset % L.pageSize := Nat.min_le_left _ _
      have hshort : min (L.pageSize - offset % L.pageSize) bs.length ≤ bs.length :=
        Nat.min_le_right _ _
      have hwhole : min (L.pageSize - offset % L.pageSize) bs.length < bs.length →
          min (L.pageSize - offset % L.pageSize) bs.length =
            L.pageSize - offset % L.pageSize := by omega
      generalize min (L.pageSize - offset % L.pageSize) bs.length = length at *
      have hlen : (slice bs 0 length).length = length := length_slice (by omega)
      have hmodify := hgot.modify (offset % L.pageSize) (slice bs 0 length) (by omega)
      rw [hdiv] at hmodify
      split
      case isTrue heq =>
        rw [heq, slice_all] at hmodify
        rw [heq, slice_all]
        exact .fine hquiet rfl hmodify
      case isFalse hne =>
        have hrest' := hmodify.writeRest (offset / L.pageSize + 1) (by omega) (by omega)
          hinside hbytes (hrest (by omega) i rfl)
        exact hrest'.after hcalls hquiet
    · rw [hget]
      exact .reported hfailed herror

end EfiCore.Fat
