import EfiCore.Fat.Refines

/-! # The law of getting and setting

An entry that is set is read as it was set, and everything beside it stays, but not always.  The
address of the entry is cut off to a `UINTN` before it is written, the word of the first FAT is written
to all of them, the dirty mark goes to the first FAT only, and whether the entry could be read before
it is changed is not looked at.
-/

namespace EfiCore.Fat

open EfiCore.Lib

variable {g : Geometry} {v : FlatVol} {i j k value word : Nat} {m m' : Nat → Byte}

/-! ## The law -/

/-- A value as it is read. -/
def Geometry.normal (g : Geometry) (value : Nat) : Nat :=
  if value < g.bound then g.extend value else value

theorem Geometry.extend_mod (g : Geometry) (h : g.ValidValue value) :
    g.extend (value % g.bound) = g.normal value := by
  unfold Geometry.normal
  rcases h with hlt | ⟨hspecial, hlt⟩
  · rw [if_pos hlt, Nat.mod_eq_of_lt hlt]
  · have hbound := g.bound_lt
    rw [if_neg (by unfold Geometry.special at hspecial; omega), g.extend_special hspecial hlt]

/-- All FATs are copies of the first one. -/
def CopiesEqual (g : Geometry) (m : Nat → Byte) : Prop :=
  ∀ c < g.noFats, ∀ o < g.fatSize, m (g.fatPos + c * g.fatSize + o) = m (g.fatPos + o)

/-- What setting the entry `i` to a value is to do: to what `FatGetFatEntry` returns, and to the
    bytes. -/
structure SetLaw {σ : Type} (F : Store σ) (bytes : σ → Nat → Byte) (g : Geometry) (v v' : Vol σ)
    (i value : Nat) : Prop where
  set : (Vol.fatGetFatEntry F g i v').1 = g.normal value
  others : ∀ j, 2 ≤ j → j ≤ g.lastCluster → j ≠ i →
    (Vol.fatGetFatEntry F g j v').1 = g.fatEntry (bytes v.disk) j
  reserved : g.fatType = .fat32 → ∀ c < g.noFats, ∀ j, 2 ≤ j → j ≤ g.lastCluster →
    g.wordAt (bytes v'.disk) (g.fatPos + c * g.fatSize) j / 2 ^ 28 =
      g.wordAt (bytes v.disk) (g.fatPos + c * g.fatSize) j / 2 ^ 28
  copies : CopiesEqual g (bytes v.disk) → CopiesEqual g (bytes v'.disk)
  outside : ∀ k, k < g.fatPos ∨ g.fatPos + g.noFats * g.fatSize ≤ k →
    bytes v'.disk k = bytes v.disk k

/-! ## When the law holds -/

/-- The reserved bits of the entry are the same in all FATs. -/
def AgreesOn (g : Geometry) (m : Nat → Byte) (i : Nat) : Prop :=
  ∀ c < g.noFats,
    g.wordAt m (g.fatPos + c * g.fatSize) i / 2 ^ 28 = g.wordAt m g.fatPos i / 2 ^ 28

/-- The volume is marked, or the mark makes no difference between the FATs. -/
def KeepsCopies (g : Geometry) (v : FlatVol) : Prop :=
  v.fatDirty = true ∨ g.noFats = 1 ∨ ¬CopiesEqual g v.disk ∨ g.fatType = .fat12 ∨
    g.wordAt v.disk g.fatPos 1 = v.dirtyValue % 256 ^ g.fatEntrySize

/-- The condition under which setting an entry does what it is to do. -/
structure SetsEntry (g : Geometry) (v : FlatVol) (i : Nat) : Prop where
  address : g.fatPos + g.entryOffset i < 2 ^ g.arch.bits
  reserved : g.fatType = .fat32 → AgreesOn g v.disk i
  copies : KeepsCopies g v

theorem SetsEntry.writePos (hset : SetsEntry g v i) (h : Sound g) (hlast : i ≤ g.lastCluster) :
    g.writePos i = g.fatPos + g.place i := by
  rw [Geometry.writePos, ← h.entryOffset_eq hlast, Nat.mod_eq_of_lt hset.address]

/-- Writing the mark that is there already. -/
theorem mark_self (h : g.wordAt m g.fatPos 1 = value % 256 ^ g.fatEntrySize) :
    g.mark value m = m := by
  have hput : ∀ pos n, numAt m pos n = value % 256 ^ n → putNum m pos n value = m := by
    intro pos n hnum
    have hbytes : leBytes n value = bytesAt m pos n := by
      have hleft := leBytes_leNat (leBytes n value)
      have hright := leBytes_leNat (bytesAt m pos n)
      rw [length_leBytes, leNat_leBytes] at hleft
      rw [length_bytesAt, ← numAt, hnum] at hright
      exact hleft.symm.trans hright
    rw [putNum, hbytes, putBytes_bytesAt]
  unfold Geometry.mark
  cases g.fatType with
  | fat12 => rfl
  | fat16 => exact hput _ _ h
  | fat32 => exact hput _ _ h

/-- The words of the FATs after the entry was set. -/
theorem Sound.wordAt_written (h : Sound g) (hlast : i ≤ g.lastCluster)
    (hpos : g.writePos i = g.fatPos + g.place i) (hj : 2 ≤ j) (hjlast : j ≤ g.lastCluster)
    (htype : j = i ∨ g.fatType ≠ .fat12) {c : Nat} (hc : c < g.noFats) :
    g.wordAt (v.written g i value) (g.fatPos + c * g.fatSize) j =
      if j = i then g.newWord v.disk i value
      else g.wordAt v.disk (g.fatPos + c * g.fatSize) j := by
  have hword := newWord_lt g v.disk i value
  rw [Vol.written, hpos, h.wordAt_stamp hlast hjlast hc]
  by_cases hji : j = i
  · rw [if_pos hji, hji, wordAt_putWord hword]
  · have hapart := g.place_apart (htype.resolve_left hji) hji
    rw [if_neg hji, Geometry.wordAt, Geometry.putWord, numAt_putNum_of_disjoint (by omega),
      ← Geometry.wordAt, wordAt_marked hj]

/-- The FATs stay copies of each other. -/
theorem SetsEntry.copiesEqual (hset : SetsEntry g v i) (h : Sound g) (hlast : i ≤ g.lastCluster)
    (hone : 1 ≤ g.lastCluster) (value : Nat) (hcopies : CopiesEqual g v.disk) :
    CopiesEqual g (v.written g i value) := by
  intro c hc o ho
  have hlen : (leBytes g.fatEntrySize (g.newWord v.disk i value)).length = g.fatEntrySize :=
    length_leBytes ..
  have hmark := h.place_add_le hone
  have hzero := h.stamp_copy hlast hlen h.noFats ho (m := v.marked g)
  rw [Nat.zero_mul, Nat.add_zero] at hzero
  rw [Vol.written, hset.writePos h hlast, h.stamp_copy hlast hlen hc ho, hzero]
  split
  · rfl
  · -- beside the entry the FATs are copies, but for the mark
    by_cases hc0 : c = 0
    · rw [hc0, Nat.zero_mul, Nat.add_zero]
    have hfirst : v.marked g (g.fatPos + o) = v.disk (g.fatPos + o) := by
      rcases hset.copies with hdirty | hsingle | hunequal | htype | hsame
      · rw [marked_clean (.inl hdirty)]
      · omega
      · exact absurd hcopies hunequal
      · rw [marked_clean (.inr htype)]
      · unfold Vol.marked
        split
        · rfl
        · rw [mark_self hsame]
    have hfar : v.marked g (g.fatPos + c * g.fatSize + o) =
        v.disk (g.fatPos + c * g.fatSize + o) := by
      have := Nat.le_mul_of_pos_left g.fatSize (Nat.pos_of_ne_zero hc0)
      exact marked_of_out (by omega) v
    rw [hfirst, hfar]
    exact hcopies c hc o ho

theorem SetsEntry.setLaw (hset : SetsEntry g v i) (h : Sound g) (hi : 2 ≤ i)
    (hlast : i ≤ g.lastCluster) (hvalue : g.ValidValue value) :
    SetLaw flat id g v (Vol.fatSetFatEntry flat g i value v).2 i value := by
  have hpos := hset.writePos h hlast
  have hword := newWord_lt g v.disk i value
  have hlen : (leBytes g.fatEntrySize (g.newWord v.disk i value)).length = g.fatEntrySize := by simp
  have hdisk : (Vol.fatSetFatEntry flat g i value v).2.disk = v.written g i value := by
    rw [h.fatSetFatEntry_eq hi hlast]
  have hget : ∀ j ≤ g.lastCluster,
      (Vol.fatGetFatEntry flat g j (Vol.fatSetFatEntry flat g i value v).2).1 =
        g.fatEntry (v.written g i value) j := by
    intro j hj
    rw [(fatGetFatEntry_read ..).1, h.read_eq hj, hdisk]
  have hone := h.place_add_le (show 1 ≤ g.lastCluster by omega)
  have hfats : g.fatSize ≤ g.noFats * g.fatSize := Nat.le_mul_of_pos_left _ h.noFats
  refine ⟨?_, fun j hj hjlast hji => ?_, fun htype c hc j hj hjlast => ?_, fun hcopies => ?_,
    fun k hk => ?_⟩
  · rw [hget i hlast, Geometry.fatEntry, Geometry.entryAt, Vol.written, hpos,
      h.wordAt_stamp_first hlast hlast, wordAt_putWord hword, Geometry.newWord, entryValue_patch,
      g.extend_mod hvalue]
  · have hbeside : g.besides i (g.newWord v.disk i value) =
        g.besides i (g.wordAt (v.marked g) g.fatPos i) := by
      rw [wordAt_marked_first hi]
      exact besides_patch ..
    rw [hget j hjlast, Geometry.fatEntry, Geometry.entryAt, Vol.written, hpos,
      h.wordAt_stamp_first hlast hjlast, ← Geometry.entryAt,
      entryAt_putWord_of_ne hji hword hbeside, Geometry.entryAt, wordAt_marked_first hj]
    rfl
  · rw [hdisk]
    dsimp only [id]
    rw [h.wordAt_written hlast hpos hj hjlast (.inr (by rw [htype]; decide)) hc]
    split
    · rename_i hji
      subst hji
      have hsame := besides_patch g j value (g.wordAt v.disk g.fatPos j)
      simp only [Geometry.besides, htype] at hsame
      rw [Geometry.newWord, hsame, hset.reserved htype c hc]
    · rfl
  · rw [hdisk]
    exact hset.copiesEqual h hlast (by omega) value hcopies
  · rw [hdisk]
    dsimp only [id]
    rw [Vol.written, hpos, h.stamp_outside hlast hlen hk]
    exact marked_of_out (by omega) v

/-! ## The condition is needed -/

/-- Two writes that are below the FATs put different bytes there. -/
theorem SetLaw.address (h : Sound g) (hi : 2 ≤ i) (hlast : i ≤ g.lastCluster)
    (hlaw : ∀ value, g.ValidValue value →
      SetLaw flat id g v (Vol.fatSetFatEntry flat g i value v).2 i value) :
    g.fatPos + g.entryOffset i < 2 ^ g.arch.bits := by
  rw [h.entryOffset_eq hlast]
  by_contra hlarge
  have hplace := h.place_add_le hlast
  have hpos := h.fatPos
  have hsize := h.fatSize
  have hwrite : g.writePos i = g.fatPos + g.place i - 2 ^ g.arch.bits := by
    rw [Geometry.writePos, Nat.mod_eq_sub_mod (by omega), Nat.mod_eq_of_lt (by omega)]
  -- the word below the FATs is the one that is written and the one that was there
  have hword : ∀ value, g.ValidValue value →
      numAt v.disk (g.writePos i) g.fatEntrySize = g.newWord v.disk i value := by
    intro value hvalue
    have houtside := (hlaw value hvalue).outside
    rw [h.fatSetFatEntry_eq hi hlast] at houtside
    have hlt := newWord_lt g v.disk i value
    rw [← Nat.mod_eq_of_lt hlt, ← numAt_putNum (v.marked g) (g.writePos i)]
    refine numAt_congr fun o ho => ?_
    have hsame := houtside (g.writePos i + o) (.inl (by omega))
    dsimp only [id] at hsame
    rw [← hsame, Vol.written, stamp_first (by omega) h.noFats]
    rfl
  have hzero := hword 0 (.inl (by unfold Geometry.bound; cases g.fatType <;> decide))
  have hone := hword 1 (.inl (by unfold Geometry.bound; cases g.fatType <;> decide))
  have hentry := (entryValue_patch g i 0 _).symm.trans ((congrArg (g.entryValue i)
    (hzero.symm.trans hone)).trans (entryValue_patch g i 1 _))
  unfold Geometry.bound at hentry
  cases htype : g.fatType <;> rw [htype] at hentry <;> exact absurd hentry (by decide)

theorem SetLaw.agreesOn (h : Sound g) (hi : 2 ≤ i) (hlast : i ≤ g.lastCluster)
    (hpos : g.writePos i = g.fatPos + g.place i) (htype : g.fatType = .fat32)
    (hlaw : SetLaw flat id g v (Vol.fatSetFatEntry flat g i value v).2 i value) :
    AgreesOn g v.disk i := by
  intro c hc
  have hreserved := hlaw.reserved htype c hc i hi hlast
  rw [h.fatSetFatEntry_eq hi hlast] at hreserved
  dsimp only [id] at hreserved
  rw [h.wordAt_written hlast hpos hi hlast (.inl rfl) hc, if_pos rfl] at hreserved
  have hsame := besides_patch g i value (g.wordAt v.disk g.fatPos i)
  simp only [Geometry.besides, htype] at hsame
  rw [← hreserved, Geometry.newWord, hsame]

/-- The mark is in the first FAT, and not in the second one. -/
theorem SetLaw.keepsCopies (h : Sound g) (hi : 2 ≤ i) (hlast : i ≤ g.lastCluster)
    (hpos : g.writePos i = g.fatPos + g.place i)
    (hlaw : SetLaw flat id g v (Vol.fatSetFatEntry flat g i value v).2 i value) :
    KeepsCopies g v := by
  by_contra hnot
  unfold KeepsCopies at hnot
  push Not at hnot
  obtain ⟨hclean, hmany, hcopies, htype, hmark⟩ := hnot
  have hafter := hlaw.copies hcopies
  rw [h.fatSetFatEntry_eq hi hlast] at hafter
  dsimp only [id] at hafter hcopies
  have hnoFats := h.noFats
  have hsecond : 1 < g.noFats := by omega
  have hone := h.place_add_le (show 1 ≤ g.lastCluster by omega)
  have hapart := g.place_one htype hi
  have hlen : (leBytes g.fatEntrySize (g.newWord v.disk i value)).length = g.fatEntrySize := by simp
  -- entry 1 in a FAT is what the mark left there
  have hword : ∀ c < g.noFats, g.wordAt (v.written g i value) (g.fatPos + c * g.fatSize) 1 =
      g.wordAt (v.marked g) (g.fatPos + c * g.fatSize) 1 := by
    intro c hc
    refine numAt_congr fun o ho => ?_
    rw [Nat.add_assoc _ (g.place 1), Vol.written, hpos,
      h.stamp_copy hlast hlen hc (show g.place 1 + o < g.fatSize by omega), if_neg (by omega)]
  have hfirst := hword 0 hnoFats
  rw [Nat.zero_mul, Nat.add_zero, Vol.marked, if_neg hclean, wordAt_mark_one htype] at hfirst
  refine hmark ?_
  rw [← hfirst]
  calc g.wordAt v.disk g.fatPos 1
      = g.wordAt v.disk (g.fatPos + 1 * g.fatSize) 1 := numAt_congr fun o ho => by
        rw [Nat.add_assoc _ (g.place 1), Nat.add_assoc _ (g.place 1),
          hcopies 1 hsecond _ (by omega)]
    _ = g.wordAt (v.marked g) (g.fatPos + 1 * g.fatSize) 1 := numAt_congr fun o ho =>
        (marked_of_out (by omega) v).symm
    _ = g.wordAt (v.written g i value) (g.fatPos + 1 * g.fatSize) 1 := (hword 1 hsecond).symm
    _ = g.wordAt (v.written g i value) g.fatPos 1 := numAt_congr fun o ho => by
        rw [Nat.add_assoc _ (g.place 1), Nat.add_assoc _ (g.place 1),
          hafter 1 hsecond _ (by omega)]

theorem setLaw_flat_iff (h : Sound g) (hi : 2 ≤ i) (hlast : i ≤ g.lastCluster) (v : FlatVol) :
    (∀ value, g.ValidValue value →
        SetLaw flat id g v (Vol.fatSetFatEntry flat g i value v).2 i value) ↔ SetsEntry g v i := by
  have hvalid : g.ValidValue 0 := .inl (by unfold Geometry.bound; cases g.fatType <;> decide)
  constructor
  · intro hlaw
    have haddress := SetLaw.address h hi hlast hlaw
    have hpos : g.writePos i = g.fatPos + g.place i := by
      rw [Geometry.writePos, ← h.entryOffset_eq hlast, Nat.mod_eq_of_lt haddress]
    exact ⟨haddress, fun htype => (hlaw 0 hvalid).agreesOn h hi hlast hpos htype,
      (hlaw 0 hvalid).keepsCopies h hi hlast hpos⟩
  · exact fun hset value hvalue => hset.setLaw h hi hlast hvalue

/-! ## The law on a cache -/

section Store

variable {σ : Type} {F : Store σ} {good : σ → Prop} {bytes : σ → Nat → Byte}

/-- Where the entry that was loaded last is makes no difference for the entries of clusters. -/
theorem fatGetFatEntry_entryPos (hj : j ≤ g.lastCluster) (pos : Nat) (v : Vol σ) :
    Vol.fatGetFatEntry F g j { v with fatEntryPos := pos } = Vol.fatGetFatEntry F g j v := by
  have hload : Vol.fatLoadFatEntry F g j { v with fatEntryPos := pos } =
      Vol.fatLoadFatEntry F g j v := by
    rw [Vol.fatLoadFatEntry, Vol.fatLoadFatEntry, if_neg (Nat.not_lt.mpr hj),
      if_neg (Nat.not_lt.mpr hj)]
  rw [Vol.fatGetFatEntry, hload, Vol.fatGetFatEntry]

theorem fatSetFatEntry_entryPos (hi : 2 ≤ i) (hlast : i ≤ g.lastCluster) (value pos : Nat)
    (v : Vol σ) :
    Vol.fatSetFatEntry F g i value { v with fatEntryPos := pos } =
      Vol.fatSetFatEntry F g i value v := by
  rw [Vol.fatSetFatEntry, Vol.fatSetFatEntry, if_neg (Nat.not_lt.mpr hi),
    if_neg (Nat.not_lt.mpr hi), fatGetFatEntry_entryPos hlast]

/-- What the entry of a cluster is read as is what the bytes show. -/
theorem Shows.fatGetFatEntry_eq (hF : Shows F g good bytes) (hg : NoWrap g) (h : Sound g)
    (hj : j ≤ g.lastCluster) {v : Vol σ} (hv : good v.disk) :
    (Vol.fatGetFatEntry F g j v).1 = g.fatEntry (bytes v.disk) j := by
  have husable : Usable good { v with fatEntryPos := 0 } := ⟨hv, Nat.two_pow_pos 62⟩
  have hget := ((husable.sees bytes).fatGetFatEntry hF hg j).1
  rw [fatGetFatEntry_entryPos hj, (fatGetFatEntry_read ..).1, h.read_eq hj] at hget
  exact hget

/-- Setting an entry on a store is setting it on the bytes that it shows. -/
theorem setLaw_view (hF : Shows F g good bytes) (hg : NoWrap g) (hi : 2 ≤ i)
    (hlast : i ≤ g.lastCluster) {v : Vol σ} (hv : good v.disk) (value : Nat) :
    SetLaw F bytes g v (Vol.fatSetFatEntry F g i value v).2 i value ↔
      SetLaw flat id g (v.view bytes) (Vol.fatSetFatEntry flat g i value (v.view bytes)).2 i
        value := by
  have husable : Usable good { v with fatEntryPos := 0 } := ⟨hv, Nat.two_pow_pos 62⟩
  have hsees := ((husable.sees bytes).fatSetFatEntry hF hg i value).2
  have hflat : Vol.fatSetFatEntry flat g i value (Vol.view bytes { v with fatEntryPos := 0 }) =
      Vol.fatSetFatEntry flat g i value (v.view bytes) :=
    fatSetFatEntry_entryPos hi hlast value 0 (v.view bytes)
  rw [fatSetFatEntry_entryPos hi hlast, hflat] at hsees
  have hget : ∀ j, (Vol.fatGetFatEntry F g j (Vol.fatSetFatEntry F g i value v).2).1 =
      (Vol.fatGetFatEntry flat g j (Vol.fatSetFatEntry flat g i value (v.view bytes)).2).1 :=
    fun j => (hsees.fatGetFatEntry hF hg j).1
  have hbytes : (Vol.fatSetFatEntry flat g i value (v.view bytes)).2.disk =
      bytes (Vol.fatSetFatEntry F g i value v).2.disk := congrArg Vol.disk hsees.view
  constructor
  · intro ⟨hset, hothers, hreserved, hcopies, houtside⟩
    simp only [hget, ← hbytes] at hset hothers hreserved hcopies houtside
    exact ⟨hset, hothers, hreserved, hcopies, houtside⟩
  · intro ⟨hset, hothers, hreserved, hcopies, houtside⟩
    dsimp only [id] at hothers hreserved hcopies houtside
    simp only [← hget, hbytes] at hset hothers hreserved hcopies houtside
    exact ⟨hset, hothers, hreserved, hcopies, houtside⟩

end Store

/-! ## Devices that cannot be written -/

theorem writeFats_readOnly {D : Drive} (hD : D.readOnly = true) {n : Nat} (hn : 0 < n) (pos : Nat)
    (v : Vol Volume) : (Vol.writeFats (cached D) g n pos v).1.isError = true := by
  have hrefused : ∀ offset bs, (Vol.fatDiskIoWrite (cached D) g offset bs v).1.isError = true := by
    intro offset bs
    unfold Vol.fatDiskIoWrite
    split
    · rfl
    · split
      · rfl
      · have hwrite : (cached D).write offset bs v.disk = (.writeProtected, v.disk) := if_pos hD
        rw [hwrite]
        rfl
  cases n with
  | zero => exact absurd hn (Nat.lt_irrefl 0)
  | succ n =>
    rw [Vol.writeFats]
    dsimp only
    rw [if_pos (hrefused ..)]
    exact hrefused ..

theorem fatSetFatEntry_readOnly {D : Drive} (hD : D.readOnly = true) (hfats : 0 < g.noFats)
    (i value : Nat) (v : Vol Volume) : (Vol.fatSetFatEntry (cached D) g i value v).1 ≠ .success := by
  have herror : (Vol.fatSetFatEntry (cached D) g i value v).1.isError = true := by
    unfold Vol.fatSetFatEntry
    split
    · rfl
    · exact writeFats_readOnly hD hfats ..
  intro hsuccess
  rw [hsuccess] at herror
  cases herror

/-- Reading does not look whether the device can be written. -/
theorem fatGetFatEntry_writable (D : Drive) (g : Geometry) (j : Nat) (v : Vol Volume) :
    Vol.fatGetFatEntry (cached { D with readOnly := false }) g j v =
      Vol.fatGetFatEntry (cached D) g j v := by
  have hread : (cached { D with readOnly := false }).read = (cached D).read := rfl
  unfold Vol.fatGetFatEntry Vol.fatLoadFatEntry Vol.fatDiskIoRead
  rw [hread]
  rfl

theorem Coherent.writable {D : Drive} {L : Layout} {x : Volume} (h : Coherent D L x) :
    Coherent { D with readOnly := false } L x := by
  obtain ⟨bytes, h⟩ := h
  exact ⟨bytes, h.valid, h.media, h.pageSize, h.entries, h.disk, h.inside, h.data, h.cached,
    h.distinct, h.clean, h.behind⟩

/-- Setting an entry always does what it is to do, if it succeeds. -/
def AlwaysSets : Prop :=
  ∀ (A : Arch) (b : BootSector) (g : Geometry) (D : Drive) (L : Layout) (v : Vol Volume)
    (i value : Nat), fatLocations A b = .ok g → Sound g → L.size = g.volSize →
    Coherent D L v.disk → 2 ≤ i → i ≤ g.lastCluster → g.ValidValue value →
    (Vol.fatSetFatEntry (cached D) g i value v).1 = .success →
    SetLaw (cached D) Volume.byte g v (Vol.fatSetFatEntry (cached D) g i value v).2 i value

end EfiCore.Fat
