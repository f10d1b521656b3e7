import EfiCore.Fat.Allocate
import EfiCore.Fat.Refines
import EfiCore.Lib.Run

/-! # The number of free clusters

Which calls of `FatSetFatEntry` and `FatAllocateCluster` keep the free info right.  What it rests on
is that no free cluster is below the hint, but for those that were handed out.
-/

namespace EfiCore.Fat

open EfiCore.Lib

variable {g : Geometry} {v v' : FlatVol} {m : Nat → Byte} {i value c : Nat}

/-! ## Setting an entry -/

/-- What is stored is zero only for zero. -/
def Geometry.Plain (g : Geometry) (value : Nat) : Prop := value = 0 ∨ value % g.bound ≠ 0

theorem extend_eq_zero {accum : Nat} (h : g.extend accum = 0) : accum = 0 := by
  have := g.arch.two_pow_32_le
  unfold Geometry.extend at h
  split at h
  · omega
  · exact h

theorem WasSet.freeSet (hset : WasSet g i value v v') (hi : 2 ≤ i) (hlast : i ≤ g.lastCluster)
    (hplain : g.Plain value) :
    g.freeSet v'.disk =
      if value = 0 then insert i (g.freeSet v.disk) else (g.freeSet v.disk).erase i := by
  have hstored : g.fatEntry v'.disk i = 0 ↔ value = 0 := by
    rw [hset.set]
    constructor
    · exact fun hzero => hplain.resolve_right fun hne => hne (extend_eq_zero hzero)
    · intro hzero
      rw [hzero, extend_zero]
  ext j
  by_cases hj : j = i
  · subst hj
    rw [mem_freeSet, hstored]
    split
    · simp [*]
    · simp [*]
  · have hsame : j ∈ g.freeSet v'.disk ↔ j ∈ g.freeSet v.disk := by
      rw [mem_freeSet, mem_freeSet]
      constructor
      · exact fun ⟨h2, hle, hfree⟩ => ⟨h2, hle, (hset.others j h2 hle hj).symm.trans hfree⟩
      · exact fun ⟨h2, hle, hfree⟩ => ⟨h2, hle, (hset.others j h2 hle hj).trans hfree⟩
    rw [hsame]
    split
    · rw [Finset.mem_insert, or_iff_right hj]
    · rw [Finset.mem_erase, and_iff_right hj]

theorem WasSet.clusterCount (hset : WasSet g i value v v') (hi : 2 ≤ i)
    (hlast : i ≤ g.lastCluster) (hplain : g.Plain value) (hbound : g.lastCluster + 1 < 2 ^ 32)
    (h : v.free.clusterCount = (g.freeSet v.disk).card) :
    v'.free.clusterCount = (g.freeSet v'.disk).card := by
  have hcard := card_freeUpTo_le g v.disk g.lastCluster
  rw [← Geometry.freeSet] at hcard
  have hmem : i ∈ g.freeSet v.disk ↔ g.fatEntry v.disk i = 0 := by
    rw [mem_freeSet]
    exact ⟨fun hfree => hfree.2.2, fun hfree => ⟨hi, hlast, hfree⟩⟩
  rw [hset.freeSet hi hlast hplain, hset.free, FreeInfo.note]
  by_cases hvalue : value = 0
  · rw [if_pos hvalue]
    by_cases hfree : g.fatEntry v.disk i = 0
    · rw [if_neg (fun hnew => hnew.2 hfree), if_neg (fun hused => hused.1 hvalue),
        Finset.insert_eq_self.mpr (hmem.mpr hfree)]
      exact h
    · have hlt : (g.freeSet v.disk).card < g.lastCluster + 1 := by
        refine (Finset.card_lt_card (Finset.ssubset_iff_of_subset ?_ |>.mpr
          ⟨i, Finset.mem_range.mpr (Nat.lt_succ_of_le hlast), fun hmem' => hfree (hmem.mp hmem')⟩)
          ).trans_eq (Finset.card_range _)
        exact Finset.filter_subset _ _
      rw [if_pos ⟨hvalue, hfree⟩, Finset.card_insert_of_notMem (fun hmem' => hfree (hmem.mp hmem'))]
      dsimp only
      rw [h, Nat.mod_eq_of_lt (by omega)]
  · rw [if_neg hvalue, if_neg (fun hnew => hvalue hnew.1)]
    by_cases hfree : g.fatEntry v.disk i = 0
    · rw [if_pos ⟨hvalue, hfree⟩, Finset.card_erase_of_mem (hmem.mpr hfree)]
      dsimp only
      rw [h]
      split
      · rfl
      · omega
    · rw [if_neg (fun hused => hfree hused.2),
        Finset.erase_eq_of_notMem (fun hmem' => hfree (hmem.mp hmem'))]
      exact h

/-- A cluster that is freed is not below the hint. -/
theorem note_nextCluster (info : FreeInfo) (hi : i < 2 ^ 32) (value origVal : Nat) :
    (info.note i value origVal).nextCluster =
      if value = 0 ∧ origVal ≠ 0 then min i info.nextCluster else info.nextCluster := by
  unfold FreeInfo.note
  split
  · dsimp only
    rw [Nat.mod_eq_of_lt hi]
    split
    · omega
    · omega
  · split
    · rfl
    · rfl

@[simp] theorem note_valid (info : FreeInfo) (i value origVal : Nat) :
    (info.note i value origVal).valid = info.valid := by
  unfold FreeInfo.note
  split
  · rfl
  · split
    · rfl
    · rfl

/-! ## Histories of calls -/

/-- A volume, and the clusters that were handed out and are not in use yet. -/
structure Account (σ : Type) where
  vol : Vol σ
  handedOut : List Nat

/-- A volume on bytes. -/
abbrev FlatAccount := Account (Nat → Byte)

/-- The account of the bytes that a store shows. -/
def Account.view {σ : Type} (bytes : σ → Nat → Byte) (s : Account σ) : FlatAccount :=
  ⟨s.vol.view bytes, s.handedOut⟩

/-- A call, with what it returned. -/
inductive Call where
  | fatSetFatEntry (index value : Nat)
  | fatAllocateCluster (cluster : Nat)
  | fatComputeFreeInfo

/-- What a call does. -/
def Call.Step {σ : Type} (F : Store σ) (bytes : σ → Nat → Byte) (g : Geometry) (s : Account σ)
    (call : Call) (s' : Account σ) : Prop :=
  match call with
  | .fatSetFatEntry index value =>
    s'.vol = (Vol.fatSetFatEntry F g index value s.vol).2 ∧
      s'.handedOut = s.handedOut.filter fun c => g.fatEntry (bytes s'.vol.disk) c = 0
  | .fatAllocateCluster cluster =>
    (∃ fuel, Vol.fatAllocateCluster F g fuel s.vol = some (cluster, s'.vol)) ∧
      s'.handedOut = if g.EndOfFatChain cluster then s.handedOut else cluster :: s.handedOut
  | .fatComputeFreeInfo =>
    s'.vol = Vol.fatComputeFreeInfo F g s.vol ∧ s'.handedOut = s.handedOut

/-- The calls for a volume that was mounted on such a store with this info sector. -/
def calls {σ : Type} (F : Store σ) (bytes : σ → Nat → Byte) (start : σ → Prop) (g : Geometry)
    (info : Option FatInfoSector) : Machine (Account σ) Call where
  init s := start s.vol.disk ∧ s.vol.free = g.freeInfo info ∧ s.vol.diskError = false ∧
    s.vol.fatEntryPos = 0 ∧ s.handedOut = []
  step := Call.Step F bytes g

/-- The info sector is right about the table, if its number of free clusters is taken over. -/
def InfoTrue (g : Geometry) (info : Option FatInfoSector) (m : Nat → Byte) : Prop :=
  (g.freeInfo info).valid = true →
    (g.freeInfo info).clusterCount = (g.freeSet m).card ∧
      ∀ c ∈ g.freeSet m, (g.freeInfo info).nextCluster ≤ c

/-- If the free clusters are counted, those that were handed out are in use, or there is another
    one. -/
def MayAllocate {σ : Type} (bytes : σ → Nat → Byte) (g : Geometry) (s : Account σ) : Prop :=
  s.vol.free.valid = true →
    s.handedOut = [] ∨ ∃ c ∈ g.freeSet (bytes s.vol.disk), c ∉ s.handedOut

/-- Entries are set for clusters of the volume, to values that an entry holds. -/
def Careful {σ : Type} (bytes : σ → Nat → Byte) (g : Geometry) (s : Account σ) : Call → Prop
  | .fatSetFatEntry index value => index ≤ g.lastCluster ∧ g.Plain value
  | .fatAllocateCluster _ => MayAllocate bytes g s
  | .fatComputeFreeInfo => True

/-- What carries the run: a free cluster below the hint was handed out. -/
structure Accounted (g : Geometry) (s : FlatAccount) : Prop where
  diskError : s.vol.diskError = false
  hint : 2 ≤ s.vol.free.nextCluster
  count : s.vol.free.valid = true → s.vol.free.clusterCount = (g.freeSet s.vol.disk).card
  below : s.vol.free.valid = true →
    ∀ c ∈ g.freeSet s.vol.disk, c < s.vol.free.nextCluster → c ∈ s.handedOut

theorem hint_ge (g : Geometry) (nextCluster : Nat) : 2 ≤ g.hint nextCluster := by
  unfold Geometry.hint
  split
  · exact le_refl 2
  · omega

theorem freeInfo_hint (g : Geometry) (info : Option FatInfoSector) :
    2 ≤ (g.freeInfo info).nextCluster := by
  unfold Geometry.freeInfo
  split
  · split
    · exact hint_ge ..
    · exact le_refl 2
  · exact le_refl 2

theorem Accounted.start {info : Option FatInfoSector} {s : FlatAccount}
    (htrue : InfoTrue g info s.vol.disk) (hfree : s.vol.free = g.freeInfo info)
    (herror : s.vol.diskError = false) : Accounted g s := by
  refine ⟨herror, ?_, fun hvalid => ?_, fun hvalid c hc hlt => ?_⟩
  · rw [hfree]
    exact freeInfo_hint g info
  · rw [hfree] at hvalid ⊢
    exact (htrue hvalid).1
  · rw [hfree] at hvalid hlt
    have := (htrue hvalid).2 c hc
    omega

/-- Setting an entry of the volume. -/
theorem Accounted.set (h : Healthy g) {s s' : FlatAccount} (hs : Accounted g s) (hi : 2 ≤ i)
    (hlast : i ≤ g.lastCluster) (hplain : g.Plain value)
    (hvol : s'.vol = (Vol.fatSetFatEntry flat g i value s.vol).2)
    (hout : s'.handedOut = s.handedOut.filter fun c => g.fatEntry s'.vol.disk c = 0) :
    Accounted g s' := by
  have hbound := h.sound.lastCluster
  have hset := (h.set hi hlast value s.vol).2
  rw [← hvol] at hset
  have hnext := note_nextCluster s.vol.free (show i < 2 ^ 32 by omega) value
    (g.fatEntry s.vol.disk i)
  rw [← hset.free] at hnext
  have hvalid : s'.vol.free.valid = s.vol.free.valid := by rw [hset.free, note_valid]
  have hhint := hs.hint
  refine ⟨hset.diskError.trans hs.diskError, ?_, fun hv => ?_, fun hv c hc hlt => ?_⟩
  · rw [hnext]
    split
    · omega
    · exact hhint
  · exact hset.clusterCount hi hlast hplain hbound (hs.count (hvalid.symm.trans hv))
  · rw [hout, List.mem_filter]
    refine ⟨?_, decide_eq_true (mem_freeSet.mp hc).2.2⟩
    rw [hset.freeSet hi hlast hplain] at hc
    refine hs.below (hvalid.symm.trans hv) c ?_ ?_
    · by_cases hvalue : value = 0
      · rw [if_pos hvalue, Finset.mem_insert] at hc
        rcases hc with rfl | hc
        · -- it was free before, since otherwise the hint would be there
          by_contra hused
          have hne : g.fatEntry s.vol.disk c ≠ 0 :=
            fun hzero => hused (mem_freeSet.mpr ⟨hi, hlast, hzero⟩)
          rw [if_pos ⟨hvalue, hne⟩] at hnext
          omega
        · exact hc
      · rw [if_neg hvalue] at hc
        exact Finset.mem_of_mem_erase hc
    · split at hnext
      · omega
      · omega

/-- Handing out a cluster. -/
theorem Accounted.allocate (h : Healthy g) {s s' : FlatAccount} (hs : Accounted g s)
    (hres : Allocated g s.vol c s'.vol)
    (hout : s'.handedOut = if g.EndOfFatChain c then s.handedOut else c :: s.handedOut) :
    Accounted g s' := by
  have hlast := h.sound.last_lt
  have hcons : c ≤ g.lastCluster → s'.handedOut = c :: s.handedOut := by
    intro hc
    rw [hout, if_neg]
    unfold Geometry.EndOfFatChain
    omega
  cases hres with
  | found free from_hint first same info =>
    have hhint := hs.hint
    refine ⟨same.diskError.trans hs.diskError, ?_, fun hv => ?_, fun hv j hj hlt => ?_⟩
    · rw [info]
      show 2 ≤ c + 1
      omega
    · rw [info] at hv ⊢
      rw [same.disk]
      exact hs.count hv
    · rw [hcons (mem_freeSet.mp free).2.1]
      rw [info] at hv hlt
      rw [same.disk] at hj
      have hlt : j < c + 1 := hlt
      by_cases hjc : j = c
      · exact hjc ▸ List.mem_cons_self
      · -- nothing is free between the hint and the cluster that is found
        refine List.mem_cons_of_mem c (hs.below hv j hj ?_)
        by_contra hge
        have := first j hj (Nat.not_lt.mp hge)
        omega
  | counted free first below invalid same info =>
    have hc := mem_freeSet.mp free
    refine ⟨same.diskError.trans hs.diskError, ?_, fun hv => ?_, fun hv j hj hlt => ?_⟩
    · rw [info]
      show 2 ≤ c + 1
      omega
    · rw [info, same.disk]
    · -- the hint was set to the first free cluster of all
      rw [hcons hc.2.1]
      rw [info] at hlt
      rw [same.disk] at hj
      have hlt : j < c + 1 := hlt
      have := first j hj
      rw [show j = c by omega]
      exact List.mem_cons_self
  | none below empty same count next valid =>
    have hhint := hs.hint
    refine ⟨same.diskError.trans hs.diskError, by omega, fun hv => ?_, fun hv j hj hlt => ?_⟩
    · rw [count, same.disk]
      cases hvalid : s.vol.free.valid with
      | true => exact hs.count hvalid
      | false =>
        rw [empty hvalid]
        rfl
    · rw [same.disk] at hj
      cases hvalid : s.vol.free.valid with
      | true =>
        rw [hout]
        have hmem := hs.below hvalid j hj (below j hj)
        split
        · exact hmem
        · exact List.mem_cons_of_mem _ hmem
      | false =>
        rw [empty hvalid] at hj
        exact absurd hj (Finset.notMem_empty j)

theorem Accounted.compute (h : Healthy g) {s s' : FlatAccount} (hs : Accounted g s)
    (hvol : s'.vol = Vol.fatComputeFreeInfo flat g s.vol) (hout : s'.handedOut = s.handedOut) :
    Accounted g s' := by
  cases hvalid : s.vol.free.valid with
  | true =>
    rw [fatComputeFreeInfo_of_valid hvalid] at hvol
    refine ⟨?_, ?_, ?_, ?_⟩
    · rw [hvol]
      exact hs.diskError
    · rw [hvol]
      exact hs.hint
    · rw [hvol]
      exact hs.count
    · rw [hvol, hout]
      exact hs.below
  | false =>
    have hcomputed := fatComputeFreeInfo_computed h hs.diskError hvalid
    rw [← hvol] at hcomputed
    have hhint := hs.hint
    refine ⟨hcomputed.same.diskError.trans hs.diskError, ?_, fun _ => ?_, fun _ j hj hlt => ?_⟩
    · rcases hcomputed.least with hmem | ⟨-, hkeep⟩
      · exact (mem_freeSet.mp hmem).1
      · omega
    · rw [hcomputed.count, hcomputed.same.disk]
    · rw [hcomputed.same.disk] at hj
      have := hcomputed.le j hj
      omega

theorem Accounted.next (h : Healthy g) {s s' : FlatAccount} {call : Call} (hs : Accounted g s)
    (hcareful : Careful id g s call) (hstep : call.Step flat id g s s') : Accounted g s' := by
  cases call with
  | fatSetFatEntry index value =>
    obtain ⟨hvol, hout⟩ := hstep
    by_cases hi : 2 ≤ index
    · exact hs.set h hi hcareful.1 hcareful.2 hvol hout
    · rw [Vol.fatSetFatEntry_reserved (Nat.not_le.mp hi)] at hvol
      refine ⟨?_, ?_, ?_, fun hv c hc hlt => ?_⟩
      · rw [hvol]
        exact hs.diskError
      · rw [hvol]
        exact hs.hint
      · rw [hvol]
        exact hs.count
      · rw [hout, List.mem_filter]
        refine ⟨?_, decide_eq_true (mem_freeSet.mp hc).2.2⟩
        rw [hvol] at hv hc hlt
        exact hs.below hv c hc hlt
  | fatAllocateCluster cluster =>
    obtain ⟨⟨fuel, heq⟩, hout⟩ := hstep
    exact hs.allocate h (.of_eq h hs.diskError hs.hint heq) hout
  | fatComputeFreeInfo => exact hs.compute h hstep.1 hstep.2

/-! ## The calls on a cache -/

section Store

variable {σ : Type} {F : Store σ} {good : σ → Prop} {bytes : σ → Nat → Byte}

/-- A step on a store is a step on the bytes that it shows. -/
theorem Call.Step.view (hF : Shows F g good bytes) (hg : NoWrap g) {s s' : Account σ} {call : Call}
    (hs : Usable good s.vol) (hstep : call.Step F bytes g s s') :
    Usable good s'.vol ∧ call.Step flat id g (s.view bytes) (s'.view bytes) := by
  have hsees := hs.sees bytes
  cases call with
  | fatSetFatEntry index value =>
    obtain ⟨hvol, hout⟩ := hstep
    have hset := (hsees.fatSetFatEntry hF hg index value).2
    rw [← hvol] at hset
    exact ⟨hset.usable, hset.view.symm, hout⟩
  | fatAllocateCluster cluster =>
    obtain ⟨⟨fuel, hallocate⟩, hout⟩ := hstep
    have hrel := hsees.fatAllocateCluster hF hg fuel
    rw [hallocate] at hrel
    obtain ⟨⟨c, w⟩, hflat, hc, hset⟩ := hrel.some_left
    cases hc
    exact ⟨hset.usable, ⟨fuel, hflat.trans (congrArg (fun w => some (cluster, w)) hset.view)⟩, hout⟩
  | fatComputeFreeInfo =>
    obtain ⟨hvol, hout⟩ := hstep
    have hset := hsees.fatComputeFreeInfo hF hg
    rw [← hvol] at hset
    exact ⟨hset.usable, hset.view.symm, hout⟩

end Store

/-! ## The result -/

/-- `FatAllocateCluster` returns, with a free cluster if there is one and with none only if there is
    none. -/
structure FindsFree {σ : Type} (F : Store σ) (bytes : σ → Nat → Byte) (g : Geometry) (v : Vol σ) :
    Prop where
  returns : ∃ fuel, (Vol.fatAllocateCluster F g fuel v).isSome
  result : ∀ fuel c v', Vol.fatAllocateCluster F g fuel v = some (c, v') →
    c ∈ g.freeSet (bytes v.disk) ∨ g.freeSet (bytes v.disk) = ∅ ∧ c = g.clusterLast

theorem Accounted.findsFree (h : Healthy g) {s : FlatAccount} (hs : Accounted g s)
    (hmay : MayAllocate id g s) : FindsFree flat id g s.vol := by
  obtain ⟨fuel, c, v', heq, -⟩ := fatAllocateCluster_allocated h hs.diskError hs.hint
  refine ⟨⟨fuel, by rw [heq]; rfl⟩, fun fuel c v' heq => ?_⟩
  cases Allocated.of_eq h hs.diskError hs.hint heq with
  | found free => exact .inl free
  | counted free => exact .inl free
  | none below empty =>
    refine .inr ⟨?_, rfl⟩
    cases hvalid : s.vol.free.valid with
    | false => exact empty hvalid
    | true =>
      have hmem : ∀ c ∈ g.freeSet s.vol.disk, c ∈ s.handedOut :=
        fun c hc => hs.below hvalid c hc (below c hc)
      rcases hmay hvalid with hnil | ⟨c, hc, hnot⟩
      · refine Finset.eq_empty_of_forall_notMem fun c hc => ?_
        have hout := hmem c hc
        rw [hnil] at hout
        exact List.not_mem_nil hout
      · exact absurd (hmem c hc) hnot

theorem FindsFree.of_view {σ : Type} {F : Store σ} {good : σ → Prop} {bytes : σ → Nat → Byte}
    (hF : Shows F g good bytes) (hg : NoWrap g) {v : Vol σ} (hv : Usable good v)
    (hfinds : FindsFree flat id g (v.view bytes)) : FindsFree F bytes g v := by
  have hrel := fun fuel => (hv.sees bytes).fatAllocateCluster hF hg fuel
  refine ⟨?_, fun fuel c v' heq => ?_⟩
  · obtain ⟨fuel, hfuel⟩ := hfinds.returns
    exact ⟨fuel, (hrel fuel).isSome_eq.trans hfuel⟩
  · have hfuel := hrel fuel
    rw [heq] at hfuel
    obtain ⟨⟨c', w⟩, hflat, hc, -⟩ := hfuel.some_left
    cases hc
    exact hfinds.result fuel c w hflat

/-- After every history of careful calls the free info is right, and what is asked for next is
    found. -/
theorem allocation_exact (D : Drive) (g : Geometry) (L : Layout) (info : Option FatInfoSector)
    (m : Nat → Byte) (h : Healthy g) (hregime : Regime D g L) (htrue : InfoTrue g info m)
    {s : Account Volume}
    (hr : (calls (cached D) Volume.byte (fun x => Coherent D L x ∧ x.byte = m) g info).Reach
      (Careful Volume.byte g) s) :
    (s.vol.free.valid = true →
        s.vol.free.clusterCount = (g.freeSet s.vol.disk.byte).card) ∧
      (MayAllocate Volume.byte g s → FindsFree (cached D) Volume.byte g s.vol) := by
  have hF := hregime.shows
  have hg := hregime.noWrap h.sound
  have hs : Usable (Coherent D L) s.vol ∧ Accounted g (s.view Volume.byte) := by
    refine hr.rule (I := fun s => Usable (Coherent D L) s.vol ∧ Accounted g (s.view Volume.byte))
      (fun s hinit => ?_) ?_
    · obtain ⟨⟨hcoherent, rfl⟩, hfree, herror, hpos, -⟩ := hinit
      exact ⟨⟨hcoherent, by rw [hpos]; decide⟩, .start htrue hfree herror⟩
    · intro s call s' ⟨husable, hs⟩ hcareful hstep
      obtain ⟨husable', hflat⟩ := Call.Step.view hF hg husable hstep
      refine ⟨husable', hs.next h ?_ hflat⟩
      cases call <;> exact hcareful
  exact ⟨hs.2.count, fun hmay => .of_view hF hg hs.1 (hs.2.findsFree h hmay)⟩

/-- The volume after the free clusters were counted. -/
def countedAccount : Account Volume where
  vol := Vol.fatComputeFreeInfo (cached reliable) smallFat smallVol
  handedOut := []

/-- The volume after the end mark was written to cluster 3. -/
def linkedAccount : Account Volume where
  vol := (Vol.fatSetFatEntry (cached reliable) smallFat 3 0xfff countedAccount.vol).2
  handedOut := []

theorem allocation_exact_small :
    (linkedAccount.vol.free.valid = true →
        linkedAccount.vol.free.clusterCount =
          (smallFat.freeSet linkedAccount.vol.disk.byte).card) ∧
      (MayAllocate Volume.byte smallFat linkedAccount →
        FindsFree (cached reliable) Volume.byte smallFat linkedAccount.vol) := by
  have hstart : (calls (cached reliable) Volume.byte
      (fun x => Coherent reliable smallPages x ∧ x.byte = fun _ => 0) smallFat none).Reach
      (Careful Volume.byte smallFat) ⟨smallVol, []⟩ :=
    .start ⟨⟨small_medium.coherent rfl, small_medium.byte⟩, rfl, rfl, rfl, rfl⟩
  have hcount : Call.fatComputeFreeInfo.Step (cached reliable) Volume.byte smallFat
      ⟨smallVol, []⟩ countedAccount := ⟨by rw [countedAccount], rfl⟩
  have hlink : (Call.fatSetFatEntry 3 0xfff).Step (cached reliable) Volume.byte smallFat
      countedAccount linkedAccount := ⟨by rw [linkedAccount], rfl⟩
  have hcareful : Careful Volume.byte smallFat countedAccount (.fatSetFatEntry 3 0xfff) :=
    ⟨by decide, .inr (by decide)⟩
  have hlinked := (hstart.next (a := Call.fatComputeFreeInfo) trivial hcount).next hcareful hlink
  exact allocation_exact reliable smallFat smallPages none (fun _ => 0) smallFat_healthy
    smallFat_regime (fun hvalid => nomatch hvalid) hlinked

/-- Whatever the calls and the info sector, the free info is right and what is asked for is
    found. -/
def AlwaysExact : Prop :=
  ∀ (A : Arch) (b : BootSector) (g : Geometry) (D : Drive) (L : Layout)
    (info : Option FatInfoSector) (s : Account Volume), fatLocations A b = .ok g → Regime D g L →
    (calls (cached D) Volume.byte (Coherent D L) g info).Reach Machine.anyStep s →
    (s.vol.free.valid = true →
        s.vol.free.clusterCount = (g.freeSet s.vol.disk.byte).card) ∧
      FindsFree (cached D) Volume.byte g s.vol

/-- A FAT32 with one FAT and the least number of clusters. -/
def largeBoot : BootSector where
  ia32Jump := 0xeb
  sectorSize := 512
  sectorsPerCluster := 1
  reservedSectors := 32
  noFats := 1
  rootEntries := 0
  sectors := 0
  media := 0xf8
  sectorsPerFat := 0
  largeSectors := 66069
  largeSectorsPerFat := 512
  extendedFlags := 0
  fsVersion := 0
  rootDirFirstCluster := 2
  fsInfoSector := 1

def largeFat : Geometry where
  arch := .efi64
  fatType := .fat32
  noFats := 1
  rootEntries := 0
  rootCluster := 2
  volSize := 33827328
  fatPos := 16384
  fatSize := 262144
  rootPos := 278528
  firstClusterPos := 278528
  maxCluster := 65525
  clusterSize := 512

theorem largeFat_mounted : fatLocations .efi64 largeBoot = .ok largeFat := by decide +kernel

theorem largeFat_sound : Sound largeFat :=
  fatLocations_sound largeFat_mounted (by decide +kernel) (by decide +kernel)

theorem largeFat_healthy : Healthy largeFat := by
  refine ⟨largeFat_sound, ?_⟩
  unfold Addressable
  decide

def largePages : Layout :=
  { twoPages with
    pages := 66069
    pages_lt := Nat.le_of_ble_eq_true rfl }

theorem largeFat_regime : Regime reliable largeFat largePages :=
  ⟨rfl, by decide, fun _ => rfl, rfl⟩

/-- All clusters are free, and the hint is the last one. -/
def lastHint : FatInfoSector where
  signature := 0x41615252
  infoBeginSignature := 0x61417272
  infoEndSignature := 0xAA550000
  clusterCount := 65525
  nextCluster := 65526

/-- The volume as it is after mounting. -/
def lastHintVol : FlatVol := { blankVol with free := ⟨65525, 65526, true⟩ }

theorem cluster2_free : 2 ∈ largeFat.freeSet fun _ => 0 :=
  mem_freeSet.mpr ⟨le_refl 2, by decide +kernel, by decide +kernel⟩

/-- The last cluster is handed out, and then no other one is found. -/
theorem hint_hides_clusters : ¬AlwaysExact := by
  intro hall
  have hF := largeFat_regime.shows
  have hg := largeFat_regime.noWrap largeFat_sound
  have hdisk : Medium (List.replicate 33827328 0) largePages.size lastHintVol.disk :=
    .blank 33827328
  have hsees := lastHintVol.mounted_sees hdisk (by decide)
  have hinfo : largeFat.freeInfo lastHint = ⟨65525, 65526, true⟩ := by decide +kernel
  have hstart : (calls (cached reliable) Volume.byte (Coherent reliable largePages) largeFat
      lastHint).Reach Machine.anyStep
      ⟨lastHintVol.mounted largePages (List.replicate 33827328 0), []⟩ :=
    .start ⟨hsees.good, hinfo.symm, rfl, rfl, rfl⟩
  -- the first call, on the bytes and then on the cache
  have hfree : 65526 ∈ largeFat.freeSet fun _ => 0 :=
    mem_freeSet.mpr ⟨by decide, by decide +kernel, by decide +kernel⟩
  obtain ⟨w, hloop, hsame, hafter⟩ := allocateLoop_free largeFat_healthy (v := lastHintVol) hfree 0
  have hflat : Vol.fatAllocateCluster flat largeFat 1 lastHintVol = some (65526, w) := by
    rw [Vol.fatAllocateCluster, if_neg (show ¬lastHintVol.diskError = true from Bool.false_ne_true)]
    exact hloop
  have hrel := hsees.fatAllocateCluster hF hg 1
  rw [hflat] at hrel
  obtain ⟨⟨c, v⟩, hcached, hc, hsees⟩ := hrel.some_right
  cases hc
  have hstep : (calls (cached reliable) Volume.byte (Coherent reliable largePages) largeFat
      lastHint).step ⟨lastHintVol.mounted largePages (List.replicate 33827328 0), []⟩
      (.fatAllocateCluster 65526) ⟨v, [65526]⟩ :=
    ⟨⟨1, hcached⟩, (if_neg (by decide +kernel)).symm⟩
  have hnext := hstart.next trivial hstep
  -- the second call
  have hflat' : Vol.fatAllocateCluster flat largeFat 1 w = some (largeFat.clusterLast, w) := by
    rw [Vol.fatAllocateCluster, if_neg (by rw [hsame.diskError]; exact Bool.false_ne_true)]
    exact allocateLoop_full (by rw [hafter]; rfl) (by rw [hafter]; decide +kernel) 0
  have hrel := hsees.fatAllocateCluster hF hg 1
  rw [hflat'] at hrel
  obtain ⟨⟨c, v'⟩, hcached', hc, -⟩ := hrel.some_right
  cases hc
  have hdisk : v.disk.byte = fun _ => 0 :=
    (congrArg Vol.disk hsees.view).symm.trans hsame.disk
  rcases (hall .efi64 largeBoot largeFat _ _ lastHint _ largeFat_mounted largeFat_regime hnext).2.result
    1 _ v' hcached' with hmem | ⟨hempty, -⟩
  · exact absurd (mem_freeSet.mp hmem).2.1 (by decide +kernel)
  · have h2 := cluster2_free
    dsimp only at hempty
    rw [hdisk] at hempty
    rw [hempty] at h2
    exact absurd h2 (Finset.notMem_empty 2)

end EfiCore.Fat
