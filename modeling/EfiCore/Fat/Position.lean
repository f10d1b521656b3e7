import EfiCore.Fat.Shrinking
import EfiCore.Lib.Fuel
import EfiCore.Lib.Run

/-! # Seeking after any history

`FatOFilePosition` may begin where it was before.  It comes to the same place as a walk from the
first cluster, since what changes the chain either keeps the current cluster where it is or makes it
the first one.
-/

namespace EfiCore.Fat

open EfiCore.Lib

variable {g : Geometry} {v v' w : FlatVol} {f f' : OFile} {c i n position fuel : Nat}
  {l : List Nat}

/-! ## Positions behind the chain -/

/-- The loop comes to the end of the chain. -/
theorem seek_beyond (h : Regular g) {first : Nat} (hl : FileChain g v.disk first l)
    (hc : l[i]? = some c) (hbeyond : l.length * g.clusterSize ≤ position) :
    ∃ fuel v', Alike v v' ∧
      Vol.seek flat g position fuel (i * g.clusterSize) c v = some (none, v') := by
  have hsize := hl.size_lt h
  rw [Nat.add_mul] at hsize
  have hlt : i < l.length := (List.getElem?_eq_some_iff.mp hc).1
  obtain ⟨k, hk⟩ : ∃ k, k = l.length - i := ⟨_, rfl⟩
  induction k generalizing i c v with
  | zero => omega
  | succ k ih =>
    have hrange := hl.range c (List.mem_of_getElem? hc)
    obtain ⟨hread, halike⟩ := h.read hrange.2 v
    have hle : (i + 1) * g.clusterSize ≤ l.length * g.clusterSize := Nat.mul_le_mul_right _ hlt
    rw [Nat.add_mul, Nat.one_mul] at hle
    have hnext : i * g.clusterSize + g.clusterSize = (i + 1) * g.clusterSize := by
      rw [Nat.add_mul, Nat.one_mul]
    have hstep : ∀ fuel, Vol.seek flat g position (fuel + 1) (i * g.clusterSize) c v =
        Vol.seek flat g position fuel ((i + 1) * g.clusterSize) (g.fatEntry v.disk c)
          (Vol.fatGetFatEntry flat g c v).2 := by
      intro fuel
      rw [Vol.seek, if_neg (not_corrupt h.sound hrange.1 hrange.2), Nat.mod_eq_of_lt (by omega),
        if_neg (by omega), hnext]
      dsimp only
      rw [hread]
    rcases hl.next_eq hc with hsome | ⟨-, hend⟩
    · obtain ⟨fuel, v', halike', hseek⟩ := ih (hl.alike halike) hsome
        (List.getElem?_eq_some_iff.mp hsome).1 (by omega)
      exact ⟨fuel + 1, v', halike.trans halike', (hstep fuel).trans hseek⟩
    · refine ⟨2, _, halike, (hstep 1).trans ?_⟩
      rw [Vol.seek, if_pos (corrupt_of_end hend)]

/-- There is no such position in the file. -/
theorem fatOFilePosition_beyond (h : Regular g) (ho : Opened g v f l)
    (hbeyond : l.length * g.clusterSize ≤ position) :
    ∃ fuel v', Alike v v' ∧
      Vol.fatOFilePosition flat g fuel position f v = some (.volumeCorrupted, f, v') := by
  have hroot : ¬f.isFixedRootDir = true := by rw [ho.root]; exact Bool.false_ne_true
  have hpos := h.sound.clusterSize
  have hfinish : ∀ start, Vol.seekStart g f position = start →
      (∃ fuel v', Alike v v' ∧ Vol.seek flat g position fuel start.1 start.2 v = some (none, v')) →
      ∃ fuel v', Alike v v' ∧
        Vol.fatOFilePosition flat g fuel position f v = some (.volumeCorrupted, f, v') := by
    intro start hstart ⟨fuel, v', halike, hseek⟩
    refine ⟨fuel, v', halike, ?_⟩
    rw [Vol.fatOFilePosition, if_neg hroot, hstart]
    dsimp only
    rw [hseek]
    rfl
  by_cases hnil : l = []
  · -- the first cluster is none
    subst hnil
    have hfirst := ho.chain.empty rfl
    have hcurrent : f.fileCluster = f.fileCurrentCluster := by
      rcases ho.coupled with heq | hsome
      · exact heq.symm
      · cases hsome
    refine hfinish (0, 0) ?_ ⟨1, v, .refl v, ?_⟩
    · rw [Vol.seekStart, if_pos (.inr hcurrent), hfirst]
    · rw [Vol.seek, if_pos (.inl rfl)]
  · -- the walk begins at a cluster of the chain, as for the last position of the file
    have hlen : 0 < l.length := List.length_pos_iff.mpr hnil
    have hfirst := ho.chain.first_eq hnil
    by_cases hfrom : position < f.position ∨ f.fileCluster = f.fileCurrentCluster
    · have hstart : Vol.seekStart g f position = (0 * g.clusterSize, f.fileCluster) := by
        rw [Vol.seekStart, if_pos hfrom, Nat.zero_mul]
      exact hfinish _ hstart (seek_beyond h ho.chain hfirst hbeyond)
    · rw [not_or] at hfrom
      have hcurrent := ho.coupled.resolve_left fun heq => hfrom.2 heq.symm
      have hlt := (List.getElem?_eq_some_iff.mp hcurrent).1
      have hinside : f.position < l.length * g.clusterSize := (Nat.div_lt_iff_lt_mul hpos).mp hlt
      have hsize := ho.chain.size_lt h
      rw [Nat.add_mul] at hsize
      have hdiv := (Disk.driverLibDivU64x32_spec g.arch hpos
        (show f.position < 2 ^ 64 by omega)).2.2 (.inr (.inl (by have := h.clusterSize; omega)))
      have hmod := Nat.div_add_mod f.position g.clusterSize
      rw [Nat.mul_comm] at hmod
      have hstart : Vol.seekStart g f position =
          (f.position / g.clusterSize * g.clusterSize, f.fileCurrentCluster) := by
        rw [Vol.seekStart, if_neg (not_or.mpr hfrom), hdiv, Prod.mk.injEq]
        exact ⟨by omega, rfl⟩
      exact hfinish _ hstart (seek_beyond h ho.chain hcurrent hbeyond)

/-! ## More turns -/

theorem fatOFilePosition_steady {σ : Type} (F : Store σ) (g : Geometry) (position : Nat) (f : OFile)
    (v : Vol σ) : Steady fun fuel => Vol.fatOFilePosition F g fuel position f v := by
  unfold Vol.fatOFilePosition
  refine .ite (.const _) (.bind (fun _ _ => seek_mono) fun a => .elim (.const _) fun found => ?_)
  exact .ite (.const _) (.map (fun _ _ => extendRun_mono) _)

theorem freeChain_steady (g : Geometry) (c : Nat) (v : FlatVol) :
    Steady fun fuel => Vol.freeChain flat g fuel c v := by
  intro fuel r h k
  dsimp only at h ⊢
  induction fuel generalizing c v with
  | zero => cases h
  | succ fuel ih =>
    rw [Nat.succ_add]
    rw [Vol.freeChain] at h ⊢
    split
    · rename_i hend
      rwa [if_pos hend] at h
    · rename_i hend
      rw [if_neg hend] at h
      split
      · rename_i hcorrupt
        rwa [if_pos hcorrupt] at h
      · rename_i hcorrupt
        rw [if_neg hcorrupt] at h
        exact ih _ _ h

theorem fatShrinkEof_steady (g : Geometry) (f : OFile) (v : FlatVol) :
    Steady fun fuel => Vol.fatShrinkEof flat g fuel f v := by
  unfold Vol.fatShrinkEof
  refine .ite (.elim (.const _) fun found => ?_) (.ite (.const _) ?_)
  · exact .map (freeChain_steady g _ _) _
  · exact .map (freeChain_steady g _ _) _

theorem fatGrowEof_steady (g : Geometry) (newSize : Nat) (f : OFile) (v : FlatVol) :
    Steady fun fuel => Vol.fatGrowEof flat g fuel newSize f v := by
  unfold Vol.fatGrowEof
  refine .ite (.const _) (.ite (.bind (fun _ _ => findEnd_mono) fun a => ?_)
    (fun _ _ => growChain_mono))
  exact .ite (.const _) (fun _ _ => growChain_mono)

/-! ## Histories -/

/-- An open file and its volume. -/
structure Handle (σ : Type) where
  file : OFile
  vol : Vol σ

/-- A file of a volume on bytes. -/
abbrev FlatHandle := Handle (Nat → Byte)

/-- The file on the bytes that a store shows. -/
def Handle.view {σ : Type} (bytes : σ → Nat → Byte) (s : Handle σ) : FlatHandle :=
  ⟨s.file, s.vol.view bytes⟩

/-- What `FatSetFileInfo` makes of the file `new` when it moves the data of `f` to it. -/
def OFile.movedTo (f new : OFile) : OFile :=
  { new with
    fileSize := f.fileSize
    fileCluster := f.fileCluster
    fileCurrentCluster := f.fileCluster
    fileLastCluster := f.fileLastCluster
    attributes := f.attributes }

/-- What is done to a file. -/
inductive Access where
  | fatOFilePosition (position : Nat)
  | fatGrowEof (newSizeInBytes : Nat)
  | fatShrinkEof
  /-- The data is moved to a new file, which has no fixed place. -/
  | rename (new : OFile)
  /-- The size is set before the file is shrunk, or after it was written. -/
  | setSize (size : Nat)
  /-- Something else is done to the volume. -/
  | elsewhere

/-- What is done elsewhere leaves the chains of files as they are. -/
structure Elsewhere (g : Geometry) (f : OFile) (v v' : FlatVol) : Prop where
  chain : ∀ l, FileChain g v.disk f.fileCluster l → FileChain g v'.disk f.fileCluster l
  diskError : v'.diskError = v.diskError
  hint : 2 ≤ v.free.nextCluster → 2 ≤ v'.free.nextCluster

/-- What an access does. -/
def Access.Step {σ : Type} (F : Store σ) (good : σ → Prop) (bytes : σ → Nat → Byte) (g : Geometry)
    (s : Handle σ) (access : Access) (s' : Handle σ) : Prop :=
  match access with
  | .fatOFilePosition position => ∃ fuel status,
      Vol.fatOFilePosition F g fuel position s.file s.vol = some (status, s'.file, s'.vol)
  | .fatGrowEof newSize => ∃ fuel status,
      Vol.fatGrowEof F g fuel newSize s.file s.vol = some (status, s'.file, s'.vol)
  | .fatShrinkEof => ∃ fuel status,
      Vol.fatShrinkEof F g fuel s.file s.vol = some (status, s'.file, s'.vol)
  | .rename new => new.isFixedRootDir = false ∧ s'.file = s.file.movedTo new ∧ s'.vol = s.vol
  | .setSize size => s'.file = { s.file with fileSize := size } ∧ s'.vol = s.vol
  | .elsewhere => s'.file = s.file ∧ Usable good s'.vol ∧
      Elsewhere g s.file (s.vol.view bytes) (s'.vol.view bytes)

/-- A file is opened, and then it is accessed in any way. -/
def handles {σ : Type} (F : Store σ) (good : σ → Prop) (bytes : σ → Nat → Byte) (g : Geometry) :
    Machine (Handle σ) Access where
  init s := Usable good s.vol ∧ s.file.fileCurrentCluster = s.file.fileCluster ∧
    ∃ l, Opened g (s.vol.view bytes) s.file l
  step := Access.Step F good bytes g

theorem Opened.alike (h : Opened g v f l) (halike : Alike v v') : Opened g v' f l :=
  ⟨h.chain.alike halike, h.last, h.coupled, h.root, halike.diskError.trans h.diskError,
    by rw [halike.free]; exact h.hint⟩

theorem Opened.positioned (h : Opened g v f l) (hpos : Positioned g l position f f') :
    Opened g v f' l := by
  rw [hpos.file]
  exact ⟨h.chain, h.last, .inr hpos.cluster, h.root, h.diskError, h.hint⟩

theorem Opened.fatOFilePosition (h : Regular g) (ho : Opened g v f l) {status : Status}
    (heq : Vol.fatOFilePosition flat g fuel position f v = some (status, f', v')) :
    Opened g v' f' l := by
  by_cases hto : position < l.length * g.clusterSize
  · obtain ⟨fuel', f₁, v₁, halike, hpos, hres⟩ :=
      fatOFilePosition_eq h ho.chain ho.root ho.coupled hto
    cases (fatOFilePosition_steady flat g position f v).unique heq hres
    exact (ho.positioned hpos).alike halike
  · obtain ⟨fuel', v₁, halike, hres⟩ := fatOFilePosition_beyond h ho (Nat.not_lt.mp hto)
    cases (fatOFilePosition_steady flat g position f v).unique heq hres
    exact ho.alike halike

/-- The chain has not as many clusters as the size calls for. -/
theorem fatGrowEof_mismatch (h : Regular g) (ho : Opened g v f l) {newSize : Nat}
    (hneed : g.fatSizeToClusters f.fileSize < g.fatSizeToClusters newSize) (hnil : l ≠ [])
    (hunknown : f.fileLastCluster = 0) (hlen : l.length ≠ g.fatSizeToClusters f.fileSize) :
    ∃ fuel v', Alike v v' ∧ Vol.fatGrowEof flat g fuel newSize f v =
      some (.volumeCorrupted, { f with fileLastCluster := l.getLastD 0 }, v') := by
  have hfirst : f.fileCluster ≠ 0 := fun hzero => hnil (ho.chain.first_eq_zero.mp hzero)
  obtain ⟨e, he, hseg⟩ := ho.chain.links hnil
  have hbound := ho.chain.length_le h.sound
  have hlastBound := h.sound.lastCluster
  obtain ⟨fuel, v₁, halike, hend⟩ := findEnd_eq h hseg he ho.chain.range 0 0 (by omega)
  refine ⟨fuel, v₁, halike, ?_⟩
  rw [Vol.fatGrowEof]
  dsimp only
  rw [if_neg (by omega), if_pos ⟨hfirst, hunknown⟩, hunknown, hend, Option.bind_some]
  dsimp only
  rw [Nat.zero_add, if_pos (.inr hlen)]

theorem Opened.fatGrowEof (h : Regular g) (ho : Opened g v f l) {newSize : Nat}
    {status : Status} (heq : Vol.fatGrowEof flat g fuel newSize f v = some (status, f', v')) :
    ∃ l', Opened g v' f' l' := by
  by_cases hneed : g.fatSizeToClusters f.fileSize < g.fatSizeToClusters newSize
  · by_cases hknown : l = [] ∨ f.fileLastCluster ≠ 0 ∨ l.length = g.fatSizeToClusters f.fileSize
    · obtain ⟨fuel', new, v₁, -, -, -, -, ho', hres⟩ := fatGrowEof_eq h ho hneed hknown
      cases (fatGrowEof_steady g newSize f v).unique heq hres
      exact ⟨_, ho'⟩
    · rw [not_or, not_or, not_not] at hknown
      obtain ⟨fuel', v₁, halike, hres⟩ :=
        fatGrowEof_mismatch h ho hneed hknown.1 hknown.2.1 hknown.2.2
      cases (fatGrowEof_steady g newSize f v).unique heq hres
      refine ⟨l, (ho.chain.alike halike), .inr ?_, ho.coupled, ho.root,
        halike.diskError.trans ho.diskError, by rw [halike.free]; exact ho.hint⟩
      dsimp only
      rw [List.getLastD_eq_getLast?, List.getLast?_eq_some_getLast hknown.1, Option.getD_some]
  · have hres : Vol.fatGrowEof flat g fuel newSize f v = some (.success, f, v) := by
      rw [Vol.fatGrowEof]
      dsimp only
      rw [if_pos (Nat.not_lt.mp hneed)]
    rw [hres] at heq
    cases heq
    exact ⟨l, ho⟩

theorem Opened.fatShrinkEof (h : Regular g) (ho : Opened g v f l) {status : Status}
    (heq : Vol.fatShrinkEof flat g fuel f v = some (status, f', v')) : ∃ l', Opened g v' f' l' := by
  by_cases hsize : g.fatSizeToClusters f.fileSize ≤ l.length
  · have hsplit := List.take_append_drop (g.fatSizeToClusters f.fileSize) l
    rw [← hsplit] at ho
    obtain ⟨fuel', v₁, hres, ho', -⟩ := fatShrinkEof_eq h ho
      (List.length_take_of_le hsize).symm
    cases (fatShrinkEof_steady g f v).unique heq hres
    exact ⟨_, ho'⟩
  · obtain ⟨v₁, halike, hres⟩ := fatShrinkEof_short h ho (Nat.not_le.mp hsize) fuel
    rw [hres] at heq
    cases heq
    refine ⟨l, Opened.alike ?_ halike⟩
    exact ⟨ho.chain, ho.last, ho.coupled, ho.root, ho.diskError, ho.hint⟩

theorem Opened.step (h : Regular g) {good : (Nat → Byte) → Prop} {s s' : FlatHandle}
    {access : Access} (ho : Opened g s.vol s.file l) (hstep : access.Step flat good id g s s') :
    ∃ l', Opened g s'.vol s'.file l' := by
  cases access with
  | fatOFilePosition position =>
    obtain ⟨fuel, status, heq⟩ := hstep
    exact ⟨l, ho.fatOFilePosition h heq⟩
  | fatGrowEof newSize =>
    obtain ⟨fuel, status, heq⟩ := hstep
    exact ho.fatGrowEof h heq
  | fatShrinkEof =>
    obtain ⟨fuel, status, heq⟩ := hstep
    exact ho.fatShrinkEof h heq
  | rename new =>
    obtain ⟨hroot, hfile, hvol⟩ := hstep
    rw [hfile, hvol]
    exact ⟨l, ho.chain, ho.last, .inl rfl, hroot, ho.diskError, ho.hint⟩
  | setSize size =>
    obtain ⟨hfile, hvol⟩ := hstep
    rw [hfile, hvol]
    exact ⟨l, ho.chain, ho.last, ho.coupled, ho.root, ho.diskError, ho.hint⟩
  | elsewhere =>
    obtain ⟨hfile, -, helse⟩ := hstep
    rw [hfile]
    exact ⟨l, helse.chain l ho.chain, ho.last, ho.coupled, ho.root,
      helse.diskError.trans ho.diskError, helse.hint ho.hint⟩

/-! ## Accesses on a cache -/

section Store

variable {σ : Type} {F : Store σ} {good : σ → Prop} {bytes : σ → Nat → Byte}

/-- A result on a store is a result on the bytes that it shows. -/
theorem SeesFile.view_left {o : Option (Status × OFile × Vol σ)}
    {o' : Option (Status × OFile × FlatVol)} {status : Status} {x : Handle σ}
    (h : Option.Rel (SeesFile good bytes) o o') (heq : o = some (status, x.file, x.vol)) :
    Usable good x.vol ∧ o' = some (status, x.file, x.vol.view bytes) := by
  rw [heq] at h
  obtain ⟨⟨status', f, w⟩, heq', hstatus, hfile, hsees⟩ := h.some_left
  cases hstatus
  cases hfile
  exact ⟨hsees.usable, heq'.trans (congrArg (fun w => some (status, x.file, w)) hsees.view)⟩

/-- And the other way round. -/
theorem SeesFile.view_right {o : Option (Status × OFile × Vol σ)}
    {o' : Option (Status × OFile × FlatVol)} {status : Status} {y : FlatHandle}
    (h : Option.Rel (SeesFile good bytes) o o') (heq : o' = some (status, y.file, y.vol)) :
    ∃ x : Handle σ, Usable good x.vol ∧ x.view bytes = y ∧
      o = some (status, x.file, x.vol) := by
  rw [heq] at h
  obtain ⟨⟨status', f, v⟩, heq', hstatus, hfile, hsees⟩ := h.some_right
  cases hstatus
  cases hfile
  refine ⟨⟨y.file, v⟩, hsees.usable, ?_, heq'⟩
  rw [Handle.view, ← hsees.view]

theorem Access.Step.view (hF : Shows F g good bytes) (hg : NoWrap g) {s s' : Handle σ}
    {access : Access} (hs : Usable good s.vol) (hstep : access.Step F good bytes g s s') :
    Usable good s'.vol ∧ access.Step flat (fun _ => True) id g (s.view bytes) (s'.view bytes) := by
  have hsees := hs.sees bytes
  cases access with
  | fatOFilePosition position =>
    obtain ⟨fuel, status, heq⟩ := hstep
    obtain ⟨husable, hflat⟩ :=
      SeesFile.view_left (hsees.fatOFilePosition hF hg fuel position s.file) heq
    exact ⟨husable, fuel, status, hflat⟩
  | fatGrowEof newSize =>
    obtain ⟨fuel, status, heq⟩ := hstep
    obtain ⟨husable, hflat⟩ := SeesFile.view_left (hsees.fatGrowEof hF hg fuel newSize s.file) heq
    exact ⟨husable, fuel, status, hflat⟩
  | fatShrinkEof =>
    obtain ⟨fuel, status, heq⟩ := hstep
    obtain ⟨husable, hflat⟩ := SeesFile.view_left (hsees.fatShrinkEof hF hg fuel s.file) heq
    exact ⟨husable, fuel, status, hflat⟩
  | rename new =>
    obtain ⟨hroot, hfile, hvol⟩ := hstep
    exact ⟨hvol ▸ hs, hroot, hfile, congrArg (Vol.view bytes) hvol⟩
  | setSize size =>
    obtain ⟨hfile, hvol⟩ := hstep
    exact ⟨hvol ▸ hs, hfile, congrArg (Vol.view bytes) hvol⟩
  | elsewhere =>
    obtain ⟨hfile, husable, helse⟩ := hstep
    exact ⟨husable, hfile, ⟨trivial, husable.entryPos⟩, helse⟩

/-- What is done on bytes can be done on a store that shows them. -/
theorem Access.Step.lift (hF : Shows F g good bytes) (hg : NoWrap g) {s : Handle σ}
    {t' : FlatHandle} {access : Access} (hs : Usable good s.vol) (hhere : access ≠ .elsewhere)
    (hstep : access.Step flat (fun _ => True) id g (s.view bytes) t') :
    ∃ s', access.Step F good bytes g s s' ∧ Usable good s'.vol ∧ s'.view bytes = t' := by
  have hsees := hs.sees bytes
  cases access with
  | fatOFilePosition position =>
    obtain ⟨fuel, status, heq⟩ := hstep
    obtain ⟨s', husable, hview, hres⟩ :=
      SeesFile.view_right (hsees.fatOFilePosition hF hg fuel position s.file) heq
    exact ⟨s', ⟨fuel, status, hres⟩, husable, hview⟩
  | fatGrowEof newSize =>
    obtain ⟨fuel, status, heq⟩ := hstep
    obtain ⟨s', husable, hview, hres⟩ :=
      SeesFile.view_right (hsees.fatGrowEof hF hg fuel newSize s.file) heq
    exact ⟨s', ⟨fuel, status, hres⟩, husable, hview⟩
  | fatShrinkEof =>
    obtain ⟨fuel, status, heq⟩ := hstep
    obtain ⟨s', husable, hview, hres⟩ := SeesFile.view_right (hsees.fatShrinkEof hF hg fuel s.file) heq
    exact ⟨s', ⟨fuel, status, hres⟩, husable, hview⟩
  | rename new =>
    obtain ⟨hroot, hfile, hvol⟩ := hstep
    refine ⟨⟨s.file.movedTo new, s.vol⟩, ⟨hroot, rfl, rfl⟩, hs, ?_⟩
    rw [Handle.view, ← show t'.file = s.file.movedTo new from hfile,
      ← show t'.vol = s.vol.view bytes from hvol]
  | setSize size =>
    obtain ⟨hfile, hvol⟩ := hstep
    refine ⟨⟨{ s.file with fileSize := size }, s.vol⟩, ⟨rfl, rfl⟩, hs, ?_⟩
    rw [Handle.view, ← show t'.file = { s.file with fileSize := size } from hfile,
      ← show t'.vol = s.vol.view bytes from hvol]
  | elsewhere => exact absurd rfl hhere

/-- In every history the position and the current cluster belong together. -/
theorem opened_of_reach (hF : Shows F g good bytes) (h : Regular g) (hg : NoWrap g)
    {s : Handle σ} (hr : (handles F good bytes g).Reach Machine.anyStep s) :
    Usable good s.vol ∧ ∃ l, Opened g (s.vol.view bytes) s.file l := by
  refine hr.rule (I := fun s => Usable good s.vol ∧ ∃ l, Opened g (s.vol.view bytes) s.file l) ?_ ?_
  · exact fun s hinit => ⟨hinit.1, hinit.2.2⟩
  intro s access s' ⟨husable, l, ho⟩ _ hstep
  obtain ⟨husable', hflat⟩ := Access.Step.view hF hg husable hstep
  exact ⟨husable', Opened.step h (s := s.view bytes) ho hflat⟩

end Store

/-! ## The walk from the first cluster -/

/-- The cluster that so many links lead to. -/
def Geometry.walk (g : Geometry) (m : Nat → Byte) : Nat → Nat → Nat
  | 0, c => c
  | n + 1, c => walk g m n (g.fatEntry m c)

theorem FileChain.walk {m : Nat → Byte} {first : Nat} (hl : FileChain g m first l)
    (hi : i < l.length) : l[i]? = some (g.walk m i first) := by
  have hwalk : ∀ k c j, l[j]? = some c → j + k < l.length → l[j + k]? = some (g.walk m k c) := by
    intro k
    induction k with
    | zero => exact fun c j hc _ => hc
    | succ k ih =>
      intro c j hc hlt
      have hnext : l[j + 1]? = some (g.fatEntry m c) := by
        rcases hl.next_eq hc with hnext | ⟨hend, -⟩
        · exact hnext
        · omega
      rw [show j + (k + 1) = j + 1 + k by omega]
      exact ih _ (j + 1) hnext (by omega)
  have hfirst := hl.first_eq (by rintro rfl; exact absurd hi (Nat.not_lt_zero i))
  have hres := hwalk i first 0 hfirst (by omega)
  rwa [Nat.zero_add] at hres

/-- The file was taken to where a walk from its first cluster comes to. -/
structure AtWalk (g : Geometry) (m : Nat → Byte) (l : List Nat) (position : Nat) (f f' : OFile) :
    Prop where
  at_position : f'.position = position
  cluster : f'.fileCurrentCluster = g.walk m (position / g.clusterSize) f.fileCluster
  posDisk : f'.posDisk = g.firstClusterPos +
    (g.walk m (position / g.clusterSize) f.fileCluster - 2) * g.clusterSize +
    position % g.clusterSize
  posRem : 0 < f'.posRem
  run : ∀ k < f'.posRem, g.bytePos l (position + k) = some (f'.posDisk + k)

theorem Opened.walks (h : Regular g) (ho : Opened g v f l)
    (hto : position < l.length * g.clusterSize) :
    ∃ fuel f' v', Vol.fatOFilePosition flat g fuel position f v = some (.success, f', v') ∧
      AtWalk g v.disk l position f f' := by
  obtain ⟨fuel, f', v', -, hpos, hres⟩ := fatOFilePosition_eq h ho.chain ho.root ho.coupled hto
  have hlt : position / g.clusterSize < l.length :=
    (Nat.div_lt_iff_lt_mul h.sound.clusterSize).mpr hto
  have hcluster : f'.fileCurrentCluster =
      g.walk v.disk (position / g.clusterSize) f.fileCluster :=
    Option.some.inj (hpos.cluster.symm.trans (ho.chain.walk hlt))
  refine ⟨fuel, f', v', hres, ?_, hcluster, ?_, hpos.posRem, hpos.run⟩
  · rw [hpos.file]
  · have hbyte := hpos.run 0 hpos.posRem
    rw [Nat.add_zero, Geometry.bytePos, hpos.cluster, hcluster] at hbyte
    exact (Option.some.inj hbyte).symm

theorem smallFat_regular : Regular smallFat where
  toHealthy := smallFat_healthy
  toSpacious := fatLocations_spacious smallFat_mounted (by decide) (by decide +kernel)

/-! ## Files on a disk -/

/-- The file after an access that ended. -/
def Handle.after (s : FlatHandle) (o : Option (Status × OFile × FlatVol)) : FlatHandle :=
  (o.map fun r => ⟨r.2.1, r.2.2⟩).getD s

theorem Handle.after_eq {s : FlatHandle} {o : Option (Status × OFile × FlatVol)}
    (h : o.isSome = true) : ∃ status, o = some (status, (s.after o).file, (s.after o).vol) := by
  obtain ⟨r, rfl⟩ := Option.isSome_iff_exists.mp h
  exact ⟨r.1, rfl⟩

/-- A disk on which cluster 2 is a chain of its own. -/
def oneClusterDisk : List Byte := splice (List.replicate 3584 0) 515 [0xff, 0x0f, 0x00]

def oneClusterVol : FlatVol := { blankVol with disk := putBytes (fun _ => 0) 515 [0xff, 0x0f, 0x00] }

/-- A file of that cluster, as it is when it was opened. -/
def oneClusterFile : OFile where
  fileSize := 7
  fileCluster := 2
  fileCurrentCluster := 2
  fileLastCluster := 0
  attributes := 0
  isFixedRootDir := false
  dirty := false
  position := 0
  posDisk := 0
  posRem := 0

theorem oneCluster_chain : FileChain smallFat oneClusterVol.disk 2 [2] :=
  .of_segment (e := 2 ^ 64 - 1) (by decide) (by decide) (by decide)
    ⟨rfl, by rw [segment_nil]; decide +kernel⟩

theorem oneCluster_opened : Opened smallFat oneClusterVol oneClusterFile [2] :=
  ⟨oneCluster_chain, .inl rfl, .inl rfl, rfl, rfl, by decide⟩

theorem oneCluster_medium : Medium oneClusterDisk smallPages.size oneClusterVol.disk :=
  (Medium.blank 3584).splice (by decide)

/-- The file on a volume that was mounted. -/
def oneCluster : Handle Volume := ⟨oneClusterFile, oneClusterVol.mounted smallPages oneClusterDisk⟩

/-- The file after it was grown by a cluster. -/
def twoClusters : FlatHandle :=
  Handle.after ⟨oneClusterFile, oneClusterVol⟩
    (Vol.fatGrowEof flat smallFat 9 600 oneClusterFile oneClusterVol)

theorem twoClusters_chain :
    FileChain smallFat twoClusters.vol.disk twoClusters.file.fileCluster [2, 3] :=
  .of_segment (e := 2 ^ 64 - 1) (by decide) (by decide) (by decide)
    ⟨by decide +kernel, by decide +kernel, by rw [segment_nil]; decide +kernel⟩

/-- After any history on the volume, seeking is the same as a walk from the first cluster. -/
def WalksOn (b : BootSector) (D : Drive) : Prop :=
  ∀ (A : Arch) (g : Geometry) (L : Layout) (s : Handle Volume) (l : List Nat) (position : Nat),
    fatLocations A b = .ok g → L.size = g.volSize →
    (handles (cached D) (Coherent D L) Volume.byte g).Reach Machine.anyStep s →
    FileChain g s.vol.disk.byte s.file.fileCluster l → position < l.length * g.clusterSize →
    ∃ fuel f' v', Vol.fatOFilePosition (cached D) g fuel position s.file s.vol =
        some (.success, f', v') ∧ AtWalk g s.vol.disk.byte l position s.file f'

/-- A FAT12 of 400 clusters, whose two FATs have room for 341 entries each. -/
def shortBoot : BootSector := { smallBoot with noFats := 2, sectors := 404 }

def shortFat : Geometry where
  arch := .efi64
  fatType := .fat12
  noFats := 2
  rootEntries := 16
  rootCluster := 0
  volSize := 206848
  fatPos := 512
  fatSize := 512
  rootPos := 1536
  firstClusterPos := 2048
  maxCluster := 400
  clusterSize := 512

theorem shortFat_mounted : fatLocations .efi64 shortBoot = .ok shortFat := by decide +kernel

def shortPages : Layout :=
  { twoPages with
    pages := 404
    pages_lt := Nat.le_of_ble_eq_true rfl }

theorem shortFat_regime : Regime reliable shortFat shortPages :=
  ⟨rfl, by decide, fun _ => rfl, rfl⟩

/-- Clusters 2, 345 and 4 are a chain.  The entry of cluster 345 is in the second FAT, at its bytes 5
    and 6, where the first FAT has the entries 3 and 4. -/
def shortDisk : List Byte :=
  splice (splice (splice (List.replicate 206848 0) 515 [0x59, 0x01, 0x00, 0xff, 0x0f])
    606 [0xf0, 0xff]) 1029 [0x40]

def shortVol : FlatVol := { blankVol with
  disk := putBytes (putBytes (putBytes (fun _ => 0) 515 [0x59, 0x01, 0x00, 0xff, 0x0f])
    606 [0xf0, 0xff]) 1029 [0x40] }

/-- A file of the three clusters. -/
def shortFile : OFile := { oneClusterFile with fileSize := 1536 }

/-- The file after it was taken to its third cluster. -/
def shortSought : FlatHandle :=
  Handle.after ⟨shortFile, shortVol⟩ (Vol.fatOFilePosition flat shortFat 9 1024 shortFile shortVol)

/-- The file after it was grown by a cluster. -/
def shortGrown : FlatHandle :=
  shortSought.after (Vol.fatGrowEof flat shortFat 9 1537 shortSought.file shortSought.vol)

theorem shortFat_noWrap : NoWrap shortFat := by
  refine ⟨fun i hi => ?_, by decide⟩
  have hlast : shortFat.lastCluster = 401 := by decide
  have hoffset : shortFat.entryOffset i = i * 3 % 2 ^ 64 / 2 := rfl
  have hpos : shortFat.fatPos = 512 := rfl
  rw [hoffset, hpos, Nat.mod_eq_of_lt (by omega)]
  omega

theorem short_medium : Medium shortDisk shortPages.size shortVol.disk :=
  (((Medium.blank 206848).splice (by decide)).splice (by decide)).splice (by decide)

theorem short_chain : FileChain shortFat shortVol.disk 2 [2, 345, 4] :=
  .of_segment (e := 2 ^ 64 - 1) (by decide) (by decide) (by decide)
    ⟨rfl, by decide +kernel, by decide +kernel, by rw [segment_nil]; decide +kernel⟩

theorem short_opened : Opened shortFat shortVol shortFile [2, 345, 4] :=
  ⟨short_chain, .inl rfl, .inl rfl, rfl, rfl, by decide⟩

theorem shortGrown_chain :
    FileChain shortFat shortGrown.vol.disk shortGrown.file.fileCluster [2, 345, 63] :=
  .of_segment (e := 2 ^ 64 - 1) (by decide) (by decide) (by decide)
    ⟨by decide +kernel, by decide +kernel, by decide +kernel, by rw [segment_nil]; decide +kernel⟩

/-- Growing the file changes the entry of its second cluster, and the file stays at the third one of
    before. -/
theorem shortBoot_strays : ¬WalksOn shortBoot reliable := by
  intro hall
  have hF := shortFat_regime.shows
  have hsees := shortVol.mounted_sees short_medium (by decide)
  have hstart : (handles (cached reliable) (Coherent reliable shortPages) Volume.byte shortFat).Reach
      Machine.anyStep ⟨shortFile, shortVol.mounted shortPages shortDisk⟩ :=
    .start ⟨hsees.usable, rfl, [2, 345, 4], hsees.view ▸ short_opened⟩
  have hseek : (Access.fatOFilePosition 1024).Step flat (fun _ => True) id shortFat
      (Handle.view Volume.byte ⟨shortFile, shortVol.mounted shortPages shortDisk⟩) shortSought := by
    rw [Handle.view, ← hsees.view]
    exact ⟨9, Handle.after_eq (by decide +kernel)⟩
  obtain ⟨s, hstep, husable, hsought⟩ :=
    Access.Step.lift hF shortFat_noWrap hsees.usable (fun h => by cases h) hseek
  have hgrow : (Access.fatGrowEof 1537).Step flat (fun _ => True) id shortFat
      (s.view Volume.byte) shortGrown := by
    rw [hsought]
    exact ⟨9, Handle.after_eq (by decide +kernel)⟩
  obtain ⟨s', hstep', husable', hgrown⟩ :=
    Access.Step.lift hF shortFat_noWrap husable (fun h => by cases h) hgrow
  have hreach : (handles (cached reliable) (Coherent reliable shortPages) Volume.byte shortFat).Reach
      Machine.anyStep s' :=
    (hstart.next (a := Access.fatOFilePosition 1024) trivial hstep).next
      (a := Access.fatGrowEof 1537) trivial hstep'
  have hdisk : s'.vol.disk.byte = shortGrown.vol.disk := congrArg (fun s => s.vol.disk) hgrown
  have hvol : s'.vol.view Volume.byte = shortGrown.vol := congrArg Handle.vol hgrown
  have hfile : s'.file = shortGrown.file := congrArg Handle.file hgrown
  obtain ⟨fuel, f', v', hres, hwalk⟩ := hall .efi64 shortFat shortPages s' [2, 345, 63] 1024
    shortFat_mounted rfl hreach
    (by rw [hdisk, hfile]; exact shortGrown_chain) (by decide)
  obtain ⟨-, hflat⟩ := SeesFile.view_left (x := ⟨f', v'⟩)
    ((husable'.sees Volume.byte).fatOFilePosition hF shortFat_noWrap fuel 1024 s'.file) hres
  rw [hfile, hvol] at hflat
  obtain ⟨status, hcached⟩ := Handle.after_eq (s := shortGrown)
    (show (Vol.fatOFilePosition flat shortFat 9 1024 shortGrown.file shortGrown.vol).isSome = true by
      decide +kernel)
  have heq := (fatOFilePosition_steady flat shortFat 1024 shortGrown.file shortGrown.vol).unique hflat
    hcached
  -- the walk comes to cluster 63, and the file is taken to cluster 4
  have hcluster := hwalk.cluster
  rw [hdisk, hfile, show f' = _ from congrArg (fun r => r.2.1) heq] at hcluster
  dsimp only at hcluster
  revert hcluster
  decide +kernel

/-- A chain of clusters 2 and 3. -/
def chainDisk : List Byte := splice (List.replicate 3584 0) 515 [0x03, 0xf0, 0xff]

def chainVol : FlatVol := { blankVol with disk := putBytes (fun _ => 0) 515 [0x03, 0xf0, 0xff] }

/-- A file of the two clusters. -/
def chainFile : OFile := { oneClusterFile with fileSize := 700 }

theorem chain_opened : Opened smallFat chainVol chainFile [2, 3] := by
  refine ⟨.of_segment (e := 2 ^ 64 - 1) (by decide) (by decide) (by decide)
    ⟨rfl, by decide +kernel, ?_⟩, .inl rfl, .inl rfl, rfl, rfl, by decide⟩
  rw [segment_nil]
  decide +kernel

/-- An entry that cannot be read is taken for the end of the chain. -/
theorem firstFail_strays : ¬WalksOn smallBoot firstFail := by
  intro hall
  have hmedium : Medium chainDisk smallPages.size chainVol.disk :=
    (Medium.blank 3584).splice (by decide)
  have hview : (chainVol.mounted smallPages chainDisk).view Volume.byte = chainVol :=
    (chainVol.mounted_sees hmedium (by decide)).view.symm
  have hbyte : (chainVol.mounted smallPages chainDisk).disk.byte = chainVol.disk := hmedium.byte
  obtain ⟨fuel, f', v', hres, -⟩ := hall .efi64 smallFat smallPages
    ⟨chainFile, chainVol.mounted smallPages chainDisk⟩ [2, 3] 600 smallFat_mounted rfl
    (.start ⟨⟨hmedium.coherent rfl, by decide⟩, rfl, [2, 3], hview.symm ▸ chain_opened⟩)
    (hbyte.symm ▸ chain_opened.chain) (by decide)
  have hcorrupted : (Vol.fatOFilePosition (cached firstFail) smallFat 9 600 chainFile
      (chainVol.mounted smallPages chainDisk)).map Prod.fst = some .volumeCorrupted := by
    decide +kernel
  obtain ⟨r, hnine, hstatus⟩ := Option.map_eq_some_iff.mp hcorrupted
  have heq := (fatOFilePosition_steady (cached firstFail) smallFat 600 chainFile
    (chainVol.mounted smallPages chainDisk)).unique hres hnine
  rw [← heq] at hstatus
  cases hstatus

end EfiCore.Fat
