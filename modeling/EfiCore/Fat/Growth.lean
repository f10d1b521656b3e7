import EfiCore.Fat.FreeCount
import EfiCore.Fat.Seek

/-! # Growing a chain

`FatGrowEof` asks for one cluster after the other and links each to the one before.  The cluster it
has got last is not in use yet: when the free clusters are counted in between, it is one of them,
and it may be handed out twice.
-/

namespace EfiCore.Fat

open EfiCore.Lib

variable {g : Geometry} {v v' w : FlatVol} {f : OFile} {c p n value fuel : Nat}
  {new : List Nat}

/-! ## What is left -/

/-- The clusters that the search comes to, if `p` is the one that was handed out last. -/
def reach (g : Geometry) (v : FlatVol) (p : Nat) : Finset Nat :=
  if v.free.valid then
    ((g.freeSet v.disk).erase p).filter fun c => v.free.nextCluster ≤ c
  else (g.freeSet v.disk).erase p

/-- The free clusters are going to be counted when only the last cluster is left. -/
def Twice (g : Geometry) (v : FlatVol) (p : Nat) : Prop :=
  v.free.valid = false ∧ (g.freeSet v.disk).Nonempty ∧
    ∀ c ∈ g.freeSet v.disk, c ≠ p → v.free.nextCluster ≤ c

instance (g : Geometry) (v : FlatVol) (p : Nat) : Decidable (Twice g v p) :=
  inferInstanceAs (Decidable (_ ∧ _ ∧ _))

/-- So many clusters are handed out. -/
def spare (g : Geometry) (v : FlatVol) (p : Nat) : Nat :=
  (reach g v p).card + if Twice g v p then 1 else 0

/-- Before a turn of the loop: if the last cluster is not in use, the hint is behind it. -/
structure Ready (g : Geometry) (v : FlatVol) (p : Nat) : Prop where
  diskError : v.diskError = false
  hint : 2 ≤ v.free.nextCluster
  behind : p ∈ g.freeSet v.disk → v.free.nextCluster = p + 1

/-- The free info counts what is free, if it is valid. -/
def CountsFree (g : Geometry) (v : FlatVol) : Prop :=
  v.free.valid = true → v.free.clusterCount = (g.freeSet v.disk).card

/-! ## Linking -/

/-- An entry of the chain is set, if there is one. -/
def Vol.link (g : Geometry) (p value : Nat) (v : FlatVol) : FlatVol :=
  if p ≠ 0 then (fatSetFatEntry flat g p value v).2 else v

/-- What linking does. -/
structure Linked (g : Geometry) (p value : Nat) (v w : FlatVol) : Prop where
  entry : p ≠ 0 → g.fatEntry w.disk p = value
  others : ∀ j, 2 ≤ j → j ≤ g.lastCluster → j ≠ p → g.fatEntry w.disk j = g.fatEntry v.disk j
  freeSet : g.freeSet w.disk = (g.freeSet v.disk).erase p
  outside : ∀ k, k < g.fatPos ∨ g.fatPos + g.noFats * g.fatSize ≤ k → w.disk k = v.disk k
  diskError : w.diskError = v.diskError
  next : w.free.nextCluster = v.free.nextCluster
  valid : w.free.valid = v.free.valid
  count : CountsFree g v → CountsFree g w

/-- The values that an entry of a chain has. -/
def ChainValue (g : Geometry) (value : Nat) : Prop :=
  2 ≤ value ∧ value ≤ g.lastCluster ∨ value = g.clusterLast

theorem ChainValue.ne_zero (h : ChainValue g value) : value ≠ 0 := by
  have := g.arch.two_pow_32_le
  unfold ChainValue Geometry.clusterLast at h
  omega

theorem ChainValue.stored (hs : Spacious g) (h : ChainValue g value) :
    g.extend (value % g.bound) = value := by
  rcases h with ⟨-, hlast⟩ | rfl
  · exact extend_cluster hs hlast
  · exact extend_clusterLast g

theorem ChainValue.plain (hs : Spacious g) (h : ChainValue g value) : g.Plain value := by
  refine .inr fun hzero => ?_
  have hstored := h.stored hs
  rw [hzero, ← Nat.zero_mod g.bound, extend_zero] at hstored
  exact h.ne_zero hstored.symm

theorem link_linked (h : Regular g) (hp : p = 0 ∨ 2 ≤ p ∧ p ≤ g.lastCluster)
    (hvalue : ChainValue g value) (v : FlatVol) : Linked g p value v (v.link g p value) := by
  unfold Vol.link
  by_cases hzero : p = 0
  · rw [if_neg (not_not.mpr hzero)]
    refine ⟨fun hne => absurd hzero hne, fun _ _ _ _ => rfl, ?_, fun _ _ => rfl, rfl, rfl, rfl, id⟩
    refine (Finset.erase_eq_of_notMem ?_).symm
    rw [mem_freeSet]
    omega
  · rw [if_pos hzero]
    obtain ⟨hp2, hlast⟩ := hp.resolve_left hzero
    have hset := (h.set hp2 hlast value v).2
    have hplain := hvalue.plain h.toSpacious
    refine ⟨fun _ => hset.set.trans (hvalue.stored h.toSpacious), hset.others, ?_, hset.outside,
      hset.diskError, ?_, ?_, fun hcount hvalid => ?_⟩
    · rw [hset.freeSet hp2 hlast hplain, if_neg hvalue.ne_zero]
    · have := h.sound.lastCluster
      rw [hset.free, note_nextCluster _ (by omega), if_neg fun hnew => hvalue.ne_zero hnew.1]
    · rw [hset.free, note_valid]
    · rw [hset.free, note_valid] at hvalid
      exact hset.clusterCount hp2 hlast hplain h.sound.lastCluster (hcount hvalid)

theorem SameDisk.countsFree (h : SameDisk v v') (hcount : CountsFree g v)
    (hfree : v'.free.clusterCount = v.free.clusterCount) (hvalid : v'.free.valid = v.free.valid) :
    CountsFree g v' := by
  intro hv
  rw [hfree, h.disk]
  exact hcount (hvalid.symm.trans hv)

/-! ## A turn of the loop -/

/-- What the search returns in a turn, and the volume after the link. -/
inductive Turn (g : Geometry) (v : FlatVol) (p c : Nat) (v' : FlatVol) : Prop
  /-- A cluster that was not handed out before. -/
  | new (mem : c ∈ reach g v p) (ready : Ready g (v'.link g p c) c)
      (rest : reach g (v'.link g p c) c = (reach g v p).erase c)
      (twice : Twice g (v'.link g p c) c ↔ Twice g v p)
  /-- The last cluster once more. -/
  | twice (same : c = p) (mem : p ∈ g.freeSet v.disk) (empty : reach g v p = ∅)
      (twice : Twice g v p) (ready : Ready g (v'.link g p p) p)
      (rest : reach g (v'.link g p p) p = ∅) (once : ¬Twice g (v'.link g p p) p)
  /-- None. -/
  | none (last : c = g.clusterLast) (empty : reach g v p = ∅) (once : ¬Twice g v p)

theorem mem_reach {x : Nat} : x ∈ reach g v p ↔
    x ∈ g.freeSet v.disk ∧ x ≠ p ∧ (v.free.valid = true → v.free.nextCluster ≤ x) := by
  unfold reach
  split
  · rename_i hvalid
    rw [Finset.mem_filter, Finset.mem_erase, and_comm (a := x ≠ p), and_assoc]
    simp [hvalid]
  · rename_i hvalid
    rw [Finset.mem_erase, and_comm]
    simp [hvalid]

theorem reach_subset (g : Geometry) (v : FlatVol) (p : Nat) : reach g v p ⊆ g.freeSet v.disk :=
  fun _ hx => (mem_reach.mp hx).1

/-- A search that comes to `c` leaves what it could reach before, except for `c`. -/
theorem reach_after {w : FlatVol} (hfree : g.freeSet w.disk = (g.freeSet v.disk).erase p)
    (hnext : w.free.nextCluster = c + 1)
    (hhint : v.free.valid = true → w.free.valid = true ∧ v.free.nextCluster ≤ c)
    (hfirst : ∀ x ∈ g.freeSet v.disk, (v.free.valid = true → v.free.nextCluster ≤ x) →
      w.free.valid = true → c ≤ x) :
    reach g w c = (reach g v p).erase c := by
  ext x
  rw [mem_reach, Finset.mem_erase, mem_reach, hfree, hnext, Finset.mem_erase]
  constructor
  · rintro ⟨⟨hxp, hx⟩, hxc, hle⟩
    refine ⟨hxc, hx, hxp, fun hv => ?_⟩
    obtain ⟨hw, hlow⟩ := hhint hv
    have := hle hw
    omega
  · rintro ⟨hxc, hx, hxp, hle⟩
    refine ⟨⟨hxp, hx⟩, hxc, fun hw => ?_⟩
    have := hfirst x hx hle hw
    omega

theorem turn_of_allocated (h : Regular g) (hp : p = 0 ∨ 2 ≤ p ∧ p ≤ g.lastCluster)
    (hr : Ready g v p) (halloc : Allocated g v c v') : Turn g v p c v' := by
  cases halloc with
  | found free from_hint first same info =>
    have hc := mem_freeSet.mp free
    have hlink := link_linked h hp (.inl ⟨hc.1, hc.2.1⟩) v'
    have hnext : (v'.link g p c).free.nextCluster = c + 1 := by rw [hlink.next, info]
    have hvalid : (v'.link g p c).free.valid = v.free.valid := by rw [hlink.valid, info]
    have hfree := hlink.freeSet
    rw [same.disk] at hfree
    have hcp : c ≠ p := by
      intro hcp
      have := hr.behind (hcp ▸ free)
      omega
    refine .new (mem_reach.mpr ⟨free, hcp, fun _ => from_hint⟩)
      ⟨by rw [hlink.diskError, same.diskError, hr.diskError], by omega, fun _ => hnext⟩
      (reach_after hfree hnext (fun hv => ⟨hvalid.trans hv, from_hint⟩)
        fun x hx hle hv => first x hx (hle (hvalid.symm.trans hv))) ?_
    · unfold Twice
      rw [hfree, hvalid, hnext]
      constructor
      · rintro ⟨hv, -, hall⟩
        refine ⟨hv, ⟨c, free⟩, fun x hx hxp => ?_⟩
        by_cases hxc : x = c
        · omega
        · have := hall x (Finset.mem_erase.mpr ⟨hxp, hx⟩) hxc
          omega
      · rintro ⟨hv, -, hall⟩
        refine ⟨hv, ⟨c, Finset.mem_erase.mpr ⟨hcp, free⟩⟩, fun x hx hxc => ?_⟩
        rw [Finset.mem_erase] at hx
        have := first x hx.2 (hall x hx.2 hx.1)
        omega
  | counted free first below invalid same info =>
    have hc := mem_freeSet.mp free
    have hlink := link_linked h hp (.inl ⟨hc.1, hc.2.1⟩) v'
    have hnext : (v'.link g p c).free.nextCluster = c + 1 := by rw [hlink.next, info]
    have hvalid : (v'.link g p c).free.valid = true := by rw [hlink.valid, info]
    have hready : Ready g (v'.link g p c) c :=
      ⟨by rw [hlink.diskError, same.diskError, hr.diskError], by omega, fun _ => hnext⟩
    have honce : ¬Twice g (v'.link g p c) c := by
      intro htwice
      rw [htwice.1] at hvalid
      cases hvalid
    have hfree := hlink.freeSet
    rw [same.disk] at hfree
    by_cases hcp : c = p
    · -- only the last cluster is left
      subst hcp
      have honly : ∀ x ∈ g.freeSet v.disk, x = c := by
        intro x hx
        have := hr.behind free
        have := first x hx
        have := below x hx
        omega
      refine .twice rfl free ?_ ⟨invalid, ⟨c, free⟩, fun x hx hxc => absurd (honly x hx) hxc⟩ hready
        ?_ honce
      · refine Finset.eq_empty_of_forall_notMem fun x hx => ?_
        have hx := mem_reach.mp hx
        exact hx.2.1 (honly x hx.1)
      · refine Finset.eq_empty_of_forall_notMem fun x hx => ?_
        have hx := mem_reach.mp hx
        rw [hfree, Finset.mem_erase] at hx
        exact hx.2.1 (honly x hx.1.2)
    · have hnot : ¬Twice g v p := by
        intro htwice
        have := htwice.2.2 c free hcp
        have := below c free
        omega
      have hinvalid : v.free.valid ≠ true := by
        rw [invalid]
        exact Bool.false_ne_true
      exact .new (mem_reach.mpr ⟨free, hcp, fun hv => absurd hv hinvalid⟩) hready
        (reach_after hfree hnext (fun hv => absurd hv hinvalid) fun x hx _ _ => first x hx)
        (iff_of_false honce hnot)
  | none below empty same count next valid =>
    refine .none rfl ?_ fun htwice => ?_
    · refine Finset.eq_empty_of_forall_notMem fun x hx => ?_
      obtain ⟨hx, -, hle⟩ := mem_reach.mp hx
      cases hv : v.free.valid with
      | true =>
        have := hle hv
        have := below x hx
        omega
      | false =>
        rw [empty hv] at hx
        exact Finset.notMem_empty x hx
    · obtain ⟨hv, hne, -⟩ := htwice
      rw [empty hv] at hne
      exact Finset.not_nonempty_empty hne

theorem Allocated.countsFree (h : Allocated g v c v') (hcount : CountsFree g v) :
    CountsFree g v' := by
  cases h with
  | found free from_hint first same info =>
    exact same.countsFree hcount (by rw [info]) (by rw [info])
  | counted free first below invalid same info =>
    intro _
    rw [info, same.disk]
  | none below empty same count next valid =>
    intro _
    rw [count, same.disk]
    cases hv : v.free.valid with
    | true => exact hcount hv
    | false =>
      rw [empty hv]
      rfl

theorem Allocated.same (h : Allocated g v c v') : SameDisk v v' := by
  cases h with
  | found _ _ _ same _ => exact same
  | counted _ _ _ _ same _ => exact same
  | none _ _ same _ _ _ => exact same

/-! ## The loop -/

/-- The clusters from `p` on, if there is a cluster `p`. -/
def tailOf (p : Nat) (new : List Nat) : List Nat := if p = 0 then new else p :: new

/-- What the loop makes of the volume: the clusters `new` are linked behind `p`. -/
structure Grown (g : Geometry) (p : Nat) (new : List Nat) (v v' : FlatVol) : Prop where
  links : ∀ c r, tailOf p new = c :: r → Segment (g.fatEntry v'.disk) c (c :: r) g.clusterLast
  others : ∀ j, 2 ≤ j → j ≤ g.lastCluster → j ∉ tailOf p new →
    g.fatEntry v'.disk j = g.fatEntry v.disk j
  freeSet : g.freeSet v'.disk = (g.freeSet v.disk).erase p \ new.toFinset
  outside : ∀ k, k < g.fatPos ∨ g.fatPos + g.noFats * g.fatSize ≤ k → v'.disk k = v.disk k
  diskError : v'.diskError = false
  hint : 2 ≤ v'.free.nextCluster
  count : CountsFree g v → CountsFree g v'

/-- What the loop makes of the file. -/
def OFile.grown (f : OFile) (p : Nat) (new : List Nat) : OFile :=
  { (if p = 0 then
      new.head?.elim f fun c =>
        { f with fileCluster := c, fileCurrentCluster := c, dirty := true }
    else f) with fileLastCluster := new.getLastD p }

theorem Vol.link_eq (hp : p = 0 ∨ 2 ≤ p) (v : FlatVol) :
    v.link g p value = (fatSetFatEntry flat g p value v).2 := by
  unfold link
  rcases hp with rfl | hp
  · rw [if_neg (not_not.mpr rfl), fatSetFatEntry_reserved (by decide)]
  · rw [if_pos (by omega)]

/-- The end mark is put behind `p`. -/
theorem Grown.nil (hsame : SameDisk v v') (hr : Ready g v p) (hhint : 2 ≤ v'.free.nextCluster)
    (hcount : CountsFree g v → CountsFree g v')
    (hlink : Linked g p g.clusterLast v' w) : Grown g p [] v w := by
  refine ⟨fun c r htail => ?_, fun j hj hlast hout => ?_, ?_, fun k hk => ?_, ?_, ?_, ?_⟩
  · unfold tailOf at htail
    split at htail
    · cases htail
    · rename_i hp
      cases htail
      exact ⟨rfl, hlink.entry hp⟩
  · rw [← hsame.disk]
    refine hlink.others j hj hlast fun hjp => hout ?_
    rw [tailOf, if_neg (by omega), hjp]
    exact List.mem_cons_self
  · rw [hlink.freeSet, hsame.disk, List.toFinset_nil, Finset.sdiff_empty]
  · rw [hlink.outside k hk, hsame.disk]
  · rw [hlink.diskError, hsame.diskError, hr.diskError]
  · rw [hlink.next]
    exact hhint
  · exact fun hv => hlink.count (hcount hv)

/-- The cluster `c` is linked behind `p`, and the others behind it. -/
theorem Grown.cons {v₁ : FlatVol} (hsame : SameDisk v v₁) (hlink : Linked g p c v₁ w)
    (hcount : CountsFree g v → CountsFree g v₁) (hp : p = 0 ∨ 2 ≤ p ∧ p ≤ g.lastCluster)
    (hc : c ∈ g.freeSet v.disk) (hcp : c ≠ p) (hnew : ∀ x ∈ new, x ∈ reach g w c)
    (h : Grown g c new w v') : Grown g p (c :: new) v v' := by
  have hc := mem_freeSet.mp hc
  have htail : tailOf c new = c :: new := if_neg (by omega)
  have hpnew : p ∉ c :: new := by
    intro hmem
    rcases List.mem_cons.mp hmem with rfl | hmem
    · exact hcp rfl
    · have hfree := (mem_reach.mp (hnew p hmem)).1
      rw [hlink.freeSet] at hfree
      exact Finset.notMem_erase p _ hfree
  refine ⟨fun x r hxr => ?_, fun j hj hlast hout => ?_, ?_, fun k hk => ?_, h.diskError, h.hint, ?_⟩
  · by_cases hzero : p = 0
    · rw [tailOf, if_pos hzero] at hxr
      exact h.links x r (htail.trans hxr)
    · rw [tailOf, if_neg hzero] at hxr
      cases hxr
      obtain ⟨hp2, hplast⟩ := hp.resolve_left hzero
      refine ⟨rfl, ?_⟩
      rw [h.others p hp2 hplast (by rw [htail]; exact hpnew), hlink.entry hzero]
      exact h.links c new htail
  · have hjp : j ≠ p ∧ j ∉ c :: new := by
      unfold tailOf at hout
      split at hout
      · exact ⟨by omega, hout⟩
      · exact ⟨fun hjp => hout (hjp ▸ List.mem_cons_self),
          fun hmem => hout (List.mem_cons_of_mem p hmem)⟩
    rw [h.others j hj hlast (by rw [htail]; exact hjp.2), hlink.others j hj hlast hjp.1, hsame.disk]
  · rw [h.freeSet, hlink.freeSet, hsame.disk]
    ext x
    simp only [Finset.mem_sdiff, Finset.mem_erase, List.mem_toFinset, List.mem_cons, not_or]
    tauto
  · rw [h.outside k hk, hlink.outside k hk, hsame.disk]
  · exact fun hv => h.count (hlink.count (hcount hv))

/-- The last cluster was handed out once more, and linked to itself at first. -/
theorem Grown.again {w : FlatVol} (hzero : c ≠ 0) (hsame : SameDisk v w)
    (hlink : Linked g c c w (w.link g c c)) (hcount : CountsFree g v → CountsFree g w)
    (h : Grown g c [] (w.link g c c) v') : Grown g c [] v v' := by
  refine ⟨h.links, fun j hj hlast hout => ?_, ?_, fun k hk => ?_, h.diskError, h.hint,
    fun hv => h.count (hlink.count (hcount hv))⟩
  · have hjc : j ≠ c := by
      rintro rfl
      rw [tailOf, if_neg hzero] at hout
      exact hout List.mem_cons_self
    rw [h.others j hj hlast hout, hlink.others j hj hlast hjc, hsame.disk]
  · rw [h.freeSet, hlink.freeSet, hsame.disk, Finset.erase_idem]
  · rw [h.outside k hk, hlink.outside k hk, hsame.disk]

theorem Allocated.hint (h : Allocated g v c v') (hv : 2 ≤ v.free.nextCluster) :
    2 ≤ v'.free.nextCluster := by
  cases h with
  | found free _ _ _ info =>
    have := (mem_freeSet.mp free).1
    rw [info]
    show 2 ≤ c + 1
    omega
  | counted free _ _ _ _ info =>
    have := (mem_freeSet.mp free).1
    rw [info]
    show 2 ≤ c + 1
    omega
  | none _ _ _ _ next _ => omega

theorem growChain_mono {r : Status × OFile × FlatVol}
    (h : Vol.growChain flat g fuel n p f v = some r) (k : Nat) :
    Vol.growChain flat g (fuel + k) n p f v = some r := by
  induction n generalizing p f v with
  | zero => exact h
  | succ n ih =>
    rw [Vol.growChain] at h ⊢
    cases halloc : Vol.fatAllocateCluster flat g fuel v with
    | none =>
      rw [halloc] at h
      cases h
    | some a =>
      rw [halloc, Option.bind_some] at h
      rw [fatAllocateCluster_mono halloc, Option.bind_some]
      split
      · rename_i hend
        rwa [if_pos hend] at h
      · rename_i hend
        rw [if_neg hend] at h
        split
        · rename_i hp
          rw [if_pos hp] at h
          exact ih h
        · rename_i hp
          rw [if_neg hp] at h
          exact ih h

theorem grown_nil (f : OFile) (hlast : p = 0 → f.fileLastCluster = 0) :
    f.grown p [] = if p = 0 then f else { f with fileLastCluster := p } := by
  unfold OFile.grown
  split
  · rename_i hp
    rw [List.head?_nil, Option.elim_none, List.getLastD_nil, hp, ← hlast hp]
  · rfl

theorem grown_cons (f : OFile) (hc : c ≠ 0) (new : List Nat) :
    (if p = 0 then { f with fileCluster := c, fileCurrentCluster := c, dirty := true }
      else f).grown c new = f.grown p (c :: new) := by
  unfold OFile.grown
  rw [if_neg hc, List.getLastD_cons, List.head?_cons, Option.elim_some]

theorem spare_new (hmem : c ∈ reach g v p) (hrest : reach g w c = (reach g v p).erase c)
    (htwice : Twice g w c ↔ Twice g v p) : spare g v p = spare g w c + 1 := by
  have hcard := Finset.card_erase_add_one hmem
  unfold spare
  rw [hrest, ← hcard]
  simp only [htwice]
  omega

/-- The loop ends with so many clusters as there are, and it is full if there are too few. -/
theorem growChain_eq (h : Regular g) (hp : p = 0 ∨ 2 ≤ p ∧ p ≤ g.lastCluster)
    (hr : Ready g v p) (hlast : p = 0 → f.fileLastCluster = 0) (n : Nat) :
    ∃ fuel new v', new.Nodup ∧ (∀ c ∈ new, c ∈ reach g v p) ∧
      new.length = min n (reach g v p).card ∧ Grown g p new v v' ∧
      Vol.growChain flat g fuel n p f v =
        some (if n ≤ spare g v p then .success else .volumeFull, f.grown p new, v') := by
  have hp2 : p = 0 ∨ 2 ≤ p := hp.imp_right And.left
  have hend : ChainValue g g.clusterLast := .inr rfl
  induction n generalizing p f v with
  | zero =>
    refine ⟨0, [], v.link g p g.clusterLast, List.nodup_nil, fun c hc => absurd hc
      List.not_mem_nil, (Nat.zero_min _).symm, .nil (.refl v) hr hr.hint id
      (link_linked h hp hend v), ?_⟩
    rw [Vol.growChain, if_pos (Nat.zero_le _), grown_nil f hlast, Vol.link_eq hp2]
    split
    · rename_i hzero
      rw [hzero, ← hlast hzero]
    · rfl
  | succ n ih =>
    obtain ⟨fuel, c, v₁, halloc, hres⟩ := fatAllocateCluster_allocated h.toHealthy hr.diskError
      hr.hint
    have hsame := hres.same
    have hcount : CountsFree g v → CountsFree g v₁ := hres.countsFree
    cases turn_of_allocated h hp hr hres with
    | new mem ready rest twice =>
      have hfree := mem_reach.mp mem
      have hc := mem_freeSet.mp hfree.1
      have hlink := link_linked h hp (.inl ⟨hc.1, hc.2.1⟩) v₁
      obtain ⟨fuel', new, v', hnodup, hnew, hlen, hgrown, hgrow⟩ :=
        ih (f := if p = 0 then { f with fileCluster := c, fileCurrentCluster := c, dirty := true }
          else f) (.inr ⟨hc.1, hc.2.1⟩) ready (fun hzero => by omega) (.inr hc.1)
      have hcard := Finset.card_erase_add_one mem
      refine ⟨fuel + fuel', c :: new, v', List.nodup_cons.mpr ⟨fun hmem => ?_, hnodup⟩,
        fun x hx => ?_, ?_, .cons hsame hlink hcount hp hfree.1 hfree.2.1 hnew hgrown, ?_⟩
      · have hout := hnew c hmem
        rw [rest] at hout
        exact Finset.notMem_erase c _ hout
      · rcases List.mem_cons.mp hx with rfl | hx
        · exact mem
        · have hin := hnew x hx
          rw [rest] at hin
          exact Finset.mem_of_mem_erase hin
      · rw [List.length_cons, hlen, rest]
        omega
      · rw [Vol.growChain, fatAllocateCluster_mono halloc, Option.bind_some]
        dsimp only
        rw [if_neg (not_endOfFatChain h.sound hc.2.1), ← grown_cons f (by omega), Nat.add_comm fuel]
        have hstatus : (n + 1 ≤ spare g v p) ↔ n ≤ spare g (v₁.link g p c) c := by
          rw [spare_new mem rest twice]
          omega
        simp only [hstatus]
        rw [Vol.link_eq hp2] at hgrow ⊢
        by_cases hzero : p = 0
        · rw [if_neg (not_not.mpr hzero)]
          rw [if_pos hzero] at hgrow ⊢
          rw [hzero, Vol.fatSetFatEntry_reserved (by decide)] at hgrow ⊢
          exact growChain_mono hgrow fuel
        · rw [if_pos hzero]
          rw [if_neg hzero] at hgrow ⊢
          exact growChain_mono hgrow fuel
    | twice same mem empty twice ready rest once =>
      -- the cluster is linked to itself, and the next link of the loop undoes that
      subst same
      have hc := mem_freeSet.mp mem
      have hlink := link_linked h hp (.inl ⟨hc.1, hc.2.1⟩) v₁
      have hzero : c ≠ 0 := by omega
      obtain ⟨fuel', new, v', -, -, hlen, hgrown, hgrow⟩ := ih (f := f) hp ready hlast hp2
      rw [rest, Finset.card_empty, Nat.min_zero] at hlen
      obtain rfl := List.eq_nil_of_length_eq_zero hlen
      refine ⟨fuel + fuel', [], v', List.nodup_nil, fun c hc => absurd hc List.not_mem_nil, ?_,
        hgrown.again hzero hsame hlink hcount, ?_⟩
      · rw [empty, Finset.card_empty, Nat.min_zero]
        rfl
      · rw [Vol.growChain, fatAllocateCluster_mono halloc, Option.bind_some]
        dsimp only
        rw [if_neg (not_endOfFatChain h.sound hc.2.1), if_pos hzero, Nat.add_comm fuel,
          ← Vol.link_eq hp2]
        have hstatus : (n + 1 ≤ spare g v c) ↔ n ≤ spare g (v₁.link g c c) c := by
          unfold spare
          rw [empty, rest, if_pos twice, if_neg once]
          omega
        simp only [hstatus]
        exact growChain_mono hgrow fuel
    | none last empty once =>
      subst last
      have hlink := link_linked h hp hend v₁
      refine ⟨fuel, [], v₁.link g p g.clusterLast, List.nodup_nil, fun c hc => absurd hc
        List.not_mem_nil, ?_, .nil hsame hr (hres.hint hr.hint) hcount hlink, ?_⟩
      · rw [empty, Finset.card_empty, Nat.min_zero]
        rfl
      · have hfull : ¬n + 1 ≤ spare g v p := by
          unfold spare
          rw [empty, if_neg once, Finset.card_empty]
          omega
        rw [Vol.growChain, halloc, Option.bind_some]
        dsimp only
        rw [if_pos (endOfFatChain_clusterLast g), if_neg hfull, grown_nil f hlast]
        by_cases hzero : p = 0
        · rw [if_neg (not_not.mpr hzero), if_pos hzero, Vol.link, if_neg (not_not.mpr hzero)]
        · rw [if_pos hzero, if_neg hzero, Vol.link, if_pos hzero]

end EfiCore.Fat
