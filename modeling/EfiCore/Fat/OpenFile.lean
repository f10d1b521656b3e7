import EfiCore.Fat.Growth

/-! # Open files

What `FatGrowEof` and `FatShrinkEof` do to a file whose chain is well formed.
-/

namespace EfiCore.Fat

open EfiCore.Lib

variable {g : Geometry} {v v' w : FlatVol} {f f' : OFile} {c d p n value fuel : Nat}
  {l new : List Nat}

/-- The file is open and has the clusters `l`. -/
structure Opened (g : Geometry) (v : FlatVol) (f : OFile) (l : List Nat) : Prop where
  chain : FileChain g v.disk f.fileCluster l
  last : f.fileLastCluster = 0 ∨ l.getLast? = some f.fileLastCluster
  coupled : Coupled g l f
  root : f.isFixedRootDir = false
  diskError : v.diskError = false
  hint : 2 ≤ v.free.nextCluster

/-! ## Growing -/

/-- The loop that looks for the last cluster. -/
theorem findEnd_eq (h : Regular g) {e : Nat} (hl : Segment (g.fatEntry v.disk) c l e)
    (he : g.EndOfFatChain e) (hrange : ∀ x ∈ l, 2 ≤ x ∧ x ≤ g.lastCluster) (last count : Nat)
    (hcount : count + l.length < 2 ^ 32) :
    ∃ fuel v', Alike v v' ∧ Vol.findEnd flat g fuel last count c v =
      some ((true, l.getLastD last, count + l.length), v') := by
  have hbits := g.arch.two_pow_32_le
  induction l generalizing c v last count with
  | nil =>
    refine ⟨1, v, .refl v, ?_⟩
    have hce : c = e := hl
    rw [Vol.findEnd, if_pos (hce ▸ he)]
    rfl
  | cons x l ih =>
    obtain ⟨rfl, hl⟩ := hl
    obtain ⟨hc2, hclast⟩ := hrange c List.mem_cons_self
    obtain ⟨hread, halike⟩ := h.read hclast v
    rw [List.length_cons] at hcount
    have hadd : g.arch.add count 1 = count + 1 := Nat.mod_eq_of_lt (by omega)
    obtain ⟨fuel, v', halike', hfind⟩ := ih (v := (Vol.fatGetFatEntry flat g c v).2)
      (hl.congr fun _ _ => by rw [halike.disk]) (fun x hx => hrange x (List.mem_cons_of_mem c hx)) c
      (count + 1) (by omega)
    refine ⟨fuel + 1, v', halike.trans halike', ?_⟩
    rw [Vol.findEnd, if_neg (not_endOfFatChain h.sound hclast),
      if_neg (not_corrupt h.sound hc2 hclast)]
    dsimp only
    rw [hread, hadd, hfind, List.getLastD_cons, List.length_cons, Nat.add_assoc, Nat.add_comm 1]

theorem findEnd_mono {last count : Nat} {r : (Bool × Nat × Nat) × FlatVol}
    (h : Vol.findEnd flat g fuel last count c v = some r) (k : Nat) :
    Vol.findEnd flat g (fuel + k) last count c v = some r := by
  induction fuel generalizing last count c v with
  | zero => cases h
  | succ fuel ih =>
    rw [Nat.succ_add]
    rw [Vol.findEnd] at h ⊢
    split
    · rename_i hend
      rwa [if_pos hend] at h
    · rename_i hend
      rw [if_neg hend] at h
      split
      · rename_i hcorrupt
        rwa [if_pos hcorrupt] at h
      · rename_i hcorrupt
        rw [if_neg hcorrupt] at h
        exact ih h

/-- What is left for a file whose clusters are all in use. -/
theorem reach_of_used (hp : p ∉ g.freeSet v.disk) : reach g v p = reach g v 0 := by
  have hzero : 0 ∉ g.freeSet v.disk := fun hmem => by have := (mem_freeSet.mp hmem).1; omega
  unfold reach
  rw [Finset.erase_eq_of_notMem hp, Finset.erase_eq_of_notMem hzero]

theorem twice_of_used (hp : p ∉ g.freeSet v.disk) : Twice g v p ↔ Twice g v 0 := by
  have hzero : 0 ∉ g.freeSet v.disk := fun hmem => by have := (mem_freeSet.mp hmem).1; omega
  unfold Twice
  refine and_congr_right fun _ => and_congr_right fun _ => forall₂_congr fun c hc => ?_
  have hcp : c ≠ p := fun hcp => hp (hcp ▸ hc)
  have hc0 : c ≠ 0 := fun hc0 => hzero (hc0 ▸ hc)
  simp only [hcp, hc0, ne_eq, not_false_eq_true, true_implies]

theorem spare_of_used (hp : p ∉ g.freeSet v.disk) : spare g v p = spare g v 0 := by
  unfold spare
  simp only [reach_of_used hp, twice_of_used hp]

theorem Alike.reach (h : Alike v v') : reach g v' p = reach g v p := by
  unfold Fat.reach
  rw [h.free, h.disk]

theorem Alike.twice (h : Alike v v') : Twice g v' p ↔ Twice g v p := by
  unfold Twice
  rw [h.free, h.disk]

theorem Alike.spare (h : Alike v v') : spare g v' p = spare g v p := by
  unfold Fat.spare
  simp only [h.reach, h.twice]

/-- What becomes of the volume when the clusters `new` are added to a file that has `l`. -/
structure Extended (g : Geometry) (l new : List Nat) (v v' : FlatVol) : Prop where
  others : ∀ j, 2 ≤ j → j ≤ g.lastCluster → j ∉ l ++ new →
    g.fatEntry v'.disk j = g.fatEntry v.disk j
  freeSet : g.freeSet v'.disk = g.freeSet v.disk \ new.toFinset
  outside : ∀ k, k < g.fatPos ∨ g.fatPos + g.noFats * g.fatSize ≤ k → v'.disk k = v.disk k
  count : CountsFree g v → CountsFree g v'

theorem getLastD_mem (hl : l ≠ []) (a : Nat) : l.getLastD a ∈ l := by
  cases l with
  | nil => exact absurd rfl hl
  | cons x l =>
    rw [List.getLastD_cons]
    cases l with
    | nil => exact List.mem_singleton.mpr rfl
    | cons y l =>
      rw [List.getLastD_eq_getLast?, List.getLast?_eq_some_getLast (List.cons_ne_nil y l)]
      exact List.mem_cons_of_mem x (List.getLast_mem _)

/-- The last cluster of a file is not free. -/
theorem FileChain.last_used {m : Nat → Byte} (h : FileChain g m c l) :
    l.getLastD 0 ∉ g.freeSet m := by
  by_cases hl : l = []
  · subst hl
    intro hmem
    have := (mem_freeSet.mp hmem).1
    rw [List.getLastD_nil] at this
    omega
  · exact h.notMem_freeSet (getLastD_mem hl 0)

theorem FileChain.last_range {m : Nat → Byte} (h : FileChain g m c l) :
    l.getLastD 0 = 0 ∨ 2 ≤ l.getLastD 0 ∧ l.getLastD 0 ≤ g.lastCluster := by
  by_cases hl : l = []
  · subst hl
    exact .inl rfl
  · exact .inr (h.range _ (getLastD_mem hl 0))

theorem FileChain.last_eq_zero {m : Nat → Byte} (h : FileChain g m c l) :
    l.getLastD 0 = 0 ↔ l = [] := by
  constructor
  · intro hzero
    by_contra hl
    have := (h.range _ (getLastD_mem hl 0)).1
    omega
  · rintro rfl
    rfl

/-- The chain of the file after the loop. -/
theorem Grown.chain (h : Regular g) (hl : FileChain g v.disk f.fileCluster l)
    (hgrown : Grown g (l.getLastD 0) new v v') (hnew : ∀ c ∈ new, c ∈ g.freeSet v.disk) :
    FileChain g v'.disk (f.grown (l.getLastD 0) new).fileCluster (l ++ new) := by
  have hrange : ∀ c ∈ l ++ new, 2 ≤ c ∧ c ≤ g.lastCluster := by
    intro c hc
    rcases List.mem_append.mp hc with hc | hc
    · exact hl.range c hc
    · have := mem_freeSet.mp (hnew c hc)
      exact ⟨this.1, this.2.1⟩
  by_cases hnil : l = []
  · subst hnil
    cases new with
    | nil =>
      have hfirst : (f.grown ([].getLastD 0) []).fileCluster = 0 := hl.empty rfl
      rw [hfirst]
      exact .nil ..
    | cons c new =>
      exact .of_segment (List.cons_ne_nil c new) hrange (endOfFatChain_clusterLast g)
        (hgrown.links c new rfl)
  · -- the links of the old chain up to its last cluster
    have hlast : l.getLastD 0 ≠ 0 := fun hzero => hnil (hl.last_eq_zero.mp hzero)
    have hcluster : (f.grown (l.getLastD 0) new).fileCluster = f.fileCluster := by
      unfold OFile.grown
      rw [if_neg hlast]
    obtain ⟨e, he, hseg⟩ := hl.links hnil
    have hnodup := hl.nodup h.sound
    have hsplit : l = l.dropLast ++ [l.getLastD 0] := by
      rw [List.getLastD_eq_getLast?, List.getLast?_eq_some_getLast hnil, Option.getD_some,
        List.dropLast_append_getLast]
    generalize l.getLastD 0 = p at hgrown hlast hcluster hsplit ⊢
    rw [hsplit] at hseg hnodup hl
    have hfirst := (segment_snoc.mp hseg).1
    have htail := hgrown.links p new (if_neg hlast)
    rw [hcluster]
    refine .of_segment (e := g.clusterLast) (by simp [hnil]) hrange
      (endOfFatChain_clusterLast g) ?_
    rw [hsplit, List.append_assoc, segment_append]
    refine ⟨p, hfirst.congr fun c hc => ?_, htail⟩
    have hc' : c ∈ l.dropLast ++ [p] := List.mem_append_left _ hc
    obtain ⟨hc2, hclast⟩ := hl.range c hc'
    refine hgrown.others c hc2 hclast ?_
    rw [tailOf, if_neg hlast, List.mem_cons, not_or]
    refine ⟨fun hcp => ?_, fun hmem => hl.notMem_freeSet hc' (hnew c hmem)⟩
    exact (List.nodup_append.mp hnodup).2.2 c hc p (List.mem_singleton.mpr rfl) hcp

/-- The clusters that a size calls for in addition. -/
def Geometry.need (g : Geometry) (f : OFile) (newSize : Nat) : Nat :=
  g.fatSizeToClusters newSize - g.fatSizeToClusters f.fileSize

theorem Opened.grown (ho : Opened g v f l) (hchain : FileChain g v'.disk
    (f.grown (l.getLastD 0) new).fileCluster (l ++ new)) (herror : v'.diskError = false)
    (hhint : 2 ≤ v'.free.nextCluster) : Opened g v' (f.grown (l.getLastD 0) new) (l ++ new) := by
  refine ⟨hchain, ?_, ?_, ?_, herror, hhint⟩
  · have hlast : (f.grown (l.getLastD 0) new).fileLastCluster = (l ++ new).getLastD 0 := by
      show new.getLastD (l.getLastD 0) = _
      rw [List.getLastD_eq_getLast?, List.getLastD_eq_getLast?, List.getLastD_eq_getLast?,
        List.getLast?_append]
      cases new.getLast? <;> rfl
    rw [hlast]
    by_cases hnil : l ++ new = []
    · rw [hnil]
      exact .inl rfl
    · right
      rw [List.getLastD_eq_getLast?, List.getLast?_eq_some_getLast hnil, Option.getD_some]
  · unfold OFile.grown
    split
    · rename_i hzero
      obtain rfl := ho.chain.last_eq_zero.mp hzero
      cases new with
      | nil => exact ho.coupled
      | cons c new => exact .inl rfl
    · refine ho.coupled.imp_right fun hcurrent => ?_
      exact List.getElem?_append_left (List.getElem?_eq_some_iff.mp hcurrent).1 |>.trans hcurrent
  · unfold OFile.grown
    split
    · cases new with
      | nil => exact ho.root
      | cons c new => exact ho.root
    · exact ho.root

theorem Grown.extended (hl : FileChain g v.disk c l) (hgrown : Grown g (l.getLastD 0) new v v') :
    Extended g l new v v' := by
  refine ⟨fun j hj hlast hout => ?_, ?_, hgrown.outside, hgrown.count⟩
  · rw [List.mem_append, not_or] at hout
    refine hgrown.others j hj hlast fun hmem => ?_
    unfold tailOf at hmem
    split at hmem
    · exact hout.2 hmem
    · rename_i hzero
      rcases List.mem_cons.mp hmem with rfl | hmem
      · exact hout.1 (getLastD_mem (fun hnil => hzero (hl.last_eq_zero.mpr hnil)) 0)
      · exact hout.2 hmem
  · rw [hgrown.freeSet, Finset.erase_eq_of_notMem hl.last_used]

theorem Ready.of_opened (ho : Opened g v f l) (halike : Alike v v') :
    Ready g v' (l.getLastD 0) := by
  refine ⟨halike.diskError.trans ho.diskError, by rw [halike.free]; exact ho.hint, fun hmem => ?_⟩
  rw [halike.disk] at hmem
  exact absurd hmem ho.chain.last_used

/-- Growing a file: it gets as many clusters as there are. -/
theorem fatGrowEof_eq (h : Regular g) (ho : Opened g v f l) {newSize : Nat}
    (hneed : g.fatSizeToClusters f.fileSize < g.fatSizeToClusters newSize)
    (hknown : l = [] ∨ f.fileLastCluster ≠ 0 ∨ l.length = g.fatSizeToClusters f.fileSize) :
    ∃ fuel new v', new.Nodup ∧ (∀ c ∈ new, c ∈ reach g v 0) ∧
      new.length = min (g.need f newSize) (reach g v 0).card ∧ Extended g l new v v' ∧
      Opened g v' (f.grown (l.getLastD 0) new) (l ++ new) ∧
      Vol.fatGrowEof flat g fuel newSize f v =
        some (if g.need f newSize ≤ spare g v 0 then .success else .volumeFull,
          f.grown (l.getLastD 0) new, v') := by
  have hused := ho.chain.last_used
  -- what the loop does, once the last cluster is known
  have hloop : ∀ v₁ f₁, Alike v v₁ →
      f₁ = { f with fileLastCluster := l.getLastD 0 } →
      ∃ fuel new v', new.Nodup ∧ (∀ c ∈ new, c ∈ reach g v 0) ∧
        new.length = min (g.need f newSize) (reach g v 0).card ∧ Extended g l new v v' ∧
        Opened g v' (f.grown (l.getLastD 0) new) (l ++ new) ∧
        Vol.growChain flat g fuel (g.need f newSize) (l.getLastD 0) f₁ v₁ =
          some (if g.need f newSize ≤ spare g v 0 then .success else .volumeFull,
            f.grown (l.getLastD 0) new, v') := by
    intro v₁ f₁ halike hf₁
    obtain ⟨fuel, new, v', hnodup, hnew, hlen, hgrown, hgrow⟩ := growChain_eq (f := f₁) h
      ho.chain.last_range (.of_opened ho halike) (fun hzero => by rw [hf₁, hzero]) (g.need f newSize)
    have hreach : reach g v₁ (l.getLastD 0) = reach g v 0 :=
      halike.reach.trans (reach_of_used hused)
    rw [hreach] at hnew hlen
    have hsame : f₁.grown (l.getLastD 0) new = f.grown (l.getLastD 0) new := by
      rw [hf₁]
      unfold OFile.grown
      split
      · cases new with
        | nil => rfl
        | cons c new => rfl
      · rfl
    rw [hsame, halike.spare, spare_of_used hused] at hgrow
    have hfree : ∀ c ∈ new, c ∈ g.freeSet v.disk := fun c hc => reach_subset g v 0 (hnew c hc)
    have hchain := hgrown.chain h (f := f) (ho.chain.alike halike) fun c hc => by
      rw [halike.disk]
      exact hfree c hc
    have hext := hgrown.extended (ho.chain.alike halike)
    refine ⟨fuel, new, v', hnodup, hnew, hlen, ⟨?_, ?_, ?_, ?_⟩,
      ho.grown hchain hgrown.diskError hgrown.hint, hgrow⟩
    · exact fun j hj hlast hout => (hext.others j hj hlast hout).trans (by rw [halike.disk])
    · rw [hext.freeSet, halike.disk]
    · exact fun k hk => (hext.outside k hk).trans (by rw [halike.disk])
    · intro hcount
      refine hext.count fun hvalid => ?_
      rw [halike.free] at hvalid ⊢
      rw [halike.disk]
      exact hcount hvalid
  by_cases hfind : f.fileCluster ≠ 0 ∧ f.fileLastCluster = 0
  · -- the last cluster is looked for
    have hnil : l ≠ [] := fun hnil => hfind.1 (ho.chain.empty hnil)
    have hlen := hknown.resolve_left hnil |>.resolve_left fun hne => hne hfind.2
    obtain ⟨e, he, hseg⟩ := ho.chain.links hnil
    have hbound := ho.chain.length_le h.sound
    have hlastBound := h.sound.lastCluster
    obtain ⟨fuel, v₁, halike, hend⟩ := findEnd_eq h hseg he ho.chain.range 0 0 (by omega)
    obtain ⟨fuel', new, v', hnodup, hnew, hcard, hext, hopen, hgrow⟩ := hloop v₁ _ halike rfl
    refine ⟨fuel + fuel', new, v', hnodup, hnew, hcard, hext, hopen, ?_⟩
    rw [Vol.fatGrowEof]
    dsimp only
    rw [if_neg (by omega), if_pos hfind, hfind.2, findEnd_mono hend, Option.bind_some]
    dsimp only
    rw [Nat.zero_add, if_neg (by rw [hlen]; simp), Nat.add_comm fuel]
    exact growChain_mono hgrow fuel
  · have hlast : f.fileLastCluster = l.getLastD 0 := by
      rcases ho.last with hzero | hsome
      · rw [not_and_or, not_not] at hfind
        have hfirst := hfind.resolve_right fun hne => hne hzero
        rw [hzero, ho.chain.first_eq_zero.mp hfirst]
        rfl
      · rw [List.getLastD_eq_getLast?, hsome]
        rfl
    obtain ⟨fuel, new, v', hnodup, hnew, hcard, hext, hopen, hgrow⟩ := hloop v f (.refl v)
      (by rw [← hlast])
    refine ⟨fuel, new, v', hnodup, hnew, hcard, hext, hopen, ?_⟩
    rw [Vol.fatGrowEof]
    dsimp only
    rw [if_neg (by omega), if_neg hfind, hlast]
    exact hgrow

end EfiCore.Fat
