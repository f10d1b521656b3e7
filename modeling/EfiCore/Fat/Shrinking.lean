import EfiCore.Fat.OpenFile

/-! # Shrinking

`FatShrinkEof` keeps the clusters that the size calls for, ends the chain behind them and frees the
rest of it.
-/

namespace EfiCore.Fat

open EfiCore.Lib

variable {g : Geometry} {v v' v'' w : FlatVol} {f f' : OFile} {c d e n value fuel : Nat}
  {l p q : List Nat}

/-! ## The clusters that stay -/

theorem corrupt_of_end (h : g.EndOfFatChain c) : g.Corrupt c := .inr (Nat.le_of_lt h)

/-- The loop comes to the last of so many clusters, and to what is behind it. -/
theorem findLast_eq (h : Regular g) (hl : Segment (g.fatEntry v.disk) c p e)
    (hrange : ∀ x ∈ p, 2 ≤ x ∧ x ≤ g.lastCluster) (last : Nat) :
    ∃ v', Alike v v' ∧ Vol.findLast flat g p.length last c v = (some (p.getLastD last, e), v') := by
  induction p generalizing c v last with
  | nil =>
    have hce : c = e := hl
    exact ⟨v, .refl v, by rw [hce]; rfl⟩
  | cons x p ih =>
    obtain ⟨rfl, hl⟩ := hl
    obtain ⟨hc2, hclast⟩ := hrange c List.mem_cons_self
    obtain ⟨hread, halike⟩ := h.read hclast v
    obtain ⟨v', halike', hfind⟩ := ih (v := (Vol.fatGetFatEntry flat g c v).2)
      (hl.congr fun _ _ => by rw [halike.disk]) (fun x hx => hrange x (List.mem_cons_of_mem c hx)) c
    refine ⟨v', halike.trans halike', ?_⟩
    rw [List.length_cons, Vol.findLast, if_neg (not_corrupt h.sound hc2 hclast)]
    dsimp only
    rw [hread, hfind, List.getLastD_cons]

/-- The chain has fewer clusters. -/
theorem findLast_short (h : Regular g) (hl : Segment (g.fatEntry v.disk) c l e)
    (he : g.EndOfFatChain e) (hrange : ∀ x ∈ l, 2 ≤ x ∧ x ≤ g.lastCluster) (hn : l.length < n)
    (last : Nat) : ∃ v', Alike v v' ∧ Vol.findLast flat g n last c v = (none, v') := by
  induction l generalizing c v last n with
  | nil =>
    obtain ⟨k, rfl⟩ : ∃ k, n = k + 1 := ⟨n - 1, by omega⟩
    have hce : c = e := hl
    exact ⟨v, .refl v, by rw [Vol.findLast, if_pos (corrupt_of_end (hce ▸ he))]⟩
  | cons x l ih =>
    obtain ⟨k, rfl⟩ : ∃ k, n = k + 1 := ⟨n - 1, by omega⟩
    obtain ⟨rfl, hl⟩ := hl
    obtain ⟨hc2, hclast⟩ := hrange c List.mem_cons_self
    obtain ⟨hread, halike⟩ := h.read hclast v
    obtain ⟨v', halike', hfind⟩ := ih (v := (Vol.fatGetFatEntry flat g c v).2)
      (hl.congr fun _ _ => by rw [halike.disk]) (fun x hx => hrange x (List.mem_cons_of_mem c hx))
      (Nat.lt_of_succ_lt_succ hn) c
    refine ⟨v', halike.trans halike', ?_⟩
    rw [Vol.findLast, if_neg (not_corrupt h.sound hc2 hclast)]
    dsimp only
    rw [hread, hfind]

/-! ## The clusters that are freed -/

/-- The clusters of `l` were freed. -/
structure Freed (g : Geometry) (l : List Nat) (v v' : FlatVol) : Prop where
  others : ∀ j, 2 ≤ j → j ≤ g.lastCluster → j ∉ l → g.fatEntry v'.disk j = g.fatEntry v.disk j
  freeSet : g.freeSet v'.disk = g.freeSet v.disk ∪ l.toFinset
  outside : ∀ k, k < g.fatPos ∨ g.fatPos + g.noFats * g.fatSize ≤ k → v'.disk k = v.disk k
  diskError : v'.diskError = v.diskError
  hint : 2 ≤ v.free.nextCluster → 2 ≤ v'.free.nextCluster
  count : CountsFree g v → CountsFree g v'

theorem Freed.nil (v : FlatVol) (g : Geometry) : Freed g [] v v :=
  ⟨fun _ _ _ _ => rfl, by simp, fun _ _ => rfl, rfl, id, id⟩

theorem Freed.of_alike (halike : Alike v v') (h : Freed g l v' v'') : Freed g l v v'' := by
  refine ⟨fun j hj hlast hout => ?_, ?_, fun k hk => ?_, ?_, fun hhint => ?_, fun hcount => ?_⟩
  · rw [h.others j hj hlast hout, halike.disk]
  · rw [h.freeSet, halike.disk]
  · rw [h.outside k hk, halike.disk]
  · rw [h.diskError, halike.diskError]
  · exact h.hint (by rw [halike.free]; exact hhint)
  · refine h.count fun hvalid => ?_
    rw [halike.free] at hvalid ⊢
    rw [halike.disk]
    exact hcount hvalid

theorem Freed.cons (h : Regular g) (hc : 2 ≤ c) (hlast : c ≤ g.lastCluster)
    (hset : WasSet g c 0 v v') (hfreed : Freed g l v' v'') : Freed g (c :: l) v v'' := by
  have hbound := h.sound.lastCluster
  refine ⟨fun j hj hjlast hout => ?_, ?_, fun k hk => ?_, ?_, fun hhint => ?_, fun hcount => ?_⟩
  · rw [List.mem_cons, not_or] at hout
    rw [hfreed.others j hj hjlast hout.2, hset.others j hj hjlast hout.1]
  · rw [hfreed.freeSet, hset.freeSet hc hlast (.inl rfl), if_pos rfl, List.toFinset_cons,
      Finset.insert_union, Finset.union_insert]
  · rw [hfreed.outside k hk, hset.outside k hk]
  · rw [hfreed.diskError, hset.diskError]
  · refine hfreed.hint ?_
    rw [hset.free, note_nextCluster _ (by omega)]
    split
    · omega
    · exact hhint
  · refine hfreed.count fun hvalid => ?_
    rw [hset.free, note_valid] at hvalid
    exact hset.clusterCount hc hlast (.inl rfl) hbound (hcount hvalid)

/-- The loop frees the clusters up to the end mark. -/
theorem freeChain_eq (h : Regular g) (hl : Segment (g.fatEntry v.disk) c l e)
    (he : g.EndOfFatChain e) (hrange : ∀ x ∈ l, 2 ≤ x ∧ x ≤ g.lastCluster) (hnodup : l.Nodup) :
    ∃ fuel v', Vol.freeChain flat g fuel c v = some (.success, v') ∧ Freed g l v v' := by
  induction l generalizing c v with
  | nil =>
    have hce : c = e := hl
    exact ⟨1, v, by rw [Vol.freeChain, if_pos (hce ▸ he)], .nil v g⟩
  | cons x l ih =>
    obtain ⟨rfl, hl⟩ := hl
    obtain ⟨hc2, hclast⟩ := hrange c List.mem_cons_self
    obtain ⟨hread, halike⟩ := h.read hclast v
    obtain ⟨hcl, hnodup⟩ := List.nodup_cons.mp hnodup
    have hset := (h.set hc2 hclast 0 (Vol.fatGetFatEntry flat g c v).2).2
    -- the rest of the chain is as it was
    have hrest : Segment (g.fatEntry (Vol.fatSetFatEntry flat g c 0
        (Vol.fatGetFatEntry flat g c v).2).2.disk) (g.fatEntry v.disk c) l e := by
      refine hl.congr fun x hx => ?_
      obtain ⟨hx2, hxlast⟩ := hrange x (List.mem_cons_of_mem c hx)
      rw [hset.others x hx2 hxlast fun hxc => hcl (hxc ▸ hx), halike.disk]
    obtain ⟨fuel, v', hfree, hfreed⟩ := ih hrest (fun x hx => hrange x (List.mem_cons_of_mem c hx))
      hnodup
    refine ⟨fuel + 1, v', ?_, .of_alike halike (.cons h hc2 hclast hset hfreed)⟩
    rw [Vol.freeChain, if_neg (not_endOfFatChain h.sound hclast),
      if_neg (not_corrupt h.sound hc2 hclast)]
    dsimp only
    rw [hread]
    exact hfree

/-! ## FatShrinkEof -/

/-- What `FatShrinkEof` makes of a file that keeps the clusters `p`. -/
def OFile.shrunk (f : OFile) (p : List Nat) : OFile :=
  if p ≠ [] then
    { f with dirty := true, fileCurrentCluster := f.fileCluster, fileLastCluster := p.getLastD 0 }
  else if f.fileCluster = 0 then { f with dirty := true }
  else
    { f with dirty := true, fileCluster := 0, fileCurrentCluster := 0, fileLastCluster := 0 }

/-- What becomes of the volume when a file keeps the clusters `p` and the clusters `q` are freed. -/
structure Shrunk (g : Geometry) (p q : List Nat) (v v' : FlatVol) : Prop where
  others : ∀ j, 2 ≤ j → j ≤ g.lastCluster → j ∉ p ++ q →
    g.fatEntry v'.disk j = g.fatEntry v.disk j
  freeSet : g.freeSet v'.disk = g.freeSet v.disk ∪ q.toFinset
  outside : ∀ k, k < g.fatPos ∨ g.fatPos + g.noFats * g.fatSize ≤ k → v'.disk k = v.disk k
  count : CountsFree g v → CountsFree g v'

@[simp] theorem shrunk_fileSize (f : OFile) (p : List Nat) : (f.shrunk p).fileSize = f.fileSize := by
  unfold OFile.shrunk
  split
  · rfl
  · split
    · rfl
    · rfl

@[simp] theorem shrunk_root (f : OFile) (p : List Nat) :
    (f.shrunk p).isFixedRootDir = f.isFixedRootDir := by
  unfold OFile.shrunk
  split
  · rfl
  · split
    · rfl
    · rfl

/-- The size calls for no cluster, and the whole chain is freed. -/
theorem fatShrinkEof_all (h : Regular g) (ho : Opened g v f l)
    (hsize : g.fatSizeToClusters f.fileSize = 0) :
    ∃ fuel v', Vol.fatShrinkEof flat g fuel f v = some (.success, f.shrunk [], v') ∧
      Opened g v' (f.shrunk []) [] ∧ Shrunk g [] l v v' := by
  by_cases hfirst : f.fileCluster = 0
  · obtain rfl := ho.chain.first_eq_zero.mp hfirst
    refine ⟨0, v, ?_, ?_, ⟨fun _ _ _ _ => rfl, by simp, fun _ _ => rfl, id⟩⟩
    · rw [Vol.fatShrinkEof]
      dsimp only
      rw [if_neg (not_not.mpr hsize), if_pos hfirst, OFile.shrunk, if_neg (not_not.mpr rfl),
        if_pos hfirst]
    · rw [OFile.shrunk, if_neg (not_not.mpr rfl), if_pos hfirst]
      exact ⟨ho.chain, ho.last, ho.coupled, ho.root, ho.diskError, ho.hint⟩
  · have hnil : l ≠ [] := fun hnil => hfirst (ho.chain.empty hnil)
    obtain ⟨e, he, hseg⟩ := ho.chain.links hnil
    obtain ⟨fuel, v', hfree, hfreed⟩ := freeChain_eq h hseg he ho.chain.range
      (ho.chain.nodup h.sound)
    have hshrunk : f.shrunk [] =
        { f with dirty := true, fileCluster := 0, fileCurrentCluster := 0, fileLastCluster := 0 } := by
      rw [OFile.shrunk, if_neg (not_not.mpr rfl), if_neg hfirst]
    refine ⟨fuel, v', ?_, ?_, ⟨hfreed.others, hfreed.freeSet, hfreed.outside, hfreed.count⟩⟩
    · rw [Vol.fatShrinkEof]
      dsimp only
      rw [if_neg (not_not.mpr hsize), if_neg hfirst, hfree, hshrunk]
      rfl
    · rw [hshrunk]
      exact ⟨.nil .., .inl rfl, .inl rfl, ho.root, hfreed.diskError.trans ho.diskError,
        hfreed.hint ho.hint⟩

/-- The size calls for some clusters of the chain. -/
theorem fatShrinkEof_some (h : Regular g) (ho : Opened g v f (p ++ q)) (hp : p ≠ [])
    (hsize : g.fatSizeToClusters f.fileSize = p.length) :
    ∃ fuel v', Vol.fatShrinkEof flat g fuel f v = some (.success, f.shrunk p, v') ∧
      Opened g v' (f.shrunk p) p ∧ Shrunk g p q v v' := by
  have hnil : p ++ q ≠ [] := fun hnil => hp (List.append_eq_nil_iff.mp hnil).1
  obtain ⟨e, he, hseg⟩ := ho.chain.links hnil
  obtain ⟨d, hkept, hrest⟩ := segment_append.mp hseg
  have hrange := ho.chain.range
  have hnodup := List.nodup_append.mp (ho.chain.nodup h.sound)
  obtain ⟨v₁, halike, hfind⟩ := findLast_eq h hkept
    (fun x hx => hrange x (List.mem_append_left q hx)) 0
  have hlast := getLastD_mem hp 0
  obtain ⟨hlast2, hlastle⟩ := hrange _ (List.mem_append_left q hlast)
  have hset := (h.set hlast2 hlastle g.clusterLast v₁).2.of_alike halike
  have hplain : g.Plain g.clusterLast := ChainValue.plain h.toSpacious (.inr rfl)
  have hvalue : g.clusterLast ≠ 0 := EndOfFatChain.ne_zero (endOfFatChain_clusterLast g)
  generalize hw : (Vol.fatSetFatEntry flat g (p.getLastD 0) g.clusterLast v₁).2 = w at hset
  -- the clusters behind are linked as they were
  have hrest' : Segment (g.fatEntry w.disk) d q e := by
    refine hrest.congr fun x hx => ?_
    obtain ⟨hx2, hxlast⟩ := hrange x (List.mem_append_right p hx)
    exact hset.others x hx2 hxlast fun hxp => hnodup.2.2 _ hlast x hx hxp.symm
  obtain ⟨fuel, v', hfree, hfreed⟩ := freeChain_eq h hrest' he
    (fun x hx => hrange x (List.mem_append_right p hx)) hnodup.2.1
  have hshrunk : f.shrunk p = { f with
      dirty := true, fileCurrentCluster := f.fileCluster, fileLastCluster := p.getLastD 0 } := by
    rw [OFile.shrunk, if_pos hp]
  have hbound := h.sound.lastCluster
  have hfreeSet : g.freeSet w.disk = g.freeSet v.disk := by
    rw [hset.freeSet hlast2 hlastle hplain, if_neg hvalue, Finset.erase_eq_of_notMem]
    exact ho.chain.notMem_freeSet (List.mem_append_left q hlast)
  refine ⟨fuel, v', ?_, ?_, ?_⟩
  · rw [Vol.fatShrinkEof]
    dsimp only
    rw [hsize, if_pos (by simp [hp]), hfind, Option.elim_some]
    dsimp only
    rw [hw, hfree, hshrunk]
    rfl
  · rw [hshrunk]
    refine ⟨.of_segment hp (fun c hc => hrange c (List.mem_append_left q hc))
      (endOfFatChain_clusterLast g) ?_, .inr ?_, .inl rfl, ho.root, ?_, ?_⟩
    · -- the chain ends behind its last cluster
      have hsplit : p = p.dropLast ++ [p.getLastD 0] := by
        rw [List.getLastD_eq_getLast?, List.getLast?_eq_some_getLast hp, Option.getD_some,
          List.dropLast_append_getLast]
      have hpnodup := hnodup.1
      have hout : ∀ x ∈ p, x ∉ q := fun x hx hxq => hnodup.2.2 x hx x hxq rfl
      generalize p.getLastD 0 = x at hset hlast hlast2 hlastle hsplit ⊢
      rw [hsplit] at hkept hpnodup
      rw [hsplit]
      refine segment_snoc.mpr ⟨(segment_snoc.mp hkept).1.congr fun y hy => ?_, ?_⟩
      · have hyp : y ∈ p := hsplit ▸ List.mem_append_left [x] hy
        obtain ⟨hy2, hylast⟩ := hrange y (List.mem_append_left q hyp)
        rw [hfreed.others y hy2 hylast (hout y hyp), hset.others y hy2 hylast fun hyx =>
          (List.nodup_append.mp hpnodup).2.2 y hy x (List.mem_singleton.mpr rfl) hyx]
      · rw [hfreed.others x hlast2 hlastle (hout x hlast), hset.set, extend_clusterLast]
    · rw [List.getLastD_eq_getLast?, List.getLast?_eq_some_getLast hp, Option.getD_some]
    · rw [hfreed.diskError, hset.diskError, ho.diskError]
    · refine hfreed.hint ?_
      rw [hset.free, note_nextCluster _ (by omega), if_neg fun hnew => hvalue hnew.1]
      exact ho.hint
  · refine ⟨fun j hj hjlast hout => ?_, ?_, fun k hk => ?_, fun hcount => ?_⟩
    · rw [List.mem_append, not_or] at hout
      rw [hfreed.others j hj hjlast hout.2, hset.others j hj hjlast fun hjp =>
        hout.1 (hjp ▸ hlast)]
    · rw [hfreed.freeSet, hfreeSet]
    · rw [hfreed.outside k hk, hset.outside k hk]
    · refine hfreed.count fun hvalid => ?_
      rw [hset.free, note_valid] at hvalid
      exact hset.clusterCount hlast2 hlastle hplain hbound (hcount hvalid)

/-- Shrinking a file: it keeps the clusters that its size calls for. -/
theorem fatShrinkEof_eq (h : Regular g) (ho : Opened g v f (p ++ q))
    (hsize : g.fatSizeToClusters f.fileSize = p.length) :
    ∃ fuel v', Vol.fatShrinkEof flat g fuel f v = some (.success, f.shrunk p, v') ∧
      Opened g v' (f.shrunk p) p ∧ Shrunk g p q v v' := by
  by_cases hp : p = []
  · subst hp
    exact fatShrinkEof_all h ho hsize
  · exact fatShrinkEof_some h ho hp hsize

/-- The chain has fewer clusters than the size calls for. -/
theorem fatShrinkEof_short (h : Regular g) (ho : Opened g v f l)
    (hsize : l.length < g.fatSizeToClusters f.fileSize) (fuel : Nat) :
    ∃ v', Alike v v' ∧
      Vol.fatShrinkEof flat g fuel f v = some (.volumeCorrupted, { f with dirty := true }, v') := by
  have hfind : ∃ v', Alike v v' ∧
      Vol.findLast flat g (g.fatSizeToClusters f.fileSize) 0 f.fileCluster v = (none, v') := by
    by_cases hnil : l = []
    · obtain ⟨k, hk⟩ : ∃ k, g.fatSizeToClusters f.fileSize = k + 1 :=
        ⟨g.fatSizeToClusters f.fileSize - 1, by omega⟩
      refine ⟨v, .refl v, ?_⟩
      rw [hk, Vol.findLast, if_pos (.inl (ho.chain.empty hnil))]
    · obtain ⟨e, he, hseg⟩ := ho.chain.links hnil
      exact findLast_short h hseg he ho.chain.range hsize 0
  obtain ⟨v', halike, hfind⟩ := hfind
  refine ⟨v', halike, ?_⟩
  rw [Vol.fatShrinkEof]
  dsimp only
  rw [if_pos (by omega), hfind]
  rfl

end EfiCore.Fat
