import EfiCore.Fat.Walks

/-! # Freeing a chain

The loop that frees a chain lays waste to the cycle it is in, but for one: it does not free
cluster 1.
-/

namespace EfiCore.Fat

open EfiCore.Lib

variable {g : Geometry} {v v' : FlatVol} {m : Nat → Byte} {c d n fuel : Nat} {l : List Nat}

/-! ## Turns of the loop -/

theorem not_stops_one (g : Geometry) : ¬g.Stops 1 := by
  have := g.arch.two_pow_32_le
  unfold Geometry.Stops Geometry.EndOfFatChain Geometry.Corrupt Geometry.special
  omega

theorem freeChain_of_stops (h : g.Stops c) (fuel : Nat) (v : FlatVol) :
    (Vol.freeChain flat g (fuel + 1) c v).isSome := by
  rw [Vol.freeChain]
  split
  · rfl
  · split
    · rfl
    · rcases h with hend | hcorrupt
      · contradiction
      · contradiction

theorem freeChain_succ (h : ¬g.Stops c) (fuel : Nat) (v : FlatVol) :
    Vol.freeChain flat g (fuel + 1) c v =
      Vol.freeChain flat g fuel (Vol.fatGetFatEntry flat g c v).1
        (Vol.fatSetFatEntry flat g c 0 (Vol.fatGetFatEntry flat g c v).2).2 := by
  rw [Vol.freeChain, if_neg (not_or.mp h).1, if_neg (not_or.mp h).2]

/-- A turn for a cluster of the volume. -/
theorem Healthy.freeChain (h : Healthy g) (hc : 2 ≤ c) (hlast : c ≤ g.lastCluster)
    (v : FlatVol) : ∃ v', WasSet g c 0 v v' ∧ ∀ fuel,
      Vol.freeChain flat g (fuel + 1) c v = Vol.freeChain flat g fuel (g.read v.disk c) v' := by
  obtain ⟨hread, halike⟩ := h.get c v
  refine ⟨_, (h.set hc hlast 0 _).2.of_alike halike, fun fuel => ?_⟩
  have hstops : ¬g.Stops c := by
    have := h.sound.last_lt
    unfold Geometry.Stops Geometry.EndOfFatChain Geometry.Corrupt
    omega
  rw [freeChain_succ hstops, hread]

/-- A turn for cluster 1, which is not freed. -/
theorem Healthy.freeChain_one (h : Healthy g) (v : FlatVol) : ∃ v', Alike v v' ∧ ∀ fuel,
    Vol.freeChain flat g (fuel + 1) 1 v = Vol.freeChain flat g fuel (g.read v.disk 1) v' := by
  obtain ⟨hread, halike⟩ := h.get 1 v
  refine ⟨_, halike, fun fuel => ?_⟩
  rw [freeChain_succ (not_stops_one g), hread, Vol.fatSetFatEntry_reserved (by decide)]

/-- Behind the last cluster the loop ends. -/
theorem Healthy.freeChain_beyond (h : Healthy g) (hc : g.lastCluster < c) (v : FlatVol) :
    (Vol.freeChain flat g 2 c v).isSome := by
  by_cases hstops : g.Stops c
  · exact freeChain_of_stops hstops 1 v
  · rw [freeChain_succ hstops, (h.get c v).1, Geometry.read_of_gt hc]
    exact freeChain_of_stops (stops_clusterLast g) 0 _

/-- The clusters that are in use. -/
def Geometry.used (g : Geometry) (m : Nat → Byte) : Finset Nat :=
  (Finset.range (g.lastCluster + 1)).filter fun j => 2 ≤ j ∧ g.fatEntry m j ≠ 0

/-- Freeing a cluster that is in use lowers their number. -/
theorem WasSet.used_lt (hset : WasSet g c 0 v v') (hc : 2 ≤ c) (hlast : c ≤ g.lastCluster)
    (hused : g.fatEntry v.disk c ≠ 0) : (g.used v'.disk).card < (g.used v.disk).card := by
  refine Finset.card_lt_card (Finset.ssubset_iff_of_subset ?_ |>.mpr ⟨c, ?_, ?_⟩)
  · intro j hj
    simp only [Geometry.used, Finset.mem_filter, Finset.mem_range] at hj ⊢
    by_cases hjc : j = c
    · exact ⟨hj.1, hj.2.1, hjc ▸ hused⟩
    · rw [hset.others j hj.2.1 (by omega) hjc] at hj
      exact hj
  · simp only [Geometry.used, Finset.mem_filter, Finset.mem_range]
    exact ⟨by omega, hc, hused⟩
  · simp only [Geometry.used, Finset.mem_filter, hset.set, extend_zero]
    exact fun hmem => hmem.2.2 rfl

/-- The volume is marked as far as it is going to be. -/
def Settled (g : Geometry) (v : FlatVol) : Prop := v.fatDirty = true ∨ g.fatType = .fat12

theorem Settled.markedOne (h : Settled g v) : v.markedOne g = g.fatEntry v.disk 1 := if_pos h

/-- Entry 1 does not lead to itself, now that the volume is marked. -/
structure NoTrap (g : Geometry) (v : FlatVol) : Prop where
  settled : Settled g v
  one : g.read v.disk 1 ≠ 1

theorem NoTrap.of_alike (h : NoTrap g v) (halike : Alike v v') : NoTrap g v' := by
  refine ⟨?_, ?_⟩
  · unfold Settled
    rw [halike.fatDirty]
    exact h.settled
  · rw [halike.disk]
    exact h.one

theorem NoTrap.of_wasSet (h : Healthy g) {i value : Nat} (hone : v.markedOne g ≠ 1)
    (hlast : 1 ≤ g.lastCluster) (hset : WasSet g i value v v') : NoTrap g v' := by
  refine ⟨.inl hset.fatDirty, ?_⟩
  rwa [h.read_of_le hlast, hset.one]

/-- Then the loop ends, whatever the chain is: each turn but those for cluster 1 frees a cluster
    that was in use, or comes to the end. -/
theorem NoTrap.freeChain_ends (h : Healthy g) (htrap : NoTrap g v) (c : Nat) :
    ∃ fuel, (Vol.freeChain flat g fuel c v).isSome := by
  obtain ⟨n, hn⟩ : ∃ n, n = (g.used v.disk).card := ⟨_, rfl⟩
  induction n using Nat.strong_induction_on generalizing v c with
  | _ n ih =>
    -- the clusters other than 1 first
    have hother : ∀ {v c}, NoTrap g v → n = (g.used v.disk).card → c ≠ 1 →
        ∃ fuel, (Vol.freeChain flat g fuel c v).isSome := by
      intro v c htrap hn hc
      by_cases hstops : g.Stops c
      · exact ⟨1, freeChain_of_stops hstops 0 v⟩
      by_cases hlast : g.lastCluster < c
      · exact ⟨2, h.freeChain_beyond hlast v⟩
      have hc2 : 2 ≤ c := by
        have hzero : c ≠ 0 := fun hzero => hstops (hzero ▸ stops_zero g)
        omega
      obtain ⟨v', hset, hstep⟩ := h.freeChain hc2 (by omega) v
      by_cases hused : g.fatEntry v.disk c = 0
      · refine ⟨2, ?_⟩
        rw [hstep 1, h.read_of_le (by omega), hused]
        exact freeChain_of_stops (stops_zero g) 0 v'
      · have hone : v.markedOne g ≠ 1 := by
          rw [htrap.settled.markedOne, ← h.read_of_le (by omega)]
          exact htrap.one
        obtain ⟨fuel, hfuel⟩ := ih _ (hn ▸ hset.used_lt hc2 (by omega) hused)
          (.of_wasSet h hone (by omega) hset) (g.read v.disk c) rfl
        exact ⟨fuel + 1, by rw [hstep fuel]; exact hfuel⟩
    by_cases hc : c = 1
    · subst hc
      obtain ⟨v', halike, hstep⟩ := h.freeChain_one v
      obtain ⟨fuel, hfuel⟩ := hother (htrap.of_alike halike) (by rw [halike.disk]; exact hn) htrap.one
      exact ⟨fuel + 1, by rw [hstep fuel]; exact hfuel⟩
    · exact hother htrap hn hc

/-! ## Freeing a chain that has an end -/

/-- The other links of the table stay, but for what follows cluster 1. -/
theorem WasSet.next (h : Healthy g) (hset : WasSet g c n v v') (hdc : d ≠ c) (hd : d ≠ 1) :
    g.next v'.disk d = g.next v.disk d := by
  by_cases hstops : g.Stops d
  · rw [next_of_stops hstops, next_of_stops hstops]
  · rw [next_of_not_stops hstops, next_of_not_stops hstops]
    by_cases hlast : g.lastCluster < d
    · rw [Geometry.read_of_gt hlast, Geometry.read_of_gt hlast]
    · have hzero : d ≠ 0 := fun hzero => hstops (hzero ▸ stops_zero g)
      rw [h.read_of_le (by omega), h.read_of_le (by omega),
        hset.others d (by omega) (by omega) hdc]

/-- The chain does not come to cluster 1. -/
theorem freeChain_ends_of_not_mem (h : Healthy g) (hl : follow (g.next v.disk) n c = some l)
    (hone : 1 ∉ l) : ∃ fuel, (Vol.freeChain flat g fuel c v).isSome := by
  induction n generalizing c l v with
  | zero => cases hl
  | succ n ih =>
    rcases follow_cases hl with ⟨hnone, rfl⟩ | ⟨b, k, r, hnext, hk, hr, rfl⟩
    · by_cases hstops : g.Stops c
      · exact ⟨1, freeChain_of_stops hstops 0 v⟩
      · rw [next_of_not_stops hstops] at hnone
        cases hnone
    · cases hk
      obtain ⟨hstops, rfl⟩ := next_eq_some hnext
      by_cases hlast : g.lastCluster < c
      · exact ⟨2, h.freeChain_beyond hlast v⟩
      have hzero : c ≠ 0 := fun hzero => hstops (hzero ▸ stops_zero g)
      rw [List.mem_cons, not_or] at hone
      obtain ⟨v', hset, hstep⟩ := h.freeChain (show 2 ≤ c by omega) (by omega) v
      have hnodup := List.nodup_cons.mp (follow_nodup hl)
      have hrest : follow (g.next v'.disk) n (g.read v.disk c) = some r :=
        follow_congr hr fun d hd => (hset.next h (fun hdc => hnodup.1 (hdc ▸ hd))
          (fun hd1 => hone.2 (hd1 ▸ hd))).symm
      obtain ⟨fuel, hfuel⟩ := ih hrest hone.2
      exact ⟨fuel + 1, by rw [hstep fuel]; exact hfuel⟩

/-- The chain has an end, and if it comes to cluster 1 then the mark does not make a trap of it. -/
theorem freeChain_ends (h : Healthy g) (hl : follow (g.next v.disk) n c = some l)
    (hone : 1 ∈ l.tail → v.markedOne g ≠ 1) :
    ∃ fuel, (Vol.freeChain flat g fuel c v).isSome := by
  have hnodup := follow_nodup hl
  -- the turn for cluster 1, if it is the first one
  have hhead : ∀ {b k r}, c = 1 → follow (g.next v.disk) k b = some r → g.read v.disk 1 = b →
      (∀ v', Alike v v' → ∃ fuel, (Vol.freeChain flat g fuel b v').isSome) →
      ∃ fuel, (Vol.freeChain flat g fuel c v).isSome := by
    intro b k r hc _ hb hrest
    subst hc
    obtain ⟨v', halike, hstep⟩ := h.freeChain_one v
    obtain ⟨fuel, hfuel⟩ := hrest v' halike
    exact ⟨fuel + 1, by rw [hstep fuel, hb]; exact hfuel⟩
  rcases follow_cases hl with ⟨hnone, rfl⟩ | ⟨b, k, r, hnext, hk, hr, rfl⟩
  · by_cases hstops : g.Stops c
    · exact ⟨1, freeChain_of_stops hstops 0 v⟩
    · rw [next_of_not_stops hstops] at hnone
      cases hnone
  obtain ⟨hstops, rfl⟩ := next_eq_some hnext
  rw [List.tail_cons] at hone
  by_cases hmark : v.markedOne g = 1
  · have hr1 : 1 ∉ r := fun hmem => hone hmem hmark
    by_cases hc : c = 1
    · refine hhead hc hr (by rw [hc]) fun v' halike => ?_
      have hr' : follow (g.next v'.disk) k (g.read v.disk c) = some r := by
        rw [halike.disk]
        exact hr
      exact freeChain_ends_of_not_mem h hr' hr1
    · refine freeChain_ends_of_not_mem h hl ?_
      rw [List.mem_cons, not_or]
      exact ⟨fun h1 => hc h1.symm, hr1⟩
  · -- the first cluster that is freed has the volume marked
    have hfree : ∀ {v₁ d}, Alike v v₁ → d ≠ 1 → ∃ fuel, (Vol.freeChain flat g fuel d v₁).isSome := by
      intro v₁ d halike hd
      by_cases hstops : g.Stops d
      · exact ⟨1, freeChain_of_stops hstops 0 v₁⟩
      by_cases hlast : g.lastCluster < d
      · exact ⟨2, h.freeChain_beyond hlast v₁⟩
      have hzero : d ≠ 0 := fun hzero => hstops (hzero ▸ stops_zero g)
      obtain ⟨v', hset, hstep⟩ := h.freeChain (show 2 ≤ d by omega) (by omega) v₁
      have htrap := NoTrap.of_wasSet h hmark (by omega) (hset.of_alike halike)
      obtain ⟨fuel, hfuel⟩ := htrap.freeChain_ends h (g.read v₁.disk d)
      exact ⟨fuel + 1, by rw [hstep fuel]; exact hfuel⟩
    by_cases hc : c = 1
    · refine hhead hc hr (by rw [hc]) fun v' halike => hfree halike fun hb => ?_
      obtain ⟨r', rfl⟩ := follow_head hr
      rw [hc] at hb hnodup
      exact (List.nodup_cons.mp hnodup).1 (by rw [hb]; exact List.mem_cons_self)
    · exact hfree (.refl v) hc

/-! ## The trap -/

/-- The clusters from `c` up to cluster 1. -/
def Trail (next : Nat → Option Nat) : Nat → List Nat → Prop
  | c, [] => c = 1
  | c, x :: p => c = x ∧ ∃ b, next x = some b ∧ Trail next b p

theorem Trail.congr {next next' : Nat → Option Nat} {p : List Nat} (h : Trail next c p)
    (hsame : ∀ d ∈ p, next' d = next d) : Trail next' c p := by
  induction p generalizing c with
  | nil => exact h
  | cons x p ih =>
    obtain ⟨rfl, b, hb, hrest⟩ := h
    exact ⟨rfl, b, (hsame c List.mem_cons_self).trans hb,
      ih hrest fun d hd => hsame d (List.mem_cons_of_mem c hd)⟩

theorem trail_of_follow (hl : follow (g.next m) n c = some l) (hone : 1 ∈ l) :
    ∃ p, Trail (g.next m) c p ∧ p.Sublist l ∧ 1 ∉ p := by
  induction n generalizing c l with
  | zero => cases hl
  | succ n ih =>
    by_cases hc : c = 1
    · exact ⟨[], hc, List.nil_sublist l, List.not_mem_nil⟩
    rcases follow_cases hl with ⟨-, rfl⟩ | ⟨b, k, r, hnext, hk, hr, rfl⟩
    · exact absurd (List.mem_singleton.mp hone).symm hc
    · cases hk
      obtain ⟨p, htrail, hsub, hp⟩ := ih hr ((List.mem_cons.mp hone).resolve_left fun h => hc h.symm)
      refine ⟨c :: p, ⟨rfl, b, hnext, htrail⟩, hsub.cons_cons c, ?_⟩
      rw [List.mem_cons, not_or]
      exact ⟨fun h => hc h.symm, hp⟩

/-- Entry 1 leads to itself. -/
structure Trapped (g : Geometry) (v : FlatVol) : Prop where
  settled : Settled g v
  last : 1 ≤ g.lastCluster
  one : g.fatEntry v.disk 1 = 1

/-- A cluster from which there is a trail is a cluster of the volume, or cluster 1. -/
theorem Trail.le_last {p : List Nat} (hlast : 1 ≤ g.lastCluster) (h : Trail (g.next m) c p) :
    c ≤ g.lastCluster := by
  cases p with
  | nil =>
    have hc : c = 1 := h
    omega
  | cons x p =>
    obtain ⟨rfl, b, hb, hrest⟩ := h
    by_contra hgt
    obtain ⟨-, hread⟩ := next_eq_some hb
    rw [Geometry.read_of_gt (by omega)] at hread
    subst hread
    cases p with
    | nil => exact not_stops_one g (hrest ▸ stops_clusterLast g)
    | cons y p =>
      obtain ⟨rfl, b, hb, -⟩ := hrest
      rw [next_of_stops (stops_clusterLast g)] at hb
      cases hb

/-- From a trail the loop comes to cluster 1 and stays there. -/
theorem Trapped.never_ends (h : Healthy g) {p : List Nat} (htrap : Trapped g v)
    (htrail : Trail (g.next v.disk) c p) (hnodup : p.Nodup) (hone : 1 ∉ p) (fuel : Nat) :
    Vol.freeChain flat g fuel c v = none := by
  induction fuel generalizing c p v with
  | zero => rfl
  | succ fuel ih =>
    cases p with
    | nil =>
      have hc : c = 1 := htrail
      subst hc
      obtain ⟨v', halike, hstep⟩ := h.freeChain_one v
      have htrap' : Trapped g v' := by
        refine ⟨?_, htrap.last, by rw [halike.disk]; exact htrap.one⟩
        unfold Settled
        rw [halike.fatDirty]
        exact htrap.settled
      rw [hstep, h.read_of_le htrap.last, htrap.one]
      exact ih (p := []) htrap' rfl List.nodup_nil List.not_mem_nil
    | cons x p =>
      have hlast := htrail.le_last htrap.last
      obtain ⟨rfl, b, hb, hrest⟩ := htrail
      obtain ⟨hstops, rfl⟩ := next_eq_some hb
      have hzero : c ≠ 0 := fun hzero => hstops (hzero ▸ stops_zero g)
      rw [List.mem_cons, not_or] at hone
      obtain ⟨hcp, hnodup⟩ := List.nodup_cons.mp hnodup
      obtain ⟨v', hset, hstep⟩ := h.freeChain (by omega) hlast v
      rw [hstep]
      have hmark := hset.one
      rw [htrap.settled.markedOne, htrap.one] at hmark
      refine ih ⟨.inl hset.fatDirty, htrap.last, hmark⟩ (hrest.congr fun d hd => ?_) hnodup hone.2
      exact hset.next h (fun hdc => hcp (hdc ▸ hd)) fun hd1 => hone.2 (hd1 ▸ hd)

/-- The volume is marked on the way, and the mark makes the trap. -/
theorem freeChain_never_ends (h : Healthy g) (hl : follow (g.next v.disk) n c = some l)
    (hone : 1 ∈ l.tail) (hmark : v.markedOne g = 1) (fuel : Nat) :
    Vol.freeChain flat g fuel c v = none := by
  have hnodup := follow_nodup hl
  rcases follow_cases hl with ⟨-, rfl⟩ | ⟨b, k, r, hnext, -, hr, rfl⟩
  · cases hone
  rw [List.tail_cons] at hone
  obtain ⟨p, htrail, hsub, hp⟩ := trail_of_follow hr hone
  obtain ⟨hcr, hnodup⟩ := List.nodup_cons.mp hnodup
  obtain ⟨hstops, rfl⟩ := next_eq_some hnext
  have hzero : c ≠ 0 := fun hzero => hstops (hzero ▸ stops_zero g)
  have hc1 : c ≠ 1 := fun hc1 => hcr (hc1 ▸ hone)
  have hlast : c ≤ g.lastCluster := by
    by_contra hgt
    rw [Geometry.read_of_gt (by omega)] at hr
    rcases follow_cases hr with ⟨-, rfl⟩ | ⟨d, -, -, hd, -⟩
    · exact not_stops_one g (List.mem_singleton.mp hone ▸ stops_clusterLast g)
    · rw [next_of_stops (stops_clusterLast g)] at hd
      cases hd
  cases fuel with
  | zero => rfl
  | succ fuel =>
    obtain ⟨v', hset, hstep⟩ := h.freeChain (by omega) hlast v
    rw [hstep]
    refine Trapped.never_ends h ⟨.inl hset.fatDirty, by omega, hset.one.trans hmark⟩
      (htrail.congr fun d hd => ?_) (hnodup.sublist hsub) hp fuel
    exact hset.next h (fun hdc => hcr (hdc ▸ hsub.subset hd)) fun hd1 => hp (hd1 ▸ hd)

/-! ## FatShrinkEof -/

theorem freeChain_ends_iff (h : Healthy g) (hl : follow (g.next v.disk) n c = some l) :
    (∃ fuel, (Vol.freeChain flat g fuel c v).isSome) ↔ (1 ∈ l.tail → v.markedOne g ≠ 1) := by
  refine ⟨fun ⟨fuel, hends⟩ hone hmark => ?_, freeChain_ends h hl⟩
  rw [freeChain_never_ends h hl hone hmark] at hends
  cases hends

/-- The loop after the end was put behind `d`. -/
theorem freeChain_behind_ends_iff (h : Healthy g)
    (hl : follow (g.next v.disk) n d = some (d :: c :: l)) (halike : Alike v v') :
    (∃ fuel, (Vol.freeChain flat g fuel c
      (Vol.fatSetFatEntry flat g d g.clusterLast v').2).isSome) ↔
      (1 ∈ c :: l → v.markedOne g ≠ 1) := by
  have hnodup := follow_nodup hl
  rcases follow_cases hl with ⟨-, heq⟩ | ⟨b, k, r, hnext, -, hr, heq⟩
  · cases heq
  cases heq
  obtain ⟨r', heq⟩ := follow_head hr
  cases heq
  obtain ⟨hstops, hread⟩ := next_eq_some hnext
  rw [List.nodup_cons] at hnodup
  by_cases hlast : g.lastCluster < d
  · -- what follows is the end
    rw [Geometry.read_of_gt hlast] at hread
    subst hread
    have hnil : l = [] := by
      rcases follow_cases hr with ⟨-, heq⟩ | ⟨b, -, -, hb, -⟩
      · exact (List.cons.inj heq).2
      · rw [next_of_stops (stops_clusterLast g)] at hb
        cases hb
    subst hnil
    refine ⟨fun _ hone => ?_, fun _ => ⟨1, freeChain_of_stops (stops_clusterLast g) 0 _⟩⟩
    exact absurd (List.mem_singleton.mp hone ▸ stops_clusterLast g) (not_stops_one g)
  by_cases hd : d = 1
  · -- the end is not put there
    subst hd
    rw [Vol.fatSetFatEntry_reserved (by decide)]
    rw [← halike.disk] at hr
    rw [freeChain_ends_iff h hr]
    exact ⟨fun _ hone => absurd hone hnodup.1,
      fun _ hone => absurd (List.mem_of_mem_tail hone) hnodup.1⟩
  have hzero : d ≠ 0 := fun hzero => hstops (hzero ▸ stops_zero g)
  have hset := (h.set (show 2 ≤ d by omega) (by omega) g.clusterLast v').2.of_alike halike
  generalize (Vol.fatSetFatEntry flat g d g.clusterLast v').2 = w at hset ⊢
  -- the rest of the chain is as it was, up to cluster 1
  have hsame : ∀ {b}, b ∈ c :: l → b ≠ 1 → g.next w.disk b = g.next v.disk b := fun hb hb1 =>
    hset.next h (fun hbd => hnodup.1 (hbd ▸ hb)) hb1
  by_cases hone : 1 ∈ c :: l
  · by_cases hmark : v.markedOne g = 1
    · refine ⟨fun ⟨fuel, hends⟩ => ?_, fun hall => absurd hmark (hall hone)⟩
      obtain ⟨p, htrail, hsub, hp⟩ := trail_of_follow hr hone
      have htrail' : Trail (g.next w.disk) c p := htrail.congr fun b hb =>
        hsame (hsub.subset hb) fun hb1 => hp (hb1 ▸ hb)
      have htrap : Trapped g w := ⟨.inl hset.fatDirty, by omega, hset.one.trans hmark⟩
      rw [htrap.never_ends h htrail' (hnodup.2.sublist hsub) hp] at hends
      cases hends
    · exact ⟨fun _ _ => hmark,
        fun _ => (NoTrap.of_wasSet h hmark (by omega) hset).freeChain_ends h c⟩
  · refine ⟨fun _ hone' => absurd hone' hone, fun _ => ?_⟩
    exact freeChain_ends_of_not_mem h (follow_congr hr fun b hb =>
      (hsame hb fun hb1 => hone (hb1 ▸ hb)).symm) hone

/-- `FatShrinkEof` on a chain that has an end: what is behind the clusters that stay is freed. -/
theorem fatShrinkEof_ends_iff (h : Healthy g) (f : OFile)
    (hl : follow (g.next v.disk) n f.fileCluster = some l) :
    (∃ fuel, (Vol.fatShrinkEof flat g fuel f v).isSome) ↔
      (1 ∈ l.drop (max (g.fatSizeToClusters f.fileSize) 1) → v.markedOne g ≠ 1) := by
  unfold Vol.fatShrinkEof
  dsimp only
  generalize g.fatSizeToClusters f.fileSize = size
  cases size with
  | zero =>
    simp only [ne_eq, not_true_eq_false, if_false]
    rw [Nat.zero_max, List.drop_one]
    -- the whole chain is freed
    by_cases hfree : f.fileCluster = 0
    · simp only [if_pos hfree]
      rw [hfree] at hl
      rcases follow_cases hl with ⟨-, rfl⟩ | ⟨b, -, -, hb, -⟩
      · exact ⟨fun _ hone => absurd hone List.not_mem_nil, fun _ => ⟨0, rfl⟩⟩
      · rw [next_of_stops (stops_zero g)] at hb
        cases hb
    · simp only [if_neg hfree, Option.isSome_map]
      exact freeChain_ends_iff h hl
  | succ size =>
    simp only [ne_eq, Nat.succ_ne_zero, not_false_eq_true, if_true]
    rw [Nat.max_eq_left (Nat.succ_pos size)]
    by_cases hlong : l.length ≤ size + 1
    · simp only [findLast_none h hl hlong 0, List.drop_eq_nil_of_le hlong]
      exact ⟨fun _ hone => absurd hone List.not_mem_nil, fun _ => ⟨0, rfl⟩⟩
    · -- the last cluster that stays, and the one behind it
      have hsize : size < l.length := by omega
      have hsize' : size + 1 < l.length := by omega
      have hdrop : l.drop (size + 1) = l[size + 1] :: l.drop (size + 2) :=
        List.drop_eq_getElem_cons hsize'
      have hsplit : l = l.take size ++ l[size] :: l[size + 1] :: l.drop (size + 2) := by
        rw [← hdrop, ← List.drop_eq_getElem_cons hsize, List.take_append_drop]
      have hlen : (l.take size).length = size := List.length_take_of_le (Nat.le_of_lt hsize)
      rw [hsplit] at hl
      obtain ⟨v', halike, hfind⟩ := findLast_some h hl 0
      rw [hlen] at hfind
      obtain ⟨m, hrest⟩ := follow_append hl
      simp only [hfind, Option.elim_some, Option.isSome_map]
      rw [hdrop]
      exact freeChain_behind_ends_iff h hrest halike

/-! ## All the walks -/

/-- The walks that only read the chain of a file come to an end. -/
structure ReadsEnd {σ : Type} (F : Store σ) (g : Geometry) (f : OFile) (v : Vol σ) : Prop where
  dirSize : ∃ fuel, (Vol.fatDirSize F g fuel f v).isSome
  lastSearch : ∃ fuel, (Vol.findEnd F g fuel 0 0 f.fileCluster v).isSome
  run : ∀ cluster run, ¬g.Corrupt cluster → ∃ fuel, (Vol.extendRun F g fuel run cluster v).isSome

/-- The walks along the chain of a file come to an end. -/
structure WalksEnd {σ : Type} (F : Store σ) (g : Geometry) (f : OFile) (v : Vol σ) : Prop
    extends ReadsEnd F g f v where
  shrinkEof : ∃ fuel, (Vol.fatShrinkEof F g fuel f v).isSome

/-- If cluster 1 is on the chain, behind the clusters that the size calls for, then the mark of the
    volume does not make it lead to itself. -/
def FreesOut (g : Geometry) (f : OFile) (v : FlatVol) : Prop :=
  ∀ fuel l, follow (g.next v.disk) fuel f.fileCluster = some l →
    1 ∈ l.drop (max (g.fatSizeToClusters f.fileSize) 1) → v.markedOne g ≠ 1

theorem fatDirSize_ends (f : OFile) (hl : follow (g.next v.disk) n f.fileCluster = some l) :
    ∃ fuel, (Vol.fatDirSize flat g fuel f v).isSome := by
  refine ⟨n, ?_⟩
  unfold Vol.fatDirSize
  split
  · rfl
  · split
    · rfl
    · rw [addClusters_isSome, hl]
      rfl

theorem readsEnd_flat_iff (f : OFile) (v : FlatVol) :
    ReadsEnd flat g f v ↔ NoCycle (g.next v.disk) f.fileCluster := by
  constructor
  · intro hends
    obtain ⟨fuel, hlast⟩ := hends.lastSearch
    rw [findEnd_isSome] at hlast
    exact (chain_ends_iff ..).mp ⟨fuel, hlast⟩
  · intro hcycle
    obtain ⟨fuel, hsome⟩ := (chain_ends_iff ..).mpr hcycle
    obtain ⟨l, hl⟩ := Option.isSome_iff_exists.mp hsome
    exact
      { dirSize := fatDirSize_ends f hl
        lastSearch := ⟨fuel, by rw [findEnd_isSome]; exact hsome⟩
        run := fun cluster run hc => extendRun_ends run hc v }

theorem walksEnd_flat_iff (h : Healthy g) (f : OFile) (v : FlatVol) :
    WalksEnd flat g f v ↔ NoCycle (g.next v.disk) f.fileCluster ∧ FreesOut g f v := by
  constructor
  · intro hends
    refine ⟨(readsEnd_flat_iff f v).mp hends.toReadsEnd, fun fuel l hl => ?_⟩
    exact (fatShrinkEof_ends_iff h f hl).mp hends.shrinkEof
  · intro ⟨hcycle, hfrees⟩
    obtain ⟨fuel, hsome⟩ := (chain_ends_iff ..).mpr hcycle
    obtain ⟨l, hl⟩ := Option.isSome_iff_exists.mp hsome
    exact
      { (readsEnd_flat_iff f v).mpr hcycle with
        shrinkEof := (fatShrinkEof_ends_iff h f hl).mpr (hfrees fuel l hl) }

section Store

variable {σ : Type} {F : Store σ} {good : σ → Prop} {bytes : σ → Nat → Byte}

/-- The walks end on a store if they end on the bytes that it shows. -/
theorem readsEnd_view (hF : Shows F g good bytes) (hg : NoWrap g) {v : Vol σ}
    (hv : Usable good v) (f : OFile) :
    ReadsEnd F g f v ↔ ReadsEnd flat g f (v.view bytes) := by
  have hsees := hv.sees bytes
  have hdirSize := fun fuel => (hsees.fatDirSize hF hg fuel f).isSome_eq
  have hlast := fun fuel => (hsees.findEnd hF hg fuel 0 0 f.fileCluster).isSome_eq
  have hrun := fun fuel run cluster => (hsees.extendRun hF hg fuel run cluster).isSome_eq
  constructor
  · intro ⟨hsize, hend, hruns⟩
    simp only [hdirSize, hlast, hrun] at hsize hend hruns
    exact ⟨hsize, hend, hruns⟩
  · intro ⟨hsize, hend, hruns⟩
    simp only [← hdirSize, ← hlast, ← hrun] at hsize hend hruns
    exact ⟨hsize, hend, hruns⟩

theorem walksEnd_view (hF : Shows F g good bytes) (hg : NoWrap g) {v : Vol σ}
    (hv : Usable good v) (f : OFile) :
    WalksEnd F g f v ↔ WalksEnd flat g f (v.view bytes) := by
  have hreads := readsEnd_view hF hg hv f
  have hshrink := fun fuel => ((hv.sees bytes).fatShrinkEof hF hg fuel f).isSome_eq
  constructor
  · intro ⟨hread, fuel, hsome⟩
    exact ⟨hreads.mp hread, fuel, (hshrink fuel).symm.trans hsome⟩
  · intro ⟨hread, fuel, hsome⟩
    exact ⟨hreads.mpr hread, fuel, (hshrink fuel).trans hsome⟩

end Store

/-- A directory of the clusters from `cluster` on, as it is when it was opened. -/
def directoryAt (cluster : Nat) : OFile where
  fileSize := 0
  fileCluster := cluster
  fileCurrentCluster := cluster
  fileLastCluster := 0
  attributes := 0x10
  isFixedRootDir := false
  dirty := false
  position := 0
  posDisk := 0
  posRem := 0

/-- Clusters 2 and 3 are a chain, and clusters 4 and 5 lead to each other. -/
def chainsDisk : List Byte :=
  splice (List.replicate 3584 0) 515 [0x03, 0xf0, 0xff, 0x05, 0x40, 0x00]

def chainsVol : FlatVol := { blankVol with
  disk := putBytes (fun _ => 0) 515 [0x03, 0xf0, 0xff, 0x05, 0x40, 0x00] }

theorem chains_medium : Medium chainsDisk smallPages.size chainsVol.disk :=
  (Medium.blank 3584).splice (by decide)

/-- The walks along the chain of a file of a mounted volume always end. -/
def AlwaysWalksEnd : Prop :=
  ∀ (A : Arch) (b : BootSector) (g : Geometry) (D : Drive) (L : Layout) (f : OFile)
    (v : Vol Volume), fatLocations A b = .ok g → Regime D g L → Usable (Coherent D L) v →
    WalksEnd (cached D) g f v

end EfiCore.Fat
