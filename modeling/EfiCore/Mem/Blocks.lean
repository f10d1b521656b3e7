import EfiCore.Mem.Ownership

/-! # Block operations keep the pool sound

Taking a block off its list, returning one, carving a new unit and giving a unit up, each with
what it does to the free lists, the headers and the allocated blocks.
-/

namespace EfiCore.Mem

open EfiCore.Lib

namespace MemState

variable {A : Arch} {s : MemState A}

namespace PoolSound

/-- The pool stays sound when only the map changes, and not at the pages of the pool. -/
theorem of_eq (h : s.PoolSound) {s' : MemState A} (hu : s'.poolUnits = s.poolUnits)
    (hc : s'.cell = s.cell) (hl : ∀ t i, (s'.pool t).freeList i = (s.pool t).freeList i)
    (hr : s'.poolHeadList = s.poolHeadList) (hv : ∀ a, s.Owned a → s'.view a = s.view a)
    (hh : ∀ b, s'.IsHome b → s.IsHome b) : s'.PoolSound := by
  have head : ∀ u x n, s'.Head u x n ↔ s.Head u x n := by
    intro u x n
    rw [Head, Head, hu, hc]
  have alloc : ∀ t b, s.Allocated t b → s'.Allocated t b := by
    rintro t b ⟨u, x, n, hb, ht, hx⟩
    exact ⟨u, x, n, hb, ht, (head u x n).mpr hx⟩
  constructor
  · exact hu ▸ h.units
  · exact hu ▸ h.shaped
  · exact hu ▸ h.notFree
  · intro u hmem a ha
    rw [hu] at hmem
    rw [hv a ⟨u, hmem, ha⟩]
    exact h.typed u hmem a ha
  · rw [hu, hc]
    exact h.carved
  · rw [hu, hc]
    exact h.large
  · intro t i b hb
    rw [hl] at hb
    rw [hu, hc]
    exact h.listed t i b hb
  · intro t i
    rw [hl]
    exact h.nodup t i
  · exact fun b hb => alloc _ b (h.homes b (hh b hb))
  · rw [hr]
    exact fun r hr => (h.records r hr).imp_right (alloc _ r.2)
  · rw [hr]
    exact h.recordsDistinct

/-- The base of an undivided unit is no block of a list. -/
theorem base_ne_block (h : s.PoolSound) {u v : PoolUnit} (hu : u ∈ s.poolUnits)
    (hv : v ∈ s.poolUnits) (hnone : v.index = none) {b i : Nat} (hb : u.Block A b i) :
    v.base ≠ b := by
  rintro rfl
  have := h.unit_eq hu hv (block_covers (h.shaped u hu) hb).1 (base_covers (h.shaped v hv))
  subst this
  obtain ⟨j, hj, _⟩ := hb
  rw [hnone] at hj
  cases hj

end PoolSound

/-! ## Taking a block -/

theorem takeFill_cell (s : MemState A) (t : MemoryType) (i : Nat) (rest : List Nat) (n b a : Nat) :
    ((s.takeBlock t i rest).fillHead t n b).cell a =
      if a = b then .head t (n % 2 ^ 32) else s.cell a := rfl

theorem takeFill_freeList (s : MemState A) (t : MemoryType) (i : Nat) (rest : List Nat)
    (n b : Nat) (t' : MemoryType) (i' : Nat) :
    ((((s.takeBlock t i rest).fillHead t n b).pool t').freeList i') =
      if t' = t ∧ i' = i then rest else (s.pool t').freeList i' := by
  by_cases ht : t' = t
  · subst ht
    by_cases hi : i' = i <;> simp [takeBlock, fillHead, setPool, setCell, hi]
  · simp [takeBlock, fillHead, setPool, setCell, ht]

/-- The first block of a list becomes an allocated block. -/
theorem takeFill_sound (h : s.PoolSound) {t : MemoryType} {i b n : Nat} {rest : List Nat}
    (hl : (s.pool t).freeList i = b :: rest) (hi : sizeToList n = i) (hn : n < 2 ^ 32) :
    let s' := (s.takeBlock t i rest).fillHead t n b
    s'.PoolSound ∧ (∃ u, u.type = t ∧ s'.Head u b n) ∧
      ∀ u x k, s.Head u x k → s'.Head u x k ∧ x ≠ b := by
  have hbmem : b ∈ (s.pool t).freeList i := hl ▸ List.mem_cons_self
  obtain ⟨v, hv, hvt, hvb, hfree⟩ := h.listed t i b hbmem
  have hnodup : b ∉ rest ∧ rest.Nodup := by
    have := h.nodup t i
    rw [hl] at this
    exact List.nodup_cons.mp this
  set s' := (s.takeBlock t i rest).fillHead t n b with hs'
  have hcell : ∀ a, s'.cell a = if a = b then .head t n else s.cell a := by
    intro a
    rw [hs', takeFill_cell, Nat.mod_eq_of_lt hn]
  have hlist := takeFill_freeList s t i rest n b
  have heads : ∀ u x k, s.Head u x k → s'.Head u x k ∧ x ≠ b := by
    intro u x k hx
    have hne : x ≠ b := fun hxb => h.not_head_of_listed hbmem u k (hxb ▸ hx)
    refine ⟨⟨hx.1, ?_, hx.2.2⟩, hne⟩
    rw [hcell, if_neg hne]
    exact hx.2.1
  have alloc : ∀ t b, s.Allocated t b → s'.Allocated t b := by
    rintro t b ⟨u, x, k, hb, ht, hx⟩
    exact ⟨u, x, k, hb, ht, (heads u x k hx).1⟩
  refine ⟨⟨h.units, h.shaped, h.notFree, h.typed, ?_, ?_, ?_, ?_, ?_, ?_, h.recordsDistinct⟩,
    ⟨v, hvt, hv, ?_, .inl (hi ▸ hvb)⟩, heads⟩
  · intro u hu b' i' hb'
    rw [hcell]
    by_cases hbb : b' = b
    · subst hbb
      obtain ⟨rfl, rfl⟩ := h.block_unique hu hv hb' hvb
      rw [if_pos rfl]
      exact .inr ⟨n, by rw [hvt], hi⟩
    · rw [if_neg hbb]
      exact h.carved u hu b' i' hb'
  · intro u hu hnone
    rw [hcell, if_neg (h.base_ne_block hv hu hnone hvb)]
    exact h.large u hu hnone
  · intro t' i' b' hb'
    rw [hlist] at hb'
    have hold : b' ∈ (s.pool t').freeList i' ∧ b' ≠ b := by
      by_cases hti : t' = t ∧ i' = i
      · rw [if_pos hti] at hb'
        obtain ⟨rfl, rfl⟩ := hti
        refine ⟨hl ▸ List.mem_cons_of_mem _ hb', ?_⟩
        rintro rfl
        exact hnodup.1 hb'
      · rw [if_neg hti] at hb'
        refine ⟨hb', ?_⟩
        rintro rfl
        obtain ⟨u, hu, hut, hub, _⟩ := h.listed t' i' b' hb'
        obtain ⟨rfl, rfl⟩ := h.block_unique hu hv hub hvb
        exact hti ⟨hut.symm.trans hvt, rfl⟩
    obtain ⟨u, hu, hut, hub, hf⟩ := h.listed t' i' b' hold.1
    refine ⟨u, hu, hut, hub, ?_⟩
    rw [hcell, if_neg hold.2]
    exact hf
  · intro t' i'
    rw [hlist]
    split
    · exact hnodup.2
    · exact h.nodup t' i'
  · exact fun b hb => alloc _ b (h.homes b hb)
  · exact fun r hr => (h.records r hr).imp_right (alloc _ r.2)
  · rw [hcell, if_pos rfl, hvt]

/-! ## Returning a block -/

theorem putBlock_freeList (s : MemState A) (t : MemoryType) (i b : Nat) (t' : MemoryType)
    (i' : Nat) : ((s.putBlock t i b).pool t').freeList i' =
      if t' = t ∧ i' = i then b :: (s.pool t').freeList i' else (s.pool t').freeList i' := by
  by_cases ht : t' = t
  · subst ht
    by_cases hi : i' = i <;> simp [putBlock, Pool.insertHead, setPool, hi]
  · simp [putBlock, setPool, setCell, ht]

/-- An allocated block that holds no descriptor and no record goes back to its list. -/
theorem putBlock_sound (h : s.PoolSound) {u : PoolUnit} {b n : Nat} (hb : s.Head u b n)
    (hblock : u.Block A b (sizeToList n)) (hhome : ¬ s.IsHome (b + sizeOfPoolHead))
    (hrec : ∀ r ∈ s.poolHeadList, r.2 ≠ b + sizeOfPoolHead) :
    let s' := s.putBlock u.type (sizeToList n) b
    s'.PoolSound ∧ ∀ v x k, s.Head v x k → x ≠ b → s'.Head v x k := by
  set s' := s.putBlock u.type (sizeToList n) b with hs'
  have hcell : ∀ a, s'.cell a = if a = b then .free (sizeToList n) else s.cell a := fun _ => rfl
  have hlist := putBlock_freeList s u.type (sizeToList n) b
  have heads : ∀ v x k, s.Head v x k → x ≠ b → s'.Head v x k := by
    intro v x k hx hne
    refine ⟨hx.1, ?_, hx.2.2⟩
    rw [hcell, if_neg hne]
    exact hx.2.1
  refine ⟨⟨h.units, h.shaped, h.notFree, h.typed, ?_, ?_, ?_, ?_, ?_, ?_, h.recordsDistinct⟩,
    heads⟩
  · intro v hv b' i' hb'
    rw [hcell]
    by_cases hbb : b' = b
    · subst hbb
      obtain ⟨rfl, rfl⟩ := h.block_unique hv hb.1 hb' hblock
      rw [if_pos rfl]
      exact .inl rfl
    · rw [if_neg hbb]
      exact h.carved v hv b' i' hb'
  · intro v hv hnone
    rw [hcell, if_neg (h.base_ne_block hb.1 hv hnone hblock)]
    exact h.large v hv hnone
  · intro t' i' b' hb'
    rw [hlist] at hb'
    by_cases hbb : b' = b
    · subst hbb
      by_cases hti : t' = u.type ∧ i' = sizeToList n
      · obtain ⟨rfl, rfl⟩ := hti
        exact ⟨u, hb.1, rfl, hblock, by rw [hcell, if_pos rfl]⟩
      · rw [if_neg hti] at hb'
        exact absurd hb (h.not_head_of_listed hb' u n)
    · have hold : b' ∈ (s.pool t').freeList i' := by
        split at hb'
        · exact (List.mem_cons.mp hb').resolve_left hbb
        · exact hb'
      obtain ⟨v, hv, hvt, hvb, hf⟩ := h.listed t' i' b' hold
      refine ⟨v, hv, hvt, hvb, ?_⟩
      rw [hcell, if_neg hbb]
      exact hf
  · intro t' i'
    rw [hlist]
    split
    · rename_i hti
      obtain ⟨rfl, rfl⟩ := hti
      refine List.nodup_cons.mpr ⟨fun hmem => ?_, h.nodup _ _⟩
      exact h.not_head_of_listed hmem u n hb
    · exact h.nodup t' i'
  · intro buffer hbuf
    obtain ⟨v, x, k, rfl, ht, hx⟩ := h.homes buffer hbuf
    refine ⟨v, x, k, rfl, ht, heads v x k hx ?_⟩
    rintro rfl
    exact hhome hbuf
  · intro r hr
    obtain ⟨hos, v, x, k, hrx, ht, hx⟩ := h.records r hr
    refine ⟨hos, v, x, k, hrx, ht, heads v x k hx ?_⟩
    rintro rfl
    exact hrec r hr hrx

/-! ## Giving up a unit -/

/-- A unit without allocated blocks can be dropped together with its free blocks. -/
theorem disown_sound (h : s.PoolSound) {u : PoolUnit} (hu : u ∈ s.poolUnits) {blocks : List Nat}
    (hblocks : ∀ b i, u.Block A b i → b ∈ blocks)
    (hempty : ∀ x n, s.Head u x n → ¬ s.IsHome (x + sizeOfPoolHead) ∧
      ∀ r ∈ s.poolHeadList, r.2 ≠ x + sizeOfPoolHead) :
    let s' := (s.removeBlocks blocks).disownUnit u.base
    s'.PoolSound ∧ (∀ v x k, s.Head v x k → v ≠ u → s'.Head v x k) ∧
      ∀ v, v ∈ s'.poolUnits ↔ v ∈ s.poolUnits ∧ v ≠ u := by
  set s' := (s.removeBlocks blocks).disownUnit u.base with hs'
  have hmem : ∀ v, v ∈ s'.poolUnits ↔ v ∈ s.poolUnits ∧ v ≠ u := by
    intro v
    have hv : v ∈ s'.poolUnits ↔ v ∈ s.poolUnits ∧ v.base ≠ u.base := by
      simp [hs', disownUnit, removeBlocks]
    rw [hv]
    refine and_congr_right fun hv => not_congr ⟨fun hbase => ?_, fun he => he ▸ rfl⟩
    exact h.units.eq_of_key hv hu hbase
  have heads : ∀ v x k, s.Head v x k → v ≠ u → s'.Head v x k :=
    fun v x k hx hne => ⟨(hmem v).mpr ⟨hx.1, hne⟩, hx.2.1, hx.2.2⟩
  have sub : ∀ v ∈ s'.poolUnits, v ∈ s.poolUnits := fun v hv => ((hmem v).mp hv).1
  refine ⟨⟨h.units.filter _, fun v hv => h.shaped v (sub v hv), fun v hv => h.notFree v (sub v hv),
    fun v hv => h.typed v (sub v hv), fun v hv => h.carved v (sub v hv),
    fun v hv => h.large v (sub v hv), ?_, ?_, ?_, ?_, h.recordsDistinct⟩, heads, hmem⟩
  · intro t i b hb
    have hb' : b ∈ (s.pool t).freeList i ∧ b ∉ blocks := by
      simpa using List.mem_filter.mp hb
    obtain ⟨v, hv, hvt, hvb, hf⟩ := h.listed t i b hb'.1
    refine ⟨v, (hmem v).mpr ⟨hv, ?_⟩, hvt, hvb, hf⟩
    rintro rfl
    exact hb'.2 (hblocks b i hvb)
  · exact fun t i => (h.nodup t i).filter _
  · intro buffer hbuf
    obtain ⟨v, x, k, rfl, ht, hx⟩ := h.homes buffer hbuf
    refine ⟨v, x, k, rfl, ht, heads v x k hx ?_⟩
    rintro rfl
    exact (hempty x k hx).1 hbuf
  · intro r hr
    obtain ⟨hos, v, x, k, hrx, ht, hx⟩ := h.records r hr
    refine ⟨hos, v, x, k, hrx, ht, heads v x k hx ?_⟩
    rintro rfl
    exact (hempty x k hx).2 r hr hrx

/-- A unit of one buffer has no blocks on the lists. -/
theorem disown_large_sound (h : s.PoolSound) {u : PoolUnit} (hu : u ∈ s.poolUnits)
    (hnone : u.index = none)
    (hempty : ∀ x n, s.Head u x n → ¬ s.IsHome (x + sizeOfPoolHead) ∧
      ∀ r ∈ s.poolHeadList, r.2 ≠ x + sizeOfPoolHead) :
    let s' := s.disownUnit u.base
    s'.PoolSound ∧ (∀ v x k, s.Head v x k → v ≠ u → s'.Head v x k) ∧
      ∀ v, v ∈ s'.poolUnits ↔ v ∈ s.poolUnits ∧ v ≠ u := by
  have hblocks : ∀ b i, u.Block A b i → b ∈ ([] : List Nat) := by
    rintro b i ⟨j, hj, _⟩
    rw [hnone] at hj
    cases hj
  obtain ⟨hsound, hheads, hmem⟩ := disown_sound h hu hblocks hempty
  refine ⟨hsound.of_eq rfl rfl ?_ rfl (fun _ _ => rfl) (fun _ hb => hb), hheads, hmem⟩
  intro t i
  change (s.pool t).freeList i = ((s.pool t).freeList i).filter (· ∉ ([] : List Nat))
  simp

/-! ## A new unit -/

/-- What carving the blocks `bs` of a page at `p` does: each is free and on its list, and
    nothing else changes. -/
structure Carved (t : MemoryType) (p : Nat) (bs : List (Nat × Nat)) (s s' : MemState A) :
    Prop where
  free : ∀ b ∈ bs, s'.cell (p + b.1) = .free b.2
  cell : ∀ a, (∀ b ∈ bs, a ≠ p + b.1) → s'.cell a = s.cell a
  listed : ∀ t' i x, x ∈ (s'.pool t').freeList i ↔
    (t' = t ∧ ∃ offset, (offset, i) ∈ bs ∧ x = p + offset) ∨ x ∈ (s.pool t').freeList i
  nodup : (∀ t' i, ((s.pool t').freeList i).Nodup) →
    (∀ b ∈ bs, p + b.1 ∉ (s.pool t).freeList b.2) → ∀ t' i, ((s'.pool t').freeList i).Nodup
  frame : s' = { s with cell := s'.cell, pool := s'.pool }

theorem putBlocks_carved (t : MemoryType) (p : Nat) {bs : List (Nat × Nat)}
    (hbs : bs.Pairwise fun b b' => b.1 + listToSize b.2 ≤ b'.1) (s : MemState A) :
    Carved t p bs s (bs.foldl (fun s b => s.putBlock t b.2 (p + b.1)) s) := by
  induction bs generalizing s with
  | nil =>
    refine ⟨by simp, fun _ _ => rfl, ?_, fun h _ => h, rfl⟩
    intro t' i x
    simp
  | cons b bs ih =>
    obtain ⟨hb, hbs⟩ := List.pairwise_cons.mp hbs
    have hpos : 0 < listToSize b.2 := Nat.mul_pos (Nat.succ_pos _) (by decide)
    have c := ih hbs (s.putBlock t b.2 (p + b.1))
    have hcell : ∀ a, (s.putBlock t b.2 (p + b.1)).cell a =
        if a = p + b.1 then .free b.2 else s.cell a := fun _ => rfl
    have hlist := putBlock_freeList s t b.2 (p + b.1)
    rw [List.foldl_cons]
    refine ⟨?_, ?_, ?_, ?_, c.frame.trans rfl⟩
    · intro b' hb'
      rcases List.mem_cons.mp hb' with rfl | hb'
      · rw [c.cell, hcell, if_pos rfl]
        intro b'' hb'' heq
        have := hb b'' hb''
        omega
      · exact c.free b' hb'
    · intro a ha
      rw [c.cell a fun b' hb' => ha b' (List.mem_cons_of_mem _ hb'), hcell,
        if_neg (ha b List.mem_cons_self)]
    · intro t' i x
      rw [c.listed, hlist]
      constructor
      · rintro (⟨ht, offset, hmem, hx⟩ | hx)
        · exact .inl ⟨ht, offset, List.mem_cons_of_mem _ hmem, hx⟩
        · split at hx
          · rename_i hti
            rcases List.mem_cons.mp hx with rfl | hx
            · exact .inl ⟨hti.1, b.1, by rw [hti.2]; exact List.mem_cons_self, rfl⟩
            · exact .inr hx
          · exact .inr hx
      · rintro (⟨rfl, offset, hmem, rfl⟩ | hx)
        · rcases List.mem_cons.mp hmem with heq | hmem
          · right
            rw [← heq, if_pos ⟨rfl, rfl⟩]
            exact List.mem_cons_self
          · exact .inl ⟨rfl, offset, hmem, rfl⟩
        · right
          split
          · exact List.mem_cons_of_mem _ hx
          · exact hx
    · intro hnodup hfresh
      refine c.nodup ?_ ?_
      · intro t' i
        rw [hlist]
        split
        · rename_i hti
          rw [hti.1, hti.2]
          exact List.nodup_cons.mpr ⟨hfresh b List.mem_cons_self, hnodup _ _⟩
        · exact hnodup t' i
      · intro b' hb' hmem
        rw [hlist] at hmem
        have hold : p + b'.1 ∈ (s.pool t).freeList b'.2 := by
          split at hmem
          · rcases List.mem_cons.mp hmem with heq | hmem
            · have := hb b' hb'
              omega
            · exact hmem
          · exact hmem
        exact hfresh b' (List.mem_cons_of_mem _ hb') hold

/-- The pages of a new unit: of the unit's type in the map, and nobody's in the pool. -/
structure NewUnit (s : MemState A) (u : PoolUnit) : Prop where
  shaped : u.Shaped A
  notFree : u.type ≠ .conventionalMemory
  typed : ∀ a, u.Covers a → ∃ attr, s.view a = some (u.type, attr)
  unowned : ∀ a, u.Covers a → ¬ s.Owned a

theorem NewUnit.spans (h : s.PoolSound) {u : PoolUnit} (hu : s.NewUnit u) :
    Spans PoolUnit.base PoolUnit.base PoolUnit.last (u :: s.poolUnits) := by
  have hcover := base_covers hu.shaped
  have hclear : ∀ v ∈ s.poolUnits, v.last < u.base ∨ u.last < v.base := by
    intro v hv
    by_contra hcon
    have hv' := base_covers (h.shaped v hv)
    refine hu.unowned (max u.base v.base) ?_ ⟨v, hv, ?_⟩ <;>
      simp only [PoolUnit.Covers] at hcover hv' ⊢ <;> omega
  refine h.units.cons (fun v hv hbase => ?_) hcover.2 hclear
  have := hclear v hv
  have := base_covers (h.shaped v hv)
  simp only [PoolUnit.Covers] at this hcover
  omega

/-- No block or header of the pool lies in a new unit. -/
theorem NewUnit.head_not_covered (h : s.PoolSound) {u : PoolUnit} (hu : s.NewUnit u)
    {v : PoolUnit} {x k : Nat} (hx : s.Head v x k) : ¬ u.Covers x :=
  fun hc => hu.unowned x hc ⟨v, hx.1, h.head_covers hx⟩

/-- Carving a new unit. -/
theorem carvePage_sound (h : s.PoolSound) {u : PoolUnit} (hu : s.NewUnit u) {i : Nat}
    (hi : u.index = some i) :
    let s' := (s.ownUnit u).carvePage u.type u.base i
    s'.PoolSound ∧ (∀ v x k, s.Head v x k → s'.Head v x k) ∧ s'.memoryMap = s.memoryMap ∧
      s'.poolHeadList = s.poolHeadList ∧ s'.poolUnits = u :: s.poolUnits ∧
      (s'.pool u.type).freeList i ≠ [] := by
  have c := putBlocks_carved u.type u.base (carve_spec A i (Nat.zero_le _)).2 (s.ownUnit u)
  change Carved u.type u.base (carve A i 0) (s.ownUnit u)
    ((s.ownUnit u).carvePage u.type u.base i) at c
  set s' := (s.ownUnit u).carvePage u.type u.base i
  have hunits : s'.poolUnits = u :: s.poolUnits := congrArg poolUnits c.frame
  have hmap : s'.memoryMap = s.memoryMap := (congrArg memoryMap c.frame).trans rfl
  have hrecords : s'.poolHeadList = s.poolHeadList :=
    (congrArg poolHeadList c.frame).trans rfl
  have hblock : ∀ b ∈ carve A i 0, u.Block A (u.base + b.1) b.2 :=
    fun b hb => ⟨i, hi, b.1, hb, rfl⟩
  have hkeep : ∀ a, ¬ u.Covers a → s'.cell a = s.cell a := by
    intro a ha
    refine c.cell a fun b hb heq => ha ?_
    rw [heq]
    exact (block_covers hu.shaped (hblock b hb)).1
  have heads : ∀ v x k, s.Head v x k → s'.Head v x k := by
    intro v x k hx
    refine ⟨hunits ▸ List.mem_cons_of_mem _ hx.1, ?_, hx.2.2⟩
    rw [hkeep x (hu.head_not_covered h hx)]
    exact hx.2.1
  have hold : ∀ v ∈ s.poolUnits, ∀ a, v.Covers a → ¬ u.Covers a :=
    fun v hv a hva hua => hu.unowned a hua ⟨v, hv, hva⟩
  have alloc : ∀ t b, s.Allocated t b → s'.Allocated t b := by
    rintro t b ⟨v, x, k, hb, ht, hx⟩
    exact ⟨v, x, k, hb, ht, heads v x k hx⟩
  refine ⟨⟨?_, ?_, ?_, ?_, ?_, ?_, ?_, ?_, ?_, ?_, ?_⟩, heads, hmap, hrecords, hunits, ?_⟩
  · rw [hunits]
    exact hu.spans h
  · rw [hunits]
    exact List.forall_mem_cons.mpr ⟨hu.shaped, h.shaped⟩
  · rw [hunits]
    exact List.forall_mem_cons.mpr ⟨hu.notFree, h.notFree⟩
  · rw [hunits, view, hmap]
    exact List.forall_mem_cons.mpr ⟨hu.typed, h.typed⟩
  · rw [hunits]
    refine List.forall_mem_cons.mpr ⟨?_, ?_⟩
    · rintro b j ⟨i', hi', offset, hmem, rfl⟩
      rw [hi] at hi'
      cases hi'
      exact .inl (c.free _ hmem)
    · intro v hv b j hb
      rw [hkeep b (hold v hv b (block_covers (h.shaped v hv) hb).1)]
      exact h.carved v hv b j hb
  · rw [hunits]
    refine List.forall_mem_cons.mpr ⟨fun hnone => ?_, ?_⟩
    · rw [hi] at hnone
      cases hnone
    · intro v hv hnone
      rw [hkeep v.base (hold v hv _ (base_covers (h.shaped v hv)))]
      exact h.large v hv hnone
  · intro t j b hb
    rw [hunits]
    rcases (c.listed t j b).mp hb with ⟨rfl, offset, hmem, rfl⟩ | hb
    · exact ⟨u, List.mem_cons_self, rfl, hblock _ hmem, c.free _ hmem⟩
    · obtain ⟨v, hv, hvt, hvb, hf⟩ := h.listed t j b hb
      refine ⟨v, List.mem_cons_of_mem _ hv, hvt, hvb, ?_⟩
      rw [hkeep b (hold v hv b (block_covers (h.shaped v hv) hvb).1)]
      exact hf
  · refine c.nodup h.nodup fun b hb hmem => ?_
    obtain ⟨v, hv, _, hvb, _⟩ := h.listed _ _ _ hmem
    exact hold v hv _ (block_covers (h.shaped v hv) hvb).1
      (block_covers hu.shaped (hblock b hb)).1
  · rintro b ⟨e, he, hk⟩
    exact alloc _ b (h.homes b ⟨e, hmap ▸ he, hk⟩)
  · rw [hrecords]
    exact fun r hr => (h.records r hr).imp_right (alloc _ r.2)
  · rw [hrecords]
    exact h.recordsDistinct
  · have hfirst : u.base + 0 ∈ (s'.pool u.type).freeList i :=
      (c.listed _ _ _).mpr (.inl ⟨rfl, 0, carve_first (hu.shaped.carved i hi).1, rfl⟩)
    exact List.ne_nil_of_mem hfirst

/-- A new unit that is one buffer. -/
theorem ownLarge_sound (h : s.PoolSound) {u : PoolUnit} (hu : s.NewUnit u)
    (hnone : u.index = none) {n : Nat} (hn : n < 2 ^ 32) (hlarge : maxPoolList A ≤ sizeToList n)
    (hpages : u.pages = poolPages A n) :
    let s' := (s.ownUnit u).fillHead u.type n u.base
    s'.PoolSound ∧ s'.Head u u.base n ∧ ∀ v x k, s.Head v x k → s'.Head v x k ∧ x ≠ u.base := by
  set s' := (s.ownUnit u).fillHead u.type n u.base with hs'
  have hcell : ∀ a, s'.cell a = if a = u.base then .head u.type n else s.cell a := by
    intro a
    have : s'.cell a = if a = u.base then .head u.type (n % 2 ^ 32) else s.cell a := rfl
    rw [this, Nat.mod_eq_of_lt hn]
  have hlist : ∀ t i, (s'.pool t).freeList i = (s.pool t).freeList i := by
    intro t i
    by_cases ht : t = u.type
    · subst ht
      simp [hs', fillHead, ownUnit, setPool, setCell]
    · simp [hs', fillHead, ownUnit, setPool, setCell, ht]
  have hunits : s'.poolUnits = u :: s.poolUnits := rfl
  have hbase := base_covers hu.shaped
  have hold : ∀ v ∈ s.poolUnits, ∀ a, v.Covers a → a ≠ u.base := by
    rintro v hv a hva rfl
    exact hu.unowned _ hbase ⟨v, hv, hva⟩
  have heads : ∀ v x k, s.Head v x k → s'.Head v x k ∧ x ≠ u.base := by
    intro v x k hx
    have hne := hold v hx.1 x (h.head_covers hx)
    refine ⟨⟨List.mem_cons_of_mem _ hx.1, ?_, hx.2.2⟩, hne⟩
    rw [hcell, if_neg hne]
    exact hx.2.1
  have alloc : ∀ t b, s.Allocated t b → s'.Allocated t b := by
    rintro t b ⟨v, x, k, hb, ht, hx⟩
    exact ⟨v, x, k, hb, ht, (heads v x k hx).1⟩
  have hself : s'.cell u.base = .head u.type n := by rw [hcell, if_pos rfl]
  refine ⟨⟨hu.spans h, ?_, ?_, ?_, ?_, ?_, ?_, ?_, ?_, ?_, h.recordsDistinct⟩,
    ⟨List.mem_cons_self, hself, .inr ⟨hnone, rfl, hlarge, hpages⟩⟩, heads⟩
  · exact List.forall_mem_cons.mpr ⟨hu.shaped, h.shaped⟩
  · exact List.forall_mem_cons.mpr ⟨hu.notFree, h.notFree⟩
  · exact List.forall_mem_cons.mpr ⟨hu.typed, h.typed⟩
  · rw [hunits]
    refine List.forall_mem_cons.mpr ⟨?_, ?_⟩
    · rintro b j ⟨i', hi', _⟩
      rw [hnone] at hi'
      cases hi'
    · intro v hv b j hb
      rw [hcell, if_neg (hold v hv b (block_covers (h.shaped v hv) hb).1)]
      exact h.carved v hv b j hb
  · rw [hunits]
    refine List.forall_mem_cons.mpr ⟨fun _ => ⟨n, hself, hlarge, hpages⟩, ?_⟩
    intro v hv hv'
    rw [hcell, if_neg (hold v hv _ (base_covers (h.shaped v hv)))]
    exact h.large v hv hv'
  · intro t j b hb
    rw [hlist] at hb
    obtain ⟨v, hv, hvt, hvb, hf⟩ := h.listed t j b hb
    refine ⟨v, List.mem_cons_of_mem _ hv, hvt, hvb, ?_⟩
    rw [hcell, if_neg (hold v hv b (block_covers (h.shaped v hv) hvb).1)]
    exact hf
  · intro t j
    rw [hlist]
    exact h.nodup t j
  · exact fun b hb => alloc _ b (h.homes b hb)
  · exact fun r hr => (h.records r hr).imp_right (alloc _ r.2)

end MemState

end EfiCore.Mem
