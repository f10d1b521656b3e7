import EfiCore.Mem.Blocks
import EfiCore.Mem.Fit

/-! # Pool operations as traffic

An operation on pool of type `t` moves units of that type, and units that hold descriptors,
since converting pages may add a descriptor or drop one.  Each function of `pool.c` is traffic
of these types, under the assumption `Convert.Moves` about `ConvertPages`: it takes pages out of
one descriptor of free memory for the pool, and takes back pages that no unit covers any more.
-/

namespace EfiCore.Mem

open EfiCore.Lib

namespace MemState

variable {A : Arch}

/-! ## Building traffic -/

namespace Traffic

variable {T : MemoryType → Prop} {R X X' : Nat → Prop} {s s' s'' : MemState A}

/-- Steps in a row, where the later one may exempt headers that were not allocated, or held a
    descriptor, at first. -/
theorem then_exempt (h : Traffic T R X s s') (h' : Traffic T R X' s' s'')
    (hX : ∀ u x n, s.Head u x n → ¬ s.IsHome (x + sizeOfPoolHead) → ¬ X x → ¬ X' x) :
    Traffic T R X s s'' where
  sound := h'.sound
  pool := h'.pool
  loose a ha := (h'.loose a ha).trans (h.loose a ha)
  view a ha hl := (h'.view a ha (mt (h.loose a ha).mp hl)).trans (h.view a ha hl)
  units u hu := (h'.units u hu).trans (h.units u hu)
  heads u x n hh hk hx := by
    obtain ⟨hh', hk'⟩ := h.heads u x n hh hk hx
    exact h'.heads u x n hh' hk' (hX u x n hh hk hx)
  records := h'.records.trans h.records

/-- A range that is loose before and after needs no exemption. -/
theorem close (h : Traffic T R X s s') (hs : ∀ a, R a → s.Loose T a)
    (hs' : ∀ a, R a → s'.Loose T a) : Traffic T nothing X s s' where
  sound := h.sound
  pool := h.pool
  loose a _ := by
    by_cases ha : R a
    · exact iff_of_true (hs' a ha) (hs a ha)
    · exact h.loose a ha
  view a _ hl := h.view a (fun ha => hl (hs a ha)) hl
  units := h.units
  heads := h.heads
  records := h.records

/-- An edit of the map, in a range without pool. -/
theorem of_edit (hp : s.PoolSound) {v : View} (h : Edit s v s')
    (hv : ∀ a, ¬ R a → v a = s.view a) (hR : ∀ a, R a → ¬ s.Owned a) : Traffic T R X s s' := by
  have hview : ∀ a, ¬ R a → s'.view a = s.view a := by
    intro a ha
    rw [h.view]
    exact hv a ha
  have hown : ∀ a, s.Owned a → s'.view a = s.view a :=
    fun a ho => hview a fun ha => hR a ha ho
  have hpool : s'.PoolSound := hp.of_eq h.poolUnits h.cell (fun t i => by rw [h.pool])
    h.poolHeadList hown h.homes
  refine ⟨h.sound, hpool, ?_, fun a ha _ => hview a ha, fun u _ => by rw [h.poolUnits], ?_,
    h.poolHeadList⟩
  · intro a ha
    rw [Loose, Loose, Free, Free, hview a ha, h.poolUnits]
  · intro u x n hx hk _
    refine ⟨?_, mt (h.homes _) hk⟩
    rw [Head, h.poolUnits, h.cell]
    exact hx

/-- A step that leaves the map alone and moves only units that the exempt range covers. -/
theorem of_map (hs : s'.Sound) (hp : s'.PoolSound) (hm : s'.memoryMap = s.memoryMap)
    (hu : ∀ u, (u ∈ s'.poolUnits ↔ u ∈ s.poolUnits) ∨ T u.type ∧ ∀ a, u.Covers a → R a)
    (hh : ∀ u x n, s.Head u x n → ¬ X x → s'.Head u x n)
    (hr : s'.poolHeadList = s.poolHeadList) : Traffic T R X s s' where
  sound := hs
  pool := hp
  loose a ha := by
    have hunits : (∃ u ∈ s'.poolUnits, T u.type ∧ u.Covers a) ↔
        ∃ u ∈ s.poolUnits, T u.type ∧ u.Covers a := by
      constructor <;> rintro ⟨u, hmem, ht, hc⟩ <;> rcases hu u with h | ⟨_, h⟩
      · exact ⟨u, h.mp hmem, ht, hc⟩
      · exact absurd (h a hc) ha
      · exact ⟨u, h.mpr hmem, ht, hc⟩
      · exact absurd (h a hc) ha
    rw [Loose, Loose, hunits, Free, Free, MemState.view, hm]
  view a _ _ := by rw [MemState.view, hm]
  units u ht := (hu u).resolve_right fun h => ht h.1
  heads u x n hx hk hX := by
    refine ⟨hh u x n hx hX, ?_⟩
    rw [IsHome, hm]
    exact hk
  records := hr

/-- What is neither loose nor the pool's does not become the pool's. -/
theorem unowned (h : Traffic T R X s s') {a : Nat} (ha : ¬ R a) (hl : ¬ s.Loose T a)
    (ho : ¬ s.Owned a) : ¬ s'.Owned a := by
  rintro ⟨u, hu, hc⟩
  by_cases ht : T u.type
  · exact hl ((h.loose a ha).mp (.inr ⟨u, hu, ht, hc⟩))
  · exact ho ⟨u, (h.units u ht).mp hu, hc⟩

end Traffic

/-- The types that an operation on pool of type `t` moves. -/
def traded (t : MemoryType) : MemoryType → Prop := fun t' => t' = .runtimeServicesData ∨ t' = t

theorem traded_descriptors : ∀ t', traded .runtimeServicesData t' → descriptorTypes t' := by
  rintro t' (h | h) <;> exact h

theorem unuse_traffic {T : MemoryType → Prop} {R X : Nat → Prop} {s : MemState A} (hs : s.Sound)
    (hp : s.PoolSound) (t : MemoryType) (n : Nat) : Traffic T R X s (s.unuse t n) := by
  have hlist : ∀ t' i, ((s.unuse t n).pool t').freeList i = (s.pool t').freeList i := by
    intro t' i
    by_cases ht : t' = t
    · subst ht
      simp [unuse, setPool]
    · simp [unuse, setPool, ht]
  exact .of_map (hs.of_eq rfl rfl) (hp.of_eq rfl rfl hlist rfl (fun _ _ => rfl) fun _ h => h) rfl
    (fun _ => .inl Iff.rfl) (fun _ _ _ h _ => h) rfl

/-! ## What the pool relies on in `ConvertPages` -/

/-- `[start, last]` was taken for the type `t`, and belongs to no unit yet. -/
structure Took (start last : Nat) (t : MemoryType) (s s' : MemState A) : Prop where
  traffic : Traffic descriptorTypes (fun a => start ≤ a ∧ a ≤ last) nothing s s'
  notFree : t ≠ .conventionalMemory
  free : ∀ a, start ≤ a → a ≤ last → s.Free a
  typed : ∀ a, start ≤ a → a ≤ last → ∃ attr, s'.view a = some (t, attr)
  unowned : ∀ a, start ≤ a → a ≤ last → ¬ s'.Owned a
  below : last + 1 < 2 ^ 64

/-- `[start, last]` was given back, and has become free or been taken for descriptors again. -/
structure Gave (start last : Nat) (s s' : MemState A) : Prop where
  traffic : Traffic descriptorTypes (fun a => start ≤ a ∧ a ≤ last) nothing s s'
  loose : ∀ a, start ≤ a → a ≤ last → s'.Loose descriptorTypes a

/-- `a` is covered, not free, and belongs to no unit. -/
def Held (s : MemState A) (a : Nat) : Prop :=
  (∃ t attr, s.view a = some (t, attr) ∧ t ≠ .conventionalMemory) ∧ ¬ s.Owned a

end MemState

open MemState

/-- What the pool relies on in `ConvertPages`: taking pages out of one descriptor of free memory
    works or changes nothing, and giving back pages works. -/
structure Convert.Moves {A : Arch} (convert : Convert A) : Prop where
  take : ∀ start n t s, s.Sound → s.PoolSound → 0 < n →
    n * 4096 < 2 ^ 64 → (∃ e ∈ s.memoryMap, e.type = .conventionalMemory ∧ e.start ≤ start ∧
      start + n * 4096 ≤ e.last + 1) →
    Ensures (convert false start n t s) fun r => (r.1.isError = true ∧ r.2 = s) ∨
      (r.1.isError = false ∧ Took start (start + n * 4096 - 1) t s r.2)
  refuse : ∀ lc start n t s, start < 2 ^ 64 → n * 4096 < 2 ^ 64 → 2 ^ 64 ≤ start + n * 4096 →
    Ensures (convert lc start n t s) fun r => r.1.isError = true ∧ r.2 = s
  give : ∀ start n s, s.Sound → s.PoolSound → 0 < n → start % 4096 = 0 →
    start + n * 4096 < 2 ^ 64 → (∀ a, start ≤ a → a ≤ start + n * 4096 - 1 → s.Held a) →
    Ensures (convert false start n .conventionalMemory s) fun r =>
      Gave start (start + n * 4096 - 1) s r.2

namespace MemState

variable {A : Arch} {convert : Convert A} {s s1 s2 : MemState A}

/-! ## Allocating pages for the pool -/

theorem defaultPageAllocation_eq (A : Arch) :
    defaultPageAllocation A = 4096 ∨ defaultPageAllocation A = 8192 := by
  cases A
  · exact .inl rfl
  · exact .inr rfl

/-- The pages of a request for one buffer are whole units, and few enough not to wrap. -/
theorem poolPages_spec (A : Arch) {size : Nat} (hpos : 0 < size) (hlt : size < 2 ^ 32) :
    0 < poolPages A size ∧ poolPages A size * 4096 < 2 ^ 64 ∧
      poolPages A size * 4096 % defaultPageAllocation A = 0 := by
  have hpages : 0 < sizeToPages size ∧ sizeToPages size ≤ 2 ^ 20 := by
    rw [sizeToPages]
    split <;> omega
  cases A
  · rw [poolPages, show sizeToPages (defaultPageAllocation .efi32) = 1 from rfl,
      show defaultPageAllocation .efi32 = 4096 from rfl]
    omega
  · rw [poolPages, show sizeToPages (defaultPageAllocation .efi64) = 2 from rfl,
      show defaultPageAllocation .efi64 = 8192 from rfl]
    omega

theorem allocatePoolPages_takes (hc : convert.Moves) (hs : s.Sound) (hp : s.PoolSound)
    (t : MemoryType) {n : Nat} (hpos : 0 < n) (hbytes : n * 4096 < 2 ^ 64)
    (hdiv : n * 4096 % defaultPageAllocation A = 0) :
    Ensures (s.allocatePoolPages convert t n (defaultPageAllocation A)) fun r =>
      (r.1 = 0 ∧ r.2 = s) ∨ (0 < r.1 ∧ r.1 % defaultPageAllocation A = 0 ∧
        r.1 + n * 4096 ≤ 2 ^ A.bits ∧ Took r.1 (r.1 + n * 4096 - 1) t s r.2) := by
  rw [allocatePoolPages]
  refine Ensures.ite (fun _ => .pure (.inl ⟨rfl, rfl⟩)) fun hfound => ?_
  obtain ⟨limit, hlimit, hstart⟩ :=
    findFreePages_eq s (maxAddress A) n t (defaultPageAllocation A)
  have hmax := maxAddress_succ A
  rw [hstart] at hfound ⊢
  have hend := findFreePagesI_end (fun e he => hs.map.pages e he) hbytes hfound
  have hmem := findFreePagesI_mem (fun e he => hs.map.pages e he)
    (fun e he => hs.map.spans.nonempty e he) hbytes (by omega) (defaultPageAllocation_eq A) hfound
  obtain ⟨-, -, -, e, _, _, _, _, heq⟩ := findFreePagesI_cases s hbytes hfound
  have hlt : s.findFreePagesI limit n (defaultPageAllocation A) < 2 ^ 64 := by
    rw [heq]
    exact Nat.mod_lt _ (by decide)
  generalize s.findFreePagesI limit n (defaultPageAllocation A) = start at *
  dsimp only at hend hmem
  by_cases hwrap : 2 ^ 64 ≤ start + n * 4096
  · refine (hc.refuse false start n t s hlt hbytes hwrap).bind fun r hr => .pure (.inl ?_)
    rw [if_pos hr.1]
    exact ⟨rfl, hr.2⟩
  · obtain ⟨halign, hle⟩ := hend.resolve_left hwrap
    refine (hc.take start n t s hs hp hpos hbytes (hmem.resolve_left hwrap)).bind fun r hr => .pure ?_
    rcases hr with ⟨herr, hsame⟩ | ⟨hok, htook⟩
    · rw [if_pos herr]
      exact .inl ⟨rfl, hsame⟩
    · have hfits : start + n * 4096 ≤ 2 ^ A.bits := by omega
      rw [hok, if_neg Bool.false_ne_true, Nat.mod_eq_of_lt (by omega)]
      refine .inr ⟨by omega, ?_, hfits, htook⟩
      rcases defaultPageAllocation_eq A with h | h <;> rw [h] at halign hdiv ⊢ <;> omega

theorem carvePage_depth (s : MemState A) (t : MemoryType) (p i : Nat) :
    (s.carvePage t p i).mapDepth = s.mapDepth := by
  rw [carvePage]
  generalize carve A i 0 = blocks
  induction blocks generalizing s with
  | nil => rfl
  | cons b blocks ih => exact ih _

theorem Took.newUnit {u : PoolUnit} (h : Took u.base u.last u.type s s1) (hu : u.Shaped A) :
    s1.NewUnit u where
  shaped := hu
  notFree := h.notFree
  typed a ha := h.typed a ha.1 ha.2
  unowned a ha := h.unowned a ha.1 ha.2

/-- Pages taken and then owned by the pool are traffic. -/
theorem Took.own {u : PoolUnit} (h : Took u.base u.last u.type s s1) (hp : s2.PoolSound)
    (hm : s2.memoryMap = s1.memoryMap) (hd : s2.mapDepth = s1.mapDepth)
    (hu : s2.poolUnits = u :: s1.poolUnits)
    (hh : ∀ v x n, s1.Head v x n → s2.Head v x n)
    (hr : s2.poolHeadList = s1.poolHeadList) : Traffic (traded u.type) nothing nothing s s2 := by
  have hown : Traffic (traded u.type) (fun a => u.base ≤ a ∧ a ≤ u.last) nothing s1 s2 := by
    refine .of_map (h.traffic.sound.of_eq hm hd) hp hm (fun v => ?_) (fun v x n hx _ => hh v x n hx) hr
    by_cases hv : v = u
    · subst hv
      exact .inr ⟨.inr rfl, fun a ha => ha⟩
    · rw [hu]
      exact .inl ⟨fun hmem => (List.mem_cons.mp hmem).resolve_left hv, List.mem_cons_of_mem _⟩
  refine ((h.traffic.widen fun _ => .inl).trans hown).close ?_ ?_
  · exact fun a ha => .inl (h.free a ha.1 ha.2)
  · exact fun a ha => .inr ⟨u, hu ▸ List.mem_cons_self, .inr rfl, ha⟩

/-! ## Allocating a block -/

/-- `buffer` is a buffer of type `t` that was not allocated in `s`. -/
def Fresh (t : MemoryType) (buffer : Nat) (s s' : MemState A) : Prop :=
  ∃ u x n, buffer = x + sizeOfPoolHead ∧ u.type = t ∧ s'.Head u x n ∧ ¬ s'.IsHome buffer ∧
    (∀ r ∈ s'.poolHeadList, r.2 ≠ buffer) ∧
    ∀ v y k, s.Head v y k → ¬ s.IsHome (y + sizeOfPoolHead) → y ≠ x

/-- Where no block is allocated there is no descriptor and no `POOL` record. -/
theorem PoolSound.vacant (hp : s.PoolSound) {b : Nat} (hb : ∀ v y k, s.Head v y k → y ≠ b) :
    ¬ s.IsHome (b + sizeOfPoolHead) ∧ ∀ r ∈ s.poolHeadList, r.2 ≠ b + sizeOfPoolHead := by
  constructor
  · intro hhome
    obtain ⟨u, x, n, hbx, _, hx⟩ := hp.homes _ hhome
    exact hb u x n hx (by omega)
  · intro r hr hrb
    obtain ⟨_, u, x, n, hbx, _, hx⟩ := hp.records r hr
    exact hb u x n hx (by omega)

/-- The end of a small allocation. -/
theorem takeFill_traffic (hs : s.Sound) (hp : s.PoolSound) {t : MemoryType} {i b n : Nat}
    {rest : List Nat} (hl : (s.pool t).freeList i = b :: rest) (hi : sizeToList n = i)
    (hn : n < 2 ^ 32) {T : MemoryType → Prop} :
    let s' := (s.takeBlock t i rest).fillHead t n b
    Traffic T nothing nothing s s' ∧ Fresh t (b + sizeOfPoolHead) s s' := by
  obtain ⟨hsound, ⟨u, hut, hub⟩, hheads⟩ := takeFill_sound hp hl hi hn
  obtain ⟨hhome, hrec⟩ := hp.vacant fun v y k hy => (hheads v y k hy).2
  exact ⟨.of_map (hs.of_eq rfl rfl) hsound rfl (fun _ => .inl Iff.rfl)
      (fun v y k hy _ => (hheads v y k hy).1) rfl,
    u, b, n, rfl, hut, hub, hhome, hrec, fun v y k hy _ => (hheads v y k hy).2⟩

theorem Fresh.of_traffic {T : MemoryType → Prop} {t : MemoryType} {buffer : Nat}
    (h : Traffic T nothing nothing s s1) (hf : Fresh t buffer s1 s2) : Fresh t buffer s s2 := by
  obtain ⟨u, x, n, hb, ht, hx, hhome, hrec, hnew⟩ := hf
  refine ⟨u, x, n, hb, ht, hx, hhome, hrec, fun v y k hy hk => ?_⟩
  obtain ⟨hy', hk'⟩ := h.heads v y k hy hk not_false
  exact hnew v y k hy' hk'

theorem allocatePoolBlock_traffic (hc : convert.Moves) (hs : s.Sound) (hp : s.PoolSound)
    (t : MemoryType) {size : Nat} (hsize : size < 2 ^ 32) :
    Ensures (s.allocatePoolBlock convert t size) fun r =>
      Traffic (traded t) nothing nothing s r.2 ∧ (r.1 = 0 ∨ Fresh t r.1 s r.2) := by
  have hD := defaultPageAllocation_pos A
  rw [allocatePoolBlock]
  refine Ensures.ite (fun hlarge => ?_) fun hsmall => ?_
  · have hpos : 0 < size := by
      rcases Nat.eq_zero_or_pos size with h0 | h0
      · rw [h0, sizeToList, maxPoolList] at hlarge
        cases A <;> exact absurd hlarge (by decide)
      · exact h0
    obtain ⟨hn, hbytes, hdiv⟩ := poolPages_spec A hpos hsize
    refine (allocatePoolPages_takes hc hs hp t hn hbytes hdiv).bind fun r hr => ?_
    dsimp only
    rcases hr with ⟨h0, hsame⟩ | ⟨hb, halign, hfits, htook⟩
    · rw [if_pos h0]
      rw [hsame]
      exact .pure ⟨.refl hs hp, .inl rfl⟩
    · rw [if_neg (by omega)]
      have hbelow : r.1 + poolPages A size * 4096 < 2 ^ 64 := by
        have := htook.below
        omega
      set u : PoolUnit := ⟨r.1, poolPages A size, t, none⟩
      have hshape : u.Shaped A := ⟨hn, halign, hb, hfits, hbelow, fun i hi => by cases hi⟩
      obtain ⟨hsound, hhead, hheads⟩ :=
        ownLarge_sound htook.traffic.pool (u := u) (Took.newUnit htook hshape) rfl hsize hlarge rfl
      obtain ⟨hhome, hrec⟩ := htook.traffic.pool.vacant fun v y k hy => (hheads v y k hy).2
      refine .pure ⟨Took.own (u := u) htook hsound rfl rfl rfl
        (fun v y k hy => (hheads v y k hy).1) rfl, .inr ?_⟩
      refine ⟨u, r.1, size, rfl, rfl, hhead, hhome, hrec, fun v y k hy hk => ?_⟩
      exact (hheads v y k (htook.traffic.heads v y k hy hk not_false).1).2
  · split
    · rename_i b rest hl
      obtain ⟨htraffic, hfresh⟩ := takeFill_traffic hs hp hl rfl hsize
      exact .pure ⟨htraffic, .inr hfresh⟩
    · have hunit := unit_bytes A
      refine (allocatePoolPages_takes hc hs hp t (n := sizeToPages (defaultPageAllocation A))
        (by omega) (by rw [hunit]; cases A <;> decide) (by rw [hunit, Nat.mod_self])).bind
        fun r hr => ?_
      dsimp only
      rcases hr with ⟨h0, hsame⟩ | ⟨hb, halign, hfits, htook⟩
      · rw [if_pos h0]
        rw [hsame]
        exact .pure ⟨.refl hs hp, .inl rfl⟩
      · rw [if_neg (by omega)]
        have hbelow : r.1 + sizeToPages (defaultPageAllocation A) * 4096 < 2 ^ 64 := by
          have := htook.below
          omega
        set u : PoolUnit :=
          ⟨r.1, sizeToPages (defaultPageAllocation A), t, some (sizeToList size)⟩
        have hshape : u.Shaped A := by
          refine ⟨?_, halign, hb, hfits, hbelow, ?_⟩
          · change 0 < sizeToPages _
            omega
          · rintro i ⟨⟩
            exact ⟨by omega, rfl⟩
        obtain ⟨hsound, hheads, hmap, hrecords, hunits, -⟩ :=
          carvePage_sound htook.traffic.pool (u := u) (Took.newUnit htook hshape) rfl
        have htraffic : Traffic (traded t) nothing nothing s
            ((r.2.ownUnit u).carvePage t r.1 (sizeToList size)) :=
          Took.own (u := u) htook hsound hmap (carvePage_depth _ _ _ _) hunits hheads hrecords
        split
        · exact .pure ⟨htraffic, .inl rfl⟩
        · rename_i b rest hl
          obtain ⟨htake, hfresh⟩ := takeFill_traffic htraffic.sound hsound hl rfl hsize
          exact .pure ⟨htraffic.trans htake, .inr (hfresh.of_traffic htraffic)⟩

/-! ## Freeing a block -/

/-- Pages of a unit that the pool no longer lists are given back. -/
theorem freePoolPages_gives (hc : convert.Moves) (hs : s.Sound) (hp : s.PoolSound)
    {u : PoolUnit} (hu : u ∈ s.poolUnits) (hp1 : s1.PoolSound)
    (hm : s1.memoryMap = s.memoryMap) (hd : s1.mapDepth = s.mapDepth)
    (hunits : ∀ v, v ∈ s1.poolUnits ↔ v ∈ s.poolUnits ∧ v ≠ u) {X : Nat → Prop}
    (hh : ∀ v y k, s.Head v y k → ¬ X y → s1.Head v y k)
    (hr : s1.poolHeadList = s.poolHeadList) :
    Ensures (s1.freePoolPages convert u.base u.pages) (Traffic (traded u.type) nothing X s) := by
  have hshape := hp.shaped u hu
  have hbase : u.base % 4096 = 0 := by
    have := hshape.aligned
    rcases defaultPageAllocation_eq A with h | h <;> rw [h] at this <;> omega
  have hview : s1.view = s.view := by rw [MemState.view, hm]
  have hheld : ∀ a, u.base ≤ a → a ≤ u.last → s1.Held a := by
    intro a h1 h2
    obtain ⟨attr, ha⟩ := hp.typed u hu a ⟨h1, h2⟩
    refine ⟨⟨u.type, attr, hview ▸ ha, hp.notFree u hu⟩, ?_⟩
    rintro ⟨v, hv, hva⟩
    obtain ⟨hv, hne⟩ := (hunits v).mp hv
    exact hne (hp.unit_eq hv hu hva ⟨h1, h2⟩)
  have hdrop : Traffic (traded u.type) (fun a => u.base ≤ a ∧ a ≤ u.last) X s s1 := by
    refine .of_map (hs.of_eq hm hd) hp1 hm (fun v => ?_) hh hr
    by_cases hv : v = u
    · subst hv
      exact .inr ⟨.inr rfl, fun a ha => ha⟩
    · exact .inl ((hunits v).trans (and_iff_left hv))
  refine (hc.give u.base u.pages s1 hdrop.sound hp1 hshape.pages hbase hshape.below hheld).bind
    fun r hr => .pure ?_
  have hgave : Traffic (traded u.type) (fun a => u.base ≤ a ∧ a ≤ u.last) nothing s1 r.2 :=
    hr.traffic.widen fun _ => .inl
  refine (hdrop.then_exempt hgave fun _ _ _ _ _ _ => not_false).close ?_ ?_
  · exact fun a ha => .inr ⟨u, hu, .inr rfl, ha⟩
  · intro a ha
    refine (hr.loose a ha.1 ha.2).imp_right ?_
    rintro ⟨v, hv, hvt, hva⟩
    exact ⟨v, hv, .inl hvt, hva⟩

/-- The only block of an undivided unit is at its base. -/
theorem head_of_large {u : PoolUnit} (hnone : u.index = none) {x n : Nat} (hx : s.Head u x n) :
    x = u.base := by
  rcases hx.2.2 with ⟨j, hj, _⟩ | ⟨_, hx, _⟩
  · rw [hnone] at hj
    cases hj
  · exact hx

/-- When `allFree` answers with blocks, they are the blocks of the unit at `newPage`, and none
    of them is allocated. -/
theorem allFree_spec (hp : s.PoolSound) {u : PoolUnit} (hu : u ∈ s.poolUnits) {i : Nat}
    (hi : u.index = some i) {blocks : List Nat} (h : s.allFree u.base = some blocks) :
    (∀ b j, u.Block A b j → b ∈ blocks) ∧ ∀ x n, ¬ s.Head u x n := by
  rw [allFree] at h
  split at h
  · rename_i index hcell
    have hfirst : u.Block A u.base i :=
      ⟨i, hi, 0, carve_first ((hp.shaped u hu).carved i hi).1, rfl⟩
    have hindex : index = i := by
      rcases hp.carved u hu u.base i hfirst with hf | ⟨n, hf, _⟩
      · rw [hcell] at hf
        injection hf
      · rw [hcell] at hf
        cases hf
    subst hindex
    dsimp only at h
    split at h
    · rename_i hall
      cases h
      have hmem : ∀ b j, u.Block A b j → b ∈ (carve A index 0).map (u.base + ·.1) := by
        rintro b j ⟨i', hi', offset, hoff, rfl⟩
        rw [hi] at hi'
        cases hi'
        exact List.mem_map.mpr ⟨_, hoff, rfl⟩
      refine ⟨hmem, ?_⟩
      rintro x n ⟨_, hhead, hblock | ⟨hnone, _⟩⟩
      · have := List.all_eq_true.mp hall x (hmem x _ hblock)
        rw [hhead] at this
        cases this
      · rw [hi] at hnone
        cases hnone
    · cases h
  · cases h

theorem freePoolBlock_traffic (hc : convert.Moves) (hs : s.Sound) (hp : s.PoolSound)
    {u : PoolUnit} {x n : Nat} (hx : s.Head u x n) (hhome : ¬ s.IsHome (x + sizeOfPoolHead))
    (hrec : ∀ r ∈ s.poolHeadList, r.2 ≠ x + sizeOfPoolHead) :
    Ensures (s.freePoolBlock convert x u.type n)
      (Traffic (traded u.type) nothing (· = x) s) := by
  have hunuse : Traffic (traded u.type) nothing (· = x) s (s.unuse u.type n) :=
    unuse_traffic hs hp u.type n
  rw [freePoolBlock]
  dsimp only
  have hx1 : (s.unuse u.type n).Head u x n := hx
  have hhome1 : ¬ (s.unuse u.type n).IsHome (x + sizeOfPoolHead) := hhome
  have hrec1 : ∀ r ∈ (s.unuse u.type n).poolHeadList, r.2 ≠ x + sizeOfPoolHead := hrec
  generalize s.unuse u.type n = s1 at *
  have hp1 := hunuse.pool
  have hu := hx1.1
  refine Ensures.ite (fun hlarge => ?_) fun hsmall => ?_
  · -- the unit is this one buffer
    obtain ⟨hnone, hbase, hpages⟩ : u.index = none ∧ x = u.base ∧ u.pages = poolPages A n := by
      rcases hx1.2.2 with ⟨i, hi, offset, hoff, _⟩ | ⟨hnone, hbase, _, hpages⟩
      · have := (carve_mem hoff).1
        have := ((hp1.shaped u hu).carved i hi).1
        omega
      · exact ⟨hnone, hbase, hpages⟩
    rw [hbase, ← hpages]
    obtain ⟨hsound, hheads, hunits⟩ := disown_large_sound hp1 hu hnone fun y k hy => by
      rw [head_of_large hnone hy, ← hbase]
      exact ⟨hhome1, hrec1⟩
    refine (freePoolPages_gives hc hunuse.sound hp1 hu hsound rfl rfl hunits ?_ rfl).mono
      fun s3 hs3 => (hbase ▸ hunuse).trans hs3
    intro v y k hy hne
    refine hheads v y k hy ?_
    rintro rfl
    exact hne (head_of_large hnone hy)
  · have hblock : u.Block A x (sizeToList n) := by
      rcases hx1.2.2 with hb | ⟨_, _, hlarge, _⟩
      · exact hb
      · omega
    obtain ⟨i, hi, -⟩ := id hblock
    obtain ⟨hsound, hheads⟩ := putBlock_sound hp1 hx1 hblock hhome1 hrec1
    have hput : Traffic (traded u.type) nothing (· = x) s1 (s1.putBlock u.type (sizeToList n) x) :=
      .of_map (hunuse.sound.of_eq rfl rfl) hsound rfl (fun _ => .inl Iff.rfl) hheads rfl
    have hall := hunuse.trans hput
    have hu2 : u ∈ (s1.putBlock u.type (sizeToList n) x).poolUnits := hu
    generalize s1.putBlock u.type (sizeToList n) x = s2 at *
    rw [(block_covers (hp1.shaped u hu) hblock).2]
    split
    · exact .pure hall
    · rename_i blocks hfree
      obtain ⟨hblocks, hempty⟩ := allFree_spec hsound hu2 hi hfree
      obtain ⟨hsound', hheads', hunits'⟩ := disown_sound hsound hu2 hblocks
        fun y k hy => absurd hy (hempty y k)
      rw [← ((hp1.shaped u hu).carved i hi).2]
      refine (freePoolPages_gives (X := nothing) hc hall.sound hsound hu2 hsound' rfl rfl hunits'
        ?_ rfl).mono fun s3 hs3 => hall.then_exempt hs3 fun _ _ _ _ _ _ => not_false
      intro v y k hy _
      refine hheads' v y k hy ?_
      rintro rfl
      exact hempty y k hy

/-! ## Buffers of descriptors -/

theorem allocatePoolI_descriptor (hc : convert.Moves) (hs : s.Sound) (hp : s.PoolSound) :
    Ensures (s.allocatePoolI convert .runtimeServicesData (sizeOfMemoryMap A)) fun r =>
      Traffic descriptorTypes nothing nothing s r.2 ∧
        (r.1 = 0 ∨ Fresh .runtimeServicesData r.1 s r.2) := by
  have hsize : poolSize A (sizeOfMemoryMap A) < 2 ^ 32 := by cases A <;> decide
  refine (allocatePoolBlock_traffic hc hs hp .runtimeServicesData hsize).mono fun r hr => ?_
  exact ⟨hr.1.widen traded_descriptors, hr.2⟩

/-- What `FreePoolI` finds at the header of an allocated buffer. -/
theorem freePoolI_head (hp : s.PoolSound) {u : PoolUnit} {x n : Nat} (hx : s.Head u x n) :
    (x + sizeOfPoolHead + 2 ^ A.bits - sizeOfPoolHead) % 2 ^ A.bits = x := by
  have hcover := hp.head_covers hx
  have hshape := hp.shaped u hx.1
  have := hshape.fits
  have := hshape.pages
  rw [PoolUnit.Covers, PoolUnit.last] at hcover
  have : x + sizeOfPoolHead + 2 ^ A.bits - sizeOfPoolHead = x + 2 ^ A.bits := by omega
  rw [this, Nat.add_mod_right, Nat.mod_eq_of_lt (by omega)]

theorem freePoolI_descriptor (hc : convert.Moves) (hs : s.Sound) (hp : s.PoolSound)
    {u : PoolUnit} {x n : Nat} (ht : u.type = .runtimeServicesData) (hx : s.Head u x n)
    (hhome : ¬ s.IsHome (x + sizeOfPoolHead)) :
    Ensures (s.freePoolI convert (x + sizeOfPoolHead)) fun r =>
      Traffic descriptorTypes nothing (· = x) s r.2 := by
  have hrec : ∀ r ∈ s.poolHeadList, r.2 ≠ x + sizeOfPoolHead := by
    intro r hr hrx
    obtain ⟨_, v, y, k, hy, hvt, hv⟩ := hp.records r hr
    obtain rfl : y = x := by omega
    rw [(hp.head_unique hv hx).1, ht] at hvt
    cases hvt
  have hcell := hx.2.1
  rw [ht] at hcell
  rw [freePoolI, if_neg (by rw [sizeOfPoolHead]; omega)]
  dsimp only
  rw [freePoolI_head hp hx, hcell]
  refine Ensures.bind (P := fun r => r = (true, s)) (.pure rfl) ?_
  rintro _ rfl
  have hblock := freePoolBlock_traffic hc hs hp hx hhome hrec
  rw [ht] at hblock
  refine hblock.bind fun s1 hs1 => ?_
  have hnone : s1.poolHeadList.find? (·.1 = MemoryType.runtimeServicesData) = none := by
    rw [List.find?_eq_none]
    intro r hr
    obtain ⟨⟨code, hos⟩, _⟩ := hs1.pool.records r hr
    simp [hos]
  rw [freePoolRecord, hnone]
  exact .pure (hs1.widen traded_descriptors)

end MemState

end EfiCore.Mem
