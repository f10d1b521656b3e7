import EfiCore.Mem.Partition
import EfiCore.Mem.Turns

/-! # Calls that leave held memory alone

Between calls the pool is sound as well as the map.  A call is `Quiet` when that stays so and
no held address becomes free or comes to the pool.  The pool services are quiet when `FreePool`
is given buffers of its caller, and so is giving back or retyping pages that are neither free
nor the pool's.
-/

namespace EfiCore.Mem

open EfiCore.Lib

namespace MemState

variable {A : Arch} {convert : Convert A} {s s1 s2 : MemState A}

structure Quiet (s s' : MemState A) : Prop where
  sound : s'.Sound
  pool : s'.PoolSound
  held : ∀ a, s.Held a → s'.Held a

theorem Quiet.refl (hs : s.Sound) (hp : s.PoolSound) : Quiet s s := ⟨hs, hp, fun _ h => h⟩

theorem Quiet.trans (h : Quiet s s1) (h' : Quiet s1 s2) : Quiet s s2 :=
  ⟨h'.sound, h'.pool, fun a ha => h'.held a (h.held a ha)⟩

/-- Traffic outside a range without held addresses. -/
theorem Traffic.quiet {T : MemoryType → Prop} {R X : Nat → Prop} (h : Traffic T R X s s1)
    (hR : ∀ a, R a → s.Held a → s1.Held a) : Quiet s s1 where
  sound := h.sound
  pool := h.pool
  held a ha := by
    by_cases hRa : R a
    · exact hR a hRa ha
    · exact h.held hRa ha

theorem Traffic.quiet_of_nothing {T : MemoryType → Prop} {X : Nat → Prop}
    (h : Traffic T nothing X s s1) : Quiet s s1 :=
  h.quiet fun _ => False.elim

/-! ## The pool services -/

/-- `x` is the header of a buffer that holds neither a descriptor nor a `POOL` record. -/
structure Client (s : MemState A) (u : PoolUnit) (x n : Nat) : Prop where
  head : s.Head u x n
  notHome : ¬ s.IsHome (x + sizeOfPoolHead)
  notRecord : ∀ r ∈ s.poolHeadList, r.2 ≠ x + sizeOfPoolHead

/-- A new `POOL` record. -/
theorem addPoolHead_quiet (code : Nat)
    (h : Traffic (traded .bootServicesData) nothing nothing s s1) {record : Nat}
    (hf : Fresh .bootServicesData record s s1) :
    Quiet s1 (s1.addPoolHead (.osSpecific code) record) ∧
      ∀ u x n, s.Client u x n → (s1.addPoolHead (.osSpecific code) record).Client u x n := by
  obtain ⟨v, y, k, hb, ht, hy, -, hrec, hnew⟩ := hf
  have hp := h.pool
  have hlist : ∀ t i, ((s1.addPoolHead (.osSpecific code) record).pool t).freeList i =
      if t = .osSpecific code then [] else (s1.pool t).freeList i := by
    intro t i
    by_cases ht : t = .osSpecific code <;> simp [addPoolHead, setPool, Pool.cleared, ht]
  have hsub : ∀ t i b, b ∈ ((s1.addPoolHead (.osSpecific code) record).pool t).freeList i →
      b ∈ (s1.pool t).freeList i := by
    intro t i b hmem
    rw [hlist] at hmem
    split at hmem
    · cases hmem
    · exact hmem
  refine ⟨⟨h.sound.of_eq rfl rfl, ?_, fun a ha => ha⟩, ?_⟩
  · refine ⟨hp.units, hp.shaped, hp.notFree, hp.typed, hp.carved, hp.large,
      fun t i b hmem => hp.listed t i b (hsub t i b hmem), ?_, hp.homes, ?_, ?_⟩
    · intro t i
      rw [hlist]
      split
      · exact List.nodup_nil
      · exact hp.nodup t i
    · intro r hr
      rcases List.mem_cons.mp hr with rfl | hr
      · exact ⟨⟨code, rfl⟩, v, y, k, hb, ht, hy⟩
      · exact hp.records r hr
    · refine List.nodup_cons.mpr ⟨?_, hp.recordsDistinct⟩
      rw [List.mem_map]
      rintro ⟨r, hr, hrb⟩
      exact hrec r hr hrb
  · intro u x n hx
    obtain ⟨hx', hhome⟩ := h.heads u x n hx.head hx.notHome not_false
    refine ⟨hx', hhome, fun r hr => ?_⟩
    rcases List.mem_cons.mp hr with rfl | hr
    · have := hnew u x n hx.head hx.notHome
      dsimp only
      omega
    · exact hx.notRecord r (h.records ▸ hr)

theorem lookupPoolHead_quiet (hc : convert.Moves) (hs : s.Sound) (hp : s.PoolSound)
    (t : MemoryType) : Ensures (s.lookupPoolHead convert t) fun r =>
      Quiet s r.2 ∧ ∀ u x n, s.Client u x n → r.2.Client u x n := by
  have same : Quiet s s ∧ ∀ u x n, s.Client u x n → s.Client u x n :=
    ⟨.refl hs hp, fun _ _ _ h => h⟩
  cases t with
  | osSpecific code =>
    refine Ensures.ite (fun _ => .pure same) fun _ => ?_
    have hsize : poolSize A (sizeOfPool A) < 2 ^ 32 := by cases A <;> decide
    refine (allocatePoolBlock_traffic hc hs hp .bootServicesData hsize).bind fun r hr => ?_
    obtain ⟨htraffic, hfresh⟩ := hr
    refine Ensures.ite (fun _ => .pure ⟨htraffic.quiet_of_nothing, ?_⟩) fun hrecord => .pure ?_
    · intro u x n hx
      obtain ⟨hx', hhome⟩ := htraffic.heads u x n hx.head hx.notHome not_false
      exact ⟨hx', hhome, htraffic.records ▸ hx.notRecord⟩
    · obtain ⟨hquiet, hclient⟩ := addPoolHead_quiet code htraffic
        (hfresh.resolve_left hrecord)
      exact ⟨htraffic.quiet_of_nothing.trans hquiet, hclient⟩
  | _ => exact .pure same

theorem poolSize_lt (A : Arch) {size : Nat} (h : size ≤ 0xffffff00) : poolSize A size < 2 ^ 32 := by
  cases A <;> simp only [poolSize, Arch.pointerSize, Arch.bits, poolOverhead, sizeOfPoolHead] <;>
    omega

theorem allocatePoolI_quiet (hc : convert.Moves) (hs : s.Sound) (hp : s.PoolSound)
    (t : MemoryType) {size : Nat} (hsize : size ≤ 0xffffff00) :
    Ensures (s.allocatePoolI convert t size) fun r => Quiet s r.2 := by
  refine (lookupPoolHead_quiet hc hs hp t).bind fun r hr => ?_
  refine Ensures.ite (fun _ => ?_) fun _ => .pure hr.1
  refine (allocatePoolBlock_traffic hc hr.1.sound hr.1.pool t (poolSize_lt A hsize)).mono
    fun q hq => hr.1.trans hq.1.quiet_of_nothing

/-- The `POOL` record that goes with the last buffer of its type. -/
theorem freePoolRecord_quiet (hc : convert.Moves) (hs : s.Sound) (hp : s.PoolSound)
    (t : MemoryType) : Ensures (s.freePoolRecord convert t) (Quiet s) := by
  rw [freePoolRecord]
  split
  · exact .ok (.refl hs hp)
  · rename_i t' record hfind
    have hmem := List.mem_of_find?_eq_some hfind
    have htype : t' = t := by simpa using List.find?_some hfind
    refine Ensures.ite (fun _ => ?_) fun _ => .ok (.refl hs hp)
    obtain ⟨-, u, x, n, hrecord, hut, hx⟩ := hp.records _ hmem
    have hx0 : record - sizeOfPoolHead = x := by
      dsimp only at hrecord
      omega
    have hremoved : ∀ r, r ∈ (s.removePoolHead t).poolHeadList →
        r ∈ s.poolHeadList ∧ r.1 ≠ t := by
      intro r hr
      simpa [removePoolHead] using hr
    have hp1 : (s.removePoolHead t).PoolSound :=
      ⟨hp.units, hp.shaped, hp.notFree, hp.typed, hp.carved, hp.large, hp.listed, hp.nodup,
        hp.homes, fun r hr => hp.records r (hremoved r hr).1,
        hp.recordsDistinct.sublist ((List.filter_sublist).map _)⟩
    have hquiet : Quiet s (s.removePoolHead t) := ⟨hs.of_eq rfl rfl, hp1, fun _ h => h⟩
    dsimp only
    rw [hx0]
    have hcell : (s.removePoolHead t).cell x = .head u.type n := hx.2.1
    rw [hcell]
    have hhome : ¬ (s.removePoolHead t).IsHome (x + sizeOfPoolHead) := by
      intro h
      obtain ⟨v, y, k, hy, hvt, hv⟩ := hp.homes _ h
      obtain rfl : y = x := by omega
      rw [(hp.head_unique hv hx).1, hut] at hvt
      cases hvt
    have hrec : ∀ r ∈ (s.removePoolHead t).poolHeadList, r.2 ≠ x + sizeOfPoolHead := by
      intro r hr hrx
      obtain ⟨hr, hne⟩ := hremoved r hr
      have : r = (t', record) :=
        List.inj_on_of_nodup_map hp.recordsDistinct hr hmem (hrx.trans hrecord.symm)
      rw [this] at hne
      exact hne htype
    exact (freePoolBlock_traffic hc hquiet.sound hp1 hx hhome hrec).mono
      fun s' hs' => hquiet.trans hs'.quiet_of_nothing

/-- A buffer that a caller may pass to `FreePool`: one of its own, or no buffer at all. -/
def Returnable (s : MemState A) (buffer : Nat) : Prop :=
  (∀ t n, s.cell ((buffer + 2 ^ A.bits - sizeOfPoolHead) % 2 ^ A.bits) ≠ .head t n) ∨
    ∃ u x n, buffer = x + sizeOfPoolHead ∧ s.Client u x n

theorem freePoolI_quiet (hc : convert.Moves) (hs : s.Sound) (hp : s.PoolSound) {buffer : Nat}
    (hb : s.Returnable buffer) : Ensures (s.freePoolI convert buffer) fun r => Quiet s r.2 := by
  rw [freePoolI]
  refine Ensures.ite (fun _ => .pure (.refl hs hp)) fun _ => ?_
  dsimp only
  rcases hb with hnone | ⟨u, x, n, rfl, hx⟩
  · split
    · rename_i t n hcell
      exact absurd hcell (hnone t n)
    · exact .pure (.refl hs hp)
  · rw [freePoolI_head hp hx.head, hx.head.2.1]
    refine (lookupPoolHead_quiet hc hs hp u.type).bind fun r hr => ?_
    obtain ⟨hquiet, hclient⟩ := hr
    have hx1 := hclient u x n hx
    refine Ensures.ite (fun _ => ?_) fun _ => .pure hquiet
    refine (freePoolBlock_traffic hc hquiet.sound hquiet.pool hx1.head hx1.notHome
      hx1.notRecord).bind fun s1 hs1 => ?_
    have hfreed := hs1.quiet_of_nothing
    refine (freePoolRecord_quiet hc hfreed.sound hfreed.pool u.type).bind fun s2 hs2 => .pure ?_
    exact (hquiet.trans hfreed).trans hs2

end MemState

end EfiCore.Mem
