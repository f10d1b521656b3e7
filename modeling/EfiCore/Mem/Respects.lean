import EfiCore.Lib.Ensures
import EfiCore.Mem.Pool

/-! # What the pool cannot tell apart

The functions of `pool.c` change the map only through `ConvertPages`.  A relation between the
states before and after an operation that composes, and that holds when only the pool's own data
changed, holds across each of them as soon as it holds across `ConvertPages`.
-/

namespace EfiCore.Mem

open EfiCore.Lib

namespace MemState

variable {A : Arch} {s s' s'' : MemState A}

/-- The map and what goes with it are as they were. -/
structure SameMap (s s' : MemState A) : Prop where
  memoryMap : s'.memoryMap = s.memoryMap
  mapDepth : s'.mapDepth = s.mapDepth
  freeMapStack : s'.freeMapStack = s.freeMapStack
  memoryMapKey : s'.memoryMapKey = s.memoryMapKey
  mapChanges : s'.mapChanges = s.mapChanges

theorem SameMap.refl (s : MemState A) : SameMap s s := ⟨rfl, rfl, rfl, rfl, rfl⟩

theorem SameMap.trans (h : SameMap s s') (h' : SameMap s' s'') : SameMap s s'' where
  memoryMap := h'.memoryMap.trans h.memoryMap
  mapDepth := h'.mapDepth.trans h.mapDepth
  freeMapStack := h'.freeMapStack.trans h.freeMapStack
  memoryMapKey := h'.memoryMapKey.trans h.memoryMapKey
  mapChanges := h'.mapChanges.trans h.mapChanges

/-! ## Steps inside the pool -/

theorem ownUnit_sameMap (s : MemState A) (u : PoolUnit) : SameMap s (s.ownUnit u) :=
  ⟨rfl, rfl, rfl, rfl, rfl⟩

theorem disownUnit_sameMap (s : MemState A) (base : Nat) : SameMap s (s.disownUnit base) :=
  ⟨rfl, rfl, rfl, rfl, rfl⟩

theorem putBlock_sameMap (s : MemState A) (t : MemoryType) (i p : Nat) :
    SameMap s (s.putBlock t i p) :=
  ⟨rfl, rfl, rfl, rfl, rfl⟩

theorem takeBlock_sameMap (s : MemState A) (t : MemoryType) (i : Nat) (rest : List Nat) :
    SameMap s (s.takeBlock t i rest) :=
  ⟨rfl, rfl, rfl, rfl, rfl⟩

theorem removeBlocks_sameMap (s : MemState A) (blocks : List Nat) :
    SameMap s (s.removeBlocks blocks) :=
  ⟨rfl, rfl, rfl, rfl, rfl⟩

theorem fillHead_sameMap (s : MemState A) (t : MemoryType) (n p : Nat) :
    SameMap s (s.fillHead t n p) :=
  ⟨rfl, rfl, rfl, rfl, rfl⟩

theorem unuse_sameMap (s : MemState A) (t : MemoryType) (n : Nat) : SameMap s (s.unuse t n) :=
  ⟨rfl, rfl, rfl, rfl, rfl⟩

theorem addPoolHead_sameMap (s : MemState A) (t : MemoryType) (p : Nat) :
    SameMap s (s.addPoolHead t p) :=
  ⟨rfl, rfl, rfl, rfl, rfl⟩

theorem removePoolHead_sameMap (s : MemState A) (t : MemoryType) :
    SameMap s (s.removePoolHead t) :=
  ⟨rfl, rfl, rfl, rfl, rfl⟩

theorem carvePage_sameMap (s : MemState A) (t : MemoryType) (p i : Nat) :
    SameMap s (s.carvePage t p i) := by
  rw [carvePage]
  generalize carve A i 0 = blocks
  induction blocks generalizing s with
  | nil => exact SameMap.refl s
  | cons b blocks ih => exact (putBlock_sameMap s t b.2 (p + b.1)).trans (ih _)

end MemState

open MemState

/-- `R` composes and does not see the pool's own data. -/
structure PoolBlind {A : Arch} (R : MemState A → MemState A → Prop) : Prop where
  of_sameMap : ∀ {s s'}, SameMap s s' → R s s'
  trans : ∀ {s s' s''}, R s s' → R s' s'' → R s s''

theorem PoolBlind.refl {A : Arch} {R : MemState A → MemState A → Prop} (hR : PoolBlind R)
    (s : MemState A) : R s s :=
  hR.of_sameMap (.refl s)

/-- `R` holds across `ConvertPages`. -/
def Convert.Respects {A : Arch} (convert : Convert A) (R : MemState A → MemState A → Prop) : Prop :=
  ∀ loadConvert start noPages newType s,
    Ensures (convert loadConvert start noPages newType s) fun r => R s r.2

namespace MemState

variable {A : Arch} {convert : Convert A} {R : MemState A → MemState A → Prop}

/-! ## Across the functions of the pool -/

theorem allocatePoolPages_respects (hR : PoolBlind R) (hc : convert.Respects R) (t : MemoryType)
    (n a : Nat) (s : MemState A) :
    Ensures (s.allocatePoolPages convert t n a) fun r => R s r.2 := by
  rw [allocatePoolPages]
  refine Ensures.ite (fun _ => .pure (hR.refl s)) fun _ => ?_
  exact (hc _ _ _ _ _).bind fun _ h => .pure h

theorem freePoolPages_respects (hc : convert.Respects R) (m n : Nat) (s : MemState A) :
    Ensures (s.freePoolPages convert m n) (R s) :=
  (hc _ _ _ _ _).bind fun _ h => .pure h

theorem allocatePoolBlock_respects (hR : PoolBlind R) (hc : convert.Respects R) (t : MemoryType)
    (n : Nat) (s : MemState A) :
    Ensures (s.allocatePoolBlock convert t n) fun r => R s r.2 := by
  rw [allocatePoolBlock]
  refine Ensures.ite (fun _ => ?_) fun _ => ?_
  · refine (allocatePoolPages_respects hR hc t _ _ s).bind fun r hr => ?_
    refine Ensures.ite (fun _ => .pure hr) fun _ => .pure ?_
    exact hR.trans hr (hR.of_sameMap ((ownUnit_sameMap _ _).trans (fillHead_sameMap _ _ _ _)))
  · split
    · exact .pure (hR.of_sameMap ((takeBlock_sameMap _ _ _ _).trans (fillHead_sameMap _ _ _ _)))
    · refine (allocatePoolPages_respects hR hc t _ _ s).bind fun r hr => ?_
      refine Ensures.ite (fun _ => .pure hr) fun _ => ?_
      have hcarved := (ownUnit_sameMap r.2
        ⟨r.1, sizeToPages (defaultPageAllocation A), t, some (sizeToList n)⟩).trans
        (carvePage_sameMap _ t r.1 (sizeToList n))
      dsimp only
      split
      · exact .pure (hR.trans hr (hR.of_sameMap hcarved))
      · exact .pure (hR.trans hr (hR.of_sameMap
          ((hcarved.trans (takeBlock_sameMap _ _ _ _)).trans (fillHead_sameMap _ _ _ _))))

theorem lookupPoolHead_respects (hR : PoolBlind R) (hc : convert.Respects R) (t : MemoryType)
    (s : MemState A) : Ensures (s.lookupPoolHead convert t) fun r => R s r.2 := by
  cases t with
  | osSpecific code =>
    refine Ensures.ite (fun _ => .pure (hR.refl s)) fun _ => ?_
    refine (allocatePoolBlock_respects hR hc _ _ s).bind fun r hr => ?_
    refine Ensures.ite (fun _ => .pure hr) fun _ => ?_
    exact .pure (hR.trans hr (hR.of_sameMap (addPoolHead_sameMap _ _ _)))
  | _ => exact .pure (hR.refl s)

theorem allocatePoolI_respects (hR : PoolBlind R) (hc : convert.Respects R) (t : MemoryType)
    (n : Nat) (s : MemState A) : Ensures (s.allocatePoolI convert t n) fun r => R s r.2 := by
  refine (lookupPoolHead_respects hR hc t s).bind fun r hr => ?_
  refine Ensures.ite (fun _ => ?_) fun _ => .pure hr
  exact (allocatePoolBlock_respects hR hc t _ _).mono fun _ h => hR.trans hr h

theorem freePoolBlock_respects (hR : PoolBlind R) (hc : convert.Respects R) (p : Nat)
    (t : MemoryType) (n : Nat) (s : MemState A) :
    Ensures (s.freePoolBlock convert p t n) (R s) := by
  rw [freePoolBlock]
  refine Ensures.ite (fun _ => ?_) fun _ => ?_
  · have hdrop := (unuse_sameMap s t n).trans (disownUnit_sameMap _ p)
    exact (freePoolPages_respects hc _ _ _).mono fun _ h => hR.trans (hR.of_sameMap hdrop) h
  · have hput := (unuse_sameMap s t n).trans (putBlock_sameMap _ t (sizeToList n) p)
    dsimp only
    split
    · exact .pure (hR.of_sameMap hput)
    · rename_i blocks hfree
      have hdrop := (hput.trans (removeBlocks_sameMap _ blocks)).trans
        (disownUnit_sameMap _ (p - p % defaultPageAllocation A))
      exact (freePoolPages_respects hc _ _ _).mono fun _ h => hR.trans (hR.of_sameMap hdrop) h

theorem freePoolRecord_respects (hR : PoolBlind R) (hc : convert.Respects R) (t : MemoryType)
    (s : MemState A) : Ensures (s.freePoolRecord convert t) (R s) := by
  have hremove : R s (s.removePoolHead t) := hR.of_sameMap (removePoolHead_sameMap s t)
  rw [freePoolRecord]
  split
  · exact .ok (hR.refl s)
  · refine Ensures.ite (fun _ => ?_) fun _ => .ok (hR.refl s)
    dsimp only
    split
    · exact (freePoolBlock_respects hR hc _ _ _ _).mono fun _ h => hR.trans hremove h
    · exact .ok hremove

theorem freePoolI_respects (hR : PoolBlind R) (hc : convert.Respects R) (b : Nat)
    (s : MemState A) : Ensures (s.freePoolI convert b) fun r => R s r.2 := by
  rw [freePoolI]
  refine Ensures.ite (fun _ => .pure (hR.refl s)) fun _ => ?_
  dsimp only
  split
  · refine (lookupPoolHead_respects hR hc _ s).bind fun r hr => ?_
    refine Ensures.ite (fun _ => ?_) fun _ => .pure hr
    refine (freePoolBlock_respects hR hc _ _ _ _).bind fun s' hs' => ?_
    refine (freePoolRecord_respects hR hc _ _).bind fun s'' hs'' => .pure ?_
    exact hR.trans (hR.trans hr hs') hs''
  · exact .pure (hR.refl s)

end MemState

end EfiCore.Mem
