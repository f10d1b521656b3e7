import EfiCore.Mem.Map
import EfiCore.Mem.Respects

/-! # Page and pool operations keep the map well formed

Each function of `page.c` and `pool.c` gets one specification, under the assumption that
`convert` meets its own: the map stays well formed, the addresses it covers and their
attributes stay as they were, and `MapStack` is empty again unless a caller is emptying it.
Fuel induction then gives the specification of `convertPages`.
-/

namespace EfiCore.Mem

open EfiCore.Lib

namespace MemState

variable {A : Arch}

abbrev view (s : MemState A) : View := Mem.view s.memoryMap

/-- The map is well formed, keeps the ends of the address space apart, and its descriptors
    on `MapStack` are below `MapDepth`. -/
structure Sound (s : MemState A) : Prop where
  map : WellFormed s.memoryMap
  ends : s.view.EndsApart
  slots : ∀ e ∈ s.memoryMap, ∀ i, e.home = .mapStack i → i < s.mapDepth

/-- What an operation leaves as it was. -/
structure Kept (s s' : MemState A) : Prop where
  sound : s'.Sound
  attrs : s'.view.attrs = s.view.attrs
  flag : s'.freeMapStack = s.freeMapStack
  settled : s.freeMapStack = false → s.mapDepth = 0 → s'.mapDepth = 0

def Keeps (s s' : MemState A) : Prop := s.Sound → Kept s s'

theorem Keeps.refl (s : MemState A) : Keeps s s :=
  fun h => ⟨h, rfl, rfl, fun _ h => h⟩

theorem Keeps.trans {s s' s'' : MemState A} (h : Keeps s s') (h' : Keeps s' s'') :
    Keeps s s'' := by
  intro hs
  have k := h hs
  have k' := h' k.sound
  exact ⟨k'.sound, k'.attrs.trans k.attrs, k'.flag.trans k.flag,
    fun hf hd => k'.settled (k.flag.trans hf) (k.settled hf hd)⟩

theorem Sound.of_eq {s s' : MemState A} (h : s.Sound) (hm : s'.memoryMap = s.memoryMap)
    (hd : s'.mapDepth = s.mapDepth) : s'.Sound where
  map := hm ▸ h.map
  ends := by
    rw [view, hm]
    exact h.ends
  slots := by
    intro e he i hi
    rw [hd]
    exact h.slots e (hm ▸ he) i hi

/-- A step that leaves the map, the stack and its flag alone. -/
theorem Keeps.of_eq {s s' : MemState A} (hm : s'.memoryMap = s.memoryMap)
    (hd : s'.mapDepth = s.mapDepth) (hf : s'.freeMapStack = s.freeMapStack) : Keeps s s' := by
  intro hs
  refine ⟨hs.of_eq hm hd, ?_, hf, fun _ h => hd.trans h⟩
  rw [view, view, hm]

end MemState

open MemState

/-- What the functions rely on in `ConvertPages`. -/
def Convert.Keeps {A : Arch} (convert : Convert A) : Prop :=
  ∀ loadConvert start noPages newType s,
    Ensures (convert loadConvert start noPages newType s) fun r => MemState.Keeps s r.2

namespace MemState

variable {A : Arch} {convert : Convert A}

/-! ## The pool -/

theorem keeps_poolBlind : PoolBlind (Keeps (A := A)) where
  of_sameMap h := .of_eq h.memoryMap h.mapDepth h.freeMapStack
  trans := Keeps.trans

theorem allocatePoolI_keeps (hc : convert.Keeps) (t : MemoryType) (n : Nat) (s : MemState A) :
    Ensures (s.allocatePoolI convert t n) fun r => Keeps s r.2 :=
  allocatePoolI_respects keeps_poolBlind hc t n s

theorem freePoolI_keeps (hc : convert.Keeps) (b : Nat) (s : MemState A) :
    Ensures (s.freePoolI convert b) fun r => Keeps s r.2 :=
  freePoolI_respects keeps_poolBlind hc b s

end MemState

end EfiCore.Mem
