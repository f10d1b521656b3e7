import EfiCore.Mem.Edit
import EfiCore.Mem.Services

/-! # `ConvertPages` keeps the partition

`FreeMemoryMapStack` moves descriptors without changing the view, one turn of `ConvertPages`
takes a range out and puts it back under another type, and the loops repeat that.  With the
recursion closed by induction on the fuel, every memory service is known to keep the map
well formed and to cover what it covered before, attributes included.
-/

namespace EfiCore.Mem

open EfiCore.Lib

namespace MemState

variable {A : Arch} {convert : Convert A}

/-! ## Emptying the stack -/

/-- `s'` is what emptying `MapStack` makes of `s`. -/
structure Drained (s s' : MemState A) : Prop where
  sound : s'.Sound
  attrs : s'.view.attrs = s.view.attrs
  flag : s'.freeMapStack = s.freeMapStack
  empty : s'.mapDepth = 0

/-- One popped descriptor moves to the pool buffer that was allocated for it. -/
theorem move_sound {s : MemState A} (h : s.Sound) {e : MapEntry} (he : e ∈ s.memoryMap)
    (hk : e.home = .mapStack (s.mapDepth - 1)) {buffer : Nat}
    (fresh : ∀ x ∈ s.memoryMap, x.home ≠ .pool buffer) :
    let s1 := { s with mapDepth := s.mapDepth - 1 }
    let s2 := (s1.unlink e.home).insertEntry { e with home := .pool buffer }
    s2.Sound ∧ s2.view = s.view := by
  obtain ⟨hwf, hview⟩ := h.map.move he fresh
  refine ⟨⟨hwf, ?_, ?_⟩, hview⟩
  · change (Mem.view _).EndsApart
    exact hview ▸ h.ends
  · intro x hx i hi
    rcases mem_insertInOrder.mp hx with rfl | hx
    · cases hi
    · have hx' : x ∈ s.memoryMap ∧ x.home ≠ e.home := by simpa using List.mem_filter.mp hx
      have := h.slots x hx'.1 i hi
      have hne : i ≠ s.mapDepth - 1 := by
        rintro rfl
        exact hx'.2 (hi.trans hk.symm)
      change i < s.mapDepth - 1
      omega

/-- A popped slot that is not on the list is just dropped. -/
theorem pop_sound {s : MemState A} (h : s.Sound)
    (hnone : ∀ x ∈ s.memoryMap, x.home ≠ .mapStack (s.mapDepth - 1)) :
    ({ s with mapDepth := s.mapDepth - 1 } : MemState A).Sound where
  map := h.map
  ends := h.ends
  slots := by
    intro x hx i hi
    have := h.slots x hx i hi
    have hne : i ≠ s.mapDepth - 1 := by
      rintro rfl
      exact hnone x hx hi
    change i < s.mapDepth - 1
    omega

theorem drainMapStack_drains (hc : convert.Keeps) (fuel : Nat) {s : MemState A} (h : s.Sound) :
    Ensures (s.drainMapStack convert fuel) (Drained s) := by
  induction fuel generalizing s with
  | zero =>
    rw [drainMapStack]
    exact Ensures.ite (fun hd => .pure ⟨h, rfl, rfl, hd⟩) fun _ => .error
  | succ fuel ih =>
    rw [drainMapStack]
    refine Ensures.ite (fun hd => .pure ⟨h, rfl, rfl, hd⟩) fun _ => ?_
    refine (allocatePoolI_keeps hc _ _ s).bind fun r hr => ?_
    have kept := hr h
    dsimp only
    split
    · rename_i e hfind
      have he : e ∈ r.2.memoryMap := List.mem_of_find?_eq_some hfind
      have hk : e.home = .mapStack (r.2.mapDepth - 1) := by simpa using List.find?_some hfind
      refine Ensures.ite (fun _ => .error) fun _ => ?_
      refine Ensures.ite (fun _ => .error) fun hnew => ?_
      have fresh : ∀ x ∈ r.2.memoryMap, x.home ≠ .pool r.1 := by
        intro x hx hxk
        exact hnew (List.any_eq_true.mpr ⟨x, hx, by simpa using hxk⟩)
      obtain ⟨hsound, hview⟩ := move_sound kept.sound he hk fresh
      refine (ih hsound).mono fun s' hs' => ⟨hs'.sound, ?_, ?_, hs'.empty⟩
      · rw [hs'.attrs, hview, kept.attrs]
      · exact hs'.flag.trans kept.flag
    · rename_i hfind
      have hnone : ∀ x ∈ r.2.memoryMap, x.home ≠ .mapStack (r.2.mapDepth - 1) := by
        intro x hx
        simpa using List.find?_eq_none.mp hfind x hx
      refine (freePoolI_keeps hc _ _).bind fun r' hr' => ?_
      have kept' := hr' (pop_sound kept.sound hnone)
      refine (ih kept'.sound).mono fun s' hs' => ⟨hs'.sound, ?_, ?_, hs'.empty⟩
      · rw [hs'.attrs, kept'.attrs, ← kept.attrs]
      · exact hs'.flag.trans (kept'.flag.trans kept.flag)

/-- `FreeMemoryMapStack` leaves the stack empty unless it was entered from itself. -/
theorem freeMemoryMapStack_keeps (hc : convert.Keeps) (fuel : Nat) {s : MemState A}
    (h : s.Sound) : Ensures (s.freeMemoryMapStack convert fuel) fun s' =>
      Kept s s' ∧ (s.freeMapStack = false → s'.mapDepth = 0) := by
  rw [freeMemoryMapStack]
  refine Ensures.ite (fun hf => .pure ⟨Keeps.refl s h, fun h0 => ?_⟩) fun hf => ?_
  · rw [h0] at hf
    cases hf
  · have hs : ({ s with freeMapStack := true } : MemState A).Sound := ⟨h.map, h.ends, h.slots⟩
    refine (drainMapStack_drains hc fuel hs).bind fun s' hs' => .pure ⟨⟨?_, ?_, ?_, ?_⟩, ?_⟩
    · exact ⟨hs'.sound.map, hs'.sound.ends, hs'.sound.slots⟩
    · exact hs'.attrs
    · exact (Bool.eq_false_iff.mpr hf).symm
    · exact fun _ _ => hs'.empty
    · exact fun _ => hs'.empty

/-! ## `ConvertPages` -/

theorem findEntry_spec {s : MemState A} {start : Nat} {e : MapEntry}
    (h : s.findEntry start = some e) : e ∈ s.memoryMap ∧ e.start ≤ start ∧ start < e.last := by
  refine ⟨List.mem_of_find?_eq_some h, ?_⟩
  simpa using List.find?_some h

/-- After `clip` and the removal of an empty descriptor the range is out of the map. -/
theorem clip_remove (convert : Convert A) {s : MemState A} (h : s.Sound) {e : MapEntry}
    (he : e ∈ s.memoryMap) {start rangeEnd : Nat} (hs : e.start ≤ start) (hle : start ≤ rangeEnd)
    (ht : rangeEnd ≤ e.last) (hp : PageRange start rangeEnd) :
    Ensures (s.clip e start rangeEnd) fun r => r.1.attr = e.attr ∧
      Ensures (r.2.removeIfEmpty convert r.1) fun s' =>
        ∃ s1, Edit s (s.view.erase start rangeEnd) s1 ∧ Removes convert s s1 s' := by
  refine (clip_cuts h he hs hle ht hp).mono fun r hr => ⟨hr.1, ?_⟩
  rw [removeIfEmpty]
  rcases hr.2 with ⟨hempty, hk, hr2, hstart, hlast⟩ | ⟨hrest, hedit⟩
  · rw [if_pos hempty, hr2]
    refine (removeMemoryMapEntry_removes convert he hk.symm _).mono fun s' hs' => ⟨_, ?_, hs'⟩
    rw [unlink_setEntry s hk, ← hstart, ← hlast]
    exact unlink_edit h he
  · rw [if_neg hrest]
    exact .ok ⟨_, hedit, .inl rfl⟩

/-- One turn of the loop keeps the map, and goes on at a page boundary. -/
theorem convertRange_keeps (hc : convert.Keeps) (fuel : Nat) (loadConvert : Bool)
    {start last : Nat} (newType : MemoryType) (hstart : start % 4096 = 0)
    (hlast : (last + 1) % 4096 = 0) (hlt : last < 2 ^ 64) (hle : start < last)
    {s : MemState A} (h : s.Sound) :
    Ensures (s.convertRange convert fuel loadConvert start last newType) fun r =>
      Kept s r.2 ∧ ∀ next, r.1 = some next → next % 4096 = 0 := by
  rw [convertRange]
  split
  · exact .pure ⟨Keeps.refl s h, by simp⟩
  · rename_i e hfind
    obtain ⟨he, hes, hel⟩ := findEntry_spec hfind
    refine Ensures.ite (fun _ => .pure ⟨Keeps.refl s h, by simp⟩) fun _ => ?_
    set rangeEnd := if e.last < last then e.last else last with hre
    have hpe := h.map.pages e he
    have hre' : start ≤ rangeEnd ∧ rangeEnd ≤ e.last ∧ rangeEnd < 2 ^ 64 ∧
        (rangeEnd + 1) % 4096 = 0 := by
      have := hpe.lt
      have := hpe.last_aligned
      rw [hre]
      split <;> omega
    have hp : PageRange start rangeEnd := ⟨hstart, hre'.2.2.2, hre'.2.2.1⟩
    have hkey : s.bumpKey.Sound := ⟨h.map, h.ends, h.slots⟩
    refine (clip_remove convert hkey he hes hre'.1 hre'.2.1 hp).bind fun r hr => ?_
    obtain ⟨hattr, hremove⟩ := hr
    refine hremove.bind fun s2 hs2 => ?_
    obtain ⟨s1, hcut, hkeep1⟩ := hs2
    have kept1 := hkeep1.keeps hc hcut.sound
    have hattrs : s2.view.attrs = (s.view.erase start rangeEnd).attrs := by
      rw [kept1.attrs, hcut.view]
      rfl
    have hfree : ∀ a, start ≤ a → a ≤ rangeEnd → s2.view a = none := by
      intro a h1 h2
      have := congrFun hattrs a
      simpa [View.attrs, View.erase, h1, h2] using this
    -- with the range put back the covered addresses are those of `s`
    have hback : (s2.view.put start rangeEnd (newType, r.1.attr)).attrs = s.view.attrs := by
      refine View.attrs_put_erase ?_ hattrs
      intro a h1 h2
      have hview : s.view a = some e.label := view_of_mem h.map.spans he (by omega)
      rw [View.attrs, hview, hattr]
      rfl
    refine (addRange_adds convert kept1.sound hre'.1 hp hfree (h.ends.of_attrs hback)).bind
      fun s4 hs4 => ?_
    obtain ⟨s3, hput, hkeep3⟩ := hs4
    have kept3 := hkeep3.keeps hc hput.sound
    refine (freeMemoryMapStack_keeps hc fuel kept3.sound).bind fun s5 hs5 => .pure ?_
    have hflag3 : s4.freeMapStack = s.freeMapStack := by
      rw [kept3.flag, hput.freeMapStack, kept1.flag, hcut.freeMapStack]
      rfl
    refine ⟨⟨hs5.1.sound, ?_, hs5.1.flag.trans hflag3, fun hf _ => hs5.2 (hflag3.trans hf)⟩, ?_⟩
    · rw [hs5.1.attrs, kept3.attrs, hput.view, hback]
    · rintro next ⟨⟩
      omega

theorem convertLoop_keeps (hc : convert.Keeps) (fuel : Nat) (loadConvert : Bool) {last : Nat}
    (newType : MemoryType) (hlast : (last + 1) % 4096 = 0) (hlt : last < 2 ^ 64)
    (turns : Nat) {start : Nat} (hstart : start % 4096 = 0) {s : MemState A} (h : s.Sound) :
    Ensures (s.convertLoop convert fuel loadConvert last newType turns start)
      fun r => Kept s r.2 := by
  induction turns generalizing start s with
  | zero =>
    rw [convertLoop]
    exact Ensures.ite (fun _ => .error) fun _ => .pure (Keeps.refl s h)
  | succ turns ih =>
    rw [convertLoop]
    refine Ensures.ite (fun hle => ?_) fun _ => .pure (Keeps.refl s h)
    refine (convertRange_keeps hc fuel loadConvert newType hstart hlast hlt hle h).bind
      fun r hr => ?_
    obtain ⟨hkept, hnext⟩ := hr
    split
    · exact .pure hkept
    · refine (ih (hnext _ rfl) hkept.sound).mono fun r' hr' => ?_
      exact Keeps.trans (fun _ => hkept) (fun _ => hr') h

theorem convertBody_keeps (hc : convert.Keeps) (fuel : Nat) (loadConvert : Bool)
    (start noPages : Nat) (newType : MemoryType) (s : MemState A) :
    Ensures (s.convertBody convert fuel loadConvert start noPages newType)
      fun r => Keeps s r.2 := by
  rw [convertBody]
  refine Ensures.ite (fun _ => .ok (Keeps.refl s)) fun hvalid => ?_
  have hstart : start % 4096 = 0 := by
    by_contra hne
    exact hvalid (.inr (.inl hne))
  intro r hr h
  refine convertLoop_keeps hc fuel loadConvert newType ?_ (Nat.mod_lt _ (by decide)) fuel hstart h
    r hr
  omega

end MemState

open MemState

/-- The specification of `ConvertPages`, at every depth of its recursion. -/
theorem convertPages_keeps {A : Arch} (fuel : Nat) : (convertPages (A := A) fuel).Keeps := by
  induction fuel with
  | zero => exact fun _ _ _ _ _ => .error
  | succ fuel ih => exact fun _ _ _ _ _ => convertBody_keeps ih _ _ _ _ _ _

end EfiCore.Mem
