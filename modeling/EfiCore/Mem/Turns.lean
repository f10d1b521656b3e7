import EfiCore.Mem.Convert
import EfiCore.Mem.Traffic

/-! # `ConvertPages` moves pages

One turn of the loop of `ConvertPages` gives its piece of the range the new type; every other
address it changes goes between free memory and the units that hold descriptors.  The loops
repeat that, and with the recursion closed by induction on the fuel `ConvertPages` is what the
pool relies on.
-/

namespace EfiCore.Mem

open EfiCore.Lib

namespace MemState

variable {A : Arch} {convert : Convert A} {s s1 s2 : MemState A}

/-! ## Emptying the stack -/

/-- Moving a descriptor into a fresh buffer. -/
theorem move_traffic (h : Traffic descriptorTypes nothing nothing s s1) {e : MapEntry}
    (he : e ∈ s1.memoryMap) (hk : e.home = .mapStack (s1.mapDepth - 1)) {entry : Nat}
    (hf : Fresh .runtimeServicesData entry s s1)
    (fresh : ∀ x ∈ s1.memoryMap, x.home ≠ .pool entry) :
    Traffic descriptorTypes nothing nothing s
      ((({ s1 with mapDepth := s1.mapDepth - 1 } : MemState A).unlink e.home).insertEntry
        { e with home := .pool entry }) := by
  obtain ⟨hsound, hview⟩ := move_sound h.sound he hk fresh
  obtain ⟨u, x, n, hb, ht, hx, -, -, hnew⟩ := hf
  set s2 : MemState A := (({ s1 with mapDepth := s1.mapDepth - 1 } : MemState A).unlink
    e.home).insertEntry { e with home := .pool entry } with hs2
  have homes : ∀ b, s2.IsHome b → b = entry ∨ s1.IsHome b := by
    rintro b ⟨y, hy, hyb⟩
    rcases mem_insertInOrder.mp hy with rfl | hy
    · left
      cases hyb
      rfl
    · exact .inr ⟨y, List.mem_of_mem_filter hy, hyb⟩
  have hp := h.pool
  have hpool : s2.PoolSound := by
    refine ⟨hp.units, hp.shaped, hp.notFree, ?_, hp.carved, hp.large, hp.listed, hp.nodup, ?_,
      hp.records, hp.recordsDistinct⟩
    · rw [hview]
      exact hp.typed
    · intro b hb'
      rcases homes b hb' with rfl | hb'
      · exact ⟨u, x, n, hb, ht, hx⟩
      · exact hp.homes b hb'
  refine ⟨hsound, hpool, ?_, ?_, h.units, ?_, h.records⟩
  · intro a ha
    rw [← h.loose a ha, Loose, Loose, Free, Free, hview]
    exact Iff.rfl
  · intro a ha hl
    rw [hview]
    exact h.view a ha hl
  · intro v y k hy hyk hX
    obtain ⟨hy', hyk'⟩ := h.heads v y k hy hyk hX
    refine ⟨hy', fun hhome => ?_⟩
    rcases homes _ hhome with hye | hhome
    · exact hnew v y k hy hyk (by omega)
    · exact hyk' hhome

theorem drainMapStack_traffic (hc : convert.Moves) (fuel : Nat) {s : MemState A} (hs : s.Sound)
    (hp : s.PoolSound) : Ensures (s.drainMapStack convert fuel)
      (Traffic descriptorTypes nothing nothing s) := by
  induction fuel generalizing s with
  | zero =>
    rw [drainMapStack]
    exact Ensures.ite (fun _ => .pure (.refl hs hp)) fun _ => .error
  | succ fuel ih =>
    rw [drainMapStack]
    refine Ensures.ite (fun _ => .pure (.refl hs hp)) fun _ => ?_
    refine (allocatePoolI_descriptor hc hs hp).bind fun r hr => ?_
    obtain ⟨htraffic, hfresh⟩ := hr
    dsimp only
    split
    · rename_i e hfind
      have he : e ∈ r.2.memoryMap := List.mem_of_find?_eq_some hfind
      have hk : e.home = .mapStack (r.2.mapDepth - 1) := by simpa using List.find?_some hfind
      refine Ensures.ite (fun _ => .error) fun hentry => ?_
      refine Ensures.ite (fun _ => .error) fun hnew => ?_
      have fresh : ∀ x ∈ r.2.memoryMap, x.home ≠ .pool r.1 := by
        intro x hx hxk
        exact hnew (List.any_eq_true.mpr ⟨x, hx, by simpa using hxk⟩)
      have hmove := move_traffic htraffic he hk (hfresh.resolve_left hentry) fresh
      exact (ih hmove.sound hmove.pool).mono fun s' hs' => hmove.trans hs'
    · rename_i hfind
      have hnone : ∀ x ∈ r.2.memoryMap, x.home ≠ .mapStack (r.2.mapDepth - 1) := by
        intro x hx
        simpa using List.find?_eq_none.mp hfind x hx
      have hpop : Traffic descriptorTypes nothing nothing r.2
          { r.2 with mapDepth := r.2.mapDepth - 1 } :=
        .of_map (pop_sound htraffic.sound hnone)
          (htraffic.pool.of_eq rfl rfl (fun _ _ => rfl) rfl (fun _ _ => rfl) fun _ hb => hb) rfl
          (fun _ => .inl Iff.rfl) (fun _ _ _ hx _ => hx) rfl
      rcases hfresh with h0 | ⟨u, x, n, hb, ht, hx, hhome, -, hnew⟩
      · rw [h0, freePoolI, if_pos rfl]
        refine Ensures.bind (.pure rfl : Ensures _ fun q => q = (.invalidParameter, _)) ?_
        rintro _ rfl
        exact (ih hpop.sound hpop.pool).mono fun s' hs' => (htraffic.trans hpop).trans hs'
      · rw [hb] at hhome ⊢
        refine (freePoolI_descriptor hc hpop.sound hpop.pool ht hx hhome).bind fun q hq => ?_
        have hfreed := (htraffic.trans hpop).then_exempt hq fun v y k hy hk _ => hnew v y k hy hk
        exact (ih hfreed.sound hfreed.pool).mono fun s' hs' => hfreed.trans hs'

theorem freeMemoryMapStack_traffic (hc : convert.Moves) (fuel : Nat) (hs : s.Sound)
    (hp : s.PoolSound) : Ensures (s.freeMemoryMapStack convert fuel)
      (Traffic descriptorTypes nothing nothing s) := by
  have flag : ∀ (r : MemState A) (b : Bool), r.Sound → r.PoolSound →
      Traffic descriptorTypes nothing nothing r { r with freeMapStack := b } := by
    intro r b hr hrp
    exact .of_map (hr.of_eq rfl rfl)
      (hrp.of_eq rfl rfl (fun _ _ => rfl) rfl (fun _ _ => rfl) fun _ h => h) rfl
      (fun _ => .inl Iff.rfl) (fun _ _ _ hx _ => hx) rfl
  rw [freeMemoryMapStack]
  refine Ensures.ite (fun _ => .pure (.refl hs hp)) fun _ => ?_
  have hset := flag s true hs hp
  refine (drainMapStack_traffic hc fuel hset.sound hset.pool).bind fun s' hs' => .pure ?_
  exact (hset.trans hs').trans (flag s' false hs'.sound hs'.pool)

/-! ## One turn -/

/-- An edit with the release that may follow it. -/
theorem Removes.traffic (hc : convert.Moves) (hp : s.PoolSound) {v : View} (he : Edit s v s1)
    (hp1 : s1.PoolSound) (h : Removes convert s s1 s2) :
    ∃ X, Traffic descriptorTypes nothing X s1 s2 ∧
      ∀ u x n, s.Head u x n → ¬ s.IsHome (x + sizeOfPoolHead) → ¬ X x := by
  rcases h with rfl | ⟨buffer, status, hhome, hgone, hfree⟩
  · exact ⟨nothing, .refl he.sound hp1, fun _ _ _ _ _ => not_false⟩
  · obtain ⟨u, x, n, rfl, ht, hx⟩ := hp.homes buffer hhome
    have hx1 : s1.Head u x n := by
      rw [Head, he.poolUnits, he.cell]
      exact hx
    refine ⟨(· = x), freePoolI_descriptor hc he.sound hp1 ht hx1 hgone _ hfree, ?_⟩
    rintro v y k - hyk rfl
    exact hyk hhome

/-- What one turn of `ConvertPages` makes of the piece `[start, rangeEnd]`. -/
structure Turned (start rangeEnd : Nat) (newType : MemoryType) (s s' : MemState A) : Prop where
  traffic : Traffic descriptorTypes (fun a => start ≤ a ∧ a ≤ rangeEnd) nothing s s'
  typed : newType ≠ .conventionalMemory → ∀ a, start ≤ a → a ≤ rangeEnd →
    (∃ attr, s'.view a = some (newType, attr)) ∧ ¬ s'.Owned a
  loose : newType = .conventionalMemory → ∀ a, start ≤ a → a ≤ rangeEnd →
    s'.Loose descriptorTypes a

theorem bumpKey_traffic {T : MemoryType → Prop} {R X : Nat → Prop} (hs : s.Sound)
    (hp : s.PoolSound) : Traffic T R X s s.bumpKey :=
  .of_map (hs.of_eq rfl rfl)
    (hp.of_eq rfl rfl (fun _ _ => rfl) rfl (fun _ _ => rfl) fun _ h => h) rfl
    (fun _ => .inl Iff.rfl) (fun _ _ _ hx _ => hx) rfl

/-- A piece that was put into the map, after the traffic that follows. -/
theorem turned_of_put {start rangeEnd : Nat} {t : MemoryType} (attr : BitVec 64) {X : Nat → Prop}
    (hv : ∀ a, start ≤ a → a ≤ rangeEnd → s1.view a = some (t, attr))
    (ho : ∀ a, start ≤ a → a ≤ rangeEnd → ¬ s1.Owned a)
    (h1 : Traffic descriptorTypes nothing X s1 s2)
    (h : Traffic descriptorTypes (fun a => start ≤ a ∧ a ≤ rangeEnd) nothing s s2) :
    Turned start rangeEnd t s s2 where
  traffic := h
  typed ht a ha1 ha2 := by
    have hview := hv a ha1 ha2
    have hl : ¬ s1.Loose descriptorTypes a := by
      rintro (⟨attr', hfree⟩ | ⟨u, hu, _, hc⟩)
      · rw [hview] at hfree
        cases hfree
        exact ht rfl
      · exact ho a ha1 ha2 ⟨u, hu, hc⟩
    exact ⟨⟨attr, (h1.view a not_false hl).trans hview⟩, h1.unowned not_false hl (ho a ha1 ha2)⟩
  loose ht a ha1 ha2 := (h1.loose a not_false).mpr (.inl ⟨attr, ht ▸ hv a ha1 ha2⟩)

theorem convertRange_turns (hk : convert.Keeps) (hc : convert.Moves) (fuel : Nat) (lc : Bool)
    {start last : Nat} (t : MemoryType) (hstart : start % 4096 = 0)
    (hlast : (last + 1) % 4096 = 0) (hlt : last < 2 ^ 64) (hle : start < last) (hs : s.Sound)
    (hp : s.PoolSound) (hown : ∀ e, s.findEntry start = some e → incompatible lc t e.type = false →
      ∀ a, start ≤ a → a ≤ e.last → a ≤ last → ¬ s.Owned a) :
    Ensures (s.convertRange convert fuel lc start last t) fun r =>
      (r.1 = none ∧ r.2 = s ∧
        ∀ e, s.findEntry start = some e → incompatible lc t e.type = true) ∨
      ∃ e rangeEnd, s.findEntry start = some e ∧ incompatible lc t e.type = false ∧
        rangeEnd = min e.last last ∧ r.1 = some ((rangeEnd + 1) % 2 ^ 64) ∧
        Turned start rangeEnd t s r.2 := by
  rw [convertRange]
  split
  · rename_i hfind
    refine .pure (.inl ⟨rfl, rfl, fun e he => ?_⟩)
    rw [hfind] at he
    cases he
  · rename_i e hfind
    obtain ⟨he, hes, hel⟩ := findEntry_spec hfind
    refine Ensures.ite (fun hinc => .pure (.inl ⟨rfl, rfl, ?_⟩)) fun hinc => ?_
    · rintro e' he'
      cases he'.symm.trans hfind
      exact hinc
    set rangeEnd := if e.last < last then e.last else last with hre
    have hmin : rangeEnd = min e.last last := by
      rw [hre]
      split <;> omega
    have hpe := hs.map.pages e he
    have hre' : start ≤ rangeEnd ∧ rangeEnd ≤ e.last ∧ rangeEnd < 2 ^ 64 ∧
        (rangeEnd + 1) % 4096 = 0 := by
      have := hpe.lt
      have := hpe.last_aligned
      rw [hre]
      split <;> omega
    have hpage : PageRange start rangeEnd := ⟨hstart, hre'.2.2.2, hre'.2.2.1⟩
    have hunowned : ∀ a, start ≤ a ∧ a ≤ rangeEnd → ¬ s.Owned a := fun a ha =>
      hown e hfind (Bool.eq_false_iff.mpr hinc) a ha.1 (by omega) (by omega)
    have hkey : Traffic descriptorTypes (fun a => start ≤ a ∧ a ≤ rangeEnd) nothing s s.bumpKey :=
      bumpKey_traffic hs hp
    refine (clip_remove convert hkey.sound he hes hre'.1 hre'.2.1 hpage).bind fun r hr => ?_
    obtain ⟨hattr, hremove⟩ := hr
    refine hremove.bind fun s2 hs2 => ?_
    obtain ⟨s1, hcut, hremoves1⟩ := hs2
    -- the piece is taken out
    have hcutTraffic : Traffic descriptorTypes (fun a => start ≤ a ∧ a ≤ rangeEnd) nothing
        s.bumpKey s1 :=
      .of_edit hkey.pool hcut (fun a ha => if_neg ha) hunowned
    obtain ⟨X1, htraffic1, hX1⟩ := hremoves1.traffic hc hkey.pool hcut hcutTraffic.pool
    have hout := hkey.trans (hcutTraffic.then_exempt (htraffic1.exempt (fun _ => False.elim)
      fun _ => id) fun u x n hx hh _ => hX1 u x n hx hh)
    have kept1 := hremoves1.keeps hk hcut.sound
    have hattrs : s2.view.attrs = (s.view.erase start rangeEnd).attrs := by
      rw [kept1.attrs, hcut.view]
      rfl
    have hfree : ∀ a, start ≤ a → a ≤ rangeEnd → s2.view a = none := by
      intro a h1 h2
      have := congrFun hattrs a
      simpa [View.attrs, View.erase, h1, h2] using this
    have hfreeUnowned : ∀ a, start ≤ a ∧ a ≤ rangeEnd → ¬ s2.Owned a := by
      rintro a ha ⟨u, hu, hcov⟩
      obtain ⟨attr, hv⟩ := hout.pool.typed u hu a hcov
      rw [hfree a ha.1 ha.2] at hv
      cases hv
    have hback : (s2.view.put start rangeEnd (t, r.1.attr)).attrs = s.view.attrs := by
      refine View.attrs_put_erase ?_ hattrs
      intro a h1 h2
      have hview : s.view a = some e.label := view_of_mem hs.map.spans he (by omega)
      rw [View.attrs, hview, hattr]
      rfl
    -- and put back with its new type
    refine (addRange_adds convert hout.sound hre'.1 hpage hfree (hs.ends.of_attrs hback)).bind
      fun s4 hs4 => ?_
    obtain ⟨s3, hput, hremoves3⟩ := hs4
    have hputTraffic : Traffic descriptorTypes (fun a => start ≤ a ∧ a ≤ rangeEnd) nothing s2 s3 :=
      .of_edit hout.pool hput (fun a ha => if_neg ha) hfreeUnowned
    obtain ⟨X3, htraffic3, hX3⟩ := hremoves3.traffic hc hout.pool hput hputTraffic.pool
    refine (freeMemoryMapStack_traffic hc fuel htraffic3.sound htraffic3.pool).bind
      fun s5 hs5 => .pure (.inr ⟨e, rangeEnd, hfind, Bool.eq_false_iff.mpr hinc, hmin, rfl, ?_⟩)
    have hafter : Traffic descriptorTypes nothing X3 s3 s5 :=
      htraffic3.then_exempt hs5 fun _ _ _ _ _ _ => not_false
    have hin := hputTraffic.then_exempt (hafter.exempt (fun _ => False.elim) fun _ => id)
      fun u x n hx hh _ => hX3 u x n hx hh
    refine turned_of_put r.1.attr ?_ ?_ hafter (hout.trans hin)
    · intro a h1 h2
      rw [hput.view, View.put, if_pos ⟨h1, h2⟩]
    · intro a h1 h2
      rw [Owned, hput.poolUnits]
      exact hfreeUnowned a ⟨h1, h2⟩

/-! ## The loop -/

theorem findEntry_of_mem (hs : s.Sound) {e : MapEntry} (he : e ∈ s.memoryMap) {start : Nat}
    (h1 : e.start ≤ start) (h2 : start < e.last) : s.findEntry start = some e := by
  cases hfind : s.findEntry start with
  | none =>
    have := List.find?_eq_none.mp hfind e he
    simp at this
    omega
  | some e' =>
    obtain ⟨he', h1', h2'⟩ := findEntry_spec hfind
    rw [hs.map.spans.eq_of_occupies he' he ⟨h1', by omega⟩ ⟨h1, by omega⟩]

/-- The descriptor that covers the first address of a page is found. -/
theorem findEntry_of_view (hs : s.Sound) {start : Nat} (hstart : start % 4096 = 0) {l : Label}
    (hv : s.view start = some l) : ∃ e, s.findEntry start = some e ∧ e.label = l := by
  obtain ⟨e, he, hcov, hl⟩ := (view_eq_some_iff hs.map.spans).mp hv
  have := (hs.map.pages e he).last_aligned
  exact ⟨e, findEntry_of_mem hs he hcov.1 (by omega), hl⟩

theorem free_of_entry (hs : s.Sound) {e : MapEntry} (he : e ∈ s.memoryMap)
    (ht : e.type = .conventionalMemory) {a : Nat} (ha : e.start ≤ a ∧ a ≤ e.last) : s.Free a := by
  have hview : s.view a = some e.label := view_of_mem hs.map.spans he ha
  rw [MapEntry.label, ht] at hview
  exact ⟨e.attr, hview⟩

theorem incompatible_false_iff (t t' : MemoryType) :
    incompatible false t t' = false ↔
      (t ≠ .conventionalMemory ↔ t' = .conventionalMemory) := by
  by_cases h : t = .conventionalMemory <;> by_cases h' : t' = .conventionalMemory <;>
    simp [incompatible, h, h']

/-- A range that runs around the end of the address space is refused. -/
theorem convertBody_refuses (convert : Convert A) (fuel : Nat) (lc : Bool) {start n : Nat} (t : MemoryType)
    (s : MemState A) (hstart : start < 2 ^ 64) (hbytes : n * 4096 < 2 ^ 64)
    (hwrap : 2 ^ 64 ≤ start + n * 4096) :
    s.convertBody convert fuel lc start n t = .ok (.invalidParameter, s) := by
  have hlow : (start + n * 4096 % 2 ^ 64) % 2 ^ 64 < start := by omega
  exact if_pos (.inr (.inr hlow))

theorem convertLoop_done (convert : Convert A) (fuel : Nat) (lc : Bool) {start last : Nat}
    (t : MemoryType) (turns : Nat) (s : MemState A) (h : ¬ start < last) :
    s.convertLoop convert fuel lc last t turns start = .ok (.success, s) := by
  cases turns <;> rw [convertLoop, if_neg h] <;> rfl

/-- Taking pages out of one free descriptor. -/
theorem convertBody_takes (hk : convert.Keeps) (hc : convert.Moves) (fuel : Nat) {start n : Nat}
    (t : MemoryType) (hs : s.Sound) (hp : s.PoolSound) (hn : 0 < n) (hbytes : n * 4096 < 2 ^ 64)
    {e : MapEntry} (he : e ∈ s.memoryMap) (ht : e.type = .conventionalMemory)
    (h1 : e.start ≤ start) (h2 : start + n * 4096 ≤ e.last + 1) :
    Ensures (s.convertBody convert fuel false start n t) fun r =>
      (r.1.isError = true ∧ r.2 = s) ∨
        (r.1.isError = false ∧ Took start (start + n * 4096 - 1) t s r.2) := by
  have hlt := (hs.map.pages e he).lt
  rw [convertBody]
  refine Ensures.ite (fun _ => .ok (.inl ⟨rfl, rfl⟩)) fun hvalid => ?_
  have hstart : start % 4096 = 0 := by
    by_contra hne
    exact hvalid (.inr (.inl hne))
  have hbelow : start + n * 4096 < 2 ^ 64 := by
    by_contra hge
    exact hvalid (.inr (.inr (by omega)))
  have hlast : (start + n * 4096 % 2 ^ 64 + (2 ^ 64 - 1)) % 2 ^ 64 = start + n * 4096 - 1 := by
    omega
  rw [hlast]
  set last := start + n * 4096 - 1 with hl
  have hfree : ∀ a, start ≤ a → a ≤ last → s.Free a :=
    fun a ha1 ha2 => free_of_entry hs he ht (by omega)
  have hfind := findEntry_of_mem hs he h1 (show start < e.last by omega)
  cases fuel with
  | zero =>
    rw [convertLoop]
    refine Ensures.ite (fun _ => .error) fun hnot => ?_
    omega
  | succ fuel =>
    rw [convertLoop, if_pos (by omega)]
    refine (convertRange_turns hk hc (fuel + 1) false t hstart (by omega) (by omega) (by omega)
      hs hp ?_).bind fun r hr => ?_
    · rintro e' he' hinc a ha1 - ha2 ⟨u, hu, hc⟩
      exact hp.owned_not_free hu hc (hfree a ha1 ha2)
    rcases hr with ⟨hnone, hsame, -⟩ | ⟨e', rangeEnd, he', hinc, hre, hnext, hturn⟩
    · obtain ⟨o, s'⟩ := r
      cases hnone
      exact .pure (.inl ⟨rfl, hsame⟩)
    · obtain ⟨o, s'⟩ := r
      dsimp only at hnext hturn
      cases hfind.symm.trans he'
      have hmin : rangeEnd = last := by omega
      have ht' : t ≠ .conventionalMemory := ((incompatible_false_iff t _).mp hinc).mpr ht
      rw [hnext]
      dsimp only
      rw [convertLoop_done _ _ _ _ _ _ (by omega)]
      rw [hmin] at hturn
      refine .ok (.inr ⟨rfl, hturn.traffic, ht', hfree, ?_, ?_, by omega⟩)
      · exact fun a ha1 ha2 => (hturn.typed ht' a ha1 ha2).1
      · exact fun a ha1 ha2 => (hturn.typed ht' a ha1 ha2).2

theorem Held.not_free {a : Nat} (h : s.Held a) : ¬ s.Free a := by
  obtain ⟨⟨t, attr, hv, ht⟩, -⟩ := h
  rintro ⟨attr', hf⟩
  cases hv.symm.trans hf
  exact ht rfl

theorem Held.not_loose {T : MemoryType → Prop} {a : Nat} (h : s.Held a) : ¬ s.Loose T a := by
  rintro (hf | ⟨u, hu, _, hc⟩)
  · exact h.not_free hf
  · exact h.2 ⟨u, hu, hc⟩

theorem Traffic.held {T : MemoryType → Prop} {R X : Nat → Prop} (h : Traffic T R X s s1)
    {a : Nat} (ha : ¬ R a) (hheld : s.Held a) : s1.Held a := by
  refine ⟨?_, h.unowned ha hheld.not_loose hheld.2⟩
  rw [h.view a ha hheld.not_loose]
  exact hheld.1

/-- A range without free memory and without pool may be converted to anything.  When it is given
    back, all of it goes; under another type all of it stays held. -/
theorem convertLoop_moves (hk : convert.Keeps) (hc : convert.Moves) (fuel : Nat) (lc : Bool)
    {last : Nat} (t : MemoryType) (hlast : (last + 1) % 4096 = 0) (hlt : last + 1 < 2 ^ 64)
    (turns : Nat) {start : Nat} (hstart : start % 4096 = 0) {s : MemState A} (hs : s.Sound)
    (hp : s.PoolSound) (hrange : ∀ a, start ≤ a → a ≤ last → ¬ s.Free a ∧ ¬ s.Owned a) :
    Ensures (s.convertLoop convert fuel lc last t turns start) fun r =>
      Traffic descriptorTypes (fun a => start ≤ a ∧ a ≤ last) nothing s r.2 ∧
        (lc = false → t = .conventionalMemory →
          (∀ a, start ≤ a → a ≤ last → s.Held a) →
          ∀ a, start ≤ a → a ≤ last → r.2.Loose descriptorTypes a) ∧
        (t ≠ .conventionalMemory → ∀ a, s.Held a → r.2.Held a) := by
  induction turns generalizing start s with
  | zero =>
    rw [convertLoop]
    exact Ensures.ite (fun _ => .error) fun hnot =>
      .pure ⟨.refl hs hp, fun _ _ _ => by omega, fun _ _ h => h⟩
  | succ turns ih =>
    rw [convertLoop]
    refine Ensures.ite (fun hle => ?_) fun hnot =>
      .pure ⟨.refl hs hp, fun _ _ _ => by omega, fun _ _ h => h⟩
    refine (convertRange_turns hk hc fuel lc t hstart hlast (by omega) hle hs hp ?_).bind
      fun r hr => ?_
    · exact fun e he hinc a ha1 _ ha2 => (hrange a ha1 ha2).2
    obtain ⟨o, s1⟩ := r
    rcases hr with ⟨hnone, hsame, hinc⟩ | ⟨e, rangeEnd, hfind, hinc, hre, hnext, hturn⟩
    · cases hnone
      dsimp only at hsame
      rw [hsame]
      refine .pure ⟨.refl hs hp, fun hlc ht hheld => ?_, fun _ _ h => h⟩
      -- a held page is found and can be given back
      obtain ⟨⟨t', attr, hv, ht'⟩, -⟩ := hheld start (le_refl _) (by omega)
      obtain ⟨e, hfind, hlabel⟩ := findEntry_of_view hs hstart hv
      have hbad := hinc e hfind
      have htype : e.type = t' := congrArg Prod.fst hlabel
      rw [hlc, ← Bool.not_eq_false, incompatible_false_iff, htype] at hbad
      exact absurd (iff_of_false (not_not.mpr ht) ht') hbad
    · dsimp only at hnext hturn
      rw [hnext]
      dsimp only
      have hpe := hs.map.pages e (findEntry_spec hfind).1
      have hpe1 := hpe.last_aligned
      have hpe2 := hpe.lt
      have hel := (findEntry_spec hfind).2
      have hrest : ∀ a, rangeEnd < a → a ≤ last →
          ¬ (start ≤ a ∧ a ≤ rangeEnd) ∧ ¬ s.Loose descriptorTypes a ∧ s1.view a = s.view a ∧
            ¬ s1.Owned a := by
        intro a ha1 ha2
        have hout : ¬ (start ≤ a ∧ a ≤ rangeEnd) := by omega
        obtain ⟨hfree, howned⟩ := hrange a (by omega) ha2
        have hl : ¬ s.Loose descriptorTypes a := by
          rintro (h | ⟨u, hu, _, hcov⟩)
          · exact hfree h
          · exact howned ⟨u, hu, hcov⟩
        exact ⟨hout, hl, hturn.traffic.view a hout hl, hturn.traffic.unowned hout hl howned⟩
      have hmod : (rangeEnd + 1) % 2 ^ 64 = rangeEnd + 1 := Nat.mod_eq_of_lt (by omega)
      rw [hmod]
      refine (ih (by omega) hturn.traffic.sound hturn.traffic.pool ?_).mono fun r hr => ?_
      · intro a ha1 ha2
        obtain ⟨_, _, hv, ho⟩ := hrest a (by omega) ha2
        refine ⟨?_, ho⟩
        rintro ⟨attr, hf⟩
        exact (hrange a (by omega) ha2).1 ⟨attr, hv ▸ hf⟩
      obtain ⟨htraffic, hgive, hkeep⟩ := hr
      refine ⟨?_, fun hlc ht hheld a ha1 ha2 => ?_, fun ht a hheld => hkeep ht a ?_⟩
      · exact (hturn.traffic.exempt (fun a ha => by omega) fun _ => id).trans
          (htraffic.exempt (fun a ha => by omega) fun _ => id)
      · by_cases hin : a ≤ rangeEnd
        · exact (htraffic.loose a (by omega)).mpr (hturn.loose ht a ha1 hin)
        · refine hgive hlc ht (fun b hb1 hb2 => ?_) a (by omega) ha2
          obtain ⟨_, _, hv, ho⟩ := hrest b (by omega) hb2
          refine ⟨?_, ho⟩
          rw [hv]
          exact (hheld b (by omega) hb2).1
      · by_cases hin : start ≤ a ∧ a ≤ rangeEnd
        · obtain ⟨⟨attr, hv⟩, ho⟩ := hturn.typed ht a hin.1 hin.2
          exact ⟨⟨t, attr, hv, ht⟩, ho⟩
        · exact hturn.traffic.held hin hheld

/-- Giving pages back. -/
theorem convertBody_gives (hk : convert.Keeps) (hc : convert.Moves) (fuel : Nat) {start n : Nat}
    (hs : s.Sound) (hp : s.PoolSound) (hn : 0 < n) (hstart : start % 4096 = 0)
    (hbelow : start + n * 4096 < 2 ^ 64)
    (hheld : ∀ a, start ≤ a → a ≤ start + n * 4096 - 1 → s.Held a) :
    Ensures (s.convertBody convert fuel false start n .conventionalMemory) fun r =>
      Gave start (start + n * 4096 - 1) s r.2 := by
  have hlast : (start + n * 4096 % 2 ^ 64 + (2 ^ 64 - 1)) % 2 ^ 64 = start + n * 4096 - 1 := by
    omega
  rw [convertBody, hlast]
  refine Ensures.ite (fun hbad => ?_) fun _ => ?_
  · omega
  · have hrange : ∀ a, start ≤ a → a ≤ start + n * 4096 - 1 → ¬ s.Free a ∧ ¬ s.Owned a :=
      fun a h1 h2 => ⟨(hheld a h1 h2).not_free, (hheld a h1 h2).2⟩
    refine (convertLoop_moves hk hc fuel false .conventionalMemory (by omega) (by omega) fuel
      hstart hs hp hrange).mono fun r hr => ?_
    exact ⟨hr.1, hr.2.1 rfl rfl hheld⟩

end MemState

open MemState

/-- `ConvertPages` is what the pool relies on, at every depth of its recursion. -/
theorem convertPages_moves {A : Arch} (fuel : Nat) : (convertPages (A := A) fuel).Moves := by
  induction fuel with
  | zero => exact ⟨fun _ _ _ _ _ _ _ _ _ => .error, fun _ _ _ _ _ _ _ _ => .error,
      fun _ _ _ _ _ _ _ _ _ => .error⟩
  | succ fuel ih =>
    have hk := convertPages_keeps (A := A) fuel
    refine ⟨?_, ?_, ?_⟩
    · rintro start n t s hs hp hn hbytes ⟨e, he, ht, h1, h2⟩
      exact convertBody_takes hk ih (fuel + 1) t hs hp hn hbytes he ht h1 h2
    · intro lc start n t s hstart hbytes hwrap
      have hbody := convertBody_refuses (convertPages fuel) (fuel + 1) lc t s hstart hbytes hwrap
      intro r hr
      cases hbody.symm.trans hr
      exact ⟨rfl, rfl⟩
    · intro start n s hs hp hn hstart hbelow hheld
      exact convertBody_gives hk ih (fuel + 1) hs hp hn hstart hbelow hheld

end EfiCore.Mem
