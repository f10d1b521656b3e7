import EfiCore.Mem.Keeps

/-! # Edits of the memory map

`clip` takes a range out of the map and `AddRange` puts one in.  Both may have to remove a
descriptor, and with it re-enter the page allocator, but only after the list has been edited:
what they do is an `Edit`, then possibly the release of the descriptor's pool buffer.
-/

namespace EfiCore.Mem

open EfiCore.Lib

namespace MemState

variable {A : Arch} {convert : Convert A}

/-! ## Edits of the list -/

/-- `buffer` holds a descriptor that is on the list. -/
def IsHome (s : MemState A) (buffer : Nat) : Prop := ∃ e ∈ s.memoryMap, e.home = .pool buffer

/-- `s'` is `s` with the view `v`: only the list, the stack depth and the key may differ, and
    no pool buffer becomes a descriptor. -/
structure Edit (s : MemState A) (v : View) (s' : MemState A) : Prop where
  sound : s'.Sound
  view : s'.view = v
  homes : ∀ buffer, s'.IsHome buffer → s.IsHome buffer
  frame : s' = { s with
    memoryMap := s'.memoryMap, mapDepth := s'.mapDepth, memoryMapKey := s'.memoryMapKey,
    mapChanges := s'.mapChanges }

section

variable {s s' : MemState A} {v : View}

theorem Edit.poolUnits (h : Edit s v s') : s'.poolUnits = s.poolUnits :=
  (congrArg MemState.poolUnits h.frame).trans rfl

theorem Edit.cell (h : Edit s v s') : s'.cell = s.cell :=
  (congrArg MemState.cell h.frame).trans rfl

theorem Edit.pool (h : Edit s v s') : s'.pool = s.pool :=
  (congrArg MemState.pool h.frame).trans rfl

theorem Edit.poolHeadList (h : Edit s v s') : s'.poolHeadList = s.poolHeadList :=
  (congrArg MemState.poolHeadList h.frame).trans rfl

theorem Edit.freeMapStack (h : Edit s v s') : s'.freeMapStack = s.freeMapStack :=
  (congrArg MemState.freeMapStack h.frame).trans rfl

end

theorem Sound.mem_slots {s : MemState A} (h : s.Sound) {m : List MapEntry}
    (hm : ∀ x ∈ m, ∃ y ∈ s.memoryMap, x.home = y.home) :
    ∀ x ∈ m, ∀ i, x.home = .mapStack i → i < s.mapDepth := by
  intro x hx i hi
  obtain ⟨y, hy, hxy⟩ := hm x hx
  exact h.slots y hy i (hxy ▸ hi)

/-- An edit that only writes the list, and lists no new home. -/
theorem Sound.edit {s : MemState A} (h : s.Sound) {m : List MapEntry} {v : View}
    (hm : WellFormed m) (hv : Mem.view m = v) (hends : v.EndsApart)
    (hhome : ∀ x ∈ m, ∃ y ∈ s.memoryMap, x.home = y.home) :
    Edit s v { s with memoryMap := m } where
  sound := ⟨hm, by rw [MemState.view, hv]; exact hends, h.mem_slots hhome⟩
  view := hv
  homes := by
    rintro buffer ⟨x, hx, hk⟩
    obtain ⟨y, hy, hxy⟩ := hhome x hx
    exact ⟨y, hy, hxy.symm.trans hk⟩
  frame := rfl

theorem homes_replace {m : List MapEntry} {e : MapEntry} :
    ∀ x ∈ replace MapEntry.home m e, ∃ y ∈ m, x.home = y.home := by
  intro x hx
  rcases mem_replace.mp hx with ⟨hx, _⟩ | ⟨rfl, y, hy, hk⟩
  · exact ⟨x, hx, rfl⟩
  · exact ⟨y, hy, hk.symm⟩

theorem homes_filter {m : List MapEntry} {p : MapEntry → Bool} :
    ∀ x ∈ m.filter p, ∃ y ∈ m, x.home = y.home :=
  fun x hx => ⟨x, List.mem_of_mem_filter hx, rfl⟩

theorem unlink_edit {s : MemState A} (h : s.Sound) {e : MapEntry} (he : e ∈ s.memoryMap) :
    Edit s (s.view.erase e.start e.last) (s.unlink e.home) :=
  h.edit (h.map.unlink e.home) (view_unlink h.map.spans he) (h.ends.erase _ _) homes_filter

/-- A descriptor clipped at one end. -/
theorem shrink_edit {s : MemState A} (h : s.Sound) {e : MapEntry} (he : e ∈ s.memoryMap)
    (e' : MapEntry) (hk : e'.home = e.home) (hl : e'.label = e.label) (hs : e.start ≤ e'.start)
    (hle : e'.start ≤ e'.last) (ht : e'.last ≤ e.last) (hp : PageRange e'.start e'.last)
    {start last : Nat} (hcut : ∀ a, (start ≤ a ∧ a ≤ last) ↔
      (e.start ≤ a ∧ a ≤ e.last) ∧ ¬ (e'.start ≤ a ∧ a ≤ e'.last)) :
    Edit s (s.view.erase start last) (s.setEntry e') := by
  have hm := h.map.shrink he hk hl hs hle ht hp
  refine h.edit hm ?_ (h.ends.erase _ _) homes_replace
  funext a
  rw [view_shrink h.map.spans he hk hl hs ht hm.spans, View.erase]
  exact if_congr (hcut a).symm rfl rfl

/-- A fresh slot of `MapStack` is not on the list. -/
theorem Sound.fresh {s : MemState A} (h : s.Sound) {e : MapEntry} (he : e ∈ s.memoryMap) :
    e.home ≠ .mapStack s.mapDepth := by
  intro hk
  exact absurd (h.slots e he _ hk) (lt_irrefl _)

/-- A descriptor pushed on `MapStack`, for a range that is free and cannot be merged. -/
theorem pushEntry_edit {s : MemState A} (h : s.Sound) {t : MemoryType} {start last : Nat}
    {attr : BitVec 64} (hle : start ≤ last) (hp : PageRange start last)
    (clear : ∀ x ∈ s.memoryMap, x.last < start ∨ last < x.start)
    (single : ∀ x ∈ s.memoryMap, x.label = (t, attr) →
      x.last + 1 ≠ start ∧ last + 1 ≠ x.start)
    (hends : (s.view.put start last (t, attr)).EndsApart) :
    Ensures (s.pushEntry t start last attr) fun r =>
      r.1 = ⟨.mapStack s.mapDepth, t, start, last, attr⟩ ∧
      Edit s (s.view.put start last (t, attr)) r.2 := by
  refine Ensures.ite (fun _ => .ok ⟨rfl, ?_⟩) fun _ => .error
  set e : MapEntry := ⟨.mapStack s.mapDepth, t, start, last, attr⟩
  have hcons : MapSpans (e :: s.memoryMap) :=
    h.map.spans.cons (fun x hx => h.fresh hx) hle clear
  have hview : Mem.view (s.memoryMap ++ [e]) = s.view.put start last (t, attr) := by
    rw [view_permute hcons (List.perm_append_singleton e _), view_cons hcons]
    rfl
  refine ⟨⟨h.map.append rfl (fun x hx => h.fresh hx) hle hp clear single, ?_, ?_⟩, hview, ?_, rfl⟩
  · rw [MemState.view, hview]
    exact hends
  · intro x hx i hi
    rcases List.mem_append.mp hx with hx | hx
    · exact Nat.lt_succ_of_lt (h.slots x hx i hi)
    · rw [List.mem_singleton.mp hx] at hi
      cases hi
      exact Nat.lt_succ_self _
  · rintro buffer ⟨x, hx, hk⟩
    rcases List.mem_append.mp hx with hx | hx
    · exact ⟨x, hx, hk⟩
    · rw [List.mem_singleton.mp hx] at hk
      cases hk

/-! ## Taking a range out of the map -/

/-- From `s1` on nothing happens, or the buffer of a descriptor of `s` that is off the list by
    then is freed. -/
def Removes (convert : Convert A) (s s1 s' : MemState A) : Prop :=
  s' = s1 ∨ ∃ buffer status, s.IsHome buffer ∧ ¬ s1.IsHome buffer ∧
    s1.freePoolI convert buffer = .ok (status, s')

theorem Removes.keeps (hc : convert.Keeps) {s s1 s' : MemState A}
    (h : Removes convert s s1 s') : Keeps s1 s' := by
  rcases h with rfl | ⟨buffer, status, _, _, hfree⟩
  · exact Keeps.refl _
  · exact freePoolI_keeps hc buffer s1 _ hfree

theorem removeMemoryMapEntry_removes (convert : Convert A) {s : MemState A} {e y : MapEntry}
    (hy : y ∈ s.memoryMap) (hk : y.home = e.home) (s1 : MemState A) :
    Ensures (s1.removeMemoryMapEntry convert e) (Removes convert s (s1.unlink e.home)) := by
  rw [removeMemoryMapEntry]
  dsimp only
  split
  · exact .pure (.inl rfl)
  · rename_i buffer hbuffer
    refine (Ensures.self _).bind fun r hr => .pure (.inr ⟨buffer, r.1, ⟨y, hy, ?_⟩, ?_, hr⟩)
    · exact hk.trans hbuffer
    · rintro ⟨x, hx, hxk⟩
      have := (List.mem_filter.mp hx).2
      simp [hxk, hbuffer] at this

/-- Storing to a descriptor that is then unlinked leaves no trace. -/
theorem unlink_setEntry (s : MemState A) {e e' : MapEntry} (h : e'.home = e.home) :
    (s.setEntry e').unlink e'.home = s.unlink e.home := by
  have := filter_replace MapEntry.home s.memoryMap e'
  rw [h] at this ⊢
  rw [MemState.unlink, MemState.unlink, setEntry, this]

/-- `clip` takes the range out, or leaves an empty descriptor when the range is all of it. -/
theorem clip_cuts {s : MemState A} (h : s.Sound) {e : MapEntry} (he : e ∈ s.memoryMap)
    {start rangeEnd : Nat} (hs : e.start ≤ start) (hle : start ≤ rangeEnd)
    (ht : rangeEnd ≤ e.last) (hp : PageRange start rangeEnd) :
    Ensures (s.clip e start rangeEnd) fun r => r.1.attr = e.attr ∧
      ((r.1.start = (r.1.last + 1) % 2 ^ 64 ∧ r.1.home = e.home ∧ r.2 = s.setEntry r.1 ∧
          e.start = start ∧ e.last = rangeEnd) ∨
        (r.1.start ≠ (r.1.last + 1) % 2 ^ 64 ∧ Edit s (s.view.erase start rangeEnd) r.2)) := by
  have hpe := h.map.pages e he
  have hpe1 := hpe.start_aligned
  have hpe2 := hpe.last_aligned
  have hpe3 := hpe.lt
  have hp1 := hp.start_aligned
  have hp2 := hp.last_aligned
  rw [clip]
  refine Ensures.ite (fun hstart => .ok ⟨rfl, ?_⟩) fun hstart => ?_
  · by_cases hend : e.last = rangeEnd
    · left
      exact ⟨by simp [hend], rfl, rfl, hstart, hend⟩
    · right
      have hmod : (rangeEnd + 1) % 2 ^ 64 = rangeEnd + 1 := Nat.mod_eq_of_lt (by omega)
      rw [hmod]
      refine ⟨by simp only; omega, ?_⟩
      refine shrink_edit h he { e with start := rangeEnd + 1 } rfl rfl ?_ ?_ (le_refl _)
        ⟨?_, hpe2, hpe3⟩ ?_ <;> dsimp only
      · omega
      · omega
      · omega
      · intro a
        omega
  · refine Ensures.ite (fun hend => .ok ⟨rfl, .inr ⟨?_, ?_⟩⟩) fun hend => ?_
    · simp only
      omega
    · refine shrink_edit h he { e with last := start - 1 } rfl rfl (le_refl _) ?_ ?_
        ⟨hpe1, ?_, ?_⟩ ?_ <;> dsimp only
      · omega
      · omega
      · omega
      · omega
      · intro a
        omega
    · -- the lower part stays in place, the upper part gets a descriptor of its own
      set low : MapEntry := { e with last := start - 1 }
      have hlow : Edit s (s.view.erase start e.last) (s.setEntry low) := by
        refine shrink_edit h he low rfl rfl (le_refl _) ?_ ?_ ⟨hpe1, ?_, ?_⟩ ?_ <;>
          dsimp only [low]
        · omega
        · omega
        · omega
        · omega
        · intro a
          omega
      have hmem : ∀ x ∈ (s.setEntry low).memoryMap,
          (x ∈ s.memoryMap ∧ x.home ≠ e.home) ∨ x = low := by
        intro x hx
        rcases mem_replace.mp hx with h | ⟨h, _⟩
        · exact .inl h
        · exact .inr h
      have hview : (s.view.erase start e.last).put (rangeEnd + 1) e.last e.label =
          s.view.erase start rangeEnd := by
        funext a
        simp only [View.put, View.erase]
        by_cases ha : rangeEnd + 1 ≤ a ∧ a ≤ e.last
        · rw [if_pos ha, if_neg (by omega)]
          exact (view_of_mem h.map.spans he (by omega)).symm
        · rw [if_neg ha]
          exact if_congr (by omega) rfl rfl
      have hclear : ∀ x ∈ (s.setEntry low).memoryMap, x.last < rangeEnd + 1 ∨ e.last < x.start := by
        intro x hx
        rcases hmem x hx with ⟨hx, hk⟩ | rfl
        · have := h.map.spans.apart x hx e he hk
          omega
        · dsimp only [low]
          omega
      have hsingle : ∀ x ∈ (s.setEntry low).memoryMap, x.label = e.label →
          x.last + 1 ≠ rangeEnd + 1 ∧ e.last + 1 ≠ x.start := by
        intro x hx hl
        rcases hmem x hx with ⟨hx, hk⟩ | rfl
        · have := h.map.coalesced e he x hx hl.symm
          have := h.map.spans.apart x hx e he hk
          have := h.map.spans.nonempty x hx
          omega
        · dsimp only [low]
          omega
      have hupper : PageRange (rangeEnd + 1) e.last := ⟨hp2, hpe2, hpe3⟩
      refine (pushEntry_edit hlow.sound (by omega) hupper hclear hsingle ?_).mono ?_
      · rw [hlow.view]
        change View.EndsApart (View.put _ _ _ e.label)
        rw [hview]
        exact h.ends.erase _ _
      · rintro ⟨e', s'⟩ ⟨rfl, hedit⟩
        refine ⟨rfl, .inr ⟨by simp only; omega, hedit.sound, ?_, ?_, hedit.frame.trans ?_⟩⟩
        · rw [hedit.view, hlow.view]
          exact hview
        · exact fun b hb => hlow.homes b (hedit.homes b hb)
        · rfl

/-! ## Putting a range into the map -/

theorem Edit.of_bumpKey {s s' : MemState A} {v : View} (h : Edit s.bumpKey v s') :
    Edit s v s' :=
  ⟨h.sound, h.view, h.homes, h.frame⟩

/-- A range that the view `v` covers, with one attribute. -/
structure Placed (v : View) (start last : Nat) (attr : BitVec 64) : Prop where
  pages : PageRange start last
  le : start ≤ last
  covered : ∀ a, start ≤ a → a ≤ last → v.attrs a = some attr

theorem Placed.touch {v : View} (hv : v.EndsApart) {start last start' last' : Nat}
    {attr : BitVec 64} (h : Placed v start last attr) (h' : Placed v start' last' attr) :
    (last + 1) % 2 ^ 64 = start' ↔ last + 1 = start' :=
  hv.touch h.pages.lt (Nat.lt_of_le_of_lt h'.le h'.pages.lt)
    (h.covered _ h.le (le_refl _)) (h'.covered _ (le_refl _) h'.le)

theorem adjoins_iff {v : View} (hv : v.EndsApart) {e : MapEntry} {t : MemoryType}
    {start last : Nat} {attr : BitVec 64} (he : Placed v e.start e.last e.attr)
    (hr : Placed v start last attr) :
    adjoins e t start last attr = true ↔
      e.label = (t, attr) ∧ (e.last + 1 = start ∨ last + 1 = e.start) := by
  rw [adjoins, decide_eq_true_iff, MapEntry.label, Prod.mk.injEq, and_assoc]
  refine and_congr_right fun _ => and_congr_right fun hattr => ?_
  rw [hattr] at he
  rw [he.touch hv hr, eq_comm (a := e.start), hr.touch hv he]

/-- What `absorb` makes of a descriptor that touches the range. -/
theorem absorb_spec {v : View} (hv : v.EndsApart) {e : MapEntry} {start last : Nat}
    {attr : BitVec 64} (he : Placed v e.start e.last attr) (hr : Placed v start last attr)
    (hadj : e.last + 1 = start ∨ last + 1 = e.start) :
    (absorb e start last).home = e.home ∧ (absorb e start last).label = e.label ∧
      ((e.last + 1 = start ∧ (absorb e start last).start = e.start ∧
          (absorb e start last).last = last) ∨
        (last + 1 = e.start ∧ (absorb e start last).start = start ∧
          (absorb e start last).last = e.last)) := by
  rw [absorb]
  by_cases h : e.last + 1 = start
  · rw [if_pos ((he.touch hv hr).mpr h)]
    exact ⟨rfl, rfl, .inl ⟨h, rfl, rfl⟩⟩
  · rw [if_neg (mt (he.touch hv hr).mp h)]
    exact ⟨rfl, rfl, .inr ⟨hadj.resolve_left h, rfl, rfl⟩⟩

/-- What `absorbEntry` makes of a descriptor that touches `e`. -/
theorem absorbEntry_spec {v : View} (hv : v.EndsApart) {e1 e : MapEntry}
    {attr : BitVec 64} (he1 : Placed v e1.start e1.last attr) (he : Placed v e.start e.last attr)
    (hadj : e1.last + 1 = e.start ∨ e.last + 1 = e1.start) :
    (absorbEntry e1 e).home = e1.home ∧ (absorbEntry e1 e).label = e1.label ∧
      ((e.last + 1 = e1.start ∧ (absorbEntry e1 e).start = e.start ∧
          (absorbEntry e1 e).last = e1.last) ∨
        (e1.last + 1 = e.start ∧ (absorbEntry e1 e).start = e1.start ∧
          (absorbEntry e1 e).last = e.last)) := by
  rw [absorbEntry]
  by_cases h : e.last + 1 = e1.start
  · rw [if_pos ((he.touch hv he1).mpr h)]
    exact ⟨rfl, rfl, .inl ⟨h, rfl, rfl⟩⟩
  · rw [if_neg (mt (he.touch hv he1).mp h)]
    exact ⟨rfl, rfl, .inr ⟨hadj.resolve_right h, rfl, rfl⟩⟩

section AddRange

/- A range that is free in the sound state `s`, and the descriptors of `s`, all placed in the
   view that `AddRange` is to make. -/
variable {s : MemState A} {t : MemoryType} {start last : Nat} {attr : BitVec 64}

theorem placed_range (hse : start ≤ last) (hp : PageRange start last) :
    Placed (s.view.put start last (t, attr)) start last attr where
  pages := hp
  le := hse
  covered := by
    intro a h1 h2
    rw [View.attrs, View.put, if_pos ⟨h1, h2⟩]
    rfl

theorem placed_entry (h : s.Sound)
    (clear : ∀ x ∈ s.memoryMap, x.last < start ∨ last < x.start) {e : MapEntry}
    (he : e ∈ s.memoryMap) :
    Placed (s.view.put start last (t, attr)) e.start e.last e.attr where
  pages := h.map.pages e he
  le := h.map.spans.nonempty e he
  covered := by
    intro a h1 h2
    have hview : s.view a = some e.label := view_of_mem h.map.spans he ⟨h1, h2⟩
    have := clear e he
    rw [View.attrs, View.put, if_neg (by omega), hview]
    rfl

/-- Nothing touches the range: it becomes a descriptor of its own. -/
theorem addRange_push (h : s.Sound) (hse : start ≤ last) (hp : PageRange start last)
    (clear : ∀ x ∈ s.memoryMap, x.last < start ∨ last < x.start)
    (hends : (s.view.put start last (t, attr)).EndsApart)
    (hnone : s.memoryMap.find? (adjoins · t start last attr) = none) :
    Ensures (s.pushEntry t start last attr) fun r =>
      Edit s (s.view.put start last (t, attr)) r.2 := by
  refine (pushEntry_edit h hse hp clear ?_ hends).mono fun _ hr => hr.2
  intro x hx hl
  have hnot := List.find?_eq_none.mp hnone x hx
  rw [adjoins_iff hends (placed_entry h clear hx) (placed_range hse hp)] at hnot
  have := not_and.mp hnot hl
  omega

/-- One descriptor touches the range and takes it in; `absorb` is the grown descriptor. -/
theorem addRange_absorb (h : s.Sound) (hse : start ≤ last) (hp : PageRange start last)
    (clear : ∀ x ∈ s.memoryMap, x.last < start ∨ last < x.start)
    (hends : (s.view.put start last (t, attr)).EndsApart) {e : MapEntry}
    (he : e ∈ s.memoryMap) (hl : e.label = (t, attr))
    (hadj : e.last + 1 = start ∨ last + 1 = e.start) :
    let e' := absorb e start last
    MapSpans (replace MapEntry.home s.memoryMap e') ∧
      Mem.view (replace MapEntry.home s.memoryMap e') = s.view.put start last (t, attr) ∧
      PageRange e'.start e'.last ∧ e'.home = e.home ∧ e'.label = e.label ∧
      e'.start ≤ e.start ∧ e.last ≤ e'.last ∧
      ∀ x ∈ s.memoryMap, x.home ≠ e'.home → x.last < e'.start ∨ e'.last < x.start := by
  have hpe := h.map.pages e he
  have hne := h.map.spans.nonempty e he
  have hplaced : Placed (s.view.put start last (t, attr)) e.start e.last e.attr :=
    placed_entry h clear he
  rw [show e.attr = attr from congrArg Prod.snd hl] at hplaced
  obtain ⟨hk, hl', hcase⟩ := absorb_spec hends hplaced (placed_range hse hp) hadj
  set e' := absorb e start last
  have hclear : ∀ x ∈ s.memoryMap, x.home ≠ e'.home → x.last < e'.start ∨ e'.last < x.start := by
    intro x hx hxe
    have := h.map.spans.apart x hx e he (hk ▸ hxe)
    have := h.map.spans.nonempty x hx
    have := clear x hx
    omega
  have hle : e'.start ≤ e'.last := by omega
  have hspans := h.map.spans.replace hle hclear
  refine ⟨hspans, ?_, ?_, hk, hl', by omega, by omega, hclear⟩
  · rw [← hl]
    refine view_grow h.map.spans he hk hl' ?_ hspans
    intro a
    omega
  · rcases hcase with ⟨_, h1, h2⟩ | ⟨_, h1, h2⟩ <;> rw [h1, h2]
    · exact ⟨hpe.start_aligned, hp.last_aligned, hp.lt⟩
    · exact ⟨hp.start_aligned, hpe.last_aligned, hpe.lt⟩

end AddRange

/-- `AddRange` puts the range into the view; freeing the descriptor that a double merge leaves
    over comes after that. -/
theorem addRange_adds (convert : Convert A) {s : MemState A} (h : s.Sound) {t : MemoryType}
    {start last : Nat} {attr : BitVec 64} (hse : start ≤ last) (hp : PageRange start last)
    (hfree : ∀ a, start ≤ a → a ≤ last → s.view a = none)
    (hends : (s.view.put start last (t, attr)).EndsApart) :
    Ensures (s.addRange convert t start last attr) fun s' =>
      ∃ s1, Edit s (s.view.put start last (t, attr)) s1 ∧ Removes convert s s1 s' := by
  have hkey : s.bumpKey.Sound := ⟨h.map, h.ends, h.slots⟩
  have clear : ∀ x ∈ s.memoryMap, x.last < start ∨ last < x.start :=
    clear_of_view_none h.map.spans hfree hse
  rw [addRange]
  dsimp only
  split
  · rename_i e hfind
    have he : e ∈ s.memoryMap := List.mem_of_find?_eq_some hfind
    have hfound := List.find?_some hfind
    obtain ⟨hl, hadj⟩ := (adjoins_iff hends (placed_entry h clear he) (placed_range hse hp)).mp hfound
    obtain ⟨hspans, hview, hpages, hk, hl', hs', ht', hclear⟩ :=
      addRange_absorb h hse hp clear hends he hl hadj
    have hplace : Placed (s.view.put start last (t, attr)) e.start e.last e.attr :=
      placed_entry h clear he
    rw [show e.attr = attr from congrArg Prod.snd hl] at hplace
    obtain ⟨-, -, hcase⟩ := absorb_spec hends hplace (placed_range hse hp) hadj
    set e' := absorb e start last
    have hne := h.map.spans.nonempty e he
    have hle' : e'.start ≤ e'.last := by omega
    -- every descriptor of the edited list is placed in the new view
    have hplaced : ∀ x ∈ replace MapEntry.home s.memoryMap e',
        Placed (s.view.put start last (t, attr)) x.start x.last x.attr := by
      intro x hx
      refine ⟨?_, hspans.nonempty x hx, ?_⟩
      · rcases mem_replace.mp hx with ⟨hx, _⟩ | ⟨rfl, _⟩
        · exact h.map.pages x hx
        · exact hpages
      · intro a h1 h2
        rw [← hview, View.attrs, view_of_mem hspans hx ⟨h1, h2⟩]
        rfl
    have hmem' : e' ∈ replace MapEntry.home s.memoryMap e' :=
      mem_replace.mpr (.inr ⟨rfl, e, he, hk.symm⟩)
    split
    · rename_i e1 hfind1
      have he1' : e1 ∈ replace MapEntry.home s.memoryMap e' := List.mem_of_find?_eq_some hfind1
      have hfound1 := List.find?_some hfind1
      obtain ⟨hl1, hadj1⟩ := (adjoins_iff hends (hplaced e1 he1') (hplaced e' hmem')).mp hfound1
      -- the second descriptor is not the grown one itself
      have hk1 : e1.home ≠ e'.home := by
        intro hk1
        rw [hspans.eq_of_key he1' hmem' hk1] at hadj1
        omega
      have he1 : e1 ∈ s.memoryMap := by
        rcases mem_replace.mp he1' with ⟨h, _⟩ | ⟨h, _⟩
        · exact h
        · exact absurd (h ▸ rfl) hk1
      have hplace1 := hplaced e1 he1'
      rw [show e1.attr = e'.attr from congrArg Prod.snd hl1] at hplace1
      obtain ⟨hk2, hl2, hcase2⟩ := absorbEntry_spec hends hplace1 (hplaced e' hmem') hadj1
      set e2 := absorbEntry e1 e'
      have hlabel1 : e1.label = (t, attr) := by
        rw [hl1, ← hl, ← hl', MapEntry.label]
      have hlist : (replace MapEntry.home (replace MapEntry.home s.memoryMap e') e2).filter
          (·.home ≠ e'.home) = replace MapEntry.home (s.memoryMap.filter (·.home ≠ e.home)) e2 := by
        rw [filter_replace_comm MapEntry.home _ (by rw [hk2]; exact hk1),
          filter_replace MapEntry.home, hk]
      have hm2 : WellFormed (s.memoryMap.filter (·.home ≠ e.home)) := h.map.unlink e.home
      have hmem2 : ∀ x ∈ s.memoryMap.filter (·.home ≠ e.home), x ∈ s.memoryMap ∧ x.home ≠ e.home := by
        intro x hx
        simpa using hx
      have he1m2 : e1 ∈ s.memoryMap.filter (·.home ≠ e.home) := by
        simpa using ⟨he1, hk ▸ hk1⟩
      have hp1 := h.map.pages e1 he1
      have hne1 := h.map.spans.nonempty e1 he1
      have hco := h.map.coalesced e he e1 he1 (hl.trans hlabel1.symm)
      have hco1 := h.map.coalesced e1 he1 e he (hlabel1.trans hl.symm)
      have hclear2 : ∀ x ∈ s.memoryMap.filter (·.home ≠ e.home), x.home ≠ e2.home →
          x.last < e2.start ∨ e2.last < x.start := by
        intro x hx hxk
        obtain ⟨hx, hxe⟩ := hmem2 x hx
        have := h.map.spans.apart x hx e1 he1 (hk2 ▸ hxk)
        have := h.map.spans.nonempty x hx
        have := hclear x hx (hk ▸ hxe)
        omega
      have hwf : WellFormed (replace MapEntry.home (s.memoryMap.filter (·.home ≠ e.home)) e2) := by
        refine hm2.grow he1m2 hk2 (by omega) (by omega) ?_ hclear2 ?_
        · rcases hcase2 with ⟨_, h1, h2⟩ | ⟨_, h1, h2⟩ <;> rw [h1, h2]
          · exact ⟨hpages.start_aligned, hp1.last_aligned, hp1.lt⟩
          · exact ⟨hp1.start_aligned, hpages.last_aligned, hpages.lt⟩
        · -- its ends are ends of descriptors that could not be merged before
          intro x hx hxk hxl
          obtain ⟨hx, hxe⟩ := hmem2 x hx
          have hxl' : x.label = (t, attr) := by rw [hxl, hl2, hlabel1]
          have := h.map.coalesced x hx e he (hxl'.trans hl.symm)
          have := h.map.coalesced e he x hx (hl.trans hxl'.symm)
          have := h.map.coalesced x hx e1 he1 (hxl'.trans hlabel1.symm)
          have := h.map.coalesced e1 he1 x hx (hlabel1.trans hxl'.symm)
          omega
      have hview2 : Mem.view (replace MapEntry.home (s.memoryMap.filter (·.home ≠ e.home)) e2) =
          s.view.put start last (t, attr) := by
        rw [view_replace hm2.spans he1m2 hk2 hwf.spans, view_unlink h.map.spans he, hl2, hlabel1]
        funext a
        simp only [View.put, View.erase]
        by_cases ha : start ≤ a ∧ a ≤ last
        · rw [if_pos (by omega), if_pos ha]
        · rw [if_neg ha]
          by_cases ha2 : e2.start ≤ a ∧ a ≤ e2.last
          · rw [if_pos ha2]
            by_cases hae : e.start ≤ a ∧ a ≤ e.last
            · rw [MemState.view, view_of_mem h.map.spans he hae, hl]
            · rw [MemState.view, view_of_mem h.map.spans he1 (by omega), hlabel1]
          · rw [if_neg ha2, if_neg (by omega), if_neg (by omega)]
      refine (removeMemoryMapEntry_removes convert he hk.symm _).mono fun s' hs' => ⟨_, ?_, hs'⟩
      have hedit : Edit s (s.view.put start last (t, attr))
          { s with memoryMap := replace MapEntry.home (s.memoryMap.filter (·.home ≠ e.home)) e2 } := by
        refine h.edit hwf hview2 hends fun x hx => ?_
        obtain ⟨y, hy, hxy⟩ := homes_replace x hx
        exact ⟨y, List.mem_of_mem_filter hy, hxy⟩
      have hstate : ((s.bumpKey.setEntry e').setEntry e2).unlink e'.home =
          { s.bumpKey with
            memoryMap := replace MapEntry.home (s.memoryMap.filter (·.home ≠ e.home)) e2 } := by
        rw [← hlist]
        rfl
      rw [hstate]
      exact ⟨⟨hedit.sound.map, hedit.sound.ends, hedit.sound.slots⟩, hedit.view, hedit.homes, rfl⟩
    · rename_i hnone
      refine .pure ⟨_, ?_, .inl rfl⟩
      have hwf : WellFormed (replace MapEntry.home s.memoryMap e') := by
        refine h.map.grow he hk hs' ht' hpages hclear ?_
        intro x hx hxk hxl
        have hx' : x ∈ replace MapEntry.home s.memoryMap e' := mem_replace.mpr (.inl ⟨hx, hxk⟩)
        have hnot := List.find?_eq_none.mp hnone x hx'
        rw [adjoins_iff hends (hplaced x hx') (hplaced e' hmem')] at hnot
        have := not_and.mp hnot hxl
        omega
      have hedit := h.edit hwf hview hends homes_replace
      exact ⟨⟨hedit.sound.map, hedit.sound.ends, hedit.sound.slots⟩, hedit.view, hedit.homes, rfl⟩
  · rename_i hnone
    exact (addRange_push hkey hse hp clear hends hnone).bind fun r hr =>
      .pure ⟨r.2, hr.of_bumpKey, .inl rfl⟩

end MemState

end EfiCore.Mem
