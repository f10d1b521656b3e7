import EfiCore.Mem.Page

/-! # Well-formed memory maps

What the map says about an address is its `view`: the type and attribute of the descriptor
that covers it.  `WellFormed` is what holds of the list at every point where the code may
re-enter itself: disjoint descriptors on page boundaries, none of which could be merged with
another, and the ones in pool sorted.  The edits of the list are `erase` and `put` on its view.
-/

namespace EfiCore.Mem

open EfiCore.Lib

/-- What descriptors are merged by. -/
abbrev Label := MemoryType × BitVec 64

def MapEntry.label (e : MapEntry) : Label := (e.type, e.attr)

/-- The type and attribute the map gives each address. -/
abbrev View := Nat → Option Label

namespace View

/-- Nothing is said about `[start, last]` any more. -/
def erase (v : View) (start last : Nat) : View :=
  fun a => if start ≤ a ∧ a ≤ last then none else v a

/-- `[start, last]` gets the label `l`. -/
def put (v : View) (start last : Nat) (l : Label) : View :=
  fun a => if start ≤ a ∧ a ≤ last then some l else v a

/-- The attributes alone. -/
def attrs (v : View) : Nat → Option (BitVec 64) := fun a => (v a).map Prod.snd

/-- The first and the last address are not both covered with one attribute, so no two
    descriptors can be merged around the end of the address space. -/
def EndsApart (v : View) : Prop :=
  ∀ attr, v.attrs 0 = some attr → v.attrs (2 ^ 64 - 1) ≠ some attr

/-- Ranges with one attribute do not touch around the end of the address space. -/
theorem EndsApart.touch {v : View} (h : v.EndsApart) {last start : Nat} {attr : BitVec 64}
    (hlt : last < 2 ^ 64) (hst : start < 2 ^ 64) (hl : v.attrs last = some attr)
    (hs : v.attrs start = some attr) : (last + 1) % 2 ^ 64 = start ↔ last + 1 = start := by
  by_cases hend : last = 2 ^ 64 - 1
  · have : start ≠ 0 := fun h0 => h attr (h0 ▸ hs) (hend ▸ hl)
    omega
  · rw [Nat.mod_eq_of_lt (by omega)]

theorem EndsApart.erase {v : View} (h : v.EndsApart) (start last : Nat) :
    (v.erase start last).EndsApart := by
  have key : ∀ a attr, (v.erase start last).attrs a = some attr → v.attrs a = some attr := by
    intro a attr ha
    rw [attrs, View.erase] at ha
    split at ha
    · cases ha
    · exact ha
  exact fun attr h0 h1 => h attr (key _ _ h0) (key _ _ h1)

theorem EndsApart.of_attrs {v v' : View} (h : v.EndsApart) (ha : v'.attrs = v.attrs) :
    v'.EndsApart := by
  rw [EndsApart, ha]
  exact h

/-- Taking a range out and putting it back with its attribute. -/
theorem attrs_put_erase {v v' : View} {start last : Nat} {t : MemoryType} {attr : BitVec 64}
    (hv : ∀ a, start ≤ a → a ≤ last → v.attrs a = some attr)
    (ha : v'.attrs = (v.erase start last).attrs) : (v'.put start last (t, attr)).attrs = v.attrs := by
  funext a
  by_cases hin : start ≤ a ∧ a ≤ last
  · rw [hv a hin.1 hin.2, attrs, put, if_pos hin]
    rfl
  · have := congrFun ha a
    rw [attrs, put, if_neg hin]
    rw [attrs, attrs, erase, if_neg hin] at this
    exact this

end View

/-- The descriptors are spans of the address space. -/
abbrev MapSpans (m : List MapEntry) : Prop := Spans MapEntry.home MapEntry.start MapEntry.last m

def view (m : List MapEntry) : View :=
  fun a => (occupant MapEntry.start MapEntry.last m a).map MapEntry.label

/-- The ends of a range are on page boundaries and in the address space. -/
structure PageRange (start last : Nat) : Prop where
  start_aligned : start % 4096 = 0
  last_aligned : (last + 1) % 4096 = 0
  lt : last < 2 ^ 64

structure WellFormed (m : List MapEntry) : Prop where
  spans : MapSpans m
  pages : ∀ e ∈ m, PageRange e.start e.last
  coalesced : ∀ a ∈ m, ∀ b ∈ m, a.label = b.label → a.last + 1 ≠ b.start
  sorted : InOrder MapEntry.fromPool MapEntry.start m

theorem PageRange.start_lt {start last : Nat} (h : PageRange start last) (hle : start ≤ last) :
    start < last := by
  have := h.start_aligned
  have := h.last_aligned
  omega

theorem view_eq_some_iff {m : List MapEntry} (h : MapSpans m) {a : Nat} {l : Label} :
    view m a = some l ↔ ∃ e ∈ m, (e.start ≤ a ∧ a ≤ e.last) ∧ e.label = l := by
  simp only [view, Option.map_eq_some_iff, h.occupant_eq_some_iff]
  constructor
  · rintro ⟨e, ⟨he, hc⟩, hl⟩
    exact ⟨e, he, hc, hl⟩
  · rintro ⟨e, he, hc, hl⟩
    exact ⟨e, ⟨he, hc⟩, hl⟩

theorem view_of_mem {m : List MapEntry} (h : MapSpans m) {e : MapEntry} (he : e ∈ m) {a : Nat}
    (ha : e.start ≤ a ∧ a ≤ e.last) : view m a = some e.label :=
  (view_eq_some_iff h).mpr ⟨e, he, ha, rfl⟩

theorem clear_of_view_none {m : List MapEntry} (h : MapSpans m) {start last : Nat}
    (hv : ∀ a, start ≤ a → a ≤ last → view m a = none) (hle : start ≤ last) :
    ∀ e ∈ m, e.last < start ∨ last < e.start := by
  intro e he
  have hne := h.nonempty e he
  by_contra hcon
  have hmax : max start e.start ≤ last ∧ max start e.start ≤ e.last := by omega
  have := hv (max start e.start) (by omega) hmax.1
  rw [view_of_mem h he ⟨by omega, hmax.2⟩] at this
  cases this

/-! ## Single edits and their views -/

theorem view_unlink {m : List MapEntry} (h : MapSpans m) {e : MapEntry} (he : e ∈ m) :
    view (m.filter (·.home ≠ e.home)) = (view m).erase e.start e.last := by
  funext a
  apply Option.ext
  intro l
  rw [view_eq_some_iff (h.filter _), View.erase]
  by_cases ha : e.start ≤ a ∧ a ≤ e.last
  · rw [if_pos ha]
    constructor
    · rintro ⟨x, hx, hxa, _⟩
      have hxm := List.mem_of_mem_filter hx
      rw [h.eq_of_occupies hxm he hxa ha] at hx
      simp at hx
    · rintro ⟨⟩
  · rw [if_neg ha, view_eq_some_iff h]
    constructor
    · rintro ⟨x, hx, hxa⟩
      exact ⟨x, List.mem_of_mem_filter hx, hxa⟩
    · rintro ⟨x, hx, hxa, hl⟩
      refine ⟨x, ?_, hxa, hl⟩
      have hne : x.home ≠ e.home := by
        intro hk
        rw [h.eq_of_key hx he hk] at hxa
        exact ha hxa
      simp [hx, hne]

theorem view_replace {m : List MapEntry} (h : MapSpans m) {e e' : MapEntry} (he : e ∈ m)
    (hk : e'.home = e.home) (h' : MapSpans (replace MapEntry.home m e')) :
    view (replace MapEntry.home m e') =
      ((view m).erase e.start e.last).put e'.start e'.last e'.label := by
  have hmem : e' ∈ replace MapEntry.home m e' := mem_replace.mpr (.inr ⟨rfl, e, he, hk.symm⟩)
  funext a
  rw [View.put]
  by_cases ha' : e'.start ≤ a ∧ a ≤ e'.last
  · rw [if_pos ha', view_of_mem h' hmem ha']
  · rw [if_neg ha', ← view_unlink h he]
    apply Option.ext
    intro l
    rw [view_eq_some_iff h', view_eq_some_iff (h.filter _)]
    constructor
    · rintro ⟨x, hx, hxa, hl⟩
      rcases mem_replace.mp hx with ⟨hx, hne⟩ | ⟨rfl, _⟩
      · refine ⟨x, ?_, hxa, hl⟩
        simp [hx, show x.home ≠ e.home from hk ▸ hne]
      · exact absurd hxa ha'
    · rintro ⟨x, hx, hxa⟩
      simp only [List.mem_filter, decide_eq_true_eq] at hx
      exact ⟨x, mem_replace.mpr (.inl ⟨hx.1, hk ▸ hx.2⟩), hxa⟩

theorem view_permute {m m' : List MapEntry} (h : MapSpans m) (hp : m'.Perm m) :
    view m' = view m := by
  funext a
  apply Option.ext
  intro l
  rw [view_eq_some_iff (h.permute hp), view_eq_some_iff h]
  constructor
  · rintro ⟨x, hx, hxa⟩
    exact ⟨x, hp.mem_iff.mp hx, hxa⟩
  · rintro ⟨x, hx, hxa⟩
    exact ⟨x, hp.mem_iff.mpr hx, hxa⟩

theorem view_cons {m : List MapEntry} {e : MapEntry} (h' : MapSpans (e :: m)) :
    view (e :: m) = (view m).put e.start e.last e.label := by
  funext a
  rw [View.put]
  by_cases ha : e.start ≤ a ∧ a ≤ e.last
  · rw [if_pos ha, view_of_mem h' List.mem_cons_self ha]
  · rw [if_neg ha, view, view, occupant, List.find?_cons_of_neg (by simpa using ha), occupant]

/-- A descriptor that is clipped gives up the addresses it no longer covers. -/
theorem view_shrink {m : List MapEntry} (h : MapSpans m) {e e' : MapEntry} (he : e ∈ m)
    (hk : e'.home = e.home) (hl : e'.label = e.label) (hs : e.start ≤ e'.start)
    (ht : e'.last ≤ e.last) (h' : MapSpans (replace MapEntry.home m e')) (a : Nat) :
    view (replace MapEntry.home m e') a =
      if (e.start ≤ a ∧ a ≤ e.last) ∧ ¬ (e'.start ≤ a ∧ a ≤ e'.last) then none
      else view m a := by
  rw [view_replace h he hk h', View.put, View.erase]
  by_cases ha' : e'.start ≤ a ∧ a ≤ e'.last
  · rw [if_pos ha', if_neg (by tauto), view_of_mem h he (by omega), hl]
  · by_cases ha : e.start ≤ a ∧ a ≤ e.last
    · rw [if_neg ha', if_pos ha, if_pos ⟨ha, ha'⟩]
    · rw [if_neg ha', if_neg ha, if_neg (by tauto)]

/-- A descriptor that grows by `[start, last]` covers that range as well. -/
theorem view_grow {m : List MapEntry} (h : MapSpans m) {e e' : MapEntry} (he : e ∈ m)
    (hk : e'.home = e.home) (hl : e'.label = e.label) {start last : Nat}
    (hrange : ∀ a, (e'.start ≤ a ∧ a ≤ e'.last) ↔
      (e.start ≤ a ∧ a ≤ e.last) ∨ (start ≤ a ∧ a ≤ last))
    (h' : MapSpans (replace MapEntry.home m e')) :
    view (replace MapEntry.home m e') = (view m).put start last e.label := by
  funext a
  rw [view_replace h he hk h', View.put, View.put, View.erase, hl]
  by_cases ha : start ≤ a ∧ a ≤ last
  · rw [if_pos ((hrange a).mpr (.inr ha)), if_pos ha]
  · rw [if_neg ha]
    by_cases hae : e.start ≤ a ∧ a ≤ e.last
    · rw [if_pos ((hrange a).mpr (.inl hae)), view_of_mem h he hae]
    · rw [if_neg (by rw [hrange]; tauto), if_neg hae]

/-! ## Edits of a well-formed map -/

namespace WellFormed

variable {m : List MapEntry}

theorem unlink (h : WellFormed m) (home : Home) : WellFormed (m.filter (·.home ≠ home)) where
  spans := h.spans.filter _
  pages e he := h.pages e (List.mem_of_mem_filter he)
  coalesced a ha b hb :=
    h.coalesced a (List.mem_of_mem_filter ha) b (List.mem_of_mem_filter hb)
  sorted := h.sorted.filter _

/-- A descriptor may be clipped. -/
theorem shrink (h : WellFormed m) {e e' : MapEntry} (he : e ∈ m) (hk : e'.home = e.home)
    (hl : e'.label = e.label) (hs : e.start ≤ e'.start) (hle : e'.start ≤ e'.last)
    (ht : e'.last ≤ e.last) (hp : PageRange e'.start e'.last) :
    WellFormed (replace MapEntry.home m e') := by
  have clear : ∀ x ∈ m, x.home ≠ e'.home → x.last < e'.start ∨ e'.last < x.start := by
    intro x hx hne
    have := h.spans.apart x hx e he (hk ▸ hne)
    omega
  refine ⟨h.spans.replace hle clear, ?_, ?_, ?_⟩
  · intro x hx
    rcases mem_replace.mp hx with ⟨hx, _⟩ | ⟨rfl, _⟩
    · exact h.pages x hx
    · exact hp
  · intro a ha b hb hab
    rcases mem_replace.mp ha with ⟨ha', hka⟩ | ⟨rfl, _⟩ <;>
      rcases mem_replace.mp hb with ⟨hb', hkb⟩ | ⟨rfl, _⟩
    · exact h.coalesced a ha' b hb' hab
    · have := h.coalesced a ha' e he (hab.trans hl)
      have := h.spans.apart a ha' e he (hk ▸ hka)
      have := h.spans.nonempty a ha'
      omega
    · have := h.coalesced e he b hb' (hl.symm.trans hab)
      have := h.spans.apart e he b hb' (hk ▸ Ne.symm hkb)
      have := h.spans.nonempty b hb'
      omega
    · omega
  · have hpool : e'.fromPool = e.fromPool := by rw [MapEntry.fromPool, MapEntry.fromPool, hk]
    exact h.sorted.replace h.spans he hk.symm hpool ⟨hs, by omega⟩ ⟨le_refl _, hle⟩ clear

/-- A descriptor may grow into free room, as long as it stays unmergeable. -/
theorem grow (h : WellFormed m) {e e' : MapEntry} (he : e ∈ m) (hk : e'.home = e.home)
    (hs : e'.start ≤ e.start) (ht : e.last ≤ e'.last) (hp : PageRange e'.start e'.last)
    (clear : ∀ x ∈ m, x.home ≠ e'.home → x.last < e'.start ∨ e'.last < x.start)
    (single : ∀ x ∈ m, x.home ≠ e'.home → x.label = e'.label →
      x.last + 1 ≠ e'.start ∧ e'.last + 1 ≠ x.start) :
    WellFormed (replace MapEntry.home m e') := by
  have hne := h.spans.nonempty e he
  have hle : e'.start ≤ e'.last := by omega
  refine ⟨h.spans.replace hle clear, ?_, ?_, ?_⟩
  · intro x hx
    rcases mem_replace.mp hx with ⟨hx, _⟩ | ⟨rfl, _⟩
    · exact h.pages x hx
    · exact hp
  · intro a ha b hb hab
    rcases mem_replace.mp ha with ⟨ha', hka⟩ | ⟨rfl, _⟩ <;>
      rcases mem_replace.mp hb with ⟨hb', hkb⟩ | ⟨rfl, _⟩
    · exact h.coalesced a ha' b hb' hab
    · exact (single a ha' hka hab).1
    · exact (single b hb' hkb hab.symm).2
    · omega
  · have hpool : e'.fromPool = e.fromPool := by rw [MapEntry.fromPool, MapEntry.fromPool, hk]
    exact h.sorted.replace h.spans he hk.symm hpool ⟨le_refl _, hne⟩ ⟨hs, by omega⟩ clear

/-- A descriptor on `MapStack` may be added at the end. -/
theorem append (h : WellFormed m) {e : MapEntry} (hpool : e.fromPool = false)
    (fresh : ∀ x ∈ m, x.home ≠ e.home) (hle : e.start ≤ e.last) (hp : PageRange e.start e.last)
    (clear : ∀ x ∈ m, x.last < e.start ∨ e.last < x.start)
    (single : ∀ x ∈ m, x.label = e.label → x.last + 1 ≠ e.start ∧ e.last + 1 ≠ x.start) :
    WellFormed (m ++ [e]) := by
  have hperm : (m ++ [e]).Perm (e :: m) := List.perm_append_singleton e m
  refine ⟨(h.spans.cons fresh hle clear).permute hperm, ?_, ?_, h.sorted.append hpool⟩
  · intro x hx
    rcases List.mem_cons.mp (hperm.mem_iff.mp hx) with rfl | hx
    · exact hp
    · exact h.pages x hx
  · intro a ha b hb hab
    rcases List.mem_cons.mp (hperm.mem_iff.mp ha) with rfl | ha' <;>
      rcases List.mem_cons.mp (hperm.mem_iff.mp hb) with rfl | hb'
    · omega
    · exact (single b hb' hab.symm).2
    · exact (single a ha' hab).1
    · exact h.coalesced a ha' b hb' hab

/-- A descriptor may move to pool, sorted in there. -/
theorem move (h : WellFormed m) {e : MapEntry} (he : e ∈ m) {buffer : Addr}
    (fresh : ∀ x ∈ m, x.home ≠ .pool buffer) :
    WellFormed (insertInOrder MapEntry.fromPool MapEntry.start (m.filter (·.home ≠ e.home))
      { e with home := .pool buffer }) ∧
    view (insertInOrder MapEntry.fromPool MapEntry.start (m.filter (·.home ≠ e.home))
      { e with home := .pool buffer }) = view m := by
  set e' : MapEntry := { e with home := .pool buffer }
  set m' := m.filter (·.home ≠ e.home)
  have hm' : WellFormed m' := h.unlink e.home
  have hmem : ∀ x ∈ m', x ∈ m ∧ x.home ≠ e.home := by
    intro x hx
    simpa [m'] using hx
  have hne := h.spans.nonempty e he
  have clear : ∀ x ∈ m', x.last < e'.start ∨ e'.last < x.start := by
    intro x hx
    exact h.spans.apart x (hmem x hx).1 e he (hmem x hx).2
  have hcons : MapSpans (e' :: m') :=
    hm'.spans.cons (fun x hx => fresh x (hmem x hx).1) hne clear
  have hperm := perm_insertInOrder MapEntry.fromPool MapEntry.start m' e'
  refine ⟨⟨hcons.permute hperm, ?_, ?_, hm'.sorted.insert ?_⟩, ?_⟩
  · intro x hx
    rcases mem_insertInOrder.mp hx with rfl | hx
    · exact h.pages e he
    · exact hm'.pages x hx
  · -- `e'` has the range and the label of `e`, so it merges with nothing either
    have old : ∀ x ∈ insertInOrder MapEntry.fromPool MapEntry.start m' e', ∃ y ∈ m,
        y.start = x.start ∧ y.last = x.last ∧ y.label = x.label := by
      intro x hx
      rcases mem_insertInOrder.mp hx with rfl | hx
      · exact ⟨e, he, rfl, rfl, rfl⟩
      · exact ⟨x, (hmem x hx).1, rfl, rfl, rfl⟩
    intro a ha b hb hab
    obtain ⟨a', ha', -, hlast, hla⟩ := old a ha
    obtain ⟨b', hb', hstart, -, hlb⟩ := old b hb
    rw [← hlast, ← hstart]
    exact h.coalesced a' ha' b' hb' (hla.trans (hab.trans hlb.symm))
  · intro x hx _
    have := clear x hx
    have := hm'.spans.nonempty x hx
    have : e'.start ≤ e'.last := hne
    omega
  · rw [view_permute hcons hperm, view_cons hcons, view_unlink h.spans he]
    funext a
    rw [View.put, View.erase]
    by_cases ha : e.start ≤ a ∧ a ≤ e.last
    · rw [if_pos (show e'.start ≤ a ∧ a ≤ e'.last from ha), view_of_mem h.spans he ha]
      rfl
    · rw [if_neg (show ¬ (e'.start ≤ a ∧ a ≤ e'.last) from ha), if_neg ha]

end WellFormed

end EfiCore.Mem
