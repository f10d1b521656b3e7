import Mathlib.Data.List.Nodup

/-! # Linked segments

A table gives for each place the value that is stored there.  The places of a segment are linked:
each one stores the next one, and the last one stores the value behind the segment.
-/

namespace EfiCore.Lib

universe u

variable {α : Type u} {next next' : α → α} {a b b' x y : α} {l l' : List α} {i : Nat}

/-- From the value `a` on there are the places `l`, and behind them the value `b`. -/
def Segment (next : α → α) : α → List α → α → Prop
  | a, [], b => a = b
  | a, x :: l, b => a = x ∧ Segment next (next x) l b

@[simp] theorem segment_nil : Segment next a [] b ↔ a = b := Iff.rfl

@[simp] theorem segment_cons :
    Segment next a (x :: l) b ↔ a = x ∧ Segment next (next x) l b := Iff.rfl

theorem segment_append :
    Segment next a (l ++ l') b ↔ ∃ c, Segment next a l c ∧ Segment next c l' b := by
  induction l generalizing a with
  | nil => simp
  | cons x l ih =>
    rw [List.cons_append, segment_cons, ih]
    constructor
    · exact fun ⟨ha, c, hl, hl'⟩ => ⟨c, ⟨ha, hl⟩, hl'⟩
    · exact fun ⟨c, ⟨ha, hl⟩, hl'⟩ => ⟨ha, c, hl, hl'⟩

theorem segment_snoc :
    Segment next a (l ++ [x]) b ↔ Segment next a l x ∧ next x = b := by
  rw [segment_append]
  constructor
  · exact fun ⟨c, hl, hc, hb⟩ => ⟨hc ▸ hl, hb⟩
  · exact fun ⟨hl, hb⟩ => ⟨x, hl, rfl, hb⟩

/-- A segment only depends on what is stored in its places. -/
theorem Segment.congr (h : Segment next a l b) (hsame : ∀ c ∈ l, next' c = next c) :
    Segment next' a l b := by
  induction l generalizing a with
  | nil => exact h
  | cons x l ih =>
    obtain ⟨ha, hl⟩ := h
    refine ⟨ha, ?_⟩
    rw [hsame x List.mem_cons_self]
    exact ih hl fun c hc => hsame c (List.mem_cons_of_mem x hc)

theorem Segment.head (h : Segment next a l b) (hl : l ≠ []) : l[0]? = some a := by
  cases l with
  | nil => exact absurd rfl hl
  | cons x l => rw [h.1, List.getElem?_cons_zero]

/-- The next place of the segment, or the value behind it. -/
theorem Segment.next_eq (h : Segment next a l b) (hx : l[i]? = some x) :
    l[i + 1]? = some (next x) ∨ l.length = i + 1 ∧ next x = b := by
  induction l generalizing a i with
  | nil => cases hx
  | cons c l ih =>
    obtain ⟨-, hl⟩ := h
    cases i with
    | zero =>
      rw [List.getElem?_cons_zero] at hx
      cases hx
      cases l with
      | nil => exact .inr ⟨rfl, hl⟩
      | cons d l =>
        left
        rw [List.getElem?_cons_succ]
        exact hl.head (List.cons_ne_nil d l)
    | succ i =>
      rw [List.getElem?_cons_succ] at hx
      rcases ih hl hx with hnext | ⟨hlen, hb⟩
      · exact .inl hnext
      · exact .inr ⟨by rw [List.length_cons, hlen], hb⟩

/-- If only the values behind them are at an end, there is just one segment from a value on. -/
theorem Segment.unique {Stop : α → Prop} (h : Segment next a l b) (h' : Segment next a l' b')
    (hb : Stop b) (hb' : Stop b') (hl : ∀ c ∈ l, ¬Stop c) (hl' : ∀ c ∈ l', ¬Stop c) : l = l' := by
  induction l generalizing a l' with
  | nil =>
    cases l' with
    | nil => rfl
    | cons x l' => exact absurd (h'.1 ▸ h ▸ hb) (hl' x List.mem_cons_self)
  | cons x l ih =>
    cases l' with
    | nil => exact absurd (h.1 ▸ h' ▸ hb') (hl x List.mem_cons_self)
    | cons y l' =>
      obtain ⟨rfl, hrest⟩ := h
      obtain ⟨rfl, hrest'⟩ := h'
      rw [ih hrest hrest' (fun c hc => hl c (List.mem_cons_of_mem _ hc))
        fun c hc => hl' c (List.mem_cons_of_mem _ hc)]

/-- A segment that comes to an end has no place twice. -/
theorem Segment.nodup {Stop : α → Prop} (h : Segment next a l b) (hb : Stop b)
    (hl : ∀ c ∈ l, ¬Stop c) : l.Nodup := by
  induction l generalizing a with
  | nil => exact List.nodup_nil
  | cons x l ih =>
    have hl' : ∀ c ∈ l, ¬Stop c := fun c hc => hl c (List.mem_cons_of_mem x hc)
    refine List.nodup_cons.mpr ⟨fun hx => ?_, ih h.2 hl'⟩
    -- the segment from `x` on would be a part of itself
    obtain ⟨p, q, rfl⟩ := List.append_of_mem hx
    obtain ⟨c, -, hrest⟩ := segment_append.mp h.2
    have hself : Segment next x (x :: q) b := ⟨rfl, hrest.2⟩
    have hwhole : Segment next x (x :: (p ++ x :: q)) b := ⟨rfl, h.2⟩
    have heq := hself.unique hwhole hb hb (fun c hc => ?_) hl
    · have hlen := congrArg List.length heq
      simp only [List.length_cons, List.length_append] at hlen
      omega
    · rcases List.mem_cons.mp hc with rfl | hc
      · exact hl c List.mem_cons_self
      · exact hl' c (List.mem_append_right p (List.mem_cons_of_mem x hc))

end EfiCore.Lib
