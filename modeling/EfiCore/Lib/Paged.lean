import EfiCore.Lib.Bytes

/-! # Buffers in pages

The pages of a buffer that are wholly in it, and what writes of a part of a page and of whole
pages do to them.
-/

namespace EfiCore.Lib

variable {α : Type*}

/-- The page `p` of `l`. -/
def page (size : Nat) (l : List α) (p : Nat) : List α := slice l (p * size) size

theorem page_end_le (size : Nat) {p n : Nat} (hp : p < n) : p * size + size ≤ n * size := by
  rw [← Nat.succ_mul]
  exact Nat.mul_le_mul_right size hp

theorem length_page {size p n : Nat} {l : List α} (hl : n * size ≤ l.length) (hp : p < n) :
    (page size l p).length = size :=
  length_slice (Nat.le_trans (page_end_le size hp) hl)

/-- A write within the page. -/
theorem page_splice_within {size p n i : Nat} {l : List α} (bs : List α) (hl : n * size ≤ l.length)
    (hp : p < n) (hin : i + bs.length ≤ size) :
    page size (splice l (p * size + i) bs) p = splice (page size l p) i bs :=
  slice_splice_of_within l bs (p * size) (Nat.le_trans (page_end_le size hp) hl) hin

/-- A write within another page. -/
theorem page_splice_of_ne {size p q n i : Nat} {l : List α} (bs : List α) (hl : n * size ≤ l.length)
    (hp : p < n) (hin : i + bs.length ≤ size) (hne : q ≠ p) :
    page size (splice l (p * size + i) bs) q = page size l q := by
  have hpage := page_end_le size hp
  apply slice_splice_of_disjoint (by omega)
  obtain hlt | hlt := Nat.lt_or_gt_of_ne hne
  · have := page_end_le size hlt
    omega
  · have := page_end_le size hlt
    omega

/-- A page of another buffer in the place of that of `l`. -/
theorem page_splice_page {size p q n : Nat} {l m : List α} (hl : n * size ≤ l.length)
    (hm : n * size ≤ m.length) (hp : p < n) :
    page size (splice l (p * size) (page size m p)) q =
      if q = p then page size m p else page size l q := by
  have hlen := length_page hm hp
  split
  case isTrue hqp =>
    have hwithin := page_splice_within (i := 0) (page size m p) hl hp (by omega)
    rw [Nat.add_zero, splice_all (hlen.trans (length_page hl hp).symm)] at hwithin
    rw [hqp]
    exact hwithin
  case isFalse hne =>
    exact page_splice_of_ne (i := 0) (page size m p) hl hp (by omega) hne

/-- A write of `k` whole pages, seen in a page that is written. -/
theorem page_splice_run {size p k q : Nat} {l bs : List α} (hl : (p + k) * size ≤ l.length)
    (hbs : bs.length = k * size) (hlow : p ≤ q) (hhigh : q < p + k) :
    page size (splice l (p * size) bs) q = page size bs (q - p) := by
  obtain ⟨i, rfl⟩ := Nat.exists_eq_add_of_le hlow
  have hi := page_end_le size (show i < k by omega)
  rw [Nat.add_mul] at hl
  have hfits : p * size + bs.length ≤ l.length := by omega
  rw [page, page, Nat.add_mul, ← slice_slice (n := bs.length) _ (by omega), slice_splice hfits,
    Nat.add_sub_cancel_left]

/-- A write of `k` whole pages, seen in another page. -/
theorem page_splice_of_out {size p k q : Nat} {l bs : List α} (hl : (p + k) * size ≤ l.length)
    (hbs : bs.length = k * size) (hout : q < p ∨ p + k ≤ q) :
    page size (splice l (p * size) bs) q = page size l q := by
  rw [Nat.add_mul] at hl
  apply slice_splice_of_disjoint (by omega)
  obtain hlt | hle := hout
  · exact .inl (page_end_le size hlt)
  · right
    rw [hbs, ← Nat.add_mul]
    exact Nat.mul_le_mul_right size hle

/-- Buffers that agree on a run of pages. -/
theorem slice_eq_of_pages {size p k : Nat} {l m : List α}
    (h : ∀ q, p ≤ q → q < p + k → page size l q = page size m q) :
    slice l (p * size) (k * size) = slice m (p * size) (k * size) := by
  induction k with
  | zero => rw [Nat.zero_mul, slice_zero, slice_zero]
  | succ k ih =>
    have hlast := h (p + k) (Nat.le_add_right p k) (Nat.lt_succ_self _)
    rw [page, page, Nat.add_mul] at hlast
    rw [Nat.succ_mul, slice_append_slice, slice_append_slice, hlast,
      ih fun q hlow hhigh => h q hlow (by omega)]

/-- Buffers that agree on their first `n` pages and behind them. -/
theorem eq_of_pages {size n : Nat} {l m : List α}
    (h : ∀ q < n, page size l q = page size m q) (hrest : l.drop (n * size) = m.drop (n * size)) :
    l = m := by
  have hpages := slice_eq_of_pages (p := 0) (k := n) fun q _ hq => h q (by omega)
  rw [Nat.zero_mul, slice, slice, List.drop_zero, List.drop_zero] at hpages
  rw [← List.take_append_drop (n * size) l, ← List.take_append_drop (n * size) m, hpages, hrest]

end EfiCore.Lib
