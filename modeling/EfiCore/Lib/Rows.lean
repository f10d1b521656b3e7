import Mathlib.Tactic.Ring

/-! # Rectangles in a memory

Rows of equal length at equal distances. One row after the other is written, and in the end the
rectangle holds what its source gave for each row and column.
-/

namespace EfiCore.Lib

universe u

variable {α : Type u} {m m₁ m' : Nat → α} {pos stride len rows : Nat} {source : Nat → Nat → α}

/-- The rectangle with its first byte at `pos` holds what `source` gives for a row and a column,
and nothing else has changed. -/
structure RowsWritten (m m' : Nat → α) (pos stride len rows : Nat) (source : Nat → Nat → α) :
    Prop where
  inside : ∀ r < rows, ∀ j < len, m' (pos + r * stride + j) = source r j
  outside : ∀ k, (∀ r < rows, ∀ j < len, k ≠ pos + r * stride + j) → m' k = m k

theorem next_row (pos stride r : Nat) : pos + stride + r * stride = pos + (r + 1) * stride := by
  ring

/-- One row written. -/
structure RowWritten (m m' : Nat → α) (pos len : Nat) (source : Nat → α) : Prop where
  inside : ∀ j < len, m' (pos + j) = source j
  outside : ∀ k, (∀ j < len, k ≠ pos + j) → m' k = m k

/-- The memory with one row written. -/
def writeRow (m : Nat → α) (pos len : Nat) (source : Nat → α) : Nat → α := fun k =>
  if pos ≤ k ∧ k < pos + len then source (k - pos) else m k

theorem writeRow_written (m : Nat → α) (pos len : Nat) (source : Nat → α) :
    RowWritten m (writeRow m pos len source) pos len source where
  inside j hj := by rw [writeRow, if_pos (by omega), Nat.add_sub_cancel_left]
  outside k hk := by
    rw [writeRow, if_neg]
    rintro ⟨hle, hlt⟩
    exact hk (k - pos) (by omega) (by omega)

theorem RowWritten.unchanged {k n : Nat} {source : Nat → α} (h : RowWritten m m' pos len source)
    (hout : k + n ≤ pos ∨ pos + len ≤ k) {j : Nat} (hj : j < n) : m' (k + j) = m (k + j) :=
  h.outside _ fun i hi => by omega

/-- A row in two parts, the first of which is written first. -/
theorem RowWritten.append {n : Nat} {source : Nat → α} (hfirst : RowWritten m m₁ pos n source)
    (hrest : RowWritten m₁ m' (pos + n) len fun j => source (n + j)) :
    RowWritten m m' pos (n + len) source where
  inside j hj := by
    by_cases hlt : j < n
    · rw [hrest.outside _ fun i hi => by omega, hfirst.inside j hlt]
    · have hin := hrest.inside (j - n) (by omega)
      have hpos : pos + n + (j - n) = pos + j := by omega
      have hsource : n + (j - n) = j := by omega
      rwa [hpos, hsource] at hin
  outside k hk := by
    rw [hrest.outside, hfirst.outside]
    · exact fun j hj => hk j (by omega)
    · intro j hj
      have := hk (n + j) (by omega)
      omega

namespace RowsWritten

theorem zero (m : Nat → α) (pos stride len : Nat) (source : Nat → Nat → α) :
    RowsWritten m m pos stride len 0 source where
  inside r hr := absurd hr (Nat.not_lt_zero r)
  outside _ _ := rfl

/-- The first row and then the others, which lie behind it. -/
theorem cons (hfirst : RowWritten m m₁ pos len (source 0))
    (hrest : RowsWritten m₁ m' (pos + stride) stride len rows fun r => source (r + 1))
    (hlen : len ≤ stride ∨ rows = 0) : RowsWritten m m' pos stride len (rows + 1) source where
  inside r hr j hj := by
    cases r with
    | zero =>
      have hout : m' (pos + j) = m₁ (pos + j) := by
        apply hrest.outside
        intro r hr i hi
        have hle : len ≤ stride := hlen.resolve_right (by omega)
        have : 0 ≤ r * stride := Nat.zero_le _
        omega
      rw [Nat.zero_mul, Nat.add_zero, hout]
      exact hfirst.inside j hj
    | succ r =>
      have hin := hrest.inside r (by omega) j hj
      rwa [← next_row]
  outside k hk := by
    rw [hrest.outside k, hfirst.outside k]
    · intro j hj
      have := hk 0 (Nat.succ_pos rows) j hj
      omega
    · intro r hr j hj
      have := hk (r + 1) (by omega) j hj
      rw [← next_row] at this
      omega

theorem congr {source' : Nat → Nat → α} (h : RowsWritten m m' pos stride len rows source)
    (hsource : ∀ r < rows, ∀ j < len, source r j = source' r j) :
    RowsWritten m m' pos stride len rows source' where
  inside r hr j hj := by rw [h.inside r hr j hj, hsource r hr j hj]
  outside := h.outside

end RowsWritten

/-- No row of the source but the first is touched by the first row of the destination, and so
on: a copy from the first row to the last takes every row as it was. -/
def RowsClear (pos spos stride len rows : Nat) : Prop :=
  ∀ r, 0 < r → r < rows → pos + len ≤ spos + r * stride ∨ spos + r * stride + len ≤ pos

theorem RowsClear.tail {spos : Nat} (h : RowsClear pos spos stride len (rows + 1)) :
    RowsClear (pos + stride) (spos + stride) stride len rows := by
  intro r hr hlt
  have := h r hr (by omega)
  omega

/-- The same for the columns of a screen with `width` bytes in a row. -/
theorem rows_disjoint {width x y x' y' : Nat} (hx : x + len ≤ width) (hx' : x' + len ≤ width)
    (h : y ≠ y' ∨ x + len ≤ x' ∨ x' + len ≤ x) :
    y * width + x + len ≤ y' * width + x' ∨ y' * width + x' + len ≤ y * width + x := by
  rcases Nat.lt_trichotomy y y' with hlt | heq | hgt
  · have hmul : (y + 1) * width ≤ y' * width := Nat.mul_le_mul_right width hlt
    rw [Nat.add_mul, Nat.one_mul] at hmul
    omega
  · subst heq
    omega
  · have hmul : (y' + 1) * width ≤ y * width := Nat.mul_le_mul_right width hgt
    rw [Nat.add_mul, Nat.one_mul] at hmul
    omega

end EfiCore.Lib
