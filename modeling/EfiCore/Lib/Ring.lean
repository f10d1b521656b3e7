import Mathlib.Data.List.Basic
import Mathlib.Logic.Function.Basic

/-! # Ring buffers

`n` cells, the index of the first element and the index behind the last one, both below `n`. A
ring never holds `n` elements, as it would look empty then.
-/

namespace EfiCore.Lib

universe u

variable {α : Type u} {n : Nat} {data : Nat → α} {head tail : Nat} {l : List α} {a : α}

theorem mod_once {k : Nat} (h : k < 2 * n) : k % n = if k < n then k else k - n := by
  split
  case isTrue hlt => exact Nat.mod_eq_of_lt hlt
  case isFalse hle => rw [Nat.mod_eq_sub_mod (by omega), Nat.mod_eq_of_lt (by omega)]

/-- The ring holds the elements of `l`, from `head` on. -/
structure RingHolds (n : Nat) (data : Nat → α) (head tail : Nat) (l : List α) : Prop where
  head_lt : head < n
  length_lt : l.length < n
  tail_eq : tail = (head + l.length) % n
  cells : ∀ i a, l[i]? = some a → data ((head + i) % n) = a

namespace RingHolds

theorem empty (data : Nat → α) (h : head < n) : RingHolds n data head head [] where
  head_lt := h
  length_lt := by
    simp only [List.length_nil]
    omega
  tail_eq := by
    rw [List.length_nil, Nat.add_zero, Nat.mod_eq_of_lt h]
  cells i a hi := by simp at hi

theorem tail_lt (h : RingHolds n data head tail l) : tail < n := by
  rw [h.tail_eq]
  exact Nat.mod_lt _ (Nat.lt_of_le_of_lt (Nat.zero_le _) h.head_lt)

theorem head_eq_tail_iff (h : RingHolds n data head tail l) : head = tail ↔ l = [] := by
  have hhead := h.head_lt
  have hlength := h.length_lt
  rw [h.tail_eq, mod_once (by omega)]
  constructor
  · intro heq
    apply List.eq_nil_of_length_eq_zero
    split at heq <;> omega
  · rintro rfl
    simp [hhead]

/-- The cell behind the tail is the head exactly if one more element does not fit. -/
theorem next_eq_head_iff (h : RingHolds n data head tail l) :
    (tail + 1) % n = head ↔ l.length + 1 = n := by
  have hhead := h.head_lt
  have hlength := h.length_lt
  have htail := h.tail_lt
  have heq := h.tail_eq
  rw [mod_once (by omega)] at heq
  rw [mod_once (by omega)]
  split at heq <;> split <;> omega

theorem push (h : RingHolds n data head tail l) (hfits : l.length + 1 < n) (a : α) :
    RingHolds n (Function.update data tail a) head ((tail + 1) % n) (l ++ [a]) where
  head_lt := h.head_lt
  length_lt := by simpa using hfits
  tail_eq := by
    rw [h.tail_eq, List.length_append, List.length_singleton, Nat.mod_add_mod, Nat.add_assoc]
  cells i b hi := by
    have hhead := h.head_lt
    have heq := h.tail_eq
    rw [mod_once (by omega)] at heq
    by_cases hlast : i < l.length
    · rw [List.getElem?_append_left hlast] at hi
      have hne : (head + i) % n ≠ tail := by
        rw [mod_once (by omega)]
        split at heq <;> split <;> omega
      rw [Function.update_of_ne hne]
      exact h.cells i b hi
    · have hi' : i = l.length := by
        obtain ⟨hlt, -⟩ := List.getElem?_eq_some_iff.mp hi
        rw [List.length_append, List.length_singleton] at hlt
        omega
      subst hi'
      rw [List.getElem?_concat_length, Option.some.injEq] at hi
      rw [← h.tail_eq, Function.update_self, hi]

theorem pop (h : RingHolds n data head tail (a :: l)) :
    data head = a ∧ RingHolds n data ((head + 1) % n) tail l := by
  have hhead := h.head_lt
  have hlength := h.length_lt
  rw [List.length_cons] at hlength
  refine ⟨?_, Nat.mod_lt _ (by omega), by omega, ?_, ?_⟩
  · have hcell := h.cells 0 a rfl
    rwa [Nat.add_zero, Nat.mod_eq_of_lt hhead] at hcell
  · rw [h.tail_eq, List.length_cons, Nat.mod_add_mod]
    congr 1
    omega
  · intro i b hi
    have hcell := h.cells (i + 1) b hi
    rw [Nat.mod_add_mod]
    have hsum : head + 1 + i = head + (i + 1) := by omega
    rw [hsum]
    exact hcell

end RingHolds

end EfiCore.Lib
