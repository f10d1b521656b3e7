import Mathlib.Data.List.Nodup
import Mathlib.Data.List.TakeWhile
import Mathlib.Order.Lattice

/-! # Insertion into a sorted list

The insertion of an element after all those with a key that is not greater, as a queue ordered by
priorities or times makes it.
-/

namespace EfiCore.Lib

universe u v

variable {α : Type u} {K : Type v} [LinearOrder K] {key key' : α → K} {l : List α} {a : α}

/-- `l` with `a` before the first element that has a greater key. -/
def sortedInsert (key : α → K) (a : α) (l : List α) : List α :=
  l.takeWhile (fun b => ¬ key a < key b) ++ a :: l.dropWhile (fun b => ¬ key a < key b)

/-- The keys ascend. -/
def SortedBy (key : α → K) (l : List α) : Prop := l.Pairwise fun a b => key a ≤ key b

theorem sortedInsert_perm (key : α → K) (a : α) (l : List α) :
    (sortedInsert key a l).Perm (a :: l) := by
  refine List.perm_middle.trans ?_
  rw [List.takeWhile_append_dropWhile]

theorem SortedBy.congr (h : SortedBy key l) (hkey : ∀ b ∈ l, key' b = key b) :
    SortedBy key' l := by
  refine List.Pairwise.imp_of_mem ?_ h
  intro b c hb hc hle
  rwa [hkey b hb, hkey c hc]

theorem SortedBy.head_le {b : α} (h : SortedBy key (a :: l)) (hb : b ∈ l) : key a ≤ key b :=
  List.rel_of_pairwise_cons h hb

/-- The elements from the first one with a greater key on all have greater keys. -/
theorem SortedBy.lt_of_mem_dropWhile (h : SortedBy key l) {b : α}
    (hb : b ∈ l.dropWhile fun b => ¬ key a < key b) : key a < key b := by
  induction l with
  | nil => cases hb
  | cons c l ih =>
    by_cases hc : key a < key c
    · rw [List.dropWhile_cons_of_neg (by simpa using hc)] at hb
      rcases List.mem_cons.mp hb with rfl | hb
      · exact hc
      · exact lt_of_lt_of_le hc (h.head_le hb)
    · rw [List.dropWhile_cons_of_pos (by simpa using hc)] at hb
      exact ih (List.Pairwise.of_cons h) hb

theorem SortedBy.sortedInsert (h : SortedBy key l) (a : α) :
    SortedBy key (sortedInsert key a l) := by
  have hsplit := h
  rw [SortedBy, ← List.takeWhile_append_dropWhile (p := fun b => ¬ key a < key b) (l := l),
    List.pairwise_append] at hsplit
  obtain ⟨htake, hdrop, hcross⟩ := hsplit
  have hle : ∀ b ∈ l.takeWhile (fun b => ¬ key a < key b), key b ≤ key a := by
    intro b hb
    have hnot := List.mem_takeWhile_imp hb
    exact not_lt.mp (by simpa using hnot)
  refine List.pairwise_append.mpr ⟨htake, hdrop.cons fun b hb => le_of_lt (h.lt_of_mem_dropWhile hb), ?_⟩
  intro b hb c hc
  rcases List.mem_cons.mp hc with rfl | hc
  · exact hle b hb
  · exact hcross b hb c hc

end EfiCore.Lib
