import Mathlib.Data.List.Induction
import Mathlib.Data.List.Nodup
import Mathlib.Order.Lattice

/-! # Orders of selection

Selection sort as a relation: each place in turn gets a highest of the elements that are left, in
exchange for its own.  And the first occurrences of the elements of a list, which is what is left
of elements that are collected one by one if they are not there yet.
-/

namespace EfiCore.Lib

universe u v

/-! ## Selection sort -/

section Selects

variable {α : Type u} {K : Type v} [LinearOrder K] {key : α → K}

/-- Selection sort takes the first list to the second. -/
inductive Selects (key : α → K) : List α → List α → Prop
  | nil : Selects key [] []
  | keep {x : α} {rest rest' : List α} : (∀ z ∈ rest, key z ≤ key x) → Selects key rest rest' →
      Selects key (x :: rest) (x :: rest')
  | swap {x y : α} {front back rest' : List α} : (∀ z ∈ x :: (front ++ back), key z ≤ key y) →
      Selects key (front ++ x :: back) rest' → Selects key (x :: (front ++ y :: back)) (y :: rest')

theorem Selects.perm {l l' : List α} (h : Selects key l l') : l'.Perm l := by
  induction h with
  | nil => exact .nil
  | keep _ _ ih => exact ih.cons _
  | @swap x y front back rest' _ _ ih =>
    calc y :: rest'
      _ |>.Perm (y :: (front ++ x :: back)) := ih.cons y
      _ |>.Perm (y :: x :: (front ++ back)) := List.perm_middle.cons y
      _ |>.Perm (x :: y :: (front ++ back)) := .swap x y _
      _ |>.Perm (x :: (front ++ y :: back)) := List.perm_middle.symm.cons x

theorem Selects.sorted {l l' : List α} (h : Selects key l l') :
    l'.Pairwise fun a b => key b ≤ key a := by
  induction h with
  | nil => exact .nil
  | keep hmax hrest ih => exact ih.cons fun z hz => hmax z (hrest.perm.mem_iff.mp hz)
  | swap hmax hrest ih =>
    refine ih.cons fun z hz => hmax z ?_
    have hmem := hrest.perm.mem_iff.mp hz
    simp only [List.mem_append, List.mem_cons] at hmem ⊢
    tauto

/-- The element at an index, between those before and those after it. -/
theorem exists_append_of_getElem? {l : List α} {k : Nat} {b : α} (h : l[k]? = some b) :
    ∃ front back, l = front ++ b :: back ∧ front.length = k := by
  obtain ⟨hk, rfl⟩ := List.getElem?_eq_some_iff.mp h
  refine ⟨l.take k, l.drop (k + 1), ?_, List.length_take_of_le (Nat.le_of_lt hk)⟩
  rw [← List.drop_eq_getElem_cons hk, List.take_append_drop]

/-- The exchange of two elements by writing both. -/
theorem set_exchange (done front back : List α) (x y : α) :
    ((done ++ x :: (front ++ y :: back)).set done.length y).set (done.length + 1 + front.length) x =
      done ++ [y] ++ (front ++ x :: back) := by
  rw [List.set_append_right _ _ (Nat.le_refl _), Nat.sub_self, List.set_cons_zero,
    show done.length + 1 + front.length = done.length + (front.length + 1) by omega,
    List.set_append_right _ _ (Nat.le_add_right _ _), Nat.add_sub_cancel_left,
    List.set_cons_succ, List.set_append_right _ _ (Nat.le_refl _), Nat.sub_self,
    List.set_cons_zero]
  simp

end Selects

/-! ## First occurrences -/

section EraseDups

variable {α : Type u} [DecidableEq α]

/-- A last element counts if it is not there yet. -/
theorem eraseDups_concat (l : List α) (b : α) :
    (l ++ [b]).eraseDups = if b ∈ l then l.eraseDups else l.eraseDups ++ [b] := by
  rw [List.eraseDups_append, List.removeAll, List.filter_cons, List.filter_nil]
  by_cases h : b ∈ l
  · simp [h]
  · simp [h, List.eraseDups_cons]

theorem nodup_eraseDups (l : List α) : l.eraseDups.Nodup := by
  induction l using List.reverseRecOn with
  | nil => exact List.nodup_nil
  | append_singleton l b ih =>
    rw [eraseDups_concat]
    split
    · exact ih
    · rename_i h
      refine List.nodup_append.mpr ⟨ih, List.nodup_singleton b, ?_⟩
      rintro x hx y hy rfl
      rw [List.mem_singleton.mp hy, List.mem_eraseDups] at hx
      exact h hx

theorem eraseDups_length_le {l l' : List α} (h : l <+: l') :
    l.eraseDups.length ≤ l'.eraseDups.length := by
  obtain ⟨t, rfl⟩ := h
  rw [List.eraseDups_append, List.length_append]
  exact Nat.le_add_right _ _

end EraseDups

end EfiCore.Lib
