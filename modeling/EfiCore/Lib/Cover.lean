import Mathlib.Data.List.Basic
import Mathlib.Data.List.Pairwise

/-! # How often a list covers a point

`cover p l x` counts the members of `l` that cover `x`.  Where nothing is covered twice, members
are told apart by the points they cover.
-/

namespace EfiCore.Lib

variable {α β : Type*} {p : β → α → Bool} {l : List β} {x : α}

def cover (p : β → α → Bool) (l : List β) (x : α) : Nat := l.countP fun b => p b x

@[simp] theorem cover_nil (p : β → α → Bool) (x : α) : cover p [] x = 0 := rfl

@[simp] theorem cover_cons (p : β → α → Bool) (b : β) (l : List β) (x : α) :
    cover p (b :: l) x = cover p l x + if p b x then 1 else 0 := List.countP_cons ..

@[simp] theorem cover_append (p : β → α → Bool) (l m : List β) (x : α) :
    cover p (l ++ m) x = cover p l x + cover p m x := List.countP_append

theorem cover_pos {b : β} (hb : b ∈ l) (hx : p b x = true) : 0 < cover p l x :=
  List.countP_pos_iff.mpr ⟨b, hb, hx⟩

theorem exists_of_cover_pos (h : 0 < cover p l x) : ∃ b ∈ l, p b x = true :=
  List.countP_pos_iff.mp h

/-- No member covers a point that another one covers. -/
theorem pairwise_of_cover_le_one (h : ∀ x, cover p l x ≤ 1) :
    l.Pairwise fun a b => ∀ x, ¬(p a x = true ∧ p b x = true) := by
  induction l with
  | nil => exact List.Pairwise.nil
  | cons b l ih =>
    refine List.pairwise_cons.mpr ⟨?_, ih fun x => ?_⟩
    · rintro c hc x ⟨hb, hcx⟩
      have hone := h x
      have hpos := cover_pos hc hcx
      rw [cover_cons, if_pos hb] at hone
      omega
    · have hone := h x
      rw [cover_cons] at hone
      omega

theorem cover_le_one_of_pairwise
    (h : l.Pairwise fun a b => ∀ x, ¬(p a x = true ∧ p b x = true)) (x : α) :
    cover p l x ≤ 1 := by
  induction l with
  | nil => exact Nat.zero_le 1
  | cons b l ih =>
    obtain ⟨hfirst, hrest⟩ := List.pairwise_cons.mp h
    rw [cover_cons]
    by_cases hb : p b x = true
    · have hzero : cover p l x = 0 := by
        by_contra hne
        obtain ⟨c, hc, hcx⟩ := exists_of_cover_pos (Nat.pos_of_ne_zero hne)
        exact hfirst c hc x ⟨hb, hcx⟩
      simp only [hzero, if_pos hb, Nat.zero_add, Nat.le_refl]
    · rw [if_neg hb]
      exact ih hrest

theorem eq_of_cover_le_one (h : ∀ x, cover p l x ≤ 1) {a b : β} (ha : a ∈ l) (hb : b ∈ l)
    (hax : p a x = true) (hbx : p b x = true) : a = b := by
  by_contra hne
  have hsymm : Std.Symm fun a b : β => ∀ x, ¬(p a x = true ∧ p b x = true) :=
    ⟨fun a b hab x hx => hab x hx.symm⟩
  exact (pairwise_of_cover_le_one h).forall ha hb hne x ⟨hax, hbx⟩

end EfiCore.Lib
