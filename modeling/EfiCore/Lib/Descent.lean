import Mathlib.Dynamics.PeriodicPts.Defs

/-! # Loops that descend

A loop as the iterates of its body.  It comes to an end if something descends at every turn, and it
does not if a state comes back.
-/

namespace EfiCore.Lib

variable {α : Type*} {β : Type*} {f : α → α} {I D : α → Prop} {a : α}

/-- Under an invariant, every turn descends until the loop is done. -/
theorem exists_iterate_of_descends {r : β → β → Prop} (hr : WellFounded r) (μ : α → β)
    (hturn : ∀ a, I a → ¬D a → I (f a) ∧ r (μ (f a)) (μ a)) (ha : I a) : ∃ n, D (f^[n] a) := by
  induction hμ : μ a using hr.induction generalizing a with
  | _ b ih =>
    by_cases hdone : D a
    · exact ⟨0, hdone⟩
    · obtain ⟨hnext, hless⟩ := hturn a ha hdone
      obtain ⟨n, hn⟩ := ih _ (hμ ▸ hless) hnext rfl
      exact ⟨n + 1, hn⟩

theorem iterate_invariant (hturn : ∀ a, I a → I (f a)) (ha : I a) (n : Nat) : I (f^[n] a) := by
  induction n generalizing a with
  | zero => exact ha
  | succ n ih => exact ih (hturn a ha)

/-- A state that comes back is never done. -/
theorem not_done_of_periodic {k n : Nat} (hk : 0 < k) (hback : f^[k] (f^[n] a) = f^[n] a)
    (hstay : ∀ a, D a → D (f a)) (hnot : ¬D (f^[n] a)) (m : Nat) : ¬D (f^[m] a) := by
  intro hdone
  have hperiodic : Function.IsPeriodicPt f (m * k) (f^[n] a) :=
    Function.IsPeriodicPt.const_mul hback m
  -- by then the loop is done, and back
  have hlate : D (f^[m * k + n - m] (f^[m] a)) := iterate_invariant hstay hdone _
  have hle : m ≤ m * k + n := le_trans (Nat.le_mul_of_pos_right m hk) (Nat.le_add_right _ _)
  rw [← Function.iterate_add_apply, Nat.sub_add_cancel hle, Function.iterate_add_apply,
    hperiodic] at hlate
  exact hnot hlate

end EfiCore.Lib
