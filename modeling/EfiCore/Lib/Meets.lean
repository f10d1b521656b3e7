import EfiCore.Lib.Ensures

/-! # Correctness of computations that may fail

`Meets F x Q`: if `x` returns, what it returns meets `Q`, and if it fails, it fails with an
error that `F` admits.  `Ensures` is the case where every error is admitted.
-/

namespace EfiCore.Lib

universe u v w

variable {ε : Type u} {α β : Type v}

def Meets (F : ε → Prop) (x : Except ε α) (Q : α → Prop) : Prop :=
  (∀ a, x = .ok a → Q a) ∧ ∀ e, x = .error e → F e

namespace Meets

variable {F : ε → Prop} {x : Except ε α} {f : α → Except ε β} {P Q : α → Prop} {R : β → Prop}

theorem ok {a : α} (h : Q a) : Meets F (.ok a) Q := by
  constructor
  · rintro b ⟨⟩
    exact h
  · nofun

theorem pure {a : α} (h : Q a) : Meets F (Pure.pure a) Q := ok h

theorem error {e : ε} (h : F e) : Meets F (.error e) Q := by
  constructor
  · nofun
  · rintro e' ⟨⟩
    exact h

theorem of_eq {a : α} (heq : x = .ok a) (h : Q a) : Meets F x Q := heq ▸ ok h

theorem ensures (h : Meets F x Q) : Ensures x Q := h.1

theorem and (hx : Meets F x P) (hy : Ensures x Q) : Meets F x fun a => P a ∧ Q a :=
  ⟨fun a ha => ⟨hx.1 a ha, hy a ha⟩, hx.2⟩

theorem bind (hx : Meets F x P) (hf : ∀ a, P a → Meets F (f a) R) : Meets F (x >>= f) R := by
  cases x with
  | error e => exact error (hx.2 e rfl)
  | ok a => exact hf a (hx.1 a rfl)

theorem mono (hx : Meets F x P) (h : ∀ a, P a → Q a) : Meets F x Q :=
  ⟨fun a ha => h a (hx.1 a ha), hx.2⟩

theorem ite {c : Prop} [Decidable c] {y : Except ε α} (ht : c → Meets F x Q)
    (hf : ¬ c → Meets F y Q) : Meets F (if c then x else y) Q := by
  by_cases hc : c
  · rw [if_pos hc]
    exact ht hc
  · rw [if_neg hc]
    exact hf hc

end Meets

end EfiCore.Lib
