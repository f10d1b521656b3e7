/-! # Partial correctness of computations that may fail

`Ensures x Q`: if `x` returns, what it returns meets `Q`.  One rule for each way to build a
computation in `Except`; a function's specification is an `Ensures`, and its callers cite
the specification through `Ensures.bind`.
-/

namespace EfiCore.Lib

universe u v w

variable {ε : Type u} {α β : Type v}

def Ensures (x : Except ε α) (Q : α → Prop) : Prop := ∀ a, x = .ok a → Q a

/-- The steps of a computation that has returned have returned. -/
theorem bind_eq_ok {x : Except ε α} {f : α → Except ε β} {b : β} (h : x >>= f = .ok b) :
    ∃ a, x = .ok a ∧ f a = .ok b := by
  cases x with
  | error e => cases h
  | ok a => exact ⟨a, rfl, h⟩

namespace Ensures

variable {x : Except ε α} {f : α → Except ε β} {P Q : α → Prop} {R : β → Prop}

theorem ok {a : α} (h : Q a) : Ensures (.ok a : Except ε α) Q := by
  rintro b ⟨⟩
  exact h

theorem pure {a : α} (h : Q a) : Ensures (Pure.pure a : Except ε α) Q := ok h

theorem error {e : ε} : Ensures (.error e : Except ε α) Q := by
  rintro b ⟨⟩

/-- What is known of a result at least: that it was returned. -/
theorem self (x : Except ε α) : Ensures x fun a => x = .ok a := fun _ ha => ha

theorem and (hx : Ensures x P) (hy : Ensures x Q) : Ensures x fun a => P a ∧ Q a :=
  fun a ha => ⟨hx a ha, hy a ha⟩

theorem bind (hx : Ensures x P) (hf : ∀ a, P a → Ensures (f a) R) : Ensures (x >>= f) R := by
  intro b hb
  cases x with
  | error e => cases hb
  | ok a => exact hf a (hx a rfl) b hb

theorem map {g : α → β} (hx : Ensures x fun a => R (g a)) : Ensures (g <$> x) R := by
  intro b hb
  cases x with
  | error e => cases hb
  | ok a =>
    cases hb
    exact hx a rfl

theorem mono (hx : Ensures x P) (h : ∀ a, P a → Q a) : Ensures x Q :=
  fun a ha => h a (hx a ha)

theorem ite {c : Prop} [Decidable c] {y : Except ε α} (ht : c → Ensures x Q)
    (hf : ¬ c → Ensures y Q) : Ensures (if c then x else y) Q := by
  by_cases hc : c
  · rw [if_pos hc]
    exact ht hc
  · rw [if_neg hc]
    exact hf hc

/-- A step that is only sometimes made before the rest. -/
theorem ite_bind {c : Prop} [Decidable c] {f : α → Except ε β} {a : α} (hx : c → Ensures x P)
    (ha : ¬ c → P a) (hf : ∀ a, P a → Ensures (f a) R) :
    Ensures (if c then x >>= f else f a) R :=
  ite (fun hc => bind (hx hc) hf) fun hc => hf a (ha hc)

/-- The rule for a loop over a list: `I` holds of what has been done so far. -/
theorem foldlM {γ : Type w} {g : β → γ → Except ε β} {I : List γ → β → Prop} {l : List γ}
    (hstep : ∀ pre a post b, l = pre ++ a :: post → I pre b → Ensures (g b a) (I (pre ++ [a])))
    {b : β} (h : I [] b) : Ensures (l.foldlM g b) (I l) := by
  have hrest : ∀ pre post b, l = pre ++ post → I pre b → Ensures (post.foldlM g b) (I l) := by
    intro pre post
    induction post generalizing pre with
    | nil =>
      intro b hsplit hpre
      rw [hsplit, List.append_nil]
      exact ok hpre
    | cons a post ih =>
      intro b hsplit hpre
      rw [List.foldlM_cons]
      exact bind (hstep pre a post b hsplit hpre) fun b' hb' =>
        ih (pre ++ [a]) b' (by rw [hsplit, List.append_assoc, List.singleton_append]) hb'
  exact hrest [] l b rfl h

end Ensures

end EfiCore.Lib
