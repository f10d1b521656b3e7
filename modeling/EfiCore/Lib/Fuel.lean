import Mathlib.Data.Option.Basic

/-! # Loops with a bound on their turns

A loop of which nothing is known to bound it is a function of the number of turns that it is given;
it has a result if it comes to an end within them.  More turns do not change the result.
-/

namespace EfiCore.Lib

universe u v

variable {α : Type u} {β : Type v} {F : Nat → Option α} {r r' : α} {n m : Nat}

/-- More turns do not change the result. -/
def Steady (F : Nat → Option α) : Prop := ∀ n r, F n = some r → ∀ k, F (n + k) = some r

theorem Steady.const (a : Option α) : Steady fun _ => a := fun _ _ h _ => h

theorem Steady.unique (hF : Steady F) (h : F n = some r) (h' : F m = some r') : r = r' := by
  have hleft := hF n r h m
  have hright := hF m r' h' n
  rw [Nat.add_comm, hright] at hleft
  exact (Option.some.inj hleft).symm

theorem Steady.map (hF : Steady F) (f : α → β) : Steady fun n => (F n).map f := by
  intro n r h k
  obtain ⟨a, ha, rfl⟩ := Option.map_eq_some_iff.mp h
  dsimp only
  rw [hF n a ha k, Option.map_some]

theorem Steady.bind {G : Nat → α → Option β} (hF : Steady F)
    (hG : ∀ a, Steady fun n => G n a) : Steady fun n => (F n).bind (G n) := by
  intro n r h k
  obtain ⟨a, ha, hr⟩ := Option.bind_eq_some_iff.mp h
  dsimp only
  rw [hF n a ha k, Option.bind_some]
  exact hG a n r hr k

theorem Steady.elim {a : Option α} {G : Nat → Option β} {H : Nat → α → Option β} (hG : Steady G)
    (hH : ∀ x, Steady fun n => H n x) : Steady fun n => a.elim (G n) (H n) := by
  cases a with
  | none => exact hG
  | some x => exact hH x

theorem Steady.ite {p : Prop} [Decidable p] {G : Nat → Option α} (hF : Steady F) (hG : Steady G) :
    Steady fun n => if p then F n else G n := by
  by_cases hp : p
  · simp only [if_pos hp]
    exact hF
  · simp only [if_neg hp]
    exact hG

end EfiCore.Lib

/-! ## Results that are related -/

namespace Option.Rel

universe u v u' v'

variable {α : Type u} {β : Type v} {γ : Type u'} {δ : Type v'} {R : α → β → Prop}
  {S : γ → δ → Prop} {a : Option α} {b : Option β}

theorem some_left {x : α} (h : Option.Rel R (.some x) b) : ∃ y, b = .some y ∧ R x y := by
  cases h with
  | some hxy => exact ⟨_, rfl, hxy⟩

theorem some_right {y : β} (h : Option.Rel R a (.some y)) : ∃ x, a = .some x ∧ R x y := by
  cases h with
  | some hxy => exact ⟨_, rfl, hxy⟩

theorem isSome_eq (h : Option.Rel R a b) : a.isSome = b.isSome := by
  cases h with
  | none => rfl
  | some _ => rfl

theorem map (h : Option.Rel R a b) {f : α → γ} {f' : β → δ} (hf : ∀ x y, R x y → S (f x) (f' y)) :
    Option.Rel S (a.map f) (b.map f') := by
  cases h with
  | none => exact .none
  | some hxy => exact .some (hf _ _ hxy)

theorem bind (h : Option.Rel R a b) {f : α → Option γ} {f' : β → Option δ}
    (hf : ∀ x y, R x y → Option.Rel S (f x) (f' y)) : Option.Rel S (a.bind f) (b.bind f') := by
  cases h with
  | none => exact .none
  | some hxy => exact hf _ _ hxy

end Option.Rel
