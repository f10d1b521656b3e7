import Mathlib.Data.List.Infix

/-! # Self-delimiting codes

A code in which a code word tells where it ends.  Words of such a code can be written one after
the other, and the prefixes of what is written, cut where a word ends, are the prefixes of the
list of words.
-/

namespace EfiCore.Lib

variable {α β : Type*}

/-- Two code words at the head of the same text are the same. -/
structure SelfDelimiting (code : α → List β) : Prop where
  ne_nil : ∀ a, code a ≠ []
  head : ∀ a b x y, code a ++ x = code b ++ y → a = b

namespace SelfDelimiting

variable {code : α → List β}

theorem flatMap_prefix_iff (h : SelfDelimiting code) (as bs : List α) :
    as.flatMap code <+: bs.flatMap code ↔ as <+: bs := by
  constructor
  · induction as generalizing bs with
    | nil => exact fun _ => List.nil_prefix
    | cons a as ih =>
      rintro ⟨rest, hrest⟩
      rw [List.flatMap_cons, List.append_assoc] at hrest
      cases bs with
      | nil =>
        rw [List.flatMap_nil] at hrest
        exact absurd (List.append_eq_nil_iff.mp hrest).1 (h.ne_nil a)
      | cons b bs =>
        rw [List.flatMap_cons] at hrest
        have hab := h.head a b _ _ hrest
        subst hab
        rw [List.cons_prefix_cons]
        exact ⟨rfl, ih bs ⟨rest, List.append_cancel_left hrest⟩⟩
  · rintro ⟨rest, rfl⟩
    rw [List.flatMap_append]
    exact List.prefix_append _ _

theorem flatMap_injective (h : SelfDelimiting code) {as bs : List α}
    (heq : as.flatMap code = bs.flatMap code) : as = bs := by
  have hle := (h.flatMap_prefix_iff as bs).mp (heq ▸ List.prefix_refl _)
  have hge := (h.flatMap_prefix_iff bs as).mp (heq ▸ List.prefix_refl _)
  exact hle.eq_of_length (Nat.le_antisymm hle.length_le hge.length_le)

end SelfDelimiting

end EfiCore.Lib
