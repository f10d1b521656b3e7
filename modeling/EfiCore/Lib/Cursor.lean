import Mathlib.Data.List.Nodup

/-! # A cursor into a list that is edited under it

A position in a doubly linked list is an element of it, or the list head.  `Cursor l pos rest`
says that `rest` is what follows the position `pos` in `l`.  An element may leave the list when
every position on it is backed up to the element before; elements may join at the end; and a
position moves on to the element behind it.
-/

namespace EfiCore.Lib

universe u

variable {P : Type u}

/-- `rest` follows the position `pos` of `l`; `none` is the list head. -/
inductive Cursor : List P → Option P → List P → Prop
  | head (l : List P) : Cursor l none l
  | on (before : List P) (p : P) (rest : List P) : Cursor (before ++ p :: rest) (some p) rest

namespace Cursor

variable {l rest : List P} {pos : Option P} {p : P}

theorem mem (h : Cursor l (some p) rest) : p ∈ l := by
  cases h
  simp

theorem append (h : Cursor l pos rest) (p : P) : Cursor (l ++ [p]) pos (rest ++ [p]) := by
  cases h with
  | head => exact .head _
  | on before q rest =>
    rw [List.append_assoc, List.cons_append]
    exact .on before q (rest ++ [p])

theorem advance (h : Cursor l pos (p :: rest)) : Cursor l (some p) rest := by
  cases h with
  | head => exact .on [] p rest
  | on before q =>
    have hsplit : before ++ q :: p :: rest = (before ++ [q]) ++ p :: rest := by simp
    rw [hsplit]
    exact .on _ p rest

variable [DecidableEq P]

theorem takeWhile_ne {before : List P} (hnodup : (before ++ p :: rest).Nodup) :
    (before ++ p :: rest).takeWhile (· ≠ p) = before := by
  have hp : ∀ x ∈ before, decide (x ≠ p) = true := by
    intro x hx
    have := (List.nodup_append.mp hnodup).2.2 x hx p List.mem_cons_self
    exact decide_eq_true this
  rw [List.takeWhile_append_of_pos hp]
  simp

theorem dropWhile_ne {before : List P} (hnodup : (before ++ p :: rest).Nodup) :
    (before ++ p :: rest).dropWhile (· ≠ p) = p :: rest := by
  have hp : ∀ x ∈ before, decide (x ≠ p) = true := by
    intro x hx
    have := (List.nodup_append.mp hnodup).2.2 x hx p List.mem_cons_self
    exact decide_eq_true this
  rw [List.dropWhile_append_of_pos hp]
  simp

/-- The element behind a position on an element of the list. -/
theorem next (h : Cursor l (some p) rest) (hnodup : l.Nodup) :
    (l.dropWhile (· ≠ p)).tail.head? = rest.head? := by
  cases h
  rw [dropWhile_ne hnodup]
  rfl

/-- The position before the element `p`. -/
theorem before (hp : p ∈ l) (hnodup : l.Nodup) : ∃ rest,
    Cursor l (some p) rest ∧ Cursor (l.erase p) (l.takeWhile (· ≠ p)).getLast? rest := by
  obtain ⟨before, rest, rfl⟩ := List.append_of_mem hp
  refine ⟨rest, .on before p rest, ?_⟩
  have hout : p ∉ before := fun hm =>
    (List.nodup_append.mp hnodup).2.2 p hm p List.mem_cons_self rfl
  rw [takeWhile_ne hnodup, List.erase_append_right _ hout, List.erase_cons_head]
  rcases List.eq_nil_or_concat before with rfl | ⟨front, b, rfl⟩
  · exact .head rest
  · rw [List.concat_eq_append, List.getLast?_concat, List.append_assoc]
    exact .on front b rest

theorem rest_unique {rest' : List P} (h : Cursor l (some p) rest) (h' : Cursor l (some p) rest')
    (hnodup : l.Nodup) : rest = rest' := by
  cases h with
  | on before =>
    have hdrop := dropWhile_ne hnodup
    generalize hl : before ++ p :: rest = l at h' hdrop
    cases h' with
    | on before' =>
      rw [dropWhile_ne (hl ▸ hnodup)] at hdrop
      exact (List.cons.inj hdrop).2.symm

/-- An element leaves; a position on it is backed up. -/
theorem erase (h : Cursor l pos rest) (hnodup : l.Nodup) (p : P) :
    Cursor (l.erase p) (if pos = some p then (l.takeWhile (· ≠ p)).getLast? else pos)
      (rest.erase p) := by
  cases h with
  | head =>
    rw [if_neg (by simp)]
    exact .head _
  | on front q rest =>
    have hfront := List.nodup_append.mp hnodup
    have hrest := List.nodup_cons.mp hfront.2.1
    by_cases hq : q = p
    · subst hq
      rw [if_pos rfl, List.erase_of_not_mem hrest.1]
      obtain ⟨rest', hat, hbefore⟩ := before (p := q) (by simp) hnodup
      have heq : rest = rest' := rest_unique (.on front q rest) hat hnodup
      rw [heq]
      rw [heq] at hbefore
      exact hbefore
    · rw [if_neg (by simpa using hq)]
      by_cases hp : p ∈ front
      · have hout : p ∉ rest := fun hm => hfront.2.2 p hp p (List.mem_cons_of_mem _ hm) rfl
        rw [List.erase_append_left _ hp, List.erase_of_not_mem hout]
        exact .on (front.erase p) q rest
      · rw [List.erase_append_right _ hp, List.erase_cons_tail (by simpa using hq)]
        exact .on front q (rest.erase p)

end Cursor

end EfiCore.Lib
