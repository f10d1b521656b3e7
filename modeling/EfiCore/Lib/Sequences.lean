import Mathlib.Data.List.Perm.Basic

/-! # Tables of sequences

A table whose keys are lists, read element by element: which entries end with the next element,
and which go on behind it.
-/

namespace EfiCore.Lib

universe u v

variable {α : Type u} {β : Type v} [DecidableEq α]

/-- The entries with one element more than `front`, by this element. -/
def endsAt (table : List (List α × β)) (front : List α) : List (α × β) :=
  table.filterMap fun entry =>
    if entry.1.dropLast = front then entry.1.getLast?.map fun last => (last, entry.2) else none

/-- The elements with which the entries go on that are longer by two and more. -/
def branches (table : List (List α × β)) (front : List α) : List α :=
  table.filterMap fun entry =>
    if front.isPrefixOf entry.1 ∧ front.length + 1 < entry.1.length then entry.1[front.length]?
    else none

theorem lookup_concat (table : List (List α × β)) (front : List α) (a : α) :
    table.lookup (front ++ [a]) = (endsAt table front).lookup a := by
  induction table with
  | nil => rfl
  | cons entry table ih =>
    obtain ⟨key, value⟩ := entry
    rw [List.lookup_cons]
    cases List.eq_nil_or_concat key with
    | inl hkey =>
      subst hkey
      have hne : (front ++ [a] == []) = false := by simp
      rw [hne]
      simpa [endsAt] using ih
    | inr hkey =>
      obtain ⟨start, last, rfl⟩ := hkey
      rw [List.concat_eq_append]
      by_cases hstart : start = front
      · subst hstart
        by_cases hlast : a = last
        · subst hlast
          simp [endsAt]
        · have hne : (start ++ [a] == start ++ [last]) = false := by simpa using hlast
          have hne' : (a == last) = false := by simpa using hlast
          rw [hne]
          simpa [endsAt, List.lookup_cons, hne'] using ih
      · have hne : (front ++ [a] == start ++ [last]) = false := by
          simp only [beq_eq_false_iff_ne]
          intro heq
          exact hstart (List.append_inj_left' heq rfl).symm
        rw [hne]
        simpa [endsAt, hstart] using ih

/-- A longer entry begins with these elements exactly if the last of them is a branch. -/
theorem continues_concat (table : List (List α × β)) (front : List α) (a : α) :
    (∃ entry ∈ table, front ++ [a] <+: entry.1 ∧ front ++ [a] ≠ entry.1) ↔
      a ∈ branches table front := by
  unfold branches
  rw [List.mem_filterMap]
  constructor
  · rintro ⟨⟨key, value⟩, hmem, ⟨rest, hrest⟩, hne⟩
    refine ⟨_, hmem, ?_⟩
    have hkey : key = front ++ a :: rest := by simpa using hrest.symm
    subst hkey
    have hlong : rest ≠ [] := by
      intro hnil
      subst hnil
      exact hne rfl
    have hpos := List.length_pos_of_ne_nil hlong
    simp [hpos]
  · rintro ⟨⟨key, value⟩, hmem, hbranch⟩
    split at hbranch
    · rename_i hfront
      obtain ⟨hhead, hlong⟩ := hfront
      obtain ⟨rest, rfl⟩ := List.isPrefixOf_iff_prefix.mp hhead
      refine ⟨_, hmem, ?_⟩
      cases rest with
      | nil =>
        have hshort : front.length + 1 < front.length := by
          rwa [List.append_nil] at hlong
        omega
      | cons b rest =>
        simp at hbranch hlong
        subst hbranch
        refine ⟨⟨rest, by simp⟩, ?_⟩
        intro heq
        have hnil : rest = [] := by simpa using heq
        simp [hnil] at hlong
    · cases hbranch

theorem lookup_eq_some_iff_mem {table : List (α × β)} (hnodup : (table.map Prod.fst).Nodup)
    {a : α} {b : β} : table.lookup a = some b ↔ (a, b) ∈ table := by
  induction table with
  | nil => simp
  | cons entry table ih =>
    rw [List.map_cons, List.nodup_cons] at hnodup
    rw [List.lookup_cons, List.mem_cons]
    by_cases ha : a = entry.1
    · subst ha
      have hother : (entry.1, b) ∉ table := by
        intro hmem
        exact hnodup.1 (List.mem_map.mpr ⟨_, hmem, rfl⟩)
      simp [hother, Prod.ext_iff, eq_comm]
    · have hne : (a == entry.1) = false := by simpa using ha
      simp [hne, ih hnodup.2, Prod.ext_iff, ha]

/-- The order of a table with different keys does not matter. -/
theorem lookup_eq_of_perm {left right : List (α × β)} (hperm : left.Perm right)
    (hnodup : (right.map Prod.fst).Nodup) (a : α) : left.lookup a = right.lookup a := by
  have hleft : (left.map Prod.fst).Nodup := (hperm.map Prod.fst).nodup_iff.mpr hnodup
  apply Option.ext
  intro b
  rw [lookup_eq_some_iff_mem hleft, lookup_eq_some_iff_mem hnodup, hperm.mem_iff]

end EfiCore.Lib
