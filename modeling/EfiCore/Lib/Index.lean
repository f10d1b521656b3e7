import Mathlib.Data.List.Nodup
import Mathlib.Data.List.Perm.Basic
import Mathlib.Logic.Function.Basic

/-! # Lists that index a table

A table of records with a key in each record, and for some keys a list of the records
that have it, as a doubly linked list whose head sits in the object the key names.
`Indexed` says that the lists and the table agree; it does not say in which order a list
holds its records, so the lemmas about insertion cover head and tail alike.
-/

namespace EfiCore.Lib

universe u v w

variable {P : Type u} {V : Type v} {K : Type w}

/-- Updating one entry of a table commutes with mapping its entries. -/
theorem map_update {L : Type*} [DecidableEq K] (table : K → Option V) (k : K) (x : Option V)
    (f : V → L) :
    (fun k' => (Function.update table k x k').map f) =
      Function.update (fun k' => (table k').map f) k (x.map f) := by
  funext k'
  by_cases hk : k' = k
  · subst hk
    rw [Function.update_self, Function.update_self]
  · rw [Function.update_of_ne hk, Function.update_of_ne hk]

/-- A search for the one element of a list that passes a test finds it. -/
theorem find?_eq_some_iff_of_unique {l : List P} {f : P → Bool}
    (unique : ∀ a ∈ l, ∀ b ∈ l, f a = true → f b = true → a = b) (a : P) :
    l.find? f = some a ↔ a ∈ l ∧ f a = true := by
  constructor
  · intro h
    exact ⟨List.mem_of_find?_eq_some h, List.find?_some h⟩
  · rintro ⟨hm, hf⟩
    cases hfind : l.find? f with
    | none => exact absurd hf (List.find?_eq_none.mp hfind a hm)
    | some b =>
      have hb := List.find?_some hfind
      rw [unique b (List.mem_of_find?_eq_some hfind) a hm hb hf]

/-- `lists k` holds the records of `table` whose key is `k`, each once, and every record's key
    has a list. -/
structure Indexed (table : P → Option V) (key : V → K) (lists : K → Option (List P)) : Prop where
  nodup : ∀ k l, lists k = some l → l.Nodup
  mem : ∀ k l, lists k = some l → ∀ p, p ∈ l ↔ ∃ v, table p = some v ∧ key v = k
  total : ∀ p v, table p = some v → ∃ l, lists (key v) = some l

namespace Indexed

variable {table : P → Option V} {key : V → K} {lists : K → Option (List P)}

theorem empty (key : V → K) : Indexed (fun _ : P => none) key (fun _ => none) where
  nodup := by intro _ _ h; cases h
  mem := by intro _ _ h; cases h
  total := by intro _ _ h; cases h

theorem not_mem (h : Indexed table key lists) {k : K} {l : List P} (hl : lists k = some l)
    {p : P} (hp : table p = none) : p ∉ l := by
  intro hm
  obtain ⟨v, hv, _⟩ := (h.mem k l hl p).mp hm
  rw [hp] at hv
  cases hv

theorem count [DecidableEq P] (h : Indexed table key lists) {p : P} {v : V}
    (hp : table p = some v) {l : List P} (hl : lists (key v) = some l) : l.count p = 1 :=
  List.count_eq_one_of_mem (h.nodup _ l hl) ((h.mem _ l hl p).mpr ⟨v, hp, rfl⟩)

/-- Only the keys of the records matter. -/
theorem rekey {V' : Type*} (h : Indexed table key lists) {table' : P → Option V'} {key' : V' → K}
    (hkeys : ∀ p, (table' p).map key' = (table p).map key) : Indexed table' key' lists := by
  have hkey : ∀ p k, (∃ v, table' p = some v ∧ key' v = k) ↔ ∃ v, table p = some v ∧ key v = k := by
    intro p k
    rw [← Option.map_eq_some_iff, ← Option.map_eq_some_iff, hkeys]
  refine ⟨h.nodup, ?_, ?_⟩
  · intro k l hl p
    rw [h.mem k l hl p, hkey]
  · intro p v hp
    obtain ⟨v', hv', heq⟩ := (hkey p (key' v)).mp ⟨v, hp, rfl⟩
    rw [← heq]
    exact h.total p v' hv'

/-- A list may be reordered. -/
theorem permute [DecidableEq K] (h : Indexed table key lists) {k : K} {l l' : List P}
    (hl : lists k = some l) (hperm : l'.Perm l) :
    Indexed table key (Function.update lists k (some l')) where
  nodup := by
    intro k' l'' hl'
    by_cases hk : k' = k
    · subst hk
      rw [Function.update_self] at hl'
      cases hl'
      exact hperm.nodup_iff.mpr (h.nodup _ l hl)
    · rw [Function.update_of_ne hk] at hl'
      exact h.nodup k' l'' hl'
  mem := by
    intro k' l'' hl' p
    by_cases hk : k' = k
    · subst hk
      rw [Function.update_self] at hl'
      cases hl'
      rw [hperm.mem_iff]
      exact h.mem _ l hl p
    · rw [Function.update_of_ne hk] at hl'
      exact h.mem k' l'' hl' p
  total := by
    intro p v hp
    by_cases hk : key v = k
    · exact ⟨l', by rw [hk, Function.update_self]⟩
    · rw [Function.update_of_ne hk]
      exact h.total p v hp

/-- A new record enters its key's list, at either end. -/
theorem insert [DecidableEq P] [DecidableEq K] (h : Indexed table key lists) {p : P} {v : V}
    {l l' : List P} (hp : table p = none) (hl : lists (key v) = some l)
    (hperm : l'.Perm (p :: l)) :
    Indexed (Function.update table p (some v)) key
      (Function.update lists (key v) (some l')) where
  nodup := by
    intro k l'' hl'
    by_cases hk : k = key v
    · subst hk
      rw [Function.update_self] at hl'
      cases hl'
      exact hperm.nodup_iff.mpr (List.nodup_cons.mpr ⟨h.not_mem hl hp, h.nodup _ l hl⟩)
    · rw [Function.update_of_ne hk] at hl'
      exact h.nodup k l'' hl'
  mem := by
    intro k l'' hl' q
    have old : q ≠ p → (∀ l, lists k = some l → (q ∈ l ↔
        ∃ v', Function.update table p (some v) q = some v' ∧ key v' = k)) := by
      intro hq l hl
      rw [Function.update_of_ne hq]
      exact h.mem k l hl q
    by_cases hk : k = key v
    · subst hk
      rw [Function.update_self] at hl'
      cases hl'
      rw [hperm.mem_iff, List.mem_cons]
      by_cases hq : q = p
      · subst hq
        simp
      · rw [← old hq l hl]
        simp [hq]
    · rw [Function.update_of_ne hk] at hl'
      by_cases hq : q = p
      · subst hq
        refine ⟨fun hm => absurd hm (h.not_mem hl' hp), ?_⟩
        rintro ⟨v', hv', hkey⟩
        rw [Function.update_self] at hv'
        cases hv'
        exact absurd hkey.symm hk
      · exact old hq l'' hl'
  total := by
    intro q v' hv'
    by_cases hk : key v' = key v
    · exact ⟨l', by rw [hk, Function.update_self]⟩
    · rw [Function.update_of_ne hk]
      by_cases hq : q = p
      · subst hq
        rw [Function.update_self] at hv'
        cases hv'
        exact absurd rfl hk
      · rw [Function.update_of_ne hq] at hv'
        exact h.total q v' hv'

/-- A record leaves the table and its key's list. -/
theorem erase [DecidableEq P] [DecidableEq K] (h : Indexed table key lists) {p : P} {v : V}
    {l : List P} (hp : table p = some v) (hl : lists (key v) = some l) :
    Indexed (Function.update table p none) key
      (Function.update lists (key v) (some (l.erase p))) where
  nodup := by
    intro k l' hl'
    by_cases hk : k = key v
    · subst hk
      rw [Function.update_self] at hl'
      cases hl'
      exact (h.nodup _ l hl).erase p
    · rw [Function.update_of_ne hk] at hl'
      exact h.nodup k l' hl'
  mem := by
    intro k l' hl' q
    have gone : ¬ ∃ v', Function.update table p none p = some v' ∧ key v' = k := by
      rintro ⟨v', hv', _⟩
      rw [Function.update_self] at hv'
      cases hv'
    by_cases hk : k = key v
    · subst hk
      rw [Function.update_self] at hl'
      cases hl'
      by_cases hq : q = p
      · subst hq
        exact iff_of_false (h.nodup _ l hl).not_mem_erase gone
      · rw [List.mem_erase_of_ne hq, Function.update_of_ne hq]
        exact h.mem _ l hl q
    · rw [Function.update_of_ne hk] at hl'
      by_cases hq : q = p
      · subst hq
        refine iff_of_false (fun hm => ?_) gone
        obtain ⟨v', hv', hkey⟩ := (h.mem k l' hl' q).mp hm
        rw [hp] at hv'
        cases hv'
        exact hk hkey.symm
      · rw [Function.update_of_ne hq]
        exact h.mem k l' hl' q
  total := by
    intro q v' hv'
    have hq : q ≠ p := by
      rintro rfl
      rw [Function.update_self] at hv'
      cases hv'
    rw [Function.update_of_ne hq] at hv'
    by_cases hk : key v' = key v
    · exact ⟨l.erase p, by rw [hk, Function.update_self]⟩
    · rw [Function.update_of_ne hk]
      exact h.total q v' hv'

/-- A record is rewritten, its key kept. -/
theorem set [DecidableEq P] (h : Indexed table key lists) {p : P} {v v' : V}
    (hp : table p = some v) (hkey : key v' = key v) :
    Indexed (Function.update table p (some v')) key lists where
  nodup := h.nodup
  mem := by
    intro k l hl q
    rw [h.mem k l hl q]
    by_cases hq : q = p
    · subst hq
      simp [hp, hkey]
    · rw [Function.update_of_ne hq]
  total := by
    intro q w hw
    by_cases hq : q = p
    · subst hq
      rw [Function.update_self] at hw
      cases hw
      rw [hkey]
      exact h.total q v hp
    · rw [Function.update_of_ne hq] at hw
      exact h.total q w hw

/-- A new key starts with an empty list. -/
theorem addKey [DecidableEq K] (h : Indexed table key lists) {k : K} (hk : lists k = none) :
    Indexed table key (Function.update lists k (some [])) := by
  have fresh : ∀ p v, table p = some v → key v ≠ k := by
    rintro p v hp rfl
    obtain ⟨l, hl⟩ := h.total p v hp
    rw [hk] at hl
    cases hl
  refine ⟨?_, ?_, ?_⟩
  · intro k' l hl
    by_cases hkk : k' = k
    · subst hkk
      rw [Function.update_self] at hl
      cases hl
      exact List.nodup_nil
    · rw [Function.update_of_ne hkk] at hl
      exact h.nodup k' l hl
  · intro k' l hl p
    by_cases hkk : k' = k
    · subst hkk
      rw [Function.update_self] at hl
      cases hl
      refine iff_of_false List.not_mem_nil ?_
      rintro ⟨v, hv, hkey⟩
      exact fresh p v hv hkey
    · rw [Function.update_of_ne hkk] at hl
      exact h.mem k' l hl p
  · intro p v hp
    rw [Function.update_of_ne (fresh p v hp)]
    exact h.total p v hp

/-- A key whose list is empty can go. -/
theorem dropKey [DecidableEq K] (h : Indexed table key lists) {k : K} (hk : lists k = some []) :
    Indexed table key (Function.update lists k none) := by
  have keep : ∀ k' l, Function.update lists k none k' = some l → lists k' = some l := by
    intro k' l hl
    by_cases hkk : k' = k
    · subst hkk
      rw [Function.update_self] at hl
      cases hl
    · rwa [Function.update_of_ne hkk] at hl
  refine ⟨fun k' l hl => h.nodup k' l (keep k' l hl), fun k' l hl => h.mem k' l (keep k' l hl), ?_⟩
  intro p v hp
  have hkey : key v ≠ k := by
    rintro rfl
    exact absurd ((h.mem _ [] hk p).mpr ⟨v, hp, rfl⟩) List.not_mem_nil
  rw [Function.update_of_ne hkey]
  exact h.total p v hp

/-! ## One list of all records -/

section Enumeration

variable {all : List P}

theorem enumerate_insert [DecidableEq P]
    (h : Indexed table (fun _ => ()) (fun _ => some all)) {p : P} {v : V} {all' : List P}
    (hp : table p = none) (hperm : all'.Perm (p :: all)) :
    Indexed (Function.update table p (some v)) (fun _ => ()) (fun _ => some all') := by
  have hi := h.insert (v := v) hp rfl hperm
  rwa [show Function.update (fun _ => some all) () (some all') = fun _ => some all' from
    funext fun _ => Function.update_self ..] at hi

theorem enumerate_erase [DecidableEq P]
    (h : Indexed table (fun _ => ()) (fun _ => some all)) {p : P} {v : V}
    (hp : table p = some v) :
    Indexed (Function.update table p none) (fun _ => ()) (fun _ => some (all.erase p)) := by
  have he := h.erase hp rfl
  rwa [show Function.update (fun _ => some all) () (some (all.erase p)) =
    fun _ => some (all.erase p) from funext fun _ => Function.update_self ..] at he

end Enumeration

end Indexed

end EfiCore.Lib
