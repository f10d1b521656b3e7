import EfiCore.Mem.Page

/-! # The blocks of a pool unit

`carve` lists the blocks of a unit from its first block's index alone: they follow one
another, stay inside the unit, and the unit starts with a block of that index.
-/

namespace EfiCore.Mem

variable {A : Arch}

theorem carve_zero (A : Arch) (offset : Nat) :
    carve A 0 offset = (List.range ((defaultPageAllocation A - offset) / listToSize 0)).map
      fun k => (offset + k * listToSize 0, 0) := by
  rw [carve, List.append_nil]

theorem carve_succ (A : Arch) (index offset : Nat) :
    carve A (index + 1) offset =
      (List.range ((defaultPageAllocation A - offset) / listToSize (index + 1))).map
        (fun k => (offset + k * listToSize (index + 1), index + 1)) ++
      carve A index (offset +
        (defaultPageAllocation A - offset) / listToSize (index + 1) * listToSize (index + 1)) := by
  rw [carve]

/-- The blocks of one index: `count` of them, one after the other. -/
theorem level_spec {limit offset : Nat} (size index : Nat) (hle : offset ≤ limit) :
    let count := (limit - offset) / size
    offset + count * size ≤ limit ∧
      (∀ b ∈ (List.range count).map fun k => (offset + k * size, index),
        offset ≤ b.1 ∧ b.2 = index ∧ b.1 + size ≤ offset + count * size) ∧
      ((List.range count).map fun k => (offset + k * size, index)).Pairwise
        fun b b' => b.1 + size ≤ b'.1 := by
  have hdiv : (limit - offset) / size * size ≤ limit - offset := Nat.div_mul_le_self _ _
  have hstep : ∀ k k', k < k' → k * size + size ≤ k' * size := by
    intro k k' h
    rw [← Nat.succ_mul]
    exact Nat.mul_le_mul_right _ h
  refine ⟨by omega, ?_, ?_⟩
  · intro b hb
    obtain ⟨k, hk, rfl⟩ := List.mem_map.mp hb
    have := hstep k _ (List.mem_range.mp hk)
    dsimp only
    omega
  · rw [List.pairwise_map]
    refine List.pairwise_lt_range.imp fun {k k'} h => ?_
    have := hstep k k' h
    omega

theorem carve_spec (A : Arch) (index : Nat) {offset : Nat}
    (hle : offset ≤ defaultPageAllocation A) :
    (∀ b ∈ carve A index offset,
      offset ≤ b.1 ∧ b.2 ≤ index ∧ b.1 + listToSize b.2 ≤ defaultPageAllocation A) ∧
    (carve A index offset).Pairwise fun b b' => b.1 + listToSize b.2 ≤ b'.1 := by
  induction index generalizing offset with
  | zero =>
    obtain ⟨hin, hmem, hpair⟩ := level_spec (listToSize 0) 0 hle
    rw [carve_zero]
    refine ⟨?_, ?_⟩
    · intro b hb
      have := hmem b hb
      rw [this.2.1]
      omega
    · refine List.Pairwise.imp_of_mem (fun {b b'} hb _ h => ?_) hpair
      rw [(hmem b hb).2.1]
      exact h
  | succ index ih =>
    obtain ⟨hin, hmem, hpair⟩ := level_spec (listToSize (index + 1)) (index + 1) hle
    obtain ⟨hmem', hpair'⟩ := ih hin
    rw [carve_succ]
    refine ⟨?_, List.pairwise_append.mpr ⟨?_, hpair', ?_⟩⟩
    · intro b hb
      rcases List.mem_append.mp hb with hb | hb
      · have := hmem b hb
        rw [this.2.1]
        omega
      · have := hmem' b hb
        omega
    · refine List.Pairwise.imp_of_mem (fun {b b'} hb _ h => ?_) hpair
      rw [(hmem b hb).2.1]
      exact h
    · intro b hb b' hb'
      have h := hmem b hb
      have h' := hmem' b' hb'
      rw [h.2.1]
      omega

/-- A block stays inside its unit. -/
theorem carve_mem {index : Nat} {b : Nat × Nat} (hb : b ∈ carve A index 0) :
    b.2 ≤ index ∧ b.1 + listToSize b.2 ≤ defaultPageAllocation A :=
  ((carve_spec A index (Nat.zero_le _)).1 b hb).2

/-- Two blocks of a unit do not overlap. -/
theorem carve_apart {index : Nat} {b b' : Nat × Nat} (hb : b ∈ carve A index 0)
    (hb' : b' ∈ carve A index 0) (hne : b ≠ b') :
    b.1 + listToSize b.2 ≤ b'.1 ∨ b'.1 + listToSize b'.2 ≤ b.1 := by
  obtain ⟨i, hi, rfl⟩ := List.getElem_of_mem hb
  obtain ⟨j, hj, rfl⟩ := List.getElem_of_mem hb'
  have hpair := List.pairwise_iff_getElem.mp (carve_spec A index (Nat.zero_le _)).2
  rcases Nat.lt_trichotomy i j with h | h | h
  · exact .inl (hpair i j hi hj h)
  · subst h
    exact absurd rfl hne
  · exact .inr (hpair j i hj hi h)

theorem carve_eq_of_offset {index : Nat} {b b' : Nat × Nat} (hb : b ∈ carve A index 0)
    (hb' : b' ∈ carve A index 0) (h : b.1 = b'.1) : b = b' := by
  by_contra hne
  have := carve_apart hb hb' hne
  have h1 : 0 < listToSize b.2 := Nat.mul_pos (Nat.succ_pos _) (by decide)
  have h2 : 0 < listToSize b'.2 := Nat.mul_pos (Nat.succ_pos _) (by decide)
  omega

/-- The first block of a unit has the index the unit was carved with. -/
theorem carve_first {index : Nat} (h : index < maxPoolList A) : (0, index) ∈ carve A index 0 := by
  have hpos : 0 < defaultPageAllocation A / listToSize index := by
    rw [listToSize]
    refine Nat.div_pos ?_ (by omega)
    rw [maxPoolList] at h
    have : defaultPageAllocation A % 128 = 0 := by cases A <;> rfl
    omega
  have hfirst : (0, index) ∈ (List.range ((defaultPageAllocation A - 0) / listToSize index)).map
      fun k => (0 + k * listToSize index, index) := by
    rw [List.mem_map]
    exact ⟨0, List.mem_range.mpr hpos, by simp⟩
  cases index with
  | zero =>
    rw [carve_zero]
    exact hfirst
  | succ index =>
    rw [carve_succ]
    exact List.mem_append_left _ hfirst

end EfiCore.Mem
