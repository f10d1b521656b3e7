import EfiCore.Fat.Refines
import EfiCore.Lib.Orbit

/-! # Going along a chain

The loops that only read the table come to an end exactly if the chain has no cycle.
-/

namespace EfiCore.Fat

open EfiCore.Lib

variable {g : Geometry} {v v' : FlatVol} {m : Nat → Byte} {c d n fuel : Nat} {l : List Nat}

/-! ## The chain on the disk -/

/-- A loop along a chain stops at this value. -/
def Geometry.Stops (g : Geometry) (c : Nat) : Prop := g.EndOfFatChain c ∨ g.Corrupt c

instance (g : Geometry) (c : Nat) : Decidable (g.Stops c) := inferInstanceAs (Decidable (_ ∨ _))

/-- What follows a cluster. -/
def Geometry.next (g : Geometry) (m : Nat → Byte) (c : Nat) : Option Nat :=
  if g.Stops c then none else some (g.read m c)

theorem next_of_stops (h : g.Stops c) : g.next m c = none := if_pos h

theorem next_of_not_stops (h : ¬g.Stops c) : g.next m c = some (g.read m c) := if_neg h

theorem next_eq_some (h : g.next m c = some d) : ¬g.Stops c ∧ g.read m c = d := by
  by_cases hstops : g.Stops c
  · rw [next_of_stops hstops] at h
    cases h
  · rw [next_of_not_stops hstops] at h
    exact ⟨hstops, Option.some.inj h⟩

theorem stops_clusterLast (g : Geometry) : g.Stops g.clusterLast := by
  have := g.arch.two_pow_32_le
  refine .inl ?_
  unfold Geometry.EndOfFatChain Geometry.special Geometry.clusterLast
  omega

theorem stops_zero (g : Geometry) : g.Stops 0 := .inr (.inl rfl)

/-- Only finitely many values are on a chain. -/
instance (g : Geometry) (m : Nat → Byte) (c : Nat) :
    Finite { d // Relation.ReflTransGen (Leads (g.next m)) c d } := by
  have hfinite : ({c} ∪ { d | d < 2 ^ g.arch.bits } : Set Nat).Finite :=
    (Set.finite_singleton c).union (Set.finite_lt_nat _)
  refine (hfinite.subset ?_).to_subtype
  intro d hd
  rcases Relation.ReflTransGen.cases_tail hd with rfl | ⟨b, -, hb⟩
  · exact .inl rfl
  · right
    rw [← (next_eq_some hb).2]
    exact g.read_lt m b

/-! ## Loops that read -/

theorem addClusters_isSome (fuel size c : Nat) (v : FlatVol) :
    (Vol.addClusters flat g fuel size c v).isSome = (follow (g.next v.disk) fuel c).isSome := by
  induction fuel generalizing size c v with
  | zero => rfl
  | succ fuel ih =>
    rw [Vol.addClusters]
    by_cases hend : g.EndOfFatChain c
    · rw [if_pos hend, follow_end (next_of_stops (.inl hend))]
      rfl
    · rw [if_neg hend]
      by_cases hcorrupt : g.Corrupt c
      · rw [if_pos hcorrupt, follow_end (next_of_stops (.inr hcorrupt))]
        rfl
      · obtain ⟨hread, hdisk⟩ := fatGetFatEntry_read g c v
        rw [if_neg hcorrupt, follow_next (next_of_not_stops (not_or.mpr ⟨hend, hcorrupt⟩)),
          Option.isSome_map]
        dsimp only
        rw [ih, hread, hdisk]

theorem findEnd_isSome (fuel last count c : Nat) (v : FlatVol) :
    (Vol.findEnd flat g fuel last count c v).isSome = (follow (g.next v.disk) fuel c).isSome := by
  induction fuel generalizing last count c v with
  | zero => rfl
  | succ fuel ih =>
    rw [Vol.findEnd]
    by_cases hend : g.EndOfFatChain c
    · rw [if_pos hend, follow_end (next_of_stops (.inl hend))]
      rfl
    · rw [if_neg hend]
      by_cases hcorrupt : g.Corrupt c
      · rw [if_pos hcorrupt, follow_end (next_of_stops (.inr hcorrupt))]
        rfl
      · obtain ⟨hread, hdisk⟩ := fatGetFatEntry_read g c v
        rw [if_neg hcorrupt, follow_next (next_of_not_stops (not_or.mpr ⟨hend, hcorrupt⟩)),
          Option.isSome_map]
        dsimp only
        rw [ih, hread, hdisk]

/-- The chain has an end exactly if it has no cycle. -/
theorem chain_ends_iff (g : Geometry) (m : Nat → Byte) (c : Nat) :
    (∃ fuel, (follow (g.next m) fuel c).isSome) ↔ NoCycle (g.next m) c := by
  rw [← follow_ends_iff]
  exact exists_congr fun fuel => Option.isSome_iff_exists

/-- What `FatGetFatEntry` returns is below the mark of a bad cluster or among the last 16 numbers. -/
theorem read_gap (g : Geometry) (m : Nat → Byte) (c : Nat) :
    g.read m c < g.badMark ∨ 2 ^ g.arch.bits - 16 ≤ g.read m c := by
  unfold Geometry.read
  split
  · right
    unfold Geometry.clusterLast
    omega
  · unfold Geometry.extend
    split
    · right
      omega
    · left
      omega

/-- The cluster behind the last one of a run that is as long as can be. -/
theorem read_ne_badMark (g : Geometry) (m : Nat → Byte) (c : Nat) : g.read m c ≠ g.badMark := by
  have hbound := g.bound_lt
  have hmark := g.badMark_lt_bound
  have := read_gap g m c
  omega

/-- A run ends at the latest before the mark of a bad cluster. -/
theorem extendRun_ends (run : Nat) (hc : ¬g.Corrupt c) (v : FlatVol) :
    ∃ fuel, (Vol.extendRun flat g fuel run c v).isSome := by
  have hbound := g.bound_lt
  have hmark := g.badMark_lt_bound
  have hpos : 0 < g.badMark := by unfold Geometry.badMark; cases g.fatType <;> decide
  have hadd : ∀ {c}, c + 1 < 2 ^ g.arch.bits → g.arch.add c 1 = c + 1 := Nat.mod_eq_of_lt
  have hlt : c < 2 ^ g.arch.bits := by
    unfold Geometry.Corrupt Geometry.special at hc
    omega
  clear hc
  -- so many clusters are before the mark, or before the first number and then before the mark
  obtain ⟨n, hn⟩ : ∃ n, n = if c < g.badMark then g.badMark - 1 - c
      else 2 ^ g.arch.bits - 1 - c + g.badMark := ⟨_, rfl⟩
  induction n generalizing run c v with
  | zero =>
    have hend : g.arch.add c 1 = g.badMark := by
      split at hn
      · rw [hadd (by omega)]
        omega
      · omega
    refine ⟨1, ?_⟩
    rw [Vol.extendRun, hend, (fatGetFatEntry_read g c v).1, if_neg (read_ne_badMark g v.disk c)]
    rfl
  | succ n ih =>
    by_cases hnext : (Vol.fatGetFatEntry flat g c v).1 = g.arch.add c 1
    · have hlt' : g.arch.add c 1 < 2 ^ g.arch.bits := Nat.mod_lt _ (Nat.two_pow_pos _)
      have hn' : n = if g.arch.add c 1 < g.badMark then g.badMark - 1 - g.arch.add c 1
          else 2 ^ g.arch.bits - 1 - g.arch.add c 1 + g.badMark := by
        by_cases hwrap : c + 1 < 2 ^ g.arch.bits
        · have hne := read_ne_badMark g v.disk c
          rw [← (fatGetFatEntry_read g c v).1, hnext] at hne
          rw [hadd hwrap] at hne ⊢
          split at hn <;> split <;> omega
        · have hzero : g.arch.add c 1 = 0 := by
            rw [show c = 2 ^ g.arch.bits - 1 by omega]
            unfold Arch.add
            rw [Nat.sub_add_cancel Nat.one_le_two_pow, Nat.mod_self]
          rw [hzero]
          split at hn <;> split <;> omega
      obtain ⟨fuel, hfuel⟩ := ih ((run + g.clusterSize) % 2 ^ 64)
        (Vol.fatGetFatEntry flat g c v).2 hlt' hn'
      refine ⟨fuel + 1, ?_⟩
      rw [Vol.extendRun, if_pos hnext]
      exact hfuel
    · refine ⟨1, ?_⟩
      rw [Vol.extendRun, if_neg hnext]
      rfl

/-! ## The last of the clusters that stay -/

theorem not_corrupt_of_next (h : g.next m c = some d) : ¬g.Corrupt c :=
  fun hcorrupt => (next_eq_some h).1 (.inr hcorrupt)

theorem corrupt_of_next (h : g.next m c = none) : g.Corrupt c := by
  by_cases hstops : g.Stops c
  · rcases hstops with hend | hcorrupt
    · exact .inr (Nat.le_of_lt hend)
    · exact hcorrupt
  · rw [next_of_not_stops hstops] at h
    cases h

/-- If the chain is too short, there is no last cluster that stays. -/
theorem findLast_none (h : Healthy g) (hl : follow (g.next v.disk) fuel c = some l)
    (hn : l.length ≤ n) (last : Nat) : (Vol.findLast flat g n last c v).1 = none := by
  induction n generalizing fuel last c l v with
  | zero =>
    obtain ⟨r, rfl⟩ := follow_head hl
    cases hn
  | succ n ih =>
    rcases follow_cases hl with ⟨hnone, rfl⟩ | ⟨b, k, r, hnext, rfl, hr, rfl⟩
    · rw [Vol.findLast, if_pos (corrupt_of_next hnone)]
    · obtain ⟨hread, halike⟩ := h.get c v
      have hrest : follow (g.next (Vol.fatGetFatEntry flat g c v).2.disk) k
          (Vol.fatGetFatEntry flat g c v).1 = some r := by
        rw [halike.disk, hread, (next_eq_some hnext).2]
        exact hr
      rw [Vol.findLast, if_neg (not_corrupt_of_next hnext)]
      exact ih hrest (Nat.le_of_succ_le_succ hn) c

/-- Otherwise it is the cluster of that number in the chain. -/
theorem findLast_some (h : Healthy g) {p r : List Nat}
    (hl : follow (g.next v.disk) fuel c = some (p ++ d :: n :: r)) (last : Nat) :
    ∃ v', Alike v v' ∧ Vol.findLast flat g (p.length + 1) last c v = (some (d, n), v') := by
  induction p generalizing fuel last c v with
  | nil =>
    rcases follow_cases hl with ⟨-, heq⟩ | ⟨b, k, l', hnext, rfl, hr, heq⟩
    · cases heq
    · cases heq
      obtain ⟨r', heq⟩ := follow_head hr
      cases heq
      obtain ⟨hread, halike⟩ := h.get d v
      refine ⟨_, halike, ?_⟩
      rw [List.length_nil, Vol.findLast, if_neg (not_corrupt_of_next hnext)]
      dsimp only
      rw [Vol.findLast, hread, (next_eq_some hnext).2]
  | cons x p ih =>
    rcases follow_cases hl with ⟨-, heq⟩ | ⟨b, k, l', hnext, rfl, hr, heq⟩
    · cases p <;> cases heq
    · cases heq
      obtain ⟨hread, halike⟩ := h.get x v
      have hrest : follow (g.next (Vol.fatGetFatEntry flat g x v).2.disk) k
          (Vol.fatGetFatEntry flat g x v).1 = some (p ++ d :: n :: r) := by
        rw [halike.disk, hread, (next_eq_some hnext).2]
        exact hr
      obtain ⟨v', halike', hfind⟩ := ih hrest x
      refine ⟨v', halike.trans halike', ?_⟩
      rw [List.length_cons, Vol.findLast, if_neg (not_corrupt_of_next hnext)]
      exact hfind

end EfiCore.Fat
