import Mathlib.Data.Fintype.Card
import Mathlib.Logic.Relation
import Mathlib.Order.WellFounded
import Mathlib.Data.Fintype.Order

/-! # Following links

A chain of links on a medium or in a table: from each place there is at most one next place.
Following the links comes to an end exactly if no place that is reached leads back to itself.
-/

namespace EfiCore.Lib

universe u

variable {α : Type u} {next : α → Option α} {a b : α} {n m : Nat} {l l' : List α}

/-- The places on the chain from `a` on, if it ends within `n` places. -/
def follow (next : α → Option α) : Nat → α → Option (List α)
  | 0, _ => none
  | n + 1, a =>
    match next a with
    | none => some [a]
    | some b => (follow next n b).map (a :: ·)

/-- There is a link from `a` to `b`. -/
def Leads (next : α → Option α) (a b : α) : Prop := next a = some b

/-- No place that is reached from `a` leads back to itself. -/
def NoCycle (next : α → Option α) (a : α) : Prop :=
  ∀ b, Relation.ReflTransGen (Leads next) a b → ¬ Relation.TransGen (Leads next) b b

theorem follow_end (h : next a = none) : follow next (n + 1) a = some [a] := by
  rw [follow, h]

theorem follow_next (h : next a = some b) :
    follow next (n + 1) a = (follow next n b).map (a :: ·) := by
  rw [follow, h]

theorem follow_head (h : follow next n a = some l) : ∃ r, l = a :: r := by
  cases n with
  | zero => cases h
  | succ n =>
    cases hn : next a with
    | none =>
      rw [follow_end hn] at h
      exact ⟨[], (Option.some.inj h).symm⟩
    | some b =>
      rw [follow_next hn] at h
      obtain ⟨r, -, rfl⟩ := Option.map_eq_some_iff.mp h
      exact ⟨r, rfl⟩

/-- The chain from `a` is `a` alone, or `a` and the chain from the next place. -/
theorem follow_cases (h : follow next n a = some l) :
    (next a = none ∧ l = [a]) ∨
      ∃ b m l', next a = some b ∧ n = m + 1 ∧ follow next m b = some l' ∧ l = a :: l' := by
  cases n with
  | zero => cases h
  | succ n =>
    cases hn : next a with
    | none =>
      rw [follow_end hn] at h
      exact .inl ⟨rfl, (Option.some.inj h).symm⟩
    | some b =>
      rw [follow_next hn] at h
      obtain ⟨l', hl', rfl⟩ := Option.map_eq_some_iff.mp h
      exact .inr ⟨b, n, l', rfl, rfl, hl', rfl⟩

/-- The chain only depends on the links of its places. -/
theorem follow_congr {next' : α → Option α} (h : follow next n a = some l)
    (hsame : ∀ b ∈ l, next b = next' b) : follow next' n a = some l := by
  induction n generalizing a l with
  | zero => cases h
  | succ n ih =>
    rcases follow_cases h with ⟨hn, rfl⟩ | ⟨b, m, r, hn, hm, hr, rfl⟩
    · rw [hsame a List.mem_cons_self] at hn
      exact follow_end hn
    · cases hm
      rw [hsame a List.mem_cons_self] at hn
      rw [follow_next hn, ih hr fun c hc => hsame c (List.mem_cons_of_mem a hc)]
      rfl

/-- From each of its places on, a chain is the rest of it. -/
theorem follow_append {p r : List α} (h : follow next n a = some (p ++ b :: r)) :
    ∃ m, follow next m b = some (b :: r) := by
  induction p generalizing n a with
  | nil =>
    obtain ⟨r', hr'⟩ := follow_head h
    rw [List.nil_append] at h hr'
    cases hr'
    exact ⟨n, h⟩
  | cons x p ih =>
    rcases follow_cases h with ⟨-, heq⟩ | ⟨c, m, l', -, -, hl', heq⟩
    · cases p <;> cases heq
    · cases heq
      exact ih hl'

/-- The chain does not depend on the bound. -/
theorem follow_unique (h : follow next n a = some l) (h' : follow next m a = some l') : l = l' := by
  induction n generalizing a l m l' with
  | zero => cases h
  | succ n ih =>
    rcases follow_cases h with ⟨hn, rfl⟩ | ⟨b, k, r, hn, hk, hr, rfl⟩
    · rcases follow_cases h' with ⟨-, rfl⟩ | ⟨b', k', r', hn', -⟩
      · rfl
      · rw [hn] at hn'
        cases hn'
    · rcases follow_cases h' with ⟨hn', -⟩ | ⟨b', k', r', hn', hk', hr', rfl⟩
      · rw [hn] at hn'
        cases hn'
      · rw [hn] at hn'
        cases hn'
        cases hk
        rw [ih hr hr']

/-- What is reached from `a` has its own chain, which is shorter. -/
theorem follow_of_transGen (h : follow next n a = some l)
    (hr : Relation.TransGen (Leads next) a b) :
    ∃ m l', follow next m b = some l' ∧ l'.length < l.length := by
  have step : ∀ {c d : α} {n : Nat} {l : List α}, follow next n c = some l → Leads next c d →
      ∃ m l', follow next m d = some l' ∧ l'.length < l.length := by
    intro c d n l hc hcd
    rcases follow_cases hc with ⟨hn, -⟩ | ⟨d', m, l', hn, -, hl', rfl⟩
    · rw [Leads, hn] at hcd
      cases hcd
    · rw [Leads, hn] at hcd
      cases hcd
      exact ⟨m, l', hl', Nat.lt_succ_self _⟩
  induction hr with
  | single hab => exact step h hab
  | tail _ hbc ih =>
    obtain ⟨m, l', hl', hlt⟩ := ih
    obtain ⟨m', l'', hl'', hlt'⟩ := step hl' hbc
    exact ⟨m', l'', hl'', hlt'.trans hlt⟩

theorem noCycle_of_follow (h : follow next n a = some l) : NoCycle next a := by
  intro b hab hbb
  have hb : ∃ m l', follow next m b = some l' := by
    rcases Relation.reflTransGen_iff_eq_or_transGen.mp hab with rfl | hab
    · exact ⟨n, l, h⟩
    · obtain ⟨m, l', hl', -⟩ := follow_of_transGen h hab
      exact ⟨m, l', hl'⟩
  obtain ⟨m, l', hl'⟩ := hb
  obtain ⟨m', l'', hl'', hlt⟩ := follow_of_transGen hl' hbb
  rw [follow_unique hl'' hl'] at hlt
  exact Nat.lt_irrefl _ hlt

/-- The other places on a chain are reached from its first one. -/
theorem transGen_of_follow (h : follow next n a = some (a :: l)) :
    ∀ c ∈ l, Relation.TransGen (Leads next) a c := by
  induction n generalizing a l with
  | zero => cases h
  | succ n ih =>
    rcases follow_cases h with ⟨-, heq⟩ | ⟨b, k, r, hn, hk, hr, heq⟩
    · cases heq
      simp
    · cases heq
      cases hk
      intro c hc
      rcases follow_cases hr with ⟨-, rfl⟩ | ⟨b', k', r', -, -, -, rfl⟩
      · rw [List.mem_singleton.mp hc]
        exact .single hn
      · rcases List.mem_cons.mp hc with rfl | hc
        · exact .single hn
        · exact .head hn (ih hr c hc)

/-- A chain that ends comes to no place twice. -/
theorem follow_nodup (h : follow next n a = some l) : l.Nodup := by
  induction n generalizing a l with
  | zero => cases h
  | succ n ih =>
    rcases follow_cases h with ⟨-, rfl⟩ | ⟨b, k, r, hn, hk, hr, rfl⟩
    · exact List.nodup_singleton a
    · cases hk
      refine List.nodup_cons.mpr ⟨fun ha => ?_, ih hr⟩
      exact noCycle_of_follow h a .refl (transGen_of_follow h a ha)

/-- If only finitely many places are reached, a chain without a cycle ends. -/
theorem follow_of_noCycle [Finite { b // Relation.ReflTransGen (Leads next) a b }]
    (h : NoCycle next a) : ∃ n l, follow next n a = some l := by
  let Reached := { b // Relation.ReflTransGen (Leads next) a b }
  let Later : Reached → Reached → Prop := fun c b => Relation.TransGen (Leads next) b.1 c.1
  have htrans : IsTrans Reached Later := ⟨fun _ _ _ hcb hba => hba.trans hcb⟩
  have hirrefl : Std.Irrefl Later := ⟨fun b hb => h b.1 b.2 hb⟩
  have hwf : WellFounded Later := Finite.wellFounded_of_trans_of_irrefl Later
  have hall : ∀ b : Reached, ∃ n l, follow next n b.1 = some l := by
    intro b
    induction b using hwf.induction with
    | _ b ih =>
      cases hn : next b.1 with
      | none => exact ⟨1, _, follow_end hn⟩
      | some c =>
        obtain ⟨n, l, hl⟩ := ih ⟨c, b.2.tail hn⟩ (.single hn)
        exact ⟨n + 1, b.1 :: l, by rw [follow_next hn, hl]; rfl⟩
  exact hall ⟨a, .refl⟩

theorem follow_ends_iff [Finite { b // Relation.ReflTransGen (Leads next) a b }] :
    (∃ n l, follow next n a = some l) ↔ NoCycle next a :=
  ⟨fun ⟨_, _, h⟩ => noCycle_of_follow h, follow_of_noCycle⟩

end EfiCore.Lib
